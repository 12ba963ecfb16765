/-!
# Chip8.Text.Hex

Numbers in upper-case hexadecimal, padded to a width, and text padded to a column.
-/

namespace Chip8
namespace Text

/-- The digit of a value below sixteen. -/
def hexDigit (d : Nat) : Char :=
  if d < 10 then Char.ofNat (48 + d) else Char.ofNat (55 + d)

/-- Hexadecimal digits, most significant first; zero has one digit. -/
def hexDigits (n : Nat) : List Char :=
  if n < 16 then [hexDigit n] else hexDigits (n / 16) ++ [hexDigit (n % 16)]

/-- Zeros in front up to `width`; longer digit strings are not cut. -/
def zeroPad (width : Nat) (digits : List Char) : List Char :=
  List.replicate (width - digits.length) '0' ++ digits

/-- Hexadecimal of total width at least `width`; the sign of a negative number counts. -/
def hexChars (width : Nat) : Int → List Char
  | .ofNat n => zeroPad width (hexDigits n)
  | .negSucc n => '-' :: zeroPad (width - 1) (hexDigits (n + 1))

def hex (width : Nat) (n : Int) : String :=
  String.ofList (hexChars width n)

/-- Two digits. -/
def hexByte (b : UInt8) : String :=
  hex 2 b.toNat

/-- Bytes with a blank between neighbours. -/
def hexBytes (bs : List UInt8) : String :=
  " ".intercalate (bs.map hexByte)

/-- Blanks behind up to `width` characters; longer text is not cut. -/
def padRight (width : Nat) (s : String) : String :=
  s ++ String.ofList (List.replicate (width - s.length) ' ')

theorem length_zeroPad (width : Nat) (digits : List Char) :
    (zeroPad width digits).length = max width digits.length := by
  simp only [zeroPad, List.length_append, List.length_replicate]
  omega

end Text
end Chip8
