import Chip8.Text.Hex
import Chip8.Text.Printable

/-!
# Chip8.Text.Quoted

Text between quotes, with escapes for what would not show.
-/

namespace Chip8
namespace Text

/-- Lower-case hexadecimal of exactly `width` digits. -/
def escapeDigits (width n : Nat) : List Char :=
  (zeroPad width (hexDigits n)).map Char.toLower

/-- How one character stands between quotes `mark`. -/
def escapeChar (mark c : Char) : List Char :=
  if c = mark ∨ c = '\\' then ['\\', c]
  else if c = '\n' then ['\\', 'n']
  else if c = '\r' then ['\\', 'r']
  else if c = '\t' then ['\\', 't']
  else if isPrintable c then [c]
  else if c.toNat < 0x100 then '\\' :: 'x' :: escapeDigits 2 c.toNat
  else if c.toNat < 0x10000 then '\\' :: 'u' :: escapeDigits 4 c.toNat
  else '\\' :: 'U' :: escapeDigits 8 c.toNat

/-- Single quotes, unless the text has a single quote and no double one. -/
def quoteMark (s : String) : Char :=
  if s.toList.contains '\'' && !s.toList.contains '"' then '"' else '\''

def quoted (s : String) : String :=
  let mark := quoteMark s
  String.ofList (mark :: s.toList.flatMap (escapeChar mark) ++ [mark])

end Text
end Chip8
