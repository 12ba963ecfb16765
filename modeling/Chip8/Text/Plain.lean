/-!
# Chip8.Text.Plain

Text without the control sequences that a terminal acts on. A sequence is an escape and an opening
bracket, then digits, semicolons and question marks, and a letter that ends it; what only begins
like one stays.
-/

namespace Chip8
namespace Text

def isParameter (c : Char) : Bool :=
  c.isDigit || c = ';' || c = '?'

/-- The length of the control sequence that the text begins with; zero if it begins with none. -/
def controlLength : List Char → Nat
  | '\x1b' :: '[' :: rest =>
    match rest.dropWhile isParameter with
    | c :: _ => if c.isAlpha then (rest.takeWhile isParameter).length + 3 else 0
    | [] => 0
  | _ => 0

/-- Leaves out `skip` characters and all control sequences behind them. -/
def plainFrom : (skip : Nat) → List Char → List Char
  | _, [] => []
  | skip + 1, _ :: cs => plainFrom skip cs
  | 0, c :: cs =>
    match controlLength (c :: cs) with
    | 0 => c :: plainFrom 0 cs
    | length + 1 => plainFrom length cs

def plain (s : String) : String :=
  String.ofList (plainFrom 0 s.toList)

end Text
end Chip8
