import VectorFormula.Text.Lowercase
import VectorFormula.Text.MarklessTable
/-!
Quoted text: double quotes around it, a backslash before quotes and backslashes, short names for
the common controls, and numbers for all other characters that leave no mark.
-/
namespace VectorFormula.Text

/-- A code point written by number, in lowercase hexadecimal digits. -/
def byNumber (n : Nat) : List Char :=
  ['\\', 'u', '\x7b'] ++ Nat.toDigits 16 n ++ ['\x7d']

def quotedChar (c : Char) : List Char :=
  if c = '"' ∨ c = '\\' then ['\\', c]
  else if c = '\n' then ['\\', 'n']
  else if c = '\r' then ['\\', 'r']
  else if c = '\t' then ['\\', 't']
  else if c.toNat = 0 then ['\\', '0']
  else if inRanges markless c.toNat then byNumber c.toNat
  else [c]

def quoted (text : String) : String :=
  String.ofList ('"' :: text.toList.flatMap quotedChar ++ ['"'])

end VectorFormula.Text
