/-!
Blank characters and trimming. Blank is what has the White_Space property, which is more than the
four characters that may stand between tokens.
-/
namespace VectorFormula.Text

def isBlank (c : Char) : Bool :=
  let n := c.toNat
  (9 ≤ n && n ≤ 13) || n == 0x20 || n == 0x85 || n == 0xA0 || n == 0x1680 ||
    (0x2000 ≤ n && n ≤ 0x200A) || n == 0x2028 || n == 0x2029 || n == 0x202F || n == 0x205F ||
    n == 0x3000

def trim (text : List Char) : List Char :=
  ((text.dropWhile isBlank).reverse.dropWhile isBlank).reverse

def isAllBlank (text : List Char) : Bool :=
  text.all isBlank

end VectorFormula.Text
