/-!
White space. `isBlank` is the class that separates the words of a program;
`isNumberBlank` is the class that may surround a number read from text, which lacks the
four information separators.
-/

namespace TuneScript.Text

def isBlank (c : Char) : Bool :=
  let n := c.toNat
  (9 ≤ n && n ≤ 13) || (28 ≤ n && n ≤ 32) || n == 133 || n == 160 || n == 5760 ||
    (8192 ≤ n && n ≤ 8202) || n == 8232 || n == 8233 || n == 8239 || n == 8287 || n == 12288

def isNumberBlank (c : Char) : Bool :=
  isBlank c && !(28 ≤ c.toNat && c.toNat ≤ 31)

/-- The text without the characters of a class at both ends. -/
def trimBy (p : Char → Bool) (cs : List Char) : List Char :=
  ((cs.dropWhile p).reverse.dropWhile p).reverse

/-- The text without white space at both ends. -/
def trim (s : String) : String := String.ofList (trimBy isBlank s.toList)

end TuneScript.Text
