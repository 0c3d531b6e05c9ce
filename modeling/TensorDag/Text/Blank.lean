/-!
Blank characters and their removal from the ends of a text.
-/
namespace TensorDag.Text

/-- Inclusive ranges of the code points of blank characters: every space of Unicode, the line and
paragraph ends and the information separators. -/
def blankRanges : List (Nat × Nat) := [
  (0x9, 0xd), (0x1c, 0x20), (0x85, 0x85), (0xa0, 0xa0), (0x1680, 0x1680), (0x2000, 0x200a),
  (0x2028, 0x2029), (0x202f, 0x202f), (0x205f, 0x205f), (0x3000, 0x3000)]

def isBlank (c : Char) : Bool :=
  blankRanges.any fun (first, last) => first ≤ c.toNat && c.toNat ≤ last

/-- Blanks that may stand around a numeral: all but the information separators. -/
def isMargin (c : Char) : Bool := isBlank c && !(0x1c ≤ c.toNat && c.toNat ≤ 0x1f)

def trimBy (drops : Char → Bool) (cs : List Char) : List Char :=
  ((cs.dropWhile drops).reverse.dropWhile drops).reverse

def trim (cs : List Char) : List Char := trimBy isBlank cs

/-- Lower the letters of ASCII, which decide every word that this library compares. -/
def lower (s : String) : String :=
  String.ofList (s.toList.map Char.toLower)

end TensorDag.Text
