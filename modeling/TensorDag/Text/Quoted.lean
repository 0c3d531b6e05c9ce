import TensorDag.Text.Hexadecimal
import TensorDag.Text.Printable

/-!
Quoted text as messages show it: quotes around the characters, escapes for what would not show.
-/
namespace TensorDag.Text

/-- A character inside quotes: the quote mark and the backslash are escaped, and so is everything
that is not printable, by the shortest of the three numeric forms. -/
def escape (mark c : Char) : String :=
  if c = mark || c = '\x5c' then String.ofList ['\x5c', c]
  else if c = '\t' then "\\t"
  else if c = '\n' then "\\n"
  else if c = '\r' then "\\r"
  else if isPrintable c then String.singleton c
  else if c.toNat < 0x100 then "\\x" ++ hexNumeral 2 c.toNat
  else if c.toNat < 0x10000 then "\\u" ++ hexNumeral 4 c.toNat
  else "\\U" ++ hexNumeral 8 c.toNat

/-- Double quotes where the text has a single quote and no double one, else single quotes. -/
def quoteMark (s : String) : Char :=
  if s.contains '\x27' && !s.contains '\x22' then '\x22' else '\x27'

def quote (s : String) : String :=
  let mark := quoteMark s
  String.singleton mark ++ String.join (s.toList.map (escape mark)) ++ String.singleton mark

/-- Bytes between quotes, those outside printable ASCII in hexadecimal. -/
def quoteBytes (bytes : List UInt8) : String :=
  let cs := bytes.map fun b => Char.ofNat b.toNat
  let mark := quoteMark (String.ofList cs)
  let escaped (c : Char) : String :=
    if 0x7f ≤ c.toNat then "\\x" ++ hexNumeral 2 c.toNat else escape mark c
  "b" ++ String.singleton mark ++ String.join (cs.map escaped) ++ String.singleton mark

/-- Bytes as characters of ASCII; what is none shows as the replacement character. -/
def ofAscii (bytes : List UInt8) : String :=
  String.ofList (bytes.map fun b => if b < 0x80 then Char.ofNat b.toNat else '\ufffd')

end TensorDag.Text
