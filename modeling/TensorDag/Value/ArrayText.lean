import TensorDag.Decimal.Notation
import TensorDag.Text.Quoted
import TensorDag.Value

/-!
Arrays as messages show them. All cells are equally wide, so that they stand under one another:
whole numbers at the right, numbers with a fraction at their points. Rows that are too long are
broken between two cells.
-/
namespace TensorDag.Value
open Binary (Format)

mutual

def leaves : Value → List Value
  | .list items => leavesAll items
  | v => [v]

def leavesAll : List Value → List Value
  | [] => []
  | v :: rest => leaves v ++ leavesAll rest

end

/-- The lengths of nested lists, those of the first items standing for all. -/
def lengths : Value → Shape
  | .list [] => [0]
  | .list (first :: rest) => (rest.length + 1) :: lengths first
  | _ => []

end Value

/-- How numbers with a fraction are written in one array. -/
structure FractionLayout where
  format : Binary.Format
  exponential : Bool
  /-- Characters before the point. -/
  before : Nat
  /-- Characters after the point. -/
  after : Nat
  exponentDigits : Nat

namespace FractionLayout
open Binary (Format Reading)

def blanks (count : Nat) : String := String.ofList (List.replicate count ' ')

def right (width : Nat) (s : String) : String := blanks (width - s.length) ++ s

/-- Digits behind the point at most. -/
def precision : Nat := 8

/-- A finite number in parts: what stands before and after the point, and the exponent. -/
structure Parts where
  whole : String
  fraction : String
  exponent : Int

/-- Digits and the place of their point as parts; zeros fill up what lies between. -/
def partsOf (sign : String) (digits : List Char) (point : Int) (exponent : Int) : Parts :=
  if point ≤ 0 then
    let zeros := if digits.isEmpty then 0 else (-point).toNat
    ⟨sign ++ "0", String.ofList (List.replicate zeros '0' ++ digits), exponent⟩
  else
    let whole := digits.take point.toNat
    ⟨sign ++ String.ofList (whole ++ List.replicate (point.toNat - whole.length) '0'),
      String.ofList (digits.drop point.toNat), exponent⟩

/-- The fewest digits of a positive number, cut to `precision` behind the point. -/
def positionalParts (f : Format) (sign : String) (significand : Nat) (exponent : Int) : Parts :=
  let short := (Decimal.Numeral.shortest f significand exponent).pointed
  let (digits, point) :=
    if (short.1.length : Int) - short.2 ≤ precision then short
    else
      let (num, den) := Binary.ratio significand exponent
      (Decimal.Numeral.mk (Binary.roundRatio (num * 10 ^ precision) den) (-precision)).pointed
  partsOf sign digits point 0

/-- The same with one digit before the point. -/
def exponentialParts (f : Format) (sign : String) (significand : Nat) (exponent : Int) : Parts :=
  let short := (Decimal.Numeral.shortest f significand exponent).pointed
  let (digits, point) :=
    if short.1.length ≤ precision + 1 then short
    else
      let (num, den) := Binary.ratio significand exponent
      (Decimal.Numeral.rounded num den (precision + 1)).pointed
  partsOf sign digits 1 (point - 1)

/-- The parts of a reading, if it is finite. -/
def parts? (f : Format) (exponential : Bool) : Reading → Option Parts
  | .finite negative significand exponent =>
    let sign := if negative then "-" else ""
    some (if significand = 0 then ⟨sign ++ "0", "", 0⟩
      else if exponential then exponentialParts f sign significand exponent
      else positionalParts f sign significand exponent)
  | _ => none

/-- The magnitude of a reading as a ratio, if it is finite and not zero. -/
def magnitude? : Reading → Option (Nat × Nat)
  | .finite _ significand exponent =>
    if significand = 0 then none else some (Binary.ratio significand exponent)
  | _ => none

/-- The number of digits before the point from which numbers of a layout are written with an
exponent. -/
def longest (f : Format) : Nat := if f = .half then 3 else if f = .single then 6 else precision

def lessRatio (a b : Nat × Nat) : Bool := a.1 * b.2 < b.1 * a.2

/-- Exponents are written where some number is very large or small, or the least one more than a
thousand times smaller than the greatest. -/
def needsExponent (f : Format) (magnitudes : List (Nat × Nat)) : Bool :=
  match magnitudes with
  | [] => false
  | first :: rest =>
    let least := rest.foldl (fun a b => if lessRatio b a then b else a) first
    let greatest := rest.foldl (fun a b => if lessRatio a b then b else a) first
    -- bounds and quotient are numbers of the same layout
    let small := f.round false 1 (10 ^ 4)
    let quotient := f.round false (greatest.1 * least.2) (greatest.2 * least.1)
    !lessRatio greatest (10 ^ longest f, 1) || f.round false least.1 least.2 < small ||
      f.round false 1000 1 < quotient

/-- The magnitude of an exponent in two digits or more. -/
def digitsOf (exponent : Int) : List Char :=
  let digits := Nat.toDigits 10 exponent.natAbs
  List.replicate (2 - digits.length) '0' ++ digits

/-- The layout of some readings. -/
def ofReadings (f : Format) (readings : List Reading) : FractionLayout :=
  let exponential := needsExponent f (readings.filterMap magnitude?)
  let parts := readings.filterMap (parts? f exponential)
  let before := (parts.map fun p => p.whole.length).foldl max 0
  let fraction := (parts.map fun p => p.fraction.length).foldl max 0
  let width := (parts.map fun p => (digitsOf p.exponent).length).foldl max 0
  -- what stands behind the point counts as `after` only to align what is not finite
  let after := if parts.isEmpty then 0 else if exponential then fraction + width + 2 else fraction
  let odd := if readings.contains (.infinite true) then 4
    else if readings.any fun r => r = .undefined || r = .infinite false then 3 else 0
  ⟨f, exponential, max before (odd - (after + 1)), if exponential then fraction else after, width⟩

def width (l : FractionLayout) : Nat :=
  l.before + 1 + l.after + if l.exponential then l.exponentDigits + 2 else 0

def exponentText (l : FractionLayout) (exponent : Int) : String :=
  let digits := digitsOf exponent
  (if exponent < 0 then "e-" else "e+") ++
    String.ofList (List.replicate (l.exponentDigits - digits.length) '0' ++ digits)

/-- A cell. -/
def text (l : FractionLayout) (r : Reading) : String :=
  match parts? l.format l.exponential r with
  | some p =>
    let filler := List.replicate (l.after - p.fraction.length) (if l.exponential then '0' else ' ')
    right l.before p.whole ++ "." ++ p.fraction ++ String.ofList filler ++
      if l.exponential then l.exponentText p.exponent else ""
  | none => right l.width (Decimal.general l.format r)

end FractionLayout

namespace Value
open Binary (Format)

/-- A double as a number of a layout. -/
def readingIn (f : Format) : Value → Binary.Reading
  | .float x => f.read (x.wordIn f)
  | _ => .undefined

def truthText (b : Bool) : String := if b then "True" else "False"

/-- A cell on its own; null stands for cells left out. -/
def cellText : Value → String
  | .bool b => truthText b
  | .int i => toString i
  | .text s => Text.quote s
  | .bytes bs => Text.quoteBytes bs.toList
  | _ => "..."

/-- Cells of an array that is too large to be shown whole: of long lists three items at each end. -/
def mostCells : Nat := 1000

mutual

/-- The ends of nested lists, with null for what lies between. -/
def abridged : Value → Value
  | .list items =>
    let shown := abridgedAll items
    .list (if shown.length ≤ 6 then shown
      else shown.take 3 ++ [.null] ++ shown.drop (shown.length - 3))
  | v => v

def abridgedAll : List Value → List Value
  | [] => []
  | v :: rest => abridged v :: abridgedAll rest

end

def isNull : Value → Bool
  | .null => true
  | _ => false

/-- How the cells of an array are written. -/
def cellPrinter (type : MachineType) (content : Value) : Value → String :=
  let cells := (leaves content).filter fun v => !v.isNull
  match type, content with
  | .floating f, _ =>
    let l := FractionLayout.ofReadings f (cells.map (readingIn f))
    fun v => if v.isNull then cellText v else l.text (readingIn f v)
  | .text _, _ | .octets _, _ => cellText
  | _, .list _ =>
    let least := if type = .truth then 5 else 0
    let width := (cells.map fun v => (cellText v).length).foldl max least
    fun v => if v.isNull then cellText v else FractionLayout.right width (cellText v)
  | _, _ => cellText

/-- Lines of a row: those that are full, and the one being filled. -/
structure Lines where
  full : String
  last : String

/-- Put a word behind the last line, or on a new line where it would become too long. -/
def Lines.push (indent : String) (width : Nat) (word : String) (lines : Lines) : Lines :=
  if width < lines.last.length + word.length ∧ indent.length < lines.last.length then
    ⟨lines.full ++ lines.last.trimAsciiEnd.toString ++ "\n", indent ++ word⟩
  else ⟨lines.full, lines.last ++ word⟩

/-- Words with a separator between them, which a blank follows. -/
def Lines.pushAll (separator indent : String) (width : Nat) : List String → Lines → Lines
  | [], lines => lines
  | [word], lines => lines.push indent width word
  | word :: rest, lines =>
    let lines := lines.push indent width word
    pushAll separator indent width rest ⟨lines.full, lines.last ++ separator ++ " "⟩

/-- The cells of a row, on as many lines as they need. -/
def wrapped (separator indent : String) (width : Nat) (words : List String) : String :=
  let lines := Lines.pushAll separator indent width words ⟨"", indent⟩
  lines.full ++ lines.last

mutual

/-- Nested brackets; rows stand under one another. -/
def rows (cell : Value → String) (separator : String) (axes indent width : Nat) : Value → String
  | .list items =>
    let margin := FractionLayout.blanks indent
    let body := rowsAll cell separator (axes - 1) (indent + 1) (width - 1) items
    let inside :=
      if axes ≤ 1 then wrapped separator margin (width - 1) body
      else
        let gap := separator ++ String.ofList (List.replicate (axes - 1) '\n')
        gap.intercalate (body.map (margin ++ ·))
    "[" ++ (inside.drop indent).toString ++ "]"
  | v => cell v

def rowsAll (cell : Value → String) (separator : String) (axes indent width : Nat) :
    List Value → List String
  | [] => []
  | v :: rest =>
    rows cell separator axes indent width v :: rowsAll cell separator axes indent width rest

end

def lineWidth : Nat := 75

/-- Types that an array shows without naming them. -/
def plainTypes : List MachineType := [.signed 8, .floating .double, .truth]

/-- What is said of an array behind its cells. -/
def remarks (type : MachineType) (shape : Shape) : List String :=
  let empty := Shape.volume shape = 0
  (if empty ∧ shape ≠ [0] ∨ mostCells < Shape.volume shape then
    ["shape=" ++ parenthesized (shape.map toString)] else []) ++
    if empty || !plainTypes.contains type then ["dtype=" ++ type.label] else []

/-- Characters behind the last line end. -/
def lastLine (s : String) : Nat := (s.toList.reverse.takeWhile (· ≠ '\n')).length

/-- The cells of an array in brackets. -/
def cellsText (type : MachineType) (content : Value) (separator : String) (indent width : Nat) :
    String :=
  let shape := lengths content
  let content := if mostCells < Shape.volume shape then content.abridged else content
  if Shape.volume shape = 0 then "[]"
  else rows (cellPrinter type content) separator shape.length indent width content

/-- An array with the name of its machine type, unless that goes without saying. -/
def arrayText (type : MachineType) (content : Value) : String :=
  let head := "array("
  let body := cellsText type content "," (head.length + 1) (lineWidth - 1)
  match remarks type (lengths content) with
  | [] => head ++ body ++ ")"
  | extras =>
    let first := head ++ body ++ ","
    let rest := ", ".intercalate extras ++ ")"
    let gap := if lineWidth < lastLine first + rest.length + 1 then
        "\n" ++ FractionLayout.blanks head.length else " "
    first ++ gap ++ rest

end TensorDag.Value
