import TensorDag.Value.ArrayText

/-!
Values as messages show them: `Value.shown` is unambiguous, `Value.plain` leaves text as it is.
-/
namespace TensorDag.Value
open Binary (Format)

/-- A number with a fraction as a number of its layout. -/
def fractionText (f : Format) (v : Value) : String := Decimal.general f (readingIn f v)

/-- A number of a machine type. -/
def scalarText (type : MachineType) (v : Value) : String :=
  match type, v with
  | .truth, .bool b => "np." ++ truthText b ++ "_"
  | .floating f, v => "np." ++ type.name ++ "(" ++ fractionText f v ++ ")"
  | type, v => "np." ++ type.name ++ "(" ++ cellText v ++ ")"

def elementTypeText : ElementType → String
  | .float32 => "DataType.FLOAT32"
  | .int32 => "DataType.INT32"

mutual

def shown : Value → String
  | .null => "None"
  | .bool b => if b then "True" else "False"
  | .int i => toString i
  | .float x => x.text
  | .undefined _ => Double.undefined.text
  | .text s => Text.quote s
  | .bytes bs => Text.quoteBytes bs.toList
  | .elementType e => "<" ++ elementTypeText e ++ ": " ++ Text.quote e.name ++ ">"
  | .list items => bracketed (shownAll items)
  | .tuple items => parenthesized (shownAll items)
  | .set [] => "set()"
  | .set items => "\x7b" ++ ", ".intercalate (shownAll items) ++ "\x7d"
  | .dictionary entries => "\x7b" ++ ", ".intercalate (shownEntries entries) ++ "\x7d"
  | .scalar type value => scalarText type value
  | .array type content => arrayText type content
  | .node n => n.text
  | .buffer _ content => content.text

def shownAll : List Value → List String
  | [] => []
  | v :: rest => shown v :: shownAll rest

def shownEntries : List (Value × Value) → List String
  | [] => []
  | (key, value) :: rest => (shown key ++ ": " ++ shown value) :: shownEntries rest

end

/-- A number or text of a machine type on its own. -/
def plainScalar (type : MachineType) (v : Value) : String :=
  match type, v with
  | .floating f, v => fractionText f v
  | _, .text s => s
  | _, v => cellText v

def plain : Value → String
  | .text s => s
  | .elementType e => elementTypeText e
  | .scalar type v => plainScalar type v
  | .array type (.list items) => cellsText type (.list items) "" 1 lineWidth
  | .array type v => plainScalar type v
  | v => v.shown

end TensorDag.Value
