import TensorDag.MachineType.Spelling
import TensorDag.Value.Numbers

/-!
Types read from values: spelled by a text, put together from other types, or taken from a number of
a machine type.
-/
namespace TensorDag

namespace Spelling

/-- A type and something about it: a shape, a size, or another type of the same size. -/
def paired (type : Spelling) (about : Value) (other : Spelling) : Spelling :=
  let isShape := match about with | .int _ | .bool _ | .tuple _ => true | _ => false
  if type.isFault then type
  else
    match type.size?, about with
    | none, .tuple _ => .unknown
    | none, _ => if isShape || !other.isFault then .composite else .unknown
    | some _, .tuple [] => type
    | some size, _ =>
      if isShape then .composite else if other.size? = some size then type else .unfit

/-- What entries of a dictionary of fields come to. -/
def ofField (offset : Value) (type : Spelling) : Spelling :=
  match offset.truncated with
  | .error e => if e.category = .type then .unknown else .unfit
  | .ok i => if i < 0 then .unfit else type

def hasLength : Value → Bool
  | .buffer _ _ => true
  | v => v.items?.isSome

mutual

/-- The type that a value denotes. -/
def ofValue : Value → Spelling
  | .elementType e => .machine (.ofElement e)
  | .text s | .scalar _ (.text s) => ofText s
  | .bytes bs | .scalar _ (.bytes bs) =>
    if bs.all (· < 0x80) then ofText (Text.ofAscii bs.toList) else .unknown
  | .scalar type _ => .machine type
  | .null => .other 8
  | .tuple [type, about] => paired (ofValue type) about (ofValue about)
  | .list items => combined (ofItemsOf items)
  | .dictionary entries =>
    if (Value.field? "names" entries).isSome && (Value.field? "formats" entries).isSome then .composite
    else combined (ofEntries entries)
  | _ => .unknown

def ofItemsOf : List Value → List Spelling
  | [] => []
  | item :: rest => ofNamed item :: ofItemsOf rest

/-- A named field: a name and a type, perhaps with a shape. -/
def ofNamed : Value → Spelling
  | .tuple [.text _, type] => ofValue type
  | .tuple [.text _, type, about] => paired (ofValue type) about (ofValue about)
  | _ => .unknown

/-- The types of the fields of a dictionary. -/
def ofEntries : List (Value × Value) → List Spelling
  | [] => []
  | (_, .tuple [type, offset]) :: rest => ofField offset (ofValue type) :: ofEntries rest
  | (_, .tuple [type, offset, _]) :: rest => ofField offset (ofValue type) :: ofEntries rest
  | (_, v) :: rest => (if hasLength v then .unfit else .unknown) :: ofEntries rest

end
end Spelling

namespace ElementType

/-- The element type that a value denotes. -/
def ofValue (v : Value) : Result ElementType :=
  match Spelling.ofValue v with
  | .machine t => ((t.element?).map .ok).getD (.error (.unsupportedElementType v))
  | .other _ | .composite | .unfit => .error (.unsupportedElementType v)
  | .unknown => .error (.unknownElementType v)
  | .malformed => .fault .malformed

end ElementType

/-- A tensor type from an element type and a shape as callers give them. -/
def TensorType.ofValues (elementType shape : Value) : Result TensorType := do
  let e ← ElementType.ofValue elementType
  return ⟨e, ← shape.shape⟩

end TensorDag
