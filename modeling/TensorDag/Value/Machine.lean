import TensorDag.MachineType.Spelling
import TensorDag.Value.Numbers

/-!
Values held as values of a machine type, one by one or in arrays.
-/
namespace TensorDag
namespace Value

/-- A text cut to a width, where it is not zero. Zeros at its end are not told from filling. -/
def fitted (width : Nat) (s : String) : String :=
  let kept := if width = 0 then s.toList else s.toList.take width
  String.ofList (kept.reverse.dropWhile (·.toNat = 0)).reverse

def asText : Value → String
  | .bytes bs | .scalar _ (.bytes bs) => Text.ofAscii bs.toList
  | v => v.plain

/-- The bytes that a value becomes. -/
def asBytes (v : Value) : Result Bytes :=
  match v with
  | .bytes bs | .scalar _ (.bytes bs) => .ok bs
  | v =>
    if v.plain.toList.all fun c => c.toNat < 0x80 then
      .ok (v.plain.toList.map fun c => UInt8.ofNat c.toNat).toArray
    else .fault .notNumeral

/-- A whole number in the range of a type. -/
def inRange (type : MachineType) (i : Int) : Result Value :=
  match type.range? with
  | some (least, past) => if least ≤ i ∧ i < past then .ok (.int i) else .fault .tooLarge
  | none => .ok (.int i)

/-- What becomes of a value that is held as one of a type. -/
def held (type : MachineType) (v : Value) : Result Value :=
  match type with
  | .truth => .ok (.bool !v.isNothing)
  | .floating f => do return .float ((← v.double).roundTo f)
  | .text width => .ok (.text (fitted width v.asText))
  | .octets width => do
    let bs ← v.asBytes
    return .bytes (if width = 0 then bs
      else ((bs.extract 0 width).toList.reverse.dropWhile (· = 0)).reverse.toArray)
  | type => v.truncated >>= inRange type

mutual

/-- The lengths of nested lists from the outside in; `none` where lists beside each other differ. -/
def extent? : Value → Option (List Nat)
  | .list items | .tuple items => extents? items
  | .array _ content => extent? content
  | _ => some []

/-- The extent of a list with the given items. -/
def extents? : List Value → Option (List Nat)
  | [] => some [0]
  | v :: rest =>
    match extent? v, rest with
    | some inner, [] => some (1 :: inner)
    | some inner, _ :: _ =>
      match extents? rest with
      | some (count :: others) => if others = inner then some ((count + 1) :: inner) else none
      | _ => none
    | none, _ => none

end

/-- The extent of nested lists, of which there are no more than an array has axes. -/
def extent (v : Value) : Result Shape :=
  match v.extent? with
  | none => .fault .ragged
  | some lengths => if Shape.maxRank < lengths.length then .fault .tooDeep else .ok lengths

mutual

/-- The same for all items of nested lists. -/
def heldCells (type : MachineType) : Value → Result Value
  | .list items | .tuple items => do return .list (← heldAll type items)
  | .array _ content => heldCells type content
  | v => held type v

def heldAll (type : MachineType) : List Value → Result (List Value)
  | [] => .ok []
  | v :: rest => do return (← heldCells type v) :: (← heldAll type rest)

end

/-- Texts as wide as the widest cell, where no width is given. -/
def widened (type : MachineType) (content : Value) : MachineType :=
  let widest := (leaves content).foldl (fun width v =>
    match v with
    | .text s => max width s.length
    | .bytes bs => max width bs.size
    | _ => width) 1
  match type with
  | .text 0 => .text widest
  | .octets 0 => .octets widest
  | type => type

def arrayOf (type : MachineType) (v : Value) : Result Value := do
  let _ ← v.extent
  let content ← heldCells type v
  return .array (widened type content) content

/-- A single value of a machine type; lists become arrays. -/
def ofMachine (type : MachineType) (v : Value) : Result Value :=
  match type, v with
  | .text _, v => do return .scalar type (← held (.text 0) v)
  | type, .list _ | type, .tuple _ => arrayOf type v
  | type, v => do return .scalar type (← held type v)

end Value

/-- The machine type that a text names. -/
def MachineType.ofName (s : String) : Result MachineType :=
  match Spelling.ofText s with
  | .machine t => .ok t
  | _ => .fault .notNumber

end TensorDag
