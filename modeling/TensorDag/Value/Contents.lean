import TensorDag.Memory
import TensorDag.Value.Cells

/-!
Bytes of values. Without a type of their own, nested lists are held in the machine type in which all
their items meet; plain bytes come from numbers that are bytes, or from a number of zeros.
-/
namespace TensorDag.Value

def filled (length : Nat) (codes : List Nat) : List Nat :=
  codes ++ List.replicate (length - codes.length) 0

/-- A value in the bytes of its machine type. -/
def machineBytes (type : MachineType) (v : Value) : List UInt8 :=
  match type, v with
  | .floating f, .float x => Bytes.ofNat f.size (x.wordIn f)
  | .text width, .text s => (filled width (s.toList.map Char.toNat)).flatMap (Bytes.ofNat 4)
  | .octets width, .bytes bs => (filled width (bs.toList.map UInt8.toNat)).map UInt8.ofNat
  | type, .bool b => Bytes.ofNat type.size (if b then 1 else 0)
  | type, .int i => Bytes.ofNat type.size (i % (2 ^ (8 * type.size) : Nat)).toNat
  | _, _ => []

def arrayBytes (type : MachineType) (content : Value) : Bytes :=
  ((leaves content).flatMap (machineBytes type)).toArray

/-- The machine type that a value has by itself. -/
def machineType? : Value → Option MachineType
  | .bool _ => some .truth
  | .int i =>
    if -2 ^ 63 ≤ i ∧ i < 2 ^ 63 then some (.signed 8)
    else if 0 ≤ i ∧ i < 2 ^ 64 then some (.unsigned 8)
    else none
  | .float _ | .undefined _ => some (.floating .double)
  | .text s => some (.text s.length)
  | .bytes bs => some (.octets bs.size)
  | .scalar (.text 0) (.text s) => some (.text s.length)
  | .scalar (.octets 0) (.bytes bs) => some (.octets bs.size)
  | .scalar type _ => some type
  | _ => none

/-- The machine type in which some values meet: doubles where there are none, and `none` where some
value has no machine type. -/
def commonType? : List Value → Option MachineType
  | [] => some (.floating .double)
  | v :: rest => do
    let types ← rest.mapM machineType?
    return types.foldl MachineType.join (← machineType? v)

/-- Texts take at least one character. -/
def notEmpty : MachineType → MachineType
  | .text width => .text (max width 1)
  | .octets width => .octets (max width 1)
  | type => type

/-- The bytes of nested lists in the machine type in which their items meet. -/
def naturalBytes (v : Value) : Result Bytes := do
  let _ ← v.extent
  let items := v.flat
  match commonType? items with
  | none => .fault .notNumber
  | some type =>
    let type := notEmpty type
    let cells ← items.mapM (held type)
    return (cells.flatMap (machineBytes type)).toArray

/-- A whole number from 0 to 255 as a byte. -/
def byte (v : Value) : Result UInt8 :=
  match v.index? with
  | some i => if 0 ≤ i ∧ i < 256 then .ok (UInt8.ofNat i.toNat) else .fault .notByte
  | none => .fault .notNumber

/-- As many zeros as a number says. -/
def zeroBytes [Memory] (i : Int) : Result Bytes :=
  if 2 ^ 63 ≤ i ∨ i < -2 ^ 63 then .fault .tooLarge
  else if i < 0 then .fault .wrongCount
  else if (Memory.capacity : Int) < i then .fault .noMemory
  else .ok (Bytes.zeros i.toNat)

/-- A value as plain bytes: a number stands for that many zeros, a sequence for its items. -/
def rawBytes [Memory] (v : Value) : Result Bytes :=
  match v.index?, v with
  | some i, _ => zeroBytes i
  | none, .bytes bs | none, .scalar _ (.bytes bs) => .ok bs
  | none, .text _ | none, .scalar _ (.text _) => .fault .notNumber
  | none, .scalar type v => .ok (machineBytes type v).toArray
  | none, .array type content => .ok (arrayBytes type content)
  | none, v =>
    match v.items? with
    | some items => do return (← items.mapM byte).toArray
    | none => .fault .notNumber

/-- The bytes of a buffer or an array, or of any other value as plain bytes. -/
def contentBytes [Memory] : Value → Result Bytes
  | .buffer _ content => .ok content.bytes
  | .array type content => .ok (arrayBytes type content)
  | v => v.rawBytes

end TensorDag.Value
