import TensorDag.Memory
import TensorDag.Basic
import TensorDag.Tensor.Layout
import TensorDag.Value.Contents
import TensorDag.Value.Types

/-!
Making, reading and writing buffers. A buffer is read and written as a whole, as bytes, or through
a tensor type whose size is the buffer's.
-/
namespace TensorDag
namespace Buffer

/-- Whether a number is below zero; of arrays only those that hold one. -/
def isNegative : Value → Result Bool
  | .bool _ | .scalar _ (.bool _) | .array _ (.bool _) => .ok false
  | .int i | .scalar _ (.int i) => .ok (i < 0)
  | .float x | .scalar _ (.float x) => .ok (x.less .zero)
  | .undefined _ => .ok false
  | .array type content =>
    if type.isText then .fault .notNumber
    else match Value.leaves content with
      | [.int i] => .ok (i < 0)
      | [.float x] => .ok (x.less .zero)
      | [_] => .ok false
      | _ => .fault .wrongCount
  | _ => .fault .notNumber

/-- A buffer of zeros; sizes with a fraction are cut off. -/
def ofSize [Memory] (size : Value) : Result Buffer := do
  if ← isNegative size then .error .negativeSize
  else return ofBytes (← Bytes.cleared (← size.truncated).toNat)

/-- A buffer of elements of a type, or in the machine type that holds all numbers. -/
def ofData (data : Value) (elementType : Value) : Result Buffer :=
  match elementType with
  | .null => return ofBytes (← data.naturalBytes)
  | v => do return ofBytes (← data.elementBytes (← ElementType.ofValue v))

def ofType [Memory] (type : TensorType) : Result Buffer := do
  return ofBytes (← Bytes.cleared type.byteSize)

/-- The content as a tensor of a type of the same size. -/
def view (b : Buffer) (type : TensorType) : Result (Tensor UInt32) :=
  if type.byteSize ≠ b.size then .error (.sizeMismatch b.size type.byteSize)
  else if type.shape.holdable then .ok (Tensor.ofBytes type.shape b.bytes)
  else .fault .notAddressable

def set (b : Buffer) (bytes : Bytes) : Result Buffer :=
  if b.readonly then .error .readOnly
  else if bytes.size = b.size then .ok (ofBytes bytes)
  else .error (.sizeMismatch b.size bytes.size)

def setData [Memory] (b : Buffer) (v : Value) : Result Buffer :=
  if b.readonly then .error .readOnly else v.contentBytes >>= b.set

def putWord (bytes : Bytes) (place : Nat) (word : UInt32) : Bytes :=
  (Bytes.ofWord word).zipIdx.foldl (fun bytes (b, i) => bytes.setIfInBounds (4 * place + i) b) bytes

/-- An index of the leading axes, each counted from the front or, negative, from the end. -/
def resolveIndex : Shape → List Value → Option Index
  | _, [] => some []
  | [], _ :: _ => none
  | dim :: dims, i :: rest =>
    match i.int?.bind (place? dim), resolveIndex dims rest with
    | some place, some others => some (place :: others)
    | _, _ => none

/-- Set the cells behind an index, which stand beside each other from the one at `first` on, to
elements that stretch to them. -/
def setCells (b : Buffer) (target : Shape) (first : Nat) (elements : Shape × List UInt32) :
    Result Buffer :=
  let (shape, words) := elements
  if Shape.broadcast? shape target = some target then
    let cells := ((Tensor.ofCells shape words.toArray 0).broadcast target).cells
    .ok (ofBytes (cells.zipIdx.foldl (fun bytes (word, i) => putWord bytes (first + i) word) b.bytes))
  else .fault .doesNotStretch

/-- The axes that an index adds by its items that are no places: one for each null, and one for all
truth values, which is empty if one of them is false. -/
def addedAxes (marks : List Value) : Shape :=
  let truths := marks.filterMap fun v => match v with | .bool b => some b | _ => none
  (marks.filter fun v => v matches .null).map (fun _ => 1) ++
    (if truths.isEmpty then [] else [if truths.all id then 1 else 0])

/-- Set the elements at an index to a value; axes that the index leaves out are gone through. -/
def setElements (b : Buffer) (type : TensorType) (index : List Value) (v : Value) :
    Result Buffer := do
  let _ ← b.view type
  let (marks, places) := index.partition fun v => v matches .null | .bool _
  if b.readonly then .fault .writeProtected
  else
    match resolveIndex type.shape places with
    | none => .fault .noPlace
    | some lead =>
      let target := addedAxes marks ++ type.shape.drop lead.length
      b.setCells target (Shape.offset type.shape lead) (← v.assigned type.elementType target)

end Buffer

namespace Store

def update (s : Store) (id : BufferId) (change : Buffer → Result Buffer) : Result Store := do
  return s.overwrite id (← change (s.get id)).bytes

def write (s : Store) (id : BufferId) (bytes : Bytes) : Result Store :=
  s.update id (·.set bytes)

end Store

/-- The tensor that a leaf's own buffer holds. -/
def Node.tensor (n : Node) (store : Store) : Result (Tensor UInt32) :=
  match n.buffer with
  | some id => (store.get id).view n.type
  | none => .error (.noBuffer n.name)

end TensorDag
