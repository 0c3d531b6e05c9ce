import TensorDag.MachineType
import TensorDag.Node

/-!
Values that callers hand in: shapes, parameters and data before they are checked. `items?` says
what a value is when it is gone through, `int?` when it is taken as a whole number.
-/
namespace TensorDag

inductive Value
  | null
  | bool (b : Bool)
  | int (i : Int)
  | float (x : Double)
  /-- An undefined number that is handed in more than once, as an object. -/
  | undefined (object : Nat)
  | text (s : String)
  | bytes (bytes : Bytes)
  | elementType (e : ElementType)
  | list (items : List Value)
  | tuple (items : List Value)
  | set (items : List Value)
  | dictionary (entries : List (Value × Value))
  /-- A number or text of a machine type. -/
  | scalar (type : MachineType) (value : Value)
  /-- An array of a machine type, its content as nested lists. -/
  | array (type : MachineType) (content : Value)
  | node (n : Node)
  | buffer (id : BufferId) (content : Buffer)

def Shape.wholes (s : Shape) : List Value := s.map fun (dim : Nat) => .int dim

namespace Value

instance : Inhabited Value := ⟨.null⟩

def ints (is : List Int) : Value := .list (is.map .int)

def dims (s : Shape) : Value := .list s.wholes

def ofPair (p : Int × Int) : Value := .tuple [.int p.1, .int p.2]

/-- Whole numbers, those of machine types included; a truth value is none. -/
def int? : Value → Option Int
  | .int i => some i
  | .scalar _ (.int i) => some i
  | _ => none

/-- Whole numbers where a truth value counts as one. -/
def isWhole : Value → Bool
  | .bool _ => true
  | v => v.int?.isSome

/-- An element of an array: a number of the array's type or an array of one rank less. -/
def element (type : MachineType) : Value → Value
  | .list items => .array type (.list items)
  | v => .scalar type v

/-- What a value yields when it is gone through; `none` where it cannot be. -/
def items? : Value → Option (List Value)
  | .list items | .tuple items | .set items => some items
  | .text s | .scalar _ (.text s) => some (s.toList.map fun c => .text (String.singleton c))
  | .bytes bs | .scalar _ (.bytes bs) => some (bs.toList.map fun b => .int b.toNat)
  | .dictionary entries => some (entries.map Prod.fst)
  | .array type (.list items) => some (items.map (element type))
  | _ => none

def typeName : Value → String
  | .null => "NoneType"
  | .bool _ => "bool"
  | .int _ => "int"
  | .float _ | .undefined _ => "float"
  | .text _ => "str"
  | .bytes _ => "bytes"
  | .elementType _ => "DataType"
  | .list _ => "list"
  | .tuple _ => "tuple"
  | .set _ => "set"
  | .dictionary _ => "dict"
  | .scalar type _ => type.name
  | .array _ _ => "ndarray"
  | .node _ => "Operation"
  | .buffer _ _ => "Buffer"

/-- Null, false, zeros and what is empty; an array is neither that nor its contrary. -/
def isNothing : Value → Bool
  | .null | .bool false | .int 0 | .text "" => true
  | .float x => x.isZero
  | .bytes bs => bs.isEmpty
  | .list items | .tuple items | .set items => items.isEmpty
  | .dictionary entries => entries.isEmpty
  | .scalar _ v => isNothing v
  | .buffer _ content => content.size = 0
  | _ => false

/-- Whole numbers and what counts as one where a place or a size is meant: truth values, and arrays
without axes. -/
def index? : Value → Option Int
  | .bool b => some (if b then 1 else 0)
  | .array _ (.int i) => some i
  | v => v.int?

def field? (name : String) : List (Value × Value) → Option Value
  | [] => none
  | (.text key, value) :: rest => if key = name then some value else field? name rest
  | _ :: rest => field? name rest

/-- Whether two values are one thing: nodes, buffers and element types by what they are; of the others
only small ones are shared. -/
def same : Value → Value → Bool
  | .node a, .node b => a.same b
  | .buffer a _, .buffer b _ => a = b
  | .elementType a, .elementType b => a = b
  | .undefined a, .undefined b => a = b
  | .null, .null => true
  | .bool a, .bool b => a = b
  | .int a, .int b => a = b && -5 ≤ a && a ≤ 256
  | .text a, .text b => a = b && (a.isEmpty || (a.length = 1 && a.front.toNat < 256))
  | .bytes a, .bytes b => a = b && a.size ≤ 1
  | .tuple a, .tuple b => a.isEmpty && b.isEmpty
  | _, _ => false

end Value
end TensorDag
