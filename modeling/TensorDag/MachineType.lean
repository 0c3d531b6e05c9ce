import TensorDag.Binary.Format
import TensorDag.TensorType

/-!
Machine types: how a single number or text is laid out in memory. `MachineType.join` is the type in
which values of two types meet.
-/
namespace TensorDag

inductive MachineType
  | truth
  /-- Whole numbers in two's complement, of a number of bytes. -/
  | signed (bytes : Nat)
  | unsigned (bytes : Nat)
  | floating (format : Binary.Format)
  /-- Characters, four bytes for each. -/
  | text (width : Nat)
  /-- Plain bytes. -/
  | octets (width : Nat)
  deriving DecidableEq

namespace MachineType
open Binary (Format)

/-- Bytes of one value. -/
def size : MachineType → Nat
  | truth => 1
  | signed bytes | unsigned bytes => bytes
  | floating format => format.size
  | text width => 4 * width
  | octets width => width

def name : MachineType → String
  | truth => "bool"
  | signed bytes => "int" ++ toString (8 * bytes)
  | unsigned bytes => "uint" ++ toString (8 * bytes)
  | floating format => "float" ++ toString (8 * format.size)
  | text _ => "str_"
  | octets _ => "bytes_"

/-- The name as arrays show it, where texts have their width. -/
def label : MachineType → String
  | text width => "'<U" ++ toString width ++ "'"
  | octets width => "'|S" ++ toString width ++ "'"
  | t => t.name

def element? : MachineType → Option ElementType
  | floating format => if format = .single then some .float32 else none
  | signed bytes => if bytes = 4 then some .int32 else none
  | _ => none

def ofElement : ElementType → MachineType
  | .float32 => floating .single
  | .int32 => signed 4

def isText : MachineType → Bool
  | text _ | octets _ => true
  | _ => false

/-- Whole numbers that fit a type, from the least one up to below the end. -/
def range? : MachineType → Option (Int × Int)
  | signed bytes => some (-2 ^ (8 * bytes - 1), 2 ^ (8 * bytes - 1))
  | unsigned bytes => some (0, 2 ^ (8 * bytes))
  | _ => none

def wider (a b : Format) : Format := if a.size < b.size then b else a

/-- The narrowest layout that holds the whole numbers of some bytes. -/
def holding (bytes : Nat) : Format :=
  if bytes ≤ 1 then .half else if bytes ≤ 2 then .single else .double

/-- Characters that the numbers of a type may take. -/
def textWidth : MachineType → Nat
  | truth => 5
  | signed bytes => if bytes = 1 then 4 else if bytes = 2 then 6 else if bytes = 4 then 11 else 21
  | unsigned bytes => if bytes = 1 then 3 else if bytes = 2 then 5 else if bytes = 4 then 10 else 20
  | floating _ => 32
  | text width | octets width => width

/-- Signed and unsigned numbers: the next signed type, or doubles where there is none. -/
def joinSigns (signedBytes unsignedBytes : Nat) : MachineType :=
  if unsignedBytes < signedBytes then signed signedBytes
  else if unsignedBytes < 8 then signed (2 * unsignedBytes)
  else floating .double

/-- The type in which values of two types meet. -/
def join : MachineType → MachineType → MachineType
  | text w, t | t, text w => text (max w t.textWidth)
  | octets w, t | t, octets w => octets (max w t.textWidth)
  | truth, t | t, truth => t
  | signed a, signed b => signed (max a b)
  | unsigned a, unsigned b => unsigned (max a b)
  | signed a, unsigned b | unsigned b, signed a => joinSigns a b
  | floating f, floating g => floating (wider f g)
  | floating f, signed a | signed a, floating f
  | floating f, unsigned a | unsigned a, floating f => floating (wider f (holding a))

end MachineType
end TensorDag
