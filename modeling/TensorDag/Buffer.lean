import TensorDag.TensorType

/-!
Buffers of bytes and the store that gives them identities. Elements are words of four bytes, the
lowest byte first. A buffer once marked read-only stays so.
-/
namespace TensorDag

abbrev Bytes := Array UInt8

namespace Bytes

def ofWord (w : UInt32) : List UInt8 :=
  [w.toUInt8, (w >>> 8).toUInt8, (w >>> 16).toUInt8, (w >>> 24).toUInt8]

def toWord (a b c d : UInt8) : UInt32 :=
  a.toUInt32 ||| (b.toUInt32 <<< 8) ||| (c.toUInt32 <<< 16) ||| (d.toUInt32 <<< 24)

def ofWords (words : List UInt32) : Bytes := (words.flatMap ofWord).toArray

def word (bytes : Bytes) (place : Nat) : UInt32 :=
  toWord (bytes.getD (4 * place) 0) (bytes.getD (4 * place + 1) 0)
    (bytes.getD (4 * place + 2) 0) (bytes.getD (4 * place + 3) 0)

def words (bytes : Bytes) : List UInt32 := (List.range (bytes.size / 4)).map (word bytes)

/-- `size` bytes of a number, the lowest first. -/
def ofNat : Nat → Nat → List UInt8
  | 0, _ => []
  | size + 1, n => UInt8.ofNat n :: ofNat size (n / 256)

def zeros (size : Nat) : Bytes := Array.replicate size 0

end Bytes

structure Buffer where
  bytes : Bytes
  readonly : Bool
  deriving DecidableEq, Inhabited

namespace Buffer

def ofBytes (bytes : Bytes) : Buffer := ⟨bytes, false⟩

def size (b : Buffer) : Nat := b.bytes.size

def text (b : Buffer) : String :=
  "Buffer(nbytes=" ++ toString b.size ++ (if b.readonly then ", readonly)" else ")")

end Buffer

/-- The name of a buffer in a store. -/
abbrev BufferId := Nat

structure Store where
  buffers : Array Buffer
  deriving DecidableEq

namespace Store

def empty : Store := ⟨#[]⟩

def get (s : Store) (id : BufferId) : Buffer := s.buffers.getD id ⟨#[], false⟩

/-- A new buffer, under an identity that no earlier one has. -/
def insert (s : Store) (b : Buffer) : BufferId × Store := (s.buffers.size, ⟨s.buffers.push b⟩)

def overwrite (s : Store) (id : BufferId) (bytes : Bytes) : Store :=
  ⟨s.buffers.modify id fun b => ⟨bytes, b.readonly⟩⟩

def markReadonly (s : Store) (id : BufferId) : Store :=
  ⟨s.buffers.modify id fun b => ⟨b.bytes, true⟩⟩

end Store
end TensorDag
