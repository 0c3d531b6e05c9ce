import TensorDag.Buffer

/-!
Storage: the buffers that slots hold. A slot holds the buffer that was put there last.
-/
namespace TensorDag

-- Sums start from the numeral zero.
attribute [local instance (high)] Zero.ofOfNat0

/-- Slots with their buffers, each slot once. -/
abbrev Storage := List (Int × BufferId)

namespace Storage

def get? (s : Storage) (slot : Int) : Option BufferId := s.lookup slot

def has (s : Storage) (slot : Int) : Bool := (s.get? slot).isSome

def erase (s : Storage) (slot : Int) : Storage := s.filter fun entry => entry.1 ≠ slot

def put (s : Storage) (slot : Int) (id : BufferId) : Storage := (slot, id) :: s.erase slot

/-- Bytes of all buffers held; a buffer in two slots counts twice. -/
def byteSize (s : Storage) (store : Store) : Nat := (s.map fun entry => (store.get entry.2).size).sum

theorem lookup_cons_ne {key other : Int} (id : BufferId) (s : Storage) (differ : other ≠ key) :
    List.lookup other ((key, id) :: s) = s.lookup other := by
  have unequal : (other == key) = false := by simpa using differ
  simp only [List.lookup_cons, unequal]

theorem get?_erase (s : Storage) (slot other : Int) :
    (s.erase slot).get? other = if other = slot then none else s.get? other := by
  induction s with
  | nil => simp [erase, get?]
  | cons head rest ih =>
    obtain ⟨key, id⟩ := head
    simp only [get?] at ih ⊢
    by_cases same : key = slot
    · subst same
      rw [show erase ((key, id) :: rest) key = erase rest key by simp [erase], ih]
      by_cases equal : other = key
      · simp [equal]
      · simp [equal, lookup_cons_ne id rest equal]
    · rw [show erase ((key, id) :: rest) slot = (key, id) :: erase rest slot by
        simp [erase, same]]
      by_cases equal : other = key
      · subst equal; simp [same]
      · rw [lookup_cons_ne id _ equal, ih, lookup_cons_ne id _ equal]

theorem get?_put (s : Storage) (slot other : Int) (id : BufferId) :
    (s.put slot id).get? other = if other = slot then some id else s.get? other := by
  by_cases same : other = slot
  · simp [put, get?, same]
  · have erased := get?_erase s slot other
    simp only [get?, same, if_false] at erased
    simp [put, get?, same, lookup_cons_ne id _ same, erased]

end Storage
end TensorDag
