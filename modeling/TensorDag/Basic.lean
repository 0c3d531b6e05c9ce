/-!
Powers of numbers, and places in sequences. A natural exponent means the power of the core library, by
which closed terms are evaluated, in every module of this library.
-/
namespace TensorDag

attribute [instance (high)] instPowNat
attribute [default_instance 10001] instPowNat

/-- The place from the front that a number means in a sequence of a given length. -/
def place? (length : Nat) (i : Int) : Option Nat :=
  let front := if i < 0 then i + length else i
  if 0 ≤ front ∧ front < length then some front.toNat else none

theorem place?_ofNat {length place : Nat} (inside : place < length) :
    place? length place = some place := by
  have front : ¬((place : Int) < 0) := by omega
  simp [place?, front, inside]

end TensorDag
