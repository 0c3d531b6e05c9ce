import TensorDag.Basic

/-!
Shapes of tensors: their volume, their indices in row-major order, and the shape to which two of
them stretch. `offset` numbers the indices in the order in which `indices` lists them.
-/
namespace TensorDag

abbrev Shape := List Nat

/-- A position in a tensor, one coordinate for each axis. -/
abbrev Index := List Nat

namespace Shape

def volume : Shape → Nat
  | [] => 1
  | dim :: rest => dim * volume rest

/-- All indices, the last axis moving fastest. Where an axis is empty no other one is gone through. -/
def indices : Shape → List Index
  | [] => [[]]
  | dim :: rest =>
    if dim = 0 then []
    else
      match indices rest with
      | [] => []
      | inner => (List.range dim).flatMap fun i => inner.map (i :: ·)

theorem indices_cons (dim : Nat) (rest : Shape) :
    indices (dim :: rest) = (List.range dim).flatMap fun i => (indices rest).map (i :: ·) := by
  rw [indices]
  split
  · simp [*]
  · split
    · simp [*]
    · rfl

def offset : Shape → Index → Nat
  | _ :: rest, i :: index => i * volume rest + offset rest index
  | _, _ => 0

def index : Shape → Nat → Index
  | [], _ => []
  | _ :: rest, place => place / volume rest :: index rest (place % volume rest)

/-- Coordinates within the shape, one for each axis. -/
def Contains : Shape → Index → Prop
  | [], [] => True
  | dim :: rest, i :: index => i < dim ∧ Contains rest index
  | _, _ => False

theorem length_blocks {α : Type} (block : Nat → List α) (size : Nat)
    (sized : ∀ i, (block i).length = size) (count : Nat) :
    ((List.range count).flatMap block).length = count * size := by
  induction count with
  | zero => simp
  | succ count ih => simp [List.range_succ, ih, sized, Nat.succ_mul]

/-- A place in the i-th of some blocks of one length. -/
theorem getElem?_blocks {α : Type} (block : Nat → List α) (size : Nat)
    (sized : ∀ i, (block i).length = size) {count i place : Nat} (within : i < count)
    (inside : place < size) :
    ((List.range count).flatMap block)[i * size + place]? = (block i)[place]? := by
  induction count with
  | zero => omega
  | succ count ih =>
    rw [List.range_succ, List.flatMap_append]
    have long := length_blocks block size sized count
    by_cases earlier : i < count
    · have ends : (i + 1) * size ≤ count * size := Nat.mul_le_mul_right size earlier
      rw [Nat.succ_mul] at ends
      rw [List.getElem?_append_left (by omega)]
      exact ih earlier
    · have last : i = count := by omega
      subst last
      rw [List.getElem?_append_right (by omega), long]
      simp

theorem length_indices (s : Shape) : (indices s).length = volume s := by
  induction s with
  | nil => rfl
  | cons dim rest ih =>
    rw [indices_cons]
    exact length_blocks _ _ (fun i => by simp [ih]) dim

theorem offset_lt_volume : ∀ {s : Shape} {index : Index}, Contains s index →
    offset s index < volume s
  | [], [], _ => by simp [offset, volume]
  | dim :: rest, i :: index, inside => by
    have ends : (i + 1) * volume rest ≤ dim * volume rest :=
      Nat.mul_le_mul_right _ inside.1
    have inner := offset_lt_volume inside.2
    rw [Nat.succ_mul] at ends
    simp only [offset, volume]
    omega

theorem indices_offset : ∀ {s : Shape} {index : Index}, Contains s index →
    (indices s)[offset s index]? = some index
  | [], [], _ => by simp [offset, indices]
  | dim :: rest, i :: index, inside => by
    rw [indices_cons, offset, getElem?_blocks _ (volume rest)
      (fun i => by simp [length_indices]) inside.1 (offset_lt_volume inside.2)]
    simp [indices_offset inside.2]

/-- The first place that cannot be counted: sizes are kept in signed words of 64 bits. -/
def limit : Nat := 2 ^ 63

def maxRank : Nat := 64

/-- The most axes of shapes that are stretched to one another. -/
def maxStretched : Nat := 32

/-- Whether arrays of items of a size, words unless it is given, can have this shape: empty axes aside,
their bytes can be counted. -/
def holdable (s : Shape) (itemSize : Nat := 4) : Bool :=
  s.length ≤ maxRank && itemSize * volume (s.filter (· ≠ 0)) < limit

/-- Whether the axes of a shape and their sizes can be counted. -/
def addressable (s : Shape) : Bool := s.length ≤ maxRank && s.all (· < limit)

/-- Whether a size times the dimensions up to the first empty one stays countable. -/
def countable : Nat → Shape → Bool
  | _, [] => true
  | size, dim :: rest => dim = 0 || (size * dim < limit && countable (size * dim) rest)

/-- The common size of two axes: equal ones agree and a single cell stretches. -/
def stretch? (a b : Nat) : Option Nat :=
  if a = b || b = 1 then some a else if a = 1 then some b else none

/-- Axes aligned from the last one, given last axis first. -/
def stretchAll? : List Nat → List Nat → Option (List Nat)
  | [], bs => some bs
  | as, [] => some as
  | a :: as, b :: bs =>
    match stretch? a b, stretchAll? as bs with
    | some dim, some rest => some (dim :: rest)
    | _, _ => none

/-- The shape to which two shapes stretch, where there is one and its cells can be counted. -/
def broadcast? (a b : Shape) : Option Shape :=
  if a.addressable && b.addressable then
    ((stretchAll? a.reverse b.reverse).map List.reverse).filter (countable 1)
  else none

/-- The index of a stretched tensor's cell in the tensor before stretching. -/
def narrow (s : Shape) (index : Index) : Index :=
  List.zipWith (fun dim i => if dim = 1 then 0 else i) s (index.drop (index.length - s.length))

/-- Drop the leading axes of one cell that a shape has beyond a rank. -/
def dropLeading (rank : Nat) : Shape → Shape
  | 1 :: rest => if rank ≤ rest.length then dropLeading rank rest else 1 :: rest
  | s => s

def replace (s : Shape) (axis value : Nat) : Shape := List.set s axis value

/-- The axes outside `axes`, in order. -/
def keep (s : Shape) (axes : List Nat) : Shape :=
  s.zipIdx.filterMap fun (dim, i) => if axes.contains i then none else some dim

/-- The axes of `axes`, in order. -/
def select (s : Shape) (axes : List Nat) : Shape :=
  s.zipIdx.filterMap fun (dim, i) => if axes.contains i then some dim else none

/-- The axes of `axes` shrunk to one cell. -/
def collapse (s : Shape) (axes : List Nat) : Shape :=
  s.zipIdx.map fun (dim, i) => if axes.contains i then 1 else dim

/-- Join coordinates of the axes outside `axes` with coordinates of those in it: the inverse of
taking an index of `rank` axes apart. -/
def merge (axes : List Nat) : Nat → Nat → Index → Index → Index
  | 0, _, _, _ => []
  | rank + 1, axis, outer, inner =>
    if axes.contains axis then
      inner.headD 0 :: merge axes rank (axis + 1) outer inner.tail
    else outer.headD 0 :: merge axes rank (axis + 1) outer.tail inner

end Shape
end TensorDag
