import Mathlib.Data.List.Basic
import TensorDag.Proofs.Outcome
import TensorDag.Value.Cells

/-!
Nested lists as data. Whole numbers in row-major order can be given as lists nested like any shape of as many cells,
or as an array: what is read of them are the numbers in that order, each as an element.
-/
namespace TensorDag
namespace Value
open Result (bind_eq_ok)

/-- Whole numbers in row-major order, as lists nested like a shape. -/
def nested : Shape → List Int → Value
  | [], is => .int (is.headD 0)
  | dim :: rest, is =>
    .list ((List.range dim).map fun i => nested rest ((is.drop (i * Shape.volume rest)).take (Shape.volume rest)))

/-- The axes of a shape up to its first empty one: the lengths that lists nested like it have. -/
def reached : Shape → Shape
  | [] => []
  | dim :: rest => if dim = 0 then [0] else dim :: reached rest

theorem length_reached (s : Shape) : (reached s).length ≤ s.length := by
  induction s with
  | nil => exact Nat.le_refl _
  | cons dim rest ih =>
    rw [reached]
    split
    · simp
    · simpa using ih

/-! The extent of nested lists. -/

theorem extents?_cons {v first : Value} {rest : List Value} {inner : List Nat} {count : Nat}
    (item : v.extent? = some inner) (others : extents? (first :: rest) = some (count :: inner)) :
    extents? (v :: first :: rest) = some ((count + 1) :: inner) := by
  rw [extents?.eq_3 v inner first rest item, others]
  exact if_pos rfl

theorem extents?_uniform {inner : List Nat} : ∀ {items : List Value}, (∀ v ∈ items, v.extent? = some inner) →
    items ≠ [] → extents? items = some (items.length :: inner)
  | [], _, nonempty => absurd rfl nonempty
  | [_], same, _ => extents?.eq_2 _ inner (same _ (List.mem_singleton.mpr rfl))
  | _ :: first :: rest, same, _ =>
    have ⟨here, others⟩ := List.forall_mem_cons.mp same
    extents?_cons here (extents?_uniform others (List.cons_ne_nil first rest))

theorem extent?_nested (s : Shape) (is : List Int) : (nested s is).extent? = some (reached s) := by
  induction s generalizing is with
  | nil => rfl
  | cons dim rest ih =>
    rw [nested, reached, extent?]
    by_cases empty : dim = 0
    · subst empty
      rfl
    · rw [if_neg empty]
      have inner : ∀ v ∈ (List.range dim).map fun i =>
          nested rest ((is.drop (i * Shape.volume rest)).take (Shape.volume rest)), v.extent? =
            some (reached rest) := by
        intro v member
        obtain ⟨i, _, rfl⟩ := List.mem_map.mp member
        exact ih _
      rw [extents?_uniform inner (by simpa using empty), List.length_map, List.length_range]

/-! The items of nested lists. -/

theorem flatAll_eq (items : List Value) : flatAll items = items.flatMap flat := by
  induction items with
  | nil => rfl
  | cons v rest ih => rw [flatAll, ih, List.flatMap_cons]

theorem flatMap_blocks {α : Type} (as : List α) (size count : Nat) :
    ((List.range count).flatMap fun i => (as.drop (i * size)).take size) = as.take (count * size) := by
  induction count with
  | zero => simp
  | succ count ih =>
    rw [List.range_succ, List.flatMap_append, ih, List.flatMap_singleton, Nat.succ_mul, List.take_add]

theorem flat_nested {s : Shape} {is : List Int} (count : is.length = Shape.volume s) :
    (nested s is).flat = is.map .int := by
  induction s generalizing is with
  | nil =>
    obtain ⟨i, rfl⟩ := List.length_eq_one_iff.mp count
    rfl
  | cons dim rest ih =>
    have block : ∀ i ∈ List.range dim, (nested rest ((is.drop (i * Shape.volume rest)).take (Shape.volume rest))).flat =
        ((is.drop (i * Shape.volume rest)).take (Shape.volume rest)).map .int := by
      intro i below
      have room : (i + 1) * Shape.volume rest ≤ is.length :=
        count ▸ Nat.mul_le_mul_right _ (List.mem_range.mp below)
      rw [Nat.succ_mul] at room
      exact ih (by rw [List.length_take, List.length_drop]; omega)
    have all : is.take (dim * Shape.volume rest) = is := List.take_of_length_le (Nat.le_of_eq count)
    rw [nested, flat, flatAll_eq, List.flatMap_map, List.flatMap_congr block, ← List.map_flatMap, flatMap_blocks, all]

theorem nested_ints (is : List Int) : nested [is.length] is = ints is := by
  rw [nested, ints]
  congr 1
  refine List.ext_getElem (by simp) fun i _ inside => ?_
  have below : i < is.length := by simpa using inside
  have here : is[i]? = some is[i] := List.getElem?_eq_getElem below
  simp [nested, Shape.volume, List.head?_take, here]

/-! The words that are read of them. -/

theorem wordsAll_map {α : Type} {e : ElementType} {item : α → Value} {f : α → UInt32} {as : List α}
    (read : ∀ a ∈ as, (item a).word e = .ok (f a)) : wordsAll e (as.map item) = .ok (as.map f) := by
  induction as with
  | nil => rfl
  | cons a rest ih =>
    obtain ⟨here, others⟩ := List.forall_mem_cons.mp read
    exact bind_eq_ok.mpr ⟨_, here, bind_eq_ok.mpr ⟨_, ih others, rfl⟩⟩

section
variable {e : ElementType} {s : Shape} {is : List Int} {f : Int → UInt32}
variable (axes : s.length ≤ Shape.maxRank) (count : is.length = Shape.volume s)
include axes count

theorem words_nested (read : ∀ i ∈ is, (Value.int i).word e = .ok (f i)) : (nested s is).words e = .ok (is.map f) := by
  have extent : (nested s is).extent = .ok (reached s) := by
    have few := Nat.le_trans (length_reached s) axes
    rw [Value.extent, extent?_nested]
    exact if_neg (Nat.not_lt.mpr few)
  refine bind_eq_ok.mpr ⟨_, extent, ?_⟩
  rw [flat_nested count]
  exact wordsAll_map read

theorem words_array {type : MachineType} (read : ∀ i ∈ is, (Value.scalar type (.int i)).word e = .ok (f i)) :
    (Value.array type (nested s is)).words e = .ok (is.map f) := by
  have extent : (Value.array type (nested s is)).extent = .ok (reached s) := by
    have few := Nat.le_trans (length_reached s) axes
    rw [Value.extent, extent?, extent?_nested]
    exact if_neg (Nat.not_lt.mpr few)
  refine bind_eq_ok.mpr ⟨_, extent, ?_⟩
  rw [flat, flat_nested count, List.map_map]
  exact wordsAll_map read

end
end Value
end TensorDag
