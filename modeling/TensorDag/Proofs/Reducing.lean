import Mathlib
import TensorDag.Proofs.Respelling
import TensorDag.Proofs.Routing
import TensorDag.Proofs.Words

/-!
Reductions one after another. What a reduction leaves has its axes renumbered; a second one over some of them makes
the same of whole elements as one reduction over the axes of both.
-/
namespace TensorDag
open Result (bind_eq_ok)

namespace Shape
open Finset (range)
variable {gone : Finset Nat} {first second both : List Nat} {s : Shape} {o : Index}

def position (gone : Finset Nat) (k : Nat) : Nat := {j ∈ range k | j ∉ gone}.card

theorem position_succ (gone : Finset Nat) (k : Nat) :
    position gone (k + 1) = if k ∈ gone then position gone k else position gone k + 1 := by
  rw [position, Finset.range_add_one, Finset.filter_insert]
  by_cases here : k ∈ gone
  · rw [if_neg (not_not_intro here), if_pos here, position]
  · rw [if_pos here, if_neg here, Finset.card_insert_of_notMem (by simp), position]

theorem position_mono (gone : Finset Nat) : Monotone (position gone) :=
  monotone_nat_of_le_succ fun k => by
    rw [position_succ]
    split <;> omega

theorem position_lt {j k : Nat} (left : j ∉ gone) (below : j < k) : position gone j < position gone k := by
  have next : position gone (j + 1) = position gone j + 1 := by rw [position_succ, if_neg left]
  have upto := position_mono gone (Nat.succ_le_of_lt below)
  rw [Nat.succ_eq_add_one, next] at upto
  omega

theorem position_injective {j k : Nat} (left : j ∉ gone) (left' : k ∉ gone)
    (same : position gone j = position gone k) : j = k := by
  rcases Nat.lt_trichotomy j k with below | equal | below
  · have := position_lt left below
    omega
  · exact equal
  · have := position_lt left' below
    omega

theorem position_rank {rank : Nat} (inside : gone ⊆ range rank) : position gone rank = rank - gone.card := by
  rw [position, ← Finset.sdiff_eq_filter, Finset.card_sdiff_of_subset inside, Finset.card_range]

theorem length_keepFrom (only : ∀ k, k ∈ first ↔ k ∈ gone) (axis : Nat) (s : Shape) :
    position gone axis + (keepFrom first axis s).length = position gone (axis + s.length) := by
  induction s generalizing axis with
  | nil => rfl
  | cons dim rest ih =>
    have later := ih (axis + 1)
    rw [position_succ, Nat.add_right_comm] at later
    simp only [keepFrom, List.contains_iff_mem, only]
    rw [List.length_cons, ← Nat.add_assoc, ← later]
    by_cases here : axis ∈ gone
    · rw [if_pos here, if_pos here]
    · rw [if_neg here, if_neg here, List.length_cons]
      omega

/-- Axes counted from the front, for axes counted from either end. -/
def fromFront (rank : Nat) (is : List Int) : List Nat := is.map fun (i : Int) => (i % rank).toNat

/-- Axes, counted from either end, are those of a set, each of them once. -/
structure CountsAxes (rank : Nat) (is : List Int) (axes : Finset Nat) : Prop where
  bounds : ∀ i ∈ is, -(rank : Int) ≤ i ∧ i < rank
  once : (fromFront rank is).Nodup
  all : ∀ k, k ∈ axes ↔ k ∈ fromFront rank is

instance (rank : Nat) (is : List Int) (axes : Finset Nat) : Decidable (CountsAxes rank is axes) :=
  decidable_of_iff ((∀ i ∈ is, -(rank : Int) ≤ i ∧ i < rank) ∧ (fromFront rank is).Nodup ∧
    axes = (fromFront rank is).toFinset)
    ⟨fun ⟨bounds, once, same⟩ => ⟨bounds, once, fun k => by rw [same, List.mem_toFinset]⟩,
      fun ⟨bounds, once, all⟩ => ⟨bounds, once, Finset.ext fun k => by rw [List.mem_toFinset, all]⟩⟩

theorem CountsAxes.below {rank : Nat} {is : List Int} {axes : Finset Nat} (counts : CountsAxes rank is axes) :
    axes ⊆ range rank := by
  intro k member
  obtain ⟨i, listed, rfl⟩ := List.mem_map.mp ((counts.all k).mp member)
  have bounds := counts.bounds i listed
  have low := Int.emod_nonneg i (show (rank : Int) ≠ 0 by omega)
  have high := Int.emod_lt_of_pos i (show 0 < (rank : Int) by omega)
  exact Finset.mem_range.mpr (by omega)

theorem CountsAxes.keep_eq {is : List Int} {axes : Finset Nat} (counts : CountsAxes s.length is axes)
    (only : ∀ k, k ∈ first ↔ k ∈ axes) : keep s first = keep s (fromFront s.length is) := by
  simp only [keep, List.contains_iff_mem, only, counts.all]

/-- Axes of two reductions one after another, the second given by the positions that the first leaves, and the axes
of both. -/
structure Composes (gone : Finset Nat) (first second both : List Nat) : Prop where
  first : ∀ k, k ∈ first ↔ k ∈ gone
  both : ∀ k, k ∈ both ↔ k ∈ gone ∨ position gone k ∈ second

namespace Composes

theorem of_disjoint {A B : Finset Nat} (apart : Disjoint A B) (only : ∀ k, k ∈ first ↔ k ∈ A)
    (renumbered : ∀ k, k ∈ second ↔ k ∈ B.image (position A)) (all : ∀ k, k ∈ both ↔ k ∈ A ∪ B) :
    Composes A first second both := by
  refine ⟨only, fun k => ?_⟩
  rw [all, Finset.mem_union, renumbered, Finset.mem_image]
  constructor
  · exact Or.imp_right fun member => ⟨k, member, rfl⟩
  · rintro (here | ⟨j, member, same⟩)
    · exact .inl here
    · by_cases here : k ∈ A
      · exact .inl here
      · have left : j ∉ A := Finset.disjoint_right.mp apart member
        exact .inr (position_injective left here same ▸ member)

theorem cases (composes : Composes gone first second both) (axis : Nat) :
    (axis ∈ first ∧ axis ∈ both ∧ position gone (axis + 1) = position gone axis) ∨
      axis ∉ first ∧ position gone (axis + 1) = position gone axis + 1 ∧
        (axis ∈ both ↔ position gone axis ∈ second) := by
  by_cases here : axis ∈ gone
  · refine .inl ⟨(composes.first axis).mpr here, (composes.both axis).mpr (.inl here), ?_⟩
    rw [position_succ, if_pos here]
  · refine .inr ⟨(composes.first axis).not.mpr here, ?_, ?_⟩
    · rw [position_succ, if_neg here]
    · rw [composes.both, or_iff_right here]

theorem keepFrom_eq (composes : Composes gone first second both) (axis : Nat) (s : Shape) :
    keepFrom second (position gone axis) (keepFrom first axis s) = keepFrom both axis s := by
  induction s generalizing axis with
  | nil => rfl
  | cons dim rest ih =>
    have later := ih (axis + 1)
    simp only [keepFrom, List.contains_iff_mem]
    rcases composes.cases axis with ⟨here, there, next⟩ | ⟨stays, next, there⟩
    · rw [next] at later
      rw [if_pos here, if_pos there, later]
    · rw [next] at later
      simp only [if_neg stays, keepFrom, List.contains_iff_mem, there, later]

/-- A sum over the axes of both is one over those of the second and then over those of the first. -/
theorem sum_eq {M : Type} [AddCommMonoid M] (composes : Composes gone first second both) (axis : Nat) (s : Shape)
    (o : Index) (f : Index → M) :
    ∑ n ∈ box (selectFrom second (position gone axis) (keepFrom first axis s)), ∑ m ∈ box (selectFrom first axis s),
      f (merge first s.length axis (merge second (keepFrom first axis s).length (position gone axis) o n) m) =
        ∑ n ∈ box (selectFrom both axis s), f (merge both s.length axis o n) := by
  induction s generalizing axis o f with
  | nil =>
    simp only [keepFrom, selectFrom, sum_box_nil]
    rfl
  | cons dim rest ih =>
    have later := fun o k => ih (axis + 1) o fun i => f (k :: i)
    simp only [keepFrom, selectFrom, List.contains_iff_mem, List.length_cons, merge_cons]
    rcases composes.cases axis with ⟨here, there, next⟩ | ⟨stays, next, there⟩
    · rw [next] at later
      simp only [if_pos here, if_pos there, sum_box_cons, List.headD_cons, List.tail_cons, ← later]
      exact Finset.sum_comm
    · rw [next] at later
      by_cases goes : position gone axis ∈ second
      · simp only [if_neg stays, if_pos goes, if_pos (there.mpr goes), selectFrom, List.contains_iff_mem,
          sum_box_cons, List.length_cons, merge_cons, List.headD_cons, List.tail_cons, later]
      · simp only [if_neg stays, if_neg goes, if_neg (there.not.mpr goes), selectFrom, List.contains_iff_mem,
          List.length_cons, merge_cons, List.headD_cons, List.tail_cons, later]

theorem reads_iff (composes : Composes gone first second both) {i : Index} :
    (∃ n, Contains (selectFrom second 0 (keepFrom first 0 s)) n ∧ ∃ m, Contains (selectFrom first 0 s) m ∧
      i = merge first s.length 0 (merge second (keepFrom first 0 s).length 0 o n) m) ↔
        ∃ n, Contains (selectFrom both 0 s) n ∧ i = merge both s.length 0 o n := by
  have cells := composes.sum_eq 0 s o fun i => ({i} : Multiset Index)
  rw [show position gone 0 = 0 from rfl] at cells
  have member := congrArg (i ∈ ·) cells
  simpa only [Multiset.mem_sum, Multiset.mem_singleton, mem_box, eq_iff_iff] using member

end Composes
end Shape

namespace Tensor
open Shape
variable {gone : Finset Nat} {first second both : List Nat} {o : Index}

theorem sum_sum {M : Type} [AddCommMonoid M] (composes : Composes gone first second both) (t : Tensor M) :
    ((t.sum first).sum second).Same (t.sum both) := by
  have kept := composes.keepFrom_eq 0 t.shape
  rw [show position gone 0 = 0 from rfl, ← keep_eq, ← keep_eq, ← keep_eq] at kept
  have shape : ((t.sum first).sum second).shape = keep t.shape both := by rw [sum_shape, sum_shape, kept]
  refine ⟨shape.trans sum_shape.symm, fun o inside => ?_⟩
  have inner : Contains (keep (t.sum first).shape second) o := by rwa [← sum_shape]
  rw [sum_cell inner, sum_cell (shape ▸ inside)]
  have total := composes.sum_eq 0 t.shape o t.cell
  rw [show position gone 0 = 0 from rfl] at total
  simp only [sum_shape, select_eq, keep_eq] at inner ⊢
  rw [← total]
  refine Finset.sum_congr rfl fun n within => ?_
  have outer := contains_merge inner (mem_box.mp within)
  rw [sum_cell (keep_eq t.shape first ▸ outer), select_eq]

theorem maximum_cell {α : Type} [Element α] {axes : List Nat} {t : Tensor α}
    (inside : Contains (keep t.shape axes) o) :
    (t.maximum axes).cell o = greatest ((indices (select t.shape axes)).map fun n =>
      t.cell (merge axes t.shape.length 0 o n)) := by
  unfold Tensor.maximum
  split
  · rename_i none
    subst none
    rw [keep_eq, keepFrom_self (by simp)] at inside
    rw [select_eq, selectFrom_nil, indices, List.map_singleton, merge_nil inside.length, greatest, List.foldl_nil]
  · rfl

theorem Same.maximum {α : Type} [Element α] {a b : Tensor α} (same : a.Same b) (axes : List Nat) :
    (a.maximum axes).Same (b.maximum axes) := by
  have shape : (a.maximum axes).shape = (b.maximum axes).shape := by
    rw [maximum_shape, maximum_shape, same.shape]
  refine ⟨shape, fun o inside => ?_⟩
  rw [maximum_shape] at inside
  rw [maximum_cell inside, maximum_cell (same.shape ▸ inside), ← same.shape]
  refine congrArg greatest (List.map_congr_left fun n listed => same.cells _ ?_)
  have within := mem_indices.mp listed
  rw [keep_eq] at inside
  rw [select_eq] at within
  exact contains_merge inside within

/-- A maximum of whole elements is one of the cells along the axes, and no cell along them is greater. -/
theorem maximum_greatest {axes : List Nat} {t : Tensor Int32} (inside : Contains (keep t.shape axes) o)
    (some : volume (select t.shape axes) ≠ 0) :
    IsGreatest {v | ∃ n, Contains (select t.shape axes) n ∧ v = t.cell (merge axes t.shape.length 0 o n)}
      ((t.maximum axes).cell o) := by
  rw [maximum_cell inside]
  have cells : (indices (select t.shape axes)).map (fun n => t.cell (merge axes t.shape.length 0 o n)) ≠ [] := by
    intro none
    have count := congrArg List.length none
    rw [List.length_map, length_indices] at count
    exact some count
  have leads := leads_greatest cells
  constructor
  · obtain ⟨n, listed, same⟩ := List.mem_map.mp (List.mem_of_getElem? leads.here)
    exact ⟨n, mem_indices.mp listed, same.symm⟩
  · rintro v ⟨n, within, rfl⟩
    exact leads.most _ (List.mem_map_of_mem (mem_indices.mpr within))

/-- The greatest of what is greatest along the first axes is that along both. -/
theorem maximum_twice {t : Tensor Int32} (positive : ∀ d ∈ t.shape, 1 ≤ d)
    (inside : Contains (keep (t.maximum first).shape second) o) :
    IsGreatest {v | ∃ n, Contains (selectFrom second 0 (keepFrom first 0 t.shape)) n ∧
      ∃ m, Contains (selectFrom first 0 t.shape) m ∧ v = t.cell (merge first t.shape.length 0
        (merge second (keepFrom first 0 t.shape).length 0 o n) m)} (((t.maximum first).maximum second).cell o) := by
  have left : ∀ d ∈ (t.maximum first).shape, 1 ≤ d := by
    rw [maximum_shape, keep_eq]
    exact fun d member => positive d ((keepFrom_sublist first 0 t.shape).subset member)
  have later := maximum_greatest inside (Nat.one_le_iff_ne_zero.mp (volume_select_pos left second))
  rw [maximum_shape, keep_eq] at inside later
  have earlier : ∀ {n}, Contains (select (keepFrom first 0 t.shape) second) n →
      Contains (keep t.shape first) (merge second (keepFrom first 0 t.shape).length 0 o n) := by
    intro n within
    rw [keep_eq, select_eq] at *
    exact contains_merge inside within
  have first_greatest := fun n (within : Contains (select (keepFrom first 0 t.shape) second) n) =>
    maximum_greatest (earlier within) (Nat.one_le_iff_ne_zero.mp (volume_select_pos positive first))
  simp only [select_eq] at later first_greatest
  obtain ⟨⟨n, within, met⟩, most⟩ := later
  constructor
  · obtain ⟨⟨m, here, found⟩, _⟩ := first_greatest n within
    exact ⟨n, within, m, here, met.trans found⟩
  · rintro v ⟨n, within, m, here, rfl⟩
    exact Int32.le_trans ((first_greatest n within).2 ⟨m, here, rfl⟩) (most ⟨n, within, rfl⟩)

/-- Maxima one after another are one maximum, where no axis is empty. -/
theorem maximum_maximum (composes : Composes gone first second both) {t : Tensor Int32}
    (positive : ∀ d ∈ t.shape, 1 ≤ d) : ((t.maximum first).maximum second).Same (t.maximum both) := by
  have kept := composes.keepFrom_eq 0 t.shape
  rw [show position gone 0 = 0 from rfl, ← keep_eq, ← keep_eq, ← keep_eq] at kept
  have shape : ((t.maximum first).maximum second).shape = keep t.shape both := by
    rw [maximum_shape, maximum_shape, kept]
  refine ⟨shape.trans (maximum_shape both t).symm, fun o inside => ?_⟩
  obtain ⟨⟨n, within, m, here, met⟩, most⟩ := maximum_twice positive (maximum_shape second (t.maximum first) ▸ inside)
  obtain ⟨⟨k, along, found⟩, top⟩ := maximum_greatest (shape ▸ inside)
    (Nat.one_le_iff_ne_zero.mp (volume_select_pos positive both))
  rw [select_eq] at along top
  -- the cells along the axes of both are those along the second axes, and then along the first
  obtain ⟨k', along', same⟩ := composes.reads_iff.mp ⟨n, within, m, here, rfl⟩
  obtain ⟨n', within', m', here', same'⟩ := composes.reads_iff.mpr ⟨k, along, rfl⟩
  refine Int32.le_antisymm (top ⟨k', along', ?_⟩) (most ⟨n', within', m', here', ?_⟩)
  · rw [met, same]
  · rw [found, same']

end Tensor

/-- The kinds that make one cell of the cells along some axes. -/
inductive Reduction
  | sum
  | maxElement

namespace Reduction
variable {r : Reduction} {leaf : Node → Result Bytes} {n x : Node} {axes : List Nat} {bytes : Bytes}

def kind : Reduction → Kind
  | sum => .sum
  | maxElement => .maxElement

def along : Reduction → List Nat → Operator
  | sum, axes => .sum axes
  | maxElement, axes => .maxElement axes

theorem along_ne_softmax (r : Reduction) (axes : List Nat) : r.along axes ≠ .softmax := by
  cases r <;> nofun

theorem along_kind (r : Reduction) (axes : List Nat) : (r.along axes).kind = r.kind := by
  cases r <;> rfl

theorem along_frugal (r : Reduction) (axes : List Nat) : (r.along axes).kind ∈ Kind.frugal := by
  rw [along_kind]
  cases r <;> decide

theorem along_still (r : Reduction) (axes : List Nat) : (r.along axes).kind ∉ Kind.sliding := by
  rw [along_kind]
  cases r <;> decide

def run : Reduction → List Nat → Tensor Int32 → Tensor Int32
  | sum, axes, t => t.sum axes
  | maxElement, axes, t => t.maximum axes

/-- The words that a reduction makes of the words of whole elements. -/
def words (r : Reduction) (s : Shape) (axes : List Nat) : List (Tensor UInt32) → Tensor UInt32
  | [a] => (r.run axes (a.map UInt32.toInt32)).map Int32.toUInt32
  | _ => ⟨s, fun _ => 0⟩

theorem run_shape (r : Reduction) (axes : List Nat) (t : Tensor Int32) :
    (r.run axes t).shape = Shape.keep t.shape axes := by
  cases r with
  | sum => exact Tensor.sum_shape
  | maxElement => exact Tensor.maximum_shape axes t

/-- No axis is empty along which a maximum is to be taken. -/
def Admits (r : Reduction) (s : Shape) : Prop := r = .maxElement → ∀ d ∈ s, 1 ≤ d

theorem run_same {a b : Tensor Int32} (same : a.Same b) (r : Reduction) (axes : List Nat) :
    (r.run axes a).Same (r.run axes b) := by
  cases r with
  | sum => exact same.sum axes
  | maxElement => exact same.maximum axes

section
attribute [local instance] Int32.ring

theorem run_run {gone : Finset Nat} {first second both : List Nat} {t : Tensor Int32}
    (composes : Shape.Composes gone first second both) (admits : r.Admits t.shape) :
    (r.run second (r.run first t)).Same (r.run both t) := by
  cases r with
  | sum => exact Tensor.sum_sum composes t
  | maxElement => exact Tensor.maximum_maximum composes (admits rfl)

end

/-- The node of a reduction of whole elements makes its words of theirs, unless a maximum of none is asked for. -/
theorem worded_of_some (formed : n.Formed (r.along axes)) (inputs : n.inputs = [x]) (whole : x.elementType = .int32)
    (some : r = .maxElement → Shape.volume (Shape.select x.shape axes) ≠ 0) :
    n.Worded (r.along axes) (r.words n.shape axes) := by
  have type : n.type = ⟨x.elementType, Shape.keep x.shape axes⟩ := by
    have typed := formed.typed
    rw [inputs] at typed
    cases r <;> exact (Except.ok.inj typed).symm
  have element : n.elementType = .int32 := (Node.elementType_eq type).trans whole
  have computed : ∀ {arg : Nat → Result (Tensor Int32)} {a : Tensor Int32}, arg 0 = .ok a → a.shape = x.shape →
      (r.along axes).compute n.shape arg = .ok (.of (r.run axes a)) := by
    intro arg a given shape
    cases r with
    | sum =>
      simp only [along, Operator.compute, Operator.polynomial?, given]
      rfl
    | maxElement =>
      have filled : Operator.notEmptyAlong axes a = .ok a := Operator.notEmptyAlong_eq (shape ▸ some rfl)
      refine bind_eq_ok.mpr ⟨a, ?_, rfl⟩
      rw [given]
      exact filled
  refine formed.worded_single (r.run axes) inputs ?_ (along_still r axes) (along_ne_softmax r axes) ?_ whole element
    (fun made => ?_) computed (fun same => ?_) fun _ => rfl
  · cases r with
    | sum => trivial
    | maxElement => exact some rfl
  · cases r <;> exact List.mem_singleton_self 0
  · cases r with
    | sum =>
      rename_i arg c
      cases given : arg 0 with
      | ok t => exact ⟨t, rfl⟩
      | error e =>
        simp only [along, Operator.compute, Operator.polynomial?, given] at made
        cases made
    | maxElement =>
      obtain ⟨_, read, _⟩ := bind_eq_ok.mp made
      obtain ⟨t, given, _⟩ := bind_eq_ok.mp read
      exact ⟨t, given⟩
  · rw [run_shape, same, Node.shape_eq type]

theorem worded (formed : n.Formed (r.along axes)) (inputs : n.inputs = [x]) (whole : x.elementType = .int32)
    (admits : r.Admits x.shape) : n.Worded (r.along axes) (r.words n.shape axes) :=
  worded_of_some formed inputs whole fun same =>
    Nat.one_le_iff_ne_zero.mp (Shape.volume_select_pos (admits same) axes)

/-- Reduction over listed axes, in any order and counted from either end, is one over the axes that they name. -/
theorem means {x : TensorType} {v : Value} {is : List Int} {named : Finset Nat} (r : Reduction) (lists : v.Lists is)
    (counts : Shape.CountsAxes x.shape.length is named) : ∃ axes : List Nat, (∀ k, k ∈ axes ↔ k ∈ named) ∧
      r.kind.Means [x] [Building.entry "axes" v] (r.along axes) ⟨x.elementType, Shape.keep x.shape axes⟩ := by
  have resolved : Kind.resolveAxes r.kind.name x.rank (is.map .int) =
      .ok (Shape.fromFront x.shape.length is) := by
    have bounds := counts.bounds
    clear lists counts
    induction is with
    | nil => rfl
    | cons i rest ih =>
      obtain ⟨here, later⟩ := List.forall_mem_cons.mp bounds
      rw [List.map_cons, Kind.resolveAxes]
      exact bind_eq_ok.mpr ⟨_, if_pos here, bind_eq_ok.mpr ⟨_, ih later, rfl⟩⟩
  let axes := (List.range x.rank).filter (Shape.fromFront x.shape.length is).contains
  have spelled : Kind.spellAxes r.kind.name [x] [Building.entry "axes" v] = .ok axes := by
    have given : Entries.get [Building.entry "axes" v] "axes" = v := rfl
    have items : v.asSequence.items? = some (is.map .int) := lists
    simp only [Kind.spellAxes, given]
    split
    · cases lists
    · simp only [items]
      refine bind_eq_ok.mpr ⟨_, resolved, ?_⟩
      rw [if_pos counts.once]
      rfl
  refine ⟨axes, fun k => ?_, ?_⟩
  · rw [List.mem_filter, List.contains_iff_mem, ← counts.all k, List.mem_range]
    exact and_iff_right_of_imp fun member => Finset.mem_range.mp (counts.below member)
  · cases r with
    | sum => exact Kind.means_of_spell 1 rfl rfl (bind_eq_ok.mpr ⟨axes, spelled, rfl⟩) rfl
    | maxElement => exact Kind.means_of_spell 1 rfl rfl (bind_eq_ok.mpr ⟨axes, spelled, rfl⟩) rfl

end Reduction

namespace Workspace
open Building (apply entry)
open Shape (Composes CountsAxes fromFront position)
variable {w w₁ w₂ w₃ : Workspace} {x n m k : Node} {r : Reduction} {first second both : List Nat} {A B : Finset Nat}

/-- Reduced twice, whole elements have the words of one reduction, if there is room for what is made between. -/
theorem Forms.reduced_agrees [Memory] {leaf : Node → Result Bytes} {bytes : Bytes}
    (composes : Composes A first second both)
    (once : w.Forms w₁ n (r.along first) [x] ⟨x.elementType, Shape.keep x.shape first⟩)
    (twice : w₁.Forms w₂ m (r.along second) [n] k.type)
    (direct : w₂.Forms w₃ k (r.along both) [x] ⟨x.elementType, Shape.keep x.shape both⟩)
    (whole : x.elementType = .int32) (admits : r.Admits x.shape) (room : n.byteSize ≤ Memory.capacity) :
    m.Evaluates leaf bytes ↔ k.Evaluates leaf bytes := by
  have between : n.shape = Shape.keep x.shape first := Node.shape_eq once.typed
  have sub : n.shape.Sublist x.shape := by
    rw [between, Shape.keep_eq]
    exact Shape.keepFrom_sublist first 0 x.shape
  have worded := r.worded once.formed once.inputs whole admits
  have worded' := r.worded twice.formed twice.inputs ((Node.elementType_eq once.typed).trans whole)
    fun same d member => admits same d (sub.subset member)
  rw [worded.twice once.inputs worded' twice.inputs (r.along_frugal first) (r.along_frugal second)
    (h := fun t => r.words k.shape both [t]) (fun holdable _ => ⟨holdable.sublist sub, room⟩) ?_,
    (r.worded direct.formed direct.inputs whole admits).evaluates_frugal direct.inputs (r.along_frugal both),
    twice.typed]
  intro t u shape same
  have back : (u.map UInt32.toInt32).Same (r.run first (t.map UInt32.toInt32)) := by
    refine (same.map _).trans ⟨rfl, fun o _ => Int32.toInt32_toUInt32 _⟩
  have admits' : r.Admits (t.map UInt32.toInt32).shape := by
    rw [show (t.map UInt32.toInt32).shape = x.shape from shape]
    exact admits
  exact ((Reduction.run_same back r second).trans (Reduction.run_run composes admits')).map _

/-- A reduction over some axes and one over others, renumbered, make what one over all of these makes. -/
theorem Built.reductions_compose [Memory] (built : w.Built ShapeRules.Lasting) (own : x ∈ w.graph.nodes)
    (whole : x.elementType = .int32) (admits : r.Admits x.shape) (apart : Disjoint A B) {is js ks : List Int}
    {u v t : Value} (lists : u.Lists is) (lists' : v.Lists js) (lists'' : t.Lists ks)
    (counts : CountsAxes x.shape.length is A) (counts' : CountsAxes (x.shape.length - A.card) js (B.image (position A)))
    (counts'' : CountsAxes x.shape.length ks (A ∪ B)) :
    ∃ n w₁ m w₂ k w₃, apply r.kind [x] [entry "axes" u] w = .ok n w₁ ∧
      apply r.kind [n] [entry "axes" v] w₁ = .ok m w₂ ∧ apply r.kind [x] [entry "axes" t] w₂ = .ok k w₃ ∧
        n.type = ⟨.int32, Shape.keep x.shape (fromFront x.shape.length is)⟩ ∧
          k.type = ⟨.int32, Shape.keep x.shape (fromFront x.shape.length ks)⟩ ∧ m.type = k.type ∧ ∀ leaf,
            (n.byteSize ≤ Memory.capacity ∨ x.byteSize ≤ Memory.capacity ∧ (∀ d ∈ x.shape, 1 ≤ d) →
              ∀ bytes, m.evaluate leaf = .ok bytes ↔ k.evaluate leaf = .ok bytes) ∧
              (x.shape.Holdable → k.byteSize ≤ Memory.capacity → ∀ a, x.Evaluates leaf a →
                ∃ bytes, k.evaluate leaf = .ok bytes) := by
  obtain ⟨first, only, means⟩ := r.means (x := x.type) lists counts
  obtain ⟨both, only'', means''⟩ := r.means (x := x.type) lists'' counts''
  obtain ⟨n, w₁, ran, once⟩ := built.forms [x] (by simpa using own) means
  have between : n.shape = Shape.keepFrom first 0 x.shape :=
    (Node.shape_eq once.typed).trans (Shape.keep_eq x.shape first)
  have rank : n.type.shape.length = x.shape.length - A.card := by
    have length := Shape.length_keepFrom only 0 x.shape
    rw [Nat.zero_add, Shape.position_rank counts.below, show position A 0 = 0 from rfl, Nat.zero_add, ← between]
      at length
    exact length
  obtain ⟨second, only', means'⟩ := r.means (x := n.type) lists' (rank ▸ counts')
  have composes : Composes A first second both := .of_disjoint apart only only' only''
  have kept : Shape.keep n.shape second = Shape.keep x.shape both := by
    rw [between, Shape.keep_eq, Shape.keep_eq]
    exact composes.keepFrom_eq 0 x.shape
  obtain ⟨m, w₂, ran', twice⟩ := once.built.forms [n] (by simpa using once.member) means'
  obtain ⟨k, w₃, ran'', direct⟩ := twice.built.forms [x] (by simpa using twice.keeps.mem (once.keeps.mem own)) means''
  have typed : m.type = k.type := by
    rw [twice.typed, direct.typed]
    exact congrArg₂ TensorType.mk (Node.elementType_eq once.typed) kept
  have sampling : ∀ axes, (r.along axes).kind ≠ .uniform := fun axes => by cases r <;> nofun
  have listed := once.typed.trans (congrArg₂ TensorType.mk whole (counts.keep_eq only))
  have listed' := direct.typed.trans (congrArg₂ TensorType.mk whole (counts''.keep_eq only''))
  have smaller : (∀ d ∈ x.shape, 1 ≤ d) → n.byteSize ≤ x.byteSize := fun positive => by
    have fewer : n.shape.Sublist x.shape := by
      rw [between]
      exact Shape.keepFrom_sublist first 0 x.shape
    exact Nat.mul_le_mul_right 4 (Shape.volume_sublist fewer positive)
  refine ⟨n, w₁, m, w₂, k, w₃, ran, ran', ran'', listed, listed', typed, fun leaf => ⟨fun roomy bytes => ?_, ?_⟩⟩
  · have room : n.byteSize ≤ Memory.capacity := roomy.elim id fun both => (smaller both.2).trans both.1
    have twice : w₁.Forms w₂ m (r.along second) [n] k.type := { twice with typed }
    rw [twice.formed.evaluate_iff (sampling _), direct.formed.evaluate_iff (sampling _)]
    exact once.reduced_agrees composes twice direct whole admits room
  · intro holdable room a value
    have held : k.shape.Holdable := by
      rw [Node.shape_eq direct.typed, Shape.keep_eq]
      exact holdable.sublist (Shape.keepFrom_sublist both 0 x.shape)
    have evaluates := ((r.worded direct.formed direct.inputs whole admits).evaluates_frugal direct.inputs
      (r.along_frugal both)).mpr ⟨⟨held, room⟩, a, value, holdable, rfl⟩
    exact ⟨_, evaluates.1⟩

end Workspace

namespace Sample
open Building (apply entry)
open Shape (CountsAxes position)

/-! A block of whole elements of three axes, of which the first goes and then the last. -/

def block : Node := ⟨⟨0, 0⟩, "placeholder", [], [], ⟨.int32, [2, 3, 2]⟩, none⟩

def blockWorkspace : Workspace := ⟨.standard, ⟨0, .null, #[block], []⟩, .empty⟩

theorem blockWorkspace_built : blockWorkspace.Built ShapeRules.Lasting := by
  have first : Building.placeholder (.dims [2, 3, 2]) (.elementType .int32) ⟨.standard, .empty 0 .null, .empty⟩ =
      .ok block blockWorkspace := rfl
  exact Workspace.built_empty.placeholder first

/-- Maxima over the first axis and then the last, counted from the end, are maxima over both of them. -/
theorem reductions_compose_block :
    (CountsAxes 3 [-3] {0} ∧ CountsAxes 2 [-1] (Finset.image (position {0}) {2}) ∧ CountsAxes 3 [2, -3] ({0} ∪ {2})) ∧
      ∃ n w₁ m w₂ k w₃, apply .maxElement [block] [entry "axes" (.tuple [.int (-3)])] blockWorkspace = .ok n w₁ ∧
        apply .maxElement [n] [entry "axes" (.list [.int (-1)])] w₁ = .ok m w₂ ∧
          apply .maxElement [block] [entry "axes" (.ints [2, -3])] w₂ = .ok k w₃ ∧ k.type = ⟨.int32, [3]⟩ ∧
            m.type = k.type ∧ ∃ bytes, m.evaluate (fun x => .ok (Bytes.zeros x.byteSize)) = .ok bytes ∧
              k.evaluate (fun x => .ok (Bytes.zeros x.byteSize)) = .ok bytes := by
  have counts : CountsAxes 3 [-3] {0} ∧ CountsAxes 2 [-1] (Finset.image (position {0}) {2}) ∧
      CountsAxes 3 [2, -3] ({0} ∪ {2}) := by decide
  have own : block ∈ blockWorkspace.graph.nodes := by simp [blockWorkspace]
  obtain ⟨n, w₁, m, w₂, k, w₃, ran, ran', ran'', between, typed, same, agrees⟩ :=
    blockWorkspace_built.reductions_compose (r := .maxElement) own rfl (fun _ => by decide) (by decide)
      (Value.lists_tuple [-3]) (Value.lists_list [-1]) (Value.lists_ints [2, -3]) counts.1 counts.2.1 counts.2.2
  obtain ⟨values, returns⟩ := agrees fun x => .ok (Bytes.zeros x.byteSize)
  have room : n.type.byteSize ≤ Memory.capacity := by
    rw [between]
    decide
  have room' : k.type.byteSize ≤ Memory.capacity := by
    rw [typed]
    decide
  obtain ⟨bytes, value⟩ := returns (Shape.holdable_iff.mp (by decide)) room' (Bytes.zeros 48) ⟨rfl, rfl⟩
  exact ⟨counts, n, w₁, m, w₂, k, w₃, ran, ran', ran'', typed, same, bytes, (values (.inl room) bytes).mpr value,
    value⟩

/-! A cell with more axes than arrays have. -/

def manyAxes : Node := ⟨⟨0, 0⟩, "placeholder", [], [], ⟨.int32, List.replicate 65 1⟩, none⟩

def manyAxesWorkspace : Workspace := ⟨.standard, ⟨0, .null, #[manyAxes], []⟩, .empty⟩

theorem manyAxesWorkspace_built : manyAxesWorkspace.Built ShapeRules.Lasting := by
  have first : Building.placeholder (.dims (List.replicate 65 1)) (.elementType .int32)
      ⟨.standard, .empty 0 .null, .empty⟩ = .ok manyAxes manyAxesWorkspace := rfl
  exact Workspace.built_empty.placeholder first

/-- Reductions of a cell with more axes than arrays have are built, and neither evaluates though the cell has bytes. -/
theorem reductions_refused :
    manyAxesWorkspace.Built ShapeRules.Lasting ∧ manyAxes ∈ manyAxesWorkspace.graph.nodes ∧
      (CountsAxes 65 [0] {0} ∧ CountsAxes 64 [0] (Finset.image (position {0}) {1}) ∧ CountsAxes 65 [0, 1] ({0} ∪ {1})) ∧
      manyAxes.Evaluates (fun _ => .ok (Bytes.zeros 4)) (Bytes.zeros 4) ∧
      ∃ n w₁ m w₂ k w₃, apply .sum [manyAxes] [entry "axes" (.ints [0])] manyAxesWorkspace = .ok n w₁ ∧
        apply .sum [n] [entry "axes" (.ints [0])] w₁ = .ok m w₂ ∧
        apply .sum [manyAxes] [entry "axes" (.ints [0, 1])] w₂ = .ok k w₃ ∧ m.type = k.type ∧
        m.evaluate (fun _ => .ok (Bytes.zeros 4)) = .fault .notAddressable ∧
        k.evaluate (fun _ => .ok (Bytes.zeros 4)) = .fault .notAddressable :=
  ⟨manyAxesWorkspace_built, by simp [manyAxesWorkspace], by decide, ⟨rfl, rfl⟩, _, _, _, _, _, _, rfl, rfl, rfl,
    rfl, rfl, rfl⟩

end Sample
end TensorDag
