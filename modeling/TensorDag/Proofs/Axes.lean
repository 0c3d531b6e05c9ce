import TensorDag.Proofs.Sums
import TensorDag.Tensor.Arithmetic

/-!
Axes that are stretched and axes that are summed over. Stretching reads a cell along the widened axes
again and again; what adds up along these axes is the sum over them.
-/
namespace TensorDag
namespace Shape
variable {a b s t : Shape} {axes : List Nat} {i o n : Index}

/-- The axes of a shape, aligned from the last one, agree with those of another or have one cell. -/
def Stretches (a s : Shape) : Prop :=
  ∃ lead tail, s = lead ++ tail ∧ List.Forall₂ (fun d e => d = e ∨ d = 1) a tail

/-- The coordinates along axes of one cell are zero. -/
def clamp (s : Shape) (index : Index) : Index :=
  List.zipWith (fun dim i => if dim = 1 then 0 else i) s index

theorem narrow_append {l r : Index} (long : r.length = s.length) : narrow s (l ++ r) = clamp s r := by
  have skipped : (l ++ r).length - s.length = l.length := by rw [List.length_append]; omega
  rw [narrow, clamp, skipped, List.drop_left]

theorem narrow_eq_clamp (long : i.length = s.length) : narrow s i = clamp s i :=
  narrow_append (l := []) long

theorem clamp_self : ∀ {s : Shape} {i : Index}, Contains s i → clamp s i = i
  | [], [], _ => rfl
  | dim :: s, i :: index, inside => by
    have rest := clamp_self inside.2
    have first := inside.1
    rw [clamp] at rest ⊢
    rw [List.zipWith_cons_cons, rest]
    split
    · rw [show i = 0 by omega]
    · rfl

theorem narrow_self (inside : Contains s i) : narrow s i = i := by
  rw [narrow_eq_clamp inside.length, clamp_self inside]

theorem contains_append_iff : ∀ {s t : Shape} {i : Index},
    Contains (s ++ t) i ↔ ∃ l r, i = l ++ r ∧ Contains s l ∧ Contains t r
  | [], t, i => ⟨fun inside => ⟨[], i, rfl, trivial, inside⟩, by
      rintro ⟨l, r, rfl, first, last⟩
      cases l with
      | nil => exact last
      | cons _ _ => exact first.elim⟩
  | dim :: s, t, [] => ⟨False.elim, by
      rintro ⟨l, r, split, first, _⟩
      cases l with
      | nil => exact first
      | cons _ _ => cases split⟩
  | dim :: s, t, k :: i => by
    constructor
    · rintro ⟨first, inside⟩
      obtain ⟨l, r, rfl, left, right⟩ := contains_append_iff.mp inside
      exact ⟨k :: l, r, rfl, ⟨first, left⟩, right⟩
    · rintro ⟨l, r, split, left, right⟩
      rw [split]
      exact left.append right

theorem Stretches.contains (stretches : Stretches a s) (inside : Contains s i) :
    Contains a (narrow a i) := by
  obtain ⟨lead, tail, rfl, agree⟩ := stretches
  obtain ⟨l, r, rfl, _, right⟩ := contains_append_iff.mp inside
  rw [narrow_append (right.length.trans agree.length_eq.symm)]
  clear inside
  induction agree generalizing r with
  | nil =>
    cases r with
    | nil => exact right
    | cons _ _ => exact right.elim
  | cons here _ ih =>
    cases r with
    | nil => exact right.elim
    | cons k r =>
      refine ⟨?_, ih r right.2⟩
      dsimp only
      split
      · omega
      · exact here.elim (fun same => same ▸ right.1) fun single => absurd single ‹_›

theorem Stretches.refl (s : Shape) : Stretches s s :=
  ⟨[], s, rfl, List.forall₂_same.mpr fun _ _ => .inl rfl⟩

private theorem stretchAll?_left : ∀ {as bs ss : List Nat}, stretchAll? as bs = some ss →
    ∃ front back, ss = front ++ back ∧ List.Forall₂ (fun d e => d = e ∨ d = 1) as front
  | [], bs, ss, _ => ⟨[], ss, rfl, .nil⟩
  | a :: as, [], ss, found => by
    cases found
    exact ⟨_, [], (List.append_nil _).symm, List.forall₂_same.mpr fun _ _ => .inl rfl⟩
  | a :: as, b :: bs, ss, found => by
    rw [stretchAll?] at found
    split at found
    · rename_i dim rest here later
      cases found
      obtain ⟨front, back, rfl, agree⟩ := stretchAll?_left later
      refine ⟨dim :: front, back, rfl, .cons ?_ agree⟩
      unfold stretch? at here
      grind
    · cases found

private theorem stretchAll?_comm : ∀ as bs : List Nat, stretchAll? as bs = stretchAll? bs as
  | [], [] => rfl
  | [], _ :: _ => by rw [stretchAll?, stretchAll?]; simp
  | _ :: _, [] => by rw [stretchAll?, stretchAll?]; simp
  | a :: as, b :: bs => by
    have here : stretch? a b = stretch? b a := by unfold stretch?; grind
    rw [stretchAll?, stretchAll?, here, stretchAll?_comm as bs]

private theorem stretches_reverse {front back : List Nat}
    (agree : List.Forall₂ (fun d e => d = e ∨ d = 1) a.reverse front) :
    Stretches a (front ++ back).reverse := by
  refine ⟨back.reverse, front.reverse, List.reverse_append, ?_⟩
  have turned := List.rel_reverse agree
  rwa [List.reverse_reverse] at turned

theorem broadcast?_eq_some (found : broadcast? a b = some s) :
    Stretches a s ∧ Stretches b s ∧ a.addressable = true ∧ b.addressable = true := by
  unfold broadcast? at found
  split at found
  · rename_i addressable
    rw [Bool.and_eq_true] at addressable
    obtain ⟨found, _⟩ := Option.filter_eq_some_iff.mp found
    obtain ⟨ss, all, rfl⟩ := Option.map_eq_some_iff.mp found
    obtain ⟨front, back, rfl, left⟩ := stretchAll?_left all
    obtain ⟨front', back', same, right⟩ := stretchAll?_left ((stretchAll?_comm ..).trans all)
    exact ⟨stretches_reverse left, same ▸ stretches_reverse right, addressable⟩
  · cases found

private theorem stretchAll?_agree : ∀ {bs front : List Nat} (back : List Nat),
    List.Forall₂ (fun d e => d = e ∨ d = 1) bs front → stretchAll? (front ++ back) bs = some (front ++ back)
  | [], [], [], _ => rfl
  | [], [], _ :: _, _ => rfl
  | b :: bs, a :: front, back, .cons here agree => by
    have first : stretch? a b = some a := by unfold stretch?; grind
    rw [List.cons_append, stretchAll?, first, stretchAll?_agree back agree]

private theorem Stretches.stretchAll?_eq (stretches : Stretches a s) :
    stretchAll? s.reverse a.reverse = some s.reverse := by
  obtain ⟨lead, tail, rfl, agree⟩ := stretches
  have agree : List.Forall₂ (fun d e => d = e ∨ d = 1) a.reverse tail.reverse := List.rel_reverse agree
  rw [List.reverse_append, stretchAll?_agree lead.reverse agree]

theorem Stretches.broadcast?_eq (stretches : Stretches a s) (found : broadcast? s a = some t) : t = s := by
  unfold broadcast? at found
  split at found
  · obtain ⟨found, _⟩ := Option.filter_eq_some_iff.mp found
    rw [stretches.stretchAll?_eq, Option.map_some, List.reverse_reverse] at found
    exact (Option.some.inj found).symm
  · cases found

theorem broadcast?_of_stretches (stretches : Stretches a s) (first : a.addressable = true)
    (second : s.addressable = true) (counts : countable 1 s = true) :
    broadcast? s a = some s ∧ broadcast? a s = some s := by
  have all := stretches.stretchAll?_eq
  have whole : ((some s.reverse).map List.reverse).filter (countable 1) = some s := by
    simp [Option.filter, counts]
  constructor
  · rw [broadcast?, first, second, Bool.and_self, if_pos rfl, all, whole]
  · rw [broadcast?, first, second, Bool.and_self, if_pos rfl, stretchAll?_comm, all, whole]

/-! Axes outside and in a list, from an axis on. -/

def keepFrom (axes : List Nat) : Nat → Shape → Shape
  | _, [] => []
  | axis, dim :: rest =>
    if axes.contains axis then keepFrom axes (axis + 1) rest else dim :: keepFrom axes (axis + 1) rest

def selectFrom (axes : List Nat) : Nat → Shape → Shape
  | _, [] => []
  | axis, dim :: rest =>
    if axes.contains axis then dim :: selectFrom axes (axis + 1) rest else selectFrom axes (axis + 1) rest

theorem keep_eq (s : Shape) (axes : List Nat) : keep s axes = keepFrom axes 0 s := by
  have from_ : ∀ axis, ((s.zipIdx axis).filterMap fun p =>
      if axes.contains p.2 then none else some p.1) = keepFrom axes axis s := by
    induction s with
    | nil => intro axis; rfl
    | cons dim rest ih =>
      intro axis
      rw [List.zipIdx_cons, List.filterMap_cons, keepFrom, ih]
      by_cases here : axes.contains axis = true <;> simp only [here, if_true, if_false, Bool.false_eq_true]
  exact from_ 0

theorem select_eq (s : Shape) (axes : List Nat) : select s axes = selectFrom axes 0 s := by
  have from_ : ∀ axis, ((s.zipIdx axis).filterMap fun p =>
      if axes.contains p.2 then some p.1 else none) = selectFrom axes axis s := by
    induction s with
    | nil => intro axis; rfl
    | cons dim rest ih =>
      intro axis
      rw [List.zipIdx_cons, List.filterMap_cons, selectFrom, ih]
      by_cases here : axes.contains axis = true <;> simp only [here, if_true, if_false, Bool.false_eq_true]
  exact from_ 0

theorem merge_cons (axes : List Nat) (rank axis : Nat) (o n : Index) :
    merge axes (rank + 1) axis o n =
      if axes.contains axis then n.headD 0 :: merge axes rank (axis + 1) o n.tail
      else o.headD 0 :: merge axes rank (axis + 1) o.tail n := rfl

theorem length_merge (axes : List Nat) (rank axis : Nat) (o n : Index) :
    (merge axes rank axis o n).length = rank := by
  induction rank generalizing axis o n with
  | zero => rfl
  | succ rank ih =>
    rw [merge_cons]
    split <;> simp [ih]

/-- A sum over all indices is one over the axes outside and then over those in a list. -/
theorem sum_merge {M : Type} [AddCommMonoid M] (axes : List Nat) (s : Shape) (axis : Nat) (f : Index → M) :
    ∑ i ∈ box s, f i = ∑ o ∈ box (keepFrom axes axis s), ∑ n ∈ box (selectFrom axes axis s),
      f (merge axes s.length axis o n) := by
  induction s generalizing axis f with
  | nil =>
    simp only [keepFrom, selectFrom, sum_box_nil]
    rfl
  | cons dim rest ih =>
    rw [sum_box_cons]
    have inner := fun k => ih (axis + 1) fun i => f (k :: i)
    simp only [List.length_cons, merge_cons, keepFrom, selectFrom, inner]
    by_cases here : axes.contains axis
    · simp only [if_pos here, sum_box_cons, List.headD_cons, List.tail_cons]
      rw [Finset.sum_comm]
    · simp only [if_neg here, sum_box_cons, List.headD_cons, List.tail_cons]

theorem contains_merge : ∀ {s : Shape} {axis : Nat} {o n : Index}, Contains (keepFrom axes axis s) o →
    Contains (selectFrom axes axis s) n → Contains s (merge axes s.length axis o n)
  | [], _, _, _, _, _ => trivial
  | dim :: rest, axis, o, n, outer, inner => by
    rw [List.length_cons, merge_cons]
    rw [keepFrom] at outer
    rw [selectFrom] at inner
    by_cases here : axes.contains axis
    · rw [if_pos here] at outer inner ⊢
      cases n with
      | nil => exact inner.elim
      | cons k n => exact ⟨inner.1, contains_merge outer inner.2⟩
    · rw [if_neg here] at outer inner ⊢
      cases o with
      | nil => exact outer.elim
      | cons k o => exact ⟨outer.1, contains_merge outer.2 inner⟩

/-- One shape is another whose axes in a list have become single cells. -/
def Collapses (axes : List Nat) : Nat → Shape → Shape → Prop
  | _, [], [] => True
  | axis, dim :: s, e :: t =>
    (if axes.contains axis then e = 1 else e = dim) ∧ Collapses axes (axis + 1) s t
  | _, _, _ => False

theorem Collapses.length : ∀ {axis : Nat} {s t : Shape}, Collapses axes axis s t → t.length = s.length
  | _, [], [], _ => rfl
  | _, _ :: _, _ :: _, collapses => congrArg Nat.succ collapses.2.length

theorem Collapses.volume : ∀ {axis : Nat} {s t : Shape}, Collapses axes axis s t →
    volume t = volume (keepFrom axes axis s)
  | _, [], [], _ => rfl
  | axis, dim :: s, e :: t, ⟨here, collapses⟩ => by
    rw [keepFrom, Shape.volume, collapses.volume]
    split
    · rw [if_pos ‹_›] at here
      rw [here, Nat.one_mul]
    · rw [if_neg ‹_›] at here
      rw [here, Shape.volume]

/-- In the collapsed shape an index has the place of its coordinates along the kept axes. -/
theorem Collapses.offset_clamp : ∀ {axis : Nat} {s t : Shape} {o : Index}, Collapses axes axis s t →
    Contains (keepFrom axes axis s) o → ∀ n, offset t (clamp t (merge axes s.length axis o n)) =
      offset (keepFrom axes axis s) o
  | _, [], [], o, _, outer, _ => by cases o <;> rfl
  | axis, dim :: s, e :: t, o, ⟨here, collapses⟩, outer, n => by
    have volumes := collapses.volume
    rw [List.length_cons, merge_cons]
    rw [keepFrom] at outer ⊢
    by_cases chosen : axes.contains axis
    · rw [if_pos chosen] at here outer ⊢
      have rest := collapses.offset_clamp outer n.tail
      rw [clamp] at rest
      rw [if_pos chosen, clamp, List.zipWith_cons_cons, if_pos here, offset, rest, Nat.zero_mul,
        Nat.zero_add]
    · rw [if_neg chosen] at here outer ⊢
      cases o with
      | nil => exact outer.elim
      | cons k o =>
        have rest := collapses.offset_clamp outer.2 n
        have first := outer.1
        rw [clamp] at rest
        rw [if_neg chosen, List.headD_cons, List.tail_cons, clamp, List.zipWith_cons_cons, offset, rest,
          offset, volumes]
        split
        · rw [show k = 0 by omega]
        · rfl

/-- The same where the axes in front are dropped. -/
theorem Collapses.offset_narrow {k : Nat} (collapses : Collapses axes 0 s (List.replicate k 1 ++ a))
    (outer : Contains (keep s axes) o) (n : Index) :
    offset a (narrow a (merge axes s.length 0 o n)) = offset (keep s axes) o := by
  rw [keep_eq] at outer ⊢
  rw [← collapses.offset_clamp outer n]
  have long := length_merge axes s.length 0 o n
  have sizes := collapses.length
  generalize merge axes s.length 0 o n = i at long
  rw [List.length_append, List.length_replicate] at sizes
  obtain ⟨l, r, rfl, left⟩ : ∃ l r, i = l ++ r ∧ l.length = k :=
    ⟨i.take k, i.drop k, (List.take_append_drop k i).symm, by rw [List.length_take]; omega⟩
  rw [narrow_append (by rw [List.length_append] at long; omega)]
  clear collapses outer long sizes
  induction k generalizing l with
  | zero => rw [List.eq_nil_of_length_eq_zero left]; rfl
  | succ k ih =>
    cases l with
    | nil => cases left
    | cons i l =>
      rw [ih l (Nat.succ.inj left)]
      simp [clamp, List.replicate_succ, offset]

theorem volume_ones_append (k : Nat) (a : Shape) : volume (List.replicate k 1 ++ a) = volume a := by
  induction k with
  | zero => rfl
  | succ k ih => rw [List.replicate_succ, List.cons_append, volume, ih, Nat.one_mul]

theorem Collapses.volume_keep {k : Nat} (collapses : Collapses axes 0 s (List.replicate k 1 ++ a)) :
    Shape.volume (keep s axes) = Shape.volume a := by
  rw [keep_eq, ← collapses.volume, volume_ones_append]

theorem sum_narrow {M : Type} [AddCommMonoid M] {k : Nat}
    (collapses : Collapses axes 0 s (List.replicate k 1 ++ a)) (stretches : Stretches a s)
    (f : Index → Index → M) :
    ∑ i ∈ box s, f i (narrow a i) = ∑ j ∈ box a, ∑ n ∈ box (select s axes),
      f (merge axes s.length 0 ((keep s axes).index (offset a j)) n) j := by
  have read : ∀ o ∈ box (keep s axes), ∀ n ∈ box (select s axes),
      narrow a (merge axes s.length 0 o n) = a.index (offset (keep s axes) o) := by
    intro o outer n inner
    have outer := mem_box.mp outer
    rw [← collapses.offset_narrow outer n]
    refine (index_offset (stretches.contains ?_)).symm
    exact contains_merge (keep_eq s axes ▸ outer) (select_eq s axes ▸ mem_box.mp inner)
  rw [sum_merge axes s 0, ← keep_eq, ← select_eq,
    ← sum_reshaped collapses.volume_keep fun o j => ∑ n ∈ box (select s axes), f (merge axes s.length 0 o n) j]
  exact Finset.sum_congr rfl fun o outer => Finset.sum_congr rfl fun n inner => by rw [read o outer n inner]

theorem collapses_collapse (s : Shape) (axes : List Nat) : Collapses axes 0 s (collapse s axes) := by
  have from_ : ∀ axis, Collapses axes axis s
      ((s.zipIdx axis).map fun p => if axes.contains p.2 then 1 else p.1) := by
    induction s with
    | nil => intro axis; trivial
    | cons dim rest ih =>
      intro axis
      refine ⟨?_, ih (axis + 1)⟩
      dsimp only
      split <;> rfl
  exact from_ 0

theorem Collapses.behind {tail : Shape} : ∀ {lead : Shape} {axis : Nat},
    (∀ k, axis ≤ k → k < axis + lead.length → k ∈ axes) → Collapses axes (axis + lead.length) tail a →
      Collapses axes axis (lead ++ tail) (List.replicate lead.length 1 ++ a)
  | [], _, _, collapses => collapses
  | dim :: lead, axis, front, collapses => by
    refine ⟨?_, ?_⟩
    · rw [if_pos (List.contains_iff_mem.mpr (front axis (le_refl _) (by simp)))]
    · refine Collapses.behind (fun k above below => front k (by omega) ?_) ?_
      · rw [List.length_cons]
        omega
      · rw [List.length_cons] at collapses
        rwa [Nat.add_assoc, Nat.add_comm 1]

theorem Collapses.of_nil : ∀ {axis : Nat} {s t : Shape}, Collapses [] axis s t → t = s
  | _, [], [], _ => rfl
  | axis, dim :: s, e :: t, ⟨here, collapses⟩ => by
    rw [if_neg (by simp)] at here
    rw [here, collapses.of_nil]

/-! No axis from some axis on. -/

theorem Collapses.self : ∀ {axis : Nat} {s : Shape}, (∀ k, axis ≤ k → k ∉ axes) → Collapses axes axis s s
  | _, [], _ => trivial
  | axis, dim :: s, absent =>
    ⟨by rw [if_neg (by simpa using absent axis (le_refl _))], .self fun k above => absent k (by omega)⟩

theorem keepFrom_self : ∀ {axis : Nat} {s : Shape}, (∀ k, axis ≤ k → k ∉ axes) → keepFrom axes axis s = s
  | _, [], _ => rfl
  | axis, dim :: s, absent => by
    rw [keepFrom, if_neg (by simpa using absent axis (le_refl _)), keepFrom_self fun k above => absent k (by omega)]

theorem keep_front {dim : Nat} (only : ∀ k, k ∈ axes ↔ k = 0) : keep (dim :: s) axes = s := by
  rw [keep_eq, keepFrom, if_pos (by simp [only])]
  exact keepFrom_self fun k above member => by simp [(only k).mp member] at above

/-! The last axis alone. -/

section
variable {lead : Shape} {axis dim : Nat}

theorem Collapses.last (only : ∀ k, axis ≤ k → (k ∈ axes ↔ k = axis + lead.length)) :
    Collapses axes axis (lead ++ [dim]) (lead ++ [1]) := by
  induction lead generalizing axis with
  | nil => exact ⟨by rw [if_pos (by simpa using only axis (le_refl _))], trivial⟩
  | cons d rest ih =>
    refine ⟨?_, ih fun k above => ?_⟩
    · rw [if_neg (by simp [only axis (le_refl _)])]
    · rw [only k (by omega), List.length_cons, Nat.add_assoc, Nat.add_comm 1]

theorem keepFrom_last (only : ∀ k, axis ≤ k → (k ∈ axes ↔ k = axis + lead.length)) :
    keepFrom axes axis (lead ++ [dim]) = lead := by
  induction lead generalizing axis with
  | nil => rw [List.nil_append, keepFrom, if_pos (by simpa using only axis (le_refl _)), keepFrom]
  | cons d rest ih =>
    rw [List.cons_append, keepFrom, if_neg (by simp [only axis (le_refl _)]), ih fun k above => ?_]
    rw [only k (by omega), List.length_cons, Nat.add_assoc, Nat.add_comm 1]

theorem selectFrom_last (only : ∀ k, axis ≤ k → (k ∈ axes ↔ k = axis + lead.length)) :
    selectFrom axes axis (lead ++ [dim]) = [dim] := by
  induction lead generalizing axis with
  | nil => rw [List.nil_append, selectFrom, if_pos (by simpa using only axis (le_refl _)), selectFrom]
  | cons d rest ih =>
    rw [List.cons_append, selectFrom, if_neg (by simp [only axis (le_refl _)]), ih fun k above => ?_]
    rw [only k (by omega), List.length_cons, Nat.add_assoc, Nat.add_comm 1]

theorem merge_last (only : ∀ k, axis ≤ k → (k ∈ axes ↔ k = axis + lead.length)) {p : Index}
    (long : p.length = lead.length) (k : Nat) : merge axes (lead.length + 1) axis p [k] = p ++ [k] := by
  induction lead generalizing axis p with
  | nil =>
    rw [List.eq_nil_of_length_eq_zero long, merge_cons, if_pos (by simpa using only axis (le_refl _))]
    rfl
  | cons d rest ih =>
    cases p with
    | nil => cases long
    | cons i p =>
      rw [List.length_cons, merge_cons, if_neg (by simp [only axis (le_refl _)]), List.headD_cons, List.tail_cons,
        ih (fun k above => ?_) (Nat.succ.inj long), List.cons_append]
      rw [only k (by omega), List.length_cons, Nat.add_assoc, Nat.add_comm 1]

end

theorem index_narrow_collapse (outer : Contains (keep s axes) o) (n : Index) :
    (keep s axes).index (offset (collapse s axes) (narrow (collapse s axes) (merge axes s.length 0 o n))) =
      o := by
  have collapses : Collapses axes 0 s (List.replicate 0 1 ++ collapse s axes) := collapses_collapse s axes
  rw [collapses.offset_narrow outer n, index_offset outer]

theorem merge_nil : ∀ {rank axis : Nat} {o : Index}, o.length = rank → ∀ n, merge [] rank axis o n = o
  | 0, _, [], _, _ => rfl
  | rank + 1, axis, k :: o, long, n => by
    rw [merge_cons, if_neg (by simp), List.headD_cons, List.tail_cons, merge_nil (Nat.succ.inj long)]

theorem selectFrom_nil (axis : Nat) (s : Shape) : selectFrom [] axis s = [] := by
  induction s generalizing axis with
  | nil => rfl
  | cons dim rest ih => rw [selectFrom, if_neg (by simp), ih]

end Shape

namespace Tensor
open Shape
variable {axes : List Nat}

theorem sum_shape {S : Type} [Zero S] [Add S] {t : Tensor S} : (t.sum axes).shape = keep t.shape axes := by
  unfold Tensor.sum
  split
  · rename_i none
    rw [none, keep_eq, keepFrom_self (by simp)]
  · rfl

theorem sum_cell {M : Type} [AddCommMonoid M] {t : Tensor M} {o : Index} (inside : Contains (keep t.shape axes) o) :
    (t.sum axes).cell o =
      ∑ n ∈ box (select t.shape axes), t.cell (merge axes t.shape.length 0 o n) := by
  unfold Tensor.sum
  split
  · rename_i none
    subst none
    rw [keep_eq, keepFrom_self (by simp)] at inside
    rw [select_eq, selectFrom_nil, sum_box_nil, merge_nil inside.length]
  · exact total_eq_sum ..

end Tensor
end TensorDag
