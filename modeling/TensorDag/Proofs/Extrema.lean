import TensorDag.Proofs.Reducing

/-!
Extrema of whole elements. Each cell of a maximum over some axes is the greatest of the cells that project to it. Each
cell of the places of minima tells the first place along the axis where the cells through it are least.
-/
namespace TensorDag
open Result (bind_eq_ok)

namespace Shape
variable {axes : List Nat} {gone : Finset Nat} {s : Shape} {o i : Index}

/-- What is left of a shape or an index where some axes are gone. -/
def project (gone : Finset Nat) (i : Index) : Index := (i.zipIdx.filter fun (_, axis) => axis ∉ gone).map Prod.fst

theorem project_eq_keep (only : ∀ k, k ∈ axes ↔ k ∈ gone) (i : Index) : project gone i = keep i axes := by
  rw [project, keep, ← List.filterMap_eq_map, ← List.filterMap_eq_filter, List.filterMap_filterMap]
  refine List.filterMap_congr fun entry _ => ?_
  by_cases here : entry.2 ∈ gone <;> simp [Option.guard, only, here]

theorem merge_parts : ∀ {s : Shape} {axis : Nat} {i : Index}, Contains s i →
    Contains (selectFrom axes axis s) (selectFrom axes axis i) ∧
      merge axes s.length axis (keepFrom axes axis i) (selectFrom axes axis i) = i
  | [], _, [], _ => ⟨trivial, rfl⟩
  | dim :: rest, axis, k :: i, inside => by
    have ⟨within, joined⟩ : Contains (selectFrom axes (axis + 1) rest) (selectFrom axes (axis + 1) i) ∧ _ :=
      merge_parts inside.2
    rw [List.length_cons, merge_cons, selectFrom, selectFrom, keepFrom]
    by_cases here : axes.contains axis
    · simp only [if_pos here, List.headD_cons, List.tail_cons, joined]
      exact ⟨⟨inside.1, within⟩, trivial⟩
    · simp only [if_neg here, List.headD_cons, List.tail_cons, joined]
      exact ⟨within, trivial⟩

theorem keepFrom_merge : ∀ {s : Shape} {axis : Nat} {o n : Index}, Contains (keepFrom axes axis s) o →
    Contains (selectFrom axes axis s) n → keepFrom axes axis (merge axes s.length axis o n) = o
  | [], _, [], _, _, _ => rfl
  | dim :: rest, axis, o, n, outer, inner => by
    rw [List.length_cons, merge_cons]
    rw [keepFrom] at outer
    rw [selectFrom] at inner
    by_cases here : axes.contains axis
    · rw [if_pos here] at outer inner ⊢
      cases n with
      | nil => exact inner.elim
      | cons k n => rw [keepFrom, if_pos here, List.tail_cons, keepFrom_merge outer inner.2]
    · rw [if_neg here] at outer inner ⊢
      cases o with
      | nil => exact outer.elim
      | cons k o => rw [keepFrom, if_neg here, List.headD_cons, List.tail_cons, keepFrom_merge outer.2 inner]

theorem projects_iff (outer : Contains (keep s axes) o) :
    Contains s i ∧ keep i axes = o ↔ ∃ n, Contains (select s axes) n ∧ i = merge axes s.length 0 o n := by
  rw [keep_eq] at outer
  rw [keep_eq, select_eq]
  constructor
  · rintro ⟨inside, rfl⟩
    have ⟨within, joined⟩ : Contains (selectFrom axes 0 s) (selectFrom axes 0 i) ∧ _ := merge_parts inside
    exact ⟨_, within, joined.symm⟩
  · rintro ⟨n, within, rfl⟩
    exact ⟨contains_merge outer within, keepFrom_merge outer within⟩

theorem volume_select_ne_zero (filled : ∀ k ∈ axes, s[k]? ≠ some 0) : volume (select s axes) ≠ 0 := by
  refine Nat.one_le_iff_ne_zero.mp (volume_pos fun d member => Nat.one_le_iff_ne_zero.mpr ?_)
  rintro rfl
  obtain ⟨⟨dim, k⟩, listed, chosen⟩ := List.mem_filterMap.mp member
  have chosen : (if axes.contains k then some dim else none) = some 0 := chosen
  by_cases here : k ∈ axes
  · rw [if_pos (List.contains_iff_mem.mpr here)] at chosen
    cases chosen
    exact filled k here (List.mk_mem_zipIdx_iff_getElem?.mp listed)
  · rw [if_neg (mt List.contains_iff_mem.mp here)] at chosen
    cases chosen

end Shape

theorem Int32.not_lt_not (a b : Int32) : ~~~a < ~~~b ↔ b < a := by
  have inverted : ∀ c : Int32, (~~~c).toInt = -c.toInt - 1 := fun c => by
    have low := c.le_toInt
    have high := c.toInt_lt
    rw [Int32.toInt_not, Int.bmod_eq_of_le (by omega) (by omega)]
  rw [Int32.lt_iff_toInt_lt, Int32.lt_iff_toInt_lt, inverted, inverted]
  omega

namespace Tensor
open Shape
variable {axes : List Nat} {gone : Finset Nat} {axis : Nat} {t m p : Tensor Int32} {o : Index}

/-- The first extremum of elements is that of others which are in the same order. -/
theorem placeBy_map {α β : Type} [Element α] [Element β] (f : α → β) (before : β → β → Bool)
    (defined : ∀ a, Element.isUndefined (f a) = Element.isUndefined a) (l : List α) :
    placeBy before (l.map f) = placeBy (fun a b => before (f a) (f b)) l := by
  have run : ∀ (rest : List α) (place best : Nat) (value : α), firstBy before place best (f value) (rest.map f) =
      firstBy (fun a b => before (f a) (f b)) place best value rest := by
    intro rest
    induction rest with
    | nil => exact fun _ _ _ => rfl
    | cons next rest ih =>
      intro place best value
      rw [List.map_cons, firstBy, firstBy, defined, defined]
      split
      · exact ih ..
      · exact ih ..
  cases l with
  | nil => rfl
  | cons first rest => exact run rest 1 0 first

/-- The place of the first minimum of some whole elements. -/
theorem placeBy_least {l : List Int32} (some : l ≠ []) :
    IsLeast {k | ∃ v, l[k]? = .some v ∧ ∀ u ∈ l, v ≤ u} (placeBy Element.less l) := by
  -- the minimum of the elements is the maximum of their inverses
  have place : placeBy (fun a b => Element.less b a) (l.map (~~~·)) = placeBy Element.less l := by
    rw [placeBy_map (~~~· : Int32 → Int32) _ (fun _ => rfl)]
    exact congrArg (placeBy · l) (funext₂ fun a b => decide_eq_decide.mpr (Int32.not_lt_not b a))
  have leads := leads_greatest (l := l.map (~~~·)) (by simpa using some)
  rw [place] at leads
  obtain ⟨v, here, value⟩ := List.getElem?_map .. ▸ leads.here |> Option.map_eq_some_iff.mp
  rw [← value] at leads
  constructor
  · refine ⟨v, here, fun u member => Int32.not_lt.mp fun less => ?_⟩
    exact Int32.not_lt.mpr (leads.most _ (List.mem_map_of_mem member)) ((Int32.not_lt_not v u).mpr less)
  · rintro k ⟨u, there, least⟩
    refine Nat.not_lt.mp fun before => ?_
    have greater := leads.first k (~~~u) before (by rw [List.getElem?_map, there, Option.map_some])
    exact Int32.not_lt.mpr (least v (List.mem_of_getElem? here)) ((Int32.not_lt_not u v).mp greater)

/-- A maximum is the greatest of the cells that project to it. -/
theorem maximum_projected (only : ∀ k, k ∈ axes ↔ k ∈ gone) (inside : Contains (project gone t.shape) o)
    (some : volume (select t.shape axes) ≠ 0) :
    IsGreatest {v | ∃ i, Contains t.shape i ∧ project gone i = o ∧ v = t.cell i} ((t.maximum axes).cell o) := by
  rw [project_eq_keep only] at inside
  have cells : {v | ∃ i, Contains t.shape i ∧ project gone i = o ∧ v = t.cell i} =
      {v | ∃ n, Contains (select t.shape axes) n ∧ v = t.cell (merge axes t.shape.length 0 o n)} := by
    ext v
    simp only [Set.mem_ofPred_eq, project_eq_keep only]
    constructor
    · rintro ⟨i, within, projects, rfl⟩
      obtain ⟨n, along, rfl⟩ := (projects_iff inside).mp ⟨within, projects⟩
      exact ⟨n, along, rfl⟩
    · rintro ⟨n, along, rfl⟩
      obtain ⟨within, projects⟩ := (projects_iff inside).mpr ⟨n, along, rfl⟩
      exact ⟨_, within, projects, rfl⟩
  rw [cells]
  exact maximum_greatest inside some

/-- The place of a minimum is the first one where the cells along the axis are least. -/
theorem argmin_least (some : t.shape.getD axis 0 ≠ 0) (o : Index) :
    IsLeast {k | k < t.shape.getD axis 0 ∧ ∀ j < t.shape.getD axis 0, t.cell (o.set axis k) ≤ t.cell (o.set axis j)}
      ((t.argmin axis).cell o) := by
  have least := placeBy_least (l := (List.range (t.shape.getD axis 0)).map fun k => t.cell (o.set axis k))
    (by simpa using some)
  have places : {k | k < t.shape.getD axis 0 ∧
      ∀ j < t.shape.getD axis 0, t.cell (o.set axis k) ≤ t.cell (o.set axis j)} =
        {k | ∃ v, ((List.range (t.shape.getD axis 0)).map fun k => t.cell (o.set axis k))[k]? = .some v ∧
          ∀ u ∈ (List.range (t.shape.getD axis 0)).map fun k => t.cell (o.set axis k), v ≤ u} := by
    ext k
    simp only [Set.mem_ofPred_eq, List.getElem?_map, List.mem_map, List.mem_range, forall_exists_index, and_imp,
      forall_apply_eq_imp_iff₂]
    constructor
    · rintro ⟨below, least⟩
      exact ⟨_, by rw [List.getElem?_range below, Option.map_some], least⟩
    · rintro ⟨v, here, least⟩
      obtain ⟨j, found, rfl⟩ := Option.map_eq_some_iff.mp here
      obtain ⟨below, rfl⟩ := List.getElem?_eq_some_iff.mp found
      rw [List.getElem_range] at least
      exact ⟨by simpa using below, least⟩
  rw [places]
  exact least

/-- Each cell of one tensor is the greatest of the cells of another that project to it. -/
structure Maxima (gone : Finset Nat) (t m : Tensor Int32) : Prop where
  shape : m.shape = project gone t.shape
  greatest : ∀ o, Contains m.shape o →
    IsGreatest {v | ∃ i, Contains t.shape i ∧ project gone i = o ∧ v = t.cell i} (m.cell o)

/-- Each cell of one tensor tells the first place where the cells of another are least along an axis, by the whole
element that the place becomes; it is the place itself if there are no more than half as many as elements. -/
structure LeastPlaces (axis : Nat) (t p : Tensor Int32) : Prop where
  shape : p.shape = t.shape.set axis 1
  least : ∀ o, Contains p.shape o → ∃ place, IsLeast {k | k < t.shape.getD axis 0 ∧
    ∀ j < t.shape.getD axis 0, t.cell (o.set axis k) ≤ t.cell (o.set axis j)} place ∧
      p.cell o = Int32.ofNat place ∧ (t.shape.getD axis 0 ≤ 2 ^ 31 → (p.cell o).toInt = place)

theorem Same.maxima (same : m.Same (t.maximum axes)) (only : ∀ k, k ∈ axes ↔ k ∈ gone)
    (some : volume (select t.shape axes) ≠ 0) : Maxima gone t m := by
  have shape : m.shape = project gone t.shape := by rw [same.shape, maximum_shape, project_eq_keep only]
  refine ⟨shape, fun o inside => ?_⟩
  rw [same.cells o inside]
  exact maximum_projected only (shape ▸ inside) some

theorem Same.leastPlaces (same : p.Same ((t.argmin axis).map fun place => Int32.ofNat place))
    (some : t.shape.getD axis 0 ≠ 0) : LeastPlaces axis t p := by
  refine ⟨same.shape, fun o inside => ⟨_, argmin_least some o, same.cells o inside, fun few => ?_⟩⟩
  have below := (argmin_least some o).1.1
  rw [same.cells o inside]
  exact Int32.toInt_ofNat_of_lt (below.trans_le few)

end Tensor

namespace Node
variable {n x : Node} {op : Operator} {leaf : Node → Result Bytes} {f : List (Tensor UInt32) → Tensor UInt32}
  {g : Tensor Int32 → Tensor Int32} {r : Tensor Int32 → Tensor Int32 → Prop}

/-- What a node of whole elements computes from another one. It evaluates where the other does, if arrays can have the
other one's shape and there is room for items of a size in its own; and wherever it evaluates, the two tensors are
related. -/
structure ComputesFrom [Memory] (x n : Node) (itemSize : Nat) (r : Tensor Int32 → Tensor Int32 → Prop) : Prop where
  returns : x.shape.Holdable → n.shape.room itemSize = .ok () → ∀ leaf a, x.Evaluates leaf a →
    ∃ b, n.evaluate leaf = .ok b
  relates : ∀ leaf b, n.evaluate leaf = .ok b → ∃ a, x.Evaluates leaf a ∧
    r (Tensor.whole x.shape a) (Tensor.whole n.shape b)

theorem Worded.computesFrom [Memory] {itemSize : Nat} (worded : n.Worded op f) (inputs : n.inputs = [x])
    (words : ∀ u, f [u] = (g (u.map UInt32.toInt32)).map Int32.toUInt32)
    (shape : ∀ t, t.shape = x.shape → (g t).shape = n.shape) (large : 4 ≤ itemSize)
    (affords : n.shape.room itemSize = .ok () → op.afford [x.type] n.shape = .ok ())
    (related : ∀ t m, t.shape = x.shape → m.Same (g t) → r t m) : x.ComputesFrom n itemSize r where
  returns held room leaf a value := by
    have fits : n.type.Fits := .of_room large room
    exact ⟨_, ((worded.evaluates_one inputs).mpr ⟨⟨fits, affords room⟩, a, value, held, rfl⟩).1⟩
  relates leaf b value := by
    obtain ⟨_, a, given, _, rfl⟩ :=
      (worded.evaluates_one inputs).mp (worded.formed.evaluates worded.sampling value)
    refine ⟨a, given, related _ _ rfl ?_⟩
    rw [words, ← shape (Tensor.whole x.shape a) rfl]
    exact Tensor.whole_bytes _

theorem Formed.computes_maxima [Memory] {axes : List Nat} {gone : Finset Nat} (formed : n.Formed (.maxElement axes))
    (inputs : n.inputs = [x]) (whole : x.elementType = .int32) (shape : n.shape = Shape.keep x.shape axes)
    (only : ∀ k, k ∈ axes ↔ k ∈ gone) (some : Shape.volume (Shape.select x.shape axes) ≠ 0) :
    x.ComputesFrom n 4 (Tensor.Maxima gone) := by
  have worded := Reduction.worded_of_some (r := .maxElement) formed inputs whole fun _ => some
  refine worded.computesFrom inputs (g := Tensor.maximum axes) (fun _ => rfl) (fun t same => ?_) le_rfl
    (fun _ => Operator.afford_frugal (Reduction.along_frugal .maxElement axes))
    fun t m same made => made.maxima only (same ▸ some)
  rw [Tensor.maximum_shape, same, shape]

def placeWords (axis : Nat) (s : Shape) : List (Tensor UInt32) → Tensor UInt32
  | [a] => (((a.map UInt32.toInt32).argmin axis).map fun place => Int32.ofNat place).map Int32.toUInt32
  | _ => ⟨s, fun _ => 0⟩

theorem Formed.places_worded {axis : Nat} (formed : n.Formed (.argmin axis)) (inputs : n.inputs = [x])
    (whole : x.elementType = .int32) (some : Shape.volume (Shape.select x.shape [axis]) ≠ 0) :
    n.Worded (.argmin axis) (placeWords axis n.shape) := by
  have type : n.type = ⟨.int32, Shape.replace x.shape axis 1⟩ := by
    obtain ⟨_, types, _, typed⟩ := Operator.inferArgmin_eq_ok.mp formed.typed
    rw [inputs] at types
    cases types
    exact typed.symm
  have element : n.elementType = .int32 := Node.elementType_eq type
  have still : (Operator.argmin axis).kind ∉ Kind.sliding := by simp [Operator.kind, Kind.sliding]
  refine formed.worded_single (fun t => (t.argmin axis).map fun place => Int32.ofNat place) inputs some still
    (by simp) (List.mem_singleton_self 0) whole element (fun made => ?_) (fun {arg a} given shape => ?_)
    (fun same => ?_) fun _ => rfl
  · obtain ⟨_, read, _⟩ := bind_eq_ok.mp made
    obtain ⟨t, given, _⟩ := bind_eq_ok.mp read
    exact ⟨t, given⟩
  · have filled : Operator.notEmptyAlong [axis] a = .ok a := Operator.notEmptyAlong_eq (shape ▸ some)
    exact bind_eq_ok.mpr ⟨a, bind_eq_ok.mpr ⟨a, given, filled⟩, rfl⟩
  · rw [Node.shape_eq type, ← same]
    rfl

/-- The node of the places of minima along an axis that is not empty. -/
theorem Formed.computes_leastPlaces [Memory] {axis : Nat} (formed : n.Formed (.argmin axis)) (inputs : n.inputs = [x])
    (whole : x.elementType = .int32) (shape : n.shape = Shape.replace x.shape axis 1)
    (inside : axis < x.shape.length) (filled : x.shape[axis]? ≠ some 0) :
    x.ComputesFrom n 8 (Tensor.LeastPlaces axis) := by
  have along : Shape.volume (Shape.select x.shape [axis]) ≠ 0 :=
    Shape.volume_select_ne_zero fun k listed => List.mem_singleton.mp listed ▸ filled
  have some : x.shape.getD axis 0 ≠ 0 := by
    intro none
    rw [List.getD_eq_getElem _ _ inside] at none
    exact filled (by rw [List.getElem?_eq_getElem inside, none])
  have worded := formed.places_worded inputs whole along
  -- places are found in words of 64 bits
  have affords : n.shape.room 8 = .ok () → (Operator.argmin axis).afford [x.type] n.shape = .ok () := fun room =>
    Operator.afford_eq_ok.mpr ⟨fun _ => room, List.forall_mem_singleton.mpr room⟩
  refine worded.computesFrom inputs (g := fun t => (t.argmin axis).map fun place => Int32.ofNat place) (fun _ => rfl)
    (fun t same => ?_) (by decide) affords fun t m same made => made.leastPlaces (same ▸ some)
  rw [shape, ← same]
  rfl

end Node

/-- A value names a set of axes: it lists them, each once and counted from either end, or it is null and names all. -/
inductive Value.NamesAxes (rank : Nat) : Value → Finset Nat → Prop
  | listed {v : Value} {is : List Int} {axes : Finset Nat} (lists : v.Lists is)
    (counts : Shape.CountsAxes rank is axes) : NamesAxes rank v axes
  | all : NamesAxes rank .null (Finset.range rank)

namespace Kind
open Building (entry)
variable {x : TensorType} {v : Value}

theorem means_maxElement {gone : Finset Nat} (names : v.NamesAxes x.shape.length gone) :
    ∃ axes : List Nat, (∀ k, k ∈ axes ↔ k ∈ gone) ∧
      Kind.maxElement.Means [x] [entry "axes" v] (.maxElement axes) ⟨x.elementType, Shape.keep x.shape axes⟩ := by
  cases names with
  | listed lists counts => exact Reduction.means .maxElement lists counts
  | all => exact ⟨List.range x.shape.length, by simp, means_of_spell 1 rfl rfl rfl rfl⟩

theorem means_argmin {i : Int} (reads : v.int? = some i) (low : -(x.shape.length : Int) ≤ i)
    (high : i < x.shape.length) : Kind.argmin.Means [x] [entry "axis" v] (.argmin (i % x.shape.length).toNat)
      ⟨.int32, Shape.replace x.shape (i % x.shape.length).toNat 1⟩ := by
  have given : Entries.get [entry "axis" v] "axis" = v := rfl
  have inside : (i % x.shape.length).toNat < x.shape.length := by
    have := Int.emod_lt_of_pos i (show 0 < (x.shape.length : Int) by omega)
    omega
  refine means_of_spell 1 rfl rfl ?_ (Operator.inferArgmin_eq_ok.mpr ⟨x, rfl, inside, rfl⟩)
  simp only [spell, spellArgmin, given, reads]
  exact bind_eq_ok.mpr ⟨_, if_pos ⟨low, high⟩, rfl⟩

end Kind

namespace Workspace
open Building (apply entry)
variable {w : Workspace} {x : Node}

/-- Maxima of whole elements over any axes, and the places of minima along any axis, none of these axes empty. A
maximum takes room for words, and places take room for words of 64 bits. -/
theorem Built.extrema_made [Memory] (built : w.Built ShapeRules.Lasting) (own : x ∈ w.graph.nodes)
    (whole : x.elementType = .int32) :
    (∀ v gone, v.NamesAxes x.shape.length gone → (∀ k ∈ gone, x.shape[k]? ≠ some 0) →
      ∃ n w', apply .maxElement [x] [entry "axes" v] w = .ok n w' ∧ n.type = ⟨.int32, Shape.project gone x.shape⟩ ∧
        x.ComputesFrom n 4 (Tensor.Maxima gone)) ∧
    ∀ v i, v.int? = some i → -(x.shape.length : Int) ≤ i → i < x.shape.length → ∀ axis,
      axis = (i % x.shape.length).toNat → x.shape[axis]? ≠ some 0 →
        ∃ n w', apply .argmin [x] [entry "axis" v] w = .ok n w' ∧ n.type = ⟨.int32, x.shape.set axis 1⟩ ∧
          x.ComputesFrom n 8 (Tensor.LeastPlaces axis) := by
  constructor
  · intro v gone names filled
    obtain ⟨axes, only, means⟩ := Kind.means_maxElement (x := x.type) names
    obtain ⟨n, w', ran, forms⟩ := built.forms [x] (by simpa using own) means
    have some := Shape.volume_select_ne_zero fun k listed => filled k ((only k).mp listed)
    have type := forms.typed.trans (congrArg₂ TensorType.mk whole (Shape.project_eq_keep only x.shape).symm)
    exact ⟨n, w', ran, type, forms.formed.computes_maxima forms.inputs whole (Node.shape_eq forms.typed) only some⟩
  · rintro v i reads low high axis rfl filled
    obtain ⟨n, w', ran, forms⟩ := built.forms [x] (by simpa using own) (Kind.means_argmin (x := x.type) reads low high)
    have inside : (i % x.shape.length).toNat < x.shape.length := by
      have := Int.emod_lt_of_pos i (show 0 < (x.shape.length : Int) by omega)
      omega
    exact ⟨n, w', ran, forms.typed,
      forms.formed.computes_leastPlaces forms.inputs whole (Node.shape_eq forms.typed) inside filled⟩

end Workspace

namespace Sample
open Building (apply entry)

/-- The greatest element of the block in each place of its middle axis, and the first of its last axis that is least. -/
theorem extrema_made_block :
    (Value.NamesAxes 3 (.ints [-1, 0]) {0, 2} ∧ (Value.int (-1)).int? = some (-1)) ∧
      (∃ n w', apply .maxElement [block] [entry "axes" (.ints [-1, 0])] blockWorkspace = .ok n w' ∧
        n.type = ⟨.int32, [3]⟩ ∧ ∃ a b, block.Evaluates (fun x => .ok (Bytes.zeros x.byteSize)) a ∧
          n.evaluate (fun x => .ok (Bytes.zeros x.byteSize)) = .ok b ∧
            Tensor.Maxima {0, 2} (Tensor.whole block.shape a) (Tensor.whole n.shape b)) ∧
      ∃ n w', apply .argmin [block] [entry "axis" (.int (-1))] blockWorkspace = .ok n w' ∧
        n.type = ⟨.int32, [2, 3, 1]⟩ ∧ ∃ a b, block.Evaluates (fun x => .ok (Bytes.zeros x.byteSize)) a ∧
          n.evaluate (fun x => .ok (Bytes.zeros x.byteSize)) = .ok b ∧
            Tensor.LeastPlaces 2 (Tensor.whole block.shape a) (Tensor.whole n.shape b) := by
  have own : block ∈ blockWorkspace.graph.nodes := by simp [blockWorkspace]
  have names : Value.NamesAxes 3 (.ints [-1, 0]) {0, 2} := .listed (Value.lists_ints [-1, 0]) (by decide)
  obtain ⟨maxima, places⟩ := blockWorkspace_built.extrema_made own rfl
  obtain ⟨n, w', ran, type, makes⟩ := maxima _ _ names (by decide)
  obtain ⟨m, w'', ran', type', makes'⟩ := places (.int (-1)) (-1) rfl (by decide) (by decide) 2 rfl (by decide)
  have held : block.shape.Holdable := Shape.holdable_iff.mp (by decide)
  have value : block.Evaluates (fun x => .ok (Bytes.zeros x.byteSize)) (Bytes.zeros 48) := ⟨rfl, rfl⟩
  have room : n.shape.room 4 = .ok () := by
    rw [Node.shape_eq type]
    rfl
  have room' : m.shape.room 8 = .ok () := by
    rw [Node.shape_eq type']
    rfl
  obtain ⟨b, evaluated⟩ := makes.returns held room _ _ value
  obtain ⟨a, given, greatest⟩ := makes.relates _ b evaluated
  obtain ⟨c, evaluated'⟩ := makes'.returns held room' _ _ value
  obtain ⟨a', given', least⟩ := makes'.relates _ c evaluated'
  exact ⟨⟨names, rfl⟩, ⟨n, w', ran, type, a, b, given, evaluated, greatest⟩, m, w'', ran', type', a', c, given',
    evaluated', least⟩

/-! A cell with more axes than arrays have, and a row so long that its last place is no whole element. -/

def maximumOf65Axes : Node :=
  ⟨⟨0, 1⟩, "max_element", [manyAxes], [("axes", .dims (List.range 65))], ⟨.int32, []⟩, none⟩

def longRow : Node := ⟨⟨0, 0⟩, "placeholder", [], [], ⟨.int32, [2 ^ 31 + 1]⟩, none⟩
def argminOfLongRow : Node := ⟨⟨0, 1⟩, "argmin", [longRow], [("axis", .int 0)], ⟨.int32, [1]⟩, none⟩

/-- Zeros, and behind them an element below zero. -/
def lastMinimum : Tensor Int32 := ⟨[2 ^ 31 + 1], fun index => if index = [2 ^ 31] then -1 else 0⟩

/-- The place of the least element of a row that is too long. -/
theorem places_turned : ∃ b, argminOfLongRow.evaluate (fun _ => .ok (lastMinimum.map Int32.toUInt32).bytes) = .ok b ∧
    ((Tensor.whole [1] b).cell [0]).toInt = -2 ^ 31 := by
  have formed : argminOfLongRow.Formed (.argmin 0) := ⟨rfl, rfl, rfl, [entry "axis" (.int 0)], rfl⟩
  have makes := formed.computes_leastPlaces rfl rfl rfl (by decide) (by decide)
  have value : longRow.Evaluates (fun _ => .ok (lastMinimum.map Int32.toUInt32).bytes)
      (lastMinimum.map Int32.toUInt32).bytes := by
    refine ⟨Node.evaluate_leaf rfl, ?_⟩
    rw [Tensor.size_bytes]
    exact Nat.mul_comm ..
  obtain ⟨b, evaluated⟩ := makes.returns (Shape.holdable_iff.mp (by decide)) rfl _ _ value
  obtain ⟨a, given, least⟩ := makes.relates _ b evaluated
  cases Except.ok.inj (value.1.symm.trans given.1)
  obtain ⟨place, ⟨⟨below, most⟩, _⟩, cell, _⟩ := least.least [0] ⟨Nat.one_pos, trivial⟩
  have cells : ∀ k < 2 ^ 31 + 1, (Tensor.whole longRow.shape (lastMinimum.map Int32.toUInt32).bytes).cell [k] =
      if k = 2 ^ 31 then -1 else 0 := by
    intro k inside
    refine ((Tensor.whole_bytes lastMinimum).cells [k] ⟨inside, trivial⟩).trans ?_
    simp [lastMinimum]
  have last : place = 2 ^ 31 := by
    by_contra other
    have less := most (2 ^ 31) (Nat.lt_succ_self _)
    rw [show ([0] : Index).set 0 place = [place] from rfl, show ([0] : Index).set 0 (2 ^ 31) = [2 ^ 31] from rfl,
      cells place below, cells (2 ^ 31) (Nat.lt_succ_self _), if_neg other, if_pos rfl] at less
    exact absurd less (by decide)
  refine ⟨b, evaluated, ?_⟩
  rw [show argminOfLongRow.shape = [1] from rfl] at cell
  rw [cell, last]
  rfl

/-- There is no maximum over more axes than arrays have, and the place of a minimum behind the whole elements is told
by a whole element below zero. -/
theorem extrema_made_refused :
    (manyAxesWorkspace.Built ShapeRules.Lasting ∧ manyAxes ∈ manyAxesWorkspace.graph.nodes ∧ Value.NamesAxes 65 .null
      (Finset.range 65) ∧ (∀ k ∈ Finset.range 65, manyAxes.shape[k]? ≠ some 0) ∧
      (∃ w', apply .maxElement [manyAxes] [entry "axes" .null] manyAxesWorkspace = .ok maximumOf65Axes w') ∧
      manyAxes.Evaluates (fun _ => .ok (Bytes.zeros 4)) (Bytes.zeros 4) ∧
      maximumOf65Axes.evaluate (fun _ => .ok (Bytes.zeros 4)) = .fault .notAddressable) ∧
    argminOfLongRow.Formed (.argmin 0) ∧ argminOfLongRow.inputs = [longRow] ∧ longRow.type = ⟨.int32, [2 ^ 31 + 1]⟩ ∧
      ∃ b, argminOfLongRow.evaluate (fun _ => .ok (lastMinimum.map Int32.toUInt32).bytes) = .ok b ∧
        ((Tensor.whole [1] b).cell [0]).toInt = -2 ^ 31 := by
  refine ⟨⟨manyAxesWorkspace_built, by simp [manyAxesWorkspace], .all, by decide, ⟨_, rfl⟩, ⟨rfl, rfl⟩, rfl⟩, ?_⟩
  exact ⟨⟨rfl, rfl, rfl, [entry "axis" (.int 0)], rfl⟩, rfl, rfl, places_turned⟩

end Sample
end TensorDag
