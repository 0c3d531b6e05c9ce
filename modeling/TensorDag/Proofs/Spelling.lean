import TensorDag.Gradient.Rules
import TensorDag.Proofs.Attributes

/-!
What calls mean whose attributes are spelled as gradient rules spell them: as lists of whole numbers, and
as parameters of other nodes.
-/
namespace TensorDag
open Result (bind_eq_ok pure_eq_ok)
open Building (entry)

namespace Value

/-- A sequence of some whole numbers. -/
def Lists (v : Value) (is : List Int) : Prop := v.asSequence.items? = some (is.map .int)

theorem lists_ints (is : List Int) : (ints is).Lists is := rfl

theorem lists_dims (s : Shape) : (dims s).Lists (s.map Int.ofNat) := by
  simp only [Lists, dims, Shape.wholes, List.map_map]
  rfl

theorem lists_tuple (is : List Int) : (tuple (is.map .int)).Lists is := rfl

theorem lists_wholes (s : Shape) : (tuple (s.map fun (d : Nat) => .int d)).Lists (s.map Int.ofNat) := by
  simp only [Lists, List.map_map]
  rfl

theorem lists_list (is : List Int) : (list (is.map .int)).Lists is := rfl

theorem ofParams_ints (is : List Int) : ofParams (is.map Param.int) = is.map .int := by
  induction is with
  | nil => rfl
  | cons i rest ih => rw [List.map_cons, ofParams, ih]; rfl

theorem lists_ofParam (is : List Int) : (ofParam (.ints is)).Lists is := by
  rw [Param.ints, ofParam, ofParams_ints]
  exact lists_tuple is

variable {v : Value} {is : List Int}

theorem integers_lists (lists : v.Lists is) (kind name : String) : v.integers kind name = .ok is := by
  have all : ∀ is : List Int, sequenceInts kind name v.asSequence (is.map .int) = .ok is := by
    intro is
    induction is with
    | nil => rfl
    | cons i rest ih =>
      rw [List.map_cons, sequenceInts, ih]
      rfl
  have found : v.asSequence.items? = some (is.map .int) := lists
  simp only [integers, found]
  exact all is

theorem shape_lists {s : Shape} (lists : v.Lists (s.map Int.ofNat)) : v.shape = .ok s := by
  have all : ∀ (s : Shape) (others : List Value),
      shapeDims v.asSequence others ((s.map Int.ofNat).map .int) = .ok s := by
    intro s others
    induction s with
    | nil => rfl
    | cons d rest ih =>
      rw [List.map_cons, List.map_cons, shapeDims]
      simp only [int?]
      rw [if_neg (by simp), ih]
      rfl
  have found : v.asSequence.items? = some ((s.map Int.ofNat).map .int) := lists
  simp only [shape, found]
  exact all s _

theorem pair_ofPair {kind name : String} {minimum : Int} {p q : Int × Int}
    (read : (ofPair p).pair kind name minimum = .ok q) : q = p := by
  simp only [pair, ofPair, int?, Option.isSome_none, Bool.false_eq_true, if_false, items?] at read
  obtain ⟨items, found, made⟩ := bind_eq_ok.mp read
  cases found
  dsimp only at made
  split at made <;> cases made
  rfl

theorem pair_ofPair_eq {minimum : Int} {p : Int × Int} (first : minimum ≤ p.1) (second : minimum ≤ p.2)
    (kind name : String) : (ofPair p).pair kind name minimum = .ok p := by
  have bounds : ¬(p.1 < minimum ∨ p.2 < minimum) := by omega
  have read : pairInts (.notPair kind name (ofPair p)) ([.int p.1, .int p.2] : List Value) = .ok [p.1, p.2] := rfl
  refine bind_eq_ok.mpr ⟨_, read, ?_⟩
  dsimp only
  rw [if_neg bounds]
  rfl

theorem pair_minimum {kind name : String} {minimum : Int} {q : Int × Int}
    (read : v.pair kind name minimum = .ok q) : minimum ≤ q.1 ∧ minimum ≤ q.2 := by
  unfold pair at read
  dsimp only at read
  split at read
  · cases read
  · obtain ⟨items, _, made⟩ := bind_eq_ok.mp read
    split at made
    · split at made
      · cases made
      · cases made
        rename_i bounds
        rw [not_or, Int.not_lt, Int.not_lt] at bounds
        exact bounds
    · cases made

end Value

theorem Shape.count_known (s : Shape) : (s.map Int.ofNat).count (-1) = 0 := by
  rw [List.count_eq_zero]
  intro member
  obtain ⟨d, _, same⟩ := List.mem_map.mp member
  exact absurd same (by simp)

namespace Kind
variable {types : List TensorType} {op : Operator} {v : Value}

/-- Axes counted from the front stay as they are. -/
theorem resolveAxes_eq_ok {name : String} {rank : Nat} : ∀ {is : List Int} {axes : List Nat},
    (∀ i ∈ is, 0 ≤ i) → resolveAxes name rank (is.map .int) = .ok axes → is = axes.map Int.ofNat
  | [], axes, _, resolved => by cases resolved; rfl
  | i :: rest, axes, front, resolved => by
    rw [List.map_cons, resolveAxes] at resolved
    obtain ⟨axis, here, resolved⟩ := bind_eq_ok.mp resolved
    obtain ⟨others, later, made⟩ := bind_eq_ok.mp resolved
    cases made
    unfold resolveAxis at here
    split at here
    · rename_i bounds
      cases here
      have positive := front i (List.mem_cons_self ..)
      rw [List.map_cons, ← resolveAxes_eq_ok (fun j member => front j (List.mem_cons_of_mem _ member)) later,
        Int.emod_eq_of_lt positive bounds.2]
      exact congrArg (· :: rest) (Int.toNat_of_nonneg positive).symm
    · cases here

theorem resolveAxes_ints (name : String) {rank : Nat} {is : List Int} (bounds : ∀ i ∈ is, 0 ≤ i ∧ i < rank) :
    resolveAxes name rank (is.map .int) = .ok (is.map Int.toNat) := by
  induction is with
  | nil => rfl
  | cons i rest ih =>
    obtain ⟨⟨low, high⟩, later⟩ := List.forall_mem_cons.mp bounds
    have here : resolveAxis rank i = .ok i.toNat := by
      rw [resolveAxis, if_pos ⟨by omega, high⟩, Int.emod_eq_of_lt low high]
    rw [List.map_cons, resolveAxes]
    exact bind_eq_ok.mpr ⟨_, here, bind_eq_ok.mpr ⟨_, ih later, rfl⟩⟩

theorem spellAxes_sorted {name : String} {es : Entries} {axes : List Nat} (found : spellAxes name types es = .ok axes) :
    axes.Pairwise (· < ·) ∧ ∀ k ∈ axes, k < (source types).rank := by
  have all := List.pairwise_lt_range (n := (source types).rank)
  unfold spellAxes at found
  split at found
  · cases found
    exact ⟨all, fun k => List.mem_range.mp⟩
  · split at found
    · cases found
    · obtain ⟨named, _, found⟩ := bind_eq_ok.mp found
      split at found <;> cases found
      exact ⟨all.sublist List.filter_sublist, fun k member => List.mem_range.mp (List.mem_filter.mp member).1⟩

theorem spell_sum_ok (types : List TensorType) {is : List Int}
    (bounds : ∀ i ∈ is, 0 ≤ i ∧ i < (source types).rank) (distinct : is.Nodup) :
    ∃ axes, Kind.sum.spell types [entry "axes" (.ints is)] = .ok (.sum axes) := by
  have given : Entries.get [entry "axes" (.ints is)] "axes" = .list (is.map .int) := rfl
  have items : (Value.list (is.map .int)).asSequence.items? = some (is.map .int) := rfl
  have single : (is.map Int.toNat).Nodup := by
    refine distinct.map_on fun i first j second same => ?_
    have low := (bounds i first).1
    have low' := (bounds j second).1
    omega
  simp only [spell, spellAxes, given, items, resolveAxes_ints _ bounds]
  exact ⟨_, bind_eq_ok.mpr ⟨_, if_pos single, rfl⟩⟩

theorem spell_sum {is : List Int} (front : ∀ i ∈ is, 0 ≤ i)
    (spelled : Kind.sum.spell types [entry "axes" (.ints is)] = .ok op) :
    ∃ axes, op = .sum axes ∧ ∀ k, k ∈ axes ↔ k < (source types).rank ∧ Int.ofNat k ∈ is := by
  obtain ⟨axes, found, made⟩ := bind_eq_ok.mp spelled
  cases made
  refine ⟨axes, rfl, ?_⟩
  have given : Entries.get [entry "axes" (.ints is)] "axes" = .list (is.map .int) := rfl
  have items : (Value.list (is.map .int)).asSequence.items? = some (is.map .int) := rfl
  simp only [spellAxes, given, items] at found
  obtain ⟨named, resolved, found⟩ := bind_eq_ok.mp found
  have same := resolveAxes_eq_ok front resolved
  split at found <;> cases found
  intro k
  rw [List.mem_filter, List.mem_range, List.contains_iff_mem, same]
  refine and_congr_right fun _ => (List.mem_map_of_injective ?_).symm
  exact fun a b => Int.ofNat.inj

theorem spell_reshape {s : Shape} (lists : v.Lists (s.map Int.ofNat)) :
    Kind.reshape.spell types [entry "shape" v] = .ok (.reshape s) := by
  have given : Value.field? "shape" [entry "shape" v] = some v := rfl
  have filled : fillUnknown (source types) (s.map Int.ofNat) = .ok (s.map Int.ofNat) := by
    rw [fillUnknown, Shape.count_known]
    rfl
  simp only [spell, spellReshape, given, bind_eq_ok]
  refine ⟨_, Value.integers_lists lists .., _, filled, _, Value.shape_lists (Value.lists_ints _), rfl⟩

theorem spell_broadcast {s : Shape} (lists : v.Lists (s.map Int.ofNat)) :
    Kind.broadcast.spell types [entry "shape" v] = .ok (.broadcast s) := by
  have given : Value.field? "shape" [entry "shape" v] = some v := rfl
  simp only [spell, spellBroadcast, given, bind_eq_ok]
  exact ⟨_, Value.shape_lists lists, rfl⟩

theorem spell_transpose_null : Kind.transpose.spell types [entry "order" .null] =
    .ok (.transpose ((List.range (source types).rank).reverse.map Int.ofNat)) :=
  rfl

theorem spell_transpose (order : List Int) :
    Kind.transpose.spell types [entry "order" (.ints order)] = .ok (.transpose order) := by
  have given : Entries.get [entry "order" (.ints order)] "order" = .list (order.map .int) := rfl
  simp only [spell, spellTranspose, given, bind_eq_ok]
  exact ⟨_, Value.integers_lists (Value.lists_list order) .., rfl⟩

variable {low high : Value} {lows highs : List Int}

theorem spell_slice (first : low.Lists lows) (second : high.Lists highs) :
    Kind.slice.spell types [entry "start" low, entry "stop" high] = .ok (.slice lows highs) := by
  have start : Entries.getD [entry "start" low, entry "stop" high] "start" (.tuple []) = low := rfl
  have stop : Entries.getD [entry "start" low, entry "stop" high] "stop" (.tuple []) = high := rfl
  simp only [spell, spellSlice, start, stop, bind_eq_ok]
  exact ⟨_, Value.integers_lists first .., _, Value.integers_lists second .., rfl⟩

theorem spell_pad (first : low.Lists lows) (second : high.Lists highs) :
    Kind.pad.spell types [entry "before" low, entry "after" high] = .ok (.pad lows highs) := by
  have before : ∀ default, Entries.getD [entry "before" low, entry "after" high] "before" default = low :=
    fun _ => rfl
  have after : ∀ default, Entries.getD [entry "before" low, entry "after" high] "after" default = high :=
    fun _ => rfl
  simp only [spell, spellPad, before, after, bind_eq_ok]
  exact ⟨_, Value.integers_lists first .., _, Value.integers_lists second .., rfl⟩

theorem spellShape?_lists {es : Entries} {name : String} {s : Shape} (given : Value.field? name es = some v)
    (lists : v.Lists (s.map Int.ofNat)) : spellShape? es name = .ok (some s) := by
  rw [spellShape?, given]
  exact bind_eq_ok.mpr ⟨s, Value.shape_lists lists, rfl⟩

theorem spellShape?_dims {es : Entries} {name : String} {s : Shape} (given : Value.field? name es = some (.dims s)) :
    spellShape? es name = .ok (some s) :=
  spellShape?_lists given (Value.lists_dims s)

/-- Margins and steps as another node has them. -/
def window (c : ConvolutionAttributes) : Building.Window := ⟨.ofPair c.padding, .ofPair c.stride⟩

theorem spellConvolution_eq_ok {name : String} {es : Entries} {c : ConvolutionAttributes}
    (spelled : spellConvolution name es = .ok c) :
    (es.getD "padding" (.int 0)).pair name "padding" 0 = .ok c.padding ∧
      (es.getD "stride" (.int 1)).pair name "stride" 1 = .ok c.stride ∧
        spellShape? es "features_shape" = .ok c.features ∧ spellShape? es "filters_shape" = .ok c.filters := by
  obtain ⟨padding, first, spelled⟩ := bind_eq_ok.mp spelled
  obtain ⟨stride, second, spelled⟩ := bind_eq_ok.mp spelled
  obtain ⟨features, third, spelled⟩ := bind_eq_ok.mp spelled
  obtain ⟨filters, fourth, made⟩ := bind_eq_ok.mp spelled
  cases made
  exact ⟨first, second, third, fourth⟩

variable {c : ConvolutionAttributes}

theorem spell_convolution (spelled : Kind.convolution.spell types (window c).entries = .ok op) :
    ∃ c', op = .convolution c' ∧ c'.padding = c.padding ∧ c'.stride = c.stride := by
  obtain ⟨c', found, made⟩ := bind_eq_ok.mp spelled
  cases made
  obtain ⟨padding, stride, _, _⟩ := spellConvolution_eq_ok found
  exact ⟨c', rfl, Value.pair_ofPair padding, Value.pair_ofPair stride⟩

theorem spell_featuresGradient {s : Shape} (spelled :
    Kind.featuresGradient.spell types (entry "features_shape" (.dims s) :: (window c).entries) = .ok op) :
    ∃ c', op = .featuresGradient c' ∧ c'.padding = c.padding ∧ c'.stride = c.stride ∧ c'.features = some s := by
  obtain ⟨c', found, made⟩ := bind_eq_ok.mp spelled
  cases made
  obtain ⟨padding, stride, features, _⟩ := spellConvolution_eq_ok found
  refine ⟨c', rfl, Value.pair_ofPair padding, Value.pair_ofPair stride, ?_⟩
  exact (Except.ok.inj ((spellShape?_dims rfl).symm.trans features)).symm

theorem spell_filtersGradient {s : Shape} (spelled :
    Kind.filtersGradient.spell types (entry "filters_shape" (.dims s) :: (window c).entries) = .ok op) :
    ∃ c', op = .filtersGradient c' ∧ c'.padding = c.padding ∧ c'.stride = c.stride ∧ c'.filters = some s := by
  obtain ⟨c', found, made⟩ := bind_eq_ok.mp spelled
  cases made
  obtain ⟨padding, stride, _, filters⟩ := spellConvolution_eq_ok found
  refine ⟨c', rfl, Value.pair_ofPair padding, Value.pair_ofPair stride, ?_⟩
  exact (Except.ok.inj ((spellShape?_dims rfl).symm.trans filters)).symm

/-- Margins and steps that a convolution can have. -/
structure Slides (c : ConvolutionAttributes) : Prop where
  margins : 0 ≤ c.padding.1 ∧ 0 ≤ c.padding.2
  steps : 1 ≤ c.stride.1 ∧ 1 ≤ c.stride.2

theorem spellConvolution_slides {name : String} {es : Entries} (spelled : spellConvolution name es = .ok c) :
    Slides c := by
  obtain ⟨padding, stride, _, _⟩ := spellConvolution_eq_ok spelled
  exact ⟨Value.pair_minimum padding, Value.pair_minimum stride⟩

theorem Slides.spell (slides : Slides c) (name : String) {es : Entries} {features filters : Option Shape}
    (padding : es.getD "padding" (.int 0) = .ofPair c.padding) (stride : es.getD "stride" (.int 1) = .ofPair c.stride)
    (first : spellShape? es "features_shape" = .ok features) (second : spellShape? es "filters_shape" = .ok filters) :
    spellConvolution name es = .ok ⟨c.padding, c.stride, features, filters⟩ := by
  have margins := Value.pair_ofPair_eq slides.margins.1 slides.margins.2 name "padding"
  have steps := Value.pair_ofPair_eq slides.steps.1 slides.steps.2 name "stride"
  rw [← padding] at margins
  rw [← stride] at steps
  exact bind_eq_ok.mpr ⟨_, margins, bind_eq_ok.mpr ⟨_, steps,
    bind_eq_ok.mpr ⟨_, first, bind_eq_ok.mpr ⟨_, second, rfl⟩⟩⟩⟩

theorem Slides.windowing (slides : Slides c) : 1 ≤ c.windowing.stride.1 ∧ 1 ≤ c.windowing.stride.2 := by
  obtain ⟨down, right⟩ := slides.steps
  simp only [ConvolutionAttributes.windowing]
  omega

end Kind
end TensorDag
