import TensorDag.Proofs.Keys
import TensorDag.Proofs.Spelling

/-!
Calls with the parameters of a node. Read back as the entries of a call, they are the parameters that the
call comes to: attributes mean the operator that they were written for, and what a kind without attributes
was given stays as it is.
-/
namespace TensorDag
open Result (bind_eq_ok pure_eq_ok)
open Building (entry)

namespace Value

/-- Values that are parameters as they stand. -/
def atom? : Value → Option Atom
  | .null => some .null
  | .bool b => some (.bool b)
  | .int i => some (.int i)
  | .float x => some (.float (.of x))
  | .undefined object => some (.float (.undefined object))
  | .text s => some (.text s)
  | .bytes bs => some (.bytes bs)
  | .elementType e => some (.elementType e)
  | .node n => some (.node n.id.graph n.id.index n.name)
  | .buffer id _ => some (.buffer id)
  | _ => none

mutual

/-- A value is what a parameter holds, as callers find it in a node. -/
def Holds : Value → Param → Prop
  | .tuple vs, .tuple ps => HoldsAll vs ps
  | v, .atom a => v.atom? = some a
  | _, _ => False

def HoldsAll : List Value → List Param → Prop
  | [], [] => True
  | v :: vs, p :: ps => Holds v p ∧ HoldsAll vs ps
  | _, _ => False

end

theorem freeze_atom {v : Value} {a : Atom} (held : v.atom? = some a) : v.freeze = .ok (.atom a) := by
  cases v <;> cases held <;> rfl

mutual

theorem freeze_holds : ∀ {v : Value} {p : Param}, v.Holds p → v.freeze = .ok p
  | v, .atom a, held => freeze_atom (by cases v <;> exact held)
  | .tuple vs, .tuple ps, held => by
    rw [freeze]
    exact bind_eq_ok.mpr ⟨_, freezeAll_holds held, rfl⟩

theorem freezeAll_holds : ∀ {vs : List Value} {ps : List Param}, HoldsAll vs ps → freezeAll vs = .ok ps
  | [], [], _ => rfl
  | v :: vs, p :: ps, ⟨here, later⟩ => by
    rw [freezeAll]
    exact bind_eq_ok.mpr ⟨_, freeze_holds here, bind_eq_ok.mpr ⟨_, freezeAll_holds later, rfl⟩⟩

end

theorem holds_int {v : Value} {i : Int} (held : v.Holds (.int i)) : v = .int i := by
  cases v <;> cases held
  rfl

theorem holds_ints : ∀ {is : List Int} {v : Value}, v.Holds (.ints is) → v = .tuple (is.map .int) := by
  have all : ∀ {is : List Int} {vs : List Value}, HoldsAll vs (is.map .int) → vs = is.map .int := by
    intro is vs held
    induction is generalizing vs with
    | nil =>
      cases vs with
      | nil => rfl
      | cons v vs => cases held
    | cons i is ih =>
      cases vs with
      | nil => cases held
      | cons v vs => rw [holds_int held.1, ih held.2, List.map_cons]
  intro is v held
  cases v with
  | tuple vs => rw [all held]
  | _ => cases held

theorem holds_dims {v : Value} {ns : List Nat} (held : v.Holds (.dims ns)) : v = .tuple ((ns.map Int.ofNat).map .int) :=
  holds_ints (Param.dims_eq_ints ns ▸ held)

theorem holds_ofPair {v : Value} {p : Int × Int} (held : v.Holds (.ofPair p)) : v = .ofPair p := holds_ints held

end Value

/-- Entries that name what parameters hold. -/
def Entries.Hold (es : Entries) (ps : Params) : Prop :=
  List.Forall₂ (fun entry param => entry.1 = .text param.1 ∧ entry.2.Holds param.2) es ps

/-! Kinds without attributes. -/

namespace Value

theorem freezeEntries_hold {es : Entries} {ps : Params} (held : es.Hold ps) : freezeEntries es = .ok ps := by
  induction held with
  | nil => rfl
  | @cons entry param es ps here _ ih =>
    obtain ⟨key, v⟩ := entry
    obtain ⟨name, p⟩ := param
    obtain ⟨rfl, value⟩ := here
    rw [freezeEntries, freeze_holds value, ih]
    rfl

theorem putEntry_fresh {entry : String × Param} {ps : Params} (fresh : entry.1 ∉ ps.map Prod.fst) :
    putEntry entry ps = ps ++ [entry] := by
  induction ps with
  | nil => rfl
  | cons head rest ih =>
    obtain ⟨other, later⟩ := not_or.mp (mt List.mem_cons.mpr fresh)
    rw [putEntry, if_neg (Ne.symm other), ih later, List.cons_append]

theorem putEntry_names {entry : String × Param} {ps : Params} (distinct : (ps.map Prod.fst).Nodup) :
    ((putEntry entry ps).map Prod.fst).Nodup := by
  by_cases known : entry.1 ∈ ps.map Prod.fst
  · have same : (putEntry entry ps).map Prod.fst = ps.map Prod.fst := by
      clear distinct
      induction ps with
      | nil => cases known
      | cons head rest ih =>
        rw [putEntry]
        split
        · rename_i here
          rw [List.map_cons, List.map_cons, here]
        · rename_i other
          rw [List.map_cons, List.map_cons, ih]
          exact (List.mem_cons.mp known).resolve_left (Ne.symm other)
    rw [same]
    exact distinct
  · rw [putEntry_fresh known, List.map_append]
    exact List.concat_eq_append ▸ distinct.concat known

theorem params_names {es : Entries} {ps : Params} (frozen : params es = .ok ps) : (ps.map Prod.fst).Nodup := by
  obtain ⟨qs, _, made⟩ := bind_eq_ok.mp frozen
  cases made
  have all : ∀ (qs acc : Params), (acc.map Prod.fst).Nodup →
      ((qs.foldl (fun ps entry => putEntry entry ps) acc).map Prod.fst).Nodup := by
    intro qs
    induction qs with
    | nil => exact fun _ => id
    | cons q rest ih => exact fun acc distinct => ih _ (putEntry_names distinct)
  exact all qs [] .nil

/-- Parameters that were frozen once are frozen to themselves. -/
theorem params_hold {es : Entries} {ps : Params} (held : es.Hold ps) (distinct : (ps.map Prod.fst).Nodup) :
    params es = .ok ps := by
  have all : ∀ (qs acc : Params), ((acc ++ qs).map Prod.fst).Nodup →
      qs.foldl (fun ps entry => putEntry entry ps) acc = acc ++ qs := by
    intro qs
    induction qs with
    | nil => exact fun acc _ => (List.append_nil acc).symm
    | cons q rest ih =>
      intro acc distinct
      have fresh : q.1 ∉ acc.map Prod.fst := by
        rw [List.map_append, List.map_cons] at distinct
        exact fun known => (List.nodup_append.mp distinct).2.2 _ known _ (List.mem_cons_self ..) rfl
      rw [List.foldl_cons, putEntry_fresh fresh, ih, List.append_assoc, List.singleton_append]
      rwa [List.append_assoc, List.singleton_append]
  refine bind_eq_ok.mpr ⟨ps, freezeEntries_hold held, ?_⟩
  rw [all ps [] distinct]
  rfl

end Value

/-! Attributes. -/

namespace Entries
variable {es : Entries} {name : String} {p : Param} {ps : Params}

theorem hold_nil (held : es.Hold []) : es = [] := List.forall₂_nil_right_iff.mp held

theorem hold_cons (held : es.Hold ((name, p) :: ps)) :
    ∃ v rest, es = entry name v :: rest ∧ v.Holds p ∧ Entries.Hold rest ps := by
  obtain ⟨⟨key, v⟩, rest, ⟨rfl, value⟩, others, rfl⟩ := List.forall₂_cons_right_iff.mp held
  exact ⟨v, rest, rfl, value, others⟩

theorem hold_single (held : es.Hold [(name, p)]) : ∃ v, es = [entry name v] ∧ v.Holds p := by
  obtain ⟨v, rest, rfl, value, others⟩ := hold_cons held
  exact ⟨v, by rw [hold_nil others], value⟩

end Entries

namespace Kind
open Entries (hold_nil hold_cons hold_single)
variable {types : List TensorType} {es given : Entries} {op : Operator}

theorem resolveAxis_front {rank axis : Nat} (inside : axis < rank) : resolveAxis rank axis = .ok axis := by
  rw [resolveAxis, if_pos (by omega), Int.emod_eq_of_lt (by omega) (by omega), Int.toNat_natCast]

theorem resolveAxis_lt {rank axis : Nat} {i : Int} (resolved : resolveAxis rank i = .ok axis) : axis < rank := by
  unfold resolveAxis at resolved
  split at resolved
  · rename_i bounds
    cases resolved
    have positive : (0 : Int) < rank := by omega
    have low := Int.emod_nonneg i (Int.ne_of_gt positive)
    have high := Int.emod_lt_of_pos i positive
    omega
  · cases resolved

/-- Axes in increasing order stay as they are. -/
theorem spellAxes_hold {name : String} {axes : List Nat} (spelled : spellAxes name types given = .ok axes)
    (held : es.Hold [("axes", .dims axes)]) : spellAxes name types es = .ok axes := by
  obtain ⟨increasing, inside⟩ := spellAxes_sorted spelled
  obtain ⟨v, rfl, value⟩ := hold_single held
  obtain rfl := Value.holds_dims value
  have found : Entries.get [entry "axes" (.tuple ((axes.map Int.ofNat).map .int))] "axes" =
      .tuple ((axes.map Int.ofNat).map .int) := rfl
  have items : (Value.tuple ((axes.map Int.ofNat).map .int)).asSequence.items? = some ((axes.map Int.ofNat).map .int) :=
    rfl
  have bounds : ∀ i ∈ axes.map Int.ofNat, 0 ≤ i ∧ i < (source types).rank := by
    intro i member
    obtain ⟨k, named, rfl⟩ := List.mem_map.mp member
    exact ⟨Int.natCast_nonneg k, Int.ofNat_lt.mpr (inside k named)⟩
  have sorted : (List.range (source types).rank).filter axes.contains = axes := by
    refine List.Pairwise.eq_of_mem_iff (List.pairwise_lt_range.sublist List.filter_sublist) increasing fun k => ?_
    rw [List.mem_filter, List.mem_range, List.contains_iff_mem]
    exact and_iff_right_of_imp (inside k)
  have single : axes.Nodup := increasing.imp fun below => Nat.ne_of_lt below
  simp only [spellAxes, found, items, resolveAxes_ints _ bounds, Shape.toNat_ofNat]
  refine bind_eq_ok.mpr ⟨_, rfl, ?_⟩
  rw [if_pos single, sorted]
  rfl

theorem spellArgmin_hold {axis : Nat} (spelled : spellArgmin types given = .ok (.argmin axis))
    (held : es.Hold [("axis", .int axis)]) : spellArgmin types es = .ok (.argmin axis) := by
  simp only [spellArgmin] at spelled
  split at spelled
  · cases spelled
  · obtain ⟨_, resolved, made⟩ := bind_eq_ok.mp spelled
    cases made
    obtain ⟨v, rfl, value⟩ := hold_single held
    obtain rfl := Value.holds_int value
    have found : Entries.get [entry "axis" (.int axis)] "axis" = .int axis := rfl
    simp only [spellArgmin, found, Value.int?]
    exact bind_eq_ok.mpr ⟨axis, resolveAxis_front (resolveAxis_lt resolved), rfl⟩

theorem spellConvolution_hold {name : String} {c : ConvolutionAttributes}
    (spelled : spellConvolution name given = .ok c) (held : es.Hold c.params) : spellConvolution name es = .ok c := by
  have slides := spellConvolution_slides spelled
  obtain ⟨padding, stride, features, filters⟩ := c
  obtain ⟨_, _, rfl, first, later⟩ := hold_cons held
  obtain ⟨_, shapes, rfl, second, others⟩ := hold_cons later
  obtain rfl := Value.holds_ofPair first
  obtain rfl := Value.holds_ofPair second
  cases features with
  | none =>
    cases filters with
    | none =>
      obtain rfl := hold_nil others
      exact slides.spell name rfl rfl rfl rfl
    | some s =>
      obtain ⟨_, rfl, value⟩ := hold_single others
      obtain rfl := Value.holds_dims value
      exact slides.spell name rfl rfl rfl (spellShape?_lists rfl (Value.lists_tuple _))
  | some s =>
    obtain ⟨_, rest, rfl, value, last⟩ := hold_cons others
    obtain rfl := Value.holds_dims value
    have shape : ∀ rest, spellShape? (entry "padding" (.ofPair padding) :: entry "stride" (.ofPair stride) ::
        entry "features_shape" (.tuple ((s.map Int.ofNat).map .int)) :: rest) "features_shape" = .ok (some s) :=
      fun rest => spellShape?_lists rfl (Value.lists_tuple _)
    cases filters with
    | none =>
      obtain rfl := hold_nil last
      exact slides.spell name rfl rfl (shape []) rfl
    | some s' =>
      obtain ⟨_, rfl, value⟩ := hold_single last
      obtain rfl := Value.holds_dims value
      exact slides.spell name rfl rfl (shape _) (spellShape?_lists rfl (Value.lists_tuple _))

theorem spellPool_hold {name : String} {dims : Int × Int} (spelled : spellPool name given = .ok dims)
    (held : es.Hold [("dims", .ofPair dims)]) : spellPool name es = .ok dims := by
  unfold spellPool at spelled
  split at spelled
  · cases spelled
  · obtain ⟨_, rfl, value⟩ := hold_single held
    obtain rfl := Value.holds_ofPair value
    obtain ⟨down, right⟩ := Value.pair_minimum spelled
    exact Value.pair_ofPair_eq down right name "dims"

theorem spellUniform_hold {shape : Shape} {seed : Nat}
    (held : es.Hold [("shape", .dims shape), ("seed", .int seed)]) : spellUniform es = .ok (.uniform shape seed) := by
  obtain ⟨_, rest, rfl, first, held⟩ := hold_cons held
  obtain ⟨_, rfl, second⟩ := hold_single held
  obtain rfl := Value.holds_dims first
  obtain rfl := Value.holds_int second
  have found : Entries.get [entry "shape" (.tuple ((shape.map Int.ofNat).map .int)), entry "seed" (.int seed)] "seed" =
      .int seed := rfl
  have read : (Entries.getD [entry "shape" (.tuple ((shape.map Int.ofNat).map .int)), entry "seed" (.int seed)] "shape"
      (.tuple [])).shape = .ok shape := Value.shape_lists (Value.lists_tuple _)
  have positive : ¬((seed : Int) < 0) := by omega
  simp only [spellUniform, found, Value.int?, if_neg positive]
  exact bind_eq_ok.mpr ⟨shape, read, rfl⟩

/-- Attributes read back as entries mean the operator that they were written for. -/
theorem spell_hold {kind : Kind} (spelled : kind.spell types given = .ok op) (held : es.Hold op.params) :
    kind.spell types es = .ok op := by
  obtain rfl := spell_kind spelled
  cases op with
  | binary | unary | matmul | softmax | softmaxGradient => rfl
  | sum axes | maxElement axes =>
    obtain ⟨_, found, made⟩ := bind_eq_ok.mp spelled
    cases made
    exact bind_eq_ok.mpr ⟨axes, spellAxes_hold found held, rfl⟩
  | argmin axis => exact spellArgmin_hold spelled held
  | reshape s =>
    obtain ⟨v, rfl, value⟩ := hold_single held
    obtain rfl := Value.holds_dims value
    exact spell_reshape (Value.lists_tuple _)
  | broadcast s =>
    obtain ⟨v, rfl, value⟩ := hold_single held
    obtain rfl := Value.holds_dims value
    exact spell_broadcast (Value.lists_tuple _)
  | transpose order =>
    obtain ⟨v, rfl, value⟩ := hold_single held
    obtain rfl := Value.holds_ints value
    exact bind_eq_ok.mpr ⟨order, Value.integers_lists (Value.lists_tuple order) .., rfl⟩
  | slice start stop =>
    obtain ⟨low, rest, rfl, first, others⟩ := hold_cons held
    obtain ⟨high, rfl, second⟩ := hold_single others
    obtain rfl := Value.holds_ints first
    obtain rfl := Value.holds_ints second
    exact spell_slice (Value.lists_tuple start) (Value.lists_tuple stop)
  | pad before after =>
    obtain ⟨low, rest, rfl, first, others⟩ := hold_cons held
    obtain ⟨high, rfl, second⟩ := hold_single others
    obtain rfl := Value.holds_ints first
    obtain rfl := Value.holds_ints second
    exact spell_pad (Value.lists_tuple before) (Value.lists_tuple after)
  | repeated count =>
    obtain ⟨v, rfl, value⟩ := hold_single held
    obtain rfl := Value.holds_int value
    rfl
  | convolution c | featuresGradient c | filtersGradient c =>
    obtain ⟨_, found, made⟩ := bind_eq_ok.mp spelled
    cases made
    exact bind_eq_ok.mpr ⟨c, spellConvolution_hold found held, rfl⟩
  | maxpool dims | maxpoolGradient dims =>
    obtain ⟨_, found, made⟩ := bind_eq_ok.mp spelled
    cases made
    exact bind_eq_ok.mpr ⟨dims, spellPool_hold found held, rfl⟩
  | uniform shape seed => exact spellUniform_hold held

theorem normalize_hold {kind : Kind} {ps : Params} (normal : kind.normalize types given = .ok ps) (held : es.Hold ps) :
    kind.normalize types es = .ok ps := by
  unfold normalize at normal ⊢
  cases counted : kind.arity? with
  | none =>
    rw [counted] at normal
    exact Value.params_hold held (Value.params_names normal)
  | some count =>
    rw [counted] at normal
    obtain ⟨⟨⟩, fits, normal⟩ := bind_eq_ok.mp normal
    obtain ⟨op, spelled, made⟩ := bind_eq_ok.mp normal
    cases made
    exact bind_eq_ok.mpr ⟨(), fits, bind_eq_ok.mpr ⟨op, spell_hold spelled held, rfl⟩⟩

end Kind
end TensorDag
