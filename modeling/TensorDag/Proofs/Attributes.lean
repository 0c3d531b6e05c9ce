import TensorDag.Graph
import TensorDag.Proofs.Polynomial

/-!
Attributes written as parameters and read back. What an operator reads of its parameters is the same for
all parameters with one key, so that nodes found by their key carry the operator that was asked for.
-/
namespace TensorDag
open Result (bind_eq_ok pure_eq_ok)

namespace Param

@[simp] theorem ints?_ints (is : List Int) : (ints is).ints? = some is := by
  induction is with
  | nil => rfl
  | cons i rest ih =>
    simp only [ints, ints?, List.map_cons, List.mapM_cons] at ih ⊢
    rw [ih]
    rfl

theorem ints?_eq_some {p : Param} {is : List Int} : p.ints? = some is ↔ p = ints is := by
  constructor
  · intro read
    cases p with
    | atom a => cases read
    | tuple items =>
      refine congrArg Param.tuple ?_
      simp only [ints?] at read
      induction items generalizing is with
      | nil => cases read; rfl
      | cons item rest ih =>
        rw [List.mapM_cons] at read
        obtain ⟨i, first, read⟩ := Option.bind_eq_some_iff.mp read
        obtain ⟨others, later, same⟩ := Option.bind_eq_some_iff.mp read
        cases same
        have here : item = .int i := by
          split at first
          · cases first; rfl
          · cases first
        rw [here, ih later]
        rfl
  · rintro rfl
    exact ints?_ints is

theorem dims_eq_ints (ns : List Nat) : dims ns = ints (ns.map Int.ofNat) := by
  simp only [dims, ints, List.map_map]
  rfl

@[simp] theorem dims?_dims (ns : List Nat) : (dims ns).dims? = some ns := by
  rw [dims?, dims_eq_ints, ints?_ints]
  induction ns with
  | nil => rfl
  | cons n rest ih =>
    simp only [Option.bind_eq_bind, Option.bind_some, List.map_cons, List.mapM_cons] at ih ⊢
    rw [ih]
    rfl

theorem dims?_eq_some {p : Param} {ns : List Nat} : p.dims? = some ns ↔ p = dims ns := by
  constructor
  · intro read
    obtain ⟨is, first, signs⟩ := Option.bind_eq_some_iff.mp read
    rw [ints?_eq_some] at first
    rw [first, dims_eq_ints]
    refine congrArg ints ?_
    clear read first
    induction is generalizing ns with
    | nil => cases signs; rfl
    | cons i rest ih =>
      rw [List.mapM_cons] at signs
      obtain ⟨n, head, signs⟩ := Option.bind_eq_some_iff.mp signs
      obtain ⟨others, later, same⟩ := Option.bind_eq_some_iff.mp signs
      cases same
      split at head
      · cases head
        rw [ih later, List.map_cons]
        exact congrArg (· :: _) (Int.toNat_of_nonneg ‹_›).symm
      · cases head
  · rintro rfl
    exact dims?_dims ns

@[simp] theorem pair?_ofPair (p : Int × Int) : (ofPair p).pair? = some p := by
  rw [pair?, ofPair, ints?_ints]

theorem pair?_eq_some {p : Param} {q : Int × Int} : p.pair? = some q ↔ p = ofPair q := by
  constructor
  · intro read
    unfold pair? at read
    split at read
    · rename_i first second found
      cases read
      exact ints?_eq_some.mp found
    · cases read
  · rintro rfl
    exact pair?_ofPair q

/-- Parameters that read alike as whole numbers and as lists of them. -/
structure Alike (p q : Param) : Prop where
  ints : p.ints? = q.ints?
  int : p.int? = q.int?

theorem alike_atom {a : Atom} {key : Param} (keyed : key? (.atom a) = some key) : Alike (.atom a) key := by
  cases a with
  | float x =>
    cases x with
    | of x =>
      rw [key?] at keyed
      split at keyed <;> cases keyed
      exact ⟨rfl, rfl⟩
    | undefined object => cases keyed; exact ⟨rfl, rfl⟩
  | _ => cases keyed; exact ⟨rfl, rfl⟩

theorem alike_key {p key : Param} (keyed : p.key? = some key) : Alike p key := by
  have whole : ∀ {p key : Param}, p.key? = some key → p.int? = key.int? := by
    intro p key keyed
    cases p with
    | atom a => exact (alike_atom keyed).int
    | tuple items =>
      obtain ⟨keys, _, rfl⟩ := Option.map_eq_some_iff.mp keyed
      rfl
  refine ⟨?_, whole keyed⟩
  cases p with
  | atom a => exact (alike_atom keyed).ints
  | tuple items =>
    obtain ⟨keys, found, rfl⟩ := Option.map_eq_some_iff.mp keyed
    clear keyed
    change items.mapM Param.int? = keys.mapM Param.int?
    induction items generalizing keys with
    | nil => cases found; rfl
    | cons item rest ih =>
      rw [keys?] at found
      split at found
      · cases found
        rename_i head tail first later
        rw [List.mapM_cons, List.mapM_cons, whole first, ih tail later]
      · cases found

theorem Alike.dims {p q : Param} (alike : Alike p q) : p.dims? = q.dims? := by
  rw [Param.dims?, alike.ints, ← Param.dims?]

theorem Alike.pair {p q : Param} (alike : Alike p q) : p.pair? = q.pair? := by
  rw [Param.pair?, alike.ints, ← Param.pair?]

theorem Alike.nat {p q : Param} (alike : Alike p q) : p.nat? = q.nat? := by
  rw [Param.nat?, alike.int, ← Param.nat?]

end Param

namespace Params

/-- Two sets of parameters that read alike under every name. -/
structure Alike (ps qs : Params) : Prop where
  reads : ∀ name, Option.Rel Param.Alike (ps.find? name) (qs.find? name)

theorem find?_cons (key : String) (value : Param) (ps : Params) (name : String) :
    Params.find? ((key, value) :: ps) name = if name = key then some value else ps.find? name := by
  rw [find?, List.lookup_cons]
  by_cases same : name = key
  · simp [same]
  · rw [if_neg same, beq_false_of_ne same, find?]

theorem find?_insertSorted (entry : String × Param) (ps : Params) (name : String) :
    (insertSorted entry ps).find? name = if name = entry.1 then some entry.2 else ps.find? name := by
  obtain ⟨key, value⟩ := entry
  induction ps with
  | nil => exact find?_cons ..
  | cons head rest ih =>
    obtain ⟨other, old⟩ := head
    rw [insertSorted]
    split
    · exact find?_cons ..
    · rename_i above
      have differ : other ≠ key := fun same => above (same ▸ String.le_refl _)
      rw [find?_cons, ih, find?_cons]
      by_cases here : name = other
      · rw [if_pos here, if_pos here, if_neg (here ▸ differ)]
      · rw [if_neg here, if_neg here]

/-- The key of parameters has, under every name, the key of what stands there. -/
theorem find?_key {ps keys : Params} (keyed : ps.key? = some keys) (name : String) :
    Option.Rel (fun p key => p.key? = some key) (ps.find? name) (keys.find? name) := by
  unfold Params.key? at keyed
  split at keyed
  · rename_i values found
    cases keyed
    induction ps generalizing values with
    | nil => cases found; exact .none
    | cons head rest ih =>
      rw [List.map_cons, Param.keys?] at found
      split at found
      · rename_i key others first later
        cases found
        obtain ⟨label, value⟩ := head
        rw [List.map_cons, List.zip_cons_cons, List.foldr_cons, find?_insertSorted, find?_cons]
        by_cases same : name = label
        · rw [if_pos same, if_pos same]
          exact .some first
        · rw [if_neg same, if_neg same]
          exact ih others later
      · cases found
  · cases keyed

theorem alike_key {ps keys : Params} (keyed : ps.key? = some keys) : Alike ps keys := by
  refine ⟨fun name => ?_⟩
  have found := find?_key keyed name
  generalize ps.find? name = p, keys.find? name = key at found ⊢
  cases found with
  | none => exact .none
  | some here => exact .some (Param.alike_key here)

variable {ps qs : Params}

theorem need_eq {α : Type} {read : Param → Option α} (alike : Alike ps qs) (name : String)
    (reads : ∀ {p q}, Param.Alike p q → read p = read q) : ps.need name read = qs.need name read := by
  have same := alike.reads name
  unfold need
  generalize ps.find? name = p, qs.find? name = q at same ⊢
  cases same with
  | none => rfl
  | some here => simp only [reads here]

theorem want_eq {α : Type} {read : Param → Option α} (alike : Alike ps qs) (name : String)
    (reads : ∀ {p q}, Param.Alike p q → read p = read q) : ps.want name read = qs.want name read := by
  have same := alike.reads name
  unfold want
  generalize ps.find? name = p, qs.find? name = q at same ⊢
  cases same with
  | none => rfl
  | some here => simp only [reads here]

theorem Alike.ofParams (alike : Alike ps qs) (kind : Kind) :
    Operator.ofParams kind ps = Operator.ofParams kind qs := by
  have dims := fun name => need_eq alike name Param.Alike.dims
  have ints := fun name => need_eq alike name Param.Alike.ints
  have int := fun name => need_eq alike name Param.Alike.int
  have nat := fun name => need_eq alike name Param.Alike.nat
  have pair := fun name => need_eq alike name Param.Alike.pair
  have shapes := fun name => want_eq alike name Param.Alike.dims
  cases kind <;> simp only [Operator.ofParams, ConvolutionAttributes.ofParams, dims, ints, int, nat, pair, shapes]

theorem ofParams_of_key {keys : Params} (first : ps.key? = some keys) (second : qs.key? = some keys)
    (kind : Kind) : Operator.ofParams kind ps = Operator.ofParams kind qs := by
  rw [(alike_key first).ofParams, (alike_key second).ofParams]

end Params

namespace Operator

theorem ofParams_params (op : Operator) : ofParams op.kind op.params = .ok op := by
  cases op with
  | convolution c | featuresGradient c | filtersGradient c =>
    obtain ⟨padding, stride, features, filters⟩ := c
    cases features <;> cases filters <;>
      simp [ofParams, Operator.kind, params, ConvolutionAttributes.ofParams, ConvolutionAttributes.params,
        Params.need, Params.want, Params.find?, List.lookup_cons, List.lookup_nil, bind, Except.bind, pure, Except.pure]
  | _ =>
    simp [ofParams, Operator.kind, params, Params.need, Params.find?, List.lookup_cons, bind, Except.bind, pure,
      Except.pure, Param.int?, Param.nat?]

end Operator

namespace Kind
variable {kind : Kind} {types : List TensorType} {es : Entries} {op : Operator}

/-- A call of a kind means an operator of that kind. -/
theorem spell_kind (spelled : kind.spell types es = .ok op) : op.kind = kind := by
  cases kind with
  | binary | unary | matmul | softmax | softmaxGradient =>
    cases spelled
    rfl
  | sum | maxElement | convolution | featuresGradient | filtersGradient | maxpool | maxpoolGradient =>
    obtain ⟨_, _, made⟩ := bind_eq_ok.mp spelled
    cases made
    rfl
  | slice | pad =>
    obtain ⟨_, _, spelled⟩ := bind_eq_ok.mp spelled
    obtain ⟨_, _, made⟩ := bind_eq_ok.mp spelled
    cases made
    rfl
  | argmin =>
    simp only [spell, spellArgmin] at spelled
    split at spelled
    · cases spelled
    · obtain ⟨_, _, made⟩ := bind_eq_ok.mp spelled
      cases made
      rfl
  | reshape =>
    simp only [spell, spellReshape] at spelled
    split at spelled
    · cases spelled
    · simp only [bind_eq_ok, pure_eq_ok] at spelled
      obtain ⟨_, _, _, _, _, _, rfl⟩ := spelled
      rfl
  | transpose =>
    simp only [spell, spellTranspose] at spelled
    split at spelled
    · cases spelled
      rfl
    · obtain ⟨_, _, made⟩ := bind_eq_ok.mp spelled
      cases made
      rfl
  | repeated =>
    simp only [spell, spellRepeat] at spelled
    split at spelled <;> cases spelled
    rfl
  | broadcast =>
    simp only [spell, spellBroadcast] at spelled
    split at spelled
    · cases spelled
    · obtain ⟨_, _, made⟩ := bind_eq_ok.mp spelled
      cases made
      rfl
  | uniform =>
    simp only [spell, spellUniform] at spelled
    split at spelled
    · split at spelled
      · cases spelled
      · obtain ⟨_, _, made⟩ := bind_eq_ok.mp spelled
        cases made
        rfl
    · cases spelled

theorem normalize_spells {ps : Params} (normal : kind.normalize types es = .ok ps) :
    ∃ op, kind.spell types es = .ok op ∧ Operator.ofParams kind ps = .ok op := by
  unfold normalize at normal
  split at normal
  · rename_i none
    cases kind <;> first
      | exact ⟨_, rfl, rfl⟩
      | cases none
  · simp only [bind_eq_ok, pure_eq_ok] at normal
    obtain ⟨_, _, op, spelled, rfl⟩ := normal
    exact ⟨op, spelled, spell_kind spelled ▸ op.ofParams_params⟩

end Kind
end TensorDag
