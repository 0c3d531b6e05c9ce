import TensorDag.Proofs.Holding
import TensorDag.Proofs.Inference
import TensorDag.Proofs.Sharing
import TensorDag.Proofs.Spelling

/-!
The unknown dimension of a reshape. It is what the known dimensions leave of the volume; their product
is taken in signed words of 64 bits, so that it has to fit one, unless there are no cells at all.
-/
namespace TensorDag
open Result (bind_eq_ok pure_eq_ok)

namespace Shape
variable {before after : Shape}

/-- Dimensions of which one is unknown. -/
def unknown (before after : Shape) : List Int := before.map Int.ofNat ++ -1 :: after.map Int.ofNat

/-- When known dimensions leave a whole number of cells to an unknown one. -/
structure Completes (known volume : Nat) : Prop where
  positive : known ≠ 0
  whole : known ∣ volume
  fits : known < 2 ^ 63 ∨ volume = 0 ∧ ¬2 ^ 64 ∣ known

theorem volume_insert (d : Nat) : volume (before ++ d :: after) = d * volume (before ++ after) := by
  rw [volume_append, volume, volume_append, Nat.mul_left_comm]

theorem count_unknown : (unknown before after).count (-1) = 1 := by
  rw [unknown, List.count_append, List.count_cons_self, count_known, count_known]

theorem filter_unknown : (unknown before after).filter (· ≠ -1) = (before ++ after).map Int.ofNat := by
  have known : ∀ s : Shape, (s.map Int.ofNat).filter (· ≠ -1) = s.map Int.ofNat := fun s => by
    rw [List.filter_eq_self]
    intro i member
    obtain ⟨d, _, rfl⟩ := List.mem_map.mp member
    simp
  rw [unknown, List.filter_append, List.filter_cons_of_neg (by simp), known, known, List.map_append]

theorem map_unknown (i : Int) : (unknown before after).map (fun d => if d = -1 then i else d) =
    before.map Int.ofNat ++ i :: after.map Int.ofNat := by
  have known : ∀ s : Shape, (s.map Int.ofNat).map (fun d => if d = -1 then i else d) = s.map Int.ofNat := fun s => by
    rw [List.map_map]
    refine List.map_congr_left fun d _ => ?_
    have other : Int.ofNat d ≠ -1 := by simp
    rw [Function.comp_apply, if_neg other]
  rw [unknown, List.map_append, List.map_cons, known, known, if_pos rfl]

end Shape

/-! The product of the known dimensions, and what it leaves. -/

namespace Kind
open Shape

theorem foldl_ofNat (s : Shape) (i : Int) : (s.map Int.ofNat).foldl (· * ·) i = i * volume s := by
  induction s generalizing i with
  | nil => simp [volume]
  | cons d s ih => rw [List.map_cons, List.foldl_cons, ih, volume, Nat.cast_mul, Int.mul_assoc]; rfl

theorem wrappedProduct_known {s : Shape} (small : ∀ d ∈ s, d < 2 ^ 63) :
    wrappedProduct (s.map Int.ofNat) = .ok ((volume s : Int).bmod (2 ^ 64)) := by
  have bounds : ∀ i ∈ s.map Int.ofNat, 0 ≤ i ∧ i < 2 ^ 63 := by
    intro i member
    obtain ⟨d, inside, rfl⟩ := List.mem_map.mp member
    have bound := small d inside
    exact ⟨Int.natCast_nonneg d, by rw [Int.ofNat_eq_natCast]; omega⟩
  have outside : ((s.map Int.ofNat).any fun i => i < -2 ^ 63 || 2 ^ 64 ≤ i) = false := by
    rw [List.any_eq_false]
    intro i member
    have bound := bounds i member
    simp only [Bool.or_eq_true, decide_eq_true_eq]
    omega
  have unsigned : (s.map Int.ofNat).any (2 ^ 63 ≤ ·) = false := by
    rw [List.any_eq_false]
    intro i member
    have bound := bounds i member
    simp only [decide_eq_true_eq]
    omega
  simp only [wrappedProduct, outside, unsigned, Bool.false_and, Bool.false_eq_true, if_false, foldl_ofNat, Int.one_mul]

variable {known volume : Nat}

theorem bmod_eq_zero : (known : Int).bmod (2 ^ 64) = 0 ↔ 2 ^ 64 ∣ known := by
  rw [Int.bmod_def]
  omega

theorem bmod_of_lt (small : known < 2 ^ 63) : (known : Int).bmod (2 ^ 64) = known := by
  rw [Int.bmod_def]
  omega

theorem bmod_lt : (known : Int).bmod (2 ^ 64) < 2 ^ 63 := by
  rw [Int.bmod_def]
  omega

/-- A product in words leaves what the exact one leaves. -/
theorem completes_of_quotient {wrapped : Int} {d : Nat} (product : (known : Int).bmod (2 ^ 64) = wrapped)
    (used : wrapped ≠ 0) (whole : Int.fmod volume wrapped = 0) (quotient : Int.fdiv volume wrapped = d)
    (cells : d * known = volume) :
    Completes known volume ∧ d = volume / known := by
  have positive : known ≠ 0 := by
    rintro rfl
    exact used (product ▸ rfl)
  refine ⟨⟨positive, ⟨d, by rw [Nat.mul_comm, cells]⟩, ?_⟩, ?_⟩
  · rcases Nat.eq_zero_or_pos volume with none | some
    · exact .inr ⟨none, fun divides => used (product ▸ bmod_eq_zero.mpr divides)⟩
    · -- both products leave the same number of cells, which is not zero
      have split : wrapped * d = known * d := by
        have := Int.mul_fdiv_add_fmod volume wrapped
        rw [quotient, whole, Int.add_zero] at this
        rw [this, ← cells, Nat.cast_mul, Int.mul_comm]
      have nonzero : (d : Int) ≠ 0 := by
        rintro none
        rw [Int.natCast_eq_zero.mp none, Nat.zero_mul] at cells
        omega
      have same := Int.eq_of_mul_eq_mul_right nonzero split
      have bound : (known : Int).bmod (2 ^ 64) < 2 ^ 63 := bmod_lt
      exact .inl (by omega)
  · rw [← cells, Nat.mul_div_cancel _ (Nat.pos_of_ne_zero positive)]

theorem quotient_of_completes (completes : Completes known volume) :
    (known : Int).bmod (2 ^ 64) ≠ 0 ∧ Int.fmod volume ((known : Int).bmod (2 ^ 64)) = 0 ∧
      Int.fdiv volume ((known : Int).bmod (2 ^ 64)) = (volume / known : Nat) := by
  obtain ⟨positive, whole, small | ⟨rfl, odd⟩⟩ := completes
  · rw [bmod_of_lt small]
    refine ⟨by omega, ?_, ?_⟩
    · rw [Int.fmod_eq_emod_of_nonneg _ (Int.natCast_nonneg known)]
      exact_mod_cast Nat.mod_eq_zero_of_dvd whole
    · rw [Int.fdiv_eq_ediv_of_nonneg _ (Int.natCast_nonneg known)]
      rfl
  · refine ⟨fun none => odd (bmod_eq_zero.mp none), Int.zero_fmod _, ?_⟩
    rw [Nat.zero_div]
    exact Int.zero_fdiv _

end Kind

/-! What a reshape comes to. -/

theorem Value.shape_negative (is : List Int) (negative : ∃ i ∈ is, i < 0) :
    ∃ fault, (Value.ints is).shape = .shape fault := by
  have all : ∀ (is : List Int) (whole : Value) (others : List Value), (∃ i ∈ is, i < 0) →
      ∃ fault, shapeDims whole others (is.map .int) = .shape fault := by
    intro is whole others negative
    induction is with
    | nil => simp at negative
    | cons i rest ih =>
      rw [List.map_cons, shapeDims]
      by_cases here : i < 0
      · exact ⟨_, if_pos here⟩
      · simp only [int?, if_neg here]
        obtain ⟨fault, failed⟩ := ih (by simpa [here] using negative)
        exact ⟨fault, by rw [failed]; rfl⟩
  exact all is (Value.ints is).asSequence (is.map .int) negative

namespace Kind
open Shape
variable {before after : Shape} {type : TensorType} {v : Value} {es : Entries}

/-- A call names its shape by dimensions of which one is unknown and the others fit signed words. -/
structure NamesUnknown (es : Entries) (before after : Shape) : Prop where
  named : ∃ v, Value.field? "shape" es = some v ∧ v.integers "reshape" "shape" = .ok (unknown before after)
  small : ∀ d ∈ before ++ after, d < 2 ^ 63

theorem fillUnknown_eq (type : TensorType) (small : ∀ d ∈ before ++ after, d < 2 ^ 63) {wrapped : Int}
    (product : (volume (before ++ after) : Int).bmod (2 ^ 64) = wrapped) :
    fillUnknown type (unknown before after) =
      if wrapped = 0 ∨ Int.fmod type.volume wrapped ≠ 0 then .shape (.unknownDimension type (unknown before after))
      else .ok (before.map Int.ofNat ++ Int.fdiv type.volume wrapped :: after.map Int.ofNat) := by
  rw [fillUnknown, count_unknown]
  rw [filter_unknown, wrappedProduct_known small, product]
  dsimp only [bind, Except.bind]
  rw [map_unknown]
  rfl

theorem spell_completes (asks : NamesUnknown es before after)
    (completes : Completes (volume (before ++ after)) type.volume) :
    spellReshape [type] es = .ok (.reshape (before ++ type.volume / volume (before ++ after) :: after)) := by
  obtain ⟨v, given, read⟩ := asks.named
  obtain ⟨used, whole, quotient⟩ := quotient_of_completes completes
  have filled := fillUnknown_eq type asks.small rfl
  rw [if_neg (not_or.mpr ⟨used, not_not.mpr whole⟩), quotient] at filled
  have lists := Value.shape_lists (Value.lists_ints
    ((before ++ type.volume / volume (before ++ after) :: after).map Int.ofNat))
  rw [List.map_append, List.map_cons] at lists
  simp only [spellReshape, given]
  exact bind_eq_ok.mpr ⟨_, read, bind_eq_ok.mpr ⟨_, filled, bind_eq_ok.mpr ⟨_, lists, rfl⟩⟩⟩

/-- Where they leave none, there is no such shape, or it has another volume. -/
theorem spell_incomplete (asks : NamesUnknown es before after)
    (none : ¬Completes (volume (before ++ after)) type.volume) : (∃ fault, spellReshape [type] es = .shape fault) ∨
      ∃ s, spellReshape [type] es = .ok (.reshape s) ∧ volume s ≠ type.volume := by
  obtain ⟨v, given, read⟩ := asks.named
  generalize product : (volume (before ++ after) : Int).bmod (2 ^ 64) = wrapped
  have filled := fillUnknown_eq type asks.small product
  simp only [spellReshape, given, read]
  by_cases refused : wrapped = 0 ∨ Int.fmod type.volume wrapped ≠ 0
  · rw [if_pos refused] at filled
    exact .inl ⟨_, show (fillUnknown type (unknown before after) >>= _) = _ by rw [filled]; rfl⟩
  · rw [if_neg refused] at filled
    rw [not_or, not_not] at refused
    by_cases negative : Int.fdiv type.volume wrapped < 0
    · obtain ⟨fault, failed⟩ := Value.shape_negative
        (before.map Int.ofNat ++ Int.fdiv type.volume wrapped :: after.map Int.ofNat) ⟨_, by simp, negative⟩
      refine .inl ⟨fault, ?_⟩
      show (fillUnknown type (unknown before after) >>= fun dims => _) = _
      rw [filled]
      show ((Value.ints _).shape >>= fun s => _) = _
      rw [failed]
      rfl
    · obtain ⟨d, quotient⟩ := Int.eq_ofNat_of_zero_le (Int.not_lt.mp negative)
      have lists := Value.shape_lists (Value.lists_ints ((before ++ d :: after).map Int.ofNat))
      rw [quotient] at filled
      rw [List.map_append, List.map_cons] at lists
      refine .inr ⟨_, bind_eq_ok.mpr ⟨_, rfl, bind_eq_ok.mpr ⟨_, filled, bind_eq_ok.mpr ⟨_, lists, rfl⟩⟩⟩,
        fun cells => ?_⟩
      rw [volume_insert] at cells
      exact none (completes_of_quotient product refused.1 refused.2 quotient cells).1

end Kind
namespace Workspace
open Shape
variable {w : Workspace}

theorem Coherent.unspelled (coherent : w.Coherent ShapeRules.Lasting) {kind : Kind} {nodes : List Node} {es : Entries}
    {e : Error} (own : ∀ x ∈ nodes, x ∈ w.graph.nodes)
    (failed : kind.normalize (nodes.map Node.type) es = .error e) : Building.apply kind nodes es w = .error e w := by
  have taken : w.graph.ownNodes kind.name (nodes.map .node) = .ok nodes :=
    Graph.ownNodes_eq_ok.mpr ⟨rfl, fun x input => coherent.owns (own x input)⟩
  rw [Building.apply_eq_call]
  refine call_fails ?_
  rw [apply_steps (coherent.rules.builtin kind), taken]
  show (kind.normalize (nodes.map Node.type) es >>= _) = _
  rw [failed]
  rfl

/-- A call whose rule infers no type fails as its rule does: no memo hides it. -/
theorem Coherent.untyped (coherent : w.Coherent ShapeRules.Lasting) {kind : Kind} {nodes : List Node} {es : Entries}
    {ps : Params} {e : Error} (own : ∀ x ∈ nodes, x ∈ w.graph.nodes)
    (normal : kind.normalize (nodes.map Node.type) es = .ok ps)
    (failed : kind.infer (nodes.map Node.type) ps = .error e) : Building.apply kind nodes es w = .error e w := by
  have ruled := coherent.rules.builtin kind
  have owned : ∀ x ∈ nodes, x.id.graph = w.graph.id := fun x input => coherent.owns (own x input)
  cases interned : w.graph.intern kind.rule kind.name nodes ps with
  | ok made =>
    obtain ⟨n, graph⟩ := made
    obtain ⟨ps', normal', inferred, _⟩ := coherent.apply own (Building.apply_eq ruled owned normal interned)
    cases normal.symm.trans normal'
    cases failed.symm.trans inferred
  | error e' =>
    cases failed.symm.trans (Graph.intern_error interned)
    have taken : w.graph.ownNodes kind.name (nodes.map .node) = .ok nodes := Graph.ownNodes_eq_ok.mpr ⟨rfl, owned⟩
    rw [Building.apply_eq_call]
    refine call_fails ?_
    rw [apply_steps ruled, taken]
    show (kind.normalize (nodes.map Node.type) es >>= _) = _
    rw [normal]
    exact interned

/-- A reshape with an unknown dimension returns where the known ones leave it a whole number of cells; the unknown
one is that number. Elsewhere it is refused, and nothing is made. -/
theorem Built.reshape_unknown [Memory] (built : w.Built ShapeRules.Lasting) {x : Node} (own : x ∈ w.graph.nodes)
    {given : Value} {es : Entries} (entered : given.entries = .ok es) {before after : Shape}
    (asks : Kind.NamesUnknown es before after) :
    (Completes (volume (before ++ after)) x.type.volume → ∃ n v, Building.call "reshape" [.node x] given w = .ok n v ∧
      n.kind = "reshape" ∧ n.inputs = [x] ∧
        n.type = ⟨x.type.elementType, before ++ x.type.volume / volume (before ++ after) :: after⟩ ∧
          n.type.volume = x.type.volume) ∧
      (¬Completes (volume (before ++ after)) x.type.volume →
        ∃ fault, Building.call "reshape" [.node x] given w = .error (.shape fault) w) := by
  have coherent := built.lasting
  have called : Building.call "reshape" [.node x] given = Building.apply .reshape [x] es :=
    Building.call_entered entered .reshape [x]
  have typed : ∀ s, Kind.reshape.infer [x.type] (Operator.reshape s).params = Operator.inferReshape s [x.type] := by
    intro s
    rw [Kind.infer, show Operator.ofParams .reshape (Operator.reshape s).params = .ok (.reshape s) from
      (Operator.reshape s).ofParams_params]
    rfl
  have inputs : ∀ y ∈ [x], y ∈ w.graph.nodes := by simpa using own
  rw [called]
  constructor
  · intro completes
    have normal : Kind.reshape.normalize ([x].map Node.type) es = .ok _ :=
      bind_eq_ok.mpr ⟨(), rfl, bind_eq_ok.mpr ⟨_, Kind.spell_completes asks completes, rfl⟩⟩
    have cells : volume (before ++ x.type.volume / volume (before ++ after) :: after) = x.type.volume := by
      rw [volume_insert, Nat.div_mul_cancel completes.whole]
    have inferred := Operator.inferReshape_eq_ok.mpr ⟨x.type, rfl, cells, rfl⟩
    rw [← typed] at inferred
    obtain ⟨n, v, made⟩ := Building.apply_returns (coherent.rules.builtin .reshape)
      (fun y input => coherent.owns (inputs y input)) normal inferred
    obtain ⟨ps, normal', inferred', named, fed, _⟩ := coherent.apply inputs made
    cases normal.symm.trans normal'
    have type := Except.ok.inj (inferred'.symm.trans inferred)
    exact ⟨n, v, made, named, fed, type, by rw [type]; exact cells⟩
  · intro none
    rcases Kind.spell_incomplete asks none with ⟨fault, failed⟩ | ⟨s, spelled, cells⟩
    · refine ⟨fault, coherent.unspelled inputs ?_⟩
      show (Kind.spellReshape [x.type] es >>= _) = _
      rw [failed]
      rfl
    · have normal : Kind.reshape.normalize ([x].map Node.type) es = .ok _ :=
        bind_eq_ok.mpr ⟨(), rfl, bind_eq_ok.mpr ⟨_, spelled, rfl⟩⟩
      have refused : Operator.inferReshape s [x.type] = .shape (.volumes x.type s) := if_pos cells
      exact ⟨_, coherent.untyped inputs normal ((typed s).trans refused)⟩

end Workspace
/-! A placeholder with more cells than fit a word. -/
namespace Sample

def vastMatrix : Node := ⟨⟨0, 0⟩, "placeholder", [], [], ⟨.float32, [2 ^ 32, 2 ^ 32]⟩, none⟩

def vastMatrixWorkspace : Workspace := ⟨.standard, ⟨0, .null, #[vastMatrix], []⟩, .empty⟩

theorem vastMatrixWorkspace_built : vastMatrixWorkspace.Built ShapeRules.Lasting := by
  have made : Building.placeholder (.dims [2 ^ 32, 2 ^ 32]) (.elementType .float32)
      ⟨.standard, .empty 0 .null, .empty⟩ = .ok vastMatrix vastMatrixWorkspace := rfl
  exact .placeholder (.empty 0 .null .standard .empty ShapeRules.standard_lasting) made

def shapeParams (dims : List Int) : Entries := [(.text "shape", .ints dims)]

theorem namesUnknown_rows : Kind.NamesUnknown (shapeParams [-1, 2 ^ 32]) [] [2 ^ 32] where
  named := ⟨_, rfl, rfl⟩
  small := by decide

theorem reshape_rows : ∃ n v,
    Building.call "reshape" [.node vastMatrix] (.dictionary (shapeParams [-1, 2 ^ 32])) vastMatrixWorkspace = .ok n v ∧
      n.kind = "reshape" ∧ n.inputs = [vastMatrix] ∧ n.type = ⟨.float32, [2 ^ 32, 2 ^ 32]⟩ ∧ n.type.volume = 2 ^ 64 :=
  (vastMatrixWorkspace_built.reshape_unknown (by simp [vastMatrixWorkspace]) rfl namesUnknown_rows).1
    ⟨by decide, by decide, .inl (by decide)⟩

/-- One plane of all cells is refused, since their number is no word. -/
theorem reshape_wrapped : Shape.volume [2 ^ 32, 2 ^ 32] ≠ 0 ∧ Shape.volume [2 ^ 32, 2 ^ 32] ∣ vastMatrix.type.volume ∧
    Building.call "reshape" [.node vastMatrix] (.dictionary (shapeParams [-1, 2 ^ 32, 2 ^ 32])) vastMatrixWorkspace =
      .error (.shape (.unknownDimension vastMatrix.type [-1, 2 ^ 32, 2 ^ 32])) vastMatrixWorkspace :=
  ⟨by decide, by decide, rfl⟩

end Sample
end TensorDag
