import TensorDag.Proofs.Moderate
import TensorDag.Proofs.Operable
import TensorDag.Proofs.Regular
import TensorDag.Proofs.Replaying

/-!
Builders that return. Where the shapes of all nodes are within the limits, a call returns if its rule infers a type,
and a builder returns if each of its steps does, given the types of what the steps before have returned. A builder
that is given operable nodes may have to return operable ones, and where no axes are empty there may have to be none.
-/
namespace TensorDag
open Program
variable [Memory]

/-- Workspaces that were built with the rules of the library and whose nodes are of moderate shapes. -/
structure Workspace.Tame (w : Workspace) : Prop where
  built : w.Built (· = .standard)
  moderate : ∀ n ∈ w.graph.nodes, n.Moderate

/-- Workspaces that were built with the rules of the library and whose nodes are of shapes within the limits. -/
structure Workspace.Bounded (full : Prop) (w : Workspace) : Prop where
  built : w.Built (· = .standard)
  nodes : ∀ n ∈ w.graph.nodes, n.Bounded full

theorem Workspace.Tame.bounded {full : Prop} {w : Workspace} (tame : w.Tame) : w.Bounded full :=
  ⟨tame.built, fun n member => (tame.moderate n member).bounded⟩

namespace Workspace.Bounded
variable {full : Prop} {w : Workspace}

theorem tame (bounded : w.Bounded True) : w.Tame :=
  ⟨bounded.built, fun n member => (bounded.nodes n member).moderate⟩

theorem coherent (bounded : w.Bounded full) : w.Coherent ShapeRules.Lasting :=
  (bounded.built.mono fun _ standard => standard ▸ ShapeRules.standard_lasting).lasting

end Workspace.Bounded

/-- A call of a kind with some entries on inputs of some types has a result of a type. -/
def Kind.HasResult (kind : Kind) (types : List TensorType) (es : Entries) (type : TensorType) : Prop :=
  ∃ ps, kind.normalize types es = .ok ps ∧ kind.infer types ps = .ok type

omit [Memory] in
theorem Kind.gives_of_spell {kind : Kind} {types : List TensorType} {es : Entries} {op : Operator} {type : TensorType}
    (count : Nat) (arity : kind.arity? = some count) (counted : types.length = count)
    (spelled : kind.spell types es = .ok op) (inferred : op.infer types = .ok type) : kind.HasResult types es type := by
  refine ⟨op.params, ?_, ?_⟩
  · rw [normalize, arity]
    refine Result.bind_eq_ok.mpr ⟨(), if_pos counted, Result.bind_eq_ok.mpr ⟨op, spelled, rfl⟩⟩
  · have read := op.ofParams_params
    rw [spell_kind spelled] at read
    exact Result.bind_eq_ok.mpr ⟨op, read, inferred⟩

namespace Building
open Workspace
variable {α β : Type} {full operable : Prop} {held wider : List Node} {form : Form α} {form' : Form β}
  {post post' : α → Prop}

/-- A builder that, given some nodes, returns in every bounded workspace, leads to one that is bounded again, and
returns what it is said to. If it is to be `operable`, it keeps to operable nodes. -/
structure Yields (full operable : Prop) (held : List Node) (form : Form α) (post : α → Prop) (x : Building α) :
    Prop where
  returns : ∀ w, w.Bounded full → (∀ n ∈ held, n ∈ w.graph.nodes) → (operable → ∀ n ∈ held, n.Operable) →
    ∃ a v, x w = .ok a v ∧ v.Bounded full ∧ w.Grows v ∧ (∀ n ∈ form.nodes a, n ∈ v.graph.nodes) ∧
      (operable → ∀ n ∈ form.nodes a, n.Operable) ∧ post a

namespace Yields

theorem pure {a : α} (given : ∀ n ∈ form.nodes a, n ∈ held) (holds : post a) :
    Yields full operable held form post (Pure.pure a) :=
  ⟨fun w bounded own able => ⟨a, w, rfl, bounded, .refl w, fun n member => own n (given n member),
    fun asked n member => able asked n (given n member), holds⟩⟩

theorem weaken {x : Building α} (yields : Yields full operable held form post x) (implies : ∀ a, post a → post' a) :
    Yields full operable held form post' x := by
  refine ⟨fun w bounded own able => ?_⟩
  obtain ⟨a, v, ran, bounded', grows, made, able', holds⟩ := yields.returns w bounded own able
  exact ⟨a, v, ran, bounded', grows, made, able', implies a holds⟩

theorem bind {x : Building α} {f : α → Building β} {post' : β → Prop} (first : Yields full operable held form post x)
    (rest : ∀ a, post a → Yields full operable (form.nodes a ++ held) form' post' (f a)) :
    Yields full operable held form' post' (x >>= f) := by
  refine ⟨fun w bounded own able => ?_⟩
  obtain ⟨a, middle, ran, bounded', grows, made, able', holds⟩ := first.returns w bounded own able
  have known : ∀ n ∈ form.nodes a ++ held, n ∈ middle.graph.nodes := by
    intro n member
    rcases List.mem_append.mp member with new | old
    · exact made n new
    · exact grows.nodes n (own n old)
  have able : operable → ∀ n ∈ form.nodes a ++ held, n.Operable := fun asked =>
    List.forall_mem_append.mpr ⟨able' asked, able asked⟩
  obtain ⟨b, v, ran', bounded'', grows', made', able'', holds'⟩ := (rest a holds).returns middle bounded' known able
  exact ⟨b, v, bind_eq_ok.mpr ⟨a, middle, ran, ran'⟩, bounded'', grows.trans grows', made', able'', holds'⟩

theorem step {x : Building Node} {f : Node → Building β} {kept : Node → Prop} {post' : β → Prop}
    (first : Yields full operable held .node kept x)
    (rest : ∀ m, kept m → Yields full operable (m :: held) form' post' (f m)) :
    Yields full operable held form' post' (x >>= f) :=
  first.bind rest

theorem of_bind {result : Result β} {b : β} {f : β → Building α} (found : result = .ok b)
    (rest : Yields full operable held form post (f b)) : Yields full operable held form post (of result >>= f) := by
  rw [found]
  exact rest

theorem ite {c : Prop} [Decidable c] {x y : Building α} (first : c → Yields full operable held form post x)
    (second : ¬c → Yields full operable held form post y) :
    Yields full operable held form post (if c then x else y) := by
  split
  · exact first ‹_›
  · exact second ‹_›

theorem known {n : Node} {x : Building α} (given : n ∈ held)
    (rest : n.Bounded full → Yields full operable held form post x) : Yields full operable held form post x :=
  ⟨fun w bounded own => (rest (bounded.nodes n (own n given))).returns w bounded own⟩

theorem certain {n : Node} {x : Building α} (given : n ∈ held)
    (rest : (operable → n.Operable) → Yields full operable held form post x) :
    Yields full operable held form post x :=
  ⟨fun w bounded own able => (rest fun asked => able asked n given).returns w bounded own able⟩

theorem node {n : Node} {kept : Node → Prop} (given : n ∈ held) (holds : kept n) :
    Yields full operable held .node kept (Pure.pure n) :=
  .pure (by simpa [Form.node] using given) holds

theorem constant {shape elementType data : Value} {type : TensorType} {bytes : Bytes}
    (typed : TensorType.ofValues elementType shape = .ok type) (filled : leafBytes type data = .ok bytes)
    (fits : type.shape.Bounded full) :
    Yields full operable held .node (·.type = type) (Building.constant shape elementType data) := by
  refine ⟨fun w bounded own _ => ?_⟩
  obtain ⟨n, v, ran⟩ := constant_returns (w := w) typed filled
  obtain ⟨regular, adds, type', bytes', typed', _, known⟩ := bounded.built.regular.constant ran
  cases typed.symm.trans typed'
  obtain ⟨named, same, _⟩ := known
  have built : v.Built (· = .standard) := .constant bounded.built ran
  refine ⟨n, v, ran, ⟨built, fun m member => ?_⟩, adds.toGrows, ?_, fun _ => ?_, same⟩
  · rcases adds.only m member with old | rfl
    · exact bounded.nodes m old
    · refine ⟨?_, fun _ softmax => ?_⟩
      · rw [Node.shape, same]
        exact fits
      · rw [named] at softmax
        exact absurd softmax (by decide)
  · simpa [Form.node] using adds.member
  · have isLeaf := Node.isLeaf_of_kind rfl named
    have furnished := (built.mono fun _ standard => standard ▸ ShapeRules.standard_proper).furnished.2 n adds.member
    simpa [Form.node] using Node.Operable.leaf isLeaf (furnished.bare isLeaf)

theorem apply {kind : Kind} (nodes : List Node) {es : Entries} {type : TensorType} (given : ∀ x ∈ nodes, x ∈ held)
    (gives : kind.HasResult (nodes.map Node.type) es type) (fits : type.shape.Bounded full)
    (axes : kind = .softmaxGradient → type.shape ≠ [])
    (suited : operable → ∀ op, kind.spell (nodes.map Node.type) es = .ok op →
      op.Suited (nodes.map Node.type) type.shape) :
    Yields full operable held .node (·.type = type) (Building.apply kind nodes es) := by
  refine ⟨fun w bounded own able => ?_⟩
  have own : ∀ x ∈ nodes, x ∈ w.graph.nodes := fun x input => own x (given x input)
  have coherent := bounded.coherent
  obtain ⟨ps, normal, inferred⟩ := gives
  obtain ⟨n, v, ran⟩ := apply_returns (coherent.rules.builtin kind) (fun x input => coherent.owns (own x input))
    normal inferred
  obtain ⟨ps', normal', inferred', named, _⟩ := coherent.apply own ran
  cases normal.symm.trans normal'
  have same : n.type = type := Except.ok.inj (inferred'.symm.trans inferred)
  rw [apply_eq_call] at ran
  have inputs : ∀ x : Node, .node x ∈ nodes.map Value.node → x.id.graph = w.graph.id → x ∈ w.graph.nodes := by
    intro x member _
    obtain ⟨y, input, same⟩ := List.mem_map.mp member
    cases same
    exact own x input
  obtain ⟨_, adds, nodes', es', op, split, reads, entered, kinds, spelled, formed⟩ :=
    bounded.built.regular.call inputs ran
  obtain rfl := List.map_injective_iff.mpr (fun _ _ => Value.node.inj) split
  cases entered
  cases Kind.name_injective kinds
  refine ⟨n, v, ran, ⟨.call bounded.built inputs ran, fun m member => ?_⟩, adds.toGrows, ?_, fun asked => ?_, same⟩
  · rcases adds.only m member with old | rfl
    · exact bounded.nodes m old
    · rw [← same] at fits axes
      exact ⟨fits, fun _ softmax => axes (Kind.name_injective (named.symm.trans softmax))⟩
  · simpa [Form.node] using adds.member
  · have able : n.Operable := by
      have shape : n.shape = type.shape := congrArg TensorType.shape same
      refine .made (formed.suited (reads ▸ shape ▸ suited asked op spelled)) fun x input => ?_
      exact able asked x (given x (reads ▸ input))
    simpa [Form.node] using able

theorem plain {kind : Kind} (nodes : List Node) {es : Entries} {type : TensorType} (given : ∀ x ∈ nodes, x ∈ held)
    (gives : kind.HasResult (nodes.map Node.type) es type) (fits : type.shape.Bounded full)
    (axes : kind = .softmaxGradient → type.shape ≠ []) (simple : kind ∉ Kind.demanding) :
    Yields full operable held .node (·.type = type) (Building.apply kind nodes es) :=
  apply nodes given gives fits axes fun _ _ spelled =>
    Operator.suited_of_kind (Kind.spell_kind spelled ▸ simple)

end Yields
end Building
end TensorDag
