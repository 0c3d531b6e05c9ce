import TensorDag.Proofs.Selecting
import TensorDag.Proofs.Windows

/-!
Gradients are there. In a graph of nodes of shapes within the limits, built with the rules of the library, the
gradients of a single element of single precision can be asked for with respect to any nodes, where the rules answer
to the nodes in between: each has the type of its target. Where no axes are empty, they answer, and none are empty
afterwards.
-/
namespace TensorDag
namespace Gradient
open Building (Yields)
variable {family : Node → Prop} {full operable : Prop} {held found : List Node} {adjoints : Adjoints}
  {n g x c : Node}

theorem Rules.find_name (kind : Kind) :
    Rules.standard.find kind.name = .ok .constant ∧ Rules.standard.isDifferentiable kind.name = false ∨
      Rules.standard.find kind.name = .ok (.standard kind) := by
  cases kind with
  | binary op => cases op <;> first | exact .inr rfl | exact .inl ⟨rfl, rfl⟩
  | unary op => cases op <;> first | exact .inr rfl | exact .inl ⟨rfl, rfl⟩
  | argmin | uniform => exact .inl ⟨rfl, rfl⟩
  | _ => exact .inr rfl

/-- Gradients of the types of the nodes that they are for, which are among those found. -/
def Adjoints.Typed (family : Node → Prop) (found : List Node) (adjoints : Adjoints) : Prop :=
  ∀ x, family x → ∀ g, adjoints.lookup x.id = some g → g.type = x.type ∧ x.isIn found = true

theorem Adjoints.mem_of_lookup {id : NodeId} (known : adjoints.lookup id = some g) : g ∈ adjoints.map Prod.snd := by
  obtain ⟨before, after, split, _⟩ := List.lookup_eq_some_iff.mp known
  simp [split]

theorem Adjoints.Typed.cons (arena : Arena family) (typed : adjoints.Typed family found) (own : family x)
    (counts : x.isIn found = true) (same : g.type = x.type) : Adjoints.Typed family found ((x.id, g) :: adjoints) := by
  intro y inside h known
  rw [List.lookup_cons] at known
  by_cases here : y.id = x.id
  · cases arena.identity inside own here
    rw [beq_self_eq_true] at known
    exact ⟨Option.some.inj known ▸ same, counts⟩
  · rw [beq_false_of_ne here] at known
    exact typed y inside h known

/-- Nodes among those found that the rules of their kinds answer to. -/
def Answering (operable : Prop) (found nodes : List Node) : Prop :=
  ∀ n ∈ nodes, n.isIn found = true → ∀ op, n.Formed op → operable ∨ op.kind ∉ Kind.straining →
    op.Answered (n.inputs.map Node.type)

section sweep
variable (arena : Arena family)
include arena

theorem yields_accumulate [Memory] (own : family x) (counts : x.isIn found = true)
    (given : ∀ g ∈ adjoints.map Prod.snd, g ∈ held) (typed : adjoints.Typed family found) (member : c ∈ held)
    (same : c.type = x.type) :
    Yields full operable held .adjoints (Adjoints.Typed family found) (accumulate adjoints x c) := by
  unfold accumulate
  split
  · rename_i g known
    have before : g.type = x.type := (typed x own g known).1
    refine (Yields.alike .add (given g (Adjoints.mem_of_lookup known)) member (same.trans before.symm)).step
      fun total summed => .pure ?_ (typed.cons arena own counts (summed.trans before))
    exact List.forall_mem_cons.mpr ⟨by simp, fun g old => by simp [given g old]⟩
  · exact .pure (List.forall_mem_cons.mpr ⟨member, given⟩) (typed.cons arena own counts same)

theorem yields_distribute [Memory] (kind : String) (found : List Node) {inputs : List Node} {cs : Contributions}
    (fitting : Fitting inputs cs) (own : ∀ x ∈ inputs, family x) (made : ∀ c ∈ Form.contributions.nodes cs, c ∈ held)
    (given : ∀ g ∈ adjoints.map Prod.snd, g ∈ held) (typed : adjoints.Typed family found) :
    Yields full operable held .adjoints (Adjoints.Typed family found)
      (distribute kind found (inputs.zip cs) adjoints) := by
  induction fitting generalizing held adjoints with
  | nil => exact .pure given typed
  | @cons x c inputs cs fits _ ih =>
    obtain ⟨here, later⟩ := List.forall_mem_cons.mp own
    cases c with
    | none => exact ih later made given typed
    | some c =>
      obtain ⟨first, others⟩ := List.forall_mem_cons.mp made
      have same := fits c rfl
      rw [List.zip_cons_cons, distribute]
      refine .ite (fun counts => .ite (fun _ => ?_) fun differs => absurd same differs) fun _ => ?_
      · refine (yields_accumulate arena here counts given typed first same).bind fun adjoints' typed' => ?_
        exact ih later (fun d member => List.mem_append_right _ (others d member))
          (fun g member => List.mem_append_left _ member) typed'
      · exact ih later others given typed

/-- The sweep over nodes of a family that are given with their inputs. What it makes on the way is given to the
nodes that come later, together with the gradients found so far. -/
theorem yields_sweep [Memory] (formed : ∀ n, family n → n.isLeaf = true ∨ ∃ op, n.Formed op) (found : List Node)
    {nodes : List Node} (own : ∀ n ∈ nodes, family n) (answering : Answering operable found nodes)
    (known : ∀ n ∈ nodes, ∀ x ∈ n :: n.inputs, x ∈ held) (given : ∀ g ∈ adjoints.map Prod.snd, g ∈ held)
    (typed : adjoints.Typed family found) :
    Yields full operable held .adjoints (Adjoints.Typed family found) (sweep .standard found nodes adjoints) := by
  induction nodes generalizing held adjoints with
  | nil => exact .pure given typed
  | cons n rest ih =>
    obtain ⟨mine, later⟩ := List.forall_mem_cons.mp own
    obtain ⟨here, others⟩ := List.forall_mem_cons.mp known
    obtain ⟨held_n, inputs⟩ := List.forall_mem_cons.mp here
    obtain ⟨answered, further⟩ := List.forall_mem_cons.mp answering
    unfold sweep
    split
    · rename_i g interior reached
      obtain ⟨op, formed⟩ := (formed n mine).resolve_left (by simp [interior])
      obtain ⟨same, counts⟩ := typed n mine g reached
      have handed : Handed operable held n g op :=
        ⟨held_n, inputs, given g (Adjoints.mem_of_lookup reached), same, formed, answered counts op formed⟩
      rcases Rules.find_name op.kind with ⟨ruled, still⟩ | ruled
      · refine .of_bind (formed.named ▸ ruled) (.ite (fun _ => ih later further others given typed) fun moves => ?_)
        exact absurd (formed.named ▸ still) (by simpa using moves)
      · refine .of_bind (formed.named ▸ ruled) (.ite (fun _ => ih later further others given typed) fun _ => ?_)
        refine (contributes_standard handed).bind fun cs fitting => ?_
        refine .ite (fun differs => absurd (List.Forall₂.length_eq fitting).symm differs) fun _ => ?_
        refine (yields_distribute arena n.kind found fitting (fun x => arena.inputs mine)
          (fun c member => List.mem_append_left _ member)
          (fun g member => List.mem_append_right _ (given g member)) typed).bind fun adjoints' typed' => ?_
        exact ih later further
          (fun m member x input => List.mem_append_right _ (List.mem_append_right _ (others m member x input)))
          (fun g member => List.mem_append_left _ member) typed'
    · exact ih later further others given typed

end sweep

theorem yields_collect [Memory] {targets : List Node} (own : ∀ t ∈ targets, family t)
    (bounded : ∀ t ∈ targets, t.Bounded full) (given : ∀ g ∈ adjoints.map Prod.snd, g ∈ held)
    (typed : adjoints.Typed family found) :
    Yields full operable held .several (List.Forall₂ (fun t d => d.type = t.type) targets)
      (collect adjoints targets) := by
  induction targets generalizing held with
  | nil => exact .pure (by simp [Form.several]) .nil
  | cons t rest ih =>
    obtain ⟨mine, later⟩ := List.forall_mem_cons.mp own
    obtain ⟨sized, bounded⟩ := List.forall_mem_cons.mp bounded
    have last : ∀ d : Node, d.type = t.type → Yields full operable (d :: held) .several
        (List.Forall₂ (fun t d => d.type = t.type) (t :: rest)) (do return d :: (← collect adjoints rest)) := by
      intro d same
      have others : Yields full operable (d :: held) .several (List.Forall₂ (fun t d => d.type = t.type) rest)
          (collect adjoints rest) :=
        ih later bounded fun g member => .tail _ (given g member)
      refine others.bind fun ds typed => .pure ?_ (.cons same typed)
      exact List.forall_mem_cons.mpr ⟨by simp, fun e member => List.mem_append_left _ member⟩
    unfold collect
    split
    · rename_i g known
      exact (Yields.node (given g (Adjoints.mem_of_lookup known)) (typed t mine g known).1).step last
    · obtain ⟨_, filled⟩ := exists_leafBytes_zeros (show t.type.shape.Limited from sized.shape.toLimited)
      exact (Yields.leaf sized.shape filled).step last

/-- Gradients are built from the nodes that the objective is computed from. -/
theorem yields_build [Memory] {objective : Node} {targets : List Node} (arena : Arena family)
    (formed : ∀ n, family n → n.isLeaf = true ∨ ∃ op, n.Formed op) (own : family objective)
    (single : objective.type.volume = 1) (targeted : ∀ t ∈ targets, family t)
    (bounded : ∀ t ∈ targets, t.Bounded full)
    (answering : Answering operable (relevant targets (Node.order [objective])) (Node.order [objective])) :
    Yields full operable (Node.order [objective]) .several (List.Forall₂ (fun t d => d.type = t.type) targets)
      (build .standard objective targets) := by
  have owns : ∀ o ∈ [objective], family o := by simpa using own
  have reached : ∀ n, n ∈ Node.order [objective] ↔ Node.Needed [objective] n := fun n => Node.mem_order_iff arena owns
  have ordered : ∀ n ∈ (Node.order [objective]).reverse, family n := fun n member =>
    Node.order_own arena owns n (List.mem_reverse.mp member)
  have closed : ∀ n ∈ (Node.order [objective]).reverse, ∀ x ∈ n :: n.inputs, x ∈ Node.order [objective] := by
    intro n member x listed
    have here := List.mem_reverse.mp member
    rcases List.mem_cons.mp listed with rfl | input
    · exact here
    · obtain ⟨o, asked, path⟩ := (reached n).mp here
      exact (reached x).mpr ⟨o, asked, path.trans (.input input .self)⟩
  have last : ∀ (wider : List Node) (seed : Adjoints), (∀ n ∈ Node.order [objective], n ∈ wider) →
      (∀ g ∈ seed.map Prod.snd, g ∈ wider) → seed.Typed family (relevant targets (Node.order [objective])) →
        Yields full operable wider .several (List.Forall₂ (fun t d => d.type = t.type) targets)
          (do collect (← sweep .standard (relevant targets (Node.order [objective]))
            (Node.order [objective]).reverse seed) targets) := by
    intro wider seed known given typed
    have known := fun n member x input => known x (closed n member x input)
    have answering := fun n member => answering n (List.mem_reverse.mp member)
    refine (yields_sweep arena formed _ ordered answering known given typed).bind fun adjoints typed' => ?_
    exact yields_collect targeted bounded (fun g member => List.mem_append_left _ member) typed'
  unfold build
  dsimp only
  refine .ite (fun counts => ?_) fun _ => last _ [] (fun n member => member) (by simp) nofun
  refine .known ((reached objective).mpr ⟨objective, by simp, .self⟩) fun bounded => ?_
  obtain ⟨_, filled⟩ := exists_leafBytes_one single
  refine (Yields.leaf bounded.shape filled).step fun one typed => ?_
  exact last (one :: _) [(objective.id, one)] (fun n member => .tail _ member) (by simp)
    (Adjoints.Typed.cons arena nofun own counts typed)

/-- Gradients of a single element of single precision are there, where the rules answer to the nodes between it and
the targets, and are computed from nodes that kernels can compute if the element is. -/
theorem ofValues_yields [Memory] (full operable : Prop) {w : Workspace} {objective : Node} {wrt : Value}
    {targets : List Node}
    (bounded : w.Bounded full) (own : objective ∈ w.graph.nodes) (floating : objective.elementType = .float32)
    (single : objective.type.volume = 1) (targeted : ∀ t ∈ targets, t ∈ w.graph.nodes)
    (asks : GradientRequest wrt targets)
    (answered : ∀ n, objective.Reaches n → (∃ t ∈ targets, n.Reaches t) → ∀ op, n.Formed op →
      operable ∨ op.kind ∉ Kind.straining → op.Answered (n.inputs.map Node.type))
    (able : operable → objective.Operable) :
    ∃ ds v, ofValues .standard (.node objective) wrt w = .ok ds v ∧ v.Bounded full ∧ w.Grows v ∧
      List.Forall₂ (fun t d => d ∈ v.graph.nodes ∧ d.type = t.type) targets ds ∧
      (operable → ∀ d ∈ ds, d.Operable) := by
  have coherent := bounded.coherent
  have graphs : ∀ t ∈ targets, t.id.graph = objective.id.graph := fun t member =>
    (coherent.owns (targeted t member)).trans (coherent.owns own).symm
  have owns : ∀ o ∈ [objective], o ∈ w.graph.nodes := by simpa using own
  have reached : ∀ n ∈ Node.order [objective], objective.Reaches n := by
    intro n member
    obtain ⟨o, listed, path⟩ := (Node.mem_order_iff coherent.arena owns).mp member
    rwa [List.mem_singleton.mp listed] at path
  have answering : Answering operable (relevant targets (Node.order [objective])) (Node.order [objective]) := by
    intro n member counts
    have mine := Node.order_own coherent.arena owns n member
    exact answered n (reached n member) ((isIn_relevant_iff coherent.arena own targeted mine).mp counts).2
  have yields : Yields full operable (Node.order [objective]) .several
      (List.Forall₂ (fun t d => d.type = t.type) targets) (build .standard objective targets) :=
    yields_build coherent.arena bounded.built.regular.formed own single targeted
      (fun t member => bounded.nodes t (targeted t member)) answering
  obtain ⟨ds, v, ran, bounded', grows, made, able', typed⟩ := yields.returns w bounded
    (Node.order_own coherent.arena owns) fun asked n member => (able asked).reaches (reached n member)
  refine ⟨ds, v, ?_, bounded', grows, ?_, able'⟩
  · rw [ofValues_eq_build asks single floating graphs]
    exact ran
  · exact ((List.forall₂_and_left ..).mpr ⟨made, typed.flip⟩).flip

/-- Rules answer to nodes of moderate shapes, whether kernels can compute what they answer or not. -/
theorem answered_of_moderate [Memory] {op : Operator} (formed : n.Formed op) (moderate : n.Moderate)
    (inputs : ∀ x ∈ n.inputs, x.Moderate) (other : op.kind ∉ Kind.straining) :
    op.Answered (n.inputs.map Node.type) := by
  cases op with
  | slice | featuresGradient | filtersGradient =>
    exact absurd (by simp [Kind.straining, Operator.kind]) other
  | pad =>
    obtain ⟨t, types, _⟩ := Operator.inferPad_eq_ok.mp formed.typed
    obtain ⟨x, only, rfl⟩ := inputs_one types
    rw [types]
    exact (inputs x (by simp [only])).shape.positive
  | softmaxGradient =>
    rw [Operator.inferSoftmaxGradient_eq_ok.mp formed.typed]
    exact moderate.axes formed.named
  | maxpoolGradient dims =>
    obtain ⟨_, _, types, _⟩ := Operator.inferMaxpoolGradient_eq_ok.mp formed.typed
    obtain ⟨x, _, _, three, rfl, _⟩ := inputs_three types
    rw [types]
    exact .inl (inputs x (by simp [three])).shape.positive
  | _ => trivial

/-- Gradients of a single element of single precision can be asked for with respect to any nodes of its graph. There
is one for each target, of the type of the target, and the graph stays one of nodes of moderate shapes. -/
theorem ofValues_returns [Memory] {w : Workspace} {objective : Node} {wrt : Value} {targets : List Node} (tame : w.Tame)
    (own : objective ∈ w.graph.nodes) (floating : objective.elementType = .float32)
    (single : objective.type.volume = 1) (targeted : ∀ t ∈ targets, t ∈ w.graph.nodes)
    (asks : GradientRequest wrt targets) :
    ∃ ds v, ofValues .standard (.node objective) wrt w = .ok ds v ∧ v.Tame ∧ w.Grows v ∧
      List.Forall₂ (fun t d => d ∈ v.graph.nodes ∧ d.type = t.type) targets ds := by
  have bounded : w.Bounded True := tame.bounded
  have arena := bounded.coherent.arena
  have answered : ∀ n, objective.Reaches n → ∀ op, n.Formed op → op.kind ∉ Kind.straining →
      op.Answered (n.inputs.map Node.type) := by
    intro n path op formed other
    have mine := arena.reaches path own
    exact answered_of_moderate formed (tame.moderate n mine) (fun x input => tame.moderate x (arena.inputs mine input))
      other
  obtain ⟨ds, v, ran, bounded', grows, typed, _⟩ := ofValues_yields True False bounded own floating single targeted asks
    (fun n path _ op formed other => answered n path op formed (other.resolve_left id)) False.elim
  exact ⟨ds, v, ran, bounded'.tame, grows, typed⟩

end Gradient

namespace Sample

theorem summed_tame : energyWorkspace.Tame := by
  refine ⟨energyWorkspace_built, fun n member => ?_⟩
  rcases mem_energyWorkspace.mp member with rfl | rfl | rfl | rfl | rfl <;> exact
    ⟨⟨by decide, by decide, by decide⟩, by decide⟩

/-- Gradients at a variable and at an inner node. -/
theorem ofValues_returns_energy :
    ∃ ds v, Gradient.ofValues .standard (.node energy) (.list [.node x, .node total]) energyWorkspace =
      .ok ds v ∧ v.Tame ∧
      energyWorkspace.Grows v ∧ List.Forall₂ (fun t d => d ∈ v.graph.nodes ∧ d.type = t.type) [x, total] ds :=
  Gradient.ofValues_returns summed_tame (mem_energyWorkspace.mpr
    (.inr (.inr (.inr (.inr rfl))))) rfl rfl targets_energyWorkspace (.inr rfl)

/-! A placeholder of more axes than can be stretched, its sum, and a placeholder of more cells than can be counted. -/

def floatOf33Axes : Node := ⟨⟨0, 0⟩, "placeholder", [], [], ⟨.float32, List.replicate 33 1⟩, none⟩

def floatSumOf33Axes : Node := ⟨⟨0, 1⟩, "sum", [floatOf33Axes], [("axes", .dims (List.range 33))], ⟨.float32, []⟩, none⟩

def vastPlaceholder : Node := ⟨⟨0, 2⟩, "placeholder", [], [], ⟨.float32, [2 ^ 61]⟩, none⟩

def vastWorkspace : Workspace where
  rules := .standard
  graph := ⟨0, .null, #[floatOf33Axes, floatSumOf33Axes, vastPlaceholder],
    [(.interior "sum" [0] [("axes", .dims (List.range 33))], floatSumOf33Axes)]⟩
  store := .empty

theorem mem_vastWorkspace {n : Node} : n ∈ vastWorkspace.graph.nodes ↔ n = floatOf33Axes ∨ n = floatSumOf33Axes ∨
    n = vastPlaceholder := by
  simp only [vastWorkspace, List.mem_toArray, List.mem_cons, List.not_mem_nil, or_false]

theorem vastWorkspace_built : vastWorkspace.Built (· = .standard) := by
  have start : Workspace.Built (· = .standard) ⟨.standard, .empty 0 .null, .empty⟩ :=
    .empty 0 .null .standard .empty rfl
  have first : Building.placeholder (.dims (List.replicate 33 1)) (.elementType .float32)
      ⟨.standard, .empty 0 .null, .empty⟩ = .ok floatOf33Axes ⟨.standard, ⟨0, .null, #[floatOf33Axes], []⟩,
        .empty⟩ := rfl
  have second : Building.call "sum" [.node floatOf33Axes] .null ⟨.standard, ⟨0, .null, #[floatOf33Axes], []⟩, .empty⟩ =
      .ok floatSumOf33Axes ⟨.standard, ⟨0, .null, #[floatOf33Axes, floatSumOf33Axes],
        [(.interior "sum" [0] [("axes", .dims (List.range 33))], floatSumOf33Axes)]⟩, .empty⟩ := rfl
  have third : Building.placeholder (.dims [2 ^ 61]) (.elementType .float32)
    ⟨.standard, ⟨0, .null, #[floatOf33Axes, floatSumOf33Axes],
      [(.interior "sum" [0] [("axes", .dims (List.range 33))], floatSumOf33Axes)]⟩, .empty⟩ =
        .ok vastPlaceholder vastWorkspace := rfl
  exact ((start.placeholder first).call (by simp) second).placeholder third

theorem order_floatSumOf33Axes : Node.order [floatSumOf33Axes] = [floatOf33Axes, floatSumOf33Axes] := by
  rw [Node.order_eq]
  rfl

/-- Without limits to shapes there need not be gradients, even where no axis is empty. -/
theorem ofValues_vast :
    vastWorkspace.Built (· = .standard) ∧
      (∀ n ∈ vastWorkspace.graph.nodes, (∀ d ∈ n.shape, 1 ≤ d) ∧ (n.kind = "softmax_grad" → n.shape ≠ [])) ∧
      (floatOf33Axes ∈ vastWorkspace.graph.nodes ∧ floatSumOf33Axes ∈ vastWorkspace.graph.nodes ∧
        vastPlaceholder ∈ vastWorkspace.graph.nodes) ∧
      floatSumOf33Axes.type = ⟨.float32, []⟩ ∧
      (∃ v, Gradient.ofValues .standard (.node floatSumOf33Axes) (.node floatOf33Axes) vastWorkspace =
        .error (.fault .tooManyAxes) v) ∧
      ∃ v, Gradient.ofValues .standard (.node floatSumOf33Axes) (.node vastPlaceholder) vastWorkspace =
        .error (.fault .notAddressable) v := by
  refine ⟨vastWorkspace_built, fun n member => ?_, ?_, rfl, ?_, ?_⟩
  · rcases mem_vastWorkspace.mp member with rfl | rfl | rfl <;> exact ⟨by decide, by decide⟩
  · simp [mem_vastWorkspace]
  · have built : Gradient.ofValues .standard (.node floatSumOf33Axes) (.node floatOf33Axes) vastWorkspace =
        Gradient.build .standard floatSumOf33Axes [floatOf33Axes] vastWorkspace := rfl
    rw [built, Gradient.build, order_floatSumOf33Axes]
    exact ⟨_, rfl⟩
  · have built : Gradient.ofValues .standard (.node floatSumOf33Axes) (.node vastPlaceholder) vastWorkspace =
        Gradient.build .standard floatSumOf33Axes [vastPlaceholder] vastWorkspace := rfl
    rw [built, Gradient.build, order_floatSumOf33Axes]
    exact ⟨_, rfl⟩

end Sample
end TensorDag
