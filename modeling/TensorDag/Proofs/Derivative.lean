import TensorDag.Proofs.Sweep

/-!
Reverse mode computes the derivative. Over every commutative ring in which the elements of the constants
are read, the gradients that are built hold the derivative of the objective.
-/
namespace TensorDag
open Program (bind_eq_ok pure_eq_ok throw_eq_ok)
open Building (of_eq_ok)
open Node (exact dual Fit)
open Tensor (dot)

/-- A leaf, or a node of a kind that only moves, adds, subtracts and multiplies elements. -/
def Node.Polynomial (n : Node) : Prop :=
  n.isLeaf = true ∨ ∃ kind ∈ Kind.polynomial, n.kind = kind.name ∧ (kind = .softmaxGradient → n.shape ≠ [])

namespace Workspace
variable {w w' w'' : Workspace} {n : Node}

theorem Built.exact [Memory] (built : w.Built (· = .standard)) (polynomial : ∀ n ∈ w.graph.nodes, n.Polynomial) :
    w.Exact where
  toRegular := built.regular
  readable n own := by
    rcases polynomial n own with isLeaf | ⟨kind, member, named, axes⟩
    · exact .leaf isLeaf
    rcases built.regular.formed n own with isLeaf | ⟨op, formed⟩
    · exact .leaf isLeaf
    · cases Kind.name_injective (named.symm.trans formed.named)
      exact .interior op formed member axes

/-- A node that holds given bytes, in a workspace that grew. -/
structure Holds (w w' : Workspace) (n : Node) (type : TensorType) (bytes : Bytes) : Prop where
  grows : w.Grows w'
  exact : w'.Exact
  member : n ∈ w'.graph.nodes
  known : n.Known w'.store (.constant type bytes)

theorem Exact.constant [Memory] {s : Shape} {e : ElementType} {data : Value} (exact : w.Exact)
    (made : Building.constant (.dims s) (.elementType e) data w = .ok n w') :
    ∃ bytes, leafBytes ⟨e, s⟩ data = .ok bytes ∧ w.Holds w' n ⟨e, s⟩ bytes := by
  obtain ⟨regular, adds, type, bytes, typed, filled, known⟩ := exact.toRegular.constant made
  have same : type = ⟨e, s⟩ := by
    obtain ⟨e', first, typed⟩ := Result.bind_eq_ok.mp typed
    obtain ⟨s', second, typed⟩ := Result.bind_eq_ok.mp typed
    rw [Value.shape_lists (Value.lists_dims s)] at second
    cases second
    cases typed
    cases e <;> cases first <;> rfl
  subst same
  refine ⟨bytes, filled, adds.toGrows, ⟨regular, fun m member => ?_⟩, adds.member, known⟩
  rcases adds.only m member with old | rfl
  · exact exact.readable m old
  · exact .leaf (by rw [Node.isLeaf, known.1]; rfl)

theorem Holds.cell {S : Type} [Zero S] [Add S] [Sub S] [Mul S] [Neg S] {type : TensorType} {bytes : Bytes}
    (holds : w.Holds w' n type bytes) (grows : w'.Grows w'') (element : UInt32 → S) (values : Node → Index → S)
    (i : Index) : (n.exact (Node.assigned w''.store element values)).cell i =
      element (bytes.word (Shape.offset type.shape i)) := by
  obtain ⟨named, typed, id, own, _, content⟩ := holds.known.later grows.store.later
  have given : Node.assigned w''.store element values n =
      some ((Tensor.ofBytes n.shape (n.content w''.store)).map element) := if_pos named
  rw [Node.exact_given given, Node.content, own]
  simp only [content, Tensor.map, Tensor.ofBytes, Node.shape, typed]

theorem Holds.shape {type : TensorType} {bytes : Bytes} (holds : w.Holds w' n type bytes) : n.shape = type.shape :=
  congrArg TensorType.shape holds.known.2.1

end Workspace

theorem leafBytes_one [Memory] {s : Shape} {bytes : Bytes} (single : Shape.volume s = 1)
    (filled : leafBytes ⟨.float32, s⟩ (.int 1) = .ok bytes) {i : Index} (inside : Shape.Contains s i) :
    bytes.word (Shape.offset s i) = 0x3f800000 := by
  have words : Value.words .float32 (.int 1) = .ok [0x3f800000] := rfl
  obtain ⟨found, spelled, made⟩ := Result.bind_eq_ok.mp filled
  cases words.symm.trans spelled
  have below := Shape.offset_lt_volume inside
  have first : Shape.offset s i = 0 := by omega
  split at made
  · cases made
    rw [first]
    rfl
  · cases made

theorem leafBytes_null [Memory] {type : TensorType} {bytes : Bytes} (filled : leafBytes type .null = .ok bytes)
    (place : Nat) : bytes.word place = 0 := by
  obtain ⟨_, _, made⟩ := Result.bind_eq_ok.mp filled
  cases made
  have zero : ∀ k, (Bytes.zeros type.byteSize).getD k 0 = 0 := fun k => by
    rw [Bytes.zeros, Array.getD_eq_getD_getElem?, Array.getElem?_replicate]
    split <;> rfl
  simp only [Bytes.word, zero]
  rfl

namespace Gradient
variable {w w' : Workspace} {objective t d : Node} {adjoints adjoints' : Adjoints}

/-- What is collected for a target: the gradient found, or zeros. -/
def Collected [Memory] (w : Workspace) (adjoints : Adjoints) (t d : Node) : Prop :=
  adjoints.lookup t.id = some d ∧ d.shape = t.shape ∨
    adjoints.lookup t.id = none ∧ ∃ w₁ w₂ bytes, leafBytes t.type .null = .ok bytes ∧
      Workspace.Holds w₁ w₂ d t.type bytes ∧ w₂.Grows w

theorem collect_collected [Memory] {targets ds : List Node} (exact : w.Exact) (valid : Adjoints.Valid w adjoints)
    (own : ∀ t ∈ targets, t ∈ w.graph.nodes) (ran : collect adjoints targets w = .ok ds w') :
    w.Grows w' ∧ List.Forall₂ (Collected w' adjoints) targets ds := by
  induction targets generalizing ds w with
  | nil =>
    obtain ⟨rfl, rfl⟩ := pure_eq_ok.mp ran
    exact ⟨.refl w, .nil⟩
  | cons t rest ih =>
    have mine := own t (List.mem_cons_self ..)
    have others : ∀ t ∈ rest, t ∈ w.graph.nodes := fun t member => own t (List.mem_cons_of_mem _ member)
    cases found : adjoints.lookup t.id with
    | some g =>
      simp only [collect, found, bind_eq_ok, pure_eq_ok] at ran
      obtain ⟨_, _, ⟨rfl, rfl⟩, later, _, ran, rfl, rfl⟩ := ran
      obtain ⟨grows, collected⟩ := ih exact valid others ran
      exact ⟨grows, .cons (.inl ⟨found, (valid.lookup exact mine found).2⟩) collected⟩
    | none =>
      simp only [collect, found, bind_eq_ok, pure_eq_ok] at ran
      obtain ⟨d, w₁, made, later, _, ran, rfl, rfl⟩ := ran
      obtain ⟨bytes, filled, holds⟩ := exact.constant made
      obtain ⟨grows, collected⟩ := ih holds.exact (valid.grown holds.grows)
        (fun t member => holds.grows.nodes t (others t member)) ran
      exact ⟨holds.grows.trans grows, .cons (.inr ⟨found, w, w₁, bytes, filled, holds, grows⟩) collected⟩

section
variable {R : Type} [CommRing R] {given : Node → Option (Tensor R)} {v : Index → R}

/-- The seed of a sweep: one at the objective, unless no target is below it. -/
def Seeded (given : Node → Option (Tensor R)) (objective : Node) (found : List Node) (adjoints : Adjoints) : Prop :=
  (∃ one, adjoints = [(objective.id, one)] ∧ ∀ i, Shape.Contains objective.shape i → (one.exact given).cell i = 1) ∨
    ¬objective.isIn found = true ∧ adjoints = []

theorem share_seeded {found : List Node} (seeded : Seeded given objective found adjoints)
    (other : t.id ≠ objective.id) : share given t v adjoints t = 0 := by
  refine share_none ?_
  rcases seeded with ⟨one, rfl, _⟩ | ⟨_, rfl⟩
  · rw [List.lookup_cons, beq_false_of_ne other]
    rfl
  · rfl

/-- With its seed a sweep starts from the tangent of the objective. -/
theorem shares_seeded {found nodes : List Node} (exact : w.Exact) (fit : Fit given) (target : t ∈ w.graph.nodes)
    (own : ∀ m ∈ nodes, m ∈ w.graph.nodes) (distinct : nodes.Nodup) (member : objective ∈ nodes)
    (relevant : objective.Reaches t → objective.isIn found = true) (seeded : Seeded given objective found adjoints) :
    shares given t v adjoints nodes =
      ∑ i ∈ Shape.box objective.shape, (dual given t v objective).tangent.cell i := by
  have mine := own objective member
  have shape := exact.dual_shape (v := v) fit target mine
  have nothing : shares given t v [] nodes = 0 := by
    refine List.sum_eq_zero fun r member => ?_
    obtain ⟨m, _, rfl⟩ := List.mem_map.mp member
    rfl
  rcases seeded with ⟨one, rfl, ones⟩ | ⟨apart, rfl⟩
  · have others : ∀ m ∈ nodes, m ≠ objective →
        share given t v [(objective.id, one)] m = share given t v [] m := fun m inside other => by
      have differ : m.id ≠ objective.id := fun same =>
        other (exact.ordered.arena.identity (own m inside) mine same)
      refine share_congr ?_
      rw [List.lookup_cons, beq_false_of_ne differ]
    have first : share given t v [(objective.id, one)] objective =
        share given t v [] objective + dot (one.exact given) (dual given t v objective).tangent := by
      rw [share_some List.lookup_cons_self, share_none rfl, zero_add]
    rw [shares_changed distinct member others first, nothing, zero_add, dot, Tensor.tangent_shape, shape]
    exact Finset.sum_congr rfl fun i inside => by rw [ones i (Shape.mem_box.mp inside), one_mul]
  · have still := exact.tangent_still (v := v) fit target mine (fun path => apart (relevant path)) ⟨[], fun _ => 1⟩
    rw [nothing, ← still, dot, Tensor.tangent_shape, shape]
    exact Finset.sum_congr rfl fun i _ => one_mul _

theorem tangent_cells {x : Tensor (DualNumber R)} (single : Shape.volume x.shape = 1) :
    x.cells.map TrivSqZeroExt.snd = [∑ i ∈ Shape.box x.shape, x.tangent.cell i] := by
  obtain ⟨i, only⟩ := List.length_eq_one_iff.mp ((Shape.length_indices x.shape).trans single)
  rw [← Tensor.total_eq_sum, Tensor.cells, only]
  simp [Tensor.total, Tensor.tangent, Tensor.map]

end

/-- Building is a seed, a sweep and a collection. -/
theorem build_cases [Memory] {rules : Rules} {targets ds : List Node}
    (ran : build rules objective targets w = .ok ds w') : ∃ seed w₁ adjoints w₂,
      (objective.isIn (relevant targets (Node.order [objective])) = true ∧ (∃ one, seed = [(objective.id, one)] ∧
          Building.constant (.dims objective.shape) (.elementType objective.elementType) (.int 1) w = .ok one w₁) ∨
        ¬objective.isIn (relevant targets (Node.order [objective])) = true ∧ seed = [] ∧ w₁ = w) ∧
      sweep rules (relevant targets (Node.order [objective])) (Node.order [objective]).reverse seed w₁ =
        .ok adjoints w₂ ∧ collect adjoints targets w₂ = .ok ds w' := by
  unfold build at ran
  dsimp only at ran
  split at ran
  · rename_i inside
    simp only [bind_eq_ok, pure_eq_ok] at ran
    obtain ⟨one, w₁, made, _, _, ⟨rfl, rfl⟩, adjoints, w₂, swept, collected⟩ := ran
    exact ⟨_, _, adjoints, w₂, .inl ⟨inside, one, rfl, made⟩, swept, collected⟩
  · rename_i apart
    simp only [bind_eq_ok, pure_eq_ok] at ran
    obtain ⟨_, _, ⟨rfl, rfl⟩, adjoints, w₂, swept, collected⟩ := ran
    exact ⟨_, _, adjoints, w₂, .inr ⟨apart, rfl, rfl⟩, swept, collected⟩

section
variable {R : Type} [CommRing R] {element : UInt32 → R}

theorem seed_seeded [Memory] (values : Node → Index → R) {seed : Adjoints} {found : List Node} (exact : w.Exact)
    (own : objective ∈ w.graph.nodes)
    (single : Shape.volume objective.shape = 1) (floating : objective.elementType = .float32)
    (one : element 0x3f800000 = 1)
    (made : objective.isIn found = true ∧ (∃ one, seed = [(objective.id, one)] ∧
        Building.constant (.dims objective.shape) (.elementType objective.elementType) (.int 1) w = .ok one w') ∨
      ¬objective.isIn found = true ∧ seed = [] ∧ w' = w) :
    w.Grows w' ∧ w'.Exact ∧ Adjoints.Valid w' seed ∧
      ∀ w'', w'.Grows w'' → Seeded (Node.assigned w''.store element values) objective found seed := by
  rcases made with ⟨_, d, rfl, made⟩ | ⟨apart, rfl, rfl⟩
  · obtain ⟨bytes, filled, holds⟩ := exact.constant made
    refine ⟨holds.grows, holds.exact, ?_, fun w'' grows => .inl ⟨d, rfl, fun i inside => ?_⟩⟩
    · exact Adjoints.Valid.cons (by simp [Adjoints.Valid]) (holds.grows.nodes _ own) holds.member holds.shape
    · rw [floating] at filled
      rw [holds.cell grows element values i, leafBytes_one single filled inside, one]
  · exact ⟨.refl _, exact, by simp [Adjoints.Valid], fun _ _ => .inr ⟨apart, rfl⟩⟩

variable {values : Node → Index → R}

/-- Every gradient that is built, paired with a tangent of its target, gives the tangent of the objective. -/
theorem build_derivative [Memory] {targets ds : List Node} (exact : w.Exact) (own : objective ∈ w.graph.nodes)
    (targeted : ∀ t ∈ targets, t ∈ w.graph.nodes) (single : Shape.volume objective.shape = 1)
    (floating : objective.elementType = .float32) (zero : element 0 = 0) (one : element 0x3f800000 = 1)
    (ran : build .standard objective targets w = .ok ds w') :
    List.Forall₂ (fun t d => d.shape = t.shape ∧ ∀ v : Index → R,
      ((dual (Node.assigned w'.store element values) t v objective).cells.map TrivSqZeroExt.snd) =
        [dot (d.exact (Node.assigned w'.store element values)) ⟨t.shape, v⟩]) targets ds := by
  obtain ⟨seed, w₁, adjoints, w₂, seeding, swept, collected⟩ := build_cases ran
  obtain ⟨grows₁, exact₁, valid₁, seeded⟩ := seed_seeded values exact own single floating one seeding
  have fit := Node.assigned_fit w'.store element values
  have arena := exact.ordered.arena
  have only : ∀ o ∈ [objective], o ∈ w.graph.nodes := by simpa using own
  have settled := Node.order_settled arena only
  have inside : ∀ m ∈ (Node.order [objective]).reverse, m ∈ w.graph.nodes := fun m member =>
    Node.order_own arena only m (List.mem_reverse.mp member)
  have relevant : ∀ t ∈ targets, ∀ m ∈ (Node.order [objective]).reverse, m.Reaches t →
      m.isIn (relevant targets (Node.order [objective])) = true := fun t target m member path => by
    have found := mem_relevant target settled m member path
    rw [List.reverse_reverse] at found
    exact Node.isIn_of_mem found
  have sweeps := fun t (target : t ∈ targets) (v : Index → R) => sweep_shares (v := v) fit settled
    (fun m member => grows₁.nodes m (inside m member)) (grows₁.nodes t (targeted t target)) (relevant t target) exact₁
    valid₁ swept
  cases targets with
  | nil =>
    obtain ⟨rfl, _⟩ := pure_eq_ok.mp collected
    exact .nil
  | cons first others =>
    obtain ⟨grows₂, exact₂, valid₂, _⟩ := sweeps first (List.mem_cons_self ..) fun _ => 0
    obtain ⟨grows₃, entries⟩ := collect_collected exact₂ valid₂
      (fun t target => (grows₁.trans grows₂).nodes t (targeted t target)) collected
    have seeded := seeded w' (grows₂.trans grows₃)
    have member : objective ∈ (Node.order [objective]).reverse :=
      List.mem_reverse.mpr (Node.mem_order_of_mem arena only (List.mem_singleton_self _))
    have whole := (List.forall₂_and_left _ _).mpr ⟨fun t (target : t ∈ first :: others) => target, entries⟩
    refine whole.imp fun t d ⟨target, entry⟩ => ?_
    have mine := targeted t target
    have shared : ∀ v : Index → R, share (Node.assigned w'.store element values) t v adjoints t =
        ∑ i ∈ Shape.box objective.shape,
          (dual (Node.assigned w'.store element values) t v objective).tangent.cell i := by
      intro v
      obtain ⟨_, _, _, within, outside⟩ := sweeps t target v
      rw [← shares_seeded exact fit mine inside settled.nodup member (relevant t target objective member) seeded]
      by_cases below : t ∈ (Node.order [objective]).reverse
      · exact within below
      · have other : t.id ≠ objective.id := fun same => below (arena.identity mine own same ▸ member)
        rw [outside below, share_seeded seeded other, add_zero]
    have moved : ∀ v : Index → R,
        (dual (Node.assigned w'.store element values) t v t).tangent = ⟨t.shape, v⟩ := fun v => by
      rw [Workspace.Exact.dual_self, Tensor.moved_tangent, exact.exact_shape fit mine]
    have size : ∀ v : Index → R,
        (dual (Node.assigned w'.store element values) t v objective).shape = objective.shape := fun v =>
      exact.dual_shape fit mine own
    rcases entry with ⟨found, shape⟩ | ⟨absent, w₃, w₄, bytes, filled, holds, grows⟩
    · refine ⟨shape, fun v => ?_⟩
      rw [tangent_cells (by rw [size, single]), size, ← shared v, share_some found, moved]
    · refine ⟨holds.shape, fun v => ?_⟩
      have nothing : ∀ i, (d.exact (Node.assigned w'.store element values)).cell i = 0 := fun i => by
        rw [holds.cell grows, leafBytes_null filled, zero]
      rw [tangent_cells (by rw [size, single]), size, ← shared v, share_none absent]
      simp only [dot, nothing, zero_mul, Finset.sum_const_zero]

theorem targetNodes_nodes {graph : Nat} {targets ts : List Node}
    (found : targetNodes graph (targets.map .node) = .ok ts) : ts = targets := by
  induction targets generalizing ts with
  | nil =>
    cases found
    rfl
  | cons t rest ih =>
    rw [List.map_cons, targetNodes] at found
    split at found
    · obtain ⟨others, later, made⟩ := Result.bind_eq_ok.mp found
      cases made
      rw [ih later]
    · cases found

/-- An objective is a single element of single precision. -/
theorem ofValues_cases [Memory] {rules : Rules} {wrt : Value} {targets ds : List Node}
    (listed : wrt.items? = some (targets.map .node)) (ran : ofValues rules (.node objective) wrt w = .ok ds w') :
    Shape.volume objective.shape = 1 ∧ objective.elementType = .float32 ∧
      build rules objective targets w = .ok ds w' := by
  unfold ofValues at ran
  split at ran
  · cases listed
  · simp only [listed, Building.asNode, bind_eq_ok, pure_eq_ok] at ran
    obtain ⟨_, _, ⟨rfl, rfl⟩, _, _, ⟨rfl, rfl⟩, ran⟩ := ran
    split at ran
    · obtain ⟨_, _, thrown, _⟩ := bind_eq_ok.mp ran
      cases throw_eq_ok thrown
    · rename_i single
      split at ran
      · obtain ⟨_, _, thrown, _⟩ := bind_eq_ok.mp ran
        cases throw_eq_ok thrown
      · rename_i floating
        simp only [bind_eq_ok, of_eq_ok] at ran
        obtain ⟨ts, _, ⟨found, rfl⟩, ran⟩ := ran
        cases targetNodes_nodes found
        refine ⟨not_not.mp single, ?_, ran⟩
        cases type : objective.elementType with
        | float32 => rfl
        | int32 => simp [type, ElementType.isFloating] at floating

/-- Reverse mode computes the derivative: the value of each gradient, paired with any tensor of its target's
shape, is the coefficient of what squares to zero when the objective is evaluated with the output of the
target moved by that tensor. -/
theorem ofValues_derivative [Memory] {wrt : Value} {targets ds : List Node} (built : w.Built (· = .standard))
    (polynomial : ∀ n ∈ w.graph.nodes, n.Polynomial) (own : objective ∈ w.graph.nodes)
    (targeted : ∀ t ∈ targets, t ∈ w.graph.nodes) (listed : wrt.items? = some (targets.map .node))
    (zero : element 0 = 0) (one : element 0x3f800000 = 1)
    (ran : ofValues .standard (.node objective) wrt w = .ok ds w') :
    List.Forall₂ (fun t d => d.shape = t.shape ∧ ∀ v : Index → R,
      ((dual (Node.assigned w'.store element values) t v objective).cells.map TrivSqZeroExt.snd) =
        [dot (d.exact (Node.assigned w'.store element values)) ⟨t.shape, v⟩]) targets ds := by
  obtain ⟨single, floating, made⟩ := ofValues_cases listed ran
  exact build_derivative (built.exact polynomial) own targeted single floating zero one made

end

end Gradient
/-! The sum of the squares of `x + y`, moved at a variable and at the inner sum. -/

namespace Sample

def energy : Node := ⟨⟨0, 4⟩, "sum", [square], [("axes", .dims [0])], ⟨.float32, []⟩, none⟩

def energyWorkspace : Workspace :=
  { workspace with graph := { workspace.graph with
      nodes := #[x, y, total, square, energy]
      memo := (.interior "sum" [3] [("axes", .dims [0])], energy) :: workspace.graph.memo } }

theorem mem_energyWorkspace {n : Node} :
    n ∈ energyWorkspace.graph.nodes ↔ n = x ∨ n = y ∨ n = total ∨ n = square ∨ n = energy := by
  simp only [energyWorkspace, List.mem_toArray, List.mem_cons, List.not_mem_nil, or_false]

theorem energyWorkspace_built : energyWorkspace.Built (· = .standard) := by
  have last : Building.call "sum" [.node square] (.dictionary [(.text "axes", .ints [0])]) workspace =
      .ok energy energyWorkspace := rfl
  refine built.call (fun n member _ => ?_) last
  cases List.mem_singleton.mp member
  exact mem_nodes.mpr (.inr (.inr (.inr rfl)))

theorem order_energy : Node.order [energy] = [x, y, total, square, energy] := by
  rw [Node.order_eq]
  rfl

/-- The only word of a constant is one. -/
def wordValue (word : UInt32) : Int := if word = 0x3f800000 then 1 else 0

def energyLeaves (store : Store) : Node → Option (Tensor Int) :=
  Node.assigned store wordValue fun n _ => n.id.index + 2

theorem energy_returns :
    ∃ ds w', Gradient.ofValues .standard (.node energy) (.list [.node x, .node total]) energyWorkspace = .ok ds w' := by
  have built : Gradient.ofValues .standard (.node energy) (.list [.node x, .node total]) energyWorkspace =
      Gradient.build .standard energy [x, total] energyWorkspace := rfl
  rw [built]
  refine Program.exists_of_returns ?_
  rw [Gradient.build, order_energy]
  decide +kernel

theorem targets_energyWorkspace : ∀ t ∈ [x, total], t ∈ energyWorkspace.graph.nodes := by
  intro t member
  rcases List.mem_pair.mp member with rfl | rfl
  · exact mem_energyWorkspace.mpr (.inl rfl)
  · exact mem_energyWorkspace.mpr (.inr (.inr (.inl rfl)))

theorem ofValues_derivative_energy :
    ∃ ds w', Gradient.ofValues .standard (.node energy) (.list [.node x, .node total]) energyWorkspace = .ok ds w' ∧
      List.Forall₂ (fun t d => d.shape = t.shape ∧ ∀ v : Index → Int,
        (dual (energyLeaves w'.store) t v energy).cells.map TrivSqZeroExt.snd =
          [dot (d.exact (energyLeaves w'.store)) ⟨t.shape, v⟩]) [x, total] ds := by
  obtain ⟨ds, w', ran⟩ := energy_returns
  refine ⟨ds, w', ran, Gradient.ofValues_derivative energyWorkspace_built ?_ ?_ targets_energyWorkspace rfl rfl rfl ran⟩
  · intro n member
    rcases mem_energyWorkspace.mp member with rfl | rfl | rfl | rfl | rfl
    · exact .inl rfl
    · exact .inl rfl
    · exact .inr ⟨.binary .add, by decide, rfl, nofun⟩
    · exact .inr ⟨.binary .mul, by decide, rfl, nofun⟩
    · exact .inr ⟨.sum, by decide, rfl, nofun⟩
  · exact mem_energyWorkspace.mpr (.inr (.inr (.inr (.inr rfl))))

end Sample
end TensorDag
