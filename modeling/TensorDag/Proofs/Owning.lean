import TensorDag.Graph.Calls
import TensorDag.Proofs.Memo
import TensorDag.Proofs.Parallel

/-!
What callers ask of a graph: leaves, calls, operators and gradients. Whether a request returns or fails, the
graph behind it is right again and has all that was there.
-/
namespace TensorDag
open Program

namespace Workspace
variable {rules : ShapeRules} {w v u : Workspace} {n : Node}

/-- A node that may be in a caller's hands: one of this graph is there, others are of other graphs. -/
def Owns (w : Workspace) (n : Node) : Prop := n.id.graph = w.graph.id → n ∈ w.graph.nodes

theorem Keeps.owns (keeps : w.Keeps v) (owns : w.Owns n) : v.Owns n :=
  fun same => keeps.mem (owns (same.trans keeps.graph))

/-- A workspace that is right and has all that another one has. -/
structure Advances (rules : ShapeRules) (w v : Workspace) : Prop where
  coherent : v.Coherent (· = rules)
  keeps : w.Keeps v
  store : w.store.Extends v.store

theorem Advances.refl (coherent : w.Coherent (· = rules)) : w.Advances rules w := ⟨coherent, .refl w, .refl _⟩

theorem Advances.trans (first : w.Advances rules v) (second : v.Advances rules u) : w.Advances rules u :=
  ⟨second.coherent, first.keeps.trans second.keeps, first.store.trans second.store⟩

end Workspace

/-- The nodes of a value that operators go through: the value itself, or the cells of an array. -/
def Value.Held (held : Node → Prop) (v : Value) : Prop :=
  ∀ n, (v = .node n ∨ ∃ type content, v = .array type content ∧ .node n ∈ content.leaves) → held n

namespace Building
open Workspace

/-- A builder that, given some nodes, leaves a graph right and with all that was there, also where it fails, and
that returns nodes of this graph or of others. -/
structure Careful (rules : ShapeRules) (held : Node → Prop) {α : Type} (form : Form α) (x : Building α) : Prop where
  advances : ∀ w, w.Coherent (· = rules) → (∀ n, held n → w.Owns n) →
    Ensures x w (fun a v => w.Advances rules v ∧ ∀ n ∈ form.nodes a, v.Owns n) (w.Advances rules)

namespace Careful
variable {α β : Type} {rules : ShapeRules} {held wider : Node → Prop} {form : Form α} {form' : Form β}

theorem pure {a : α} (given : ∀ n ∈ form.nodes a, held n) : Careful rules held form (Pure.pure a) :=
  ⟨fun _ coherent owns => Ensures.pure ⟨.refl coherent, fun n member => owns n (given n member)⟩⟩

theorem throw (e : Error) : Careful rules held form (throw e) :=
  ⟨fun _ coherent _ => Ensures.throw (.refl coherent)⟩

theorem mono {x : Building α} (careful : Careful rules held form x) (sub : ∀ n, held n → wider n) :
    Careful rules wider form x :=
  ⟨fun w coherent owns => careful.advances w coherent fun n given => owns n (sub n given)⟩

theorem bind {x : Building α} {f : α → Building β} (first : Careful rules held form x)
    (rest : ∀ a, Careful rules (fun n => held n ∨ n ∈ form.nodes a) form' (f a)) :
    Careful rules held form' (x >>= f) := by
  refine ⟨fun w coherent owns => .bind ?_⟩
  refine (first.advances w coherent owns).weaken (fun a v ⟨here, made⟩ => ?_) fun _ here => here
  have known : ∀ n, held n ∨ n ∈ form.nodes a → v.Owns n := by
    intro n given
    rcases given with old | new
    · exact here.keeps.owns (owns n old)
    · exact made n new
  exact ((rest a).advances v here.coherent known).weaken
    (fun _ _ ⟨there, made⟩ => ⟨here.trans there, made⟩) fun _ => here.trans

theorem step {x : Building Node} {f : Node → Building β} (first : Careful rules held .node x)
    (rest : ∀ m, Careful rules (fun n => held n ∨ n = m) form' (f m)) : Careful rules held form' (x >>= f) :=
  first.bind fun m => (rest m).mono fun n => Or.imp id fun same => by simp [Form.node, same]

theorem of_bind {result : Result α} {f : α → Building β}
    (rest : ∀ a, result = .ok a → Careful rules held form' (f a)) : Careful rules held form' (of result >>= f) := by
  cases result with
  | ok a => exact rest a rfl
  | error e => exact throw e

theorem asNode {v : Value} (given : ∀ n, v = .node n → held n) : Careful rules held .node (asNode v) := by
  cases v with
  | node n => exact pure (by simpa [Form.node] using given n rfl)
  | _ => exact throw _

/-! What makes single nodes. -/

theorem single_node {x : Building Node} (unchanged : ∀ w, Ensures x w (fun _ _ => True) fun v => v = w)
    (made : ∀ w v n, w.Coherent (· = rules) → (∀ n, held n → w.Owns n) → x w = .ok n v →
      (v.Coherent (· = rules) ∧ w.Keeps v ∧ n ∈ v.graph.nodes) ∧ w.store.Extends v.store) :
    Careful rules held .node x := by
  refine ⟨fun w coherent owns => (unchanged w).ran.weaken (fun n v ran => ?_) fun v same => ?_⟩
  · obtain ⟨⟨next, keeps, member⟩, store⟩ := made w v n coherent owns ran.2
    refine ⟨⟨next, keeps, store⟩, fun m here => ?_⟩
    obtain rfl := List.mem_singleton.mp here
    exact fun _ => member
  · obtain ⟨rfl, _⟩ := same
    exact .refl coherent

theorem constant [Memory] (shape elementType data : Value) :
    Careful rules held .node (constant shape elementType data) := by
  refine single_node (constant_unchanged shape elementType data) fun w v n coherent _ ran => ⟨coherent.constant ran, ?_⟩
  exact (Leads.constant (.refl w) ran).store

theorem variableOf [Memory] (shape elementType data : Value) :
    Careful rules held .node (variableOf shape elementType data) := by
  refine single_node (variableOf_unchanged shape elementType data) fun w v n coherent _ ran =>
    ⟨coherent.variableOf ran, ?_⟩
  obtain ⟨type, bytes, _, _, rfl, rfl⟩ := variableOf_cases ran
  exact Store.extends_insert ..

theorem placeholder (shape elementType : Value) : Careful rules held .node (placeholder shape elementType) := by
  refine single_node (placeholder_unchanged shape elementType) fun w v n coherent _ ran =>
    ⟨coherent.placeholder ran, ?_⟩
  obtain ⟨type, _, rfl, rfl⟩ := placeholder_cases ran
  exact .refl _

section calls
variable (proper : rules.Proper)
include proper

theorem call {kind : String} {inputs : List Value} (params : Value) (given : ∀ n, .node n ∈ inputs → held n) :
    Careful rules held .node (call kind inputs params) := by
  refine single_node (call_unchanged kind inputs params) fun w v n coherent owns ran => ⟨?_, ?_⟩
  · refine coherent.call (fun other same => ?_) (fun x member => owns x (given x member)) ran
    cases same
    exact proper
  · obtain ⟨_, _, rfl⟩ := call_cases ran
    exact .refl _

theorem apply {kind : Kind} {inputs : List Node} (entries : Entries) (given : ∀ n ∈ inputs, held n) :
    Careful rules held .node (apply kind inputs entries) := by
  rw [apply_eq_call]
  refine call proper _ fun n member => ?_
  obtain ⟨m, input, same⟩ := List.mem_map.mp member
  cases same
  exact given n input

theorem on (kind : Kind) {first : Value} {others : List Value} (entries : Entries)
    (given : ∀ n, first = .node n → held n) (given' : ∀ n, .node n ∈ others → held n) :
    Careful rules held .node (on kind first others entries) := by
  refine (asNode given).step fun m => call proper _ fun n member => ?_
  rcases List.mem_cons.mp member with same | other
  · exact .inr (Value.node.inj same)
  · exact .inl (given' n other)

/-! Operators. -/

theorem single [Memory] (op : BinaryKind) {a b : Value} (given : ∀ n, a = .node n → held n)
    (given' : ∀ n, b = .node n → held n) : Careful rules held .node (single op a b) := by
  unfold Building.single
  split
  · rename_i n m
    refine call proper _ fun x member => ?_
    rcases List.mem_pair.mp member with same | same
    · exact given x same.symm
    · exact given' x same.symm
  · rename_i n _ _
    split
    · refine (constant ..).step fun m => call proper _ fun x member => ?_
      rcases List.mem_pair.mp member with same | same
      · exact .inl (given x same.symm)
      · exact .inr (Value.node.inj same)
    · exact throw _
  · rename_i n _ _
    split
    · refine (constant ..).step fun m => call proper _ fun x member => ?_
      rcases List.mem_pair.mp member with same | same
      · exact .inr (Value.node.inj same)
      · exact .inl (given' x same.symm)
    · exact throw _
  · exact throw _

end calls

theorem forM {f : Value → Building PUnit} {items : List Value}
    (each : ∀ v ∈ items, Careful rules held (.plain _) (f v)) : Careful rules held (.plain _) (items.forM f) := by
  induction items with
  | nil => exact pure (by simp [Form.plain])
  | cons v rest ih =>
    rw [forM_cons]
    obtain ⟨here, later⟩ := List.forall_mem_cons.mp each
    exact here.bind fun _ => (ih later).mono fun _ => .inl

theorem overCells {content : Value} {make : Value → Building Node}
    (each : ∀ v ∈ content.leaves, Careful rules held .node (make v)) :
    Careful rules held .node (overCells content make) := by
  cases content with
  | list items =>
    refine (forM fun v member => ?_).bind fun _ => throw _
    exact (each v member).bind fun _ => pure (by simp [Form.plain])
  | _ => exact each _ (List.mem_singleton_self _)

section operators
variable (proper : rules.Proper)
include proper

theorem operator [Memory] (op : BinaryKind) {a b : Value} (given : a.Held held) (given' : b.Held held) :
    Careful rules held .node (operator op a b) := by
  unfold Building.operator
  split
  · rename_i n type content
    refine overCells fun v cell => single proper op (fun m same => given m (.inl same)) fun m same => ?_
    exact given' m (.inr ⟨type, content, rfl, same ▸ cell⟩)
  · rename_i type content n
    refine overCells fun v cell => single proper op (fun m same => ?_) fun m same => given' m (.inl same)
    exact given m (.inr ⟨type, content, rfl, same ▸ cell⟩)
  · exact single proper op (fun m same => given m (.inl same)) fun m same => given' m (.inl same)

theorem negative {v : Value} (given : ∀ n, v = .node n → held n) : Careful rules held .node (negative v) := by
  unfold Building.negative
  split
  · rename_i n
    exact apply proper [] (by simpa using given n rfl)
  all_goals exact throw _

theorem matrixOperator {a b : Value} (given : ∀ n, a = .node n → held n) (given' : ∀ n, b = .node n → held n) :
    Careful rules held .node (matrixOperator a b) := by
  unfold Building.matrixOperator
  split
  · refine call proper _ fun x member => ?_
    rcases List.mem_pair.mp member with same | same
    · exact given x same.symm
    · exact given' x same.symm
  all_goals exact throw _

end operators
end Careful

/-- Builders that are parallel to some others are careful. -/
theorem Parallel.careful [Memory] {α : Type} {rules : ShapeRules} (proper : rules.Proper) {pairs : Pairs}
    {form : Form α} {x y : Building α} (parallel : Parallel pairs form x y) :
    ∀ {held : Node → Prop}, (∀ p ∈ pairs, held p.1) → Careful rules held form x := by
  induction parallel with
  | @pure α pairs form a b agree known =>
    intro held given
    refine .pure fun n member => ?_
    obtain ⟨m, pair⟩ := Parallel.exists_pair known n member
    exact given _ pair
  | throw e e' => exact fun _ => .throw e
  | constant shape elementType data => exact fun _ => .constant ..
  | apply kind es known bare =>
    intro held given
    refine .apply proper es fun n member => ?_
    obtain ⟨m, pair⟩ := Parallel.exists_pair known n member
    exact given _ pair
  | bind first rest ih ihs =>
    intro held given
    refine (ih given).bind fun a => ihs a a (Form.refl _ a) fun p member => ?_
    rcases List.mem_append.mp member with new | old
    · exact .inr (List.of_mem_zip new).1
    · exact .inl (given p old)

end Building

namespace Gradient
open Building (Careful)

variable {shapes : ShapeRules} {held : Node → Prop}

/-- Rules that come with the library, and rules that are careful with a node, its inputs and its gradient. -/
def Rule.Careful (shapes : ShapeRules) : Rule → Prop
  | .custom _ run => ∀ n g : Node, Building.Careful shapes (· ∈ n :: g :: n.inputs) .contributions (run n (.node g))
  | _ => True

def Rules.Careful (shapes : ShapeRules) (rules : Rules) : Prop := ∀ entry ∈ rules, entry.2.Careful shapes

theorem Rules.standard_careful : Rules.standard.Careful shapes := by
  intro entry member
  obtain ⟨kind, _, rfl⟩ := List.mem_map.mp member
  dsimp only
  split <;> trivial

section sweep
variable (proper : shapes.Proper)
include proper

theorem Rule.Careful.run [Memory] {rule : Rule} (careful : rule.Careful shapes) {n g : Node} (own : held n)
    (inputs : ∀ x ∈ n.inputs, held x) (known : held g) :
    Building.Careful shapes held .contributions (rule.run n (.node g)) := by
  have given : ∀ m ∈ n :: g :: n.inputs, held m := by
    simpa only [List.forall_mem_cons] using ⟨own, known, inputs⟩
  have among : Building.Careful shapes (· ∈ n :: g :: n.inputs) .contributions (rule.run n (.node g)) := by
    cases rule with
    | constant => exact .pure (by simp [Form.contributions])
    | standard kind =>
      have parallel : Building.Parallel ((n :: g :: n.inputs).map fun m => (m, m)) .contributions
          (standardRule kind n (.node g)) (standardRule kind n (.node g)) :=
        parallel_standardRule (by simp) (fun x input => by simp [input]) (by simp) rfl kind
      refine parallel.careful proper fun p member => ?_
      obtain ⟨m, here, rfl⟩ := List.mem_map.mp member
      exact here
    | custom name run => exact careful n g
  exact among.mono given

theorem careful_accumulate {adjoints : Adjoints} {x contribution : Node} (own : ∀ entry ∈ adjoints, held entry.2)
    (given : held contribution) : Building.Careful shapes held .adjoints (accumulate adjoints x contribution) := by
  have kept : ∀ {wider : Node → Prop} {g : Node}, (∀ n, held n → wider n) → wider g →
      Building.Careful shapes wider .adjoints (pure ((x.id, g) :: adjoints)) := by
    intro wider g sub here
    refine .pure fun n member => ?_
    obtain ⟨entry, listed, rfl⟩ := List.mem_map.mp member
    rcases List.mem_cons.mp listed with rfl | old
    · exact here
    · exact sub _ (own entry old)
  unfold accumulate
  split
  · rename_i g found
    obtain ⟨before, after, split, _⟩ := List.lookup_eq_some_iff.mp found
    have known : held g := own (x.id, g) (split ▸ by simp)
    exact (Careful.apply proper [] (by simp [known, given])).step fun total => kept (fun _ => .inl) (.inr rfl)
  · exact kept (fun _ => id) given

theorem careful_distribute (kind : String) (found : List Node) :
    ∀ {contributions : List (Node × Option Node)} {held : Node → Prop} {adjoints : Adjoints},
      (∀ x c, (x, some c) ∈ contributions → held c) → (∀ entry ∈ adjoints, held entry.2) →
        Building.Careful shapes held .adjoints (distribute kind found contributions adjoints)
  | [], held, adjoints, _, own => by
    refine .pure fun n member => ?_
    obtain ⟨entry, listed, rfl⟩ := List.mem_map.mp member
    exact own entry listed
  | (x, none) :: rest, held, adjoints, given, own => by
    unfold distribute
    exact careful_distribute kind found (fun y c member => given y c (List.mem_cons_of_mem _ member)) own
  | (x, some c) :: rest, held, adjoints, given, own => by
    have later := fun y d member => given y d (List.mem_cons_of_mem (x, some c) member)
    have here := given x c (List.mem_cons_self ..)
    unfold distribute
    split
    · split
      · refine (careful_accumulate proper own here).bind fun next => ?_
        refine careful_distribute kind found (fun y d member => .inl (later y d member)) fun entry member => ?_
        exact .inr (List.mem_map_of_mem member)
      · exact .throw _
    · exact careful_distribute kind found later own

theorem careful_sweep [Memory] {rules : Rules} (careful : rules.Careful shapes) (found : List Node) :
    ∀ {nodes : List Node} {held : Node → Prop} {adjoints : Adjoints},
      (∀ n ∈ nodes, held n ∧ ∀ x ∈ n.inputs, held x) → (∀ entry ∈ adjoints, held entry.2) →
        Building.Careful shapes held .adjoints (sweep rules found nodes adjoints)
  | [], held, adjoints, _, own => by
    refine .pure fun n member => ?_
    obtain ⟨entry, listed, rfl⟩ := List.mem_map.mp member
    exact own entry listed
  | n :: rest, held, adjoints, inside, own => by
    obtain ⟨⟨mine, inputs⟩, later⟩ := List.forall_mem_cons.mp inside
    unfold sweep
    split
    · rename_i g _ known
      obtain ⟨before, after, split, _⟩ := List.lookup_eq_some_iff.mp known
      have here : held g := own (n.id, g) (split ▸ by simp)
      refine .of_bind fun rule ruled => ?_
      split
      · exact careful_sweep careful found later own
      refine ((careful _ (Rules.mem_of_find ruled)).run proper mine inputs here).bind fun cs => ?_
      have handed : ∀ x c, (x, some c) ∈ n.inputs.zip cs → held c ∨ c ∈ Form.contributions.nodes cs := by
        intro x c member
        exact .inr (by simpa [Form.contributions] using (List.of_mem_zip member).2)
      have last : ∀ u : Unit, Building.Careful shapes (fun m => held m ∨ m ∈ Form.contributions.nodes cs) .adjoints (do
          sweep rules found rest (← distribute n.kind found (n.inputs.zip cs) adjoints)) := by
        refine fun _ => (careful_distribute proper n.kind found handed fun entry member => .inl (own entry member)).bind
          fun next => ?_
        refine careful_sweep careful found (fun m member => ?_) fun entry member => .inr (List.mem_map_of_mem member)
        exact ⟨.inl (.inl (later m member).1), fun x input => .inl (.inl ((later m member).2 x input))⟩
      dsimp only
      split
      · exact .throw _
      · exact last ()
    · exact careful_sweep careful found later own

omit proper in
theorem careful_collect [Memory] : ∀ {targets : List Node} {held : Node → Prop} {adjoints : Adjoints},
    (∀ entry ∈ adjoints, held entry.2) → Building.Careful shapes held .several (collect adjoints targets)
  | [], _, _, _ => .pure (by simp [Form.several])
  | t :: rest, held, adjoints, own => by
    have last : ∀ {wider : Node → Prop} {g : Node}, (∀ n, held n → wider n) → wider g →
        Building.Careful shapes wider .several (do return g :: (← collect adjoints rest)) := by
      intro wider g sub here
      refine (careful_collect fun entry member => sub _ (own entry member)).bind fun ds => .pure ?_
      simpa only [Form.several, id, List.forall_mem_cons] using ⟨.inl here, fun n member => .inr member⟩
    unfold collect
    split
    · rename_i g known
      obtain ⟨before, after, split, _⟩ := List.lookup_eq_some_iff.mp known
      exact last (fun _ => id) (own (t.id, g) (split ▸ by simp))
    · exact (Careful.constant ..).step fun g => last (fun _ => .inl) (.inr rfl)

theorem careful_build [Memory] {rules : Rules} (careful : rules.Careful shapes) (objective : Node) (targets : List Node)
    (own : ∀ n ∈ Node.order [objective], held n ∧ ∀ x ∈ n.inputs, held x) :
    Building.Careful shapes held .several (build rules objective targets) := by
  have last : ∀ {wider : Node → Prop} {seed : Adjoints}, (∀ n, held n → wider n) →
      (∀ entry ∈ seed, wider entry.2) → Building.Careful shapes wider .several (do
        collect (← sweep rules (relevant targets (Node.order [objective])) (Node.order [objective]).reverse seed)
          targets) := by
    intro wider seed sub seeded
    refine (careful_sweep proper careful _ (fun n member => ?_) seeded).bind fun adjoints => careful_collect ?_
    · obtain ⟨mine, inputs⟩ := own n (List.mem_reverse.mp member)
      exact ⟨sub n mine, fun x input => sub x (inputs x input)⟩
    · exact fun entry member => .inr (List.mem_map_of_mem member)
  unfold build
  dsimp only
  split
  · exact (Careful.constant ..).step fun one => last (fun _ => .inl) (by simp)
  · exact last (fun _ => id) (by simp)

/-- Gradients of an objective whose nodes are at hand are built with care. -/
theorem careful_ofValues [Memory] {rules : Rules} (careful : rules.Careful shapes) {objective : Value} (targets : Value)
    (own : ∀ n, objective = .node n → ∀ m ∈ Node.order [n], held m ∧ ∀ x ∈ m.inputs, held x) :
    Building.Careful shapes held .several (ofValues rules objective targets) := by
  have last : ∀ items, Building.Careful shapes held .several (do
      let objective ← Building.asNode objective
      if objective.type.volume ≠ 1 then throw (.shape (.objectiveVolume objective.type))
      if !objective.elementType.isFloating then throw (.shape (.objectiveType objective.type))
      build rules objective (← Building.of (targetNodes objective.id.graph items))) := by
    intro items
    cases objective with
    | node n =>
      change Building.Careful shapes held .several (if n.type.volume ≠ 1 then _ else
        if (!n.elementType.isFloating) = true then _ else
          Building.of (targetNodes n.id.graph items) >>= build rules n)
      split
      · exact .throw _
      split
      · exact .throw _
      · exact .of_bind fun ts _ => careful_build proper careful n ts (own n rfl)
    | _ => exact .throw _
  unfold ofValues
  split
  · exact last _
  · dsimp only
    split
    · exact last _
    · exact .throw _

end sweep
end Gradient
end TensorDag
