import TensorDag.Proofs.Carrying
import TensorDag.Proofs.Requests
import TensorDag.Proofs.Sharing

/-!
Rules that are registered while a graph grows. The type of an interior node is the one that the rule in force infers
when the node is made. A call that finds a node does not ask the rule of the day, so that a node may have a type that
the rule of its kind would no longer infer, but only where the kind was registered anew behind the call that made it.
-/
namespace TensorDag
open Program

namespace Program
variable {σ α : Type}

theorem final_of_error {x : EStateM Error σ α} {s s' : σ} {e : Error} (ran : x s = .error e s') : final x s = s' := by
  rw [final, ran]

theorem final_of_ok {x : EStateM Error σ α} {s s' : σ} {a : α} (ran : x s = .ok a s') : final x s = s' := by
  rw [final, ran]

end Program

/-- What callers do one after another with a graph and its rules, while buffers change in between. -/
inductive Deed
  | registers (kind : String) (rule : ShapeRule)
  | asks (r : Request)
  | stores (store : Store)

namespace Deed

def run [Memory] : Deed → Workspace → Workspace
  | registers kind rule, w =>
    match w.rules.register kind rule with
    | .ok rules => { w with rules }
    | .error _ => w
  | asks r, w => final r.run w
  | stores store, w => { w with store }

/-- Requests are for single nodes, with inputs that callers can have. -/
def Fits (w : Workspace) : Deed → Prop
  | registers _ _ => True
  | asks r => r.isPlain = true ∧ r.Fits w.rules w
  | stores store => w.store.Later store

end Deed

namespace Workspace
variable {start w v : Workspace} {deeds since : List Deed} {n : Node} {kind : String} {inputs : List Value}
  {given : Value}

/-- The workspaces that deeds lead to. -/
inductive Past [Memory] (start : Workspace) : List Deed → Workspace → Prop
  | nil : Past start [] start
  | next {deeds : List Deed} {w : Workspace} (past : Past start deeds w) (d : Deed) (fits : d.Fits w) :
    Past start (deeds ++ [d]) (d.run w)

/-- A node that a call made, by the rule that was in force then, and what was done since. -/
structure Made [Memory] (start : Workspace) (deeds since : List Deed) (n : Node) (rule : ShapeRule) : Prop where
  called : ∃ before inputs given u u', deeds = before ++ .asks (.call n.kind inputs given) :: since ∧
    start.Past before u ∧ Building.call n.kind inputs given u = .ok n u' ∧ n ∉ u.graph.nodes ∧
      u.rules.lookup n.kind = some rule
  inferred : rule.infer (n.inputs.map Node.type) n.params = .ok n.type

theorem Made.next [Memory] {rule : ShapeRule} (made : Made start deeds since n rule) (d : Deed) :
    Made start (deeds ++ [d]) (since ++ [d]) n rule := by
  obtain ⟨before, inputs, given, u, u', rfl, called⟩ := made.called
  exact ⟨⟨before, inputs, given, u, u', by rw [List.append_assoc, List.cons_append], called⟩, made.inferred⟩

/-- A node that some call made; its rule is in force unless its kind was registered since. -/
def Dated [Memory] (start : Workspace) (deeds : List Deed) (w : Workspace) (n : Node) : Prop :=
  ∃ since rule, Made start deeds since n rule ∧
    ((∀ r, .registers n.kind r ∉ since) → w.rules.lookup n.kind = some rule)

theorem Dated.next [Memory] (dated : Dated start deeds w n) {d : Deed}
    (same : (∀ r, d ≠ .registers n.kind r) → (d.run w).rules.lookup n.kind = w.rules.lookup n.kind) :
    Dated start (deeds ++ [d]) (d.run w) n := by
  obtain ⟨since, rule, made, ruled⟩ := dated
  refine ⟨since ++ [d], rule, made.next d, fun none => ?_⟩
  rw [same fun r here => none r (by simp [here])]
  exact ruled fun r member => none r (List.mem_append_left _ member)

/-- What a deed makes of a workspace whose memo is right: the memo stays right, and a node that was not there is a leaf,
or a call made it. -/
structure Onward (w v : Workspace) (d : Deed) : Prop where
  coherent : v.Coherent ShapeRules.Proper
  rules : ∀ kind, (∀ r, d ≠ .registers kind r) → v.rules.lookup kind = w.rules.lookup kind
  nodes : ∀ m ∈ v.graph.nodes, m ∈ w.graph.nodes ∨ m.isLeaf = true ∨
    ∃ inputs given, d = .asks (.call m.kind inputs given) ∧ Building.call m.kind inputs given w = .ok m v

theorem Onward.refl (coherent : w.Coherent ShapeRules.Proper) (d : Deed) : Onward w w d :=
  ⟨coherent, fun _ _ => rfl, fun _ => .inl⟩

theorem onward_one (coherent : w.Coherent ShapeRules.Proper) {x : Building Node} {d : Deed}
    (unchanged : Ensures x w (fun _ _ => True) fun v => v = w) (made : ∀ n v, x w = .ok n v → Onward w v d) :
    Onward w (final (do return [← x]) w) d := by
  cases ran : x w with
  | ok n v =>
    have returned : (do return [← x] : Building (List Node)) w = .ok [n] v :=
      Program.bind_eq_ok.mpr ⟨n, v, ran, rfl⟩
    rw [final_of_ok returned]
    exact made n v ran
  | error e v =>
    have failed : (do return [← x] : Building (List Node)) w = .error e v := bind_eq_error.mpr (.inl ran)
    rw [final_of_error failed, unchanged.of_error ran]
    exact .refl coherent d

theorem onward_leaf {d : Deed} (coherent : v.Coherent ShapeRules.Proper) (rules : v.rules = w.rules)
    (leaf : n.isLeaf = true) (nodes : v.graph.nodes = w.graph.nodes.push n) : Onward w v d where
  coherent := coherent
  rules _ _ := by rw [rules]
  nodes m member := by
    rw [nodes] at member
    rcases Array.mem_push.mp member with old | rfl
    · exact .inl old
    · exact .inr (.inl leaf)

theorem onward_call (coherent : w.Coherent ShapeRules.Proper)
    (own : ∀ x : Node, .node x ∈ inputs → x.id.graph = w.graph.id → x ∈ w.graph.nodes)
    (made : Building.call kind inputs given w = .ok n v) : Onward w v (.asks (.call kind inputs given)) := by
  have next := (coherent.call (fun _ => id) own made).1
  obtain ⟨graph, applied, rfl⟩ := Building.call_cases made
  obtain ⟨rule, nodes, es, ps, _, _, _, _, _, interned⟩ := Graph.apply_cases applied
  refine ⟨next, fun _ _ => rfl, fun m member => ?_⟩
  rcases Graph.intern_cases interned with ⟨_, _, _, rfl⟩ | ⟨type, _, rfl, rfl⟩
  · exact .inl member
  · rcases Array.mem_push.mp member with old | rfl
    · exact .inl old
    · exact .inr (.inr ⟨inputs, given, rfl, made⟩)

theorem onward [Memory] (coherent : w.Coherent ShapeRules.Proper) {d : Deed} (fits : d.Fits w) : Onward w
    (d.run w) d := by
  cases d with
  | registers kind rule =>
    rw [Deed.run]
    cases registered : w.rules.register kind rule with
    | error e => exact .refl coherent _
    | ok rules =>
      refine ⟨{ coherent with rules := coherent.rules.register registered }, fun other differs => ?_, fun _ => .inl⟩
      have apart : other ≠ kind := fun same => differs rule (same ▸ rfl)
      unfold ShapeRules.register at registered
      split at registered
      · cases registered
      · cases registered
        exact (lookup_putNamed ..).trans (if_neg apart)
  | stores store => exact ⟨coherent.stored fits, fun _ _ => rfl, fun _ => .inl⟩
  | asks r =>
    obtain ⟨plain, fit⟩ := fits
    cases r with
    | constant shape elementType data =>
      refine onward_one coherent (Building.constant_unchanged shape elementType data w) fun n v made => ?_
      have next := (coherent.constant made).1
      obtain ⟨type, bytes, _, _, ⟨_, rfl⟩ | ⟨_, rfl, rfl⟩⟩ := Building.constant_cases made
      · exact .refl coherent _
      · exact onward_leaf next rfl rfl rfl
    | variableOf shape elementType data =>
      refine onward_one coherent (Building.variableOf_unchanged shape elementType data w) fun n v made => ?_
      have next := (coherent.variableOf made).1
      obtain ⟨type, bytes, _, _, rfl, rfl⟩ := Building.variableOf_cases made
      exact onward_leaf next rfl rfl rfl
    | placeholder shape elementType =>
      refine onward_one coherent (Building.placeholder_unchanged shape elementType w) fun n v made => ?_
      have next := (coherent.placeholder made).1
      obtain ⟨type, _, rfl, rfl⟩ := Building.placeholder_cases made
      exact onward_leaf next rfl rfl rfl
    | call kind inputs given =>
      exact onward_one coherent (Building.call_unchanged kind inputs given w) fun n v made =>
        onward_call coherent fit made
    | _ => cases plain

theorem Past.made [Memory] (past : start.Past deeds w) (coherent : w.Coherent ShapeRules.Proper)
    (called : Building.call kind inputs given w = .ok n v) (new : n ∉ w.graph.nodes) :
    Dated start (deeds ++ [.asks (.call kind inputs given)]) v n := by
  obtain ⟨graph, applied, rfl⟩ := Building.call_cases called
  obtain ⟨rule, nodes, es, ps, ruled, _, _, _, _, interned⟩ := Graph.apply_cases applied
  rcases Graph.intern_cases interned with ⟨key, _, found, _⟩ | ⟨type, inferred, rfl, rfl⟩
  · exact absurd (coherent.found found).1 new
  · exact ⟨[], rule, ⟨⟨deeds, inputs, given, w, _, rfl, past, called, new, ruled⟩, inferred⟩, fun _ => ruled⟩

/-- Whatever was done to a graph, each of its interior nodes was made by the rule of its time. -/
theorem Past.dated [Memory] (past : start.Past deeds w) (coherent : start.Coherent ShapeRules.Proper)
    (blank : start.graph.nodes = #[]) :
    w.Coherent ShapeRules.Proper ∧ ∀ n ∈ w.graph.nodes, n.isLeaf = false → Dated start deeds w n := by
  induction past with
  | nil => exact ⟨coherent, by simp [blank]⟩
  | next past d fits ih =>
    obtain ⟨before, dated⟩ := ih
    have onward := onward before fits
    refine ⟨onward.coherent, fun m member interior => ?_⟩
    rename_i w
    by_cases old : m ∈ w.graph.nodes
    · exact (dated m old interior).next (onward.rules m.kind)
    rcases onward.nodes m member with there | leaf | ⟨inputs, given, rfl, called⟩
    · exact absurd there old
    · rw [leaf] at interior
      cases interior
    · exact past.made before called old

/-- What a call asks for: the rule of the day for its kind, inputs that are nodes of the graph, and entries. -/
structure CallRequest (w : Workspace) (kind : String) (inputs : List Value) (given : Value) (rule : ShapeRule)
    (nodes : List Node) (es : Entries) : Prop where
  ruled : w.rules.lookup kind = some rule
  taken : inputs = nodes.map .node
  here : ∀ x ∈ nodes, x.id.graph = w.graph.id
  entered : given.entries = .ok es

/-- A call whose rule rejects it fails, unless it finds a node. -/
theorem CallRequest.rejected {rule : ShapeRule} {nodes : List Node} {es : Entries} {e : Error}
    (asks : w.CallRequest kind inputs given rule nodes es)
    (rejects : (rule.normalize (nodes.map Node.type) es >>= rule.infer (nodes.map Node.type)) = .error e) :
    Building.call kind inputs given w = .error e w ∨
      ∃ n ps key, Building.call kind inputs given w = .ok n w ∧
        rule.normalize (nodes.map Node.type) es = .ok ps ∧ rule.infer (nodes.map Node.type) ps = .error e ∧
          Graph.key? kind nodes ps = some key ∧ w.graph.find? key = some n := by
  obtain ⟨ruled, rfl, here, entered⟩ := asks
  have taken : w.graph.ownNodes kind (nodes.map .node) = .ok nodes := Graph.ownNodes_eq_ok.mpr ⟨rfl, here⟩
  have steps : w.graph.apply w.rules kind (nodes.map .node) given.entries =
      (rule.normalize (nodes.map Node.type) es >>= w.graph.intern rule kind nodes) := by
    rw [Graph.apply, ShapeRules.find, ruled, entered, taken]
    rfl
  cases normal : rule.normalize (nodes.map Node.type) es with
  | error e' =>
    rw [normal] at rejects steps
    cases rejects
    exact .inl (call_fails steps)
  | ok ps =>
    rw [normal] at rejects steps
    have rejects : rule.infer (nodes.map Node.type) ps = .error e := rejects
    have steps : w.graph.apply w.rules kind (nodes.map .node) given.entries = w.graph.intern rule kind nodes ps := steps
    rw [Building.call_eq, steps]
    cases known : (Graph.key? kind nodes ps).bind w.graph.find? with
    | none =>
      rw [Graph.intern_missing known, rejects]
      exact .inl rfl
    | some n =>
      obtain ⟨key, keyed, found⟩ := Option.bind_eq_some_iff.mp known
      rw [Graph.intern, known]
      exact .inr ⟨n, ps, key, rfl, rfl, rejects, keyed, found⟩

/-- Calls while rules are registered: a node has the type that the rule of its kind inferred when it was made, which is
what the rule in force infers unless the kind was registered anew since; and a call that the rule in force rejects fails
and changes nothing, unless it finds a node whose kind was registered anew since, or whose parameters are not quite
those of the call. -/
theorem Past.last_rule [Memory] {id : Nat} {name : Value} {rules : ShapeRules} {store : Store}
    (past : Past ⟨rules, .empty id name, store⟩ deeds w) (proper : rules.Proper)
    (own : ∀ x : Node, .node x ∈ inputs → x.id.graph = w.graph.id → x ∈ w.graph.nodes) :
    (∀ n v, Building.call kind inputs given w = .ok n v → ∃ rule nodes es ps,
      w.CallRequest kind inputs given rule nodes es ∧ rule.normalize (nodes.map Node.type) es = .ok ps ∧
        n.kind = kind ∧ n.inputs = nodes ∧ n.params.Agree ps ∧ ∃ since old,
          Made ⟨rules, .empty id name, store⟩ (deeds ++ [.asks (.call kind inputs given)]) since n old ∧
            ((∀ r, .registers kind r ∉ since) → rule.infer (nodes.map Node.type) n.params = .ok n.type)) ∧
      ∀ rule nodes es e, w.CallRequest kind inputs given rule nodes es →
        (rule.normalize (nodes.map Node.type) es >>= rule.infer (nodes.map Node.type)) = .error e →
          Building.call kind inputs given w = .error e w ∨ ∃ n since old, Building.call kind inputs given w = .ok n w ∧
            Made ⟨rules, .empty id name, store⟩ deeds since n old ∧ ((∀ r, .registers kind r ∉ since) →
              ∃ ps, rule.normalize (nodes.map Node.type) es = .ok ps ∧ n.params.Agree ps ∧ n.params ≠ ps) := by
  obtain ⟨coherent, dated⟩ := past.dated (.empty id name rules store proper) rfl
  have mine : ∀ {nodes : List Node}, inputs = nodes.map .node → (∀ x ∈ nodes, x.id.graph = w.graph.id) →
      ∀ x ∈ nodes, x ∈ w.graph.nodes :=
    fun taken here x input => own x (taken ▸ List.mem_map_of_mem input) (here x input)
  constructor
  · intro n v called
    obtain ⟨graph, applied, rfl⟩ := Building.call_cases called
    obtain ⟨rule, nodes, es, ps, ruled, taken, here, entered, normal, interned⟩ := Graph.apply_cases applied
    have carried : n.kind = kind ∧ n.inputs = nodes ∧ n.params.Agree ps ∧
        Dated ⟨rules, .empty id name, store⟩ (deeds ++ [.asks (.call kind inputs given)]) { w with graph } n := by
      rcases Graph.intern_cases interned with ⟨key, keyed, found, rfl⟩ | ⟨type, inferred, rfl, rfl⟩
      · obtain ⟨member, interior, named, inputs, agree⟩ := coherent.found_carries (mine taken here) keyed found
        obtain ⟨since, old, made, lasts⟩ := dated n member interior
        exact ⟨named, inputs, agree, since ++ [_], old, made.next _,
          fun none => lasts fun r listed => none r (List.mem_append_left _ listed)⟩
      · refine ⟨rfl, rfl, .refl ps, past.made coherent called fun old => ?_⟩
        exact absurd (coherent.index_lt old).1 (Nat.lt_irrefl _)
    obtain ⟨rfl, rfl, agree, since, old, made, lasts⟩ := carried
    refine ⟨rule, _, es, ps, ⟨ruled, taken, here, entered⟩, normal, rfl, rfl, agree, since, old, made, fun none => ?_⟩
    cases ruled.symm.trans (lasts none)
    exact made.inferred
  · intro rule nodes es e asks rejects
    refine (asks.rejected rejects).imp_right ?_
    rintro ⟨n, ps, key, called, normal, refused, keyed, found⟩
    obtain ⟨member, interior, rfl, rfl, agree⟩ := coherent.found_carries (mine asks.taken asks.here) keyed found
    obtain ⟨since, old, made, lasts⟩ := dated n member interior
    refine ⟨n, since, old, called, made, fun none => ⟨ps, normal, agree, ?_⟩⟩
    rintro rfl
    cases asks.ruled.symm.trans (lasts none)
    cases made.inferred.symm.trans refused

end Workspace

/-! A node whose kind is registered anew. -/
namespace Sample

def customInput : Node := ⟨⟨0, 0⟩, "placeholder", [], [], ⟨.float32, [2]⟩, none⟩
def customNode : Node := ⟨⟨0, 1⟩, "custom", [customInput], [], ⟨.float32, [2]⟩, none⟩

/-- A rule that takes any parameters. -/
def ruleOf (infer : TensorType → Result TensorType) : ShapeRule where
  normalize _ es := Value.params es
  infer types _ := match types with
    | type :: _ => infer type
    | [] => .fault .noPlace

def keepingRule : ShapeRule := ruleOf .ok
def scalarRule : ShapeRule := ruleOf fun type => .ok ⟨type.elementType, []⟩
def refusingRule : ShapeRule := ruleOf fun _ => .fault (.refused .shape)

def customCall : Request := .call "custom" [.node customInput] .null

/-- The kind of the node is registered before and behind the call that makes it. -/
def customDeeds (later : ShapeRule) : List Deed :=
  [.asks (.placeholder (.list [.int 2]) (.elementType .float32)), .registers "custom" keepingRule, .asks customCall,
    .registers "custom" later]

def customWorkspace (rule : ShapeRule) : Workspace where
  rules := putNamed "custom" rule ShapeRules.standard
  graph := ⟨0, .null, #[customInput, customNode], [(.interior "custom" [0] [], customNode)]⟩
  store := .empty

theorem past_customDeeds (later : ShapeRule) :
    Workspace.Past ⟨.standard, .empty 0 .null, .empty⟩ (customDeeds later) (customWorkspace later) := by
  have start : Workspace.Past ⟨.standard, .empty 0 .null, .empty⟩ [] ⟨.standard, .empty 0 .null, .empty⟩ := .nil
  have first := start.next (.asks (.placeholder (.list [.int 2]) (.elementType .float32))) ⟨rfl, trivial⟩
  have second := first.next (.registers "custom" keepingRule) trivial
  have third := second.next (.asks customCall) ⟨rfl, fun n member => by
    cases List.mem_singleton.mp member
    exact fun _ => Array.mem_singleton.mpr rfl⟩
  exact third.next (.registers "custom" later) trivial

/-- A call that finds a node behind a new registration. -/
theorem last_rule_custom : ShapeRules.standard.Proper ∧
    Workspace.Past ⟨.standard, .empty 0 .null, .empty⟩ (customDeeds scalarRule) (customWorkspace scalarRule) ∧
      Building.call "custom" [.node customInput] .null (customWorkspace scalarRule) = .ok customNode
        (customWorkspace scalarRule) ∧
        ∃ since old, Workspace.Made ⟨.standard, .empty 0 .null, .empty⟩
          (customDeeds scalarRule ++ [.asks customCall]) since customNode old ∧ ∃ r, .registers "custom" r ∈ since := by
  have called : Building.call "custom" [.node customInput] .null (customWorkspace scalarRule) = .ok customNode
    (customWorkspace scalarRule) := rfl
  have own : ∀ x : Node, .node x ∈ [Value.node customInput] → x.id.graph = 0 →
    x ∈ (customWorkspace scalarRule).graph.nodes := by
    intro x member _
    cases List.mem_singleton.mp member
    simp [customWorkspace]
  obtain ⟨rule, nodes, es, ps, asks, _, _, rfl, _, since, old, made, infers⟩ :=
    ((past_customDeeds scalarRule).last_rule ShapeRules.standard_proper own).1 customNode _ called
  refine ⟨ShapeRules.standard_proper, past_customDeeds scalarRule, called, since, old, made, by_contra fun none => ?_⟩
  cases (show (customWorkspace scalarRule).rules.lookup "custom" = some scalarRule from rfl).symm.trans asks.ruled
  cases infers fun r member => none ⟨r, member⟩

/-- Calls for which the rule of the day infers another type, or none at all, return the node that an earlier rule
made. -/
theorem earlier_rule_found : (∀ later, Workspace.Past ⟨.standard, .empty 0 .null, .empty⟩ (customDeeds later)
    (customWorkspace later)) ∧ ((customWorkspace scalarRule).rules.lookup "custom" = some scalarRule ∧
      Building.call "custom" [.node customInput] .null (customWorkspace scalarRule) = .ok customNode
        (customWorkspace scalarRule) ∧
        scalarRule.infer [customInput.type] customNode.params = .ok ⟨.float32, []⟩ ∧ customNode.type =
          ⟨.float32, [2]⟩) ∧
      (customWorkspace refusingRule).rules.lookup "custom" = some refusingRule ∧
        refusingRule.infer [customInput.type] [] = .fault (.refused .shape) ∧
          Building.call "custom" [.node customInput] .null (customWorkspace refusingRule) = .ok customNode
            (customWorkspace refusingRule) :=
  ⟨past_customDeeds, ⟨rfl, rfl, rfl, rfl⟩, rfl, rfl, rfl⟩

end Sample
end TensorDag
