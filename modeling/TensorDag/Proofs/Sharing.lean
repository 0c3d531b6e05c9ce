import TensorDag.Proofs.Evaluation
import TensorDag.Proofs.Regular
import TensorDag.Proofs.Replaying

/-!
Sharing nodes. A graph that finds nodes in its memo and one that makes each node anew give the same answers to
the same calls: the same errors, and else nodes of the same types that evaluate to the same bytes.
-/
namespace TensorDag
open Program

/-! What a node computes depends on the types of its inputs, not on where they stand. -/

theorem argument_congr {α : Type} [Element α] {inputs inputs' : List Node}
    (types : inputs.map Node.type = inputs'.map Node.type) (args : List Bytes) :
    (argument inputs args : Nat → Result (Tensor α)) = argument inputs' args := by
  funext place
  have here : inputs[place]?.map Node.type = inputs'[place]?.map Node.type := by
    rw [← List.getElem?_map, ← List.getElem?_map, types]
  unfold argument
  cases first : inputs[place]? with
  | none =>
    cases second : inputs'[place]? with
    | none => rfl
    | some x' => simp [first, second] at here
  | some x =>
    cases second : inputs'[place]? with
    | none => simp [first, second] at here
    | some x' =>
      have same : x.type = x'.type := by simpa [first, second] using here
      obtain ⟨_, _, _, _, type, _⟩ := x
      obtain ⟨_, _, _, _, type', _⟩ := x'
      cases same
      cases args[place]? with
      | none => rfl
      | some bytes => rfl

namespace Kind
variable {kind : Kind} {n n' : Node}

theorem ofParams_bare (bare : kind.arity? = none) (ps qs : Params) :
    Operator.ofParams kind ps = Operator.ofParams kind qs := by
  cases kind with
  | binary | unary | matmul | softmax | softmaxGradient => rfl
  | _ => cases bare

theorem fits_bare (bare : kind.arity? = none) {ps : Params} {op : Operator} {types : List TensorType}
    {type : TensorType} (read : Operator.ofParams kind ps = .ok op) (typed : op.infer types = .ok type) :
    op.fits types type = true := by
  cases kind with
  | binary | unary | matmul | softmax | softmaxGradient =>
    cases read
    simp [Operator.fits, typed]
  | _ => cases bare

/-- Parameters that calls of a kind with attributes make are told apart by their operators. -/
theorem normalize_params (attributed : kind.arity? ≠ none) {types types' : List TensorType} {es es' : Entries}
    {ps qs : Params} (first : kind.normalize types es = .ok ps) (second : kind.normalize types' es' = .ok qs)
    (same : Operator.ofParams kind ps = Operator.ofParams kind qs) : ps = qs := by
  have written : ∀ {types : List TensorType} {es : Entries} {ps : Params}, kind.normalize types es = .ok ps →
      ∃ op : Operator, Operator.ofParams kind ps = .ok op ∧ ps = op.params := by
    intro types es ps normal
    unfold normalize at normal
    split at normal
    · exact absurd ‹_› attributed
    · simp only [Result.bind_eq_ok, Result.pure_eq_ok] at normal
      obtain ⟨_, _, op, spelled, rfl⟩ := normal
      exact ⟨op, spell_kind spelled ▸ op.ofParams_params, rfl⟩
  obtain ⟨op, read, rfl⟩ := written first
  obtain ⟨op', read', rfl⟩ := written second
  rw [read, read'] at same
  cases same
  rfl

/-- Nodes that carry one operator: of one kind, on inputs of the same types and of one type themselves. -/
structure Same (kind : Kind) (n n' : Node) : Prop where
  named : n.kind = kind.name
  named' : n'.kind = kind.name
  types : n.inputs.map Node.type = n'.inputs.map Node.type
  typed : n.type = n'.type
  inferred : kind.infer (n.inputs.map Node.type) n.params = .ok n.type
  params : kind.arity? = none ∨ n.params = n'.params

theorem Same.computedWith [Memory] {α : Type} (same : kind.Same n n') (arg : Nat → Result (Tensor α))
    (run : Operator → Shape → (Nat → Result (Tensor α)) → Result Computed) :
    kind.computedWith n arg run = kind.computedWith n' arg run := by
  have shape : n.shape = n'.shape := congrArg TensorType.shape same.typed
  rcases same.params with bare | params
  · obtain ⟨op, read, typed⟩ := Result.bind_eq_ok.mp same.inferred
    have fits := fits_bare bare read typed
    have read' := (ofParams_bare bare n'.params n.params).trans read
    simp only [Kind.computedWith, read, read', ← same.types, ← same.typed, ← shape, fits, if_true]
  · unfold Kind.computedWith
    rw [params, same.types, same.typed, shape]

theorem Same.runAt [Memory] {α : Type} (same : kind.Same n n') : Operator.runAt (α := α) n = Operator.runAt n' := by
  funext run op shape arg
  have element : n.elementType = n'.elementType := congrArg TensorType.elementType same.typed
  rw [Operator.runAt, Operator.runAt, same.types, element]

theorem Same.computed [Memory] (same : kind.Same n n') (args : List Bytes) :
    kind.computed n args = kind.computed n' args := by
  unfold Kind.computed
  simp only [same.types, argument_congr same.types, same.computedWith, same.runAt]

theorem Same.compute [Memory] (same : kind.Same n n') (other : kind ≠ .uniform) (args : List Bytes) :
    n.compute args = n'.compute args := by
  have size : n.byteSize = n'.byteSize := congrArg TensorType.byteSize same.typed
  have runs : ∀ output streams, (Kernel.host kind).run n args output streams =
      (Kernel.host kind).run n' args output streams := by
    intro output streams
    cases kind with
    | uniform => exact absurd rfl other
    | _ => simp only [Kernel.run, same.computed, same.typed]
  rw [Node.compute, Node.compute, same.named, same.named', find_host]
  simp only [bind, Except.bind, Kernel.fresh, size, runs]

end Kind

/-! Making each node anew. -/

/-- A workspace whose graph finds no node again. -/
def Workspace.cleared (w : Workspace) : Workspace := { w with graph := { w.graph with memo := [] } }

/-- A builder that looks nothing up: whatever node it asks for is made anew. -/
def Building.afresh (x : Building Node) : Building Node := fun w => x w.cleared

namespace Building
variable {w w' : Workspace} {n : Node}

theorem call_eq (kind : String) (inputs : List Value) (params : Value) (w : Workspace) :
    call kind inputs params w = match w.graph.apply w.rules kind inputs params.entries with
      | .ok (n, graph) => .ok n { w with graph }
      | .error e => .error e w := by
  simp only [call, bind, EStateM.bind, run_get]
  cases w.graph.apply w.rules kind inputs params.entries with
  | error e => rfl
  | ok made => rfl

theorem call_entered {given : Value} {es : Entries} (entered : given.entries = .ok es) (kind : Kind)
    (nodes : List Node) : call kind.name (nodes.map .node) given = apply kind nodes es := by
  funext w
  rw [apply_eq_call, call_eq, call_eq, entered]
  rfl

end Building

theorem Graph.intern_missing {g : Graph} {kind : String} {inputs : List Node} {params : Params}
    (missing : (key? kind inputs params).bind g.find? = none) (rule : ShapeRule) :
    g.intern rule kind inputs params = (rule.infer (inputs.map Node.type) params).map fun type =>
      let n : Node := ⟨⟨g.id, g.size⟩, kind, inputs, params, type, none⟩
      (n, { g with nodes := g.nodes.push n, memo := (keyOf n, n) :: g.memo }) := by
  rw [intern, missing]
  cases rule.infer (inputs.map Node.type) params <;> rfl

/-- Where a node is not made, the rule gave it no type. -/
theorem Graph.intern_error {g : Graph} {rule : ShapeRule} {kind : String} {inputs : List Node} {params : Params}
    {e : Error} (failed : g.intern rule kind inputs params = .error e) :
    rule.infer (inputs.map Node.type) params = .error e := by
  cases found : (key? kind inputs params).bind g.find? with
  | some n =>
    rw [intern, found] at failed
    cases failed
  | none =>
    rw [intern_missing found] at failed
    cases inferred : rule.infer (inputs.map Node.type) params with
    | ok type =>
      rw [inferred] at failed
      cases failed
    | error other =>
      rw [inferred] at failed
      cases failed
      rfl

/-- Where nothing is found, nodes are made if the rule gives them types. -/
theorem Graph.intern_cleared {g : Graph} (rule : ShapeRule) (kind : String) (inputs : List Node) (params : Params)
    (empty : g.memo = []) : (∀ e, rule.infer (inputs.map Node.type) params = .error e →
        g.intern rule kind inputs params = .error e) ∧
      ∀ type, rule.infer (inputs.map Node.type) params = .ok type → ∃ memo,
        g.intern rule kind inputs params = .ok (⟨⟨g.id, g.size⟩, kind, inputs, params, type, none⟩,
          { g with nodes := g.nodes.push ⟨⟨g.id, g.size⟩, kind, inputs, params, type, none⟩, memo }) := by
  have missing : (key? kind inputs params).bind g.find? = none := by
    rw [Option.bind_eq_none_iff]
    intro key _
    rw [Graph.find?, empty, List.lookup_nil]
  rw [intern_missing missing]
  constructor
  · intro e inferred
    rw [inferred, Except.map]
  · intro type inferred
    rw [inferred]
    exact ⟨_, rfl⟩

/-- Nodes of the kinds that come with the library have the parameters that calls give them. -/
theorem Workspace.Built.normalized [Memory] {w : Workspace} (built : w.Built ShapeRules.Lasting) :
    ∀ n ∈ w.graph.nodes, ∀ kind : Kind, n.kind = kind.name →
      ∃ es, kind.normalize (n.inputs.map Node.type) es = .ok n.params := by
  have leaf : ∀ {name : String}, leafKinds.contains name = true → ∀ kind : Kind, name ≠ kind.name := by
    intro name isLeaf kind same
    rw [same, kind.name_interior] at isLeaf
    cases isLeaf
  induction built with
  | empty => simp [Graph.empty]
  | constant _ made ih =>
    obtain ⟨type, bytes, _, _, ⟨_, rfl⟩ | ⟨_, rfl, rfl⟩⟩ := Building.constant_cases made
    · exact ih
    · intro n member kind named
      rcases Array.mem_push.mp member with old | rfl
      · exact ih n old kind named
      · exact absurd named (leaf rfl kind)
  | variableOf _ made ih =>
    obtain ⟨type, bytes, _, _, rfl, rfl⟩ := Building.variableOf_cases made
    intro n member kind named
    rcases Array.mem_push.mp member with old | rfl
    · exact ih n old kind named
    · exact absurd named (leaf rfl kind)
  | placeholder _ made ih =>
    obtain ⟨type, _, rfl, rfl⟩ := Building.placeholder_cases made
    intro n member kind named
    rcases Array.mem_push.mp member with old | rfl
    · exact ih n old kind named
    · exact absurd named (leaf rfl kind)
  | @call w _ _ _ _ _ built own made ih =>
    obtain ⟨graph, applied, rfl⟩ := Building.call_cases made
    obtain ⟨rule, nodes, es, ps, ruled, _, _, _, normal, interned⟩ := Graph.apply_cases applied
    rcases Graph.intern_cases interned with ⟨_, _, _, rfl⟩ | ⟨type, _, rfl, rfl⟩
    · exact ih
    · intro n member kind named
      rcases Array.mem_push.mp member with old | rfl
      · exact ih n old kind named
      · have lasting := built.lasting.rules.builtin kind
        rw [← named, ruled] at lasting
        cases lasting
        exact ⟨es, normal⟩
  | ruled _ _ _ ih => exact ih
  | stored _ _ _ ih => exact ih

/-! Two runs. -/

/-- Values of leaves that correspond: constants have their own bytes, and variables and placeholders the same
where one step made them. -/
structure Corresponding (w w' : Workspace) (history : List (Result Node × Result Node))
    (leaf leaf' : Node → Result Bytes) : Prop where
  constants : ∀ n ∈ w.graph.nodes, n.kind = "constant" → ∀ id, n.buffer = some id →
    leaf n = .ok (w.store.get id).bytes
  constants' : ∀ n ∈ w'.graph.nodes, n.kind = "constant" → ∀ id, n.buffer = some id →
    leaf' n = .ok (w'.store.get id).bytes
  others : ∀ n n', (.ok n, .ok n') ∈ history → n.kind = "variable" ∨ n.kind = "placeholder" → leaf n = leaf' n'

/-- Nodes of two workspaces that have one type, and one value for all leaves that correspond from then on. -/
structure Twins [Memory] (w w' : Workspace) (history : List (Result Node × Result Node)) (n n' : Node) : Prop where
  left : n ∈ w.graph.nodes
  right : n' ∈ w'.graph.nodes
  own : n.id.graph = w.graph.id
  own' : n'.id.graph = w'.graph.id
  typed : n.type = n'.type
  equal : ∀ v v' later leaf leaf', w.Grows v → w'.Grows v' → (∀ p ∈ history, p ∈ later) →
    Corresponding v v' later leaf leaf' → n.evaluate leaf = n'.evaluate leaf'

theorem Twins.mono [Memory] {w w' v v' : Workspace} {history later : List (Result Node × Result Node)} {n n' : Node}
    (twins : Twins w w' history n n') (grows : w.Grows v) (grows' : w'.Grows v') (sub : ∀ p ∈ history, p ∈ later) :
    Twins v v' later n n' where
  left := grows.nodes n twins.left
  right := grows'.nodes n' twins.right
  own := twins.own.trans grows.graph.symm
  own' := twins.own'.trans grows'.graph.symm
  typed := twins.typed
  equal u u' all leaf leaf' first second more :=
    twins.equal u u' all leaf leaf' (grows.trans first) (grows'.trans second) fun p member => more p (sub p member)

/-- What is handed to two calls: twins, or one value that is no node of the graph. -/
inductive Fed (twins : Node → Node → Prop) (graph : Nat) : Value → Value → Prop
  | node {n n' : Node} (both : twins n n') : Fed twins graph (.node n) (.node n')
  | value {v : Value} (foreign : ∀ x, v = .node x → x.id.graph ≠ graph) : Fed twins graph v v

/-- How two builders answer, one of them with nodes made anew. -/
inductive Answers [Memory] (w w' : Workspace) (history : List (Result Node × Result Node)) (x x' : Building Node) : Prop
  | fails (e : Error) (left : x w = .error e w) (right : x'.afresh w' = .error e w'.cleared)
  | returns (n n' : Node) (v v' : Workspace) (left : x w = .ok n v) (right : x'.afresh w' = .ok n' v')
    (built : v.Built ShapeRules.Lasting) (grows : w.Grows v) (grows' : w'.Grows v') (rules : v.rules = w.rules)
    (rules' : v'.rules = w'.rules) (twins : ∀ later, (∀ p ∈ history, p ∈ later) → (.ok n, .ok n') ∈ later →
      Twins v v' later n n')

section
variable {w w' : Workspace} {history : List (Result Node × Result Node)}

theorem ownNodes_fed {g g' : Graph} {twins : Node → Node → Prop} (same : g'.id = g.id)
    (own : ∀ n n', twins n n' → n.id.graph = g.id ∧ n'.id.graph = g'.id) (kind : String) {vs vs' : List Value}
    (fed : List.Forall₂ (Fed twins g.id) vs vs') :
    (∃ e, g.ownNodes kind vs = .error e ∧ g'.ownNodes kind vs' = .error e) ∨
      ∃ ns ns', g.ownNodes kind vs = .ok ns ∧ g'.ownNodes kind vs' = .ok ns' ∧ List.Forall₂ twins ns ns' := by
  induction fed with
  | nil => exact .inr ⟨[], [], rfl, rfl, .nil⟩
  | @cons v v' rest rest' head _ ih =>
    cases head with
    | @node n n' both =>
      obtain ⟨first, second⟩ := own n n' both
      simp only [Graph.ownNodes, first, second, if_true]
      rcases ih with ⟨e, failed, failed'⟩ | ⟨ns, ns', owned, owned', all⟩
      · exact .inl ⟨e, by rw [failed]; rfl, by rw [failed']; rfl⟩
      · exact .inr ⟨n :: ns, n' :: ns', by rw [owned]; rfl, by rw [owned']; rfl, .cons both all⟩
    | value foreign =>
      cases v with
      | node x =>
        have apart := foreign x rfl
        exact .inl ⟨.foreignNode x.name, by rw [Graph.ownNodes, if_neg apart], by
          rw [Graph.ownNodes, if_neg (same ▸ apart)]⟩
      | _ => exact .inl ⟨_, rfl, rfl⟩

theorem twins_all [Memory] {ns ns' : List Node} (twins : List.Forall₂ (Twins w w' history) ns ns') :
    (∀ x ∈ ns, x ∈ w.graph.nodes) ∧ ns.map Node.type = ns'.map Node.type := by
  induction twins with
  | nil => simp
  | cons head _ ih =>
    rw [List.map_cons, List.map_cons, head.typed, ih.2]
    exact ⟨List.forall_mem_cons.mpr ⟨head.left, ih.1⟩, rfl⟩

theorem evaluateAll_twins [Memory] {ns ns' : List Node} (twins : List.Forall₂ (Twins w w' history) ns ns')
    {v v' : Workspace} {later : List (Result Node × Result Node)} {leaf leaf' : Node → Result Bytes} (grows : w.Grows v)
    (grows' : w'.Grows v') (sub : ∀ p ∈ history, p ∈ later) (corresponding : Corresponding v v' later leaf leaf') :
    Node.evaluateAll leaf ns = Node.evaluateAll leaf' ns' := by
  induction twins with
  | nil => rfl
  | cons head _ ih =>
    rw [Node.evaluateAll, Node.evaluateAll, ih, head.equal v v' later leaf leaf' grows grows' sub corresponding]

theorem typed_error {shape elementType : Value} {α : Type} {f : TensorType → Building α} {e : Error}
    (failed : TensorType.ofValues elementType shape = .error e) (v : Workspace) :
    (Building.of (TensorType.ofValues elementType shape) >>= f) v = .error e v := by
  rw [failed]
  rfl

theorem afresh_constant [Memory] {shape elementType data : Value} {type : TensorType} {bytes : Bytes}
    (typed : TensorType.ofValues elementType shape = .ok type) (filled : leafBytes type data = .ok bytes)
    (w : Workspace) : ∃ n v, (Building.constant shape elementType data).afresh w = .ok n v ∧ w.Grows v ∧
      v.rules = w.rules ∧ n ∈ v.graph.nodes ∧ n.id.graph = w.graph.id ∧ n.kind = "constant" ∧ n.type = type ∧
        ∃ id, n.buffer = some id ∧ id < v.store.size ∧ (v.store.get id).bytes = bytes := by
  obtain ⟨n, v, made⟩ := Building.constant_returns (w := w.cleared) typed filled
  obtain ⟨type', bytes', typed', filled', ⟨absurd, _⟩ | ⟨_, rfl, rfl⟩⟩ := Building.constant_cases made
  · cases absurd
  cases typed.symm.trans typed'
  cases filled.symm.trans filled'
  have extended := Store.extends_insert w.store ⟨bytes, true⟩
  refine ⟨_, _, made, ⟨rfl, fun _ => Array.mem_push_of_mem _, extended⟩, rfl, Array.mem_push_self, rfl, rfl, rfl,
    w.store.size, rfl, ?_, ?_⟩
  · exact Nat.lt_of_lt_of_eq (Nat.lt_succ_self _) (Store.size_insert w.store ⟨bytes, true⟩).symm
  · exact congrArg Buffer.bytes (Store.get_insert_self w.store ⟨bytes, true⟩)

theorem answers_constant [Memory] (built : w.Built ShapeRules.Lasting) (shape elementType data : Value) :
    Answers w w' history (Building.constant shape elementType data) (Building.constant shape elementType data) := by
  cases typed : TensorType.ofValues elementType shape with
  | error e => exact .fails e (typed_error typed w) (typed_error typed w'.cleared)
  | ok type =>
    cases filled : leafBytes type data with
    | error e =>
      have failed := Building.constant_refused typed filled
      exact .fails e (failed w) (failed w'.cleared)
    | ok bytes =>
      have coherent := built.lasting
      obtain ⟨n, v, left⟩ := Building.constant_returns (w := w) typed filled
      obtain ⟨next, keeps, member⟩ := coherent.constant left
      obtain ⟨constant, known, id, held, inside, content⟩ := coherent.constant_content typed filled left
      obtain ⟨n', v', right, grows', rules', member', own', constant', typed', id', held', inside', content'⟩ :=
        afresh_constant typed filled w'
      have grows : w.Grows v := ⟨keeps.graph, fun _ => keeps.mem, (Workspace.Leads.constant (.refl w) left).store⟩
      have rules : v.rules = w.rules := by
        obtain ⟨_, _, _, _, ⟨_, rfl⟩ | ⟨_, _, rfl⟩⟩ := Building.constant_cases left
        · rfl
        · rfl
      refine .returns n n' v v' left right (.constant built left) grows grows' rules rules' fun _ _ _ => ?_
      refine ⟨member, member', next.owns member, own'.trans grows'.graph.symm, known.trans typed'.symm, ?_⟩
      intro u u' later leaf leaf' first second _ corresponding
      rw [Node.evaluate_leaf (Node.isLeaf_of_kind rfl constant), Node.evaluate_leaf (Node.isLeaf_of_kind rfl constant'),
        corresponding.constants n (first.nodes n member) constant id held,
        corresponding.constants' n' (second.nodes n' member') constant' id' held', first.store.same id inside, content,
        second.store.same id' inside', content']

theorem twins_leaf [Memory] {v v' : Workspace} {later : List (Result Node × Result Node)} {n n' : Node}
    (left : n ∈ v.graph.nodes) (right : n' ∈ v'.graph.nodes) (own : n.id.graph = v.graph.id)
    (own' : n'.id.graph = v'.graph.id) (typed : n.type = n'.type) (open_ : n.kind = "variable" ∨ n.kind = "placeholder")
    (same : n'.kind = n.kind) (step : (.ok n, .ok n') ∈ later) : Twins v v' later n n' := by
  have isLeaf : ∀ m : Node, m.kind = "variable" ∨ m.kind = "placeholder" → m.isLeaf = true := by
    rintro m (named | named)
    · exact Node.isLeaf_of_kind rfl named
    · exact Node.isLeaf_of_kind rfl named
  refine ⟨left, right, own, own', typed, fun u u' all leaf leaf' _ _ sub corresponding => ?_⟩
  rw [Node.evaluate_leaf (isLeaf n open_), Node.evaluate_leaf (isLeaf n' (same ▸ open_))]
  exact corresponding.others n n' (sub _ step) open_

theorem answers_variableOf [Memory] (built : w.Built ShapeRules.Lasting) (shape elementType data : Value) :
    Answers w w' history (Building.variableOf shape elementType data)
      (Building.variableOf shape elementType data) := by
  cases typed : TensorType.ofValues elementType shape with
  | error e => exact .fails e (typed_error typed w) (typed_error typed w'.cleared)
  | ok type =>
    cases filled : leafBytes type data with
    | error e =>
      have failed := Building.variableOf_refused typed filled
      exact .fails e (failed w) (failed w'.cleared)
    | ok bytes =>
      have made := fun v : Workspace => Building.variableOf_returns (w := v) typed filled
      obtain ⟨n, v, left⟩ := made w
      obtain ⟨n', v', right⟩ := made w'.cleared
      have built' := Workspace.Built.variableOf built left
      obtain ⟨_, _, typed₁, _, rfl, rfl⟩ := Building.variableOf_cases left
      obtain ⟨_, _, typed₂, _, rfl, rfl⟩ := Building.variableOf_cases right
      cases typed.symm.trans typed₁
      cases typed.symm.trans typed₂
      refine .returns _ _ _ _ left right built' ⟨rfl, fun _ => Array.mem_push_of_mem _, Store.extends_insert ..⟩
        ⟨rfl, fun _ => Array.mem_push_of_mem _, Store.extends_insert ..⟩ rfl rfl fun _ _ step => ?_
      exact twins_leaf Array.mem_push_self Array.mem_push_self rfl rfl rfl (.inl rfl) rfl step

theorem answers_placeholder [Memory] (built : w.Built ShapeRules.Lasting) (shape elementType : Value) :
    Answers w w' history (Building.placeholder shape elementType) (Building.placeholder shape elementType) := by
  cases typed : TensorType.ofValues elementType shape with
  | error e => exact .fails e (typed_error typed w) (typed_error typed w'.cleared)
  | ok type =>
    have made : ∀ v : Workspace, ∃ n u, Building.placeholder shape elementType v = .ok n u := fun v => by
      rw [Building.placeholder, typed]
      exact ⟨_, _, rfl⟩
    obtain ⟨n, v, left⟩ := made w
    obtain ⟨n', v', right⟩ := made w'.cleared
    have built' := Workspace.Built.placeholder built left
    obtain ⟨_, typed₁, rfl, rfl⟩ := Building.placeholder_cases left
    obtain ⟨_, typed₂, rfl, rfl⟩ := Building.placeholder_cases right
    cases typed.symm.trans typed₁
    cases typed.symm.trans typed₂
    refine .returns _ _ _ _ left right built' ⟨rfl, fun _ => Array.mem_push_of_mem _, .refl _⟩
      ⟨rfl, fun _ => Array.mem_push_of_mem _, .refl _⟩ rfl rfl fun _ _ step => ?_
    exact twins_leaf Array.mem_push_self Array.mem_push_self rfl rfl rfl (.inr rfl) rfl step

theorem apply_steps {g : Graph} {rules : ShapeRules} {kind : Kind} {inputs : List Value} {entries : Result Entries}
    (ruled : rules.lookup kind.name = some kind.rule) : g.apply rules kind.name inputs entries = (do
      let nodes ← g.ownNodes kind.name inputs
      let es ← entries
      let ps ← kind.normalize (nodes.map Node.type) es
      g.intern kind.rule kind.name nodes ps) := by
  have found : rules.find kind.name = .ok kind.rule := by rw [ShapeRules.find, ruled]
  rw [Graph.apply, found]
  rfl

theorem call_fails {kind : String} {inputs : List Value} {params : Value} {e : Error} {v : Workspace}
    (failed : v.graph.apply v.rules kind inputs params.entries = .error e) :
    Building.call kind inputs params v = .error e v := by
  rw [Building.call_eq, failed]

/-- Twins on twins: the node that a call finds or makes, and the one that it makes anew. -/
theorem twins_call [Memory] {kind : Kind} (other : kind ≠ .uniform) {v v' : Workspace}
    {later : List (Result Node × Result Node)}
    {n n' : Node} {ns ns' : List Node} {ps : Params} {types : List TensorType} {es : Entries}
    (built : v.Built ShapeRules.Lasting) (left : n ∈ v.graph.nodes) (right : n' ∈ v'.graph.nodes)
    (own' : n'.id.graph = v'.graph.id) (normal : kind.normalize types es = .ok ps)
    (inferred : kind.infer (ns.map Node.type) ps = .ok n.type) (named : n.kind = kind.name) (inputs : n.inputs = ns)
    (operator : Operator.ofParams kind n.params = Operator.ofParams kind ps) (named' : n'.kind = kind.name)
    (inputs' : n'.inputs = ns') (params' : n'.params = ps) (typed : n'.type = n.type)
    (twins : List.Forall₂ (Twins v v' later) ns ns') : Twins v v' later n n' := by
  have types := (twins_all twins).2
  have same : kind.Same n n' := by
    refine ⟨named, named', by rw [inputs, inputs', types], typed.symm, ?_, ?_⟩
    · rw [Kind.infer, operator, inputs]
      exact inferred
    · by_cases bare : kind.arity? = none
      · exact .inl bare
      · obtain ⟨_, normal'⟩ := built.normalized n left kind named
        exact .inr ((Kind.normalize_params bare normal' normal operator).trans params'.symm)
  refine ⟨left, right, built.lasting.owns left, own', typed.symm, ?_⟩
  intro u u' all leaf leaf' first second sub corresponding
  have interior : ∀ m : Node, m.kind = kind.name → m.isLeaf = false := fun m here => by
    rw [Node.isLeaf, here, kind.name_interior]
  rw [Node.evaluate_interior (interior n named), Node.evaluate_interior (interior n' named'), inputs, inputs',
    evaluateAll_twins twins first second sub corresponding]
  exact congrArg _ (funext (same.compute other))

theorem answers_call [Memory] {kind : Kind} (other : kind ≠ .uniform) (built : w.Built ShapeRules.Lasting)
    (rules : w'.rules = w.rules) (graph : w'.graph.id = w.graph.id) {inputs inputs' : List Value} (params : Value)
    (fed : List.Forall₂ (Fed (Twins w w' history) w.graph.id) inputs inputs') :
    Answers w w' history (Building.call kind.name inputs params) (Building.call kind.name inputs' params) := by
  have coherent := built.lasting
  have ruled := coherent.rules.builtin kind
  have ruled' : w'.cleared.rules.lookup kind.name = some kind.rule := rules ▸ ruled
  have fails : ∀ e, w.graph.apply w.rules kind.name inputs params.entries = .error e →
      w'.cleared.graph.apply w'.cleared.rules kind.name inputs' params.entries = .error e →
        Answers w w' history (Building.call kind.name inputs params) (Building.call kind.name inputs' params) :=
    fun e failed failed' => .fails e (call_fails failed) (call_fails failed')
  have owned : ∀ n n', Twins w w' history n n' → n.id.graph = w.graph.id ∧ n'.id.graph = w'.cleared.graph.id :=
    fun n n' twins => ⟨twins.own, twins.own'⟩
  have id : w'.cleared.graph.id = w.graph.id := graph
  rw [apply_steps ruled, apply_steps ruled'] at fails
  rcases ownNodes_fed id owned kind.name fed with ⟨e, failed, failed'⟩ | ⟨ns, ns', taken, taken', twins⟩
  · exact fails e (by rw [failed]; rfl) (by rw [failed']; rfl)
  obtain ⟨here, types⟩ := twins_all twins
  rw [taken, taken'] at fails
  cases entered : params.entries with
  | error e => exact fails e (by rw [entered]; rfl) (by rw [entered]; rfl)
  | ok es =>
    rw [entered] at fails
    cases normal : kind.normalize (ns.map Node.type) es with
    | error e =>
      exact fails e (by simp only [bind, Except.bind, normal]) (by simp only [bind, Except.bind, ← types, normal])
    | ok ps =>
      have left : w.graph.apply w.rules kind.name inputs params.entries = w.graph.intern kind.rule kind.name ns ps := by
        rw [apply_steps ruled, taken, entered]
        simp only [bind, Except.bind, normal]
      have right : w'.cleared.graph.apply w'.cleared.rules kind.name inputs' params.entries =
          w'.cleared.graph.intern kind.rule kind.name ns' ps := by
        rw [apply_steps ruled', taken', entered]
        simp only [bind, Except.bind, ← types, normal]
      obtain ⟨anew, anew'⟩ := Graph.intern_cleared (g := w'.cleared.graph) kind.rule kind.name ns' ps rfl
      rw [← types] at anew anew'
      cases interned : w.graph.intern kind.rule kind.name ns ps with
      | error e =>
        exact .fails e (call_fails (left.trans interned)) (call_fails
          (right.trans (anew e (Graph.intern_error interned))))
      | ok made =>
        obtain ⟨n, graph'⟩ := made
        obtain ⟨rfl, _⟩ := Graph.ownNodes_eq_ok.mp taken
        have ran : Building.call kind.name (ns.map .node) params w = .ok n { w with graph := graph' } := by
          rw [Building.call_eq, left, interned]
        have built' := Workspace.Built.call built (fun x member _ => by
          obtain ⟨y, input, same⟩ := List.mem_map.mp member
          cases same
          exact here _ input) ran
        have made := Building.apply_eq ruled (fun x input => coherent.owns (here x input)) normal interned
        obtain ⟨_, normal', inferred, named, inputs, operator, _⟩ := coherent.apply here made
        cases normal.symm.trans normal'
        obtain ⟨_, keeps, member⟩ := coherent.applied here made
        obtain ⟨memo, made'⟩ := anew' n.type inferred
        have grows : w.Grows { w with graph := graph' } := ⟨keeps.graph, fun _ => keeps.mem, .refl _⟩
        have ran' := (Building.call_eq kind.name inputs' params w'.cleared).trans (by rw [right, made'])
        refine .returns n _ _ _ ran ran' built' grows ⟨rfl, fun _ => Array.mem_push_of_mem _, .refl _⟩ rfl rfl
          fun later sub _ => ?_
        refine twins_call other built' member Array.mem_push_self rfl normal inferred named inputs operator rfl rfl rfl
          rfl ?_
        refine List.Forall₂.imp (fun m m' both => both.mono grows ?_ sub) twins
        exact ⟨rfl, fun _ => Array.mem_push_of_mem _, .refl _⟩

end

namespace Script

/-- What stands among the inputs of a call: the node of an earlier step, or a value of the caller. -/
inductive Operand
  | made (step : Nat)
  | given (v : Value)

/-- The value of an operand; a step that failed made nothing. -/
def Operand.value (results : List (Result Node)) : Operand → Value
  | .made step =>
    match results[step]? with
    | some (.ok n) => .node n
    | _ => .null
  | .given v => v

/-- A step of a script: a leaf, or a call of a kind that comes with the library. Nodes of the script are inputs of
calls, and stand nowhere else. -/
inductive Step
  | constant (shape elementType data : Value)
  | variableOf (shape elementType data : Value)
  | placeholder (shape elementType : Value)
  | call (kind : Kind) (inputs : List Operand) (params : Value)

namespace Step

def build [Memory] (results : List (Result Node)) : Step → Building Node
  | constant shape elementType data => Building.constant shape elementType data
  | variableOf shape elementType data => Building.variableOf shape elementType data
  | placeholder shape elementType => Building.placeholder shape elementType
  | call kind inputs params => Building.call kind.name (inputs.map (·.value results)) params

/-- No samples are drawn, and nodes that callers give are of other graphs. -/
def Fits (graph : Nat) : Step → Prop
  | call kind inputs _ => kind ≠ .uniform ∧ ∀ x, .given (.node x) ∈ inputs → x.id.graph ≠ graph
  | _ => True

/-- A step that looks nothing up appends its node. -/
theorem build_afresh [Memory] {step : Step} {results : List (Result Node)} {w v : Workspace} {n : Node}
    (ran : (step.build results).afresh w = .ok n v) : v.graph.nodes = w.graph.nodes.push n := by
  cases step with
  | constant shape elementType data =>
    obtain ⟨type, bytes, _, _, ⟨found, _⟩ | ⟨_, rfl, rfl⟩⟩ := Building.constant_cases ran
    · cases found
    · rfl
  | variableOf shape elementType data =>
    obtain ⟨type, bytes, _, _, rfl, rfl⟩ := Building.variableOf_cases ran
    rfl
  | placeholder shape elementType =>
    obtain ⟨type, _, rfl, rfl⟩ := Building.placeholder_cases ran
    rfl
  | call kind inputs params =>
    obtain ⟨graph, applied, rfl⟩ := Building.call_cases ran
    obtain ⟨rule, nodes, es, ps, _, _, _, _, _, interned⟩ := Graph.apply_cases applied
    rcases Graph.intern_cases interned with ⟨_, _, found, _⟩ | ⟨type, _, rfl, rfl⟩
    · cases found
    · rfl

end Step

/-- The results of the steps, each behind those before it; a step that fails ends nothing. -/
def run [Memory] (via : Building Node → Building Node) : List Step → List (Result Node) → Workspace →
    List (Result Node) × Workspace
  | [], results, w => (results, w)
  | step :: rest, results, w =>
    match via (step.build results) w with
    | .ok n v => run via rest (results ++ [.ok n]) v
    | .error e v => run via rest (results ++ [.error e]) v

/-- What two runs made of one step. -/
inductive Outcome [Memory] (w w' : Workspace) (history : List (Result Node × Result Node)) :
    Result Node → Result Node → Prop
  | fails (e : Error) : Outcome w w' history (.error e) (.error e)
  | returns {n n' : Node} (twins : Twins w w' history n n') : Outcome w w' history (.ok n) (.ok n')

/-- Two runs of one script, the second one making each node anew. -/
structure Lockstep [Memory] (w w' : Workspace) (results results' : List (Result Node)) : Prop where
  built : w.Built ShapeRules.Lasting
  rules : w'.rules = w.rules
  graph : w'.graph.id = w.graph.id
  outcomes : List.Forall₂ (Outcome w w' (results.zip results')) results results'

variable {w w' v v' : Workspace} {history later : List (Result Node × Result Node)}
    {results results' : List (Result Node)}

theorem Outcome.mono [Memory] {r r' : Result Node} (outcome : Outcome w w' history r r') (grows : w.Grows v)
    (grows' : w'.Grows v') (sub : ∀ p ∈ history, p ∈ later) : Outcome v v' later r r' := by
  cases outcome with
  | fails e => exact .fails e
  | returns twins => exact .returns (twins.mono grows grows' sub)

theorem Lockstep.snoc [Memory] (both : Lockstep w w' results results') {r r' : Result Node}
    (built : v.Built ShapeRules.Lasting) (grows : w.Grows v) (grows' : w'.Grows v') (rules : v'.rules = v.rules)
    (outcome : Outcome v v' (results.zip results' ++ [(r, r')]) r r') :
    Lockstep v v' (results ++ [r]) (results' ++ [r']) := by
  have history : (results ++ [r]).zip (results' ++ [r']) = results.zip results' ++ [(r, r')] :=
    List.zip_append both.outcomes.length_eq
  refine ⟨built, rules, ?_, ?_⟩
  · rw [grows'.graph, both.graph, grows.graph]
  · rw [history]
    refine List.rel_append ?_ (.cons outcome .nil)
    exact both.outcomes.imp fun _ _ earlier => earlier.mono grows grows' fun p member => List.mem_append_left _ member

/-- What one operand stands for in two runs. -/
theorem Lockstep.fed [Memory] (both : Lockstep w w' results results') {operand : Operand}
    (foreign : ∀ x, operand = .given (.node x) → x.id.graph ≠ w.graph.id) :
    Fed (Twins w w' (results.zip results')) w.graph.id (operand.value results) (operand.value results') := by
  cases operand with
  | given v => exact .value fun x same => foreign x (same ▸ rfl)
  | made step =>
    have nothing : Fed (Twins w w' (results.zip results')) w.graph.id .null .null := .value nofun
    simp only [Operand.value]
    by_cases inside : step < results.length
    · have inside' : step < results'.length := both.outcomes.length_eq ▸ inside
      have outcome := both.outcomes.get inside inside'
      rw [List.get_eq_getElem, List.get_eq_getElem] at outcome
      rw [List.getElem?_eq_getElem inside, List.getElem?_eq_getElem inside']
      generalize results[step] = r, results'[step] = r' at outcome
      cases outcome with
      | fails e => exact nothing
      | returns twins => exact .node twins
    · have outside := Nat.not_lt.mp inside
      rw [List.getElem?_eq_none outside, List.getElem?_eq_none (both.outcomes.length_eq ▸ outside)]
      exact nothing

theorem Lockstep.answers [Memory] (both : Lockstep w w' results results') {step : Step} (fits : step.Fits w.graph.id) :
    Answers w w' (results.zip results') (step.build results) (step.build results') := by
  cases step with
  | constant shape elementType data => exact answers_constant both.built ..
  | variableOf shape elementType data => exact answers_variableOf both.built ..
  | placeholder shape elementType => exact answers_placeholder both.built ..
  | call kind inputs params =>
    obtain ⟨other, foreign⟩ := fits
    refine answers_call other both.built both.rules both.graph params ?_
    refine List.forall₂_map_left_iff.mpr (List.forall₂_map_right_iff.mpr
      (List.forall₂_same.mpr fun operand member => ?_))
    exact both.fed fun x same => foreign x (same ▸ member)

/-- Runs stay in lockstep to their end. -/
theorem Lockstep.run [Memory] {steps : List Step} : ∀ {w w' : Workspace} {results results' : List (Result Node)},
    Lockstep w w' results results' → (∀ step ∈ steps, step.Fits w.graph.id) →
      Lockstep (run id steps results w).2 (run Building.afresh steps results' w').2
        (run id steps results w).1 (run Building.afresh steps results' w').1 := by
  induction steps with
  | nil => exact fun both _ => both
  | cons step rest ih =>
    intro w w' results results' both fits
    obtain ⟨here, later⟩ := List.forall_mem_cons.mp fits
    unfold Script.run
    cases both.answers here with
    | fails e left right =>
      rw [id, left, right]
      exact ih (both.snoc both.built (.refl w) ⟨rfl, fun _ => id, .refl _⟩ both.rules (.fails e)) later
    | returns n n' v v' left right built grows grows' rules rules' twins =>
      rw [id, left, right]
      have next : Outcome v v' (results.zip results' ++ [(.ok n, .ok n')]) (.ok n) (.ok n') :=
        .returns (twins _ (fun p member => List.mem_append_left _ member) (by simp))
      have alike : v'.rules = v.rules := by rw [rules', both.rules, rules]
      exact ih (both.snoc built grows grows' alike next) fun step member => grows.graph ▸ later step member

/-- A script gives the same results whether its nodes are found again or each is made anew: the same errors, and
else nodes of the same types that evaluate to the same bytes wherever their leaves correspond. -/
theorem run_afresh [Memory] {rules : ShapeRules} (lasting : rules.Lasting) {graph : Nat} {name : Value} {store : Store}
    {steps : List Step} (fits : ∀ step ∈ steps, step.Fits graph)
    (ran : run id steps [] ⟨rules, .empty graph name, store⟩ = (results, w))
    (anew : run Building.afresh steps [] ⟨rules, .empty graph name, store⟩ = (results', w')) :
    List.Forall₂ (fun r r' => (∃ e, r = .error e ∧ r' = .error e) ∨ ∃ n n', r = .ok n ∧ r' = .ok n' ∧ n.type = n'.type ∧
      ∀ leaf leaf', Corresponding w w' (results.zip results') leaf leaf' → n.evaluate leaf = n'.evaluate leaf')
        results results' := by
  have start : Lockstep ⟨rules, .empty graph name, store⟩ ⟨rules, .empty graph name, store⟩ [] [] :=
    ⟨.empty graph name rules store lasting, rfl, rfl, .nil⟩
  have both := start.run fits
  rw [ran, anew] at both
  refine both.outcomes.imp fun r r' outcome => ?_
  cases outcome with
  | fails e => exact .inl ⟨e, rfl, rfl⟩
  | @returns n n' twins =>
    refine .inr ⟨n, n', rfl, rfl, twins.typed, fun leaf leaf' corresponding => ?_⟩
    exact twins.equal w w' _ leaf leaf' (.refl w) (.refl w') (fun _ => id) corresponding

/-- A sum built twice, its product with a number that is there, and a sum with what is no node. -/
def sample : List Step := [
  .placeholder (.list [.int 2]) (.elementType .float32),
  .call (.binary .add) [.made 0, .made 0] .null,
  .call (.binary .add) [.made 0, .made 0] .null,
  .constant (.list []) (.elementType .float32) (.int 2),
  .call (.binary .mul) [.made 2, .made 3] .null,
  .call (.binary .add) [.made 1, .given .null] .null]

theorem run_afresh_sample :
    let found := run id sample [] ⟨.standard, .empty 0 .null, .empty⟩
    let anew := run Building.afresh sample [] ⟨.standard, .empty 0 .null, .empty⟩
    found.2.graph.size = 4 ∧ anew.2.graph.size = 5 ∧
      List.Forall₂ (fun r r' => (∃ e, r = .error e ∧ r' = .error e) ∨
        ∃ n n', r = .ok n ∧ r' = .ok n' ∧ n.type = n'.type ∧ ∀ leaf leaf',
          Corresponding found.2 anew.2 (found.1.zip anew.1) leaf leaf' → n.evaluate leaf = n'.evaluate leaf')
            found.1 anew.1 := by
  intro found anew
  refine ⟨rfl, rfl, run_afresh ShapeRules.standard_lasting (fun step member => ?_) (Prod.mk.eta (p := found)).symm
    (Prod.mk.eta (p := anew)).symm⟩
  simp only [sample, List.mem_cons, List.not_mem_nil, or_false] at member
  rcases member with rfl | rfl | rfl | rfl | rfl | rfl
  · trivial
  · exact ⟨by decide, by simp⟩
  · exact ⟨by decide, by simp⟩
  · trivial
  · exact ⟨by decide, by simp⟩
  · exact ⟨by decide, by simp⟩

/-- A sum built twice, and a call with a dictionary in which both stand under keys that read alike. -/
def collision (via : Building Node → Building Node) : Building Node := do
  let x ← via (Building.placeholder (.list [.int 2]) (.elementType .float32))
  let a ← via (Building.call "add" [.node x, .node x] .null)
  let b ← via (Building.call "add" [.node x, .node x] .null)
  via (Building.call "add" [.node x, .node x]
    (.dictionary [(.text "t", .dictionary [(.int 1, .node a), (.text "1", .node b)])]))

/-- Nodes in parameters are told apart by identity: made anew, the two sums cannot be put in order. -/
theorem collision_differs :
    (∃ n w, collision id ⟨.standard, .empty 0 .null, .empty⟩ = .ok n w) ∧
      ∃ w, collision Building.afresh ⟨.standard, .empty 0 .null, .empty⟩ = .error (.fault .notComparable) w :=
  ⟨⟨_, _, rfl⟩, _, rfl⟩

end Script
end TensorDag
