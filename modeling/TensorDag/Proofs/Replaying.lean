import TensorDag.Proofs.Attributes
import TensorDag.Proofs.Memo
import TensorDag.Proofs.Parallel

/-!
Steps done again. A builder that returned once returns the same nodes wherever the memo still knows them,
and makes nothing new; parallel builders return where one of them does, and their nodes have the same
types.
-/
namespace TensorDag
open Program

/-- The kinds that come with the library have their rules; other kinds may have any. -/
structure ShapeRules.Lasting (rules : ShapeRules) : Prop where
  proper : rules.Proper
  builtin : ∀ kind : Kind, rules.lookup kind.name = some kind.rule

theorem ShapeRules.standard_lasting : ShapeRules.standard.Lasting where
  proper := standard_proper
  builtin kind := by
    cases kind with
    | binary op => cases op <;> rfl
    | unary op => cases op <;> rfl
    | _ => rfl

theorem Workspace.Built.lasting [Memory] {w : Workspace} (built : w.Built ShapeRules.Lasting) :
    w.Coherent ShapeRules.Lasting :=
  built.coherent fun _ lasting => lasting.proper

/-! Attributes have keys. -/

namespace Param

theorem keys?_ints (is : List Int) : keys? (is.map .int) = some (is.map .int) := by
  induction is with
  | nil => rfl
  | cons i rest ih =>
    rw [List.map_cons, keys?, ih]
    rfl

@[simp] theorem key?_ints (is : List Int) : (ints is).key? = some (ints is) := by
  rw [ints, key?, keys?_ints]
  rfl

@[simp] theorem key?_dims (ns : List Nat) : (dims ns).key? = some (dims ns) := by
  rw [dims_eq_ints, key?_ints]

@[simp] theorem key?_ofPair (p : Int × Int) : (ofPair p).key? = some (ofPair p) := key?_ints _

@[simp] theorem key?_int (i : Int) : (int i).key? = some (int i) := rfl

end Param

theorem Operator.keyed (op : Operator) : ∃ keys, op.params.key? = some keys := by
  cases op with
  | convolution c | featuresGradient c | filtersGradient c =>
    obtain ⟨padding, stride, features, filters⟩ := c
    cases features <;> cases filters <;>
      simp [params, ConvolutionAttributes.params, Params.key?, Param.keys?]
  | _ => simp [params, Params.key?, Param.keys?]

theorem Kind.normalize_keyed {kind : Kind} {types : List TensorType} {es : Entries} {ps : Params}
    (normal : kind.normalize types es = .ok ps) (bare : kind.arity? = none → es = []) :
    ∃ keys, ps.key? = some keys := by
  unfold normalize at normal
  split at normal
  · rename_i none
    rw [bare none] at normal
    cases normal
    exact ⟨[], rfl⟩
  · simp only [Result.bind_eq_ok, Result.pure_eq_ok] at normal
    obtain ⟨_, _, op, _, rfl⟩ := normal
    exact op.keyed

namespace Building
variable {w : Workspace} {n : Node}

section
variable [Memory] {shape elementType data : Value} {type : TensorType} {bytes : Bytes}

theorem constant_found (typed : TensorType.ofValues elementType shape = .ok type)
    (filled : leafBytes type data = .ok bytes) (found : w.graph.find? (.constant type bytes) = some n) :
    constant shape elementType data w = .ok n w := by
  simp only [constant, bind_eq_ok, of_eq_ok, get_eq_ok]
  refine ⟨type, w, ⟨typed, rfl⟩, bytes, w, ⟨filled, rfl⟩, w, w, ⟨rfl, rfl⟩, ?_⟩
  simp only [found, pure_eq_ok, and_self]

theorem constant_returns (typed : TensorType.ofValues elementType shape = .ok type)
    (filled : leafBytes type data = .ok bytes) : ∃ n w', constant shape elementType data w = .ok n w' := by
  cases found : w.graph.find? (.constant type bytes) with
  | some n => exact ⟨n, w, constant_found typed filled found⟩
  | none =>
    refine exists_of_returns ?_
    simp [returns, constant, typed, filled, of, bind, EStateM.bind, pure, EStateM.pure, run_get, run_set, found]

theorem variableOf_returns (typed : TensorType.ofValues elementType shape = .ok type)
    (filled : leafBytes type data = .ok bytes) : ∃ n w', variableOf shape elementType data w = .ok n w' := by
  refine exists_of_returns ?_
  simp [returns, variableOf, typed, filled, of, bind, EStateM.bind, pure, EStateM.pure, run_get, run_set]

theorem constant_refused {e : Error} (typed : TensorType.ofValues elementType shape = .ok type)
    (failed : leafBytes type data = .error e) (w : Workspace) : constant shape elementType data w = .error e w := by
  rw [constant, typed]
  change (of (leafBytes type data) >>= _) w = _
  rw [failed]
  rfl

theorem variableOf_refused {e : Error} (typed : TensorType.ofValues elementType shape = .ok type)
    (failed : leafBytes type data = .error e) (w : Workspace) : variableOf shape elementType data w = .error e w := by
  rw [variableOf, typed]
  change (of (leafBytes type data) >>= _) w = _
  rw [failed]
  rfl

end

section
variable {kind : Kind} {nodes : List Node} {es : Entries} {ps : Params}

theorem apply_eq (ruled : w.rules.lookup kind.name = some kind.rule) (own : ∀ x ∈ nodes, x.id.graph = w.graph.id)
    (normal : kind.normalize (nodes.map Node.type) es = .ok ps) {graph : Graph}
    (interned : w.graph.intern kind.rule kind.name nodes ps = .ok (n, graph)) :
    apply kind nodes es w = .ok n { w with graph } := by
  have found : w.rules.find kind.name = .ok kind.rule := by rw [ShapeRules.find, ruled]
  have taken : w.graph.ownNodes kind.name (nodes.map .node) = .ok nodes := Graph.ownNodes_eq_ok.mpr ⟨rfl, own⟩
  have applied : w.graph.apply w.rules kind.name (nodes.map .node) (.ok es) = .ok (n, graph) := by
    simp only [Graph.apply, Result.bind_eq_ok]
    exact ⟨kind.rule, found, nodes, taken, es, rfl, ps, normal, interned⟩
  simp only [apply, bind_eq_ok, of_eq_ok, get_eq_ok, set_eq_ok, pure_eq_ok]
  exact ⟨w, w, ⟨rfl, rfl⟩, _, w, ⟨applied, rfl⟩, ⟨⟩, _, rfl, rfl, rfl⟩

theorem apply_found (ruled : w.rules.lookup kind.name = some kind.rule) (own : ∀ x ∈ nodes, x.id.graph = w.graph.id)
    (normal : kind.normalize (nodes.map Node.type) es = .ok ps) {key : MemoKey}
    (keyed : Graph.key? kind.name nodes ps = some key) (found : w.graph.find? key = some n) :
    apply kind nodes es w = .ok n w := by
  have interned : w.graph.intern kind.rule kind.name nodes ps = .ok (n, w.graph) := by
    simp only [Graph.intern, keyed, Option.bind_some, found]
  exact apply_eq ruled own normal interned

theorem apply_returns (ruled : w.rules.lookup kind.name = some kind.rule)
    (own : ∀ x ∈ nodes, x.id.graph = w.graph.id)
    (normal : kind.normalize (nodes.map Node.type) es = .ok ps) {type : TensorType}
    (inferred : kind.infer (nodes.map Node.type) ps = .ok type) : ∃ n w', apply kind nodes es w = .ok n w' := by
  have interned : ∃ made, w.graph.intern kind.rule kind.name nodes ps = .ok made := by
    have inferred : kind.rule.infer (nodes.map Node.type) ps = .ok type := inferred
    unfold Graph.intern
    cases (Graph.key? kind.name nodes ps).bind w.graph.find? with
    | some n => exact ⟨_, rfl⟩
    | none => exact ⟨_, by simp only [inferred]; rfl⟩
  obtain ⟨⟨n, graph⟩, interned⟩ := interned
  exact ⟨n, _, apply_eq ruled own normal interned⟩

end
end Building

theorem Node.isLeaf_of_kind {n : Node} {kind : String} (leaf : leafKinds.contains kind = true) (named : n.kind = kind) :
    n.isLeaf = true := by
  rw [Node.isLeaf, named, leaf]

namespace Workspace
open Building
variable {w v : Workspace} {n : Node}

theorem Coherent.owns {allowed : ShapeRules → Prop} (coherent : w.Coherent allowed) (member : n ∈ w.graph.nodes) :
    n.id.graph = w.graph.id := by
  rw [coherent.placed _ n (coherent.index_lt member).2]

theorem Coherent.constant_type [Memory] {allowed : ShapeRules → Prop} {shape elementType data : Value}
    (coherent : w.Coherent allowed) (made : Building.constant shape elementType data w = .ok n v) :
    ∃ bytes, TensorType.ofValues elementType shape = .ok n.type ∧ leafBytes n.type data = .ok bytes ∧
      v.graph.find? (.constant n.type bytes) = some n := by
  obtain ⟨type, bytes, typed, filled, ⟨found, rfl⟩ | ⟨_, rfl, rfl⟩⟩ := Building.constant_cases made
  · have keyed := (coherent.found found).2
    have same := (Node.of_key?_constant keyed).2.1
    subst same
    exact ⟨bytes, typed, filled, found⟩
  · exact ⟨bytes, typed, filled, by simp [Graph.find?]⟩

/-- A constant has a buffer of its own with the bytes that were asked for, whether it is found or made. -/
theorem Coherent.constant_content [Memory] {allowed : ShapeRules → Prop} {shape elementType data : Value}
    {type : TensorType}
    {bytes : Bytes} (coherent : w.Coherent allowed) (typed : TensorType.ofValues elementType shape = .ok type)
    (filled : leafBytes type data = .ok bytes) (made : Building.constant shape elementType data w = .ok n v) :
    n.kind = "constant" ∧ n.type = type ∧
      ∃ id, n.buffer = some id ∧ id < v.store.size ∧ (v.store.get id).bytes = bytes := by
  obtain ⟨next, _, member⟩ := coherent.constant made
  obtain ⟨_, typed', filled', found⟩ := coherent.constant_type made
  cases typed.symm.trans typed'
  cases filled.symm.trans filled'
  obtain ⟨named, _, id, own, content⟩ := Node.of_key?_constant (next.found found).2
  obtain ⟨_, same, inside, _⟩ := next.fixed n member named
  cases own.symm.trans same
  exact ⟨named, rfl, id, own, inside, content⟩

/-- A call returns a node on its inputs, of the type that its rule infers. -/
theorem Coherent.apply {kind : Kind} {nodes : List Node} {es : Entries}
    (coherent : w.Coherent ShapeRules.Lasting) (own : ∀ x ∈ nodes, x ∈ w.graph.nodes)
    (made : Building.apply kind nodes es w = .ok n v) :
    ∃ ps, kind.normalize (nodes.map Node.type) es = .ok ps ∧
      kind.infer (nodes.map Node.type) ps = .ok n.type ∧ n.kind = kind.name ∧ n.inputs = nodes ∧
        Operator.ofParams kind n.params = Operator.ofParams kind ps ∧
          ∀ key, Graph.key? kind.name nodes ps = some key → v.graph.find? key = some n := by
  rw [Building.apply_eq_call] at made
  obtain ⟨graph, applied, rfl⟩ := Building.call_cases made
  obtain ⟨rule, nodes', es', ps, ruled, split, same, entered, normal, interned⟩ := Graph.apply_cases applied
  obtain rfl := List.map_injective_iff.mpr (fun _ _ => Value.node.inj) split
  cases entered
  rw [coherent.rules.builtin kind] at ruled
  cases ruled
  rcases Graph.intern_cases interned with ⟨key, keyed, found, rfl⟩ | ⟨type, inferred, rfl, rfl⟩
  · -- the key tells the inputs of a node that was found, and what is read of its parameters
    obtain ⟨member, here⟩ := coherent.found found
    obtain ⟨keys, params, rfl⟩ := Option.map_eq_some_iff.mp keyed
    obtain ⟨interior, named, indices, alike⟩ := Node.of_key?_interior here
    have inputs := coherent.eq_of_indices (fun x input => (coherent.inputs n member x input).1) own indices
    obtain ⟨rules, rule, lasting, ruled, inferred⟩ := coherent.typed n member interior
    rw [named, lasting.builtin kind] at ruled
    cases ruled
    have operator := Params.ofParams_of_key alike params kind
    refine ⟨ps, normal, ?_, named, inputs, operator, fun key other => ?_⟩
    · rw [Kind.infer, ← operator, ← inputs]
      exact inferred
    · rw [keyed] at other
      cases other
      exact found
  · refine ⟨ps, normal, inferred, rfl, rfl, rfl, fun key keyed => ?_⟩
    simp [Graph.find?, Graph.remembering, Graph.keyOf, keyed]

theorem Coherent.applied {kind : Kind} {nodes : List Node} {es : Entries}
    (coherent : w.Coherent ShapeRules.Lasting) (own : ∀ x ∈ nodes, x ∈ w.graph.nodes)
    (made : Building.apply kind nodes es w = .ok n v) :
    v.Coherent ShapeRules.Lasting ∧ w.Keeps v ∧ n ∈ v.graph.nodes := by
  rw [Building.apply_eq_call] at made
  refine coherent.call (fun rules lasting => lasting.proper) (fun x member _ => ?_) made
  obtain ⟨y, input, same⟩ := List.mem_map.mp member
  cases same
  exact own _ input

end Workspace

/-- A builder returns something again, and makes nothing new, wherever what a memo knew is still known. -/
def Building.Again {α : Type} (x : Building α) (a : α) (v : Workspace) : Prop :=
  ∀ u : Workspace, u.rules.Lasting → v.Keeps u → x u = .ok a u

namespace Building.Again
variable {α β : Type} {x : Building α} {f : α → Building β} {a : α} {b : β} {v v' : Workspace}

theorem pure : Again (Pure.pure a) a v := fun _ _ _ => rfl

theorem later (again : Again x a v) (keeps : v.Keeps v') : Again x a v' :=
  fun u lasting known => again u lasting (keeps.trans known)

theorem bind (first : Again x a v) (rest : Again (f a) b v) : Again (x >>= f) b v :=
  fun u lasting known => bind_eq_ok.mpr ⟨a, u, first u lasting known, rest u lasting known⟩

end Building.Again

namespace Building.Parallel
open Workspace
variable {α : Type} {pairs : Pairs} {form : Form α} {x y : Building α}

/-- What a builder made once is found again, wherever what the memo knew is still known. -/
theorem replays [Memory] (parallel : Parallel pairs form x y) : ∀ {w v : Workspace} {a : α},
    w.Coherent ShapeRules.Lasting → (∀ p ∈ pairs, p.1 ∈ w.graph.nodes) → x w = .ok a v →
      v.Coherent ShapeRules.Lasting ∧ w.Keeps v ∧ (∀ n ∈ form.nodes a, n ∈ v.graph.nodes) ∧ Again x a v := by
  induction parallel with
  | pure agree known =>
    intro w v a coherent own ran
    obtain ⟨rfl, rfl⟩ := pure_eq_ok.mp ran
    refine ⟨coherent, .refl w, fun n member => ?_, .pure⟩
    obtain ⟨m, pair⟩ := exists_pair known n member
    exact own _ pair
  | throw e e' =>
    intro w v a _ _ ran
    cases throw_eq_ok ran
  | constant shape elementType data =>
    intro w v n coherent own ran
    obtain ⟨next, keeps, member⟩ := coherent.constant ran
    obtain ⟨bytes, typed, filled, found⟩ := coherent.constant_type ran
    refine ⟨next, keeps, by simpa [Form.node] using member, fun u _ later => ?_⟩
    exact constant_found typed filled (later.memo _ _ found)
  | @apply pairs kind as bs es known bare =>
    intro w v n coherent own ran
    have inputs : ∀ x ∈ as, x ∈ w.graph.nodes := by
      intro x member
      obtain ⟨m, pair⟩ := exists_pair known x member
      exact own _ pair
    obtain ⟨next, keeps, member⟩ := coherent.applied inputs ran
    obtain ⟨ps, normal, _, _, _, _, found⟩ := coherent.apply inputs ran
    obtain ⟨keys, keyed⟩ := Kind.normalize_keyed normal bare
    have key : Graph.key? kind.name as ps = some (.interior kind.name (as.map (·.id.index)) keys) := by
      rw [Graph.key?, keyed, Option.map_some]
    refine ⟨next, keeps, by simpa [Form.node] using member, fun u lasting later => ?_⟩
    have here : ∀ x ∈ as, x.id.graph = u.graph.id := fun x input => by
      rw [coherent.owns (inputs x input), later.graph, keeps.graph]
    exact apply_found (lasting.builtin kind) here normal key (later.memo _ _ (found _ key))
  | @bind α β pairs form form' x y f f' first rest ih ihs =>
    intro w v b coherent own ran
    obtain ⟨a, middle, here, later⟩ := bind_eq_ok.mp ran
    obtain ⟨coherent, keeps, made, again⟩ := ih coherent own here
    have known : ∀ p ∈ (form.nodes a).zip (form.nodes a) ++ pairs, p.1 ∈ middle.graph.nodes := by
      intro p member
      rcases List.mem_append.mp member with new | old
      · exact made _ (List.of_mem_zip new).1
      · exact keeps.mem (own p old)
    obtain ⟨coherent', keeps', made', again'⟩ := ihs a a (form.refl a) coherent known later
    exact ⟨coherent', keeps.trans keeps', made', (again.later keeps').bind again'⟩

/-- A node of one workspace stands for a node of another one if both have one type. -/
structure StandsFor (w w' : Workspace) (p : Node × Node) : Prop where
  left : p.1 ∈ w.graph.nodes
  right : p.2 ∈ w'.graph.nodes
  typed : p.1.type = p.2.type

/-- What parallel builders have in common behind runs that return. -/
structure Together (form : Form α) (w w' v v' : Workspace) (a b : α) : Prop where
  left : v.Coherent ShapeRules.Lasting
  right : v'.Coherent ShapeRules.Lasting
  keeps : w.Keeps v
  keeps' : w'.Keeps v'
  agree : form.agree a b
  stands : List.Forall₂ (fun n m => StandsFor v v' (n, m)) (form.nodes a) (form.nodes b)

theorem stands_all {w w' : Workspace} {as bs : List Node}
    (stands : List.Forall₂ (fun n m => StandsFor w w' (n, m)) as bs) :
    (∀ x ∈ as, x ∈ w.graph.nodes) ∧ (∀ x ∈ bs, x ∈ w'.graph.nodes) ∧ as.map Node.type = bs.map Node.type := by
  induction stands with
  | nil => simp
  | cons head _ ih =>
    obtain ⟨left, right, typed⟩ := head
    simp only [List.forall_mem_cons, List.map_cons, List.cons.injEq]
    exact ⟨⟨left, ih.1⟩, ⟨right, ih.2.1⟩, typed, ih.2.2⟩

/-- Where one of two parallel builders returns, so does the other, and the nodes that they return have the
same types. -/
theorem mimics [Memory] (parallel : Parallel pairs form x y) : ∀ {w w' v : Workspace} {a : α},
    w.Coherent ShapeRules.Lasting → w'.Coherent ShapeRules.Lasting → (∀ p ∈ pairs, StandsFor w w' p) →
      x w = .ok a v → ∃ b v', y w' = .ok b v' ∧ Together form w w' v v' a b := by
  induction parallel with
  | @pure α pairs form a b agree known =>
    intro w w' v a' left right stands ran
    obtain ⟨rfl, rfl⟩ := pure_eq_ok.mp ran
    refine ⟨b, w', rfl, left, right, .refl w, .refl w', agree, ?_⟩
    exact List.Forall₂.imp (fun n m => stands (n, m)) known
  | throw e e' =>
    intro w w' v a _ _ _ ran
    cases throw_eq_ok ran
  | constant shape elementType data =>
    intro w w' v n left right stands ran
    obtain ⟨next, keeps, member⟩ := left.constant ran
    obtain ⟨bytes, typed, filled, _⟩ := left.constant_type ran
    obtain ⟨m, v', ran'⟩ := constant_returns (w := w') typed filled
    obtain ⟨next', keeps', member'⟩ := right.constant ran'
    obtain ⟨_, typed', _, _⟩ := right.constant_type ran'
    have same : n.type = m.type := Except.ok.inj (typed.symm.trans typed')
    exact ⟨m, v', ran', next, next', keeps, keeps', same, .cons ⟨member, member', same⟩ .nil⟩
  | @apply pairs kind as bs es known bare =>
    intro w w' v n left right stands ran
    have paired : List.Forall₂ (fun n m => StandsFor w w' (n, m)) as bs :=
      List.Forall₂.imp (fun n m => stands (n, m)) known
    obtain ⟨own, own', types⟩ := stands_all paired
    obtain ⟨ps, normal, inferred, _⟩ := left.apply own ran
    obtain ⟨next, keeps, member⟩ := left.applied own ran
    rw [types] at normal inferred
    obtain ⟨m, v', ran'⟩ := apply_returns (right.rules.builtin kind) (fun x input => right.owns (own' x input))
      normal inferred
    obtain ⟨ps', normal', inferred', _⟩ := right.apply own' ran'
    obtain ⟨next', keeps', member'⟩ := right.applied own' ran'
    have same : n.type = m.type := by
      cases normal.symm.trans normal'
      exact Except.ok.inj (inferred.symm.trans inferred')
    exact ⟨m, v', ran', next, next', keeps, keeps', same, .cons ⟨member, member', same⟩ .nil⟩
  | @bind α β pairs form form' x y f f' first rest ih ihs =>
    intro w w' v c left right stands ran
    obtain ⟨a, middle, here, later⟩ := bind_eq_ok.mp ran
    obtain ⟨b, middle', here', both⟩ := ih left right stands here
    have known : ∀ p ∈ (form.nodes a).zip (form.nodes b) ++ pairs, StandsFor middle middle' p := by
      intro p member
      rcases List.mem_append.mp member with new | old
      · exact (List.forall₂_iff_zip.mp both.stands).2 new
      · obtain ⟨here, there, typed⟩ := stands p old
        exact ⟨both.keeps.mem here, both.keeps'.mem there, typed⟩
    obtain ⟨d, v', ran', then_⟩ := ihs a b both.agree both.left both.right known later
    refine ⟨d, v', bind_eq_ok.mpr ⟨b, middle', here', ran'⟩, then_.left, then_.right, ?_, ?_, then_.agree, then_.stands⟩
    · exact both.keeps.trans then_.keeps
    · exact both.keeps'.trans then_.keeps'

end Building.Parallel
end TensorDag
