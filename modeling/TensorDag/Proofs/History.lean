import Mathlib.Logic.Relation
import TensorDag.Buffer.Access
import TensorDag.Proofs.Aftermath
import TensorDag.Proofs.Growth

/-!
Plans over time. Between two executions callers may execute the plan in any other way, release its
buffers, change the contents of theirs and build on; the plan's own buffers stay its own.
-/
namespace TensorDag
variable [Memory]
namespace Execution
open Program

/-- What executions of a plan start from, and the buffers that callers hold. -/
structure Session where
  state : State
  known : BufferId → Prop

namespace Session
variable {p : Plan} {session session' : Session}

/-- A value that callers can hand in. -/
def MayHand (session : Session) (v : Value) : Prop :=
  ∀ id content, v = .buffer id content → session.known id

/-- What may happen to a plan. -/
inductive Happens (p : Plan) (session : Session) : Session → Prop
  | executed {profiled : Bool} {bindings : List (Value × Value)} {supplied : Option (List Value)}
    {ids : List BufferId} {s' : State} (given : ∀ pair ∈ bindings, session.MayHand pair.2)
    (handed : ∀ vs, supplied = some vs → ∀ v ∈ vs, session.MayHand v)
    (ran : run profiled p bindings supplied session.state = .ok ids s') :
    Happens p session ⟨s', fun id => session.known id ∨ id ∈ ids⟩
  | failed {profiled : Bool} {bindings : List (Value × Value)} {supplied : Option (List Value)}
    {e : Error} {s' : State} (given : ∀ pair ∈ bindings, session.MayHand pair.2)
    (handed : ∀ vs, supplied = some vs → ∀ v ∈ vs, session.MayHand v)
    (ran : run profiled p bindings supplied session.state = .error e s') :
    Happens p session ⟨s', session.known⟩
  | released : Happens p session ⟨{ session.state with storage := [] }, session.known⟩
  | changed {id : BufferId} {change : Buffer → Result Buffer} {store : Store} (own : session.known id)
    (made : session.state.store.update id change = .ok store) :
    Happens p session ⟨{ session.state with store }, session.known⟩
  | locked {id : BufferId} (own : session.known id) :
    Happens p session ⟨{ session.state with store := session.state.store.markReadonly id }, session.known⟩
  | built {rules : ShapeRules} {graph : Graph} {call : BuilderCall} {store : Store}
    (made : (final call.run ⟨rules, graph, session.state.store⟩).store = store) :
    Happens p session ⟨{ session.state with store },
      fun id => session.known id ∨ session.state.store.size ≤ id ∧ id < store.size⟩

/-- Anything that happened to a plan, one thing after the other. -/
abbrev History (p : Plan) : Session → Session → Prop := Relation.ReflTransGen (Happens p)

/-- A plan that was compiled and never executed: all buffers are its caller's. -/
def fresh (store : Store) (streams : Streams) (profile : Profile) : Session :=
  ⟨⟨store, streams, [], profile⟩, fun id => id < store.size⟩

/-- Callers hold the buffers of leaves, and none of the plan's own. -/
structure Sound (p : Plan) (session : Session) : Prop where
  kept : Kept p session.state
  visible : ∀ id, session.known id → Visible p session.state id
  leaves : ∀ leaf ∈ p.leaves, ∀ id, leaf.node.buffer = some id → session.known id

theorem Sound.onward (sound : Sound p session) {s' : State} (onward : Onward p session.state s')
    {known : BufferId → Prop} (own : ∀ id, session.known id → known id)
    (new : ∀ id, known id → session.known id ∨ Visible p s' id) : Sound p ⟨s', known⟩ where
  kept := onward.kept
  visible id here := (new id here).elim (fun old => onward.visible id (sound.visible id old)) fun new => new
  leaves leaf member id found := own id (sound.leaves leaf member id found)

private theorem Sound.stored (sound : Sound p session) {id : BufferId} (own : session.known id) {store : Store}
    (size : store.size = session.state.store.size)
    (others : ∀ other, other ≠ id → store.get other = session.state.store.get other) :
    Sound p ⟨{ session.state with store }, session.known⟩ := by
  have onward : Onward p session.state { session.state with store } := by
    refine sound.kept.shrink (fun _ _ found => found) (Nat.le_of_eq size.symm) fun other hidden => ?_
    have differ : other ≠ id := fun same => (sound.visible id own).2 (same ▸ hidden)
    rw [others other differ]
    exact ⟨rfl, rfl⟩
  exact sound.onward onward (fun _ known => known) fun _ => .inl

/-- Whatever happens to a valid plan, its buffers stay its own. -/
theorem Sound.happens (sound : Sound p session) (valid : p.Valid)
    (shared : ∀ place ∈ p.outputSlots, Public p place) (happens : Happens p session session') :
    Sound p session' := by
  have leaves : ∀ leaf ∈ p.leaves, ∀ id, leaf.node.buffer = some id → Visible p session.state id :=
    fun leaf member id found => sound.visible id (sound.leaves leaf member id found)
  have runs : ∀ (profiled : Bool) (bindings : List (Value × Value)) (supplied : Option (List Value)),
      (∀ pair ∈ bindings, session.MayHand pair.2) →
        (∀ vs, supplied = some vs → ∀ v ∈ vs, session.MayHand v) →
          Ensures (run profiled p bindings supplied) session.state (GoesOnward p session.state)
            (fun s' => Onward p session.state s') :=
    fun profiled bindings supplied given handed => run_onward valid sound.kept shared leaves
      (fun key id content member => sound.visible id (given _ member id content rfl))
      (fun vs same id content member => sound.visible id (handed vs same _ member id content rfl)) profiled
  cases happens with
  | executed given handed ran =>
    obtain ⟨onward, results⟩ := (runs _ _ _ given handed).of_ok ran
    exact sound.onward onward (fun _ => .inl) fun id known => known.imp_right (results id)
  | failed given handed ran =>
    exact sound.onward ((runs _ _ _ given handed).of_error ran) (fun _ known => known) fun _ => .inl
  | released =>
    exact sound.onward sound.kept.released (fun _ known => known) fun _ => .inl
  | changed own made =>
    simp only [Store.update, Result.bind_eq_ok, Result.pure_eq_ok] at made
    obtain ⟨b, _, rfl⟩ := made
    exact sound.stored own (Store.size_overwrite ..) fun other => Store.get_overwrite_of_ne b.bytes
  | locked own =>
    exact sound.stored own (Store.size_markReadonly ..) fun other => Store.get_markReadonly_of_ne
  | @built rules graph call store made =>
    have extended := call.extends_final ⟨rules, graph, session.state.store⟩
    rw [made] at extended
    have onward : Onward p session.state { session.state with store } := sound.kept.extends ⟨extended, rfl⟩
    refine sound.onward onward (fun _ => .inl) fun id known => known.imp_right ?_
    rintro ⟨late, inside⟩
    refine ⟨inside, ?_⟩
    rintro ⟨slot, member, role, held⟩
    exact sound.kept.fresh late ⟨slot, member, role, held⟩

theorem Sound.history (sound : Sound p session) (valid : p.Valid)
    (shared : ∀ place ∈ p.outputSlots, Public p place) (history : History p session session') :
    Sound p session' := by
  induction history with
  | refl => exact sound
  | tail _ happens ih => exact ih.happens valid shared happens

theorem fresh_sound {store : Store} (streams : Streams) (profile : Profile)
    (leaves : ∀ leaf ∈ p.leaves, ∀ id, leaf.node.buffer = some id → id < store.size) :
    Sound p (fresh store streams profile) :=
  have start : Kept p (fresh store streams profile).state := kept_of_empty rfl
  ⟨start, fun _ inside => visible_of_empty rfl inside, leaves⟩

end Session
end Execution
end TensorDag
