import TensorDag.Proofs.Ensemble
import TensorDag.Proofs.Moves
import TensorDag.Proofs.Requests

/-!
Constants for good. Callers build on any of their graphs, write to any buffer that there is, and execute and
release any plans, with any buffers bound and supplied. A constant keeps the bytes that it was made with, the
memo finds it by these bytes, and no other constant of its graph has them.
-/
namespace TensorDag
open Execution Program

/-- Nothing is written to a buffer, now or in an execution under way: not by callers, as a whole or through a
view of any type, not when an output is copied there, and not by a step, whose kernel may leave it alone if it
is a caller's. -/
structure Store.Refuses [Memory] (store : Store) (id : BufferId) : Prop where
  data : ∀ v, ∃ e, store.update id (·.setData v) = .error e
  elements : ∀ type index v, ∃ e, store.update id (·.setElements type index v) = .error e
  copies : ∀ bytes (s : State), store.Later s.store → ∃ e, Execution.write id bytes s = .error e s
  steps : ∀ profiled step (s s' : State), store.Later s.store → s.storage.get? step.outputSlot = some id →
    runStep profiled step s = .ok () s' → s'.store = s.store ∧ ∃ name run, step.kernel = .custom name run

theorem Store.refuses [Memory] {store : Store} {id : BufferId} (inside : id < store.size)
    (fixed : (store.get id).readonly = true) : store.Refuses id where
  data v := Respects.refused (Buffer.respects_setData v) fixed
  elements type index v := Respects.refused (Buffer.respects_setElements type index v) fixed
  copies bytes s later := by
    have fixed : (s.store.get id).readonly = true := by rw [later.sealed id inside fixed, fixed]
    obtain ⟨e, refused⟩ := Respects.refused (Buffer.respects_set bytes) fixed
    have failed : Execution.of (s.store.write id bytes) s = .error e s := by
      rw [Store.write, refused]
      rfl
    exact ⟨e, bind_eq_error.mpr (.inr ⟨s, s, run_get, bind_eq_error.mpr (.inl failed)⟩)⟩
  steps profiled step s s' later held ran := by
    have fixed : (s.store.get id).readonly = true := by rw [later.sealed id inside fixed, fixed]
    obtain ⟨_, ids, out, written, run, left⟩ := (runStep_spec profiled step).of_ok ran
    cases Option.some.inj (held.symm.trans run.output)
    cases written with
    | some bytes =>
      have writable := (Kernel.run_size run.kernel).2
      rw [fixed] at writable
      cases writable
    | none =>
      refine ⟨left, ?_⟩
      cases kernel : step.kernel with
      | custom name run => exact ⟨name, run, rfl⟩
      | host kind =>
        have returned := run.kernel
        rw [kernel] at returned
        obtain ⟨_, impossible⟩ := Kernel.run_some returned
        cases impossible

/-- Graphs and plans over one store. -/
structure Realm where
  store : Store
  streams : Streams
  graphs : List Graph
  members : List Member

namespace Realm
variable {shapes : ShapeRules} {r r' r'' : Realm} {g : Graph} {n : Node} {i : Nat}

def opening (store : Store) (streams : Streams) : Realm := ⟨store, streams, [], []⟩

/-- A graph of the realm with the rules and the store that calls on it see. -/
def workspace (shapes : ShapeRules) (r : Realm) (g : Graph) : Workspace := ⟨shapes, g, r.store⟩

def grown (r : Realm) (i : Nat) (w : Workspace) : Realm :=
  { r with store := w.store, graphs := r.graphs.set i w.graph }

/-- The state that executions of a member start from. -/
def state (r : Realm) (m : Member) : State := ⟨r.store, r.streams, m.storage, m.profile⟩

/-- The realm behind an execution of the member at a place, however it ended. -/
def behind (r : Realm) (i : Nat) (m : Member) (s : State) : Realm :=
  { r with
    store := s.store
    streams := s.streams
    members := r.members.set i { m with storage := s.storage, profile := s.profile } }

/-- What callers may do. -/
inductive Happens [Memory] (shapes : ShapeRules) (r : Realm) : Realm → Prop
  | founded (id : Nat) (name : Value) : Happens shapes r { r with graphs := r.graphs ++ [.empty id name] }
  | asked {i : Nat} {g : Graph} (here : r.graphs[i]? = some g) (q : Request)
    (fit : q.Fits shapes (r.workspace shapes g)) :
    Happens shapes r (r.grown i (final q.run (r.workspace shapes g)))
  | made (b : Buffer) : Happens shapes r { r with store := (r.store.insert b).2 }
  | written {id : BufferId} {v : Value} {store : Store} (made : r.store.update id (·.setData v) = .ok store) :
    Happens shapes r { r with store }
  | poked {id : BufferId} {type : TensorType} {index : List Value} {v : Value} {store : Store}
    (made : r.store.update id (·.setElements type index v) = .ok store) : Happens shapes r { r with store }
  | locked (id : BufferId) : Happens shapes r { r with store := r.store.markReadonly id }
  | joined (m : Member) : Happens shapes r { r with members := r.members ++ [m] }
  | executed {i : Nat} {m : Member} (here : r.members[i]? = some m) (profiled : Bool)
    (bindings : List (Value × Value)) (supplied : Option (List Value)) :
    Happens shapes r (r.behind i m (final (run profiled m.plan bindings supplied) (r.state m)))
  | released {i : Nat} {m : Member} (here : r.members[i]? = some m) :
    Happens shapes r { r with members := r.members.set i { m with storage := [] } }

/-- Anything that callers did, one thing after the other. -/
abbrev History [Memory] (shapes : ShapeRules) : Realm → Realm → Prop := Relation.ReflTransGen (Happens shapes)

/-- All graphs are right. -/
def Coherent (shapes : ShapeRules) (r : Realm) : Prop :=
  ∀ g ∈ r.graphs, (r.workspace shapes g).Coherent (· = shapes)

/-- What stays of a realm: read-only buffers, and nodes in their graphs. -/
structure Keeps (r r' : Realm) : Prop where
  later : r.store.Later r'.store
  graphs : ∀ (i : Nat) (g : Graph), r.graphs[i]? = some g →
    ∃ g', r'.graphs[i]? = some g' ∧ ∀ n ∈ g.nodes, n ∈ g'.nodes

theorem Keeps.refl (r : Realm) : r.Keeps r := ⟨.refl _, fun _ g here => ⟨g, here, fun _ => id⟩⟩

theorem Keeps.trans (first : r.Keeps r') (second : r'.Keeps r'') : r.Keeps r'' where
  later := first.later.trans second.later
  graphs i g here := by
    obtain ⟨g', there, nodes⟩ := first.graphs i g here
    obtain ⟨g'', last, others⟩ := second.graphs i g' there
    exact ⟨g'', last, fun n member => others n (nodes n member)⟩

theorem Coherent.stored (coherent : r.Coherent shapes) (later : r.store.Later r'.store) (same : r'.graphs = r.graphs) :
    r'.Coherent shapes ∧ r.Keeps r' := by
  refine ⟨fun g member => (coherent g (same ▸ member)).stored later, later, fun i g here => ⟨g, ?_, fun _ => id⟩⟩
  rw [same, here]

theorem Coherent.happens [Memory] (proper : shapes.Proper) (coherent : r.Coherent shapes)
    (happens : r.Happens shapes r') : r'.Coherent shapes ∧ r.Keeps r' := by
  cases happens with
  | founded id name =>
    refine ⟨fun g member => ?_, .refl _, fun i g here => ⟨g, ?_, fun _ member => member⟩⟩
    · rcases List.mem_append.mp member with old | new
      · exact coherent g old
      · cases List.mem_singleton.mp new
        exact .empty id name shapes r.store rfl
    · exact (List.getElem?_append_left (List.getElem?_eq_some_iff.mp here).1).trans here
  | @asked i g here q fit =>
    have advances := Request.advances proper (coherent g (List.mem_of_getElem? here)) fit
    have inside : i < r.graphs.length := (List.getElem?_eq_some_iff.mp here).1
    refine ⟨fun g' member => ?_, advances.store.later, fun j g' there => ?_⟩
    · rcases List.mem_or_eq_of_mem_set member with old | rfl
      · exact (coherent g' old).stored advances.store.later
      · have right := advances.coherent
        exact ⟨right.toOrdered, rfl, right.typed, right.fixed, right.filed, right.known, right.single⟩
    · by_cases same : j = i
      · subst same
        cases Option.some.inj (here.symm.trans there)
        refine ⟨_, List.getElem?_set_self inside, fun n member => ?_⟩
        obtain ⟨place, found⟩ := Array.mem_iff_getElem?.mp member
        exact Array.mem_of_getElem? (advances.keeps.nodes place n found)
      · exact ⟨g', (List.getElem?_set_ne (Ne.symm same)).trans there, fun _ => id⟩
  | made b => exact coherent.stored (Store.extends_insert r.store b).later rfl
  | written made => exact coherent.stored (Store.Respects.later (Buffer.respects_setData _) made) rfl
  | poked made => exact coherent.stored (Store.Respects.later (Buffer.respects_setElements _ _ _) made) rfl
  | locked id => exact coherent.stored (Store.later_markReadonly r.store id) rfl
  | joined m => exact coherent.stored (.refl _) rfl
  | @executed i m here profiled bindings supplied =>
    exact coherent.stored (run_later profiled m.plan bindings supplied (r.state m)) rfl
  | released here => exact coherent.stored (.refl _) rfl

theorem Coherent.history [Memory] (proper : shapes.Proper) (coherent : r.Coherent shapes)
    (history : r.History shapes r') : r'.Coherent shapes ∧ r.Keeps r' := by
  induction history with
  | refl => exact ⟨coherent, .refl r⟩
  | tail _ happens ih =>
    obtain ⟨next, keeps⟩ := ih.1.happens proper happens
    exact ⟨next, ih.2.trans keeps⟩

/-- Whatever callers do, a constant keeps its bytes and its flag, and nothing is written to it; the memo finds it
by its type and its bytes, and no other constant of its graph has both. -/
theorem constants_stay [Memory] (proper : shapes.Proper) {store : Store} {streams : Streams}
    (life : (opening store streams).History shapes r) (here : r.graphs[i]? = some g) (member : n ∈ g.nodes)
    (constant : n.kind = "constant") :
    ∃ id bytes, n.buffer = some id ∧ ∀ r', r.History shapes r' →
      r'.store.get id = ⟨bytes, true⟩ ∧ r'.store.Refuses id ∧
        ∃ g', r'.graphs[i]? = some g' ∧ n ∈ g'.nodes ∧ g'.find? (.constant n.type bytes) = some n ∧
          ∀ m ∈ g'.nodes, m.kind = "constant" → m.type = n.type → ∀ other, m.buffer = some other →
            (r'.store.get other).bytes = bytes → m = n := by
  have coherent : r.Coherent shapes :=
    (Coherent.history proper (fun _ member => by cases member) life).1
  obtain ⟨id, own, inside, fixed⟩ := (coherent g (List.mem_of_getElem? here)).fixed n member constant
  refine ⟨id, (r.store.get id).bytes, own, fun r' history => ?_⟩
  obtain ⟨right, keeps⟩ := coherent.history proper history
  have same : r'.store.get id = r.store.get id := keeps.later.sealed id inside fixed
  obtain ⟨g', there, nodes⟩ := keeps.graphs i g here
  have invariant := (right g' (List.mem_of_getElem? there)).satisfied
  have old : id < r'.store.size := Nat.lt_of_lt_of_le inside keeps.later.grows
  have key : n.key? r'.store = some (.constant n.type (r.store.get id).bytes) := by
    rw [Node.key?, if_pos constant, own, Option.map_some, same]
  have stored := same.trans (congrArg (Buffer.mk _) fixed)
  refine ⟨stored, Store.refuses old (same ▸ fixed), g', there, nodes n member, ?_, ?_⟩
  · exact (right g' (List.mem_of_getElem? there)).filed n (nodes n member) _ key
  · intro m listed kind typed other held content
    refine invariant.apart m listed n (nodes n member) _ ?_ key
    rw [Node.key?, if_pos kind, held, Option.map_some, typed]
    exact congrArg (fun bytes => some (MemoKey.constant n.type bytes)) content

end Realm

namespace Sample

def twoInts : Node := ⟨⟨0, 0⟩, "constant", [], [], ⟨.int32, [2]⟩, some 0⟩

theorem constants_stay_twoInts :
    let w := final (Request.constant (.list [.int 2]) (.elementType .int32) (.list [.int 3, .int (-1)])).run
      ⟨.standard, .empty 0 .null, .empty⟩
    let r : Realm := ⟨w.store, [], [w.graph], []⟩
    w.graph.nodes = #[twoInts] ∧ ∃ id bytes, twoInts.buffer = some id ∧ ∀ r', r.History .standard r' →
      r'.store.get id = ⟨bytes, true⟩ ∧ r'.store.Refuses id ∧
        ∃ g', r'.graphs[0]? = some g' ∧ twoInts ∈ g'.nodes ∧ g'.find? (.constant ⟨.int32, [2]⟩ bytes) = some twoInts ∧
          ∀ m ∈ g'.nodes, m.kind = "constant" → m.type = ⟨.int32, [2]⟩ → ∀ other, m.buffer = some other →
            (r'.store.get other).bytes = bytes → m = twoInts := by
  intro w r
  have made : w.graph.nodes = #[twoInts] := by rfl
  have life : (Realm.opening .empty []).History .standard r :=
    .tail (.tail .refl (.founded 0 .null)) (.asked (i := 0) rfl _ trivial)
  exact ⟨made, Realm.constants_stay ShapeRules.standard_proper life (i := 0) (n := twoInts) rfl
    (made ▸ Array.mem_singleton.mpr rfl) rfl⟩

end Sample
end TensorDag
