import TensorDag.Proofs.Sealing
import TensorDag.Proofs.Stepping

/-!
The moves of an execution. It makes buffers, puts them into slots, writes to them, moves streams on and counts
kernels; where all of these go along a relation, an execution does so, up to what it records and discards at its
end.
-/
namespace TensorDag.Execution
open Program
variable {α β : Type} {R : State → State → Prop} {p : Plan} {s : State}

/-- However a part of an execution ends, it has gone along a relation. -/
def Along (R : State → State → Prop) (x : Execution α) : Prop :=
  ∀ s, Ensures x s (fun _ s' => R s s') (fun s' => R s s')

/-- A relation for what executions do one after the other. -/
structure ExecutionOrder (R : State → State → Prop) : Prop where
  refl : ∀ s, R s s
  trans : ∀ {s s' s'' : State}, R s s' → R s' s'' → R s s''
  allocated : ∀ (s : State) (b : Buffer), R s { s with store := (s.store.insert b).2 }

/-- A relation that all moves of an execution go along. -/
structure MoveOrder (R : State → State → Prop) : Prop extends ExecutionOrder R where
  put : ∀ (s : State) (slot : Int) (id : BufferId), R s { s with storage := s.storage.put slot id }
  written : ∀ (s : State) (id : BufferId) (bytes : Bytes), bytes.size = (s.store.get id).size →
    (s.store.get id).readonly = false → R s { s with store := s.store.overwrite id bytes }
  streamed : ∀ (s : State) (streams : Streams), R s { s with streams }
  counted : ∀ (s : State) (kind : String) (time : Double), R s { s with profile := s.profile.recordKernel kind time }

namespace ExecutionOrder

theorem pure (course : ExecutionOrder R) (a : α) : Along R (Pure.pure a : Execution α) := fun s => .pure (course.refl s)

theorem throw (course : ExecutionOrder R) (e : Error) : Along R (throw e : Execution α) :=
  fun s => .throw (course.refl s)

theorem of (course : ExecutionOrder R) (result : Result α) : Along R (of result) := fun s =>
  ensures_of (fun _ _ => course.refl s) fun _ _ => course.refl s

theorem get (course : ExecutionOrder R) : Along R (MonadState.get : Execution State) := fun s => .get (course.refl s)

theorem modify {f : State → State} (goes : ∀ s, R s (f s)) : Along R (modify f) := fun s => .modify (goes s)

theorem bind (course : ExecutionOrder R) {x : Execution α} {f : α → Execution β} (first : Along R x)
    (rest : ∀ a, Along R (f a)) : Along R (x >>= f) := fun s =>
  .bind ((first s).weaken
    (fun a s' here => (rest a s').weaken (fun _ _ => course.trans here) fun _ => course.trans here) fun _ here => here)

theorem forM (course : ExecutionOrder R) {f : α → Execution PUnit} (all : ∀ a, Along R (f a)) (as : List α) :
    Along R (as.forM f) := by
  induction as with
  | nil => exact course.pure _
  | cons a rest ih => exact course.bind (all a) fun _ => ih

theorem held (course : ExecutionOrder R) (slot : Int) : Along R (held slot) := fun s =>
  (held_spec slot).weaken (fun _ _ same => same.1 ▸ course.refl s) fun _ same => same.1 ▸ course.refl s

theorem allocate (course : ExecutionOrder R) (b : Buffer) : Along R (allocate b) := fun s =>
  ensures_allocate (course.allocated s b)

theorem boundBuffer (course : ExecutionOrder R) (n : Node) (v : Value) : Along R (boundBuffer n v) := by
  cases v with
  | buffer id content => exact course.pure _
  | _ => exact course.bind (course.of _) fun _ => course.allocate _

/-- Bindings are checked along any relation that making buffers goes along. -/
theorem bindAll (course : ExecutionOrder R) (p : Plan) (pairs : List (Value × Value)) (bound : Bindings) :
    Along R (bindAll p pairs bound) := by
  induction pairs generalizing bound with
  | nil => exact course.pure _
  | cons pair rest ih =>
    obtain ⟨key, v⟩ := pair
    cases key with
    | node n =>
      have sized : ∀ id, Along R (do
          let size := ((← MonadState.get).store.get id).size
          if size ≠ n.byteSize then MonadExcept.throw (.bindingSize n.name n.type size)
          Execution.bindAll p rest (if n.isIn (p.leaves.map LeafSlot.node) then (n.id, id) :: bound else bound)) := by
        refine fun id => course.bind course.get fun s => ?_
        dsimp only
        split
        · exact course.bind (course.throw _) fun _ => ih _
        · exact ih _
      rw [Execution.bindAll]
      split
      · exact course.bind (course.throw _) fun _ => course.bind (course.boundBuffer n v) sized
      · exact course.bind (course.boundBuffer n v) sized
    | _ => exact course.throw _

section
variable (course : ExecutionOrder R)
  (puts : ∀ (s : State) (slot : Int) (id : BufferId), R s { s with storage := s.storage.put slot id })
include course puts

theorem putLeaf (bound : Bindings) (leaf : LeafSlot) : Along R (putLeaf bound leaf) := by
  unfold Execution.putLeaf
  split
  · exact modify fun s => puts s _ _
  · exact course.pure _

theorem prepareSlot [Memory] (slot : Slot) : Along R (prepareSlot slot) := by
  have zeros : Along R (allocateZeros slot.size) := by
    unfold allocateZeros
    split
    · exact course.throw _
    · exact course.bind (course.of _) fun _ => course.allocate _
  have filled : Along R (do Execution.put slot.index (← allocateZeros slot.size)) :=
    course.bind zeros fun id => modify fun s => puts s slot.index id
  unfold Execution.prepareSlot
  split
  · exact filled
  · refine course.bind course.get fun s => ?_
    split
    · exact filled
    · exact course.pure _
  · exact course.pure _

theorem claim (entries : List ((Node × Int) × BufferId)) (claimed : List Int) : Along R (claim entries claimed) := by
  induction entries generalizing claimed with
  | nil => exact course.pure _
  | cons entry rest ih =>
    rw [Execution.claim]
    split
    · exact ih _
    · exact course.bind (modify fun s => puts s _ _) fun _ => ih _

theorem prepare [Memory] (p : Plan) (bound : Bindings) (supplied : Option (List BufferId)) :
    Along R (prepare p bound supplied) :=
  course.bind (course.forM (course.putLeaf puts bound) _) fun _ =>
    course.bind (course.forM (course.prepareSlot puts) _) fun _ => course.claim puts _ _

end

section
variable (course : ExecutionOrder R)
  (writes : ∀ (s : State) (id : BufferId) (bytes : Bytes), bytes.size = (s.store.get id).size →
    (s.store.get id).readonly = false → R s { s with store := s.store.overwrite id bytes })
include course writes

theorem write (id : BufferId) (bytes : Bytes) : Along R (write id bytes) := by
  refine fun s => .bind (.get (.bind (ensures_of (fun store written => .set ?_) fun _ _ => course.refl s)))
  simp only [Store.write, Store.update, Result.bind_eq_ok, Result.pure_eq_ok] at written
  obtain ⟨b, accepted, rfl⟩ := written
  obtain ⟨writable, size⟩ := Buffer.respects_set bytes _ b accepted
  exact writes s id b.bytes size writable

/-- Outputs are collected along any relation that making buffers and writing to them goes along. -/
theorem collect (entries : List ((Node × Int) × Option BufferId)) (seen : List Int) :
    Along R (collect entries seen) := by
  have one : ∀ n slot target seen, Along R (collectOne n slot target seen) := by
    intro n slot target seen
    refine course.bind (course.held slot) fun id => ?_
    split
    · refine course.bind course.get fun s => ?_
      cases target with
      | some target => exact course.bind (course.write writes _ _) fun _ => course.pure _
      | none => exact course.allocate _
    · exact course.pure _
  induction entries generalizing seen with
  | nil => exact course.pure _
  | cons entry rest ih => exact course.bind (one _ _ _ _) fun _ => course.bind (ih _) fun _ => course.pure _

end

end ExecutionOrder

namespace MoveOrder

theorem prepareSlot [Memory] (moves : MoveOrder R) (slot : Slot) : Along R (prepareSlot slot) :=
  moves.toExecutionOrder.prepareSlot moves.put slot

theorem claim (moves : MoveOrder R) (entries : List ((Node × Int) × BufferId)) (claimed : List Int) :
    Along R (claim entries claimed) :=
  moves.toExecutionOrder.claim moves.put entries claimed

theorem prepare [Memory] (moves : MoveOrder R) (p : Plan) (bound : Bindings) (supplied : Option (List BufferId)) :
    Along R (prepare p bound supplied) :=
  moves.toExecutionOrder.prepare moves.put p bound supplied

/-- A step moves a stream on, writes to one buffer that is not read-only, and counts its kernel. -/
theorem runStep [Memory] (moves : MoveOrder R) (profiled : Bool) (step : Step) : Along R (runStep profiled step) := by
  intro s
  unfold Execution.runStep
  refine .bind ((mapM_held_spec step.inputSlots).weaken ?_ fun _ same => same.1 ▸ moves.refl s)
  rintro ids _ ⟨rfl, _⟩
  refine .bind ((held_spec step.outputSlot).weaken ?_ fun _ same => same.1 ▸ moves.refl s)
  rintro out _ ⟨rfl, _⟩
  refine .bind (.get ?_)
  cases outcome : step.kernel.run step.node (ids.map fun id => (s.store.get id).bytes) (s.store.get out) s.streams with
  | mk result streams =>
    have moved := moves.streamed s streams
    have counts : Along R (if profiled then
        modify fun s => { s with profile := s.profile.recordKernel step.node.kind .zero }
        else Pure.pure ⟨⟩ : Execution Unit) := by
      cases profiled with
      | true => exact ExecutionOrder.modify fun s => moves.counted s _ _
      | false => exact moves.pure _
    refine .bind (.set (.bind (ensures_of ?_ fun _ _ => moved)))
    rintro written rfl
    cases written with
    | none => exact (counts _).weaken (fun _ _ => moves.trans moved) fun _ => moves.trans moved
    | some bytes =>
      obtain ⟨size, writable⟩ := Kernel.run_size (congrArg Prod.fst outcome)
      have stored := moves.trans moved (moves.written { s with streams } out bytes size writable)
      exact .bind (.modify ((counts _).weaken (fun _ _ => moves.trans stored) fun _ => moves.trans stored))

theorem collect (moves : MoveOrder R) (entries : List ((Node × Int) × Option BufferId)) (seen : List Int) :
    Along R (collect entries seen) :=
  moves.toExecutionOrder.collect moves.written entries seen

end MoveOrder

/-- The state behind an execution that records that it returned. -/
def recorded (s : State) : State :=
  { s with profile := (s.profile.recordMemory (s.storage.byteSize s.store)).recordExecution }

theorem MoveOrder.runSteps [Memory] (moves : MoveOrder R) (discards : ∀ s, R s (discard p s)) (profiled : Bool)
    (supplied : Option (List BufferId)) : Ensures (discarding p (runSteps profiled p supplied)) s
      (fun _ s' => ∃ s₁, R s s₁ ∧ s' = discard p (recorded s₁)) (fun s' => R s s') := by
  refine ensures_discarding (.bind ((moves.forM (moves.runStep profiled) p.steps s).weaken ?_ ?_))
  · intro _ s₁ ran
    refine .bind ((moves.collect _ _ s₁).weaken ?_ ?_)
    · exact fun results s₂ collected => .bind (.modify (.pure ⟨s₂, moves.trans ran collected, rfl⟩))
    · exact fun s₂ collected => moves.trans (moves.trans ran collected) (discards s₂)
  · exact fun s₁ ran => moves.trans ran (discards s₁)

/-- Whatever is executed, it goes along the relation of its moves until it records and discards. -/
theorem MoveOrder.run [Memory] (moves : MoveOrder R) (discards : ∀ s, R s (discard p s)) (profiled : Bool)
    (bindings : List (Value × Value)) (supplied : Option (List Value)) :
    Ensures (run profiled p bindings supplied) s (fun _ s' => ∃ s₁, R s s₁ ∧ s' = discard p (recorded s₁))
      (fun s' => R s s') := by
  unfold Execution.run
  refine .bind ((moves.bindAll p bindings [] s).weaken ?_ fun _ => id)
  intro bound s₁ first
  refine .bind (ensures_of (fun _ _ => .bind (.get (.bind (ensures_of ?_ fun _ _ => first)))) fun _ _ => first)
  intro ids _
  refine .bind ((moves.prepare p bound ids s₁).weaken ?_ fun _ => moves.trans first)
  intro _ s₂ prepared
  have second := moves.trans first prepared
  refine (moves.runSteps discards profiled ids).weaken ?_ fun _ => moves.trans second
  rintro _ _ ⟨s₃, ran, rfl⟩
  exact ⟨s₃, moves.trans second ran, rfl⟩

theorem moves_later : MoveOrder fun s s' => s.store.Later s'.store where
  refl s := .refl s.store
  trans := .trans
  allocated s b := (Store.extends_insert s.store b).later
  put s _ _ := .refl s.store
  written _ _ _ := Store.later_overwrite
  streamed s _ := .refl s.store
  counted s _ _ := .refl s.store

theorem run_later [Memory] (profiled : Bool) (p : Plan) (bindings : List (Value × Value))
    (supplied : Option (List Value))
    (s : State) : s.store.Later (final (run profiled p bindings supplied) s).store := by
  have spec : Ensures (run profiled p bindings supplied) s _ _ :=
    moves_later.run (fun s => .refl s.store) profiled bindings supplied
  unfold final
  cases ran : run profiled p bindings supplied s with
  | ok ids s' =>
    obtain ⟨s₁, later, rfl⟩ := spec.of_ok ran
    exact later
  | error e s' => exact spec.of_error ran

end TensorDag.Execution
