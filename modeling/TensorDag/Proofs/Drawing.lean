import Mathlib.Logic.Function.Iterate
import TensorDag.Proofs.Checking
import TensorDag.Proofs.Computing

/-!
Draws of samples. A stream yields its samples by number; a node's run takes as many as it has elements, behind those
that its earlier runs took. The calls that an execution makes are logged here, so that each of them can be told from
the calls before it.
-/
namespace TensorDag
open Program

namespace Random.Stream
variable {s : Stream}

def skip (count : Nat) (s : Stream) : Stream := (fun s => s.sample.2)^[count] s

def nth (s : Stream) (i : Nat) : Double := (s.skip i).sample.1

theorem skip_succ (count : Nat) (s : Stream) : s.skip (count + 1) = s.sample.2.skip count :=
  Function.iterate_succ_apply ..

theorem skip_skip (first second : Nat) (s : Stream) : (s.skip first).skip second = s.skip (first + second) := by
  rw [skip, skip, skip, Nat.add_comm, Function.iterate_add_apply]

theorem nth_skip (count i : Nat) (s : Stream) : (s.skip count).nth i = s.nth (count + i) := by
  rw [nth, nth, skip_skip]

theorem samples_eq (count : Nat) (s : Stream) : s.samples count = ((List.range count).map s.nth, s.skip count) := by
  induction count generalizing s with
  | zero => rfl
  | succ count ih =>
    have later : ∀ i, s.sample.2.nth i = s.nth (i + 1) := fun i => by rw [nth, nth, skip_succ]
    have steps : s.samples (count + 1) =
        (s.sample.1 :: (s.sample.2.samples count).1, (s.sample.2.samples count).2) := by
      rw [samples]
    rw [steps, ih, skip_succ, List.range_succ_eq_map, List.map_cons, List.map_map]
    exact congrArg (fun rest => (s.nth 0 :: rest, _)) (List.map_congr_left fun i _ => later i)

end Random.Stream

namespace Streams
variable {streams : Streams} {n m : Node} {stream : Random.Stream}

def opening (n : Node) : Result Random.Stream := find [] n

theorem find_put_self : (streams.put n stream).find n = .ok stream := by
  simp [find, put]

theorem lookup_filter_ne {α : Type} {key other : NodeId} (entries : List (NodeId × α)) (differ : other ≠ key) :
    (entries.filter fun entry => entry.1 ≠ key).lookup other = entries.lookup other := by
  induction entries with
  | nil => rfl
  | cons entry rest ih =>
    by_cases same : entry.1 = key
    · rw [List.filter_cons_of_neg (by simpa using same), ih, List.lookup_cons,
        beq_eq_false_iff_ne.mpr (same ▸ differ)]
    · rw [List.filter_cons_of_pos (by simpa using same), List.lookup_cons, List.lookup_cons, ih]

theorem find_put_other (differ : m.id ≠ n.id) : (streams.put n stream).find m = streams.find m := by
  rw [find, put, List.lookup_cons, beq_eq_false_iff_ne.mpr differ]
  dsimp only
  rw [lookup_filter_ne streams differ, find]

end Streams

theorem Computed.of_storeIn {c : Computed} {type : TensorType} {output : Buffer} {bytes : Bytes}
    (shape : ∀ e, (c e).shape = type.shape) (stored : c.storeIn type output = .ok bytes) :
    bytes = (c type.elementType).bytes := by
  unfold storeIn Buffer.accept at stored
  split at stored
  · cases stored
  split at stored
  · cases stored
  split at stored
  · rw [store, if_pos (.inl (shape _)), Tensor.fit, if_pos (shape _)] at stored
    exact (Except.ok.inj stored).symm
  · cases stored

/-- The samples of a seed that the run of a number takes, as the bytes of single elements of a shape. -/
def drawn (seed : Nat) (s : Shape) (run : Nat) : Bytes :=
  (sampled s ((List.range s.volume).map fun i => (Random.Stream.ofSeed seed).nth (run * s.volume + i)) .float32).bytes

namespace Node
variable {n : Node} {s : Shape} {seed : Nat}

/-- How many samples some runs of a node have taken; none where there is no room for the samples of one. -/
def taken [Memory] (n : Node) (runs : Nat) : Nat :=
  match n.shape.room 8 with
  | .ok () => runs * n.type.volume
  | .error _ => 0

/-- What the run of a number makes of a node's samples, in a buffer that it is given. -/
def samplesAt [Memory] (n : Node) (run : Nat) (output : Buffer) : Result (Option Bytes) :=
  (Streams.opening n >>= fun stream => n.shape.room 8 >>= fun _ =>
    (sampled n.shape ((List.range n.type.volume).map fun i =>
      stream.nth (run * n.type.volume + i))).storeIn n.type output).map some

theorem Formed.opening (formed : n.Formed (.uniform s seed)) : Streams.opening n = .ok (.ofSeed seed) := by
  obtain ⟨p, got, seeded⟩ := Result.bind_eq_ok.mp formed.seeded
  exact Result.bind_eq_ok.mpr ⟨p, got, Result.bind_eq_ok.mpr ⟨_, seeded, rfl⟩⟩

theorem Formed.type_uniform (formed : n.Formed (.uniform s seed)) : n.type = ⟨.float32, s⟩ :=
  (Except.ok.inj formed.typed).symm

/-- The run of a number stores the samples that are its own, or nothing. -/
theorem Formed.samplesAt [Memory] (formed : n.Formed (.uniform s seed)) (run : Nat) (output : Buffer) :
    (∀ written, n.samplesAt run output = .ok written → written = some (drawn seed s run)) ∧
      (output.size = n.byteSize → output.readonly = false → s.room 8 = .ok () →
        n.samplesAt run output = .ok (some (drawn seed s run))) := by
  have type := formed.type_uniform
  have stored : n.samplesAt run output = (s.room 8 >>= fun _ => (sampled s ((List.range s.volume).map fun i =>
      (Random.Stream.ofSeed seed).nth (run * s.volume + i))).storeIn ⟨.float32, s⟩ output).map some := by
    rw [Node.samplesAt, formed.opening, Node.shape, type]
    rfl
  rw [stored]
  constructor
  · intro written returned
    obtain ⟨bytes, made, rfl⟩ := Result.map_eq_ok.mp returned
    obtain ⟨_, _, made⟩ := Result.bind_eq_ok.mp made
    rw [Computed.of_storeIn (fun _ => rfl) made]
    rfl
  · intro size writable room
    rw [Node.byteSize, type] at size
    have holdable : s.Holdable := (Shape.room_eq_ok.mp room).1.mono (by decide)
    rw [room]
    exact congrArg (Except.map some) (Computed.storeIn_eq (fun _ => rfl) holdable size writable)

end Node

/-- The kernel that draws samples. -/
def Kernel.draws : Kernel → Bool
  | .host .uniform => true
  | _ => false

namespace Kernel
variable {kernel : Kernel} {n m : Node} {args : List Bytes} {output : Buffer} {streams : Streams} {run : Nat}

theorem streams_eq [Memory] (other : kernel.draws = false) : (kernel.run n args output streams).2 = streams := by
  unfold Kernel.run
  split
  · rfl
  · cases other
  · rfl

/-- Behind some runs of a node comes the next one. -/
theorem run_uniform [Memory] (behind : streams.find n = (Streams.opening n).map (·.skip (n.taken run))) :
    ((Kernel.host .uniform).run n args output streams).1 = n.samplesAt run output ∧
      ((Kernel.host .uniform).run n args output streams).2.find n =
        (Streams.opening n).map (·.skip (n.taken (run + 1))) := by
  cases start : Streams.opening n with
  | error e =>
    rw [start] at behind
    have ran : (Kernel.host .uniform).run n args output streams = (.error e, streams) := by
      rw [Kernel.run, Streams.draw, behind]
      rfl
    rw [ran, Node.samplesAt, start]
    exact ⟨rfl, behind⟩
  | ok stream =>
    rw [start] at behind
    have behind : streams.find n = .ok (stream.skip (n.taken run)) := behind
    cases room : n.shape.room 8 with
    | error e =>
      have ran : (Kernel.host .uniform).run n args output streams = (.error e, streams) := by
        rw [Kernel.run, Streams.draw, behind, room]
        rfl
      rw [ran, Node.samplesAt, start, room]
      rw [Node.taken, room] at behind ⊢
      exact ⟨rfl, behind⟩
    | ok =>
      have taken : ∀ run, n.taken run = run * n.type.volume := fun run => by rw [Node.taken, room]
      rw [taken] at behind ⊢
      have samples : ((stream.skip (run * n.type.volume)).samples n.type.volume).1 =
          (List.range n.type.volume).map fun i => stream.nth (run * n.type.volume + i) := by
        rw [Random.Stream.samples_eq]
        exact List.map_congr_left fun i _ => Random.Stream.nth_skip ..
      have later : ((stream.skip (run * n.type.volume)).samples n.type.volume).2 =
          stream.skip ((run + 1) * n.type.volume) := by
        rw [Random.Stream.samples_eq, Random.Stream.skip_skip, Nat.succ_mul]
      have drawn : streams.draw n = .ok (sampled n.shape ((List.range n.type.volume).map fun i =>
          stream.nth (run * n.type.volume + i)), streams.put n (stream.skip ((run + 1) * n.type.volume))) := by
        rw [Streams.draw, behind, room]
        exact congrArg₂ (fun samples later => Except.ok (sampled n.shape samples, streams.put n later)) samples later
      rw [Kernel.run, drawn, Node.samplesAt, start, room]
      exact ⟨rfl, Streams.find_put_self⟩

theorem eq_of_draws (drawing : kernel.draws = true) : kernel = .host .uniform := by
  unfold draws at drawing
  split at drawing
  · rfl
  · cases drawing

theorem find_other [Memory] (differ : m.id ≠ n.id) : (kernel.run n args output streams).2.find m = streams.find m := by
  cases drawing : kernel.draws with
  | false => rw [streams_eq drawing]
  | true =>
    obtain rfl := eq_of_draws drawing
    rw [Kernel.run]
    cases drawn : streams.draw n with
    | error e => rfl
    | ok made =>
      obtain ⟨stream, _, drawn⟩ := Result.bind_eq_ok.mp drawn
      obtain ⟨_, _, drawn⟩ := Result.bind_eq_ok.mp drawn
      cases drawn
      exact Streams.find_put_other differ

end Kernel

namespace Execution
variable {p : Plan} {profiled : Bool} {s s' : State} {step : Step}

/-! Logs of calls. -/

/-- A call of a kernel: its node, the buffer that it may write to and what that held, and what came of it. -/
structure Call where
  node : Node
  kernel : Kernel
  target : BufferId
  output : Buffer
  outcome : Result (Option Bytes)

/-- The call that a step makes on what its slots hold. -/
def call [Memory] (step : Step) : Execution Call := do
  let args ← step.inputSlots.mapM held
  let target ← held step.outputSlot
  let s ← get
  let (outcome, streams) := step.kernel.run step.node (args.map fun id => (s.store.get id).bytes)
    (s.store.get target) s.streams
  set { s with streams }
  return ⟨step.node, step.kernel, target, s.store.get target, outcome⟩

/-- What a call came to is written to its buffer. -/
def Call.finish (profiled : Bool) (c : Call) : Execution Unit := do
  match ← of c.outcome with
  | some bytes => modify fun s => { s with store := s.store.overwrite c.target bytes }
  | none => pure ()
  if profiled then
    modify fun s => { s with profile := s.profile.recordKernel c.node.kind .zero }

theorem runStep_call [Memory] : runStep profiled step = call step >>= Call.finish profiled := by
  simp only [runStep, call, bind_assoc, pure_bind]
  rfl

/-- The calls of some steps, one after the other, up to the first step that fails. -/
def stepCalls [Memory] (profiled : Bool) : List Step → State → List Call
  | [], _ => []
  | step :: rest, s =>
    match call step s with
    | .error _ _ => []
    | .ok c s =>
      c :: match c.finish profiled s with
        | .error _ _ => []
        | .ok _ s => stepCalls profiled rest s

/-- What is done before the steps. -/
def opened [Memory] (p : Plan) (bindings : List (Value × Value)) (supplied : Option (List Value)) :
    Execution (Option (List BufferId)) := do
  let given ← checks p bindings supplied
  prepare p given.1 given.2
  return given.2

/-- The calls of an execution, whether it returns or fails. -/
def calls [Memory] (profiled : Bool) (p : Plan) (bindings : List (Value × Value)) (supplied : Option (List Value))
    (s : State) : List Call :=
  match opened p bindings supplied s with
  | .error _ _ => []
  | .ok _ s => stepCalls profiled p.steps s

def draws (n : Node) (log : List Call) : Nat := log.countP fun c => c.kernel.draws && c.node.id = n.id

/-- A log in which each draw takes the next samples of its node, and the streams that it leaves. -/
structure Faithful [Memory] (family : Node → Prop) (log : List Call) (streams : Streams) : Prop where
  lawful : ∀ (i : Nat) (c : Call), log[i]? = some c → c.kernel = .host .uniform →
    c.outcome = c.node.samplesAt (draws c.node (log.take i)) c.output
  tracks : ∀ n, family n → streams.find n = (Streams.opening n).map (·.skip (n.taken (draws n log)))

section
variable {family : Node → Prop} {log : List Call} {streams : Streams} {n m : Node}

theorem draws_append (c : Call) :
    draws m (log ++ [c]) = draws m log + if c.kernel.draws && c.node.id = m.id then 1 else 0 := by
  rw [draws, List.countP_append, List.countP_singleton]
  rfl

theorem draws_append_other {c : Call} (other : c.kernel.draws = false ∨ c.node.id ≠ m.id) :
    draws m (log ++ [c]) = draws m log := by
  rw [draws_append, if_neg, Nat.add_zero]
  rcases other with idle | differ
  · simp [idle]
  · simp [differ]

theorem faithful_nil [Memory] (family : Node → Prop) : Faithful family [] [] where
  lawful i c found := by simp at found
  tracks n _ := by
    have none : n.taken 0 = 0 := by
      unfold Node.taken
      split
      · exact Nat.zero_mul _
      · rfl
    rw [draws, List.countP_nil, none, ← Streams.opening]
    cases Streams.opening n <;> rfl

variable (arena : ∀ n m, family n → family m → n.id = m.id → n = m)
include arena

/-- One more call. -/
theorem Faithful.next [Memory] (faithful : Faithful family log streams) (own : family n) (kernel : Kernel)
    (args : List Bytes) (target : BufferId) (output : Buffer) :
    Faithful family (log ++ [⟨n, kernel, target, output, (kernel.run n args output streams).1⟩])
      (kernel.run n args output streams).2 := by
  have behind := faithful.tracks n own
  constructor
  -- the new call stands behind the log
  · intro i c found drawing
    rcases Nat.lt_trichotomy i log.length with before | here | beyond
    · rw [List.getElem?_append_left before] at found
      rw [List.take_append_of_le_length before.le]
      exact faithful.lawful i c found drawing
    · rw [here, List.getElem?_append_right le_rfl, Nat.sub_self, List.getElem?_cons_zero] at found
      cases found
      cases (show kernel = .host .uniform from drawing)
      rw [here, List.take_left]
      exact (Kernel.run_uniform behind).1
    · rw [List.getElem?_eq_none (by rw [List.length_append]; exact beyond)] at found
      cases found
  · intro m mine
    by_cases same : m.id = n.id
    · obtain rfl := arena m n mine own same
      cases drawing : kernel.draws with
      | false =>
        rw [Kernel.streams_eq drawing, draws_append_other (.inl drawing)]
        exact behind
      | true =>
        obtain rfl := Kernel.eq_of_draws drawing
        rw [draws_append, if_pos (by simp [Kernel.draws])]
        exact (Kernel.run_uniform behind).2
    · rw [Kernel.find_other same, draws_append_other (.inr (Ne.symm same))]
      exact faithful.tracks m mine

theorem Faithful.called [Memory] (faithful : Faithful family log s.streams) (own : family step.node) :
    Ensures (call step) s (fun c s' => Faithful family (log ++ [c]) s'.streams) (fun s' => s'.streams = s.streams) := by
  unfold Execution.call
  refine .bind ((mapM_held_spec step.inputSlots).weaken ?_ fun _ same => same.1 ▸ rfl)
  rintro ids _ ⟨rfl, _⟩
  refine .bind ((held_spec step.outputSlot).weaken ?_ fun _ same => same.1 ▸ rfl)
  rintro target _ ⟨rfl, _⟩
  exact .bind (.get (.bind (.set (.pure (faithful.next arena own step.kernel _ target _)))))

end

/-! Only calls draw. -/

theorem course_undrawn : ExecutionOrder fun s s' => s'.streams = s.streams where
  refl _ := rfl
  trans first second := second.trans first
  allocated _ _ := rfl

theorem opened_undrawn [Memory] (bindings : List (Value × Value)) (supplied : Option (List Value)) :
    Along (fun s s' => s'.streams = s.streams) (opened p bindings supplied) := by
  have checked : Along (fun s s' => s'.streams = s.streams) (checks p bindings supplied) := fun s =>
    (checks_untouched s).weaken (fun _ _ untouched => untouched.streams) fun _ untouched => untouched.streams
  exact course_undrawn.bind checked fun given =>
    course_undrawn.bind (course_undrawn.prepare (fun _ _ _ => rfl) p given.1 given.2) fun _ => course_undrawn.pure _

theorem finish_undrawn (c : Call) : Along (fun s s' => s'.streams = s.streams) (c.finish profiled) := by
  have counted : Along (fun s s' : State => s'.streams = s.streams) (if profiled then
      modify fun s => { s with profile := s.profile.recordKernel c.node.kind .zero }
      else Pure.pure ⟨⟩ : Execution Unit) := by
    cases profiled with
    | true => exact ExecutionOrder.modify fun _ => rfl
    | false => exact course_undrawn.pure _
  refine course_undrawn.bind (course_undrawn.of _) fun written => ?_
  cases written with
  | none => exact counted
  | some bytes => exact course_undrawn.bind (ExecutionOrder.modify fun _ => rfl) fun _ => counted

theorem run_opened [Memory] {bindings : List (Value × Value)} {supplied : Option (List Value)} :
    run profiled p bindings supplied = (do
      let ids ← opened p bindings supplied
      discarding p (runSteps profiled p ids)) := by
  simp only [run_eq, opened, bind_assoc, pure_bind]

section
variable {family : Node → Prop} {log : List Call}
  (arena : ∀ n m, family n → family m → n.id = m.id → n = m)
include arena

/-- What the steps log is what they draw, whether they return or fail. -/
theorem Faithful.steps [Memory] (steps : List Step) (own : ∀ step ∈ steps, family step.node)
    (faithful : Faithful family log s.streams) : Ensures (steps.forM (runStep profiled)) s
      (fun _ s' => Faithful family (log ++ stepCalls profiled steps s) s'.streams)
      (fun s' => Faithful family (log ++ stepCalls profiled steps s) s'.streams) := by
  induction steps generalizing log s with
  | nil =>
    rw [stepCalls, List.append_nil]
    exact .pure faithful
  | cons step rest ih =>
    obtain ⟨here, later⟩ := List.forall_mem_cons.mp own
    rw [forM_cons, runStep_call, bind_assoc]
    refine .bind ((faithful.called arena here).ran.weaken ?_ ?_)
    · rintro c s₁ ⟨called, ran⟩
      refine .bind ((finish_undrawn c s₁).ran.weaken ?_ ?_)
      · rintro _ s₂ ⟨same, finished⟩
        rw [stepCalls, ran]
        dsimp only
        rw [finished, ← List.singleton_append, ← List.append_assoc]
        exact ih later (same ▸ called)
      · rintro s₂ ⟨same, e, finished⟩
        rw [stepCalls, ran]
        dsimp only
        rw [finished]
        exact same ▸ called
    · rintro s₁ ⟨same, e, failed⟩
      rw [stepCalls, failed, List.append_nil]
      exact same ▸ faithful

/-- What an execution logs is what it draws, however it ends. -/
theorem Faithful.executed [Memory] (own : ∀ step ∈ p.steps, family step.node) (faithful : Faithful family log s.streams)
    (bindings : List (Value × Value)) (supplied : Option (List Value)) :
    Faithful family (log ++ calls profiled p bindings supplied s)
      (final (run profiled p bindings supplied) s).streams := by
  have spec : Ensures (run profiled p bindings supplied) s
      (fun _ s' => Faithful family (log ++ calls profiled p bindings supplied s) s'.streams)
      (fun s' => Faithful family (log ++ calls profiled p bindings supplied s) s'.streams) := by
    rw [run_opened]
    refine .bind ((opened_undrawn bindings supplied s).ran.weaken ?_ ?_)
    · rintro ids s₁ ⟨same, opened⟩
      rw [calls, opened]
      dsimp only
      have started : Faithful family log s₁.streams := same ▸ faithful
      have stepped : Ensures (p.steps.forM (runStep profiled)) s₁ _ _ := started.steps arena p.steps own
      refine ensures_discarding (.bind (stepped.weaken (fun _ s₂ drawn => ?_) fun _ drawn => drawn))
      have collected := course_undrawn.collect (fun _ _ _ _ _ => rfl)
        ((p.outputs.zip p.outputSlots).zip (targets p ids)) [] s₂
      exact .bind (collected.weaken (fun _ s₃ same => .bind (.modify (.pure (same ▸ drawn))))
        fun _ same => same ▸ drawn)
    · rintro s₁ ⟨same, e, failed⟩
      rw [calls, failed, List.append_nil]
      exact same ▸ faithful
  exact spec.final

end

end Execution
end TensorDag
