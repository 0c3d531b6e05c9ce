import TensorDag.Proofs.Frame

/-!
The steps of a plan in two states side by side, whose slots hold the same values in different buffers. In
one of them steps may write to buffers of leaves: that goes unnoticed as long as such a leaf is not read
behind the step.
-/
namespace TensorDag

theorem Kernel.run_congr [Memory] {kernel : Kernel} {n : Node} {args : List Bytes} {output output' : Buffer}
    (size : output'.size = output.size) (flag : output'.readonly = output.readonly) (streams : Streams) :
    kernel.run n args output' streams = kernel.run n args output streams := by
  have accept : ∀ (needed : Nat) (bytes : Result Bytes), output'.accept needed bytes = output.accept needed bytes := by
    intro needed bytes
    rw [Buffer.accept, Buffer.accept, size, flag]
  cases kernel with
  | custom name run => simp only [Kernel.run, accept]
  | host kind => cases kind <;> simp only [Kernel.run, Computed.storeIn, accept]

namespace Execution
open Program Plan
variable {p : Plan} {s s' t : State} {step : Step} {profiled : Bool}

theorem held_eq {key : Int} {id : BufferId} (found : s.storage.get? key = some id) : held key s = .ok id s := by
  simp only [held, bind, EStateM.bind, run_get, found]
  rfl

theorem mapM_held_eq {keys : List Int} {ids : List BufferId} (found : Held s keys ids) :
    keys.mapM held s = .ok ids s := by
  induction found with
  | nil => rfl
  | cons here _ ih =>
    simp only [List.mapM_cons, bind, EStateM.bind, held_eq here, ih]
    rfl

/-- A state behind a step. -/
def State.after (s : State) (profiled : Bool) (step : Step) (out : BufferId) (result : Option Bytes)
    (streams : Streams) : State where
  store := s.store.receive out result
  streams := streams
  storage := s.storage
  profile := if profiled then s.profile.recordKernel step.node.kind .zero else s.profile

theorem runStep_eq [Memory] {ids : List BufferId} {out : BufferId} {result : Option Bytes} {streams : Streams}
    (inputs : Held s step.inputSlots ids) (output : s.storage.get? step.outputSlot = some out)
    (ran : step.kernel.run step.node (contents s.store ids) (s.store.get out) s.streams = (.ok result, streams)) :
    runStep profiled step s = .ok ⟨⟩ (s.after profiled step out result streams) := by
  rw [contents] at ran
  simp only [runStep, bind, EStateM.bind, mapM_held_eq inputs, held_eq output, run_get, ran]
  cases result <;> cases profiled <;> rfl

theorem runStep_eq_ok [Memory] {u : Unit} (ran : runStep profiled step s = .ok u s') :
    ∃ ids out result streams, Held s step.inputSlots ids ∧ s.storage.get? step.outputSlot = some out ∧
      step.kernel.run step.node (contents s.store ids) (s.store.get out) s.streams = (.ok result, streams) ∧
      s' = s.after profiled step out result streams := by
  obtain ⟨_, ids, out, result, here, _⟩ := (runStep_spec profiled step).of_ok ran
  have run : step.kernel.run step.node (contents s.store ids) (s.store.get out) s.streams = (.ok result, _) :=
    Prod.ext here.kernel rfl
  refine ⟨ids, out, result, _, here.inputs, here.output, run, ?_⟩
  have again : runStep profiled step s = _ := runStep_eq here.inputs here.output run
  rw [ran] at again
  exact (EStateM.Result.ok.inj again).2

/-- The slots that steps write to hold buffers of their sizes, different slots different ones. -/
structure Served (p : Plan) (s : State) : Prop where
  serves : ∀ step ∈ p.steps, ∀ out, s.storage.get? step.outputSlot = some out →
    out < s.store.size ∧ (s.store.get out).size = step.node.byteSize ∧ (s.store.get out).readonly = false
  apart : ∀ step ∈ p.steps, ∀ other ∈ p.steps, ∀ out, s.storage.get? step.outputSlot = some out →
    s.storage.get? other.outputSlot = some out → step.outputSlot = other.outputSlot

theorem Served.alters {some : BufferId → Prop} (served : Served p s) (alters : s.Alters some s') : Served p s' where
  serves step member out found := by
    rw [alters.storage] at found
    obtain ⟨inside, size, writable⟩ := served.serves step member out found
    exact ⟨Nat.lt_of_lt_of_le inside alters.store.grows, by rw [alters.store.sizes out inside, size],
      by rw [alters.store.flags out inside, writable]⟩
  apart step member other listed out found again := by
    rw [alters.storage] at found again
    exact served.apart step member other listed out found again

theorem Equipped.served [Memory] (equipped : Equipped p s) (valid : p.Valid) : Served p s where
  serves step member out found := by
    obtain ⟨inside, size, writable, _⟩ := equipped.output valid member found
    exact ⟨inside, size, writable⟩
  apart step member other listed out found again := by
    obtain ⟨_, _, _, _, alone⟩ := equipped.output valid listed again
    exact alone _ found

/-- Two states behind some steps: slots hold the same values, but for leaves whose buffer one of the
steps wrote to in the second one. -/
structure Alike (p : Plan) (before : List Step) (s t : State) : Prop where
  streams : t.streams = s.streams
  leaves : ∀ leaf ∈ p.leaves, ∀ id jd, s.storage.get? leaf.slot = some id → t.storage.get? leaf.slot = some jd →
    ¬Targeted before t jd → (t.store.get jd).bytes = (s.store.get id).bytes
  written : ∀ step ∈ before, ∀ id jd, s.storage.get? step.outputSlot = some id →
    t.storage.get? step.outputSlot = some jd → (t.store.get jd).bytes = (s.store.get id).bytes

/-- What two executions of a plan have in common while their steps run. -/
structure Beside (p : Plan) (s t : State) : Prop where
  first : Served p s
  second : Served p t
  filled : ∀ key id, s.storage.get? key = some id → ∃ jd, t.storage.get? key = some jd
  safe : ∀ leaf ∈ p.leaves, ∀ id, s.storage.get? leaf.slot = some id → ¬Targeted p.steps s id
  reads : ∀ before step after, p.steps = before ++ step :: after → ∀ leaf ∈ p.leaves, leaf.slot ∈ step.inputSlots →
    ∀ jd, t.storage.get? leaf.slot = some jd → ¬Targeted before t jd

theorem Beside.alters {some some' : BufferId → Prop} {t' : State} (beside : Beside p s t)
    (first : s.Alters some s') (second : t.Alters some' t') : Beside p s' t' where
  first := beside.first.alters first
  second := beside.second.alters second
  filled := by
    rw [first.storage, second.storage]
    exact beside.filled
  safe := by
    simp only [Targeted, first.storage]
    exact beside.safe
  reads := by
    simp only [Targeted, second.storage]
    exact beside.reads

theorem Held.alike {keys : List Int} {ids : List BufferId} (found : Held s keys ids)
    (same : ∀ key ∈ keys, ∀ id, s.storage.get? key = some id →
      ∃ jd, t.storage.get? key = some jd ∧ (t.store.get jd).bytes = (s.store.get id).bytes) :
    ∃ jds, Held t keys jds ∧ contents t.store jds = contents s.store ids := by
  induction found with
  | nil => exact ⟨[], .nil, rfl⟩
  | cons here _ ih =>
    rw [List.forall_mem_cons] at same
    obtain ⟨jd, there, bytes⟩ := same.1 _ here
    obtain ⟨jds, others, rest⟩ := ih same.2
    refine ⟨jd :: jds, .cons there others, ?_⟩
    simp only [contents, List.map_cons, List.cons.injEq] at rest ⊢
    exact ⟨bytes, rest⟩

theorem Alike.read {before after : List Step} (alike : Alike p before s t) (beside : Beside p s t) (valid : p.Valid)
    (split : p.steps = before ++ step :: after) {key : Int} (member : key ∈ step.inputSlots) {id : BufferId}
    (found : s.storage.get? key = some id) :
    ∃ jd, t.storage.get? key = some jd ∧ (t.store.get jd).bytes = (s.store.get id).bytes := by
  obtain ⟨jd, there⟩ := beside.filled key id found
  refine ⟨jd, there, ?_⟩
  obtain ⟨_, _, holder, listed, _⟩ := (valid.flow before step after split).input member
  rcases mem_written listed with ⟨writer, earlier, same, _⟩ | leaf
  · rw [← same] at found there
    exact alike.written writer earlier id jd found there
  · obtain ⟨leaf, present, same, _⟩ := mem_leafHolders leaf
    rw [← same] at found there member
    exact alike.leaves leaf present id jd found there
      (beside.reads before step after split leaf present member jd there)

/-- A step that returns in one state does so in the other, with the same value. -/
theorem runStep_alike [Memory] {before after : List Step} (alike : Alike p before s t) (beside : Beside p s t)
    (valid : p.Valid)
    (split : p.steps = before ++ step :: after) {kind : Kind} (hosted : step.kernel = .host kind) {u : Unit}
    (ran : runStep profiled step s = .ok u s') :
    ∃ t', runStep profiled step t = .ok u t' ∧ Alike p (before ++ [step]) s' t' := by
  have member : step ∈ p.steps := split ▸ by simp
  obtain ⟨ids, out, result, streams, inputs, output, run, rfl⟩ := runStep_eq_ok ran
  obtain ⟨bytes, rfl⟩ : ∃ bytes, result = some bytes := by
    rw [hosted] at run
    exact Kernel.run_some (congrArg Prod.fst run)
  obtain ⟨jds, others, args⟩ := inputs.alike fun key listed id found => alike.read beside valid split listed found
  obtain ⟨out', output'⟩ := beside.filled _ _ output
  obtain ⟨inside, size, writable⟩ := beside.first.serves step member out output
  obtain ⟨inside', size', writable'⟩ := beside.second.serves step member out' output'
  have again : step.kernel.run step.node (contents t.store jds) (t.store.get out') t.streams =
    (.ok (some bytes), streams) := by
    rw [args, alike.streams, Kernel.run_congr (size'.trans size.symm) (writable'.trans writable.symm), run]
  refine ⟨_, runStep_eq others output' again, rfl, ?_, ?_⟩
  · intro leaf listed id jd found there spared
    have apart : id ≠ out := fun same => beside.safe leaf listed id found ⟨step, member, same ▸ output⟩
    have apart' : jd ≠ out' := fun same => spared ⟨step, by simp, same ▸ output'⟩
    have earlier : ¬Targeted before t jd := fun ⟨other, present, held⟩ => spared ⟨other, by simp [present], held⟩
    show ((t.store.overwrite out' bytes).get jd).bytes = ((s.store.overwrite out bytes).get id).bytes
    rw [Store.get_overwrite_of_ne bytes apart, Store.get_overwrite_of_ne bytes apart']
    exact alike.leaves leaf listed id jd found there earlier
  · intro other listed id jd found there
    show ((t.store.overwrite out' bytes).get jd).bytes = ((s.store.overwrite out bytes).get id).bytes
    by_cases same : other.outputSlot = step.outputSlot
    · have here : out = id := Option.some.inj (output.symm.trans (same ▸ found))
      have here' : out' = jd := Option.some.inj (output'.symm.trans (same ▸ there))
      rw [← here, ← here', Store.get_overwrite_self bytes inside, Store.get_overwrite_self bytes inside']
    · have earlier : other ∈ before := by
        rcases List.mem_append.mp listed with earlier | here
        · exact earlier
        · exact absurd (congrArg Step.outputSlot (List.mem_singleton.mp here)) same
      have present : other ∈ p.steps := split ▸ by simp [earlier]
      have apart : id ≠ out := fun equal => same (beside.first.apart other present step member out
        (equal ▸ found) output)
      have apart' : jd ≠ out' := fun equal =>
        same (beside.second.apart other present step member out' (equal ▸ there) output')
      rw [Store.get_overwrite_of_ne bytes apart, Store.get_overwrite_of_ne bytes apart']
      exact alike.written other earlier id jd found there

/-- Steps that return in one state do so in the other, with the same values. -/
theorem steps_alike [Memory] {before after : List Step} (alike : Alike p before s t) (beside : Beside p s t)
    (valid : p.Valid)
    (split : p.steps = before ++ after) (hosted : ∀ step ∈ p.steps, ∃ kind, step.kernel = .host kind) {u : Unit}
    (ran : after.forM (runStep profiled) s = .ok u s') :
    ∃ t', after.forM (runStep profiled) t = .ok u t' ∧ Alike p p.steps s' t' := by
  induction after generalizing before s t with
  | nil =>
    rw [List.append_nil] at split
    cases ran
    exact ⟨t, rfl, split ▸ alike⟩
  | cons step rest ih =>
    obtain ⟨_, s₁, first, later⟩ := bind_eq_ok.mp ran
    obtain ⟨kind, host⟩ := hosted step (split ▸ by simp)
    obtain ⟨t₁, second, between⟩ := runStep_alike alike beside valid split host first
    have moved := beside.alters ((runStep_confined profiled step).of_ok first)
      ((runStep_confined profiled step).of_ok second)
    obtain ⟨t', others, last⟩ := ih between moved (by simpa using split) later
    exact ⟨t', bind_eq_ok.mpr ⟨_, t₁, second, others⟩, last⟩

end Execution
end TensorDag
