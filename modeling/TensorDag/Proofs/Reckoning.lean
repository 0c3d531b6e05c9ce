import Mathlib
import TensorDag.Proofs.Inventory
import TensorDag.Proofs.Checking

/-!
Profiles over time. An execution that returns counts its steps once and records the bytes of all slots; one that is
refused records nothing. So whatever was executed and released, a profile says of a plan what its statistics say.
-/
namespace TensorDag

/-! Counts by name. -/

theorem lookup_counted (names : List String) (counts : List (String × Nat)) (name : String) :
    (names.foldl (fun counts name => putNamed name ((counts.lookup name).getD 0 + 1) counts) counts).lookup name =
      if name ∈ names then some ((counts.lookup name).getD 0 + names.count name) else counts.lookup name := by
  induction names generalizing counts with
  | nil => simp
  | cons head rest ih =>
    rw [List.foldl_cons, ih, lookup_putNamed]
    by_cases same : name = head
    · subst same
      by_cases later : name ∈ rest
      · simp [later]
        omega
      · simp [later, List.count_eq_zero_of_not_mem later]
    · simp [same, List.count_cons_of_ne (Ne.symm same)]

namespace Profile

def recordSteps (profile : Profile) (steps : List Step) : Profile :=
  steps.foldl (fun profile step => profile.recordKernel step.node.kind .zero) profile

theorem calls_recordSteps (profile : Profile) (steps : List Step) : (profile.recordSteps steps).calls =
    (steps.map (·.node.kind)).foldl (fun counts name => putNamed name ((counts.lookup name).getD 0 + 1) counts)
      profile.calls := by
  induction steps generalizing profile with
  | nil => rfl
  | cons step rest ih => exact ih (profile.recordKernel step.node.kind .zero)

theorem peak_recordSteps (profile : Profile) (steps : List Step) : (profile.recordSteps steps).peak = profile.peak := by
  induction steps generalizing profile with
  | nil => rfl
  | cons step rest ih => exact ih (profile.recordKernel step.node.kind .zero)

/-- Counts of as many executions as there were are those of one more behind the steps. -/
theorem lookup_recordSteps {p : Plan} {profile : Profile} {done : Nat} (kind : String)
    (calls : profile.calls.lookup kind = if done = 0 then none else (p.stepsPerKind.lookup kind).map (done * ·)) :
    (profile.recordSteps p.steps).calls.lookup kind = (p.stepsPerKind.lookup kind).map ((done + 1) * ·) := by
  have once : p.stepsPerKind.lookup kind = if kind ∈ p.steps.map (·.node.kind)
      then some ((p.steps.map (·.node.kind)).count kind) else none := by
    rw [Plan.stepsPerKind, Plan.tally, lookup_counted]
    simp
  rw [calls_recordSteps, lookup_counted, calls, once]
  by_cases listed : kind ∈ p.steps.map (·.node.kind)
  · by_cases first : done = 0
    · simp [listed, first]
    · simp [listed, first]
      ring
  · simp [listed]

end Profile

namespace Execution
open Program Plan
variable {p : Plan} {s s' : State} {bindings : List (Value × Value)} {supplied : Option (List Value)}

/-! What executions are asked for. -/

/-- Keys of bindings are nodes as they are, and all buffers are there. -/
structure Handed (p : Plan) (s : State) (bindings : List (Value × Value)) (supplied : Option (List Value)) : Prop where
  keys : Keyed p bindings
  given : ∀ pair ∈ bindings, pair.2.Within s.store
  supplies : ∀ vs, supplied = some vs → ∀ v ∈ vs, v.Within s.store

/-- The leaves of a plan with their own buffers. -/
def Owns (p : Plan) (store : Store) : Prop := ∀ leaf ∈ p.leaves, leaf.node.isLeaf ∧ leaf.node.Furnished store

theorem Owns.later {store store' : Store} (owns : Owns p store) (later : store.Later store') : Owns p store' :=
  fun leaf member => ⟨(owns leaf member).1, (owns leaf member).2.later later⟩

/-- Where the checks return, there is a buffer of its size for each leaf and each supplied output. -/
theorem given_of_checks {given : Bindings × Option (List BufferId)} (handed : Handed p s bindings supplied)
    (owns : Owns p s.store) (checked : checks p bindings supplied s = .ok given s') :
    Given p s'.store given.1 given.2 := by
  have untouched := (checks_untouched s).of_ok checked
  obtain ⟨binds, bound, counted⟩ := checks_eq_ok.mp checked
  obtain ⟨_, _, bounds⟩ := (bindAll_spec handed.given (Nat.le_refl _)).of_ok binds
  constructor
  · intro leaf member
    obtain ⟨isLeaf, furnished⟩ := owns.later untouched.store.later leaf member
    cases found : given.1.lookup leaf.node.id with
    | some id =>
      obtain ⟨v, _, stands⟩ := (bounds handed.keys).stands member found
      exact ⟨id, by rw [leafBuffer, found, Option.some_or], stands.inside, stands.size⟩
    | none =>
      rcases furnished.given isLeaf with kind | ⟨id, own⟩
      · obtain ⟨id, here⟩ := checkBound_eq_ok bound leaf member kind
        cases found.symm.trans here
      · exact ⟨id, by rw [leafBuffer, found, Option.none_or, own], furnished.inside id own, furnished.sized id own⟩
  · intro entry member
    obtain ⟨_, ids⟩ := given
    cases ids with
    | none => simp at member
    | some ids =>
      cases supplied with
      | none => cases counted
      | some vs =>
        obtain ⟨_, values, sizes⟩ := suppliedBuffers_eq_ok counted
        obtain ⟨i, inside, rfl⟩ := List.mem_iff_getElem.mp member
        simp only [Option.getD_some, List.length_zip, Nat.lt_min] at inside
        simp only [Option.getD_some, List.getElem_zip]
        have here : i < vs.length := values.length_eq ▸ inside.2
        obtain ⟨content, value⟩ := values.get here inside.2
        have within := handed.supplies vs rfl vs[i] (List.getElem_mem here)
        rw [show vs[i] = .buffer ids[i] content from value] at within
        exact ⟨Nat.lt_of_lt_of_le within untouched.store.grows, sizes.get inside.1.1 inside.2⟩

/-! What executions record. -/

theorem course_unrecorded : ExecutionOrder fun s s' => s'.profile = s.profile where
  refl _ := rfl
  trans first second := second.trans first
  allocated _ _ := rfl

theorem steps_record [Memory] (steps : List Step) : Ensures (steps.forM (runStep true)) s
    (fun _ s' => s'.profile = s.profile.recordSteps steps) (fun _ => True) := by
  have one : ∀ (s : State) (step : Step), Ensures (runStep true step) s
      (fun _ s' => s'.profile = s.profile.recordKernel step.node.kind .zero) (fun _ => True) := by
    intro s step
    unfold runStep
    refine .bind ((mapM_held_spec step.inputSlots).weaken ?_ fun _ _ => trivial)
    rintro ids _ ⟨rfl, _⟩
    refine .bind ((held_spec step.outputSlot).weaken ?_ fun _ _ => trivial)
    rintro out _ ⟨rfl, _⟩
    refine .bind (.get (.bind (.set (.bind (ensures_of (fun written _ => ?_) fun _ _ => trivial)))))
    cases written with
    | none => exact .modify rfl
    | some bytes => exact .bind (.modify (.modify rfl))
  induction steps generalizing s with
  | nil => exact .pure rfl
  | cons step rest ih =>
    rw [forM_cons]
    refine .bind ((one s step).weaken (fun _ s₁ first => ?_) fun _ _ => trivial)
    exact ih.weaken (fun _ s₂ others => others.trans (by rw [first]; rfl)) fun _ _ => trivial

/-- However an execution ends, slots hold buffers of their sizes; where it returns, all slots were full, and each
step was counted once. -/
theorem run_records [Memory] (tailored : p.Tailored) (stowed : Stowed p s) (owns : Owns p s.store)
    (handed : Handed p s bindings supplied) : Ensures (run true p bindings supplied) s
      (fun _ s' => ∃ s₁, Stowed p s₁ ∧ Full p s₁ ∧ s₁.profile = s.profile.recordSteps p.steps ∧
        s' = discard p (recorded s₁)) (fun s' => Stowed p s') := by
  rw [run_eq]
  have alters : ∀ {s'}, Untouched s s' → s.Alters (fun _ => False) s' := fun untouched => untouched.toExtends.alters _
  refine .bind ((checks_untouched s).ran.weaken ?_ fun s' failed => stowed.alters (alters failed.1))
  rintro given s₁ ⟨untouched, checked⟩
  have given' := given_of_checks handed owns checked
  have unrecorded := course_unrecorded.prepare (fun _ _ _ => rfl) p given.1 given.2 s₁
  refine .bind (((prepare_stows given' tailored (stowed.alters (alters untouched))).and unrecorded).weaken ?_
    fun _ failed => failed.1)
  rintro _ s₂ ⟨⟨stowed, full⟩, prepared⟩
  refine ensures_discarding (.bind (((steps_confined p.steps).and (steps_record p.steps)).weaken ?_
    fun s₃ failed => (stowed.alters failed.1).discarded))
  rintro _ s₃ ⟨ran, counted⟩
  have unwritten := course_unrecorded.collect (fun _ _ _ _ _ => rfl)
    ((p.outputs.zip p.outputSlots).zip (targets p given.2)) [] s₃
  refine .bind (((collect_confined _ []).and unwritten).weaken ?_
    fun s₄ failed => ((stowed.alters ran).alters failed.1).discarded)
  rintro results s₄ ⟨collected, same⟩
  refine .bind (.modify (.pure ⟨s₄, (stowed.alters ran).alters collected, (full.alters ran).alters collected, ?_, rfl⟩))
  rw [same, counted, prepared, untouched.profile]

/-! Executions and releases, one after the other. -/

/-- What happened to a profiled plan: how many executions returned, and how many failed behind their checks. Anything
may happen elsewhere, where the storage and the profile of the plan are left alone. -/
inductive Tallied [Memory] (p : Plan) (opening : State) : Nat → Nat → State → Prop
  | opened : Tallied p opening 0 0 opening
  | returned {done broken : Nat} {s s' : State} {bindings : List (Value × Value)} {supplied : Option (List Value)}
    {ids : List BufferId} (before : Tallied p opening done broken s) (handed : Handed p s bindings supplied)
    (ran : run true p bindings supplied s = .ok ids s') : Tallied p opening (done + 1) broken s'
  | refused {done broken : Nat} {s s' s₁ : State} {bindings : List (Value × Value)} {supplied : Option (List Value)}
    {e e' : Error} (before : Tallied p opening done broken s) (handed : Handed p s bindings supplied)
    (checked : checks p bindings supplied s = .error e' s₁)
    (ran : run true p bindings supplied s = .error e s') : Tallied p opening done broken s'
  | failed {done broken : Nat} {s s' s₁ : State} {bindings : List (Value × Value)} {supplied : Option (List Value)}
    {given : Bindings × Option (List BufferId)} {e : Error} (before : Tallied p opening done broken s)
    (handed : Handed p s bindings supplied) (checked : checks p bindings supplied s = .ok given s₁)
    (ran : run true p bindings supplied s = .error e s') : Tallied p opening done (broken + 1) s'
  | released {done broken : Nat} {s : State} (before : Tallied p opening done broken s) :
    Tallied p opening done broken { s with storage := [] }
  | elsewhere {done broken : Nat} {s s' : State} (before : Tallied p opening done broken s)
    (storage : s'.storage = s.storage) (profile : s'.profile = s.profile) (later : s.store.Later s'.store) :
    Tallied p opening done broken s'

/-- What a profile says behind so many executions. -/
structure Reckoned (p : Plan) (done broken : Nat) (s : State) : Prop where
  stowed : Stowed p s
  owns : Owns p s.store
  peak : s.profile.peak = if done = 0 then 0 else Slot.total p.slots
  calls : broken = 0 → ∀ kind, s.profile.calls.lookup kind =
    if done = 0 then none else (p.stepsPerKind.lookup kind).map (done * ·)

namespace Reckoned
variable {done broken : Nat}

/-- An execution that returns records the bytes of all slots, and counts each step once more. -/
theorem returned [Memory] (reckoned : Reckoned p done broken s) (tailored : p.Tailored)
    (handed : Handed p s bindings supplied)
    {ids : List BufferId} (ran : run true p bindings supplied s = .ok ids s') : Reckoned p (done + 1) broken s' := by
  have later := run_later true p bindings supplied s
  rw [final, ran] at later
  obtain ⟨s₁, stowed, full, counted, rfl⟩ :=
    (run_records tailored reckoned.stowed reckoned.owns handed).of_ok ran
  have bytes := stowed.byteSize tailored.valid full
  have kept : Stowed p (recorded s₁) := stowed.grows rfl (Nat.le_refl _) fun _ _ => rfl
  refine ⟨kept.discarded, reckoned.owns.later later, ?_, fun none kind => ?_⟩
  · have before : s₁.profile.peak = if done = 0 then 0 else Slot.total p.slots := by
      rw [counted, Profile.peak_recordSteps, reckoned.peak]
    have large : 0 ≤ Slot.total p.slots := bytes ▸ Int.natCast_nonneg _
    change max s₁.profile.peak (s₁.storage.byteSize s₁.store) = _
    rw [before, bytes, if_neg (Nat.succ_ne_zero done)]
    split <;> omega
  · change s₁.profile.calls.lookup kind = _
    rw [counted, if_neg (Nat.succ_ne_zero done), Profile.lookup_recordSteps kind (reckoned.calls none kind)]

theorem unchanged (reckoned : Reckoned p done broken s) (stowed : Stowed p s') (later : s.store.Later s'.store)
    (profile : s'.profile = s.profile) : Reckoned p done broken s' where
  stowed := stowed
  owns := reckoned.owns.later later
  peak := profile ▸ reckoned.peak
  calls none kind := profile ▸ reckoned.calls none kind

theorem refused [Memory] (reckoned : Reckoned p done broken s) {e e' : Error} {s₁ : State}
    (checked : checks p bindings supplied s = .error e' s₁)
    (ran : run true p bindings supplied s = .error e s') : Reckoned p done broken s' := by
  cases ran.symm.trans (run_of_checks checked true p.steps)
  have untouched := (checks_untouched s).of_error checked
  exact reckoned.unchanged (reckoned.stowed.alters (untouched.toExtends.alters fun _ => False))
    untouched.store.later untouched.profile

theorem failed [Memory] (reckoned : Reckoned p done broken s) (tailored : p.Tailored)
    (handed : Handed p s bindings supplied)
    {e : Error} (ran : run true p bindings supplied s = .error e s') : Reckoned p done (broken + 1) s' := by
  have later := run_later true p bindings supplied s
  rw [final, ran] at later
  have uncounted : Ensures (run true p bindings supplied) s _ _ :=
    moves_uncounted.run (fun _ => ⟨rfl, rfl⟩) true bindings supplied
  refine ⟨(run_records tailored reckoned.stowed reckoned.owns handed).of_error ran, reckoned.owns.later later, ?_,
    fun none => absurd none (Nat.succ_ne_zero broken)⟩
  rw [(uncounted.of_error ran).2, reckoned.peak]

theorem history [Memory] {opening : State} (start : Reckoned p 0 0 opening) (tailored : p.Tailored)
    (tallied : Tallied p opening done broken s) : Reckoned p done broken s := by
  induction tallied with
  | opened => exact start
  | returned _ handed ran reckoned => exact reckoned.returned tailored handed ran
  | refused _ _ checked ran reckoned => exact reckoned.refused checked ran
  | failed _ handed _ ran reckoned => exact reckoned.failed tailored handed ran
  | released _ reckoned => exact reckoned.unchanged (stowed_empty rfl) (.refl _) rfl
  | elsewhere _ storage profile later reckoned =>
    exact reckoned.unchanged (reckoned.stowed.grows storage later.grows later.sizes) later profile

end Reckoned

/-- The statistics of a compiled plan are those of its execution. Its slots are those of the leaves, of the interior
nodes that are requested and the scratch slots; of the other nodes each made a scratch slot or takes one again; and the
slots hold what is live at once. However often a profiled plan was executed and released: once an execution
returned, the peak is the bytes of all slots; and if none failed behind its checks, every kind was counted as often as
it has steps, times the executions that returned. -/
theorem statistics_executed [Memory] {w : Workspace} (built : w.Built ShapeRules.Proper) {settings : Settings}
    {kernels : Kernels} {device v : Value} {overrides : List (Value × Value)}
    (made : Plan.compile settings kernels device overrides v = .ok p) (own : ∀ o ∈ p.outputs, o ∈ w.graph.nodes) :
    p.Counted ∧ ∀ opening : State, opening.storage = [] → opening.profile = .empty → w.store.Later opening.store →
      ∀ done broken s, Tallied p opening done broken s → 1 ≤ done →
        s.profile.peak = Slot.total p.slots ∧
        (broken = 0 → ∀ kind, s.profile.calls.lookup kind = (p.stepsPerKind.lookup kind).map (done * ·)) := by
  obtain ⟨outputs, standard, devices, made⟩ := Plan.compile_eq_ok made
  have laid := (Plan.ofOutputs_eq_ok made).1
  rw [laid.requested] at own
  have arena := built.ordered.arena
  have tailored := Plan.ofOutputs_tailored arena own made
  refine ⟨Plan.ofOutputs_counted arena own made, fun opening storage profile later done broken s tallied some => ?_⟩
  have owns : Owns p w.store := by
    intro leaf member
    obtain ⟨ordered, isLeaf, _⟩ := laid.mem_leaves.mp member
    exact ⟨isLeaf, built.furnished.2 leaf.node (Node.order_own arena own leaf.node ordered)⟩
  have start : Reckoned p 0 0 opening :=
    ⟨stowed_empty storage, owns.later later, by rw [profile]; rfl, fun _ kind => by rw [profile]; rfl⟩
  have reckoned := start.history tailored tallied
  have nonzero : done ≠ 0 := Nat.pos_iff_ne_zero.mp some
  refine ⟨by rw [reckoned.peak, if_neg nonzero], fun none kind => ?_⟩
  rw [reckoned.calls none kind, if_neg nonzero]

end Execution

namespace Sample
open Execution Plan

theorem handed_sharedBinding {s : State} (inside : 0 < s.store.size) : Handed squarePlan s sharedBinding none where
  keys n v member leaf listed same := by
    cases List.mem_singleton.mp member
    rcases List.mem_pair.mp listed with rfl | rfl
    · cases same
    · rfl
  given pair member := by
    cases List.mem_singleton.mp member
    exact inside
  supplies vs none := by cases none

/-- The plan of the square is executed, released, refused without a binding, and executed again. -/
theorem statistics_executed_square : squarePlan.Counted ∧ ∃ s, Tallied squarePlan freshState 2 0 s ∧
    s.profile.peak = 32 ∧ s.profile.calls.lookup "mul" = some 2 ∧ s.profile.calls.lookup "div" = none := by
  let s₁ := Program.final (run true squarePlan sharedBinding none) freshState
  let s₂ : State := { s₁ with storage := [] }
  let s₃ := Program.final (run true squarePlan [] none) s₂
  obtain ⟨ids, ran⟩ : ∃ ids, run true squarePlan sharedBinding none freshState = .ok ids s₁ := ⟨_, rfl⟩
  obtain ⟨e, checked⟩ : ∃ e, checks squarePlan [] none s₂ = .error e s₃ := ⟨_, rfl⟩
  have goes : Program.returns (run true squarePlan sharedBinding none) s₃ = true := by decide +kernel
  obtain ⟨ids', s₄, again⟩ := Program.exists_of_returns goes
  have nothing : Handed squarePlan s₂ [] none := by constructor <;> simp [Keyed]
  have first : Tallied squarePlan freshState 1 0 s₁ := .returned .opened (handed_sharedBinding Nat.zero_lt_one) ran
  have third : Tallied squarePlan freshState 1 0 s₃ :=
    .refused (.released first) nothing checked (run_of_checks checked true squarePlan.steps)
  have fourth : Tallied squarePlan freshState 2 0 s₄ := .returned third (handed_sharedBinding (by decide)) again
  obtain ⟨counted, executed⟩ := statistics_executed built_proper compile_square own_square
  obtain ⟨peak, calls⟩ := executed freshState rfl rfl (.refl _) 2 0 s₄ fourth (by decide)
  exact ⟨counted, s₄, fourth, peak, calls rfl "mul", calls rfl "div"⟩

end Sample
end TensorDag
