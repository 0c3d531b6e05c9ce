import TensorDag.Proofs.Preparation

/-!
Single steps of an execution, and the collection of its outputs: what they read from slots, and what
they leave in the store.
-/
namespace TensorDag
open Program

/-- A store behind a kernel that wrote to a buffer, or left it as it was. -/
def Store.receive (store : Store) (id : BufferId) : Option Bytes → Store
  | some bytes => store.overwrite id bytes
  | none => store

namespace Execution
variable {p : Plan} {s s' : State} {step : Step} {profiled : Bool}

/-- The buffers that some slots hold. -/
def Held (s : State) (keys : List Int) (ids : List BufferId) : Prop :=
  List.Forall₂ (fun key id => s.storage.get? key = some id) keys ids

def contents (store : Store) (ids : List BufferId) : List Bytes := ids.map fun id => (store.get id).bytes

theorem held_spec (key : Int) :
    Ensures (held key) s (fun id s' => s = s' ∧ s.storage.get? key = some id)
      (fun s' => s = s' ∧ s.storage.get? key = none) := by
  unfold held
  refine .bind (.get ?_)
  split
  · rename_i id found
    exact .pure ⟨rfl, found⟩
  · rename_i missing
    exact .throw ⟨rfl, missing⟩

theorem mapM_held_spec (keys : List Int) :
    Ensures (keys.mapM held) s (fun ids s' => s = s' ∧ Held s keys ids)
      (fun s' => s = s' ∧ ∃ key ∈ keys, s.storage.get? key = none) := by
  induction keys with
  | nil => exact .pure ⟨rfl, .nil⟩
  | cons key rest ih =>
    rw [List.mapM_cons]
    refine .bind ((held_spec key).weaken ?_ ?_)
    · rintro id s' ⟨rfl, found⟩
      refine .bind (ih.weaken ?_ ?_)
      · rintro ids s'' ⟨rfl, all⟩
        exact .pure ⟨rfl, .cons found all⟩
      · rintro s'' ⟨rfl, other, member, missing⟩
        exact ⟨rfl, other, List.mem_cons_of_mem _ member, missing⟩
    · rintro s' ⟨rfl, missing⟩
      exact ⟨rfl, key, List.mem_cons_self .., missing⟩

/-- The kernel of a step, run on what its slots hold. -/
structure Ran [Memory] (step : Step) (s : State) (ids : List BufferId) (out : BufferId)
    (outcome : Result (Option Bytes)) : Prop where
  inputs : Held s step.inputSlots ids
  output : s.storage.get? step.outputSlot = some out
  kernel : (step.kernel.run step.node (contents s.store ids) (s.store.get out) s.streams).1 = outcome

/-- A step changes one buffer at most, and fails only if a slot is empty or its kernel fails. -/
theorem runStep_spec [Memory] (profiled : Bool) (step : Step) :
    Ensures (runStep profiled step) s
      (fun _ s' => s'.storage = s.storage ∧ ∃ ids out result, Ran step s ids out (.ok result) ∧
        s'.store = s.store.receive out result)
      (fun s' => s'.storage = s.storage ∧ s'.store = s.store ∧
        ((∃ key ∈ step.outputSlot :: step.inputSlots, s.storage.get? key = none) ∨
          ∃ ids out e, Ran step s ids out (.error e))) := by
  unfold runStep
  refine .bind ((mapM_held_spec step.inputSlots).weaken ?_ ?_)
  · rintro ids _ ⟨rfl, inputs⟩
    refine .bind ((held_spec step.outputSlot).weaken ?_ ?_)
    · rintro out _ ⟨rfl, output⟩
      refine .bind (.get ?_)
      cases outcome : step.kernel.run step.node (ids.map fun id => (s.store.get id).bytes)
        (s.store.get out) s.streams with
      | mk result streams =>
        have ran : Ran step s ids out result := ⟨inputs, output, by rw [contents, outcome]⟩
        refine .bind (.set (.bind (ensures_of ?_ ?_)))
        · rintro written rfl
          have profile : ∀ s' : State, s'.storage = s.storage → s'.store = s.store.receive out written →
              Ensures (if profiled then
                modify fun s => { s with profile := s.profile.recordKernel step.node.kind .zero }
                else Pure.pure ⟨⟩ : Execution Unit) s'
              (fun _ s' => s'.storage = s.storage ∧ ∃ ids out result, Ran step s ids out (.ok result) ∧
                s'.store = s.store.receive out result)
              (fun s' => s'.storage = s.storage ∧ s'.store = s.store ∧
                ((∃ key ∈ step.outputSlot :: step.inputSlots, s.storage.get? key = none) ∨
                  ∃ ids out e, Ran step s ids out (.error e))) := by
            intro s' storage store
            cases profiled with
            | true => exact .modify ⟨storage, ids, out, written, ran, store⟩
            | false => exact .pure ⟨storage, ids, out, written, ran, store⟩
          cases written with
          | some bytes => exact .bind (.modify (profile _ rfl rfl))
          | none => exact profile _ rfl rfl
        · rintro e rfl
          exact ⟨rfl, rfl, .inr ⟨ids, out, e, ran⟩⟩
    · rintro _ ⟨rfl, missing⟩
      exact ⟨rfl, rfl, .inl ⟨_, List.mem_cons_self .., missing⟩⟩
  · rintro _ ⟨rfl, key, member, missing⟩
    exact ⟨rfl, rfl, .inl ⟨key, List.mem_cons_of_mem _ member, missing⟩⟩

/-- A step fails only if a slot is empty, or with the error of its kernel. -/
theorem runStep_eq_error [Memory] {e : Error} (failed : runStep profiled step s = .error e s') :
    (∃ key ∈ step.outputSlot :: step.inputSlots, s.storage.get? key = none) ∨
      ∃ ids out, Ran step s ids out (.error e) := by
  unfold runStep at failed
  rcases bind_eq_error.mp failed with missing | ⟨ids, _, read, failed⟩
  · obtain ⟨_, key, member, empty⟩ := (mapM_held_spec step.inputSlots).of_error missing
    exact .inl ⟨key, List.mem_cons_of_mem _ member, empty⟩
  obtain ⟨rfl, inputs⟩ := (mapM_held_spec step.inputSlots).of_ok read
  rcases bind_eq_error.mp failed with missing | ⟨out, _, read, failed⟩
  · exact .inl ⟨_, List.mem_cons_self .., ((held_spec step.outputSlot).of_error missing).2⟩
  obtain ⟨rfl, output⟩ := (held_spec step.outputSlot).of_ok read
  rcases bind_eq_error.mp failed with none | ⟨_, _, read, failed⟩
  · cases none
  obtain ⟨rfl, rfl⟩ := get_eq_ok.mp read
  cases outcome : step.kernel.run step.node (ids.map fun id => (s.store.get id).bytes)
    (s.store.get out) s.streams with
  | mk result streams =>
    simp only [outcome] at failed
    rcases bind_eq_error.mp failed with none | ⟨_, middle, _, failed⟩
    · cases none
    refine .inr ⟨ids, out, inputs, output, ?_⟩
    rw [contents, outcome]
    cases result with
    | error e' =>
      cases failed
      rfl
    | ok written => cases written <;> cases profiled <;> cases failed

/-- Steps leave the slots alone, and each of them finds the slot that it writes to. -/
theorem steps_storage [Memory] (steps : List Step) :
    Ensures (steps.forM (runStep profiled)) s
      (fun _ s' => s'.storage = s.storage ∧ ∀ step ∈ steps, ∃ id, s.storage.get? step.outputSlot = some id)
      (fun _ => True) := by
  induction steps generalizing s with
  | nil => exact .pure ⟨rfl, by simp⟩
  | cons step rest ih =>
    rw [forM_cons]
    refine .bind ((runStep_spec profiled step).weaken ?_ fun _ _ => trivial)
    rintro _ s' ⟨storage, ids, out, result, ran, _⟩
    refine ih.weaken ?_ fun _ _ => trivial
    rintro _ s'' ⟨same, others⟩
    exact ⟨same.trans storage, List.forall_mem_cons.mpr ⟨⟨out, ran.output⟩, storage ▸ others⟩⟩

/-- An output without a supplied buffer: the slot's own buffer, or a new one with the same bytes. -/
theorem collectOne_spec (n : Node) (slot : Int) (seen : List Int) :
    Ensures (collectOne n slot none seen) s
      (fun id s' => s.Extends s' ∧ ∃ source, s.storage.get? slot = some source ∧
        (id = source ∨ s.store.size ≤ id ∧ id < s'.store.size) ∧
        (s'.store.get id).bytes = (s.store.get source).bytes)
      (fun s' => s = s' ∧ s.storage.get? slot = none) := by
  unfold collectOne
  refine .bind ((held_spec slot).weaken ?_ fun s' missing => missing)
  rintro source _ ⟨rfl, found⟩
  split
  · refine .bind (.get (ensures_allocate ⟨⟨Store.extends_insert .., rfl⟩, source, found,
      .inr ⟨Nat.le_refl _, by simp⟩, ?_⟩))
    rw [Store.get_insert_self]
    rfl
  · exact .pure ⟨.refl s, source, found, .inl rfl, rfl⟩

/-- A result of an execution: the buffer of the slot that it was collected from, or a copy. -/
structure Collected (s s' : State) (slot : Int) (id : BufferId) : Prop where
  inside : id < s'.store.size
  origin : ∃ source, s.storage.get? slot = some source ∧
    (s'.store.get id).bytes = (s.store.get source).bytes ∧ (id = source ∨ s.store.size ≤ id)

/-- The outputs, one for each place that is held. -/
theorem collect_spec (within : ∀ key id, s.storage.get? key = some id → id < s.store.size)
    (entries : List (Node × Int)) (seen : List Int) :
    Ensures (collect (entries.map fun entry => (entry, none)) seen) s
      (fun ids s' => s.Extends s' ∧
        List.Forall₂ (fun entry id => Collected s s' entry.2 id) entries ids)
      (fun s' => s.Extends s' ∧ ∃ entry ∈ entries, s.storage.get? entry.2 = none) := by
  induction entries generalizing s seen with
  | nil => exact .pure ⟨.refl s, .nil⟩
  | cons entry rest ih =>
    rw [List.map_cons, collect]
    refine .bind ((collectOne_spec entry.1 entry.2 seen).weaken ?_ ?_)
    · rintro id s' ⟨extended, source, found, own, bytes⟩
      have kept : ∀ key id, s'.storage.get? key = some id → id < s'.store.size := by
        intro key id held
        rw [extended.storage] at held
        exact Nat.lt_of_lt_of_le (within key id held) extended.store.grows
      refine .bind ((ih kept (entry.2 :: seen)).weaken ?_ ?_)
      · rintro ids s'' ⟨later, others⟩
        have inside : id < s'.store.size := by
          rcases own with same | fresh
          · exact same ▸ Nat.lt_of_lt_of_le (within _ _ found) extended.store.grows
          · exact fresh.2
        refine .pure ⟨extended.trans later, .cons ⟨Nat.lt_of_lt_of_le inside later.store.grows,
          source, found, ?_, own.imp_right And.left⟩ (others.imp fun other id' collected => ?_)⟩
        · rw [later.store.same id inside, bytes]
        · obtain ⟨source', held, same, own'⟩ := collected.origin
          rw [extended.storage] at held
          refine ⟨collected.inside, source', held, ?_,
            own'.imp_right (Nat.le_trans extended.store.grows)⟩
          rw [same, extended.store.same _ (within _ _ held)]
      · rintro s'' ⟨later, other, member, missing⟩
        rw [extended.storage] at missing
        exact ⟨extended.trans later, other, List.mem_cons_of_mem _ member, missing⟩
    · rintro s' ⟨rfl, missing⟩
      exact ⟨.refl s, entry, List.mem_cons_self .., missing⟩

/-! What changes. -/

/-- Slots are as they were, and all buffers but some. -/
structure State.Alters (some : BufferId → Prop) (s s' : State) : Prop where
  storage : s'.storage = s.storage
  store : s.store.Alters some s'.store

theorem State.Alters.refl (some : BufferId → Prop) (s : State) : s.Alters some s :=
  ⟨rfl, (Store.Extends.refl _).alters some⟩

theorem State.Extends.alters (extended : s.Extends s') (some : BufferId → Prop) : s.Alters some s' :=
  ⟨extended.storage, extended.store.alters some⟩

theorem State.Alters.trans {s'' : State} {first second some : BufferId → Prop} (front : s.Alters first s')
    (back : s'.Alters second s'') (left : ∀ id, first id → some id) (right : ∀ id, second id → some id) :
    s.Alters some s'' :=
  ⟨back.storage.trans front.storage, front.store.trans back.store (fun id _ => left id) fun id _ => right id⟩

theorem State.Alters.mono {wider some : BufferId → Prop} (alters : s.Alters some s') (wide : ∀ id, some id → wider id) :
    s.Alters wider s' :=
  alters.trans (.refl wider s') wide fun _ => id

/-- However a part of an execution ends, slots are as they were, and all buffers but some. -/
abbrev Confined {α : Type} (some : BufferId → Prop) (x : Execution α) (s : State) : Prop :=
  Ensures x s (fun _ s' => s.Alters some s') (fun s' => s.Alters some s')

theorem write_confined (id : BufferId) (bytes : Bytes) : Confined (· = id) (write id bytes) s := by
  refine .bind (.get (.bind (ensures_of (fun store written => .set ⟨rfl, ?_⟩) fun _ _ => .refl _ s)))
  simp only [Store.write, Store.update, Result.bind_eq_ok, Result.pure_eq_ok, Buffer.set] at written
  obtain ⟨b, accepted, rfl⟩ := written
  refine Store.alters_overwrite ?_
  split at accepted
  · cases accepted
  · split at accepted
    · rename_i size
      cases accepted
      exact size
    · cases accepted

theorem runStep_confined [Memory] (profiled : Bool) (step : Step) :
    Confined (s.storage.get? step.outputSlot = some ·) (runStep profiled step) s := by
  refine (runStep_spec profiled step).weaken ?_ fun s' ⟨storage, store, _⟩ => ?_
  · rintro _ s' ⟨storage, ids, out, result, ran, store⟩
    refine ⟨storage, ?_⟩
    rw [store]
    cases result with
    | none => exact (Store.Extends.refl _).alters _
    | some bytes =>
      exact (Store.alters_overwrite (Kernel.run_size ran.kernel).1).mono fun id _ same => same ▸ ran.output
  · exact ⟨storage, store ▸ (Store.Extends.refl _).alters _⟩

/-- The buffer is in a slot that some steps write to. -/
def Targeted (steps : List Step) (s : State) (id : BufferId) : Prop :=
  ∃ step ∈ steps, s.storage.get? step.outputSlot = some id

theorem steps_confined [Memory] (steps : List Step) :
    Confined (Targeted steps s) (steps.forM (runStep profiled)) s := by
  induction steps generalizing s with
  | nil => exact .pure (.refl _ s)
  | cons step rest ih =>
    have here : ∀ id, s.storage.get? step.outputSlot = some id → Targeted (step :: rest) s id :=
      fun id found => ⟨step, List.mem_cons_self .., found⟩
    rw [forM_cons]
    refine .bind ((runStep_confined profiled step).weaken ?_ fun s' first => first.mono here)
    intro _ s' first
    have there : ∀ id, Targeted rest s' id → Targeted (step :: rest) s id :=
      fun id ⟨other, member, found⟩ => ⟨other, List.mem_cons_of_mem _ member, first.storage ▸ found⟩
    exact ih.weaken (fun _ s'' second => first.trans second here there) fun s'' second =>
      first.trans second here there

theorem collectOne_confined (n : Node) (slot : Int) (target : Option BufferId) (seen : List Int) :
    Confined (target = some ·) (collectOne n slot target seen) s := by
  unfold collectOne
  refine .bind ((held_spec slot).weaken ?_ fun s' ⟨same, _⟩ => same ▸ .refl _ s)
  rintro source _ ⟨rfl, found⟩
  split
  · refine .bind (.get ?_)
    cases target with
    | some id =>
      have own : ∀ other, other = id → some id = some other := fun other same => congrArg some same.symm
      exact .bind ((write_confined id _).weaken (fun _ s' altered => .pure (altered.mono own))
        fun s' altered => altered.mono own)
    | none => exact ensures_allocate ⟨rfl, (Store.extends_insert ..).alters _⟩
  · exact .pure (.refl _ s)

theorem collect_confined (entries : List ((Node × Int) × Option BufferId)) (seen : List Int) :
    Confined (fun id => ∃ entry ∈ entries, entry.2 = some id) (collect entries seen) s := by
  induction entries generalizing s seen with
  | nil => exact .pure (.refl _ s)
  | cons entry rest ih =>
    obtain ⟨⟨n, slot⟩, target⟩ := entry
    have here : ∀ id, target = some id → ∃ entry ∈ ((n, slot), target) :: rest, entry.2 = some id :=
      fun id same => ⟨_, List.mem_cons_self .., same⟩
    have there : ∀ id, (∃ entry ∈ rest, entry.2 = some id) →
        ∃ entry ∈ ((n, slot), target) :: rest, entry.2 = some id :=
      fun id ⟨entry, member, same⟩ => ⟨entry, List.mem_cons_of_mem _ member, same⟩
    rw [collect]
    refine .bind ((collectOne_confined n slot target seen).weaken ?_ fun s' first => first.mono here)
    intro id s' first
    exact .bind ((ih (slot :: seen)).weaken (fun ids s'' second => .pure (first.trans second here there))
      fun s'' second => first.trans second here there)

theorem zip_targets (p : Plan) :
    (p.outputs.zip p.outputSlots).zip (targets p none) =
      (p.outputs.zip p.outputSlots).map fun entry => (entry, none) := by
  simp only [targets]
  generalize p.outputs = nodes
  generalize p.outputSlots = places
  induction nodes generalizing places with
  | nil => rfl
  | cons n rest ih =>
    cases places with
    | nil => rfl
    | cons place others =>
      rw [List.map_cons, List.zip_cons_cons, List.zip_cons_cons, ih, List.map_cons]

theorem ensures_discarding {α : Type} {body : Execution α} {post : α → State → Prop}
    {rest : State → Prop} (ensures : Ensures body s (fun a s' => post a (discard p s'))
      (fun s' => rest (discard p s'))) :
    Ensures (discarding p body) s post rest := by
  unfold Ensures at ensures ⊢
  unfold discarding
  cases ran : body s with
  | ok a s' => simpa [ran] using ensures
  | error e s' => simpa [ran] using ensures

theorem discarding_eq_error {α : Type} {body : Execution α} {e : Error}
    (failed : discarding p body s = .error e s') : ∃ middle, body s = .error e middle := by
  unfold discarding at failed
  cases ran : body s with
  | ok a middle => rw [ran] at failed; cases failed
  | error e' middle => rw [ran] at failed; cases failed; exact ⟨middle, rfl⟩

theorem discarding_eq_ok {α : Type} {body : Execution α} {a : α}
    (returned : discarding p body s = .ok a s') : ∃ middle, body s = .ok a middle ∧ s' = discard p middle := by
  unfold discarding at returned
  cases ran : body s with
  | ok b middle => rw [ran] at returned; cases returned; exact ⟨middle, rfl, rfl⟩
  | error e middle => rw [ran] at returned; cases returned

end Execution
end TensorDag
