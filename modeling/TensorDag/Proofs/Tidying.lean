import Mathlib.Logic.Relation
import TensorDag.Proofs.Checking
import TensorDag.Proofs.Reuse

/-!
What stays with a plan. For an execution leaf slots and output slots are filled, and however it ends they are
emptied; scratch slots keep their buffers. This takes room for all slots: where a slot gets no buffer, what was
filled before it stays.
-/
namespace TensorDag
open Program

namespace Storage
variable {s : Storage} {entry : Int × BufferId} {key : Int} {id : BufferId}

theorem mem_erase : entry ∈ s.erase key ↔ entry ∈ s ∧ entry.1 ≠ key := by
  simp [erase]

theorem mem_put : entry ∈ s.put key id ↔ entry = (key, id) ∨ entry ∈ s ∧ entry.1 ≠ key := by
  rw [put, List.mem_cons, mem_erase]

theorem mem_foldl_erase {keys : List Int} : entry ∈ keys.foldl erase s ↔ entry ∈ s ∧ entry.1 ∉ keys := by
  induction keys generalizing s with
  | nil => simp
  | cons head rest ih => rw [List.foldl_cons, ih, mem_erase, List.mem_cons, not_or, and_assoc]

theorem mem_of_has (held : s.has key = true) : ∃ id, (key, id) ∈ s := by
  obtain ⟨id, found⟩ := Option.isSome_iff_exists.mp held
  obtain ⟨before, after, split, _⟩ := List.lookup_eq_some_iff.mp found
  exact ⟨id, by simp [split]⟩

end Storage

namespace Execution
open Plan
variable {p : Plan} {s s' : State} {profiled : Bool} {bindings : List (Value × Value)} {supplied : Option (List Value)}

/-! What slots hold. -/

/-- The slots that are emptied behind executions: those of leaves and those of outputs. -/
def emptied (p : Plan) : List Int :=
  p.leaves.map LeafSlot.slot ++ (p.slots.filter fun slot => slot.role = .output).map Slot.index

theorem mem_discard {entry : Int × BufferId} :
    entry ∈ (discard p s).storage ↔ entry ∈ s.storage ∧ entry.1 ∉ emptied p := Storage.mem_foldl_erase

theorem scratch_kept (valid : p.Valid) {slot : Slot} (member : slot ∈ p.slots) (role : slot.role = .scratch) :
    slot.index ∉ emptied p := by
  intro listed
  rcases List.mem_append.mp listed with leaf | output
  · obtain ⟨leaf, inside, same⟩ := List.mem_map.mp leaf
    exact (public_leaf valid inside).2 slot member role same.symm
  · obtain ⟨other, inside, same⟩ := List.mem_map.mp output
    obtain ⟨listed, output⟩ := List.mem_filter.mp inside
    rw [valid.slot_eq listed member same, role] at output
    cases of_decide_eq_true output

/-- A buffer in a scratch slot, of the size of the slot. -/
def Scratch (p : Plan) (store : Store) (entry : Int × BufferId) : Prop :=
  ∃ slot ∈ p.slots, slot.role = .scratch ∧ slot.index = entry.1 ∧ entry.2 < store.size ∧
    ((store.get entry.2).size : Int) = slot.size

/-- The plan holds no buffers but those of its scratch slots. -/
def Tidy (p : Plan) (s : State) : Prop := ∀ entry ∈ s.storage, entry.1 ∉ emptied p ∧ Scratch p s.store entry

/-- What else is held is in slots that will be emptied. -/
def Occupied (p : Plan) (s : State) : Prop := ∀ entry ∈ s.storage, entry.1 ∈ emptied p ∨ Scratch p s.store entry

/-- There is a buffer in a slot. -/
def SlotHeld (s : State) (key : Int) : Prop := ∃ id, (key, id) ∈ s.storage

/-- There is a buffer in every scratch slot. -/
def Stocked (p : Plan) (s : State) : Prop := ∀ slot ∈ p.slots, slot.role = .scratch → SlotHeld s slot.index

theorem Tidy.occupied (tidy : Tidy p s) : Occupied p s := fun entry member => .inr (tidy entry member).2

theorem Scratch.grows {store store' : Store} {entry : Int × BufferId} (scratch : Scratch p store entry)
    (grows : store.size ≤ store'.size) (sizes : ∀ id < store.size, (store'.get id).size = (store.get id).size) :
    Scratch p store' entry := by
  obtain ⟨slot, member, role, index, inside, size⟩ := scratch
  exact ⟨slot, member, role, index, Nat.lt_of_lt_of_le inside grows, by rw [sizes _ inside, size]⟩

theorem Occupied.grows (occupied : Occupied p s) (storage : s'.storage = s.storage)
    (grows : s.store.size ≤ s'.store.size)
    (sizes : ∀ id < s.store.size, (s'.store.get id).size = (s.store.get id).size) : Occupied p s' := by
  intro entry member
  rw [storage] at member
  exact (occupied entry member).imp_right fun scratch => scratch.grows grows sizes

theorem Occupied.alters (occupied : Occupied p s) {some : BufferId → Prop} (alters : s.Alters some s') :
    Occupied p s' :=
  occupied.grows alters.storage alters.store.grows alters.store.sizes

theorem Tidy.grows (tidy : Tidy p s) (storage : s'.storage = s.storage) (grows : s.store.size ≤ s'.store.size)
    (sizes : ∀ id < s.store.size, (s'.store.get id).size = (s.store.get id).size) : Tidy p s' := by
  intro entry member
  rw [storage] at member
  exact ⟨(tidy entry member).1, (tidy entry member).2.grows grows sizes⟩

theorem Occupied.put (occupied : Occupied p s) {key : Int} (listed : key ∈ emptied p) (id : BufferId) :
    Occupied p { s with storage := s.storage.put key id } := by
  intro entry member
  rcases Storage.mem_put.mp member with rfl | ⟨old, _⟩
  · exact .inl listed
  · exact occupied entry old

theorem Occupied.discarded (occupied : Occupied p s) : Tidy p (discard p s) := by
  intro entry member
  obtain ⟨old, kept⟩ := mem_discard.mp member
  exact ⟨kept, (occupied entry old).resolve_left kept⟩

theorem moves_stocks (key : Int) : MoveOrder fun s s' => SlotHeld s key → SlotHeld s' key where
  refl _ stocks := stocks
  trans first second stocks := second (first stocks)
  allocated _ _ stocks := stocks
  put s slot id := by
    rintro ⟨old, member⟩
    by_cases same : key = slot
    · exact ⟨id, Storage.mem_put.mpr (.inl (by rw [same]))⟩
    · exact ⟨old, Storage.mem_put.mpr (.inr ⟨member, same⟩)⟩
  written _ _ _ _ _ stocks := stocks
  streamed _ _ stocks := stocks
  counted _ _ _ stocks := stocks

theorem SlotHeld.discarded {key : Int} (stocks : SlotHeld s key) (kept : key ∉ emptied p) :
    SlotHeld (discard p s) key :=
  stocks.imp fun _ member => mem_discard.mpr ⟨member, kept⟩

/-! Preparation. -/

theorem fill_spec [Memory] {slot : Slot} (roomy : Roomy slot) {post : State → Prop}
    (holds : post { s with
      store := (s.store.insert (Buffer.ofBytes (Bytes.zeros slot.size.toNat))).2
      storage := s.storage.put slot.index s.store.size }) :
    Ensures (do put slot.index (← allocateZeros slot.size)) s (fun _ s' => post s') (fun _ => False) := by
  obtain ⟨sized, room⟩ := roomy
  refine .bind ?_
  rw [allocateZeros, if_neg (Int.not_lt.mpr sized), Bytes.cleared_eq_ok.mpr ⟨room, rfl⟩]
  exact .bind (ensures_of (fun bytes same => ensures_allocate (.modify (Except.ok.inj same ▸ holds)))
    fun e failed => by cases failed)

/-- A slot that there is room for gets a buffer of its size, if it needs one. -/
theorem prepareSlot_stocks [Memory] {slot : Slot} (member : slot ∈ p.slots) (roomy : slot.role ≠ .leaf → Roomy slot)
    (occupied : Occupied p s) :
    Ensures (prepareSlot slot) s (fun _ s' => Occupied p s' ∧ (slot.role = .scratch → SlotHeld s' slot.index))
      (fun _ => False) := by
  have made : Occupied p { s with store := (s.store.insert (Buffer.ofBytes (Bytes.zeros slot.size.toNat))).2 } := by
    have extended := Store.extends_insert s.store (Buffer.ofBytes (Bytes.zeros slot.size.toNat))
    exact occupied.grows rfl extended.grows fun id inside => by rw [extended.same id inside]
  unfold prepareSlot
  split
  · rename_i role
    refine fill_spec (roomy (by simp [role])) ⟨?_, by simp [role]⟩
    exact made.put (List.mem_append_right _ (List.mem_map_of_mem (List.mem_filter.mpr ⟨member, by simpa using role⟩))) _
  · rename_i role
    refine .bind (.get ?_)
    split
    · have room := roomy (by simp [role])
      refine fill_spec room ⟨fun entry listed => ?_, fun _ => ⟨_, Storage.mem_put.mpr (.inl rfl)⟩⟩
      rcases Storage.mem_put.mp listed with rfl | ⟨old, _⟩
      · refine .inr ⟨slot, member, role, rfl, by simp, ?_⟩
        rw [Store.get_insert_self, Bytes.size_zeros, Int.toNat_of_nonneg room.1]
      · exact made entry old
    · rename_i held
      exact .pure ⟨occupied, fun _ => Storage.mem_of_has (by simpa using held)⟩
  · rename_i output scratch
    exact .pure ⟨occupied, fun same => absurd same scratch⟩

theorem prepareSlots_stock [Memory] {slots : List Slot} (listed : ∀ slot ∈ slots, slot ∈ p.slots)
    (roomy : ∀ slot ∈ slots, slot.role ≠ .leaf → Roomy slot) (occupied : Occupied p s) :
    Ensures (slots.forM prepareSlot) s
      (fun _ s' => Occupied p s' ∧ ∀ slot ∈ slots, slot.role = .scratch → SlotHeld s' slot.index) (fun _ => False) := by
  induction slots generalizing s with
  | nil => exact .pure ⟨occupied, by simp⟩
  | cons slot rest ih =>
    rw [List.forall_mem_cons] at listed roomy
    rw [forM_cons]
    refine .bind ((prepareSlot_stocks listed.1 roomy.1 occupied).weaken ?_ fun _ => id)
    rintro _ s₁ ⟨occupied, first⟩
    have kept := (moves_stocks slot.index).forM (moves_stocks slot.index).prepareSlot rest s₁
    refine ((ih listed.2 roomy.2 occupied).and kept).weaken ?_ fun _ failed => failed.1
    rintro _ s₂ ⟨⟨occupied, others⟩, kept⟩
    exact ⟨occupied, List.forall_mem_cons.mpr ⟨fun role => kept (first role), others⟩⟩

theorem Occupied.claimAll {entries : List ((Node × Int) × BufferId)} {claimed : List Int} (occupied : Occupied p s)
    (listed : ∀ entry ∈ entries, entry.1.1.isLeaf = false → entry.1.2 ∈ emptied p) :
    Occupied p { s with storage := claimAll entries claimed s.storage } := by
  induction entries generalizing s claimed with
  | nil => exact occupied
  | cons entry rest ih =>
    obtain ⟨⟨n, slot⟩, id⟩ := entry
    rw [List.forall_mem_cons] at listed
    rw [Execution.claimAll]
    split
    · exact ih occupied listed.2
    · rename_i free
      have interior : n.isLeaf = false := by
        cases leaf : n.isLeaf with
        | true => simp [leaf] at free
        | false => rfl
      exact ih (occupied.put (listed.1 interior) id) listed.2

theorem Occupied.putLeaves {bound : Bindings} {leaves : List LeafSlot} (occupied : Occupied p s)
    (listed : ∀ leaf ∈ leaves, leaf.slot ∈ emptied p) :
    Occupied p { s with storage := putLeaves bound leaves s.storage } := by
  induction leaves generalizing s with
  | nil => exact occupied
  | cons leaf rest ih =>
    rw [List.forall_mem_cons] at listed
    rw [Execution.putLeaves, List.foldl_cons]
    split
    · exact ih (occupied.put listed.1 _) listed.2
    · exact ih occupied listed.2

/-- With room for all slots, preparation fills the scratch slots, and no other slots but those that are emptied. -/
theorem prepare_stocks [Memory] (orderly : p.Orderly) (roomy : ∀ slot ∈ p.slots, slot.role ≠ .leaf → Roomy slot)
    (occupied : Occupied p s) (bound : Bindings) (ids : Option (List BufferId)) :
    Ensures (prepare p bound ids) s (fun _ s' => Occupied p s' ∧ Stocked p s') (fun _ => False) := by
  have leaves : ∀ leaf ∈ p.leaves, leaf.slot ∈ emptied p :=
    fun leaf member => List.mem_append_left _ (List.mem_map_of_mem member)
  have outputs : ∀ entry ∈ (p.outputs.zip p.outputSlots).zip (ids.getD []), entry.1.1.isLeaf = false →
      entry.1.2 ∈ emptied p := by
    intro entry member interior
    obtain ⟨slot, listed, index, role⟩ := orderly.interior _ (List.of_mem_zip member).1 interior
    exact List.mem_append_right _ (List.mem_map.mpr ⟨slot, List.mem_filter.mpr ⟨listed, by simpa using role⟩, index⟩)
  unfold prepare
  refine .bind ?_
  rw [Ensures, forM_putLeaf]
  refine .bind ((prepareSlots_stock (fun _ => id) roomy (occupied.putLeaves leaves)).weaken ?_ fun _ => id)
  rintro _ s₁ ⟨occupied, stocked⟩
  have kept : ∀ key, Along (fun s s' => SlotHeld s key → SlotHeld s' key)
      (claim ((p.outputs.zip p.outputSlots).zip (ids.getD [])) []) := fun key => (moves_stocks key).claim _ _
  rw [Ensures, claim_eq]
  refine ⟨occupied.claimAll outputs, fun slot member role => ?_⟩
  exact (kept slot.index s₁).of_ok (claim_eq ..) (stocked slot member role)

/-! Executions, one after the other. -/

theorem run_tidies [Memory] (orderly : p.Orderly) (roomy : ∀ slot ∈ p.slots, slot.role ≠ .leaf → Roomy slot)
    (tidy : Tidy p s) : Ensures (run profiled p bindings supplied) s (fun _ s' => Tidy p s') (fun s' => Tidy p s') := by
  rw [run_eq]
  refine .bind ((checks_untouched s).weaken ?_ fun s₁ ⟨⟨store, storage⟩, _, _⟩ =>
    tidy.grows storage store.grows store.later.sizes)
  intro given s₁ untouched
  have occupied := tidy.occupied.alters (untouched.toExtends.alters fun _ => False)
  refine .bind ((prepare_stocks orderly roomy occupied given.1 given.2).weaken ?_ fun _ => False.elim)
  rintro _ s₂ ⟨occupied, _⟩
  refine ensures_discarding (.bind ((steps_confined p.steps).weaken ?_ fun s₃ ran => (occupied.alters ran).discarded))
  intro _ s₃ ran
  refine .bind ((collect_confined _ []).weaken ?_ fun s₄ last => ((occupied.alters ran).alters last).discarded)
  exact fun results s₄ last => .bind (.modify (.pure ((occupied.alters ran).alters last).discarded))

theorem Stocked.along (valid : p.Valid) {x : Execution (List BufferId)} (stocked : Stocked p s)
    (goes : ∀ key, key ∉ emptied p → Ensures x s
      (fun _ s' => ∃ s₁, (SlotHeld s key → SlotHeld s₁ key) ∧ s' = discard p (recorded s₁))
      (fun s' => SlotHeld s key → SlotHeld s' key)) : Stocked p (final x s) := by
  intro slot member role
  have kept := scratch_kept valid member role
  have held := stocked slot member role
  have spec := goes slot.index kept
  unfold final
  cases ran : x s with
  | ok ids s' =>
    obtain ⟨s₁, still, rfl⟩ := spec.of_ok ran
    exact SlotHeld.discarded (still held) kept
  | error e s' => exact spec.of_error ran held

/-- An execution whose checks return reaches its steps, and leaves all scratch slots filled. -/
theorem run_stocks [Memory] (orderly : p.Orderly) (roomy : ∀ slot ∈ p.slots, slot.role ≠ .leaf → Roomy slot)
    (tidy : Tidy p s)
    {given : Bindings × Option (List BufferId)} {s₁ : State} (checked : checks p bindings supplied s = .ok given s₁)
    (profiled : Bool) : Stocked p (final (run profiled p bindings supplied) s) := by
  have untouched := (checks_untouched s).of_ok checked
  have occupied := tidy.occupied.alters (untouched.toExtends.alters fun _ => False)
  have prepared := prepare_stocks orderly roomy occupied given.1 given.2
  cases filled : prepare p given.1 given.2 s₁ with
  | error e s₂ => exact (prepared.of_error filled).elim
  | ok _ s₂ =>
    have reached : run profiled p bindings supplied s = discarding p (runSteps profiled p given.2) s₂ := by
      rw [run_eq]
      simp only [bind, EStateM.bind, checked, filled]
    rw [final, reached]
    refine Stocked.along orderly.valid (prepared.of_ok filled).2 fun key kept => ?_
    exact (moves_stocks key).runSteps (fun s stocks => SlotHeld.discarded stocks kept) profiled given.2

/-- What happens to a plan that is not released: it is executed, or something happens elsewhere, where its storage
is left alone. -/
inductive Happening [Memory] (p : Plan) (s : State) : State → Prop
  | executed (profiled : Bool) (bindings : List (Value × Value)) (supplied : Option (List Value)) :
    Happening p s (final (run profiled p bindings supplied) s)
  | elsewhere {s' : State} (storage : s'.storage = s.storage) (store : s.store.Later s'.store) : Happening p s s'

/-- Anything that happened while the plan was not released. -/
abbrev Happenings [Memory] (p : Plan) : State → State → Prop := Relation.ReflTransGen (Happening p)

/-- Anything that happened to a plan, its releases included. -/
abbrev Lifetime [Memory] (p : Plan) : State → State → Prop :=
  Relation.ReflTransGen fun s s' => Happening p s s' ∨ s' = { s with storage := [] }

theorem Tidy.life [Memory] (tidy : Tidy p s) (orderly : p.Orderly)
    (roomy : ∀ slot ∈ p.slots, slot.role ≠ .leaf → Roomy slot) (life : Lifetime p s s') : Tidy p s' := by
  induction life with
  | refl => exact tidy
  | tail _ happens tidy =>
    rcases happens with (⟨profiled, bindings, supplied⟩ | ⟨storage, store⟩) | rfl
    · exact (run_tidies orderly roomy tidy).final
    · exact tidy.grows storage store.grows store.sizes
    · exact fun entry member => by cases member

theorem Stocked.turns [Memory] (stocked : Stocked p s) (valid : p.Valid) (turns : Happenings p s s') :
    Stocked p s' := by
  induction turns with
  | refl => exact stocked
  | tail _ happens stocked =>
    cases happens with
    | executed profiled bindings supplied =>
      refine stocked.along valid fun key kept => ?_
      exact (moves_stocks key).run (fun s stocks => SlotHeld.discarded stocks kept) profiled bindings supplied
    | elsewhere storage store =>
      intro slot member role
      rw [SlotHeld, storage]
      exact stocked slot member role

theorem moves_uncounted :
    MoveOrder fun s s' => s'.profile.executions = s.profile.executions ∧ s'.profile.peak = s.profile.peak where
  refl _ := ⟨rfl, rfl⟩
  trans first second := ⟨second.1.trans first.1, second.2.trans first.2⟩
  allocated _ _ := ⟨rfl, rfl⟩
  put _ _ _ := ⟨rfl, rfl⟩
  written _ _ _ _ _ := ⟨rfl, rfl⟩
  streamed _ _ := ⟨rfl, rfl⟩
  counted _ _ _ := ⟨rfl, rfl⟩

/-- A compiled plan, whose slots there is room for, can be executed again after any call. Between calls it holds no
buffers but those of its scratch slots: all of them, once a call has come to the steps, until it is released. A
call that fails counts for nothing. One that is not to be made fails before any step, and nothing has happened but
that bound values may have got buffers of their own. -/
theorem failed_calls [Memory] {w : Workspace} (built : w.Built ShapeRules.Proper) {settings : Settings}
    {kernels : Kernels} {device v : Value} {overrides : List (Value × Value)}
    (made : Plan.compile settings kernels device overrides v = .ok p) (own : ∀ o ∈ p.outputs, o ∈ w.graph.nodes)
    (roomy : ∀ slot ∈ p.slots, slot.role ≠ .leaf → Roomy slot)
    {opening : State} (empty : opening.storage = []) (life : Lifetime p opening s) :
    Tidy p s ∧ ∀ bindings supplied,
      (∀ given s₁, checks p bindings supplied s = .ok given s₁ → ∀ profiled later,
        Happenings p (final (run profiled p bindings supplied) s) later → Stocked p later) ∧
      (∀ profiled e s', run profiled p bindings supplied s = .error e s' →
        s'.profile.executions = s.profile.executions ∧ s'.profile.peak = s.profile.peak) ∧
      (∀ e s', checks p bindings supplied s = .error e s' → Untouched s s' ∧ ∀ profiled steps,
        run profiled { p with steps } bindings supplied s = .error e s') ∧
      (Misused p s bindings supplied → (∀ pair ∈ bindings, pair.2.Within s.store) →
        (∀ vs, supplied = some vs → ∀ v ∈ vs, v.Within s.store) →
          ∃ e s', checks p bindings supplied s = .error e s') := by
  obtain ⟨outputs, standard, devices, made⟩ := Plan.compile_eq_ok made
  have laid := (Plan.ofOutputs_eq_ok made).1
  rw [laid.requested] at own
  have orderly := Plan.ofOutputs_orderly built.ordered.arena own made
  have opened : Tidy p opening := fun entry member => by rw [empty] at member; cases member
  have tidy := opened.life orderly roomy life
  refine ⟨tidy, fun bindings supplied => ⟨?_, ?_, ?_, Misused.refused⟩⟩
  · intro given s₁ checked profiled later turns
    exact (run_stocks orderly roomy tidy checked profiled).turns orderly.valid turns
  · intro profiled e s' failed
    exact (moves_uncounted.run (fun _ => ⟨rfl, rfl⟩) profiled bindings supplied).of_error failed
  · intro e s' failed
    exact ⟨(checks_untouched s).of_error failed, run_of_checks failed⟩

end Execution

namespace Sample
open Execution Plan

def freshState : State := ⟨workspace.store, [], [], .empty⟩

def executedState : State := final (run false squarePlan sharedBinding none) freshState

/-- The plan of the square holds its scratch slot behind an execution; one without bindings changes nothing. -/
theorem failed_calls_square : Tidy squarePlan executedState ∧ Stocked squarePlan executedState ∧
    ∃ e s', run false squarePlan [] none executedState = .error e s' ∧ Untouched executedState s' := by
  have roomy : ∀ slot ∈ squarePlan.slots, slot.role ≠ .leaf → Roomy slot := by
    simp only [squarePlan, List.forall_mem_cons]
    exact ⟨fun _ => ⟨by decide, rfl⟩, fun _ => ⟨by decide, rfl⟩, fun _ => ⟨by decide, rfl⟩, fun _ => ⟨by decide, rfl⟩,
      by simp⟩
  have once : Lifetime squarePlan freshState executedState := .single (.inl (.executed false sharedBinding none))
  obtain ⟨given, s₁, checked⟩ : ∃ given s₁, checks squarePlan sharedBinding none freshState =
    .ok given s₁ := ⟨_, _, rfl⟩
  have empty : freshState.storage = [] := rfl
  obtain ⟨_, opening⟩ := failed_calls built_proper compile_square own_square roomy empty .refl
  obtain ⟨tidy, behind⟩ := failed_calls built_proper compile_square own_square roomy empty once
  obtain ⟨_, _, refused, misused⟩ := behind [] none
  have second : ⟨y, 1⟩ ∈ squarePlan.leaves := List.mem_pair.mpr (.inr rfl)
  have unbound : Misused squarePlan executedState [] none := .unbound second rfl rfl
  obtain ⟨e, s', failed⟩ := misused unbound (by simp) fun vs none => by cases none
  obtain ⟨untouched, same⟩ := refused e s' failed
  exact ⟨tidy, (opening sharedBinding none).1 given s₁ checked false executedState .refl, e, s',
    same false squarePlan.steps, untouched⟩

/-! A variable, and more repetitions of it than there is room for. -/

def singleVariable : Node := ⟨⟨0, 0⟩, "variable", [], [], ⟨.float32, [1]⟩, some 0⟩

def vastRepeat : Node := ⟨⟨0, 1⟩, "repeat", [singleVariable], [("repetitions", .int (2 ^ 62))],
    ⟨.float32, [2 ^ 62, 1]⟩, none⟩

def vastRepeatWorkspace : Workspace where
  rules := .standard
  graph := ⟨0, .null, #[singleVariable, vastRepeat], [(.interior "repeat" [0] [("repetitions", .int (2 ^ 62))],
    vastRepeat)]⟩
  store := ⟨#[⟨.zeros 4, false⟩]⟩

def vastRepeatPlan : Plan where
  outputs := [vastRepeat]
  steps := [⟨vastRepeat, .host, .host .repeated, [0], 1⟩]
  leaves := [⟨singleVariable, 0⟩]
  slots := [⟨0, 4, .leaf⟩, ⟨1, 2 ^ 64, .output⟩]
  outputSlots := [1]
  statistics := ⟨["variable_0", "repeat_1"], 1, 2, 0, 0, 0, 2 ^ 64 + 4⟩

theorem vastRepeatWorkspace_built : vastRepeatWorkspace.Built (· = .standard) := by
  have start : Workspace.Built (· = .standard) ⟨.standard, .empty 0 .null, .empty⟩ :=
    .empty 0 .null .standard .empty rfl
  have first : Building.variableOf (.list [.int 1]) (.elementType .float32) .null
      ⟨.standard, .empty 0 .null, .empty⟩ = .ok singleVariable ⟨.standard, ⟨0, .null, #[singleVariable], []⟩,
        vastRepeatWorkspace.store⟩ := rfl
  have second : Building.call "repeat" [.node singleVariable] (.dictionary [(.text "repetitions", .int (2 ^ 62))])
      ⟨.standard, ⟨0, .null, #[singleVariable], []⟩, vastRepeatWorkspace.store⟩ =
        .ok vastRepeat vastRepeatWorkspace := rfl
  exact (start.variableOf first).call (by simp) second

/-- Where there is no room for an output, the variable stays in its slot. -/
theorem variable_stays : vastRepeatWorkspace.Built ShapeRules.Proper ∧
    Plan.compile .standard .standard .null [] (.node vastRepeat) = .ok vastRepeatPlan ∧
    (∀ o ∈ vastRepeatPlan.outputs, o ∈ vastRepeatWorkspace.graph.nodes) ∧
    ∃ s', run false vastRepeatPlan [] none ⟨vastRepeatWorkspace.store, [], [], .empty⟩ =
      .error (.fault .notAddressable) s' ∧ s'.storage = [(0, 0)] ∧ 0 ∈ emptied vastRepeatPlan := by
  have order : Node.order [vastRepeat] = [singleVariable, vastRepeat] := by
    rw [Node.order_eq]
    rfl
  have made : ofOutputs .standard .host [] [vastRepeat] = .ok vastRepeatPlan := by
    rw [ofOutputs, order]
    rfl
  have built := vastRepeatWorkspace_built.mono fun _ same => same ▸ ShapeRules.standard_proper
  refine ⟨built, Plan.compile_standard rfl made, ?_, _, rfl, rfl, List.mem_cons_self ..⟩
  intro o member
  cases List.mem_singleton.mp member
  simp [vastRepeatWorkspace]

end Sample
end TensorDag
