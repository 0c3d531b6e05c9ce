import TensorDag.Proofs.Aftermath
import TensorDag.Proofs.Compilation
import TensorDag.Proofs.Simulation

/-!
What an execution changes, and what it hands out. Steps write to scratch slots and output slots, and
those hold buffers of the plan, new ones, or the ones that were supplied; so nothing else changes, and
each result is a new buffer or the one that was supplied for it.
-/
namespace TensorDag

namespace Plan.Orderly
variable {p : Plan}

theorem shared (orderly : p.Orderly) : ∀ place ∈ p.outputSlots, Execution.Public p place := by
  intro place member
  obtain ⟨i, inside, rfl⟩ := List.mem_iff_getElem.mp member
  have bound : i < p.outputs.length := orderly.paired ▸ inside
  have listed : (p.outputs[i], p.outputSlots[i]) ∈ p.outputs.zip p.outputSlots :=
    List.mem_iff_getElem.mpr ⟨i, by rw [List.length_zip]; omega, by simp⟩
  cases leaf : p.outputs[i].isLeaf with
  | true =>
    exact Execution.public_leaf orderly.valid (orderly.leaves _ listed leaf)
  | false =>
    obtain ⟨slot, present, same, role⟩ := orderly.interior _ listed leaf
    rw [← show slot.index = p.outputSlots[i] from same]
    exact Execution.public_output orderly.valid present role

end Plan.Orderly

namespace Execution
open Program Plan
variable {p : Plan} {s s' : State} {bound : Bindings} {bindings : List (Value × Value)} {profiled : Bool}

/-! Supplied buffers in their slots. -/

/-- The storage behind the claims of supplied buffers. -/
def claimAll : List ((Node × Int) × BufferId) → List Int → Storage → Storage
  | [], _, storage => storage
  | ((n, slot), id) :: rest, claimed, storage =>
    if n.isLeaf || claimed.contains slot then claimAll rest claimed storage
    else claimAll rest (slot :: claimed) (storage.put slot id)

theorem claim_eq (entries : List ((Node × Int) × BufferId)) (claimed : List Int) (s : State) :
    claim entries claimed s = .ok ⟨⟩ { s with storage := claimAll entries claimed s.storage } := by
  induction entries generalizing claimed s with
  | nil => rfl
  | cons entry rest ih =>
    obtain ⟨⟨n, slot⟩, id⟩ := entry
    rw [claim, claimAll]
    split
    · exact ih claimed s
    · exact ih (slot :: claimed) _

/-- The buffer that claims a slot: that of the first output there which is no leaf. -/
def claimant (entries : List ((Node × Int) × BufferId)) (key : Int) : Option BufferId :=
  (entries.find? fun entry => !entry.1.1.isLeaf && entry.1.2 == key).map Prod.snd

theorem claimant_cons (entry : (Node × Int) × BufferId) (rest : List ((Node × Int) × BufferId)) (key : Int) :
    claimant (entry :: rest) key =
      if !entry.1.1.isLeaf && entry.1.2 == key then some entry.2 else claimant rest key := by
  rw [claimant, List.find?_cons]
  cases !entry.1.1.isLeaf && entry.1.2 == key <;> rfl

theorem get?_claimAll (entries : List ((Node × Int) × BufferId)) (claimed : List Int) (storage : Storage)
    (key : Int) : (claimAll entries claimed storage).get? key =
      if key ∈ claimed then storage.get? key else (claimant entries key).or (storage.get? key) := by
  induction entries generalizing claimed storage with
  | nil => simp [claimAll, claimant]
  | cons entry rest ih =>
    obtain ⟨⟨n, slot⟩, id⟩ := entry
    rw [claimAll, claimant_cons]
    by_cases passed : (n.isLeaf || claimed.contains slot) = true
    · rw [if_pos passed, ih]
      split
      · rfl
      · rename_i free
        have other : ¬(!n.isLeaf && slot == key) = true := by
          rcases Bool.or_eq_true_iff.mp passed with leaf | taken
          · simp [leaf]
          · have differ : slot ≠ key := fun same => free (same ▸ by simpa using taken)
            simp [differ]
        rw [if_neg other]
    · rw [if_neg passed, ih]
      simp only [Bool.or_eq_true, not_or, Bool.not_eq_true, List.contains_eq_mem, decide_eq_false_iff_not] at passed
      by_cases same : key = slot
      · subst same
        rw [if_pos (List.mem_cons_self ..), if_neg passed.2, Storage.get?_put, if_pos rfl, if_pos (by simp [passed.1])]
        rfl
      · have other : ¬(!n.isLeaf && slot == key) = true := by simp [Ne.symm same]
        simp only [List.mem_cons, same, false_or]
        rw [Storage.get?_put, if_neg same, if_neg other]

theorem claimant_eq_some {entries : List ((Node × Int) × BufferId)} {key : Int} {id : BufferId}
    (found : claimant entries key = some id) : ∃ before entry after, entries = before ++ entry :: after ∧
      entry.1.1.isLeaf = false ∧ entry.1.2 = key ∧ entry.2 = id ∧
      ∀ other ∈ before, other.1.1.isLeaf = false → other.1.2 ≠ key := by
  obtain ⟨entry, here, same⟩ := Option.map_eq_some_iff.mp found
  obtain ⟨matched, before, after, split, others⟩ := List.find?_eq_some_iff_append.mp here
  simp only [Bool.and_eq_true, Bool.not_eq_true', beq_iff_eq] at matched
  refine ⟨before, entry, after, split, matched.1, matched.2, same, fun other member interior slot => ?_⟩
  have passed := others other member
  simp [interior, slot] at passed

theorem mem_of_claimant {entries : List ((Node × Int) × BufferId)} {key : Int} {id : BufferId}
    (found : claimant entries key = some id) : ∃ entry ∈ entries, entry.1.2 = key ∧ entry.2 = id := by
  obtain ⟨before, entry, after, split, _, slot, same, _⟩ := claimant_eq_some found
  exact ⟨entry, split ▸ by simp, slot, same⟩

theorem claimant_of_first {before after : List ((Node × Int) × BufferId)} {entry : (Node × Int) × BufferId}
    (interior : entry.1.1.isLeaf = false) (first : ∀ other ∈ before, other.1.2 ≠ entry.1.2) :
    claimant (before ++ entry :: after) entry.1.2 = some entry.2 := by
  have passed : ∀ other ∈ before, ¬(!other.1.1.isLeaf && other.1.2 == entry.1.2) = true :=
    fun other member => by simp [first other member]
  rw [claimant, List.find?_append, List.find?_eq_none.mpr passed, Option.none_or,
    List.find?_cons_of_pos (by simp [interior])]
  rfl

theorem prepare_eq [Memory] (p : Plan) (bound : Bindings) (ids : List BufferId) (s : State) :
    prepare p bound (some ids) s =
      (prepare p bound none >>= fun _ => claim ((p.outputs.zip p.outputSlots).zip ids) []) s := by
  simp only [prepare, Option.getD_none, List.zip_nil_right, Option.getD_some, claim, bind_assoc, pure_bind]

/-! What is handed out. -/

/-- With supplied buffers the results are these, if the slots that are seen first hold them. -/
theorem collect_supplied (entries : List ((Node × Int) × BufferId)) (seen : List Int)
    (claimed : ∀ before entry after, entries = before ++ entry :: after → entry.1.1.isLeaf = false →
      entry.1.2 ∉ seen → (∀ other ∈ before, other.1.2 ≠ entry.1.2) → s.storage.get? entry.1.2 = some entry.2) :
    Ensures (collect (entries.map fun entry => (entry.1, some entry.2)) seen) s
      (fun ids _ => ids = entries.map Prod.snd) (fun _ => True) := by
  induction entries generalizing s seen with
  | nil => exact .pure rfl
  | cons entry rest ih =>
    obtain ⟨⟨n, slot⟩, target⟩ := entry
    have own : Ensures (collectOne n slot (some target) seen) s (fun id _ => id = target) (fun _ => True) := by
      unfold collectOne
      refine .bind ((held_spec slot).weaken ?_ fun _ _ => trivial)
      rintro source _ ⟨rfl, found⟩
      split
      · exact .bind (.get (.bind ((write_confined target _).weaken (fun _ _ _ => .pure rfl) fun _ _ => trivial)))
      · rename_i first
        simp only [Bool.or_eq_true, not_or, Bool.not_eq_true, List.contains_eq_mem, decide_eq_false_iff_not] at first
        have here := claimed [] _ rest rfl first.1 first.2 (by simp)
        exact .pure (Option.some.inj (found.symm.trans here))
    rw [List.map_cons, collect]
    refine .bind ((own.and (collectOne_confined n slot (some target) seen)).weaken ?_ fun _ _ => trivial)
    rintro id s' ⟨rfl, first⟩
    refine .bind ((ih (slot :: seen) ?_).weaken ?_ fun _ _ => trivial)
    · intro before entry after split interior unseen others
      rw [List.mem_cons, not_or] at unseen
      rw [first.storage]
      refine claimed (((n, slot), id) :: before) entry after (by rw [split]; rfl) interior unseen.2 ?_
      exact List.forall_mem_cons.mpr ⟨Ne.symm unseen.1, others⟩
    · rintro ids _ rfl
      exact .pure rfl

/-- A buffer that is handed out: that of a slot not seen before, or a new one. -/
inductive Fresh (entries : List (Node × Int)) (seen : List Int) (s s' : State) (id : BufferId) : Prop
  | slot (entry : Node × Int) (member : entry ∈ entries) (interior : entry.1.isLeaf = false)
    (unseen : entry.2 ∉ seen) (held : s.storage.get? entry.2 = some id)
  | copy (late : s.store.size ≤ id) (inside : id < s'.store.size) (writable : (s'.store.get id).readonly = false)

/-- Without supplied buffers the results are different buffers, if slots hold different buffers. -/
theorem collect_fresh (within : ∀ key id, s.storage.get? key = some id → id < s.store.size)
    (entries : List (Node × Int)) (seen : List Int)
    (alone : ∀ entry ∈ entries, entry.1.isLeaf = false → ∀ id, s.storage.get? entry.2 = some id →
      ∀ key, s.storage.get? key = some id → key = entry.2) :
    Ensures (collect (entries.map fun entry => (entry, none)) seen) s
      (fun ids s' => s.Extends s' ∧ ids.Nodup ∧ ∀ id ∈ ids, Fresh entries seen s s' id) (fun _ => True) := by
  induction entries generalizing s seen with
  | nil => exact .pure ⟨.refl s, List.nodup_nil, by simp⟩
  | cons entry rest ih =>
    obtain ⟨n, slot⟩ := entry
    have own : Ensures (collectOne n slot none seen) s
        (fun id s' => s.Extends s' ∧ (id < s.store.size ∧ n.isLeaf = false ∧ slot ∉ seen ∧
          s.storage.get? slot = some id ∨
          s.store.size ≤ id ∧ id < s'.store.size ∧ (s'.store.get id).readonly = false)) (fun _ => True) := by
      unfold collectOne
      refine .bind ((held_spec slot).weaken ?_ fun _ _ => trivial)
      rintro source _ ⟨rfl, found⟩
      split
      · refine .bind (.get (ensures_allocate ⟨⟨Store.extends_insert .., rfl⟩, .inr ⟨Nat.le_refl _, by simp, ?_⟩⟩))
        rw [Store.get_insert_self]
        rfl
      · rename_i first
        simp only [Bool.or_eq_true, not_or, Bool.not_eq_true, List.contains_eq_mem, decide_eq_false_iff_not] at first
        exact .pure ⟨.refl s, .inl ⟨within _ _ found, first.1, first.2, found⟩⟩
    rw [List.map_cons, collect]
    refine .bind (own.weaken ?_ fun _ _ => trivial)
    rintro id s' ⟨first, head⟩
    have later : ∀ key id, s'.storage.get? key = some id → s.storage.get? key = some id := fun key id held =>
      first.storage ▸ held
    refine .bind ((ih (s := s') (fun key id held => Nat.lt_of_lt_of_le
      (within key id (later key id held)) first.store.grows)
      (slot :: seen) fun other member interior id' held key again =>
        alone other (List.mem_cons_of_mem _ member) interior id' (later _ _ held) key (later _ _ again)).weaken ?_
      fun _ _ => trivial)
    rintro ids s'' ⟨second, apart, others⟩
    have inside : id < s'.store.size := by
      rcases head with ⟨old, _⟩ | ⟨_, new, _⟩
      · exact Nat.lt_of_lt_of_le old first.store.grows
      · exact new
    refine .pure ⟨first.trans second, List.nodup_cons.mpr ⟨fun again => ?_, apart⟩, List.forall_mem_cons.mpr ⟨?_, ?_⟩⟩
    · cases others id again with
      | copy late _ _ => exact absurd inside (Nat.not_lt_of_le late)
      | slot other member interior unseen held =>
        have found := later _ _ held
        rcases head with ⟨_, leaf, _, here⟩ | ⟨late, _, _⟩
        · have same := alone other (List.mem_cons_of_mem _ member) interior id found slot here
          exact unseen (same ▸ List.mem_cons_self ..)
        · exact absurd (within _ _ found) (Nat.not_lt_of_le late)
    · rcases head with ⟨_, leaf, unseen, here⟩ | ⟨late, new, writable⟩
      · exact .slot (n, slot) (List.mem_cons_self ..) leaf unseen here
      · exact .copy late (Nat.lt_of_lt_of_le new second.store.grows) (by rw [second.store.same id new, writable])
    · intro id' member
      cases others id' member with
      | copy late new writable => exact .copy (Nat.le_trans first.store.grows late) new writable
      | slot other listed interior unseen held =>
        exact .slot other (List.mem_cons_of_mem _ listed) interior (fun old => unseen (List.mem_cons_of_mem _ old))
          (later _ _ held)

/-- Behind an execution leaf and output slots are empty. -/
theorem get?_discard {key : Int} {id : BufferId} (found : (discard p s).storage.get? key = some id) :
    s.storage.get? key = some id ∧ ∀ slot ∈ p.slots, slot.role = .output → slot.index ≠ key := by
  have erased : ∀ {keys : List Int} {storage : Storage}, key ∈ keys →
    (keys.foldl Storage.erase storage).get? key = none := by
    intro keys
    induction keys with
    | nil => simp
    | cons head rest ih =>
      intro storage member
      by_cases inside : key ∈ rest
      · exact ih inside
      · have same : key = head := (List.mem_cons.mp member).resolve_right inside
        cases left : (rest.foldl Storage.erase (storage.erase head)).get? key with
        | none => exact left
        | some id =>
          have here := get?_erased left
          rw [Storage.get?_erase, if_pos same] at here
          cases here
  refine ⟨get?_erased found, fun slot member role same => ?_⟩
  have listed : key ∈ p.leaves.map LeafSlot.slot ++ (p.slots.filter fun slot => slot.role = .output).map Slot.index :=
    List.mem_append_right _ (List.mem_map.mpr ⟨slot, List.mem_filter.mpr ⟨member, by simpa using role⟩, same⟩)
  cases found.symm.trans (erased listed)

/-! Executions as a whole. -/

/-- What an execution starts from: callers know leaves, what they bind and what they supply. -/
structure Start [Memory] (p : Plan) (s : State) (bindings : List (Value × Value)) (supplied : Option (List Value)) :
    Prop where
  orderly : p.Orderly
  kept : Kept p s
  leaves : ∀ leaf ∈ p.leaves, ∀ id, leaf.node.buffer = some id → Visible p s id
  given : ∀ key id content, (key, .buffer id content) ∈ bindings → Visible p s id
  handed : ∀ vs, supplied = some vs → ∀ id content, .buffer id content ∈ vs → Visible p s id

def claims (p : Plan) (supplied : Option (List BufferId)) (storage : Storage) : Storage :=
  claimAll ((p.outputs.zip p.outputSlots).zip (supplied.getD [])) [] storage

/-- An execution is what its steps make of prepared slots; before them buffers are made at most. -/
theorem Start.ensures_run [Memory] {supplied : Option (List Value)} (start : Start p s bindings supplied)
    {post : List BufferId → State → Prop} {rest : State → Prop}
    (early : ∀ s₁, s.store.Extends s₁.store → rest s₁)
    (body : ∀ bound s₁ s₂ ids, s.Extends s₁ → suppliedBuffers p s₁.store supplied = .ok ids → Prepared p bound s₁ s₂ →
      Ensures (runSteps profiled p ids) { s₂ with storage := claims p ids s₂.storage }
        (fun results s' => post results (discard p s')) (fun s' => rest (discard p s'))) :
    Ensures (run profiled p bindings supplied) s post rest := by
  have within : ∀ pair ∈ bindings, pair.2.Within s.store := by
    rintro ⟨key, v⟩ member
    cases v with
    | buffer id content => exact (start.given key id content member).1
    | _ => trivial
  unfold run
  refine .bind ((bindAll_spec within (Nat.le_refl _)).weaken ?_ fun s' extended => early s' extended.store)
  rintro bound s₁ ⟨extended, sources, _⟩
  have first := start.kept.extends extended
  have known : ∀ leaf ∈ p.leaves, ∀ id, leafBuffer bound leaf.node = some id → Visible p s₁ id := by
    intro leaf member id found
    rcases Option.or_eq_some_iff.mp found with listed | ⟨_, own⟩
    · exact start.kept.bound extended sources start.given listed
    · exact first.visible id (start.leaves leaf member id own)
  refine .bind (ensures_of (fun _ _ => .bind (.get (.bind (ensures_of ?_ fun _ _ =>
    early s₁ extended.store)))) fun _ _ =>
    early s₁ extended.store)
  intro ids supplies
  have prepared := prepare_spec start.orderly.valid first.kept known
  have claimed : Ensures (prepare p bound ids) s₁
      (fun _ s₂ => ∃ middle, Prepared p bound s₁ middle ∧ s₂ = { middle with storage := claims p ids middle.storage })
      (fun s₂ => s₁.store.Extends s₂.store) := by
    cases ids with
    | none =>
      refine prepared.weaken (fun _ s₂ ready => ⟨s₂, ready, ?_⟩) fun s₂ failed => failed.1
      rw [claims, Option.getD_none, List.zip_nil_right]
      rfl
    | some known =>
      unfold Ensures
      rw [prepare_eq]
      refine Ensures.bind (prepared.weaken (fun _ middle ready => ?_) fun s₂ failed => failed.1)
      rw [Ensures, claim_eq]
      exact ⟨middle, ready, rfl⟩
  refine .bind (claimed.weaken ?_ fun s₂ more => early s₂ (extended.store.trans more))
  rintro _ _ ⟨middle, ready, rfl⟩
  exact ensures_discarding (body bound s₁ middle ids extended supplies ready)

/-- The buffer is supplied for an output. -/
def Supplies (supplied : Option (List Value)) (id : BufferId) : Prop :=
  ∃ vs content, supplied = some vs ∧ .buffer id content ∈ vs

/-- The buffer is one of the plan's own, or supplied. -/
def Owned (p : Plan) (s : State) (supplied : Option (List Value)) (id : BufferId) : Prop :=
  Hidden p s id ∨ Supplies supplied id

theorem get?_claims (p : Plan) (ids : Option (List BufferId)) (storage : Storage) (key : Int) :
    (claims p ids storage).get? key =
      (claimant ((p.outputs.zip p.outputSlots).zip (ids.getD [])) key).or (storage.get? key) := by
  rw [claims, get?_claimAll, if_neg (List.not_mem_nil)]

/-- The slots that steps write to hold no buffers from before but owned ones. -/
theorem Prepared.owned [Memory] {supplied : Option (List Value)} {ids : Option (List BufferId)} {s₁ s₂ : State}
    (prepared : Prepared p bound s₁ s₂) (valid : p.Valid) (kept : Kept p s) (extended : s.Extends s₁)
    (supplies : suppliedBuffers p s₁.store supplied = .ok ids) {id : BufferId} (old : id < s.store.size)
    (targeted : Targeted p.steps { s₂ with storage := claims p ids s₂.storage } id) : Owned p s supplied id := by
  obtain ⟨step, member, found⟩ := targeted
  simp only [get?_claims, Option.or_eq_some_iff] at found
  rcases found with claimed | ⟨_, held⟩
  · obtain ⟨entry, listed, _, same⟩ := mem_of_claimant claimed
    have inside := (List.of_mem_zip listed).2
    cases ids with
    | none => cases inside
    | some known =>
      rw [Option.getD_some, same] at inside
      exact .inr (mem_of_suppliedBuffers supplies id inside)
  · obtain ⟨slot, listed, same, role⟩ := prepared.equipped.written_slot valid member held
    rw [← same] at held
    rcases role_cases valid listed role with scratch | output
    · refine .inl (Classical.byContradiction fun shown => ?_)
      exact (((kept.extends extended).trans prepared.onward).visible id ⟨old, shown⟩).2 ⟨slot, listed, scratch, held⟩
    · exact absurd (Nat.lt_of_lt_of_le old extended.store.grows)
        (Nat.not_lt_of_le (prepared.fresh slot listed output id held))

/-- An execution changes buffers of the plan and supplied ones, however it ends. -/
theorem Start.run_alters [Memory] {supplied : Option (List Value)} (start : Start p s bindings supplied) :
    Ensures (run profiled p bindings supplied) s (fun _ s' => s.store.Alters (Owned p s supplied) s'.store)
      (fun s' => s.store.Alters (Owned p s supplied) s'.store) := by
  refine start.ensures_run (fun s₁ extended => extended.alters _) fun bound s₁ s₂ ids extended supplies prepared => ?_
  have front : s.store.Alters (Owned p s supplied) s₂.store := (extended.store.trans prepared.store).alters _
  have targeted : ∀ id < s.store.size, Targeted p.steps { s₂ with storage := claims p ids s₂.storage } id →
      Owned p s supplied id :=
    fun id old => prepared.owned start.orderly.valid start.kept extended supplies old
  unfold runSteps
  refine .bind ((steps_confined p.steps).weaken ?_ fun s₃ ran => front.trans ran.store (fun _ _ own => own) targeted)
  intro _ s₃ ran
  have middle := front.trans ran.store (fun _ _ own => own) targeted
  have collected : ∀ id < s.store.size, (∃ entry ∈ (p.outputs.zip p.outputSlots).zip (targets p ids),
    entry.2 = some id) → Owned p s supplied id := by
    rintro id _ ⟨entry, member, same⟩
    have listed := (List.of_mem_zip member).2
    rw [same] at listed
    cases ids with
    | none => simp [targets] at listed
    | some known => exact .inr (mem_of_suppliedBuffers supplies id (by simpa [targets] using listed))
  refine .bind ((collect_confined _ []).weaken ?_ fun s₄ last => middle.trans last.store (fun _ _ own => own) collected)
  exact fun results s₄ last => .bind (.modify (.pure (middle.trans last.store (fun _ _ own => own) collected)))

/-- A buffer that was made meanwhile, that can be written, and that no slot holds. -/
structure Released (s s' : State) (id : BufferId) : Prop where
  late : s.store.size ≤ id
  inside : id < s'.store.size
  writable : (s'.store.get id).readonly = false
  free : ∀ key, s'.storage.get? key ≠ some id

/-- Without supplied buffers an execution returns different buffers, all of them new and given away. -/
theorem Start.run_released [Memory] (start : Start p s bindings none) :
    Ensures (run profiled p bindings none) s (fun ids s' => ids.Nodup ∧ ∀ id ∈ ids, Released s s' id)
      (fun _ => True) := by
  refine start.ensures_run (fun _ _ => trivial) fun bound s₁ s₂ ids extended supplies prepared => ?_
  cases supplies
  rw [claims, Option.getD_none, List.zip_nil_right]
  unfold runSteps
  refine .bind (((steps_confined p.steps).and (steps_onward prepared.equipped.toKept profiled p.steps)).weaken ?_
    fun _ _ => trivial)
  rintro _ s₃ ⟨ran, onward⟩
  have storage : s₃.storage = s₂.storage := ran.storage
  rw [zip_targets]
  refine .bind ((collect_fresh onward.kept.within _ [] ?_).weaken ?_ fun _ _ => trivial)
  · intro entry member interior id held key again
    obtain ⟨slot, listed, same, role⟩ := start.orderly.interior entry member interior
    rw [storage, ← same] at held
    rw [storage] at again
    rw [← same]
    exact (prepared.equipped.outputs slot listed role id held).2 key again
  · rintro results s₄ ⟨more, apart, fresh⟩
    refine .bind (.modify (.pure ⟨apart, fun id member => ?_⟩))
    have grown : s.store.size ≤ s₂.store.size := Nat.le_trans extended.store.grows prepared.store.grows
    cases fresh id member with
    | copy late inside writable =>
      refine ⟨Nat.le_trans grown (Nat.le_trans ran.store.grows late), inside, writable, fun key held => ?_⟩
      have found : s₄.storage.get? key = some id := (get?_discard held).1
      rw [more.storage] at found
      exact absurd (onward.kept.within key id found) (Nat.not_lt_of_le late)
    | slot entry listed interior _ held =>
      obtain ⟨slot, present, same, role⟩ := start.orderly.interior entry listed interior
      have inside := onward.kept.within _ _ held
      rw [storage, ← same] at held
      obtain ⟨serves, alone⟩ := prepared.equipped.outputs slot present role id held
      refine ⟨Nat.le_trans extended.store.grows (prepared.fresh slot present role id held),
        Nat.lt_of_lt_of_le inside more.store.grows, ?_, fun key found => ?_⟩
      · show (s₄.store.get id).readonly = false
        rw [more.store.same id inside, ran.store.flags id serves.inside, serves.writable]
      · obtain ⟨found, others⟩ := get?_discard found
        have found : s₄.storage.get? key = some id := found
        rw [more.storage, storage] at found
        exact others slot present role (alone key found).symm

/-- With supplied buffers an execution returns these, in order. -/
theorem Start.run_supplied [Memory] {vs : List Value} (start : Start p s bindings (some vs)) :
    Ensures (run profiled p bindings (some vs)) s
      (fun ids _ => List.Forall₂ (fun v id => ∃ content, v = .buffer id content) vs ids) (fun _ => True) := by
  refine start.ensures_run (fun _ _ => trivial) fun bound s₁ s₂ ids extended supplies prepared => ?_
  obtain ⟨known, rfl⟩ : ∃ known, ids = some known := by
    rw [suppliedBuffers] at supplies
    split at supplies
    · cases supplies
    · obtain ⟨given, _, same⟩ := Result.map_eq_ok.mp supplies
      exact ⟨given, same.symm⟩
  obtain ⟨length, same, _⟩ := suppliedBuffers_eq_ok supplies
  unfold runSteps
  refine .bind ((steps_confined p.steps).weaken ?_ fun _ _ => trivial)
  intro _ s₃ ran
  have entries : (p.outputs.zip p.outputSlots).zip (targets p (some known)) =
      ((p.outputs.zip p.outputSlots).zip known).map fun entry => (entry.1, some entry.2) :=
    List.zip_map_right ..
  rw [entries]
  refine .bind ((collect_supplied _ [] ?_).weaken ?_ fun _ _ => trivial)
  · intro before entry after split interior _ first
    rw [ran.storage]
    show (claims p (some known) s₂.storage).get? entry.1.2 = some entry.2
    rw [get?_claims, Option.getD_some, split, claimant_of_first interior first]
    rfl
  · rintro _ s₄ rfl
    have results : ((p.outputs.zip p.outputSlots).zip known).map Prod.snd = known :=
      List.map_snd_zip (Nat.le_of_eq (by rw [List.length_zip, ← start.orderly.paired, Nat.min_self, length]))
    rw [results]
    exact .bind (.modify (.pure same))

theorem Start.run_returned [Memory] {supplied : Option (List Value)} (start : Start p s bindings supplied) :
    Ensures (run profiled p bindings supplied) s
      (fun ids s' => ∀ id ∈ ids, s.store.size ≤ id ∧ id < s'.store.size ∨ Supplies supplied id) (fun _ => True) := by
  cases supplied with
  | none =>
    refine start.run_released.weaken (fun ids s' ⟨_, released⟩ id member => ?_) fun _ _ => trivial
    exact .inl ⟨(released id member).late, (released id member).inside⟩
  | some vs =>
    refine start.run_supplied.weaken (fun ids s' same id member => ?_) fun _ _ => trivial
    obtain ⟨i, inside, rfl⟩ := List.mem_iff_getElem.mp member
    obtain ⟨content, here⟩ := same.get (same.length_eq ▸ inside) inside
    exact .inr ⟨vs, content, rfl, here ▸ List.getElem_mem ..⟩

end Execution
end TensorDag
