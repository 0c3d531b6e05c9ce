import TensorDag.Proofs.Supplying

/-!
Outputs of an execution in supplied buffers. An execution that returns new buffers and one from the same
state that writes to supplied ones return the same values, as long as no leaf is read from a supplied
buffer after that buffer was written.
-/
namespace TensorDag
namespace Execution
open Program Plan
variable {p : Plan} {s s' t : State} {step : Step} {profiled : Bool}

theorem write_eq {id : BufferId} {bytes : Bytes} (writable : (s.store.get id).readonly = false)
    (size : bytes.size = (s.store.get id).size) :
    write id bytes s = .ok ⟨⟩ { s with store := s.store.overwrite id bytes } := by
  have accepted : s.store.write id bytes = .ok (s.store.overwrite id bytes) := by
    simp only [Store.write, Store.update, Buffer.set, writable, size, if_true]
    rfl
  simp only [write, bind, EStateM.bind, run_get, accepted]
  rfl

/-- Outputs that are to be copied, as those before them decide: leaves, and slots seen before. -/
def Copied (seen : List Int) (before : List ((Node × Int) × BufferId)) (entry : (Node × Int) × BufferId) : Prop :=
  entry.1.1.isLeaf ∨ entry.1.2 ∈ seen ∨ ∃ other ∈ before, other.1.2 = entry.1.2

/-- What collecting into supplied buffers starts from: slots hold values, each buffer is one of its own
that takes the value of its slot, and no copy spoils what is still to be copied. -/
structure Collectible (entries : List ((Node × Int) × BufferId)) (seen : List Int) (value : Int → Bytes) (s : State) :
    Prop where
  held : ∀ entry ∈ entries, ∃ source, s.storage.get? entry.1.2 = some source ∧
    (s.store.get source).bytes = value entry.1.2
  takes : ∀ entry ∈ entries, entry.2 < s.store.size ∧ (s.store.get entry.2).readonly = false ∧
    (value entry.1.2).size = (s.store.get entry.2).size
  apart : (entries.map Prod.snd).Nodup
  first : ∀ before entry after, entries = before ++ entry :: after → ¬Copied seen before entry →
    s.storage.get? entry.1.2 = some entry.2
  spares : ∀ before entry after, entries = before ++ entry :: after → Copied seen before entry → ∀ later ∈ after,
    s.storage.get? later.1.2 = some entry.2 → value later.1.2 = value entry.1.2

theorem Collectible.tail {entry : (Node × Int) × BufferId} {rest : List ((Node × Int) × BufferId)} {seen : List Int}
    {value : Int → Bytes} (collectible : Collectible (entry :: rest) seen value s) (storage : s'.storage = s.storage)
    (store : s.store.Alters (· = entry.2) s'.store)
    (held : ∀ later ∈ rest, ∃ source, s'.storage.get? later.1.2 = some source ∧
      (s'.store.get source).bytes = value later.1.2) :
    Collectible rest (entry.1.2 :: seen) value s' := by
  have copied : ∀ {before other}, Copied (entry.1.2 :: seen) before other ↔ Copied seen (entry :: before) other := by
    intro before other
    simp only [Copied, List.mem_cons]
    grind
  constructor
  case held => exact held
  case takes =>
    intro later member
    obtain ⟨inside, writable, size⟩ := collectible.takes later (List.mem_cons_of_mem _ member)
    exact ⟨Nat.lt_of_lt_of_le inside store.grows, by rw [store.flags _ inside, writable],
      by rw [store.sizes _ inside, size]⟩
  case apart => exact (List.nodup_cons.mp (List.map_cons ▸ collectible.apart)).2
  case first =>
    intro before other after split uncopied
    rw [storage]
    exact collectible.first (entry :: before) other after (by rw [split]; rfl) fun here => uncopied (copied.mpr here)
  case spares =>
    intro before other after split here later member
    rw [storage]
    exact collectible.spares (entry :: before) other after (by rw [split]; rfl) (copied.mp here) later member

/-- One output comes into its buffer, and those behind it are still there. -/
theorem Collectible.one {entry : (Node × Int) × BufferId} {rest : List ((Node × Int) × BufferId)} {seen : List Int}
    {value : Int → Bytes} (collectible : Collectible (entry :: rest) seen value s) :
    ∃ s', collectOne entry.1.1 entry.1.2 (some entry.2) seen s = .ok entry.2 s' ∧ s'.storage = s.storage ∧
      s.store.Alters (· = entry.2) s'.store ∧ (s'.store.get entry.2).bytes = value entry.1.2 ∧
      ∀ later ∈ rest, ∃ source, s'.storage.get? later.1.2 = some source ∧
        (s'.store.get source).bytes = value later.1.2 := by
  obtain ⟨source, found, bytes⟩ := collectible.held entry (List.mem_cons_self ..)
  obtain ⟨inside, writable, size⟩ := collectible.takes entry (List.mem_cons_self ..)
  by_cases copied : (entry.1.1.isLeaf || seen.contains entry.1.2) = true
  · have fits : (s.store.get source).bytes.size = (s.store.get entry.2).size := by rw [bytes, size]
    refine ⟨{ s with store := s.store.overwrite entry.2 (s.store.get source).bytes }, ?_, rfl,
      Store.alters_overwrite fits, ?_, fun later member => ?_⟩
    · simp only [collectOne, bind, EStateM.bind, held_eq found, copied, if_true, run_get,
        write_eq writable fits]
      rfl
    · rw [Store.get_overwrite_self _ inside]
      exact bytes
    · obtain ⟨other, held, same⟩ := collectible.held later (List.mem_cons_of_mem _ member)
      refine ⟨other, held, ?_⟩
      by_cases equal : other = entry.2
      · have decided : Copied seen [] entry := by
          rcases Bool.or_eq_true_iff.mp copied with leaf | again
          · exact .inl leaf
          · exact .inr (.inl (by simpa using again))
        rw [equal, Store.get_overwrite_self _ inside,
          collectible.spares [] entry rest rfl decided later member (equal ▸ held)]
        exact bytes
      · rw [Store.get_overwrite_of_ne _ equal]
        exact same
  · have uncopied : ¬Copied seen [] entry := by
      rintro (leaf | again | ⟨other, member, _⟩)
      · exact copied (by simp [leaf])
      · exact copied (by simp [again])
      · cases member
    have same : source = entry.2 := Option.some.inj (found.symm.trans (collectible.first [] entry rest rfl uncopied))
    refine ⟨s, ?_, rfl, (Store.Extends.refl _).alters _, same ▸ bytes, fun later member =>
      collectible.held later (List.mem_cons_of_mem _ member)⟩
    simp only [collectOne, bind, EStateM.bind, held_eq found, copied, same]
    rfl

/-- Collecting into supplied buffers leaves in each of them the value of its slot. -/
theorem collect_into {entries : List ((Node × Int) × BufferId)} {seen : List Int} {value : Int → Bytes}
    (collectible : Collectible entries seen value s) :
    ∃ s', collect (entries.map fun entry => (entry.1, some entry.2)) seen s = .ok (entries.map Prod.snd) s' ∧
      (∀ entry ∈ entries, (s'.store.get entry.2).bytes = value entry.1.2) ∧
      ∀ id < s.store.size, id ∉ entries.map Prod.snd → s'.store.get id = s.store.get id := by
  induction entries generalizing s seen with
  | nil => exact ⟨s, rfl, by simp, fun _ _ _ => rfl⟩
  | cons entry rest ih =>
    obtain ⟨inside, _, _⟩ := collectible.takes entry (List.mem_cons_self ..)
    have apart := List.nodup_cons.mp (List.map_cons ▸ collectible.apart)
    obtain ⟨s₁, ran, storage, store, own, others⟩ := collectible.one
    obtain ⟨s', later, values, same⟩ := ih (collectible.tail storage store others)
    refine ⟨s', ?_, List.forall_mem_cons.mpr ⟨?_, values⟩, fun id old absent => ?_⟩
    · simp only [List.map_cons, collect, bind, EStateM.bind, ran, later]
      rfl
    · rw [same entry.2 (Nat.lt_of_lt_of_le inside store.grows) apart.1]
      exact own
    · rw [List.map_cons, List.mem_cons, not_or] at absent
      rw [same id (Nat.lt_of_lt_of_le old store.grows) absent.2, store.same id old absent.1]

theorem Orderly.writer (orderly : p.Orderly) {entry : Node × Int} (member : entry ∈ p.outputs.zip p.outputSlots)
    (interior : entry.1.isLeaf = false) : ∃ step ∈ p.steps, (step.node, step.outputSlot) = entry := by
  obtain ⟨slot, listed, place, role⟩ := orderly.interior entry member interior
  obtain ⟨holder, found, _⟩ := orderly.valid.outputs entry member
  rcases mem_written found with ⟨step, present, same, _⟩ | leaf
  · have written : p.writtenRole? step = some .output := by
      rw [writtenRole?, same, ← place, orderly.valid.slotAt_index listed]
      simp [Except.toOption, role]
    exact ⟨step, present, orderly.apart _ (orderly.requested step present written).1 entry member (.inl same)⟩
  · obtain ⟨leaf, present, same, _⟩ := mem_leafHolders leaf
    rw [orderly.valid.leaf_role present listed (place.trans same.symm)] at role
    cases role

/-- The value in a slot; of an empty one no bytes. -/
def valueIn (s : State) (key : Int) : Bytes :=
  match s.storage.get? key with
  | some id => (s.store.get id).bytes
  | none => #[]

theorem valueIn_eq {key : Int} {id : BufferId} (found : s.storage.get? key = some id) :
    valueIn s key = (s.store.get id).bytes := by
  rw [valueIn, found]

/-- Behind the steps of two executions, one of which goes into supplied buffers. -/
structure Behind (p : Plan) (ids : List BufferId) (s₂ s₃ t₃ : State) : Prop where
  beside : Beside p s₃ t₃
  alike : Alike p p.steps s₃ t₃
  first : s₂.Alters (fun _ => True) s₃
  second : (Begun.supplied p ids s₂).Alters (fun _ => True) t₃

namespace Begun
variable [Memory] {bindings : List (Value × Value)} {bound : Bindings} {s₁ s₂ s₃ t₃ : State} {ids : List BufferId}

theorem unspoiled (begun : Begun p s bindings bound s₁ s₂) (orderly : p.Orderly) (receiving : Receiving p s ids)
    (undisturbed : Undisturbed p bindings ids) {leaf : LeafSlot} (member : leaf ∈ p.leaves)
    (requested : leaf.node ∈ p.outputs) {jd : BufferId} (found : s₂.storage.get? leaf.slot = some jd) :
    ¬Targeted p.steps (supplied p ids s₂) jd := by
  rintro ⟨writer, listed, held⟩
  have held : (claims p (some ids) s₂.storage).get? writer.outputSlot = some jd := held
  rw [get?_supplied, Option.or_eq_some_iff] at held
  rcases held with claimed | ⟨_, held⟩
  · obtain ⟨i, output, given, interior, first⟩ := claimed_step orderly listed claimed
    have inside := (receiving.visible jd (List.mem_of_getElem? given)).1
    have source := begun.source leaf member jd (begun.leaf member ▸ found) inside
    have absent := (undisturbed.steps i writer.node jd output given interior first leaf member source).1
    rw [Node.isIn_of_mem requested] at absent
    cases absent
  · obtain ⟨_, _, _, _, alone⟩ := begun.prepared.equipped.output orderly.valid listed held
    exact orderly.valid.disciplined.leavesKept leaf member writer listed (alone _ found).symm

/-- Requested slots hold the same values, of the sizes of their nodes. -/
theorem output (begun : Begun p s bindings bound s₁ s₂) (orderly : p.Orderly) (receiving : Receiving p s ids)
    (undisturbed : Undisturbed p bindings ids) (behind : Behind p ids s₂ s₃ t₃) {entry : Node × Int}
    (member : entry ∈ p.outputs.zip p.outputSlots) {id : BufferId} (found : s₃.storage.get? entry.2 = some id) :
    (∃ jd, t₃.storage.get? entry.2 = some jd ∧ (t₃.store.get jd).bytes = (s₃.store.get id).bytes) ∧
      (s₃.store.get id).size = entry.1.byteSize := by
  obtain ⟨jd, there⟩ := behind.beside.filled _ _ found
  cases leaf : entry.1.isLeaf with
  | true =>
    have present := orderly.leaves entry member leaf
    have held : s₂.storage.get? entry.2 = some id := behind.first.storage ▸ found
    have same : id = jd := by
      have stored : t₃.storage = claims p (some ids) s₂.storage := behind.second.storage
      rw [stored, get?_claims_leaf orderly ids s₂.storage present, held] at there
      exact Option.some.inj there
    obtain ⟨other, own, visible, size⟩ := begun.given _ present
    have equal : id = other := Option.some.inj (held.symm.trans ((begun.leaf present).trans own))
    have inside : id < s₁.store.size := equal ▸ visible.1
    refine ⟨⟨jd, there, ?_⟩, ?_⟩
    · refine behind.alike.leaves _ present id jd found there ?_
      simp only [Targeted, behind.second.storage]
      exact begun.unspoiled orderly receiving undisturbed present (List.of_mem_zip member).1 (same ▸ held)
    · rw [behind.first.store.sizes id (Nat.lt_of_lt_of_le inside begun.prepared.store.grows),
        begun.prepared.store.same id inside, equal, size]
  | false =>
    obtain ⟨step, listed, same⟩ := Orderly.writer orderly member leaf
    subst same
    exact ⟨⟨jd, there, behind.alike.written step listed id jd found there⟩,
      (behind.beside.first.serves step listed id found).2.1⟩

/-- A copy into a supplied buffer leaves the values that are still to be copied. -/
theorem spares (begun : Begun p s bindings bound s₁ s₂) (orderly : p.Orderly) (receiving : Receiving p s ids)
    (undisturbed : Undisturbed p bindings ids) (behind : Behind p ids s₂ s₃ t₃)
    {before after : List ((Node × Int) × BufferId)} {entry later : (Node × Int) × BufferId}
    (split : destinations p ids = before ++ entry :: after) (copied : Copied [] before entry) (member : later ∈ after)
    (held : t₃.storage.get? later.1.2 = some entry.2) : valueIn s₃ later.1.2 = valueIn s₃ entry.1.2 := by
  have stored : t₃.storage = claims p (some ids) s₂.storage := behind.second.storage
  have same : s₃.storage = s₂.storage := behind.first.storage
  have here : entry ∈ destinations p ids := split ▸ by simp
  have there : later ∈ destinations p ids := split ▸ by simp [member]
  have listed : entry.2 ∈ ids := (List.of_mem_zip here).2
  rw [stored, get?_supplied, Option.or_eq_some_iff] at held
  rcases held with claimed | ⟨_, held⟩
  · obtain ⟨other, present, slot, buffer⟩ := mem_of_claimant claimed
    rw [← slot, destination_eq receiving.apart present here buffer]
  cases leaf : later.1.1.isLeaf with
  | false =>
    obtain ⟨step, known, place⟩ := Orderly.writer orderly (List.of_mem_zip there).1 leaf
    have slot : step.outputSlot = later.1.2 := congrArg Prod.snd place
    rw [← slot] at held
    obtain ⟨slot, inside, index, role⟩ := begun.prepared.equipped.written_slot orderly.valid known held
    rw [← index] at held
    exact absurd listed (begun.unclaimed receiving inside role orderly.valid held)
  | true =>
    have present := orderly.leaves later.1 (List.of_mem_zip there).1 leaf
    have source := begun.source _ present entry.2 ((begun.leaf present).symm.trans held) (receiving.visible _ listed).1
    by_cases own : entry.1.1.isLeaf ∧ sourceOf bindings entry.1.1 = some entry.2
    · have present' := orderly.leaves entry.1 (List.of_mem_zip here).1 own.1
      have found : s₂.storage.get? entry.1.2 = some entry.2 :=
        (begun.leaf present').trans (begun.sourced _ present' _ own.2)
      rw [valueIn_eq (same ▸ held), valueIn_eq (same ▸ found)]
    · have place : (destinations p ids)[before.length]? = some entry := by rw [split]; simp
      obtain ⟨output, given, _⟩ := getElem?_destinations place
      have again : entry.1.1.isLeaf ∨ entry.1.1.isIn (p.outputs.take before.length) := by
        rcases copied with leaf | none | ⟨other, earlier, slot⟩
        · exact .inl leaf
        · cases none
        · have known : other ∈ destinations p ids := split ▸ by simp [earlier]
          have equal := orderly.apart _ (List.of_mem_zip known).1 _ (List.of_mem_zip here).1 (.inl slot)
          obtain ⟨j, inside, rfl⟩ := List.mem_iff_getElem.mp earlier
          have place' : (destinations p ids)[j]? = some before[j] := by
            rw [split, List.getElem?_append_left inside, List.getElem?_eq_getElem inside]
          obtain ⟨output', _, _⟩ := getElem?_destinations place'
          refine .inr (Node.isIn_of_mem (List.mem_of_getElem? (i := j) ?_))
          rw [List.getElem?_take_of_lt inside, output', equal]
      have absent := undisturbed.copies before.length entry.1.1 entry.2 output given again own _ present source
      obtain ⟨k, inside, rfl⟩ := List.mem_iff_getElem.mp member
      have place' : (destinations p ids)[before.length + 1 + k]? = some after[k] := by
        rw [split, List.getElem?_append_right (by omega),
          show before.length + 1 + k - before.length = k + 1 by omega, List.getElem?_cons_succ,
          List.getElem?_eq_getElem inside]
      obtain ⟨output', _, _⟩ := getElem?_destinations place'
      have requested : after[k].1.1 ∈ p.outputs.drop (before.length + 1) :=
        List.mem_of_getElem? (i := k) (by rw [List.getElem?_drop, output'])
      rw [Node.isIn_of_mem requested] at absent
      cases absent

/-- Behind the steps the outputs can be collected into the supplied buffers. -/
theorem collectible (begun : Begun p s bindings bound s₁ s₂) (orderly : p.Orderly) (receiving : Receiving p s ids)
    (undisturbed : Undisturbed p bindings ids) (behind : Behind p ids s₂ s₃ t₃)
    (held : ∀ entry ∈ p.outputs.zip p.outputSlots, ∃ id, s₃.storage.get? entry.2 = some id) :
    Collectible (destinations p ids) [] (valueIn s₃) t₃ := by
  have old : s.store.Extends s₂.store := begun.extended.store.trans begun.prepared.store
  have length : ids.length = p.outputs.length := receiving.sizes.length_eq.symm
  have all : (destinations p ids).map Prod.snd = ids :=
    List.map_snd_zip (Nat.le_of_eq (by rw [List.length_zip, ← orderly.paired, Nat.min_self, length]))
  constructor
  case held =>
    intro entry member
    have listed := (List.of_mem_zip member).1
    obtain ⟨id, found⟩ := held entry.1 listed
    rw [valueIn_eq found]
    exact (begun.output orderly receiving undisturbed behind listed found).1
  case takes =>
    intro entry member
    obtain ⟨id, found⟩ := held entry.1 (List.of_mem_zip member).1
    have size := (begun.output orderly receiving undisturbed behind (List.of_mem_zip member).1 found).2
    have listed : entry.2 ∈ ids := (List.of_mem_zip member).2
    have inside := (receiving.visible entry.2 listed).1
    have inside' := Nat.lt_of_lt_of_le inside old.grows
    refine ⟨Nat.lt_of_lt_of_le inside' behind.second.store.grows, ?_, ?_⟩
    · rw [behind.second.store.flags _ inside', old.same _ inside, receiving.writable _ listed]
    · obtain ⟨i, place⟩ := List.mem_iff_getElem?.mp member
      obtain ⟨output, given, _⟩ := getElem?_destinations place
      obtain ⟨first, here⟩ := List.getElem?_eq_some_iff.mp output
      obtain ⟨second, there⟩ := List.getElem?_eq_some_iff.mp given
      have sized := receiving.sizes.get first second
      simp only [List.get_eq_getElem, here, there] at sized
      rw [valueIn_eq found, behind.second.store.sizes _ inside', old.same _ inside, sized, ← size]
      rfl
  case apart => rw [all]; exact receiving.apart
  case first =>
    intro before entry after split uncopied
    have interior : entry.1.1.isLeaf = false := by
      rw [Bool.eq_false_iff]
      exact fun leaf => uncopied (.inl leaf)
    have unseen : ∀ other ∈ before, other.1.2 ≠ entry.1.2 := fun other member same =>
      uncopied (.inr (.inr ⟨other, member, same⟩))
    rw [behind.second.storage]
    show (claims p (some ids) s₂.storage).get? entry.1.2 = some entry.2
    rw [get?_supplied, split, claimant_of_first interior unseen]
    rfl
  case spares =>
    intro before entry after split copied later member held
    exact begun.spares orderly receiving undisturbed behind split copied member held

/-- What steps without supplied buffers return, steps into supplied buffers leave in these. -/
theorem runSteps_into (begun : Begun p s bindings bound s₁ s₂) (orderly : p.Orderly) (receiving : Receiving p s ids)
    (undisturbed : Undisturbed p bindings ids) (hosted : ∀ step ∈ p.steps, ∃ kind, step.kernel = .host kind)
    {results : List BufferId} (ran : runSteps profiled p none s₂ = .ok results s') :
    ∃ t', runSteps profiled p (some ids) (supplied p ids s₂) = .ok ids t' ∧
      List.Forall₂ (fun id result => (t'.store.get id).bytes = (s'.store.get result).bytes) ids results := by
  unfold runSteps at ran
  obtain ⟨_, s₃, steps, ran⟩ := bind_eq_ok.mp ran
  obtain ⟨results, s₄, collected, ran⟩ := bind_eq_ok.mp ran
  cases ran
  have beside := begun.beside orderly receiving undisturbed
  obtain ⟨t₃, steps', alike⟩ := steps_alike (alike_supplied orderly ids s₂) beside orderly.valid rfl hosted steps
  have first := (steps_confined p.steps).of_ok steps
  have second := (steps_confined p.steps).of_ok steps'
  have behind : Behind p ids s₂ s₃ t₃ :=
    ⟨beside.alters first second, alike, first.mono fun _ _ => trivial, second.mono fun _ _ => trivial⟩
  have within := ((steps_onward begun.prepared.onward.kept profiled p.steps).of_ok steps).kept.within
  rw [zip_targets] at collected
  have gathered := ((collect_spec within _ []).of_ok collected).2
  have held : ∀ entry ∈ p.outputs.zip p.outputSlots, ∃ id, s₃.storage.get? entry.2 = some id := by
    intro entry member
    obtain ⟨i, inside, rfl⟩ := List.mem_iff_getElem.mp member
    obtain ⟨_, ⟨id, found, _⟩⟩ := gathered.get inside (gathered.length_eq ▸ inside)
    exact ⟨id, found⟩
  obtain ⟨t₄, into, values, _⟩ := collect_into (begun.collectible orderly receiving undisturbed behind held)
  have entries : (p.outputs.zip p.outputSlots).zip (targets p (some ids)) =
      (destinations p ids).map fun entry => (entry.1, some entry.2) := List.zip_map_right ..
  have length : (p.outputs.zip p.outputSlots).length = ids.length := by
    rw [List.length_zip, ← orderly.paired, Nat.min_self, receiving.sizes.length_eq]
  have all : (destinations p ids).map Prod.snd = ids := List.map_snd_zip (Nat.le_of_eq length.symm)
  refine ⟨{ t₄ with profile := (t₄.profile.recordMemory (t₄.storage.byteSize t₄.store)).recordExecution }, ?_, ?_⟩
  · unfold runSteps
    refine bind_eq_ok.mpr ⟨_, t₃, steps', bind_eq_ok.mpr ⟨ids, t₄, ?_, rfl⟩⟩
    rw [entries, into, all]
  · refine List.forall₂_iff_get.mpr ⟨length.symm.trans gathered.length_eq, fun i inside inside' => ?_⟩
    have bound : i < (p.outputs.zip p.outputSlots).length := length ▸ inside
    obtain ⟨_, ⟨source, found, same, _⟩⟩ := gathered.get bound inside'
    rw [List.get_eq_getElem] at found
    have member : ((p.outputs.zip p.outputSlots)[i], ids[i]) ∈ destinations p ids :=
      List.mem_iff_getElem.mpr ⟨i, by rw [List.length_zip, length, Nat.min_self]; exact inside, List.getElem_zip ..⟩
    have value := values _ member
    rw [valueIn_eq found] at value
    exact value.trans same.symm

end Begun

/-! Whole executions. -/

/-- How an execution returns. -/
theorem run_eq_ok [Memory] {bindings : List (Value × Value)} {supplied : Option (List Value)}
    {results : List BufferId} : run profiled p bindings supplied s = .ok results s' ↔
      ∃ bound s₁ ids s₂ s₃, bindAll p bindings [] s = .ok bound s₁ ∧ checkBound bound p.leaves = .ok () ∧
        suppliedBuffers p s₁.store supplied = .ok ids ∧ prepare p bound ids s₁ = .ok ⟨⟩ s₂ ∧
        runSteps profiled p ids s₂ = .ok results s₃ ∧ s' = discard p s₃ := by
  unfold run
  constructor
  · intro ran
    obtain ⟨bound, s₁, given, ran⟩ := bind_eq_ok.mp ran
    obtain ⟨_, _, checked, ran⟩ := bind_eq_ok.mp ran
    obtain ⟨bounded, rfl⟩ := of_eq_ok.mp checked
    obtain ⟨_, _, here, ran⟩ := bind_eq_ok.mp ran
    obtain ⟨rfl, rfl⟩ := get_eq_ok.mp here
    obtain ⟨ids, _, found, ran⟩ := bind_eq_ok.mp ran
    obtain ⟨supplies, rfl⟩ := of_eq_ok.mp found
    obtain ⟨_, s₂, prepared, ran⟩ := bind_eq_ok.mp ran
    obtain ⟨s₃, steps, rfl⟩ := discarding_eq_ok ran
    exact ⟨bound, _, ids, s₂, s₃, given, bounded, supplies, prepared, steps, rfl⟩
  · rintro ⟨bound, s₁, ids, s₂, s₃, given, checked, found, prepared, steps, rfl⟩
    refine bind_eq_ok.mpr ⟨bound, s₁, given, bind_eq_ok.mpr ⟨_, s₁, of_eq_ok.mpr ⟨checked, rfl⟩,
      bind_eq_ok.mpr ⟨s₁, s₁, rfl, bind_eq_ok.mpr ⟨ids, s₁, of_eq_ok.mpr ⟨found, rfl⟩,
        bind_eq_ok.mpr ⟨_, s₂, prepared, ?_⟩⟩⟩⟩⟩
    rw [discarding, steps]

theorem buffersFor_returns {store : Store} {outputs : List Node} {vs : List Value} {ids : List BufferId}
    (values : List.Forall₂ (fun v id => ∃ content, v = .buffer id content) vs ids)
    (sizes : List.Forall₂ (fun o id => (store.get id).size = o.byteSize) outputs ids) :
    buffersFor store (outputs.zip vs) = .ok ids := by
  induction values generalizing outputs with
  | nil => simp [buffersFor]
  | cons here _ ih =>
    obtain ⟨content, rfl⟩ := here
    cases sizes with
    | cons size others =>
      rw [List.zip_cons_cons, buffersFor, if_neg (not_not_intro size), ih others]
      rfl

theorem suppliedBuffers_returns {store : Store} {vs : List Value} {ids : List BufferId}
    (values : List.Forall₂ (fun v id => ∃ content, v = .buffer id content) vs ids)
    (sizes : List.Forall₂ (fun o id => (store.get id).size = o.byteSize) p.outputs ids) :
    suppliedBuffers p store (some vs) = .ok (some ids) := by
  rw [suppliedBuffers, if_neg (not_not_intro (values.length_eq.trans sizes.length_eq.symm)),
    buffersFor_returns values sizes]
  rfl

end Execution

namespace Ensemble
open Execution Program
variable {e : Ensemble} {m : Member} {bindings : List (Value × Value)} {bound : Bindings} {s₁ s₂ : State}

/-- Bindings that are accepted begin an execution. -/
theorem Keeps.begun [Memory] (keeps : e.Keeps m) (given : ∀ pair ∈ bindings, e.MayHand pair.2)
    (keyed : Keyed m.plan bindings)
    (bind : bindAll m.plan bindings [] (e.state m) = .ok bound s₁) (checked : checkBound bound m.plan.leaves = .ok ())
    (prepared : prepare m.plan bound none s₁ = .ok ⟨⟩ s₂) : Begun m.plan (e.state m) bindings bound s₁ s₂ := by
  have shown : ∀ key id content, (key, .buffer id content) ∈ bindings → Visible m.plan (e.state m) id :=
    fun key id content listed => keeps.visible id (given _ listed id content rfl)
  have within : ∀ pair ∈ bindings, pair.2.Within (e.state m).store := by
    rintro ⟨key, v⟩ listed
    cases v with
    | buffer id content => exact (shown key id content listed).1
    | _ => trivial
  obtain ⟨extended, sources, bounds⟩ := (bindAll_spec within (Nat.le_refl _)).of_ok bind
  have bounds := bounds keyed
  have onward : Onward m.plan (e.state m) s₁ := keeps.kept.extends extended
  have leaves : ∀ leaf ∈ m.plan.leaves, ∃ id, leafBuffer bound leaf.node = some id ∧ Visible m.plan s₁ id ∧
      (s₁.store.get id).size = leaf.node.byteSize := by
    intro leaf member
    cases found : bound.lookup leaf.node.id with
    | some id =>
      obtain ⟨v, _, stands⟩ := bounds.stands member found
      exact ⟨id, by rw [leafBuffer, found, Option.some_or], keeps.kept.bound extended sources shown found, stands.size⟩
    | none =>
      rcases keeps.furnished leaf member with kind | ⟨id, own⟩
      · obtain ⟨id, bound⟩ := checkBound_eq_ok checked leaf member kind
        cases found.symm.trans bound
      · obtain ⟨known, size⟩ := keeps.leaves leaf member id own
        have visible := keeps.visible id known
        exact ⟨id, by rw [leafBuffer, found, Option.none_or, own], onward.visible id visible, by
          rw [extended.store.same id visible.1]; exact size⟩
  refine ⟨extended, onward, leaves, fun leaf member id found old => ?_, fun leaf member id found => ?_, ?_⟩
  · rcases Option.or_eq_some_iff.mp found with listed | ⟨missing, own⟩
    · obtain ⟨v, value, stands⟩ := bounds.stands member listed
      rcases stands.content with ⟨content, rfl⟩ | ⟨_, late, _⟩
      · rw [sourceOf, value]
      · exact absurd old (Nat.not_lt_of_le late)
    · rw [sourceOf, (bounds.unbound member).mp missing, own]
  · rw [leafBuffer]
    cases listed : bound.lookup leaf.node.id with
    | none =>
      rw [sourceOf, (bounds.unbound member).mp listed] at found
      exact found
    | some other =>
      obtain ⟨v, value, stands⟩ := bounds.stands member listed
      rw [sourceOf, value] at found
      rcases stands.content with ⟨content, rfl⟩ | ⟨plain, _⟩
      · rw [Option.some_or, ← found]
      · cases v with
        | buffer id content => exact absurd rfl (plain id content)
        | _ => cases found
  · refine (prepare_spec keeps.orderly.valid onward.kept fun leaf member id found => ?_).of_ok prepared
    obtain ⟨other, own, visible, _⟩ := leaves leaf member
    cases found.symm.trans own
    exact visible

/-- Buffers that callers hand in for the outputs: of their sizes, writable, and different ones. -/
structure Lends (e : Ensemble) (m : Member) (vs : List Value) (ids : List BufferId) : Prop where
  values : List.Forall₂ (fun v id => ∃ content, v = .buffer id content) vs ids
  handed : ∀ v ∈ vs, e.MayHand v
  sizes : List.Forall₂ (fun o id => (e.store.get id).size = o.byteSize) m.plan.outputs ids
  writable : ∀ id ∈ ids, (e.store.get id).readonly = false
  apart : ids.Nodup

theorem Lends.receiving [Memory] {vs : List Value} {ids : List BufferId} (lends : e.Lends m vs ids)
    (keeps : e.Keeps m) : Receiving m.plan (e.state m) ids where
  visible id listed := by
    obtain ⟨i, inside, rfl⟩ := List.mem_iff_getElem.mp listed
    have inside' : i < vs.length := lends.values.length_eq ▸ inside
    obtain ⟨content, here⟩ := lends.values.get inside' inside
    exact keeps.visible _ (lends.handed _ (List.getElem_mem inside') _ content here)
  sizes := lends.sizes
  writable := lends.writable
  apart := lends.apart

/-- Supplying buffers does not change the values that an execution comes to, whatever happened before: what
it returns without supplied buffers, it leaves in them. Some of these may be bound to leaves or be their own,
as long as no leaf is read from such a buffer after that was written. -/
theorem run_into [Memory] {store : Store} {streams : Streams}
    (history : (opening store streams).History (fun _ => True) e)
    {i : Nat} (member : e.members[i]? = some m) (hosted : ∀ step ∈ m.plan.steps, ∃ kind, step.kernel = .host kind)
    (given : ∀ pair ∈ bindings, e.MayHand pair.2) (keyed : Keyed m.plan bindings) {vs : List Value}
    {ids : List BufferId} (lends : e.Lends m vs ids) (undisturbed : Undisturbed m.plan bindings ids) {profiled : Bool}
    {results : List BufferId} {s' : State} (ran : run profiled m.plan bindings none (e.state m) = .ok results s') :
    ∃ t', run profiled m.plan bindings (some vs) (e.state m) = .ok ids t' ∧
      List.Forall₂ (fun id result => (t'.store.get id).bytes = (s'.store.get result).bytes) ids results := by
  have keeps := ((opening_sound store streams).history history).members m (List.mem_of_getElem? member)
  obtain ⟨bound, s₁, _, s₂, s₃, bind, checked, none, prepared, steps, rfl⟩ := run_eq_ok.mp ran
  cases none
  have begun := keeps.begun given keyed bind checked prepared
  have receiving := lends.receiving keeps
  have accepted : suppliedBuffers m.plan s₁.store (some vs) = .ok (some ids) := by
    refine suppliedBuffers_returns lends.values (List.forall₂_iff_get.mpr
      ⟨lends.sizes.length_eq, fun j inside inside' => ?_⟩)
    have same := begun.extended.store.same _ (receiving.visible _ (List.getElem_mem inside')).1
    rw [List.get_eq_getElem, same]
    exact lends.sizes.get inside inside'
  have claimed : prepare m.plan bound (some ids) s₁ = .ok ⟨⟩ (Begun.supplied m.plan ids s₂) := by
    rw [prepare_eq]
    exact bind_eq_ok.mpr ⟨_, s₂, prepared, claim_eq ..⟩
  obtain ⟨t', into, same⟩ := begun.runSteps_into keeps.orderly receiving undisturbed hosted steps
  exact ⟨_, run_eq_ok.mpr ⟨bound, s₁, _, _, t', bind, checked, accepted, claimed, into, rfl⟩, same⟩

end Ensemble

namespace Sample
open Ensemble Execution

def threeBuffers : Store := ⟨#[oneTwo, oneTwo, .ofBytes (.zeros 8)]⟩

def placeholderBinding : List (Value × Value) := [(.node y, .buffer 1 oneTwo)]

theorem hosted_square : ∀ step ∈ squarePlan.steps, ∃ kind, step.kernel = .host kind := by
  intro step member
  rcases List.mem_pair.mp member with rfl | rfl
  · exact ⟨_, rfl⟩
  · exact ⟨_, rfl⟩

theorem mayHand_placeholderBinding : ∀ pair ∈ placeholderBinding, (squareEnsemble threeBuffers).MayHand pair.2 := by
  intro pair member id content same
  cases List.mem_singleton.mp member
  cases same
  exact Nat.one_lt_succ_succ 1

theorem keyed_placeholderBinding : Keyed squarePlan placeholderBinding := by
  intro n v member leaf listed same
  cases List.mem_singleton.mp member
  rcases List.mem_pair.mp listed with rfl | rfl
  · cases same
  · rfl

theorem lends_twoBuffers {a b : BufferId} (first : a < 3) (second : b < 3) (differ : a ≠ b) :
    (squareEnsemble threeBuffers).Lends squareMember [.buffer a oneTwo, .buffer b oneTwo] [a, b] := by
  have fits : ∀ id < 3, (threeBuffers.get id).size = 8 ∧ (threeBuffers.get id).readonly = false := by decide
  refine ⟨.cons ⟨_, rfl⟩ (.cons ⟨_, rfl⟩ .nil), fun v member id content same => ?_, ?_, ?_, by simp [differ]⟩
  · rcases List.mem_pair.mp member with rfl | rfl
    · cases same
      exact first
    · cases same
      exact second
  · exact .cons (by rw [show (squareEnsemble threeBuffers).store = threeBuffers from rfl, (fits a first).1]; rfl)
      (.cons (by rw [show (squareEnsemble threeBuffers).store = threeBuffers from rfl, (fits b second).1]; rfl) .nil)
  · intro id member
    rcases List.mem_pair.mp member with rfl | rfl
    · exact (fits _ first).2
    · exact (fits _ second).2

/-- The square goes to the buffer bound to the placeholder, and the variable to its own. -/
theorem run_into_square : ∃ results s' t',
    run false squarePlan placeholderBinding none ((squareEnsemble threeBuffers).state squareMember) = .ok results s' ∧
      run false squarePlan placeholderBinding (some [.buffer 1 oneTwo, .buffer 0 oneTwo])
        ((squareEnsemble threeBuffers).state squareMember) = .ok [1, 0] t' ∧
      List.Forall₂ (fun id result => (t'.store.get id).bytes = (s'.store.get result).bytes) [1, 0] results := by
  have undisturbed : Undisturbed squarePlan placeholderBinding [1, 0] := by
    constructor
    case steps =>
      intro i o id output given interior _ leaf member source
      match i with
      | 0 =>
        cases output
        cases given
        rcases List.mem_pair.mp member with rfl | rfl
        · cases source
        · refine ⟨by decide, fun before step after split same later listed => ?_⟩
          match before with
          | [] =>
            cases split
            cases same
          | [_] =>
            cases split
            cases listed
          | _ :: _ :: before =>
            simp [squarePlan] at split
      | 1 =>
        cases output
        cases interior
      | i + 2 => cases output
    case copies =>
      intro i o id output given copied other leaf member source
      match i with
      | 0 =>
        cases output
        rcases copied with leaf | again
        · cases leaf
        · cases again
      | 1 =>
        cases output
        cases given
        exact absurd ⟨rfl, rfl⟩ other
      | i + 2 => cases output
  obtain ⟨results, s', ran⟩ : ∃ results s', run false squarePlan placeholderBinding none
    ((squareEnsemble threeBuffers).state squareMember) = .ok results s' := ⟨_, _, rfl⟩
  obtain ⟨t', into, same⟩ := run_into (i := 0) (m := squareMember)
    (squareEnsemble_history (by decide) rfl) rfl hosted_square mayHand_placeholderBinding
    keyed_placeholderBinding (lends_twoBuffers (by decide) (by decide) (by decide)) undisturbed ran
  exact ⟨results, s', t', ran, into, same⟩

/-- Where the square goes to the buffer of the variable, the variable is read behind it. -/
theorem spoiled_square : (opening threeBuffers []).History (fun _ => True) (squareEnsemble threeBuffers) ∧
    (∀ step ∈ squarePlan.steps, ∃ kind, step.kernel = .host kind) ∧
    (∀ pair ∈ placeholderBinding, (squareEnsemble threeBuffers).MayHand pair.2) ∧
    Keyed squarePlan placeholderBinding ∧ (squareEnsemble threeBuffers).Lends squareMember
      [.buffer 0 oneTwo, .buffer 2 oneTwo] [0, 2] ∧
    ∃ s' t', run false squarePlan placeholderBinding none ((squareEnsemble threeBuffers).state squareMember) =
      .ok [4, 5] s' ∧
      run false squarePlan placeholderBinding (some [.buffer 0 oneTwo, .buffer 2 oneTwo])
        ((squareEnsemble threeBuffers).state squareMember) = .ok [0, 2] t' ∧
      (s'.store.get 5).bytes = oneTwo.bytes ∧ (t'.store.get 2).bytes ≠ oneTwo.bytes :=
  ⟨squareEnsemble_history (by decide) rfl, hosted_square, mayHand_placeholderBinding, keyed_placeholderBinding,
    lends_twoBuffers (by decide) (by decide) (by decide), _, _, rfl, rfl, rfl, by decide⟩

end Sample
end TensorDag
