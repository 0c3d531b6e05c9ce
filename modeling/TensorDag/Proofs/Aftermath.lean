import TensorDag.Proofs.Keeping

/-!
What any execution leaves behind. Whatever was bound and supplied, and however it ends, the plan keeps
its scratch buffers to itself: they have their sizes, and no caller gets to know of one.
-/
namespace TensorDag.Execution
open Program
variable {p : Plan} {s s' : State} {bindings : List (Value × Value)}

/-- An outcome that goes onward, with buffers that callers may know of. -/
abbrev GoesOnward [Memory] (p : Plan) (s : State) (ids : List BufferId) (s' : State) : Prop :=
  Onward p s s' ∧ ∀ id ∈ ids, Visible p s' id

theorem Kept.visible [Memory] (kept : Kept p s) {key : Int} {id : BufferId} (shared : Public p key)
    (found : s.storage.get? key = some id) : Visible p s id := by
  refine ⟨kept.within key id found, ?_⟩
  rintro ⟨slot, member, role, held⟩
  exact shared.2 slot member role (kept.alone slot member role id key held found).symm

theorem Kept.bound [Memory] (kept : Kept p s) {bound : Bindings} (extended : s.Extends s')
    (sources : Sourced s.store.size s'.store bindings [] bound)
    (given : ∀ key id content, (key, .buffer id content) ∈ bindings → Visible p s id)
    {n : NodeId} {id : BufferId} (found : bound.lookup n = some id) : Visible p s' id := by
  rcases sources n id found with none | ⟨late, inside⟩ | ⟨key, content, listed⟩
  · cases none
  · refine ⟨inside, ?_⟩
    rintro ⟨slot, member, role, held⟩
    exact kept.fresh late ⟨slot, member, role, extended.storage ▸ held⟩
  · exact (kept.extends extended).visible id (given key id content listed)

theorem buffersFor_eq_ok {store : Store} {entries : List (Node × Value)} {ids : List BufferId}
    (found : buffersFor store entries = .ok ids) :
    List.Forall₂ (fun entry id => (∃ content, entry.2 = .buffer id content) ∧ (store.get id).size = entry.1.byteSize)
      entries ids := by
  induction entries generalizing ids with
  | nil =>
    cases found
    exact .nil
  | cons entry rest ih =>
    obtain ⟨n, v⟩ := entry
    cases v with
    | buffer id content =>
      rw [buffersFor] at found
      split at found
      · cases found
      · rename_i size
        obtain ⟨others, later, same⟩ := Result.bind_eq_ok.mp found
        cases Result.pure_eq_ok.mp same
        exact .cons ⟨⟨content, rfl⟩, not_not.mp size⟩ (ih later)
    | _ => cases found

/-- Supplied buffers are one for each output, of its size. -/
theorem suppliedBuffers_eq_ok {store : Store} {vs : List Value} {ids : List BufferId}
    (found : suppliedBuffers p store (some vs) = .ok (some ids)) : ids.length = p.outputs.length ∧
      List.Forall₂ (fun v id => ∃ content, v = .buffer id content) vs ids ∧
      List.Forall₂ (fun o id => (store.get id).size = o.byteSize) p.outputs ids := by
  rw [suppliedBuffers] at found
  split at found
  · cases found
  · rename_i counted
    obtain ⟨given, listed, same⟩ := Result.map_eq_ok.mp found
    cases same
    have all := buffersFor_eq_ok listed
    have length := all.length_eq
    rw [List.length_zip, not_not.mp counted, Nat.min_self] at length
    have values : List.Forall₂ (fun v id => ∃ content, v = .buffer id content)
        ((p.outputs.zip vs).map Prod.snd) ids := List.forall₂_map_left_iff.mpr (all.imp fun _ _ here => here.1)
    have sizes : List.Forall₂ (fun o id => (store.get id).size = o.byteSize)
        ((p.outputs.zip vs).map Prod.fst) ids := List.forall₂_map_left_iff.mpr (all.imp fun _ _ here => here.2)
    rw [List.map_snd_zip (Nat.le_of_eq (not_not.mp counted))] at values
    rw [List.map_fst_zip (Nat.le_of_eq (not_not.mp counted).symm)] at sizes
    exact ⟨length.symm, values, sizes⟩

theorem mem_of_suppliedBuffers {store : Store} {supplied : Option (List Value)}
    {ids : List BufferId} (found : suppliedBuffers p store supplied = .ok (some ids)) :
    ∀ id ∈ ids, ∃ vs content, supplied = some vs ∧ .buffer id content ∈ vs := by
  intro id member
  cases supplied with
  | none => cases found
  | some vs =>
    obtain ⟨_, values, _⟩ := suppliedBuffers_eq_ok found
    obtain ⟨i, inside, rfl⟩ := List.mem_iff_getElem.mp member
    obtain ⟨content, same⟩ := values.get (values.length_eq ▸ inside) inside
    exact ⟨vs, content, rfl, same ▸ List.getElem_mem _⟩

theorem claim_spec [Memory] (kept : Kept p s) {entries : List ((Node × Int) × BufferId)} {claimed : List Int}
    (shared : ∀ entry ∈ entries, Public p entry.1.2)
    (visible : ∀ entry ∈ entries, Visible p s entry.2) :
    Ensures (claim entries claimed) s (fun _ s' => Onward p s s') (fun s' => Onward p s s') := by
  induction entries generalizing s claimed with
  | nil => exact .pure kept.onward
  | cons entry rest ih =>
    obtain ⟨⟨n, key⟩, id⟩ := entry
    rw [List.forall_mem_cons] at shared visible
    rw [claim]
    split
    · exact ih kept shared.2 visible.2
    · have first := kept.put shared.1 visible.1
      exact .bind (.modify ((ih first.kept shared.2 fun other member =>
        first.visible _ (visible.2 other member)).weaken (fun _ _ => first.trans) fun _ => first.trans))

/-- Preparation goes onward, whether or not there is room for all slots. -/
theorem prepare_onward [Memory] (valid : p.Valid) (kept : Kept p s) (shared : ∀ place ∈ p.outputSlots, Public p place)
    {bound : Bindings} (given : ∀ leaf ∈ p.leaves, ∀ id, leafBuffer bound leaf.node = some id → Visible p s id)
    {supplied : Option (List BufferId)} (handed : ∀ ids, supplied = some ids → ∀ id ∈ ids, Visible p s id) :
    Ensures (prepare p bound supplied) s (fun _ s' => Onward p s s') (fun s' => Onward p s s') := by
  have first : Onward p s (leaved p bound s) := kept.putLeaves (fun leaf => public_leaf valid) given
  refine ensures_prepare valid.indices_nodup first.kept.within (fun s' filled _ => ?_)
    fun s' filled _ => first.trans (first.kept.filled valid filled)
  have second := first.trans (first.kept.filled valid filled)
  refine (claim_spec second.kept ?_ ?_).weaken (fun _ _ => second.trans) fun _ => second.trans
  · intro entry member
    exact shared _ (List.of_mem_zip (List.of_mem_zip member).1).2
  · intro entry member
    have listed := (List.of_mem_zip member).2
    cases here : supplied with
    | none =>
      rw [here] at listed
      cases listed
    | some ids =>
      rw [here] at listed
      exact second.visible _ (handed ids here _ listed)

theorem steps_onward [Memory] (kept : Kept p s) (profiled : Bool) (steps : List Step) :
    Ensures (steps.forM (runStep profiled)) s (fun _ s' => Onward p s s') (fun s' => Onward p s s') :=
  kept.confined (steps_confined steps)

/-- An output is collected in a buffer that callers may know of. -/
theorem collectOne_onward [Memory] (kept : Kept p s) {n : Node} {key : Int} {target : Option BufferId}
    (shared : Public p key) (handed : ∀ id, target = some id → Visible p s id) (seen : List Int) :
    Ensures (collectOne n key target seen) s (fun id s' => GoesOnward p s [id] s') (fun s' => Onward p s s') := by
  simp only [GoesOnward, List.forall_mem_singleton]
  unfold collectOne
  refine .bind ((held_spec key).weaken ?_ fun s' ⟨same, _⟩ => same ▸ kept.onward)
  rintro source _ ⟨rfl, found⟩
  split
  · refine .bind (.get ?_)
    cases target with
    | some id =>
      refine .bind ((kept.confined (write_confined id _)).weaken ?_ fun _ onward => onward)
      exact fun _ s' onward => .pure ⟨onward, onward.visible id (handed id rfl)⟩
    | none =>
      refine ensures_allocate ?_
      have onward : Onward p s { s with store := (s.store.insert (Buffer.ofBytes (s.store.get source).bytes)).2 } :=
        kept.extends ⟨Store.extends_insert .., rfl⟩
      exact ⟨onward, by simp, fun ⟨slot, member, role, held⟩ =>
        kept.fresh (Nat.le_refl _) ⟨slot, member, role, held⟩⟩
  · exact .pure ⟨kept.onward, kept.visible shared found⟩

theorem collect_onward [Memory] (kept : Kept p s) {entries : List ((Node × Int) × Option BufferId)}
    (shared : ∀ entry ∈ entries, Public p entry.1.2)
    (handed : ∀ entry ∈ entries, ∀ id, entry.2 = some id → Visible p s id) (seen : List Int) :
    Ensures (collect entries seen) s (GoesOnward p s) (fun s' => Onward p s s') := by
  induction entries generalizing s seen with
  | nil => exact .pure ⟨kept.onward, by simp⟩
  | cons entry rest ih =>
    obtain ⟨⟨n, key⟩, target⟩ := entry
    rw [List.forall_mem_cons] at shared handed
    rw [collect]
    refine .bind ((collectOne_onward kept shared.1 handed.1 seen).weaken ?_ fun _ onward => onward)
    rintro id s' ⟨first, own⟩
    refine .bind ((ih first.kept shared.2 (fun other member id' here =>
      first.visible id' (handed.2 other member id' here)) _).weaken ?_ fun _ => first.trans)
    rintro ids s'' ⟨second, others⟩
    exact .pure ⟨first.trans second, List.forall_mem_cons.mpr
      ⟨second.visible id (own id (List.mem_singleton_self _)), others⟩⟩

theorem get?_erased {storage : Storage} {keys : List Int} {key : Int} {id : BufferId}
    (found : (keys.foldl Storage.erase storage).get? key = some id) : storage.get? key = some id := by
  induction keys generalizing storage with
  | nil => exact found
  | cons head rest ih =>
    have here := ih found
    rw [Storage.get?_erase] at here
    split at here
    · cases here
    · exact here

theorem Kept.discarded [Memory] (kept : Kept p s) : Onward p s (discard p s) :=
  kept.shrink (fun _ _ => get?_erased) (Nat.le_refl _) fun _ _ => ⟨rfl, rfl⟩

/-- Every execution goes onward, and its results are buffers that callers may know of. -/
theorem run_onward [Memory] (valid : p.Valid) (kept : Kept p s) (shared : ∀ place ∈ p.outputSlots, Public p place)
    (leaves : ∀ leaf ∈ p.leaves, ∀ id, leaf.node.buffer = some id → Visible p s id)
    (given : ∀ key id content, (key, .buffer id content) ∈ bindings → Visible p s id)
    {supplied : Option (List Value)}
    (handed : ∀ vs, supplied = some vs → ∀ id content, .buffer id content ∈ vs → Visible p s id)
    (profiled : Bool) :
    Ensures (run profiled p bindings supplied) s (GoesOnward p s) (fun s' => Onward p s s') := by
  have within : ∀ pair ∈ bindings, pair.2.Within s.store := by
    rintro ⟨key, v⟩ member
    cases v with
    | buffer id content => exact (given key id content member).1
    | _ => trivial
  unfold run
  refine .bind ((bindAll_spec within (Nat.le_refl _)).weaken ?_ fun s' => kept.extends)
  rintro bound s₁ ⟨extended, sources, _⟩
  have first := kept.extends extended
  have held : ∀ leaf ∈ p.leaves, ∀ id, leafBuffer bound leaf.node = some id → Visible p s₁ id := by
    intro leaf member id found
    rcases Option.or_eq_some_iff.mp found with listed | ⟨_, own⟩
    · exact kept.bound extended sources given listed
    · exact first.visible id (leaves leaf member id own)
  refine .bind (ensures_of (fun _ _ => .bind (.get (.bind (ensures_of ?_ fun _ _ => first)))) fun _ _ => first)
  intro ids supplies
  have own : ∀ known, ids = some known → ∀ id ∈ known, Visible p s₁ id := by
    rintro known rfl id member
    obtain ⟨vs, content, same, listed⟩ := mem_of_suppliedBuffers supplies id member
    exact first.visible id (handed vs same id content listed)
  refine .bind ((prepare_onward valid first.kept shared held own).weaken ?_ fun _ => first.trans)
  intro _ s₂ prepared
  have second := first.trans prepared
  refine ensures_discarding (.bind ((steps_onward second.kept profiled p.steps).weaken ?_ ?_))
  · intro _ s₃ ran
    have third := second.trans ran
    refine .bind ((collect_onward third.kept ?_ ?_ []).weaken ?_ ?_)
    · intro entry member
      exact shared _ (List.of_mem_zip (List.of_mem_zip member).1).2
    · intro entry member id here
      have listed := (List.of_mem_zip member).2
      rw [here] at listed
      cases ids with
      | none => simp [targets] at listed
      | some known =>
        obtain ⟨other, inside, same⟩ := List.mem_map.mp listed
        cases same
        exact (prepared.trans ran).visible id (own known rfl id inside)
    · rintro results s₄ ⟨collected, visible⟩
      have last : ∀ profile, Onward p s₄ (discard p { s₄ with profile }) := fun profile =>
        collected.kept.shrink (fun _ _ => get?_erased) (Nat.le_refl _) fun _ _ => ⟨rfl, rfl⟩
      exact .bind (.modify (.pure ⟨third.trans (collected.trans (last _)), fun id member =>
        (last _).visible id (visible id member)⟩))
    · exact fun s₄ collected => third.trans (collected.trans collected.kept.discarded)
  · exact fun s₃ ran => second.trans (ran.trans ran.kept.discarded)

end TensorDag.Execution
