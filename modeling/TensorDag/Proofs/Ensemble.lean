import TensorDag.Proofs.Frame
import TensorDag.Proofs.Reuse

/-!
Plans beside each other. They share buffers and streams, and callers execute and release them in any
order, change the contents of their own buffers and build on. Whatever happens, a plan's own buffers
stay its own, and what an execution returned is left alone until its caller asks for a change.
-/
namespace TensorDag
open Execution Program

/-- A plan with what its executions start from. -/
structure Member where
  plan : Plan
  storage : Storage
  profile : Profile

/-- Plans that share all buffers and streams, and the buffers that callers hold. -/
structure Ensemble where
  store : Store
  streams : Streams
  members : List Member
  known : BufferId → Prop

namespace Ensemble
variable [Memory] {e e' : Ensemble} {m : Member} {free : BufferId → Prop} {bindings : List (Value × Value)}
  {supplied : Option (List Value)} {profiled : Bool}

def opening (store : Store) (streams : Streams) : Ensemble := ⟨store, streams, [], fun id => id < store.size⟩

/-- The state that executions of a member start from. -/
def state (e : Ensemble) (m : Member) : State := ⟨e.store, e.streams, m.storage, m.profile⟩

/-- The ensemble behind an execution of the member at a place that returned some buffers. -/
def behind (e : Ensemble) (i : Nat) (m : Member) (s : State) (ids : List BufferId) : Ensemble where
  store := s.store
  streams := s.streams
  members := e.members.set i { m with storage := s.storage, profile := s.profile }
  known id := e.known id ∨ id ∈ ids

/-- A value that callers can hand in. -/
def MayHand (e : Ensemble) (v : Value) : Prop := ∀ id content, v = .buffer id content → e.known id

/-- What may happen, where callers have only some of their buffers written to. -/
inductive Happens (free : BufferId → Prop) (e : Ensemble) : Ensemble → Prop
  | executed {i : Nat} {m : Member} (member : e.members[i]? = some m) {profiled : Bool}
    {bindings : List (Value × Value)} {supplied : Option (List Value)} {ids : List BufferId} {s' : State}
    (given : ∀ pair ∈ bindings, e.MayHand pair.2) (handed : ∀ vs, supplied = some vs → ∀ v ∈ vs, e.MayHand v)
    (allowed : ∀ id, Supplies supplied id → free id)
    (ran : run profiled m.plan bindings supplied (e.state m) = .ok ids s') : Happens free e (e.behind i m s' ids)
  | failed {i : Nat} {m : Member} (member : e.members[i]? = some m) {profiled : Bool}
    {bindings : List (Value × Value)} {supplied : Option (List Value)} {error : Error} {s' : State}
    (given : ∀ pair ∈ bindings, e.MayHand pair.2) (handed : ∀ vs, supplied = some vs → ∀ v ∈ vs, e.MayHand v)
    (allowed : ∀ id, Supplies supplied id → free id)
    (ran : run profiled m.plan bindings supplied (e.state m) = .error error s') : Happens free e (e.behind i m s' [])
  | released {i : Nat} {m : Member} (member : e.members[i]? = some m) :
    Happens free e { e with members := e.members.set i { m with storage := [] } }
  | compiled {w : Workspace} (built : w.Built ShapeRules.Proper) {settings : Settings}
    {kernels : Kernels} {device v : Value} {overrides : List (Value × Value)} {p : Plan}
    (made : Plan.compile settings kernels device overrides v = .ok p) (own : ∀ o ∈ p.outputs, o ∈ w.graph.nodes)
    (leaves : ∀ leaf ∈ p.leaves, ∀ id, leaf.node.buffer = some id →
      e.known id ∧ (e.store.get id).size = leaf.node.byteSize) :
    Happens free e { e with members := e.members ++ [⟨p, [], .empty⟩] }
  | changed {id : BufferId} {change : Buffer → Result Buffer} {store : Store} (own : e.known id)
    (allowed : free id) (sized : ∀ b b', change b = .ok b' → b'.size = b.size)
    (made : e.store.update id change = .ok store) : Happens free e { e with store }
  | locked {id : BufferId} (own : e.known id) (allowed : free id) :
    Happens free e { e with store := e.store.markReadonly id }
  | built {rules : ShapeRules} {graph : Graph} {call : BuilderCall} {store : Store}
    (made : (final call.run ⟨rules, graph, e.store⟩).store = store) :
    Happens free e { e with store, known := fun id => e.known id ∨ e.store.size ≤ id ∧ id < store.size }

/-- Anything that happened, one thing after the other. -/
abbrev History (free : BufferId → Prop) : Ensemble → Ensemble → Prop := Relation.ReflTransGen (Happens free)

/-- Callers hold the buffers of the leaves of a plan, which have their sizes, and none of its own. -/
structure Keeps (e : Ensemble) (m : Member) : Prop where
  orderly : m.plan.Orderly
  furnished : ∀ leaf ∈ m.plan.leaves, leaf.node.kind = "placeholder" ∨ ∃ id, leaf.node.buffer = some id
  kept : Kept m.plan (e.state m)
  visible : ∀ id, e.known id → Visible m.plan (e.state m) id
  leaves : ∀ leaf ∈ m.plan.leaves, ∀ id, leaf.node.buffer = some id →
    e.known id ∧ (e.store.get id).size = leaf.node.byteSize

/-- Every plan keeps to its buffers. -/
structure Sound (e : Ensemble) : Prop where
  inside : ∀ id, e.known id → id < e.store.size
  members : ∀ m ∈ e.members, e.Keeps m

theorem opening_sound (store : Store) (streams : Streams) : (opening store streams).Sound :=
  ⟨fun _ inside => inside, fun m member => by cases member⟩

theorem Keeps.start (keeps : e.Keeps m) (given : ∀ pair ∈ bindings, e.MayHand pair.2)
    (handed : ∀ vs, supplied = some vs → ∀ v ∈ vs, e.MayHand v) : Start m.plan (e.state m) bindings supplied where
  orderly := keeps.orderly
  kept := keeps.kept
  leaves leaf member id own := keeps.visible id (keeps.leaves leaf member id own).1
  given _ id content member := keeps.visible id (given _ member id content rfl)
  handed vs same id content member := keeps.visible id (handed vs same _ member id content rfl)

theorem Keeps.onward (keeps : e.Keeps m) {s' : State} (onward : Onward m.plan (e.state m) s') {m' : Member}
    (plan : m'.plan = m.plan) (state : e'.state m' = s')
    (sizes : ∀ id < e.store.size, (e'.store.get id).size = (e.store.get id).size)
    (known : ∀ id, e.known id → e'.known id) (new : ∀ id, e'.known id → e.known id ∨ Visible m.plan s' id) :
    e'.Keeps m' := by
  subst state
  obtain ⟨p, storage, profile⟩ := m'
  cases plan
  refine ⟨keeps.orderly, keeps.furnished, onward.kept, fun id here => ?_, fun leaf member id own => ?_⟩
  · exact (new id here).elim (fun old => onward.visible id (keeps.visible id old)) fun new => new
  · obtain ⟨old, size⟩ := keeps.leaves leaf member id own
    exact ⟨known id old, by rw [sizes id (keeps.visible id old).1, size]⟩

/-- A member that nothing happens to, while callers' buffers change and new ones are made. -/
theorem Keeps.aside (keeps : e.Keeps m) (grows : e.store.size ≤ e'.store.size)
    (sizes : ∀ id < e.store.size, (e'.store.get id).size = (e.store.get id).size)
    (flags : ∀ id < e.store.size, ¬e.known id → (e'.store.get id).readonly = (e.store.get id).readonly)
    (known : ∀ id, e.known id → e'.known id)
    (new : ∀ id, e'.known id → e.known id ∨ e.store.size ≤ id ∧ id < e'.store.size) : e'.Keeps m := by
  have onward : Onward m.plan (e.state m) (e'.state m) := by
    refine keeps.kept.shrink (fun _ _ found => found) grows fun id hidden => ?_
    have inside : id < e.store.size := hidden.elim fun slot here => keeps.kept.within _ id here.2.2
    exact ⟨sizes id inside, flags id inside fun shown => (keeps.visible id shown).2 hidden⟩
  refine keeps.onward onward rfl rfl sizes known fun id here => (new id here).imp_right fun ⟨late, inside⟩ =>
    ⟨inside, ?_⟩
  rintro ⟨slot, member, role, held⟩
  exact keeps.kept.fresh late ⟨slot, member, role, held⟩

/-- Behind an execution all plans keep to their buffers. -/
theorem Sound.behind (sound : e.Sound) {i : Nat} (member : e.members[i]? = some m) {s' : State} {ids : List BufferId}
    (onward : Onward m.plan (e.state m) s') (visible : ∀ id ∈ ids, Visible m.plan s' id)
    (alters : (e.state m).store.Alters (Owned m.plan (e.state m) supplied) s'.store)
    (results : ∀ id ∈ ids, e.store.size ≤ id ∧ id < s'.store.size ∨ e.known id) : (e.behind i m s' ids).Sound where
  inside id here := by
    rcases here with old | new
    · exact Nat.lt_of_lt_of_le (sound.inside id old) alters.grows
    · exact (visible id new).1
  members m' listed := by
    rcases List.mem_or_eq_of_mem_set listed with other | rfl
    · refine (sound.members m' other).aside alters.grows alters.sizes (fun id inside _ => alters.flags id inside)
        (fun _ => .inl) fun id here => ?_
      rcases here with old | new
      · exact .inl old
      · exact (results id new).symm
    · exact (sound.members m (List.mem_of_getElem? member)).onward onward rfl rfl alters.sizes (fun _ => .inl)
        fun id here => here.imp_right (visible id)

/-- Whatever happens, all plans keep to their buffers. -/
theorem Sound.happens (sound : e.Sound) (happens : e.Happens free e') : e'.Sound := by
  have moved : ∀ {store : Store}, e.store.size = store.size →
      (∀ id < e.store.size, (store.get id).size = (e.store.get id).size) →
      (∀ id, ¬e.known id → store.get id = e.store.get id) → Sound { e with store } := by
    intro store size sizes others
    refine ⟨fun id here => size ▸ sound.inside id here, fun m member => ?_⟩
    refine (sound.members m member).aside (Nat.le_of_eq size) sizes (fun id _ unknown => ?_) (fun _ known => known)
      fun _ => .inl
    rw [show store.get id = e.store.get id from others id unknown]
  cases happens with
  | executed member given handed allowed ran =>
    have start := (sound.members _ (List.mem_of_getElem? member)).start given handed
    obtain ⟨onward, visible⟩ := (run_onward start.orderly.valid start.kept start.orderly.shared start.leaves start.given
      start.handed _).of_ok ran
    refine sound.behind member onward visible (start.run_alters.of_ok ran) fun id result => ?_
    refine (start.run_returned.of_ok ran id result).imp_right ?_
    rintro ⟨vs, content, same, listed⟩
    exact handed vs same _ listed id content rfl
  | failed member given handed allowed ran =>
    have start := (sound.members _ (List.mem_of_getElem? member)).start given handed
    have onward := (run_onward start.orderly.valid start.kept start.orderly.shared start.leaves start.given
      start.handed _).of_error ran
    exact sound.behind member onward (by simp) (start.run_alters.of_error ran) (by simp)
  | @released i m member =>
    refine ⟨sound.inside, fun m' listed => ?_⟩
    rcases List.mem_or_eq_of_mem_set listed with other | rfl
    · exact (sound.members m' other).onward (sound.members m' other).kept.onward rfl rfl (fun _ _ => rfl)
        (fun _ known => known) fun _ => .inl
    · have keeps := sound.members m (List.mem_of_getElem? member)
      exact keeps.onward keeps.kept.released rfl rfl (fun _ _ => rfl) (fun _ known => known) fun _ => .inl
  | @compiled w built _ _ _ _ _ p made own leaves =>
    refine ⟨sound.inside, fun m' listed => ?_⟩
    rcases List.mem_append.mp listed with other | new
    · exact (sound.members m' other).onward (sound.members m' other).kept.onward rfl rfl (fun _ _ => rfl)
        (fun _ known => known) fun _ => .inl
    · cases List.mem_singleton.mp new
      obtain ⟨outputs, standard, devices, made⟩ := Plan.compile_eq_ok made
      have laid := (Plan.ofOutputs_eq_ok made).1
      rw [laid.requested] at own
      have arena := built.ordered.arena
      refine ⟨Plan.ofOutputs_orderly arena own made, fun leaf member => ?_, kept_of_empty rfl,
        fun id known => visible_of_empty rfl (sound.inside id known), leaves⟩
      obtain ⟨ordered, isLeaf, _⟩ := laid.mem_leaves.mp member
      exact (built.furnished.2 leaf.node (arena.needed own ((Node.mem_order_iff arena own).mp ordered))).given isLeaf
  | @changed id change store own allowed sized made =>
    simp only [Store.update, Result.bind_eq_ok, Result.pure_eq_ok] at made
    obtain ⟨b, accepted, rfl⟩ := made
    exact moved (Store.size_overwrite ..).symm (Store.alters_overwrite (sized _ _ accepted)).sizes
      fun other unknown => Store.get_overwrite_of_ne b.bytes fun same => unknown (same ▸ own)
  | @locked id own allowed =>
    exact moved (Store.size_markReadonly ..).symm (fun other _ => Store.get_markReadonly_size ..) fun other unknown =>
      Store.get_markReadonly_of_ne fun same => unknown (same ▸ own)
  | @built rules graph call store made =>
    have extended := call.extends_final ⟨rules, graph, e.store⟩
    rw [made] at extended
    refine ⟨?_, fun m member => ?_⟩
    · rintro id (old | new)
      · exact Nat.lt_of_lt_of_le (sound.inside id old) extended.grows
      · exact new.2
    · have same : ∀ id < e.store.size, store.get id = e.store.get id := extended.same
      refine (sound.members m member).aside extended.grows (fun id inside => ?_) (fun id inside _ => ?_) (fun _ => .inl)
        fun _ here => here
      · rw [same id inside]
      · rw [same id inside]

theorem Sound.history (sound : e.Sound) (history : e.History free e') : e'.Sound := by
  induction history with
  | refl => exact sound
  | tail _ happens ih => exact ih.happens happens

/-- A buffer that callers hold is left alone, unless they have it written to. -/
theorem Sound.spared (sound : e.Sound) {id : BufferId} (known : e.known id) (guarded : ¬free id)
    (happens : e.Happens free e') : e'.known id ∧ e'.store.get id = e.store.get id := by
  have executed : ∀ {i : Nat} {m : Member} {supplied : Option (List Value)} {s' : State},
      e.members[i]? = some m → (∀ id, Supplies supplied id → free id) →
        (e.state m).store.Alters (Owned m.plan (e.state m) supplied) s'.store → s'.store.get id = e.store.get id := by
    intro i m supplied s' member allowed alters
    refine alters.same id (sound.inside id known) ?_
    rintro (hidden | supplied)
    · exact ((sound.members m (List.mem_of_getElem? member)).visible id known).2 hidden
    · exact guarded (allowed id supplied)
  cases happens with
  | executed member given handed allowed ran =>
    have start := (sound.members _ (List.mem_of_getElem? member)).start given handed
    exact ⟨.inl known, executed member allowed (start.run_alters.of_ok ran)⟩
  | failed member given handed allowed ran =>
    have start := (sound.members _ (List.mem_of_getElem? member)).start given handed
    exact ⟨.inl known, executed member allowed (start.run_alters.of_error ran)⟩
  | released member => exact ⟨known, rfl⟩
  | compiled => exact ⟨known, rfl⟩
  | @changed other change store own allowed _ made =>
    simp only [Store.update, Result.bind_eq_ok, Result.pure_eq_ok] at made
    obtain ⟨b, _, rfl⟩ := made
    exact ⟨known, Store.get_overwrite_of_ne b.bytes fun same => guarded (same ▸ allowed)⟩
  | @locked other own allowed =>
    exact ⟨known, Store.get_markReadonly_of_ne fun same => guarded (same ▸ allowed)⟩
  | @built rules graph call store made =>
    have extended := call.extends_final ⟨rules, graph, e.store⟩
    rw [made] at extended
    exact ⟨.inl known, extended.same id (sound.inside id known)⟩

theorem Sound.spared_history (sound : e.Sound) {id : BufferId} (known : e.known id) (guarded : ¬free id)
    (history : e.History free e') : e'.store.get id = e.store.get id := by
  have both : e'.known id ∧ e'.store.get id = e.store.get id := by
    induction history with
    | refl => exact ⟨known, rfl⟩
    | tail before happens ih =>
      obtain ⟨known, same⟩ := (sound.history before).spared ih.1 guarded happens
      exact ⟨known, same.trans ih.2⟩
  exact both.2

/-- Executions touch only what they own, whatever happened before. Without supplied buffers nothing that
callers hold changes, and the results are new buffers that stay as they are; with supplied buffers these
are the results, and nothing else that callers hold changes. -/
theorem run_owns {store : Store} {streams : Streams} (history : (opening store streams).History (fun _ => True) e)
    {i : Nat} (member : e.members[i]? = some m) (given : ∀ pair ∈ bindings, e.MayHand pair.2) (profiled : Bool) :
    (∀ id, e.known id → ¬Hidden m.plan (e.state m) id) ∧
    Ensures (run profiled m.plan bindings none) (e.state m)
      (fun ids s' => e.store.Alters (Hidden m.plan (e.state m)) s'.store ∧ ids.Nodup ∧
        ∀ id ∈ ids, Released (e.state m) s' id ∧
          ∀ later, (e.behind i m s' ids).History (· ≠ id) later → later.store.get id = s'.store.get id)
      (fun s' => e.store.Alters (Hidden m.plan (e.state m)) s'.store) ∧
    ∀ vs, (∀ v ∈ vs, e.MayHand v) → Ensures (run profiled m.plan bindings (some vs)) (e.state m)
      (fun ids s' => e.store.Alters (Owned m.plan (e.state m) (some vs)) s'.store ∧
        List.Forall₂ (fun v id => ∃ content, v = .buffer id content) vs ids)
      (fun s' => e.store.Alters (Owned m.plan (e.state m) (some vs)) s'.store) := by
  have sound := (opening_sound store streams).history history
  have keeps := sound.members m (List.mem_of_getElem? member)
  refine ⟨fun id known => (keeps.visible id known).2, ?_, fun vs handed => ?_⟩
  · have start : Start m.plan (e.state m) bindings none := keeps.start given fun vs absent => by cases absent
    have hidden : ∀ {store : Store}, e.store.Alters (Owned m.plan (e.state m) none) store →
        e.store.Alters (Hidden m.plan (e.state m)) store := fun alters =>
      alters.mono fun id _ owned => owned.resolve_right fun ⟨vs, _, absent, _⟩ => by cases absent
    refine ((start.run_alters.and start.run_released).ran).weaken ?_ fun s' failed => hidden failed.1.1
    rintro ids s' ⟨⟨alters, apart, released⟩, ran⟩
    refine ⟨hidden alters, apart, fun id result => ⟨released id result, fun later history => ?_⟩⟩
    have executed : e.Happens (fun _ => True) (e.behind i m s' ids) :=
      .executed member given (fun vs absent => by cases absent) (fun _ _ => trivial) ran
    have behind := sound.happens executed
    exact behind.spared_history (.inr result) (fun other => other rfl) history
  · have start : Start m.plan (e.state m) bindings (some vs) := keeps.start given fun vs' same v listed => by
      cases same
      exact handed v listed
    exact (start.run_alters.and start.run_supplied).weaken (fun ids s' returned => returned) fun s' failed => failed.1

end Ensemble

namespace Sample
open Ensemble

def squareMember : Member := ⟨squarePlan, [], .empty⟩

/-- The plan of the square and the variable, beside no others. -/
def squareEnsemble (store : Store) : Ensemble := { opening store [] with members := [squareMember] }

theorem squareEnsemble_history {store : Store} (inside : 0 < store.size) (size : (store.get 0).size = 8) :
    (opening store []).History (fun _ => True) (squareEnsemble store) := by
  have leaves : ∀ leaf ∈ squarePlan.leaves, ∀ id, leaf.node.buffer = some id →
      id < store.size ∧ (store.get id).size = leaf.node.byteSize := by
    intro leaf member id buffer
    rcases List.mem_pair.mp member with rfl | rfl
    · cases buffer
      exact ⟨inside, by rw [size]; rfl⟩
    · cases buffer
  exact .single (.compiled built_proper compile_square own_square leaves)

theorem run_owns_square : ∃ ids s',
    run false squarePlan sharedBinding none ((squareEnsemble workspace.store).state squareMember) = .ok ids s' ∧
      ids.Nodup ∧ ∀ id ∈ ids, Released ((squareEnsemble workspace.store).state squareMember) s' id := by
  have given : ∀ pair ∈ sharedBinding, (squareEnsemble workspace.store).MayHand pair.2 := by
    intro pair member id content same
    cases List.mem_singleton.mp member
    cases same
    exact Nat.zero_lt_one
  obtain ⟨ids, s', ran⟩ : ∃ ids s',
      run false squarePlan sharedBinding none ((squareEnsemble workspace.store).state squareMember) =
        .ok ids s' := ⟨_, _, rfl⟩
  obtain ⟨_, apart, released⟩ :=
    (run_owns (i := 0) (m := squareMember) (squareEnsemble_history (by decide) rfl) rfl given false).2.1.of_ok ran
  exact ⟨ids, s', ran, apart, fun id member => (released id member).1⟩

end Sample
end TensorDag
