import TensorDag.Proofs.Frame
import TensorDag.Proofs.Moves

/-!
What is checked before an execution: bindings and supplied buffers. Where they are refused, nothing has happened but
that bound values may have got buffers of their own.
-/
namespace TensorDag.Execution
open Program Plan
variable {p : Plan} {s s' : State} {profiled : Bool} {bindings : List (Value × Value)} {supplied : Option (List Value)}

/-- What is checked before anything is put into slots: the bindings, and the supplied buffers. -/
def checks (p : Plan) (bindings : List (Value × Value)) (supplied : Option (List Value)) :
    Execution (Bindings × Option (List BufferId)) := do
  let bound ← bindAll p bindings []
  of (checkBound bound p.leaves)
  let ids ← of (suppliedBuffers p (← get).store supplied)
  return (bound, ids)

theorem run_eq [Memory] : run profiled p bindings supplied = (do
    let given ← checks p bindings supplied
    prepare p given.1 given.2
    discarding p (runSteps profiled p given.2)) := by
  simp only [run, checks, bind_assoc, pure_bind]

/-- Nothing happened but that buffers were made. -/
structure Untouched (s s' : State) : Prop extends s.Extends s' where
  profile : s'.profile = s.profile
  streams : s'.streams = s.streams

theorem course_untouched : ExecutionOrder Untouched where
  refl s := ⟨.refl s, rfl, rfl⟩
  trans first second :=
    ⟨first.toExtends.trans second.toExtends, second.profile.trans first.profile, second.streams.trans first.streams⟩
  allocated s b := ⟨⟨Store.extends_insert s.store b, rfl⟩, rfl, rfl⟩

theorem checks_untouched : Along Untouched (checks p bindings supplied) :=
  course_untouched.bind (course_untouched.bindAll p bindings []) fun _ =>
    course_untouched.bind (course_untouched.of _) fun _ =>
      course_untouched.bind course_untouched.get fun _ =>
        course_untouched.bind (course_untouched.of _) fun _ => course_untouched.pure _

theorem checks_steps (p : Plan) (steps : List Step) (bindings : List (Value × Value)) (supplied : Option (List Value)) :
    checks { p with steps } bindings supplied = checks p bindings supplied := by
  have same : ∀ pairs bound, bindAll { p with steps } pairs bound = bindAll p pairs bound := by
    intro pairs
    induction pairs with
    | nil => exact fun bound => rfl
    | cons pair rest ih =>
      obtain ⟨key, v⟩ := pair
      intro bound
      cases key with
      | node n => simp only [bindAll, ih]
      | _ => rfl
  simp only [checks, same]
  rfl

theorem run_of_checks [Memory] {e : Error} (failed : checks p bindings supplied s = .error e s') (profiled : Bool)
    (steps : List Step) : run profiled { p with steps } bindings supplied s = .error e s' := by
  rw [run_eq, bind_eq_error, checks_steps]
  exact .inl failed

/-- What an execution is not to be asked for: a key that is no leaf, a binding of another size, a placeholder
without a binding, another number of supplied buffers than of outputs, one of another size. -/
inductive Misused (p : Plan) (s : State) (bindings : List (Value × Value)) (supplied : Option (List Value)) : Prop
  | key {key v : Value} (member : (key, v) ∈ bindings) (other : ∀ n, key = .node n → n.isLeaf = false)
  | binding {n : Node} {v : Value} {bytes : Bytes} (member : (.node n, v) ∈ bindings)
    (content : boundBytes s.store n v = .ok bytes) (size : bytes.size ≠ n.byteSize)
  | unbound {leaf : LeafSlot} (member : leaf ∈ p.leaves) (kind : leaf.node.kind = "placeholder")
    (missing : bindingOf leaf.node bindings = none)
  | count {vs : List Value} (given : supplied = some vs) (count : vs.length ≠ p.outputs.length)
  | output {vs : List Value} {n : Node} {id : BufferId} {content : Buffer} (given : supplied = some vs)
    (member : (n, .buffer id content) ∈ p.outputs.zip vs) (size : (s.store.get id).size ≠ n.byteSize)

/-- Only keys of bindings get buffers. -/
theorem bindAll_keys {pairs : List (Value × Value)} {bound : Bindings} {n : Node} (missing : bindingOf n pairs = none) :
    Ensures (bindAll p pairs bound) s (fun bound' _ => bound'.lookup n.id = bound.lookup n.id) (fun _ => True) := by
  induction pairs generalizing s bound with
  | nil => exact .pure rfl
  | cons pair rest ih =>
    obtain ⟨key, v⟩ := pair
    cases key with
    | node m =>
      rw [bindingOf, Option.or_eq_none_iff] at missing
      have differ : m.id ≠ n.id := fun same => by simp [same] at missing
      rw [bindAll]
      split
      · exact .bind (.throw trivial)
      have here : Ensures (boundBuffer m v) s (fun _ _ => True) (fun _ => True) := by
        unfold Ensures
        split <;> trivial
      refine .bind (here.weaken (fun id s₁ _ => .bind (.get ?_)) fun _ _ => trivial)
      dsimp only
      split
      · exact .bind (.throw trivial)
      refine (ih missing.1).weaken (fun bound' _ same => same.trans ?_) fun _ _ => trivial
      split
      · rw [List.lookup_cons, beq_eq_false_iff_ne.mpr (Ne.symm differ)]
      · rfl
    | _ => exact .throw trivial

theorem checks_eq_ok {given : Bindings × Option (List BufferId)} :
    checks p bindings supplied s = .ok given s' ↔ bindAll p bindings [] s = .ok given.1 s' ∧
      checkBound given.1 p.leaves = .ok () ∧ suppliedBuffers p s'.store supplied = .ok given.2 := by
  simp only [checks, bind_eq_ok, of_eq_ok, get_eq_ok, pure_eq_ok]
  constructor
  · rintro ⟨bound, _, binds, _, _, ⟨checked, rfl⟩, _, _, ⟨rfl, rfl⟩, ids, _, ⟨counted, rfl⟩, rfl, rfl⟩
    exact ⟨binds, checked, counted⟩
  · rintro ⟨binds, checked, counted⟩
    exact ⟨given.1, s', binds, ⟨⟩, s', ⟨checked, rfl⟩, s', s', ⟨rfl, rfl⟩, given.2, s', ⟨counted, rfl⟩, rfl, rfl⟩

/-- Every misuse is found by the checks. -/
theorem Misused.refused (misused : Misused p s bindings supplied) (within : ∀ pair ∈ bindings, pair.2.Within s.store)
    (handed : ∀ vs, supplied = some vs → ∀ v ∈ vs, v.Within s.store) :
    ∃ e s', checks p bindings supplied s = .error e s' := by
  cases outcome : checks p bindings supplied s with
  | error e s' => exact ⟨e, s', rfl⟩
  | ok given s' =>
    exfalso
    obtain ⟨binds, checked, counted⟩ := checks_eq_ok.mp outcome
    have accepted := (bindAll_accepts within).of_ok binds
    cases misused with
    | key member other =>
      obtain ⟨n, rfl, isLeaf, _⟩ := accepted _ member
      cases (other n rfl).symm.trans isLeaf
    | binding member content size =>
      obtain ⟨n, same, _, bytes, here, fits⟩ := accepted _ member
      cases same
      cases content.symm.trans here
      exact size fits
    | unbound member kind missing =>
      obtain ⟨id, found⟩ := checkBound_eq_ok checked _ member kind
      cases found.symm.trans ((bindAll_keys missing).of_ok binds)
    | count same count =>
      subst same
      rw [suppliedBuffers, if_pos count] at counted
      cases counted
    | @output vs n id content same member size =>
      subst same
      rw [suppliedBuffers] at counted
      split at counted
      · cases counted
      obtain ⟨known, listed, _⟩ := Result.map_eq_ok.mp counted
      obtain ⟨i, inside, found⟩ := List.mem_iff_getElem.mp member
      have all := buffersFor_eq_ok listed
      have bound : i < known.length := all.length_eq ▸ inside
      obtain ⟨⟨other, value⟩, fits⟩ := all.get inside bound
      simp only [List.get_eq_getElem, found] at value fits
      cases value
      have inside := handed vs rfl _ (List.of_mem_zip member).2
      rw [((checks_untouched s).of_ok outcome).store.same _ inside] at fits
      exact size fits

end TensorDag.Execution
