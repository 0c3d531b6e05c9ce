import TensorDag.Error

/-!
When programs return: a chain of steps returns where each of them does.
-/
namespace TensorDag

namespace Result
variable {α β : Type}

theorem exists_unit {p : Unit → Prop} : (∃ u, p u) ↔ p () :=
  ⟨fun ⟨(), here⟩ => here, fun here => ⟨(), here⟩⟩

theorem bind_eq_ok {x : Result α} {f : α → Result β} {b : β} :
    (x >>= f) = .ok b ↔ ∃ a, x = .ok a ∧ f a = .ok b := by
  cases x with
  | error e => simp [bind, Except.bind]
  | ok a => simp [bind, Except.bind]

theorem pure_eq_ok {a b : α} : (pure a : Result α) = .ok b ↔ a = b := by
  simp [pure, Except.pure]

theorem bind_unit_eq_ok {x : Result Unit} {y : Result α} {b : α} :
    (x >>= fun _ => y) = .ok b ↔ x = .ok () ∧ y = .ok b := by
  rw [bind_eq_ok, exists_unit]

theorem map_eq_ok {x : Result α} {f : α → β} {b : β} :
    x.map f = .ok b ↔ ∃ a, x = .ok a ∧ f a = b := by
  cases x with
  | error e => simp [Except.map]
  | ok a => simp [Except.map]

theorem mem_of_mapM {f : α → Result β} : ∀ {as : List α} {bs : List β}, as.mapM f = .ok bs →
    ∀ b ∈ bs, ∃ a ∈ as, f a = .ok b
  | [], bs, ran, b, member => by
    rw [List.mapM_nil, pure_eq_ok] at ran
    rw [← ran] at member
    cases member
  | a :: rest, bs, ran, b, member => by
    simp only [List.mapM_cons, bind_eq_ok, pure_eq_ok] at ran
    obtain ⟨first, here, others, later, rfl⟩ := ran
    rcases List.mem_cons.mp member with rfl | inside
    · exact ⟨a, List.mem_cons_self .., here⟩
    · obtain ⟨other, listed, made⟩ := mem_of_mapM later b inside
      exact ⟨other, List.mem_cons_of_mem _ listed, made⟩

end Result

namespace Program
variable {σ α β : Type} {s s' : σ}

/-- The state behind a program, however it ended. -/
def final (x : EStateM Error σ α) (s : σ) : σ :=
  match x s with
  | .ok _ s => s
  | .error _ s => s

theorem bind_eq_ok {x : EStateM Error σ α} {f : α → EStateM Error σ β} {b : β} :
    (x >>= f) s = .ok b s' ↔ ∃ a middle, x s = .ok a middle ∧ f a middle = .ok b s' := by
  simp only [bind, EStateM.bind]
  cases x s with
  | ok a middle =>
    constructor
    · exact fun returned => ⟨a, middle, rfl, returned⟩
    · rintro ⟨_, _, same, returned⟩
      cases same
      exact returned
  | error e middle => simp

theorem bind_eq_error {x : EStateM Error σ α} {f : α → EStateM Error σ β} {e : Error} :
    (x >>= f) s = .error e s' ↔
      x s = .error e s' ∨ ∃ a middle, x s = .ok a middle ∧ f a middle = .error e s' := by
  simp only [bind, EStateM.bind]
  cases x s with
  | ok a middle =>
    constructor
    · exact fun failed => .inr ⟨a, middle, rfl, failed⟩
    · rintro (failed | ⟨_, _, same, failed⟩)
      · cases failed
      · cases same
        exact failed
  | error e middle => simp

theorem pure_eq_ok {a b : α} : (pure a : EStateM Error σ α) s = .ok b s' ↔ a = b ∧ s = s' := by
  simp [pure, EStateM.pure]

theorem run_throw (e : Error) : (throw e : EStateM Error σ α) s = .error e s := rfl

theorem run_get : (get : EStateM Error σ σ) s = .ok s s := rfl

theorem run_set (new : σ) : (set new : EStateM Error σ PUnit) s = .ok ⟨⟩ new := rfl

theorem throw_eq_ok {e : Error} {b : α} : ¬(throw e : EStateM Error σ α) s = .ok b s' := by
  rw [run_throw]
  intro returned
  cases returned

theorem get_eq_ok {a : σ} : (get : EStateM Error σ σ) s = .ok a s' ↔ s = a ∧ s = s' := by
  rw [run_get, EStateM.Result.ok.injEq]

theorem set_eq_ok {new : σ} {u : PUnit} :
    (set new : EStateM Error σ PUnit) s = .ok u s' ↔ new = s' := by
  simp [run_set]

/-- Whether a program returns, as a test that runs it. -/
def returns (x : EStateM Error σ α) (s : σ) : Bool :=
  match x s with
  | .ok _ _ => true
  | .error _ _ => false

theorem exists_of_returns {x : EStateM Error σ α} (returned : returns x s = true) : ∃ a s', x s = .ok a s' := by
  unfold returns at returned
  cases ran : x s with
  | ok a s' => exact ⟨a, s', rfl⟩
  | error e s' => simp [ran] at returned

theorem forM_cons (a : α) (rest : List α) (f : α → EStateM Error σ PUnit) :
    (a :: rest).forM f = (f a >>= fun _ => rest.forM f) := rfl

theorem forM_eq_error {as : List α} {f : α → EStateM Error σ PUnit} {e : Error}
    (failed : as.forM f s = .error e s') : ∃ before a after middle, as = before ++ a :: after ∧
      before.forM f s = .ok ⟨⟩ middle ∧ f a middle = .error e s' := by
  induction as generalizing s with
  | nil => cases failed
  | cons a rest ih =>
    rcases bind_eq_error.mp failed with here | ⟨_, next, ran, later⟩
    · exact ⟨[], a, rest, s, rfl, rfl, here⟩
    · obtain ⟨before, b, after, middle, rfl, passed, here⟩ := ih later
      exact ⟨a :: before, b, after, middle, rfl, bind_eq_ok.mpr ⟨_, next, ran, passed⟩, here⟩

/-- What holds behind a program: `post` where it returns, `rest` where it fails. -/
def Ensures (x : EStateM Error σ α) (s : σ) (post : α → σ → Prop) (rest : σ → Prop) : Prop :=
  match x s with
  | .ok a s => post a s
  | .error _ s => rest s

namespace Ensures
variable {post : α → σ → Prop} {rest : σ → Prop}

theorem of_ok {x : EStateM Error σ α} {a : α} (ensures : Ensures x s post rest) (ran : x s = .ok a s') :
    post a s' := by
  simpa [Ensures, ran] using ensures

theorem of_error {x : EStateM Error σ α} {e : Error} (ensures : Ensures x s post rest)
    (ran : x s = .error e s') : rest s' := by
  simpa [Ensures, ran] using ensures

theorem final {x : EStateM Error σ α} {always : σ → Prop} (ensures : Ensures x s (fun _ s => always s) always) :
    always (final x s) := by
  unfold Program.final
  cases ran : x s with
  | ok a s' => exact ensures.of_ok ran
  | error e s' => exact ensures.of_error ran

theorem weaken {x : EStateM Error σ α} {post' : α → σ → Prop} {rest' : σ → Prop}
    (ensures : Ensures x s post rest) (returns : ∀ a s, post a s → post' a s)
    (fails : ∀ s, rest s → rest' s) : Ensures x s post' rest' := by
  cases ran : x s with
  | ok a s' => simpa [Ensures, ran] using returns a s' (ensures.of_ok ran)
  | error e s' => simpa [Ensures, ran] using fails s' (ensures.of_error ran)

theorem and {x : EStateM Error σ α} {post' : α → σ → Prop} {rest' : σ → Prop}
    (first : Ensures x s post rest) (second : Ensures x s post' rest') :
    Ensures x s (fun a s => post a s ∧ post' a s) (fun s => rest s ∧ rest' s) := by
  cases ran : x s with
  | ok a s' => simpa [Ensures, ran] using ⟨first.of_ok ran, second.of_ok ran⟩
  | error e s' => simpa [Ensures, ran] using ⟨first.of_error ran, second.of_error ran⟩

theorem ran {x : EStateM Error σ α} (ensures : Ensures x s post rest) :
    Ensures x s (fun a s' => post a s' ∧ x s = .ok a s') (fun s' => rest s' ∧ ∃ e, x s = .error e s') := by
  cases outcome : x s with
  | ok a s' => simpa [Ensures, outcome] using ensures
  | error e s' => simpa [Ensures, outcome] using ensures

theorem bind {x : EStateM Error σ α} {f : α → EStateM Error σ β} {post : β → σ → Prop}
    (ensures : Ensures x s (fun a s => Ensures (f a) s post rest) rest) :
    Ensures (x >>= f) s post rest := by
  unfold Ensures at ensures ⊢
  simp only [Bind.bind, EStateM.bind]
  cases ran : x s with
  | ok a s' => simpa [ran] using ensures
  | error e s' => simpa [ran] using ensures

theorem pure {a : α} (holds : post a s) : Ensures (Pure.pure a) s post rest := holds

theorem throw {e : Error} (holds : rest s) : Ensures (throw e : EStateM Error σ α) s post rest := holds

theorem get {post : σ → σ → Prop} (holds : post s s) : Ensures get s post rest := holds

theorem set {new : σ} {post : PUnit → σ → Prop} (holds : post ⟨⟩ new) :
    Ensures (set new : EStateM Error σ PUnit) s post rest := holds

theorem modify {f : σ → σ} {post : PUnit → σ → Prop} (holds : post ⟨⟩ (f s)) :
    Ensures (modify f : EStateM Error σ PUnit) s post rest := holds

end Ensures
end Program
end TensorDag
