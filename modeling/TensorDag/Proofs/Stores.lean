import TensorDag.Buffer

/-!
What becomes of a store. Buffers are never lost and keep their sizes; steps that only make new buffers
leave the old ones as they are.
-/
namespace TensorDag

theorem Bytes.size_ofWords (words : List UInt32) : (Bytes.ofWords words).size = 4 * words.length := by
  induction words with
  | nil => rfl
  | cons w rest ih =>
    simp only [Bytes.ofWords, List.size_toArray, List.flatMap_cons, List.length_append,
      Bytes.ofWord, List.length_cons, List.length_nil] at ih ⊢
    omega
namespace Store
variable {s s' s'' : Store} {id other : BufferId}

def size (s : Store) : Nat := s.buffers.size

@[simp] theorem size_insert (s : Store) (b : Buffer) : (s.insert b).2.size = s.size + 1 := by
  simp [insert, size]

theorem get_insert_self (s : Store) (b : Buffer) : (s.insert b).2.get s.size = b := by
  simp [insert, get, size, Array.getD_eq_getD_getElem?]

theorem get_insert_of_lt (b : Buffer) (inside : id < s.size) : (s.insert b).2.get id = s.get id := by
  have differ : id ≠ s.buffers.size := Nat.ne_of_lt inside
  simp [insert, get, Array.getD_eq_getD_getElem?, Array.getElem?_push, differ]

@[simp] theorem size_overwrite (s : Store) (id : BufferId) (bytes : Bytes) :
    (s.overwrite id bytes).size = s.size := by
  simp [overwrite, size]

theorem get_overwrite_self (bytes : Bytes) (inside : id < s.size) :
    (s.overwrite id bytes).get id = ⟨bytes, (s.get id).readonly⟩ := by
  have found : id < s.buffers.size := inside
  simp [overwrite, get, Array.getD_eq_getD_getElem?, Array.getElem_modify, found]

theorem get_overwrite_of_ne (bytes : Bytes) (differ : other ≠ id) :
    (s.overwrite id bytes).get other = s.get other := by
  simp only [overwrite, get, Array.getD_eq_getD_getElem?, Array.getElem?_modify]
  rw [if_neg differ.symm]

@[simp] theorem size_markReadonly (s : Store) (id : BufferId) : (s.markReadonly id).size = s.size := by
  simp [markReadonly, size]

theorem get_markReadonly_of_ne (differ : other ≠ id) : (s.markReadonly id).get other = s.get other := by
  simp only [markReadonly, get, Array.getD_eq_getD_getElem?, Array.getElem?_modify]
  rw [if_neg differ.symm]

theorem get_markReadonly_size (s : Store) (id other : BufferId) :
    ((s.markReadonly id).get other).size = (s.get other).size := by
  simp only [markReadonly, get, Array.getD_eq_getD_getElem?, Array.getElem?_modify, Buffer.size]
  split
  · cases s.buffers[other]? <;> rfl
  · rfl

/-- New buffers are made and old ones stay. -/
structure Extends (before after : Store) : Prop where
  grows : before.size ≤ after.size
  same : ∀ id < before.size, after.get id = before.get id

theorem Extends.refl (s : Store) : s.Extends s := ⟨Nat.le_refl _, fun _ _ => rfl⟩

theorem Extends.trans (first : s.Extends s') (second : s'.Extends s'') : s.Extends s'' where
  grows := Nat.le_trans first.grows second.grows
  same id inside := by rw [second.same id (Nat.lt_of_lt_of_le inside first.grows), first.same id inside]

theorem extends_insert (s : Store) (b : Buffer) : s.Extends (s.insert b).2 where
  grows := by simp
  same _ inside := get_insert_of_lt b inside

/-- What becomes of a store in the long run: buffers keep their sizes, and read-only ones their bytes. -/
structure Later (before after : Store) : Prop where
  grows : before.size ≤ after.size
  sizes : ∀ id < before.size, (after.get id).size = (before.get id).size
  sealed : ∀ id < before.size, (before.get id).readonly → after.get id = before.get id

theorem Extends.later (extended : s.Extends s') : s.Later s' where
  grows := extended.grows
  sizes id inside := by rw [extended.same id inside]
  sealed id inside _ := extended.same id inside

theorem Later.trans (first : s.Later s') (second : s'.Later s'') : s.Later s'' where
  grows := Nat.le_trans first.grows second.grows
  sizes id inside := (second.sizes id (Nat.lt_of_lt_of_le inside first.grows)).trans (first.sizes id inside)
  sealed id inside fixed := by
    have same := first.sealed id inside fixed
    rw [second.sealed id (Nat.lt_of_lt_of_le inside first.grows) (same ▸ fixed), same]

/-- Buffers keep their sizes and flags, and all but some keep their bytes. -/
structure Alters (some : BufferId → Prop) (before after : Store) : Prop where
  grows : before.size ≤ after.size
  sizes : ∀ id < before.size, (after.get id).size = (before.get id).size
  flags : ∀ id < before.size, (after.get id).readonly = (before.get id).readonly
  same : ∀ id < before.size, ¬some id → after.get id = before.get id

theorem Extends.alters (extended : s.Extends s') (some : BufferId → Prop) : s.Alters some s' where
  grows := extended.grows
  sizes id inside := by rw [extended.same id inside]
  flags id inside := by rw [extended.same id inside]
  same id inside _ := extended.same id inside

theorem alters_overwrite {bytes : Bytes} (size : bytes.size = (s.get id).size) :
    s.Alters (· = id) (s.overwrite id bytes) := by
  have self : ∀ other < s.size, other = id → (s.overwrite id bytes).get other = ⟨bytes, (s.get other).readonly⟩ := by
    rintro _ inside rfl
    exact get_overwrite_self bytes inside
  refine ⟨Nat.le_of_eq (size_overwrite ..).symm, fun other inside => ?_, fun other inside => ?_,
    fun other _ differ => get_overwrite_of_ne bytes differ⟩
  · by_cases same : other = id
    · rw [self other inside same, same]
      exact size
    · rw [get_overwrite_of_ne bytes same]
  · by_cases same : other = id
    · rw [self other inside same]
    · rw [get_overwrite_of_ne bytes same]

theorem Alters.trans {first second some : BufferId → Prop} (front : s.Alters first s') (back : s'.Alters second s'')
    (left : ∀ id < s.size, first id → some id) (right : ∀ id < s.size, second id → some id) :
    s.Alters some s'' where
  grows := Nat.le_trans front.grows back.grows
  sizes id inside := by rw [back.sizes id (Nat.lt_of_lt_of_le inside front.grows), front.sizes id inside]
  flags id inside := by rw [back.flags id (Nat.lt_of_lt_of_le inside front.grows), front.flags id inside]
  same id inside other := by
    rw [back.same id (Nat.lt_of_lt_of_le inside front.grows) fun here => other (right id inside here),
      front.same id inside fun here => other (left id inside here)]

theorem Alters.mono {wider some : BufferId → Prop} (alters : s.Alters some s')
    (wide : ∀ id < s.size, some id → wider id) : s.Alters wider s' where
  grows := alters.grows
  sizes := alters.sizes
  flags := alters.flags
  same id inside other := alters.same id inside fun here => other (wide id inside here)

end Store
end TensorDag
