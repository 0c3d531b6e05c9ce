import TensorDag.Buffer.Access
import TensorDag.Proofs.Outcome
import TensorDag.Proofs.Stores

/-!
Writing to buffers. What a caller writes, as a whole or through a view, does not get past the flag of a
read-only buffer, and buffers keep their sizes.
-/
namespace TensorDag

namespace Store
variable {s s' : Store} {id : BufferId}

theorem Later.refl (s : Store) : s.Later s := (Extends.refl s).later

theorem later_overwrite {bytes : Bytes} (size : bytes.size = (s.get id).size)
    (writable : (s.get id).readonly = false) : s.Later (s.overwrite id bytes) := by
  obtain ⟨grows, sizes, _, same⟩ := alters_overwrite size
  refine ⟨grows, sizes, fun other inside fixed => same other inside fun here => ?_⟩
  rw [here, writable] at fixed
  cases fixed

theorem later_markReadonly (s : Store) (id : BufferId) : s.Later (s.markReadonly id) := by
  refine ⟨Nat.le_of_eq (size_markReadonly s id).symm, fun other _ => get_markReadonly_size s id other, ?_⟩
  intro other inside fixed
  by_cases same : other = id
  · subst same
    have found : other < s.buffers.size := inside
    simp only [get, Array.getD_eq_getD_getElem?, Array.getElem?_eq_getElem found, Option.getD_some] at fixed
    simp only [markReadonly, get, Array.getD_eq_getD_getElem?, Array.getElem?_modify, if_true,
      Array.getElem?_eq_getElem found, Option.map_some, Option.getD_some]
    exact congrArg (Buffer.mk _) fixed.symm
  · exact get_markReadonly_of_ne same

/-- A change of a buffer that respects its flag and its size. -/
def Respects (change : Buffer → Result Buffer) : Prop :=
  ∀ b b', change b = .ok b' → b.readonly = false ∧ b'.size = b.size

theorem Respects.later {change : Buffer → Result Buffer} (respects : Respects change)
    (made : s.update id change = .ok s') : s.Later s' := by
  simp only [update, Result.bind_eq_ok, Result.pure_eq_ok] at made
  obtain ⟨b, accepted, rfl⟩ := made
  obtain ⟨writable, size⟩ := respects _ _ accepted
  exact later_overwrite size writable

theorem Respects.refused {change : Buffer → Result Buffer} (respects : Respects change)
    (fixed : (s.get id).readonly = true) : ∃ e, s.update id change = .error e := by
  cases accepted : change (s.get id) with
  | ok b =>
    have writable := (respects _ _ accepted).1
    rw [fixed] at writable
    cases writable
  | error e => exact ⟨e, by simp [update, accepted, bind, Except.bind]⟩

end Store

namespace Buffer
open Store (Respects)

theorem respects_set (bytes : Bytes) : Respects (·.set bytes) := by
  intro b b' accepted
  dsimp only [set] at accepted
  split at accepted
  · cases accepted
  · rename_i writable
    split at accepted
    · rename_i size
      cases accepted
      exact ⟨by simpa using writable, size⟩
    · cases accepted

theorem respects_setData [Memory] (v : Value) : Respects (·.setData v) := by
  intro b b' accepted
  dsimp only [setData] at accepted
  split at accepted
  · cases accepted
  · obtain ⟨bytes, _, made⟩ := Result.bind_eq_ok.mp accepted
    exact respects_set bytes b b' made

theorem size_foldl {α : Type} {replace : Bytes → α → Bytes} (keeps : ∀ bytes a, (replace bytes a).size = bytes.size)
    (items : List α) (bytes : Bytes) : (items.foldl replace bytes).size = bytes.size := by
  induction items generalizing bytes with
  | nil => rfl
  | cons item rest ih => exact (ih _).trans (keeps bytes item)

theorem putWord_size (bytes : Bytes) (place : Nat) (word : UInt32) : (putWord bytes place word).size = bytes.size :=
  size_foldl (fun _ _ => Array.size_setIfInBounds ..) _ bytes

theorem setCells_size {b b' : Buffer} {target : Shape} {first : Nat} {elements : Shape × List UInt32}
    (made : b.setCells target first elements = .ok b') : b'.size = b.size := by
  unfold setCells at made
  dsimp only at made
  split at made
  · cases made
    exact size_foldl (fun _ _ => putWord_size ..) _ b.bytes
  · cases made

theorem respects_setElements (type : TensorType) (index : List Value) (v : Value) :
    Respects (·.setElements type index v) := by
  intro b b' accepted
  obtain ⟨_, _, accepted⟩ := Result.bind_eq_ok.mp accepted
  dsimp only at accepted
  split at accepted
  · cases accepted
  · rename_i writable
    split at accepted
    · cases accepted
    · obtain ⟨elements, _, made⟩ := Result.bind_eq_ok.mp accepted
      exact ⟨by simpa using writable, setCells_size made⟩

end Buffer

end TensorDag
