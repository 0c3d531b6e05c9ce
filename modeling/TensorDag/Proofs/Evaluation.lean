import Mathlib.Data.List.Forall2
import TensorDag.Kernel
import TensorDag.Proofs.Arena
import TensorDag.Proofs.Outcome
import TensorDag.Proofs.Stores

/-!
What nodes evaluate to, by recursion over their inputs: no plan, slot or buffer of a plan occurs here.
Each kernel of an interior node runs on a new buffer of its own.
-/
namespace TensorDag
open Result

/-- What a kernel writes into a new buffer of a node's size. -/
def Kernel.fresh [Memory] (kernel : Kernel) (n : Node) (args : List Bytes) : Result Bytes := do
  let zeros ← Bytes.cleared n.byteSize
  let written ← (kernel.run n args (Buffer.ofBytes zeros) []).1
  return written.getD zeros

namespace Node
variable [Memory] {leaf : Node → Result Bytes}

/-- What the host's kernel of a node makes of the values of its inputs. -/
def compute (n : Node) (args : List Bytes) : Result Bytes := do
  (← Kernels.standard.find n.kind .host).fresh n args

mutual

/-- The value of a node, the values of leaves being given. -/
def evaluate (leaf : Node → Result Bytes) : Node → Result Bytes
  | ⟨id, kind, inputs, params, type, buffer⟩ =>
    let n : Node := ⟨id, kind, inputs, params, type, buffer⟩
    if n.isLeaf then leaf n else do n.compute (← evaluateAll leaf inputs)

/-- The values of some nodes, in order. -/
def evaluateAll (leaf : Node → Result Bytes) : List Node → Result (List Bytes)
  | [] => .ok []
  | x :: rest => do
    let value ← evaluate leaf x
    return value :: (← evaluateAll leaf rest)

end

theorem evaluate_leaf {n : Node} (isLeaf : n.isLeaf) : evaluate leaf n = leaf n := by
  cases n
  rw [evaluate, if_pos isLeaf]

theorem evaluate_interior {n : Node} (interior : n.isLeaf = false) :
    evaluate leaf n = evaluateAll leaf n.inputs >>= n.compute := by
  cases n
  rw [evaluate, interior, if_neg Bool.false_ne_true]

theorem evaluateAll_eq_ok {nodes : List Node} {values : List Bytes} :
    evaluateAll leaf nodes = .ok values ↔ List.Forall₂ (fun n v => evaluate leaf n = .ok v) nodes values := by
  induction nodes generalizing values with
  | nil => simp [evaluateAll, eq_comm]
  | cons x rest ih =>
    rw [evaluateAll, List.forall₂_cons_left_iff]
    simp only [bind_eq_ok, pure_eq_ok, ih]
    constructor
    · rintro ⟨value, first, others, all, rfl⟩
      exact ⟨value, others, first, all, rfl⟩
    · rintro ⟨value, others, first, all, rfl⟩
      exact ⟨value, first, others, all, rfl⟩

theorem evaluateAll_returns {nodes : List Node}
    (values : ∀ n ∈ nodes, ∃ v, evaluate leaf n = .ok v) :
    ∃ vs, evaluateAll leaf nodes = .ok vs := by
  induction nodes with
  | nil => exact ⟨[], by rw [evaluateAll]⟩
  | cons x rest ih =>
    obtain ⟨value, first⟩ := values x (List.mem_cons_self ..)
    obtain ⟨others, all⟩ := ih fun n member => values n (List.mem_cons_of_mem _ member)
    exact ⟨value :: others, by simp [evaluateAll, first, all, bind, Except.bind, pure, Except.pure]⟩

theorem evaluate_input {nodes : List Node} {values : List Bytes}
    (all : evaluateAll leaf nodes = .ok values) {x : Node} (member : x ∈ nodes) :
    ∃ v, evaluate leaf x = .ok v := by
  induction nodes generalizing values with
  | nil => simp at member
  | cons head rest ih =>
    simp only [evaluateAll, bind_eq_ok] at all
    obtain ⟨value, first, others, later, _⟩ := all
    rcases List.mem_cons.mp member with same | member
    · exact ⟨value, same ▸ first⟩
    · exact ih later member

/-- The kernel of an interior node fails on the values of its inputs. -/
structure Faulty (leaf : Node → Result Bytes) (n : Node) : Prop where
  interior : n.isLeaf = false
  fails : ∃ args e, evaluateAll leaf n.inputs = .ok args ∧ n.compute args = .error e

/-- Where leaves have values and no inputs, a node has a value if and only if no kernel fails that it
reaches. -/
theorem evaluate_returns_iff {n : Node}
    (given : ∀ m, Reaches n m → m.isLeaf → (∃ v, leaf m = .ok v) ∧ m.inputs = []) :
    (∃ v, evaluate leaf n = .ok v) ↔ ∀ m, Reaches n m → ¬Faulty leaf m := by
  induction measure : sizeOf n using Nat.strongRecOn generalizing n with
  | ind size ih =>
    have inputs : ∀ x ∈ n.inputs, (∃ v, evaluate leaf x = .ok v) ↔
        ∀ m, Reaches x m → ¬Faulty leaf m := fun x input =>
      ih _ (measure ▸ sizeOf_input input) (fun m path => given m (.input input path)) rfl
    cases isLeaf : n.isLeaf with
    | true =>
      obtain ⟨value, bare⟩ := given n .self isLeaf
      rw [evaluate_leaf isLeaf]
      refine ⟨fun _ m path faulty => ?_, fun _ => value⟩
      cases path with
      | self => simpa [isLeaf] using faulty.interior
      | input input _ => simp [bare] at input
    | false =>
      rw [evaluate_interior isLeaf]
      constructor
      · rintro ⟨v, returned⟩ m path faulty
        obtain ⟨args, all, here⟩ := bind_eq_ok.mp returned
        cases path with
        | self =>
          obtain ⟨others, e, same, failed⟩ := faulty.fails
          cases all.symm.trans same
          cases here.symm.trans failed
        | input input path => exact (inputs _ input).mp (evaluate_input all input) m path faulty
      · intro sound
        have values : ∀ x ∈ n.inputs, ∃ v, evaluate leaf x = .ok v := fun x input =>
          (inputs x input).mpr fun m path => sound m (.input input path)
        obtain ⟨args, all⟩ := evaluateAll_returns values
        cases here : n.compute args with
        | ok v => exact ⟨v, bind_eq_ok.mpr ⟨args, all, here⟩⟩
        | error e => exact absurd ⟨isLeaf, args, e, all, here⟩ (sound n .self)

end Node

section
variable {kind : Kind} {n : Node} {args : List Bytes}

theorem find_host (kind : Kind) : Kernels.standard.find kind.name .host = .ok (.host kind) := by
  cases kind with
  | binary op => cases op <;> rfl
  | unary op => cases op <;> rfl
  | _ => rfl

theorem Bytes.cleared_eq_ok [Memory] {size : Nat} {zeros : Bytes} :
    Bytes.cleared size = .ok zeros ↔ Bytes.room size = .ok () ∧ Bytes.zeros size = zeros := by
  rw [Bytes.cleared, bind_unit_eq_ok, pure_eq_ok]

theorem Tensor.size_bytes (t : Tensor UInt32) : t.bytes.size = 4 * Shape.volume t.shape := by
  rw [Tensor.bytes, Bytes.size_ofWords, Tensor.cells, List.length_map, Shape.length_indices]

theorem Tensor.shape_fit {α : Type} (shape : Shape) (t : Tensor α) : (t.fit shape).shape = shape := by
  unfold Tensor.fit
  split
  · assumption
  · rfl

theorem Computed.size_of_store {c : Computed} {type : TensorType} {bytes : Bytes}
    (stored : c.store type = .ok bytes) : bytes.size = type.byteSize := by
  simp only [Computed.store] at stored
  split at stored
  · cases stored
    rw [Tensor.size_bytes, Tensor.shape_fit]
    exact Nat.mul_comm ..
  · cases stored

theorem Bytes.size_zeros (size : Nat) : (Buffer.ofBytes (Bytes.zeros size)).size = size := by
  simp [Buffer.size, Buffer.ofBytes, Bytes.zeros]

private theorem run_writable [Memory] (different : kind ≠ .uniform) {output : Buffer}
    (size : output.size = n.byteSize) (writable : output.readonly = false) (streams : Streams) :
    (Kernel.host kind).run n args output streams =
      ((kind.computed n args >>= fun c =>
        if n.shape.holdable then c.store n.type else .fault .notAddressable).map some, streams) := by
  have stored : ∀ c : Computed, c.storeIn n.type output =
      if n.shape.holdable then c.store n.type else .fault .notAddressable := by
    intro c
    have fits : ¬output.size ≠ n.type.byteSize := not_not.mpr size
    rw [Computed.storeIn, Buffer.accept, if_neg fits, writable, if_neg Bool.false_ne_true]
    rfl
  simp only [Kernel.run, stored]

/-- A kernel of the host other than that of samples writes the same into every buffer that takes it. -/
theorem Kernel.run_host [Memory] (different : kind ≠ .uniform) {output : Buffer}
    (size : output.size = n.byteSize) (writable : output.readonly = false)
    (room : Bytes.room n.byteSize = .ok ()) (streams : Streams) :
    (Kernel.host kind).run n args output streams =
      (((Kernel.host kind).fresh n args).map some, streams) := by
  have cleared : Bytes.cleared n.byteSize = .ok (Bytes.zeros n.byteSize) :=
    Bytes.cleared_eq_ok.mpr ⟨room, rfl⟩
  have zeros := Bytes.size_zeros n.byteSize
  rw [run_writable different size writable, Kernel.fresh, cleared]
  simp only [bind, Except.bind]
  rw [run_writable different zeros rfl]
  cases kind.computed n args with
  | error e => rfl
  | ok c => cases here : (if n.shape.holdable then c.store n.type else .fault .notAddressable) <;>
      simp [here, bind, Except.bind, Except.map, pure, Except.pure]

theorem Kernel.fresh_returns [Memory] (different : kind ≠ .uniform) {bytes : Bytes}
    (returned : (Kernel.host kind).fresh n args = .ok bytes) :
    Bytes.room n.byteSize = .ok () ∧ bytes.size = n.byteSize := by
  simp only [Kernel.fresh, bind_eq_ok, pure_eq_ok, Bytes.cleared_eq_ok] at returned
  obtain ⟨_, ⟨room, rfl⟩, written, here, rfl⟩ := returned
  have zeros := Bytes.size_zeros n.byteSize
  rw [run_writable different zeros rfl, map_eq_ok] at here
  obtain ⟨bytes, stored, rfl⟩ := here
  obtain ⟨c, _, stored⟩ := bind_eq_ok.mp stored
  split at stored
  · exact ⟨room, Computed.size_of_store stored⟩
  · cases stored

theorem Buffer.accept_eq_ok {output : Buffer} {size : Nat} {bytes : Result Bytes} {stored : Bytes}
    (accepted : output.accept size bytes = .ok stored) :
    output.size = size ∧ output.readonly = false ∧ bytes = .ok stored := by
  unfold Buffer.accept at accepted
  by_cases size : output.size = size
  · rw [if_neg (not_not_intro size)] at accepted
    cases flag : output.readonly with
    | true => simp [flag, Result.fault] at accepted
    | false => exact ⟨size, rfl, by simpa [flag] using accepted⟩
  · simp [size] at accepted

theorem Computed.storeIn_eq_ok {c : Computed} {type : TensorType} {output : Buffer} {bytes : Bytes}
    (stored : c.storeIn type output = .ok bytes) :
    bytes.size = output.size ∧ output.readonly = false := by
  obtain ⟨size, writable, stored⟩ := Buffer.accept_eq_ok stored
  split at stored
  · exact ⟨(Computed.size_of_store stored).trans size.symm, writable⟩
  · cases stored

/-- A kernel keeps the size of the buffer that it writes to, which is not a read-only one. -/
theorem Kernel.run_size [Memory] {kernel : Kernel} {output : Buffer} {streams : Streams} {bytes : Bytes}
    (returned : (kernel.run n args output streams).1 = .ok (some bytes)) :
    bytes.size = output.size ∧ output.readonly = false := by
  cases kernel with
  | custom name run =>
    obtain ⟨written, _, stored⟩ := bind_eq_ok.mp returned
    cases written with
    | none => cases stored
    | some given =>
      obtain ⟨kept, accepted, same⟩ := map_eq_ok.mp stored
      obtain ⟨size, writable, given⟩ := Buffer.accept_eq_ok accepted
      cases given
      cases same
      exact ⟨size.symm, writable⟩
  | host kind =>
    by_cases uniform : kind = .uniform
    · subst uniform
      simp only [Kernel.run] at returned
      cases drawn : streams.draw n with
      | error e => simp [drawn] at returned
      | ok made =>
        simp only [drawn] at returned
        obtain ⟨kept, stored, same⟩ := map_eq_ok.mp returned
        cases same
        exact Computed.storeIn_eq_ok stored
    · simp only [Kernel.run] at returned
      obtain ⟨kept, stored, same⟩ := map_eq_ok.mp returned
      obtain ⟨c, _, stored⟩ := bind_eq_ok.mp stored
      cases same
      exact Computed.storeIn_eq_ok stored

theorem Kernel.run_some [Memory] {output : Buffer} {streams : Streams} {result : Option Bytes}
    (returned : ((Kernel.host kind).run n args output streams).1 = .ok result) : ∃ bytes, result = some bytes := by
  cases kind with
  | uniform =>
    simp only [Kernel.run] at returned
    cases drawn : streams.draw n with
    | error e => simp [drawn] at returned
    | ok made =>
      simp only [drawn] at returned
      obtain ⟨bytes, _, rfl⟩ := map_eq_ok.mp returned
      exact ⟨bytes, rfl⟩
  | _ =>
    obtain ⟨bytes, _, rfl⟩ := map_eq_ok.mp returned
    exact ⟨bytes, rfl⟩

end
end TensorDag
