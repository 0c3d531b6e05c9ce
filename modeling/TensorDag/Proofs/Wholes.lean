import TensorDag.Proofs.Agreement
import TensorDag.Proofs.Pairing

/-!
Values of whole elements. The bytes that a kernel writes are read back as the tensor that it has computed, so that
the value of a node is known from the values of its inputs.
-/
namespace TensorDag
open Result (bind_eq_ok)

/-! Words in bytes. -/

namespace Bytes

theorem toWord_ofWord (w : UInt32) :
    toWord w.toUInt8 (w >>> 8).toUInt8 (w >>> 16).toUInt8 (w >>> 24).toUInt8 = w := by
  apply UInt32.eq_of_toBitVec_eq
  ext i below
  simp [toWord, -UInt32.toUInt32_toUInt8]
  rw [← BitVec.getLsbD_eq_getElem below]
  -- the bit lies in one of the four bytes
  grind

theorem word_cons (w : UInt32) (words : List UInt32) : (ofWords (w :: words)).word 0 = w :=
  toWord_ofWord w

theorem word_cons_succ (w : UInt32) (words : List UInt32) (place : Nat) :
    (ofWords (w :: words)).word (place + 1) = (ofWords words).word place := by
  have later : ∀ k, (ofWords (w :: words)).getD (k + 4) 0 = (ofWords words).getD k 0 := fun k => by
    simp [ofWords, ofWord, Array.getD_eq_getD_getElem?]
  simp only [word, ← later]
  rfl

theorem word_ofWords : ∀ {words : List UInt32} {place : Nat} {w : UInt32}, words[place]? = some w →
    (ofWords words).word place = w
  | first :: rest, 0, w, here => by
    cases here
    exact word_cons first rest
  | first :: rest, place + 1, w, here => by
    rw [word_cons_succ]
    exact word_ofWords here

end Bytes

/-! Tensors of the same cells. -/

namespace Tensor
open Shape

namespace Same
variable {α : Type} {a b c : Tensor α} {s : Shape}

theorem refl (a : Tensor α) : a.Same a := ⟨rfl, fun _ _ => rfl⟩

theorem trans (first : a.Same b) (second : b.Same c) : a.Same c :=
  ⟨first.shape.trans second.shape, fun index inside =>
    (first.cells index inside).trans (second.cells index (first.shape ▸ inside))⟩

theorem reshape (same : a.Same b) (volumes : volume s = volume a.shape) : (a.reshape s).Same (b.reshape s) := by
  refine ⟨rfl, fun index inside => ?_⟩
  have below : offset s index < volume a.shape := volumes ▸ offset_lt_volume inside
  simp only [Tensor.reshape, ← same.shape]
  exact same.cells _ (contains_index below)

theorem broadcast (same : a.Same b) (stretches : Stretches a.shape s) : (a.broadcast s).Same (b.broadcast s) := by
  refine ⟨rfl, fun index inside => ?_⟩
  simp only [Tensor.broadcast, ← same.shape]
  exact same.cells _ (stretches.contains inside)

theorem zipWith {β : Type} {a' b' : Tensor α} (f : α → α → β) (same : a.Same b) (same' : a'.Same b')
    (stretches : Stretches a.shape s) (stretches' : Stretches a'.shape s) :
    (Tensor.zipWith f s a a').Same (Tensor.zipWith f s b b') := by
  refine ⟨rfl, fun index inside => ?_⟩
  simp only [Tensor.zipWith, ← same.shape, ← same'.shape]
  rw [same.cells _ (stretches.contains inside), same'.cells _ (stretches'.contains inside)]

theorem sum [Zero α] [Add α] (same : a.Same b) (axes : List Nat) : (a.sum axes).Same (b.sum axes) := by
  by_cases none : axes = []
  · simpa only [Tensor.sum, if_pos none] using same
  · simp only [Tensor.sum, if_neg none, ← same.shape]
    refine ⟨rfl, fun index outer => total_congr fun inner inside => same.cells _ ?_⟩
    rw [keep_eq] at outer
    rw [select_eq] at inside
    exact contains_merge outer inside

end Same

theorem dot_same {S : Type} [CommRing S] {a a' b b' : Tensor S} (first : a.Same a') (second : b.Same b')
    (shape : a.shape = b.shape) : dot a b = dot a' b' := by
  rw [dot, dot, ← second.shape]
  refine Finset.sum_congr rfl fun i inside => ?_
  have inside := Shape.mem_box.mp inside
  rw [first.cells i (shape ▸ inside), second.cells i inside]

/-- The tensor of whole elements that bytes hold. -/
def whole (shape : Shape) (bytes : Bytes) : Tensor Int32 := (ofBytes shape bytes).map UInt32.toInt32

theorem whole_bytes (t : Tensor Int32) : (whole t.shape (t.map Int32.toUInt32).bytes).Same t := by
  refine ⟨rfl, fun index inside => ?_⟩
  have inside : Contains t.shape index := inside
  have listed : (t.map Int32.toUInt32).cells[offset t.shape index]? = some (t.cell index).toUInt32 := by
    rw [cells, List.getElem?_map, show (t.map Int32.toUInt32).shape = t.shape from rfl, indices_offset inside]
    rfl
  simp only [whole, map, ofBytes]
  exact (congrArg UInt32.toInt32 (Bytes.word_ofWords listed)).trans (Int32.toInt32_toUInt32 _)

end Tensor

/-- Types of which a tensor can be had at once. -/
structure TensorType.Fits [Memory] (type : TensorType) : Prop where
  holdable : type.shape.Holdable
  room : type.byteSize ≤ Memory.capacity

theorem TensorType.Fits.of_room [Memory] {type : TensorType} {itemSize : Nat} (large : 4 ≤ itemSize)
    (room : type.shape.room itemSize = .ok ()) : type.Fits := by
  obtain ⟨holdable, room⟩ := Shape.room_eq_ok.mp room
  exact ⟨holdable.mono large, (Nat.mul_comm .. ▸ Nat.mul_le_mul_right _ large).trans room⟩

theorem ElementType.common?_eq {e : ElementType} {types : List ElementType} (some : types ≠ [])
    (all : ∀ e' ∈ types, e' = e) : ElementType.common? types = .some e := by
  cases types with
  | nil => exact absurd rfl some
  | cons first rest =>
    obtain ⟨rfl, others⟩ := List.forall_mem_cons.mp all
    exact if_pos (by simpa using others)

theorem Kind.elementType?_eq {kind : Kind} {types : List TensorType} {e : ElementType} (some : types ≠ [])
    (reads : 0 ∈ kind.readPlaces) (all : ∀ t ∈ types, t.elementType = e) : kind.elementType? types = .some e := by
  refine ElementType.common?_eq (fun none => ?_) fun e' listed => ?_
  · obtain ⟨t, rest, rfl⟩ := List.exists_cons_of_ne_nil some
    cases List.filterMap_eq_nil_iff.mp none 0 reads
  · obtain ⟨place, _, found⟩ := List.mem_filterMap.mp listed
    obtain ⟨t, here, rfl⟩ := Option.map_eq_some_iff.mp found
    exact all t (List.mem_of_getElem? here)

/-- The kinds that ask for nothing besides their inputs and their result. -/
def Kind.frugal : List Kind :=
  [.reshape, .transpose, .slice, .pad, .repeated, .broadcast, .sum, .maxElement]

theorem Operator.afford_frugal [Memory] {op : Operator} {type : TensorType} {result : Shape}
    (frugal : op.kind ∈ Kind.frugal) : op.afford [type] result = .ok () := by
  have reads : ∀ kind ∈ Kind.frugal, 0 ∈ kind.readPlaces := by decide
  have read : op.kind.elementType? [type] = some type.elementType :=
    Kind.elementType?_eq (by simp) (reads _ frugal) (by simp)
  rw [afford_eq_ok, read]
  cases op with
  | reshape | transpose | slice | pad | repeated | broadcast | sum | maxElement =>
    cases type.elementType <;> exact ⟨nofun, List.forall_mem_nil _⟩
  | _ => simp [Kind.frugal, kind] at frugal

namespace Node
variable [Memory] {leaf : Node → Result Bytes} {n x : Node} {op : Operator} {t : Tensor Int32}

/-- A node evaluates to bytes of its size. -/
def Evaluates (leaf : Node → Result Bytes) (n : Node) (bytes : Bytes) : Prop :=
  evaluate leaf n = .ok bytes ∧ bytes.size = n.byteSize

/-- A node evaluates to bytes that hold a tensor of whole elements. -/
def Holds (leaf : Node → Result Bytes) (n : Node) (t : Tensor Int32) : Prop :=
  ∃ bytes, n.Evaluates leaf bytes ∧ (Tensor.whole n.shape bytes).Same t

theorem Evaluates.holds {bytes : Bytes} (evaluates : n.Evaluates leaf bytes) :
    n.Holds leaf (Tensor.whole n.shape bytes) :=
  ⟨bytes, evaluates, .refl _⟩

theorem Holds.same {t' : Tensor Int32} (holds : n.Holds leaf t) (same : t.Same t') : n.Holds leaf t' := by
  obtain ⟨bytes, evaluates, held⟩ := holds
  exact ⟨bytes, evaluates, held.trans same⟩

/-- Nodes of whole elements and the bytes that they evaluate to. -/
structure Given (leaf : Node → Result Bytes) (x : Node) (bytes : Bytes) : Prop where
  evaluates : x.Evaluates leaf bytes
  whole : x.elementType = .int32
  holdable : x.shape.Holdable

theorem supplied_whole {args : List Bytes} (given : List.Forall₂ (Given leaf) n.inputs args) :
    n.Supplied (argument n.inputs args) (List.zipWith (fun x bytes => Tensor.whole x.shape bytes) n.inputs args) := by
  have lengths := given.length_eq
  refine ⟨List.ext_getElem (by simp [lengths]) fun i _ _ => by simp [Tensor.whole, Tensor.map, Tensor.ofBytes],
    fun place t here => ?_⟩
  obtain ⟨x, bytes, listed, at_arg, same⟩ := List.getElem?_zipWith_eq_some.mp here
  obtain ⟨inside, at_input⟩ := List.getElem?_eq_some_iff.mp listed
  obtain ⟨inside', found⟩ := List.getElem?_eq_some_iff.mp at_arg
  have pair := given.get inside inside'
  rw [List.get_eq_getElem, List.get_eq_getElem, at_input, found] at pair
  obtain ⟨⟨_, size⟩, whole, holdable⟩ := pair
  simp only [argument, at_arg, listed, if_neg (not_not_intro size), if_pos (Shape.holdable_iff.mpr holdable), whole]
  exact congrArg Except.ok same

namespace Formed

/-- What a node's operator makes of whole elements is the value of the node. -/
theorem holds_computed {args : List Bytes} (formed : n.Formed op) (whole : n.elementType = .int32)
    (fits : n.type.Fits) (given : List.Forall₂ (Given leaf) n.inputs args) (reads : 0 ∈ op.kind.readPlaces)
    (admits : op.Admits (n.inputs.map Node.type)) (afforded : op.afford (n.inputs.map Node.type) n.shape = .ok ())
    (some : n.inputs ≠ [])
    (computed : op.computeWhole n.shape (argument n.inputs args) = .ok (.of t)) (shape : t.shape = n.shape) :
    n.Holds leaf t := by
  have sampling : op.kind ≠ .uniform := by
    intro same
    rw [same] at reads
    cases reads
  have all : ∀ x ∈ n.inputs, x.elementType = .int32 := by
    intro x member
    obtain ⟨i, inside, rfl⟩ := List.getElem_of_mem member
    exact (given.get inside (given.length_eq ▸ inside)).whole
  have types : op.kind.elementType? (n.inputs.map Node.type) = .some .int32 :=
    Kind.elementType?_eq (by simpa using some) reads (List.forall_mem_map.mpr all)
  have result : op.kind.result n args [] = .ok (.of t) := by
    rw [Kind.result, if_neg sampling, Kind.computed, types]
    exact formed.computedWith_runAt admits afforded computed fun _ => shape
  have stored : Computed.storeIn (.of t) n.type (.ofBytes (Bytes.zeros n.byteSize)) =
      .ok (t.map Int32.toUInt32).bytes := by
    have made := Computed.storeIn_eq (c := .of t) (fun _ => shape) fits.holdable (Bytes.size_zeros n.byteSize) rfl
    rw [show n.type.elementType = .int32 from whole] at made
    exact made
  have evaluated : evaluate leaf n = .ok (t.map Int32.toUInt32).bytes := by
    have values : evaluateAll leaf n.inputs = .ok args :=
      evaluateAll_eq_ok.mpr (given.imp fun _ _ pair => pair.evaluates.1)
    have kernel : Kernels.standard.find n.kind .host = .ok (.host op.kind) := formed.named ▸ find_host op.kind
    have written : ((Kernel.host op.kind).run n args (.ofBytes (Bytes.zeros n.byteSize)) []).1 =
        .ok (.some (t.map Int32.toUInt32).bytes) := by
      rw [Kernel.run_result, result]
      exact congrArg (Except.map Option.some) stored
    have cleared := Bytes.cleared_eq_ok.mpr ⟨Bytes.room_eq_ok.mpr fits.room, rfl⟩
    rw [evaluate_interior formed.isLeaf]
    refine bind_eq_ok.mpr ⟨args, values, bind_eq_ok.mpr ⟨_, kernel, bind_eq_ok.mpr ⟨_, cleared, ?_⟩⟩⟩
    exact bind_eq_ok.mpr ⟨_, written, rfl⟩
  refine ⟨_, ⟨evaluated, ?_⟩, shape ▸ Tensor.whole_bytes t⟩
  rw [Tensor.size_bytes, show (t.map Int32.toUInt32).shape = n.shape from shape]
  exact Nat.mul_comm ..

/-- What only moves, adds, subtracts and multiplies whole elements holds the tensor of its operator. -/
theorem holds_tensor {args : List Bytes} (formed : n.Formed op) (whole : n.elementType = .int32) (fits : n.type.Fits)
    (given : List.Forall₂ (Given leaf) n.inputs args) (polynomial : op.kind ∈ Kind.polynomial)
    (other : op.kind ≠ .softmaxGradient) (admits : op.Admits (n.inputs.map Node.type))
    (afforded : op.afford (n.inputs.map Node.type) n.shape = .ok ()) :
    n.Holds leaf (op.tensor n.shape (List.zipWith (fun x bytes => Tensor.whole x.shape bytes) n.inputs args)) := by
  have supplied := supplied_whole given
  obtain ⟨computed, shape⟩ := formed.compute_tensor fits.holdable polynomial (absurd · other) supplied
  have run : ∀ arg, op.computeWhole n.shape arg = op.compute n.shape arg := by
    intro arg
    cases op with
    | softmax => exact absurd polynomial (by decide)
    | _ => rfl
  have reads : ∀ kind ∈ Kind.polynomial, 0 ∈ kind.readPlaces := by decide
  have some : n.inputs ≠ [] := by
    intro none
    have shaped := formed.shaped polynomial
    rw [none] at shaped
    cases op <;> exact shaped.elim
  exact formed.holds_computed whole fits given (reads _ polynomial) admits afforded some ((run _).trans computed) shape

end Formed
end Node
end TensorDag
