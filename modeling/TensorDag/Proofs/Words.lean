import TensorDag.Proofs.Layouts

/-!
Values in words. A node has a value just where its inputs have values and arrays can have their shapes and its own;
its words are then made of theirs, and an operator that only moves cells moves words, whatever they stand for.
-/
namespace TensorDag
open Result (bind_eq_ok)

/-! Bytes and the words in them. -/

namespace Bytes

theorem ofWord_toWord (a b c d : UInt8) : ofWord (toWord a b c d) = [a, b, c, d] := by
  have byte : ∀ {x y : UInt8}, (∀ i < 8, x.toBitVec.getLsbD i = y.toBitVec.getLsbD i) → x = y := fun same =>
    UInt8.eq_of_toBitVec_eq (BitVec.eq_of_getLsbD_eq same)
  have first : (toWord a b c d).toUInt8 = a := byte fun i below => by
    simp [toWord, -UInt32.toUInt32_toUInt8, below]
  have second : (toWord a b c d >>> 8).toUInt8 = b := byte fun i below => by
    simp [toWord, -UInt32.toUInt32_toUInt8]
    grind
  have third : (toWord a b c d >>> 16).toUInt8 = c := byte fun i below => by
    simp [toWord, -UInt32.toUInt32_toUInt8]
    grind
  have fourth : (toWord a b c d >>> 24).toUInt8 = d := byte fun i below => by
    simp [toWord, -UInt32.toUInt32_toUInt8]
    grind
  rw [ofWord, first, second, third, fourth]

/-- Bytes of whole words are the bytes of their words. -/
theorem ofWords_words {bytes : Bytes} {count : Nat} (size : bytes.size = 4 * count) :
    ofWords ((List.range count).map bytes.word) = bytes := by
  apply Array.ext'
  refine List.ext_getElem? fun place => ?_
  rw [ofWords, List.flatMap_map, List.toList_toArray]
  by_cases inside : place < 4 * count
  · have listed : ∀ k < 4 * count, bytes.toList[k]? = some (bytes.getD k 0) := fun k below => by
      simp [Array.getD_eq_getD_getElem?, size ▸ below]
    have split : place = place / 4 * 4 + place % 4 := by omega
    have last : place % 4 = 0 ∨ place % 4 = 1 ∨ place % 4 = 2 ∨ place % 4 = 3 := by omega
    rw [listed place inside, split, Shape.getElem?_blocks (fun i => ofWord (bytes.word i)) 4 (fun _ => rfl) (by omega)
      (by omega), word, ofWord_toWord, Nat.mul_comm (place / 4)]
    rcases last with same | same | same | same <;> rw [same] <;> rfl
  · rw [List.getElem?_eq_none, List.getElem?_eq_none]
    · simpa [size] using Nat.not_lt.mp inside
    · rw [Shape.length_blocks (fun i => ofWord (bytes.word i)) 4 fun _ => rfl]
      omega

end Bytes

namespace Tensor
variable {α β : Type}

theorem ofBytes_bytes (t : Tensor UInt32) : (ofBytes t.shape t.bytes).Same t := by
  refine ⟨rfl, fun index inside => Bytes.word_ofWords ?_⟩
  have inside : Shape.Contains t.shape index := inside
  rw [cells, List.getElem?_map, Shape.indices_offset inside]
  rfl

theorem cells_ofBytes (s : Shape) (bytes : Bytes) :
    (ofBytes s bytes).cells = (List.range (Shape.volume s)).map bytes.word := by
  rw [cells, show (ofBytes s bytes).shape = s from rfl, Shape.indices_eq, List.map_map]
  refine List.map_congr_left fun place below => ?_
  exact congrArg bytes.word (Shape.offset_index (List.mem_range.mp below))

theorem bytes_ofBytes {s : Shape} {bytes : Bytes} (size : bytes.size = 4 * Shape.volume s) :
    (ofBytes s bytes).bytes = bytes :=
  (congrArg Bytes.ofWords (cells_ofBytes s bytes)).trans (Bytes.ofWords_words size)

theorem Same.words {a b : Tensor UInt32} {s : Shape} (same : a.Same b) (shape : a.shape = s) :
    (ofBytes s a.bytes).Same b :=
  shape ▸ (ofBytes_bytes a).trans same

end Tensor

/-- The kinds that only move cells of one input. -/
def Kind.moving : List Kind := [.reshape, .transpose, .slice, .pad, .repeated, .broadcast]

namespace Operator
variable {S T : Type} [Zero S] [Add S] [Sub S] [Mul S] [Neg S] [Zero T] [Add T] [Sub T] [Mul T] [Neg T]

theorem tensor_moves {op : Operator} (moving : op.kind ∈ Kind.moving) {f : S → T} (zero : f 0 = 0) (s : Shape)
    (a : Tensor S) : (op.tensor s [a]).map f = op.tensor s [a.map f] := by
  cases op with
  | pad before after =>
    simp only [tensor, Tensor.map, Tensor.pad, apply_ite f, zero]
    rfl
  | reshape | transpose | slice | repeated | broadcast => rfl
  | _ => simp [Kind.moving, Operator.kind] at moving

end Operator

/-- Elements that are words of a type, read and written without loss. -/
structure Element.Kept (α : Type) [Element α] (e : ElementType) : Prop where
  word : ∀ w, Element.toWord e (Element.ofWord e w : α) = w
  element : ∀ a : α, Element.ofWord e (Element.toWord e a) = a
  zero : Element.toWord e (0 : α) = 0

theorem Element.kept_whole : Element.Kept Int32 .int32 := ⟨UInt32.toUInt32_toInt32, Int32.toInt32_toUInt32, rfl⟩

theorem Element.kept_single : Element.Kept Single .float32 := ⟨fun _ => rfl, fun _ => rfl, rfl⟩

/-- Bytes can be read as a tensor of a node's type. -/
structure Node.Accepts (x : Node) (bytes : Bytes) : Prop where
  size : bytes.size = x.byteSize
  holdable : x.shape.Holdable

/-- An argument is there if it has the size of the input and arrays can have its shape. -/
theorem argument_eq_ok {α : Type} [Element α] {inputs : List Node} {args : List Bytes} {place : Nat} {t : Tensor α} :
    argument inputs args place = .ok t ↔ ∃ x bytes, inputs[place]? = some x ∧ args[place]? = some bytes ∧
      x.Accepts bytes ∧ (Tensor.ofBytes x.shape bytes).map (Element.ofWord x.elementType) = t := by
  unfold argument
  constructor
  · intro read
    split at read
    · rename_i bytes x given listed
      split at read
      · cases read
      · rename_i size
        split at read
        · rename_i holdable
          exact ⟨x, bytes, listed, given, ⟨not_not.mp size, Shape.holdable_iff.mp holdable⟩, Except.ok.inj read⟩
        · cases read
    · cases read
  · rintro ⟨x, bytes, listed, given, ⟨size, holdable⟩, rfl⟩
    simp only [listed, given, if_neg (not_not_intro size), if_pos (Shape.holdable_iff.mpr holdable)]

namespace Node
variable {leaf : Node → Result Bytes} {n : Node} {op : Operator} {args : List Bytes} {bytes : Bytes}

/-- A node evaluates to what its kernel computes of the values of its inputs, if arrays can have its type. -/
theorem Formed.evaluate_eq_ok [Memory] (formed : n.Formed op) (sampling : op.kind ≠ .uniform) :
    n.evaluate leaf = .ok bytes ↔ n.type.Fits ∧ ∃ args,
      List.Forall₂ (fun x a => x.evaluate leaf = .ok a) n.inputs args ∧
        ∃ c, op.kind.computed n args = .ok c ∧ c.store n.type = .ok bytes := by
  have kernel : Kernels.standard.find n.kind .host = .ok (.host op.kind) := formed.named ▸ find_host op.kind
  have written : ∀ args, ((Kernel.host op.kind).run n args (.ofBytes (Bytes.zeros n.byteSize)) []).1 =
      (op.kind.computed n args >>= fun c => c.storeIn n.type (.ofBytes (Bytes.zeros n.byteSize))).map some := by
    intro args
    rw [Kernel.run_result, Kind.result, if_neg sampling]
  have stored : ∀ c : Computed, c.storeIn n.type (.ofBytes (Bytes.zeros n.byteSize)) =
      if n.type.shape.holdable then c.store n.type else .fault .notAddressable := fun c => by
    have size : (Buffer.ofBytes (Bytes.zeros n.byteSize)).size = n.type.byteSize := Bytes.size_zeros n.byteSize
    rw [Computed.storeIn, Buffer.accept, if_neg (not_not_intro size),
      show (Buffer.ofBytes (Bytes.zeros n.byteSize)).readonly = false from rfl, if_neg Bool.false_ne_true]
  rw [evaluate_interior formed.isLeaf]
  constructor
  · intro evaluated
    obtain ⟨args, values, computed⟩ := bind_eq_ok.mp evaluated
    obtain ⟨_, found, computed⟩ := bind_eq_ok.mp computed
    cases kernel.symm.trans found
    obtain ⟨zeros, cleared, computed⟩ := bind_eq_ok.mp computed
    obtain ⟨room, rfl⟩ := Bytes.cleared_eq_ok.mp cleared
    obtain ⟨_, ran, made⟩ := bind_eq_ok.mp computed
    rw [written] at ran
    obtain ⟨out, result, rfl⟩ := Result.map_eq_ok.mp ran
    obtain ⟨c, known, put⟩ := bind_eq_ok.mp result
    cases made
    rw [stored] at put
    split at put
    · rename_i holdable
      exact ⟨⟨Shape.holdable_iff.mp holdable, Bytes.room_eq_ok.mp room⟩, args, evaluateAll_eq_ok.mp values, c, known,
        put⟩
    · cases put
  · rintro ⟨fits, args, values, c, known, put⟩
    have cleared := Bytes.cleared_eq_ok.mpr ⟨Bytes.room_eq_ok.mpr fits.room, rfl⟩
    have ran : ((Kernel.host op.kind).run n args (.ofBytes (Bytes.zeros n.byteSize)) []).1 = .ok (some bytes) := by
      refine (written args).trans (Result.map_eq_ok.mpr ⟨bytes, bind_eq_ok.mpr ⟨c, known, ?_⟩, rfl⟩)
      rw [stored, if_pos (Shape.holdable_iff.mpr fits.holdable), put]
    refine bind_eq_ok.mpr ⟨args, evaluateAll_eq_ok.mpr values, bind_eq_ok.mpr ⟨_, kernel, ?_⟩⟩
    exact bind_eq_ok.mpr ⟨_, cleared, bind_eq_ok.mpr ⟨_, ran, rfl⟩⟩

theorem Formed.evaluates [Memory] (formed : n.Formed op) (sampling : op.kind ≠ .uniform)
    (value : n.evaluate leaf = .ok bytes) : n.Evaluates leaf bytes := by
  obtain ⟨_, _, _, _, _, put⟩ := (formed.evaluate_eq_ok sampling).mp value
  exact ⟨value, Computed.size_of_store put⟩

theorem Formed.evaluate_iff [Memory] (formed : n.Formed op) (sampling : op.kind ≠ .uniform) :
    n.evaluate leaf = .ok bytes ↔ n.Evaluates leaf bytes :=
  ⟨formed.evaluates sampling, And.left⟩

end Node

/-- An operator that looks at all inputs of a node, and makes the node's words of theirs. -/
structure Operator.Rewords (α : Type) [Element α] (op : Operator) (n : Node)
    (f : List (Tensor UInt32) → Tensor UInt32) : Prop where
  reads : ∀ {arg : Nat → Result (Tensor α)} {c : Computed}, op.compute n.shape arg = .ok c →
    ∀ i < n.inputs.length, ∃ t, arg i = .ok t
  makes : n.shape.Holdable → ∀ {arg : Nat → Result (Tensor α)} {ts : List (Tensor α)}, n.Supplied arg ts →
    ∃ t : Tensor α, op.compute n.shape arg = .ok (.of t) ∧ t.shape = n.shape ∧
      t.map (Element.toWord n.elementType) = f (ts.map fun t => t.map (Element.toWord n.elementType))

/-- A node whose operator is defined on its inputs, which have elements of the type of its own, and makes its words of
theirs. -/
structure Node.Worded (n : Node) (op : Operator) (f : List (Tensor UInt32) → Tensor UInt32) : Prop where
  formed : n.Formed op
  admits : op.Admits (n.inputs.map Node.type)
  still : op.kind ∉ Kind.sliding
  plain : op ≠ .softmax
  looks : 0 ∈ op.kind.readPlaces
  some : n.inputs ≠ []
  typed : ∀ x ∈ n.inputs, x.elementType = n.elementType
  whole : n.elementType = .int32 → op.Rewords Int32 n f
  single : n.elementType = .float32 → op.Rewords Single n f

namespace Node
variable {leaf : Node → Result Bytes} {n : Node} {op : Operator} {args : List Bytes} {bytes : Bytes}

def words (inputs : List Node) (args : List Bytes) : List (Tensor UInt32) :=
  List.zipWith (fun x a => Tensor.ofBytes x.shape a) inputs args

/-- The tensors that are read from accepted bytes. -/
theorem supplied_accepted {α : Type} [Element α] {e : ElementType} (kept : Element.Kept α e)
    (typed : ∀ x ∈ n.inputs, x.elementType = e) (accepted : List.Forall₂ Accepts n.inputs args) :
    ∃ ts : List (Tensor α), n.Supplied (argument n.inputs args) ts ∧
      (ts.map fun t => t.map (Element.toWord e)) = words n.inputs args := by
  have lengths := accepted.length_eq
  refine ⟨List.zipWith (fun x a => (Tensor.ofBytes x.shape a).map (Element.ofWord x.elementType)) n.inputs args,
    ⟨?_, fun place t here => ?_⟩, ?_⟩
  · exact List.ext_getElem (by simp [lengths]) fun i _ _ => by simp [Tensor.map, Tensor.ofBytes]
  · obtain ⟨x, a, listed, given, rfl⟩ := List.getElem?_zipWith_eq_some.mp here
    obtain ⟨inside, at_input⟩ := List.getElem?_eq_some_iff.mp listed
    obtain ⟨inside', at_arg⟩ := List.getElem?_eq_some_iff.mp given
    have pair := accepted.get inside inside'
    rw [List.get_eq_getElem, List.get_eq_getElem, at_input, at_arg] at pair
    exact argument_eq_ok.mpr ⟨x, a, listed, given, pair, rfl⟩
  · refine List.ext_getElem (by simp [words]) fun i _ _ => ?_
    have own := typed (n.inputs.get ⟨i, by simp_all⟩) (List.get_mem ..)
    rw [List.get_eq_getElem] at own
    simp [words, Tensor.map, Tensor.ofBytes, own, kept.word]

namespace Worded
variable {f : List (Tensor UInt32) → Tensor UInt32}

theorem sampling (worded : n.Worded op f) : op.kind ≠ .uniform := by
  intro same
  have looks := worded.looks
  rw [same] at looks
  cases looks

/-- The kernel of a node reads its inputs as elements of one type. -/
theorem computed_eq [Memory] (worded : n.Worded op f) (args : List Bytes) :
    (n.elementType = .int32 → op.kind.computed n args =
      Operator.runAt n Operator.compute op n.shape (argument n.inputs args : Nat → Result (Tensor Int32))) ∧
        (n.elementType = .float32 → op.kind.computed n args =
          Operator.runAt n Operator.compute op n.shape (argument n.inputs args : Nat → Result (Tensor Single))) := by
  have types : op.kind.elementType? (n.inputs.map Node.type) = .some n.elementType :=
    Kind.elementType?_eq (by simpa using worded.some) worded.looks (List.forall_mem_map.mpr worded.typed)
  have suited : op.Suited (n.inputs.map Node.type) n.shape :=
    ⟨worded.admits, fun slides => absurd slides worded.still⟩
  have run : ∀ arg, op.computeWhole n.shape arg = op.compute n.shape arg := by
    intro arg
    cases op with
    | softmax => exact absurd rfl worded.plain
    | _ => rfl
  constructor
  · intro int
    rw [Kind.computed, types, int]
    refine (worded.formed.computedWith_eq suited _ _).trans ?_
    rw [Operator.runAt, Operator.runAt, run]
  · intro single
    rw [Kind.computed, types, single]
    exact worded.formed.computedWith_eq suited _ _

/-- What is computed was read from bytes that the inputs accept, and could be afforded. -/
theorem accepts_of_computed [Memory] {c : Computed} (worded : n.Worded op f) (long : args.length = n.inputs.length)
    (held : n.shape.Holdable) (computed : op.kind.computed n args = .ok c) :
    List.Forall₂ Accepts n.inputs args ∧ op.afford (n.inputs.map Node.type) n.shape = .ok () := by
  have reads : ∀ {α : Type} [Element α], Element.Kept α n.elementType → op.Rewords α n f →
      Operator.runAt n Operator.compute op n.shape (argument n.inputs args : Nat → Result (Tensor α)) = .ok c →
        List.Forall₂ Accepts n.inputs args ∧ op.afford (n.inputs.map Node.type) n.shape = .ok () := by
    intro α _ kept rewords computed
    obtain ⟨ran, afforded⟩ := Operator.runAt_eq_ok.mp computed
    have accepted : List.Forall₂ Accepts n.inputs args := by
      refine List.forall₂_iff_get.mpr ⟨long.symm, fun i inside inside' => ?_⟩
      obtain ⟨t, given⟩ := rewords.reads ran i inside
      obtain ⟨x, a, listed, at_arg, accepts, _⟩ := argument_eq_ok.mp given
      rw [List.getElem?_eq_getElem inside] at listed
      rw [List.getElem?_eq_getElem inside'] at at_arg
      cases listed
      cases at_arg
      exact accepts
    obtain ⟨ts, supplied, _⟩ := supplied_accepted kept worded.typed accepted
    obtain ⟨t, known, shape, _⟩ := rewords.makes held supplied
    cases ran.symm.trans known
    exact ⟨accepted, shape ▸ afforded⟩
  cases element : n.elementType with
  | int32 =>
    exact reads (element ▸ Element.kept_whole) (worded.whole element) ((worded.computed_eq args).1 element ▸ computed)
  | float32 =>
    exact reads (element ▸ Element.kept_single) (worded.single element) ((worded.computed_eq args).2 element ▸ computed)

/-- The words that are made of accepted bytes. -/
theorem computed_words [Memory] (worded : n.Worded op f) (held : n.shape.Holdable)
    (afforded : op.afford (n.inputs.map Node.type) n.shape = .ok ()) (accepted : List.Forall₂ Accepts n.inputs args) :
    ∃ c, op.kind.computed n args = .ok c ∧ c n.elementType = f (words n.inputs args) ∧
      (f (words n.inputs args)).shape = n.shape := by
  have makes : ∀ {α : Type} [Element α], Element.Kept α n.elementType → op.Rewords α n f →
      ∃ c, Operator.runAt n Operator.compute op n.shape (argument n.inputs args : Nat → Result (Tensor α)) = .ok c ∧
        c n.elementType = f (words n.inputs args) ∧ (f (words n.inputs args)).shape = n.shape := by
    intro α _ kept rewords
    obtain ⟨ts, supplied, same⟩ := supplied_accepted kept worded.typed accepted
    obtain ⟨t, computed, shape, made⟩ := rewords.makes held supplied
    rw [same] at made
    exact ⟨_, Operator.runAt_eq_ok.mpr ⟨computed, shape.symm ▸ afforded⟩, made, made ▸ shape⟩
  cases element : n.elementType with
  | int32 =>
    rw [(worded.computed_eq args).1 element, ← element]
    exact makes (element ▸ Element.kept_whole) (worded.whole element)
  | float32 =>
    rw [(worded.computed_eq args).2 element, ← element]
    exact makes (element ▸ Element.kept_single) (worded.single element)

/-- A node evaluates to the words that are made of those of its inputs, just where these have values, arrays can have
their shapes and the node's type, and what the operator asks for can be had. -/
theorem evaluates_iff [Memory] (worded : n.Worded op f) : n.Evaluates leaf bytes ↔
    (n.type.Fits ∧ op.afford (n.inputs.map Node.type) n.shape = .ok ()) ∧ ∃ args,
      List.Forall₂ (fun x a => x.Evaluates leaf a ∧ x.shape.Holdable) n.inputs args ∧
        (f (words n.inputs args)).bytes = bytes := by
  have stored : ∀ {args : List Bytes} {c : Computed}, c n.elementType = f (words n.inputs args) →
      (f (words n.inputs args)).shape = n.shape → c.store n.type = .ok (f (words n.inputs args)).bytes := by
    intro args c made shape
    have shape : (f (words n.inputs args)).shape = n.type.shape := shape
    have made : c n.type.elementType = f (words n.inputs args) := made
    rw [Computed.store, made, if_pos (.inl shape), Tensor.fit, if_pos shape]
  constructor
  · rintro ⟨value, _⟩
    obtain ⟨fits, args, values, c, computed, put⟩ := (worded.formed.evaluate_eq_ok worded.sampling).mp value
    obtain ⟨accepted, afforded⟩ := worded.accepts_of_computed values.length_eq.symm fits.holdable computed
    obtain ⟨_, known, made, shape⟩ := worded.computed_words fits.holdable afforded accepted
    cases computed.symm.trans known
    refine ⟨⟨fits, afforded⟩, args, ?_, Except.ok.inj ((stored made shape).symm.trans put)⟩
    exact values.mp (fun x a value accepts => ⟨⟨value, accepts.size⟩, accepts.holdable⟩) accepted
  · rintro ⟨⟨fits, afforded⟩, args, values, rfl⟩
    have accepted : List.Forall₂ Accepts n.inputs args := values.imp fun x a both => ⟨both.1.2, both.2⟩
    obtain ⟨c, known, made, shape⟩ := worded.computed_words fits.holdable afforded accepted
    exact worded.formed.evaluates worded.sampling ((worded.formed.evaluate_eq_ok worded.sampling).mpr
      ⟨fits, args, values.imp fun x a both => both.1.1, c, known, stored made shape⟩)

end Worded

/-- A node whose operator makes a tensor of whole elements of another one, the only one that it looks at. -/
theorem Formed.worded_single {x : Node} {f : List (Tensor UInt32) → Tensor UInt32} (formed : n.Formed op)
    (make : Tensor Int32 → Tensor Int32) (inputs : n.inputs = [x]) (admits : op.Admits [x.type])
    (still : op.kind ∉ Kind.sliding) (plain : op ≠ .softmax) (looks : 0 ∈ op.kind.readPlaces)
    (whole : x.elementType = .int32) (element : n.elementType = .int32)
    (reads : ∀ {arg : Nat → Result (Tensor Int32)} {c : Computed}, op.compute n.shape arg = .ok c → ∃ t, arg 0 = .ok t)
    (computed : ∀ {arg : Nat → Result (Tensor Int32)} {a : Tensor Int32}, arg 0 = .ok a → a.shape = x.shape →
      op.compute n.shape arg = .ok (.of (make a)))
    (shape : ∀ {a : Tensor Int32}, a.shape = x.shape → (make a).shape = n.shape)
    (words : ∀ u, f [u] = (make (u.map UInt32.toInt32)).map Int32.toUInt32) : n.Worded op f := by
  refine ⟨formed, by simpa [inputs], still, plain, looks, by simp [inputs],
    by simp [inputs, whole, element], fun _ => ⟨?_, ?_⟩, fun single => absurd (element.symm.trans single) nofun⟩
  · intro arg c made i below
    rw [inputs] at below
    obtain rfl : i = 0 := by simpa using below
    exact reads made
  · intro _ arg ts supplied
    have shapes := supplied.shapes
    rw [inputs] at shapes
    obtain ⟨a, rest, rfl, same, none⟩ := List.map_eq_cons_iff.mp shapes
    cases List.map_eq_nil_iff.mp none
    refine ⟨make a, computed (supplied.given 0 a rfl) same, shape same, ?_⟩
    have back : (a.map (Element.toWord .int32)).map UInt32.toInt32 = a := by
      simp [Tensor.map, Element.toWord]
    rw [element, List.map_singleton, words, back]
    rfl

/-- A node that moves the cells of its input. Only what has axes is padded. -/
structure MovesCells (n : Node) (op : Operator) (x : Node) : Prop where
  formed : n.Formed op
  moving : op.kind ∈ Kind.moving
  inputs : n.inputs = [x]
  axes : op.kind = .pad → x.shape ≠ []

theorem MovesCells.worded {x : Node} (moves : n.MovesCells op x) : n.Worded op (op.tensor n.shape) := by
  obtain ⟨formed, moving, inputs, axes⟩ := moves
  have layout : ∀ kind ∈ Kind.moving, kind ∈ Kind.layout ∧ kind ∈ Kind.polynomial ∧ kind ≠ .softmaxGradient ∧
      0 ∈ kind.readPlaces := by decide
  obtain ⟨layout, polynomial, other, looks⟩ := layout _ moving
  have rewords : ∀ {α : Type} [Element α], Element.Kept α n.elementType → op.Rewords α n (op.tensor n.shape) := by
    intro α _ kept
    constructor
    · intro arg c computed i below
      rw [inputs] at below
      obtain rfl : i = 0 := by simpa using below
      cases given : arg 0 with
      | ok t => exact ⟨t, rfl⟩
      | error e =>
        cases op with
        | reshape | transpose | slice | pad | repeated | broadcast =>
          simp only [Operator.compute, Operator.polynomial?, given] at computed
          cases computed
        | _ => simp [Kind.moving, Operator.kind] at moving
    · intro held arg ts supplied
      obtain ⟨computed, shape⟩ := formed.compute_tensor held polynomial (absurd · other) supplied
      have one : ts.length = 1 := by
        have shapes := congrArg List.length supplied.shapes
        rwa [inputs, List.length_map] at shapes
      obtain ⟨t, rfl⟩ := List.length_eq_one_iff.mp one
      exact ⟨_, computed, shape, Operator.tensor_moves moving kept.zero n.shape t⟩
  have element : x.elementType = n.elementType := by
    have typed := formed.typed
    rw [inputs] at typed
    exact (Operator.infer_layout layout typed).symm
  refine ⟨formed, ?_, ?_, ?_, looks, ?_, ?_, fun e => rewords (e ▸ Element.kept_whole),
    fun e => rewords (e ▸ Element.kept_single)⟩
  · rw [inputs]
    cases op with
    | pad => exact axes rfl
    | reshape | transpose | slice | repeated | broadcast => trivial
    | _ => simp [Kind.moving, Operator.kind] at moving
  · have still : ∀ kind ∈ Kind.moving, kind ∉ Kind.sliding := by decide
    exact still _ moving
  · rintro rfl
    simp [Kind.moving, Operator.kind] at moving
  · simp [inputs]
  · simp [inputs, element]

theorem Worded.evaluates_one [Memory] {x : Node} {f : List (Tensor UInt32) → Tensor UInt32} (worded : n.Worded op f)
    (inputs : n.inputs = [x]) : n.Evaluates leaf bytes ↔ (n.type.Fits ∧ op.afford [x.type] n.shape = .ok ()) ∧
      ∃ a, x.Evaluates leaf a ∧ x.shape.Holdable ∧ (f [Tensor.ofBytes x.shape a]).bytes = bytes := by
  rw [worded.evaluates_iff, inputs]
  refine and_congr_right fun _ => ⟨?_, ?_⟩
  · rintro ⟨_, values, made⟩
    obtain ⟨a, _, ⟨value, holdable⟩, none, rfl⟩ := List.forall₂_cons_left_iff.mp values
    cases none
    exact ⟨a, value, holdable, made⟩
  · rintro ⟨a, value, holdable, made⟩
    exact ⟨[a], .cons ⟨value, holdable⟩ .nil, made⟩

theorem Worded.evaluates_frugal [Memory] {x : Node} {f : List (Tensor UInt32) → Tensor UInt32} (worded : n.Worded op f)
    (inputs : n.inputs = [x]) (frugal : op.kind ∈ Kind.frugal) : n.Evaluates leaf bytes ↔ n.type.Fits ∧
      ∃ a, x.Evaluates leaf a ∧ x.shape.Holdable ∧ (f [Tensor.ofBytes x.shape a]).bytes = bytes := by
  rw [worded.evaluates_one inputs, and_iff_left (Operator.afford_frugal frugal)]

/-- Words that are made of words made of those of an input, if arrays can have what is made between. -/
theorem Worded.twice [Memory] {m x : Node} {op' : Operator} {f g : List (Tensor UInt32) → Tensor UInt32}
    {h : Tensor UInt32 → Tensor UInt32} (first : n.Worded op f) (inputs : n.inputs = [x]) (second : m.Worded op' g)
    (inputs' : m.inputs = [n]) (frugal : op.kind ∈ Kind.frugal) (frugal' : op'.kind ∈ Kind.frugal)
    (fits : x.shape.Holdable → m.type.Fits → n.type.Fits)
    (same : ∀ t u, t.shape = x.shape → u.Same (f [t]) → (g [u]).Same (h t)) : m.Evaluates leaf bytes ↔ m.type.Fits ∧
      ∃ a, x.Evaluates leaf a ∧ x.shape.Holdable ∧ (h (Tensor.ofBytes x.shape a)).bytes = bytes := by
  have step : ∀ {a}, n.type.Fits → x.Evaluates leaf a → x.shape.Holdable →
      (g [Tensor.ofBytes n.shape (f [Tensor.ofBytes x.shape a]).bytes]).bytes =
        (h (Tensor.ofBytes x.shape a)).bytes := by
    intro a fits value holdable
    have accepted : List.Forall₂ Accepts n.inputs [a] := by
      rw [inputs]
      exact .cons ⟨value.2, holdable⟩ .nil
    have afforded : op.afford (n.inputs.map Node.type) n.shape = .ok () := by
      rw [inputs]
      exact Operator.afford_frugal frugal
    obtain ⟨_, _, _, shape⟩ := first.computed_words fits.holdable afforded accepted
    rw [words, inputs] at shape
    exact (same _ _ rfl (.words (.refl _) shape)).bytes_eq
  rw [second.evaluates_frugal inputs' frugal']
  refine and_congr_right fun whole => ⟨?_, ?_⟩
  · rintro ⟨_, value, _, rfl⟩
    obtain ⟨between, a, given, holdable, rfl⟩ := (first.evaluates_frugal inputs frugal).mp value
    exact ⟨a, given, holdable, (step between given holdable).symm⟩
  · rintro ⟨a, given, holdable, rfl⟩
    have between := fits holdable whole
    exact ⟨_, (first.evaluates_frugal inputs frugal).mpr ⟨between, a, given, holdable, rfl⟩, between.holdable,
      step between given holdable⟩

theorem MovesCells.frugal {x : Node} (moves : n.MovesCells op x) : op.kind ∈ Kind.frugal := by
  have frugal : ∀ kind ∈ Kind.moving, kind ∈ Kind.frugal := by decide
  exact frugal _ moves.moving

theorem MovesCells.evaluates_iff [Memory] {x : Node} (moves : n.MovesCells op x) : n.Evaluates leaf bytes ↔
    n.type.Fits ∧
    ∃ a, x.Evaluates leaf a ∧ x.shape.Holdable ∧ (op.tensor n.shape [Tensor.ofBytes x.shape a]).bytes = bytes :=
  moves.worded.evaluates_frugal moves.inputs moves.frugal

end Node
end TensorDag
