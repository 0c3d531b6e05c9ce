import TensorDag.Proofs.Words

/-!
Layouts undone. Transpositions one after another are one, by an order of axes after the other. What was transposed,
reshaped or padded comes back, word for word, through the inverse order, the former shape and the slice between the
margins.
-/
namespace TensorDag
open Program (bind_eq_ok)

namespace Shape
variable {p q order : List Nat} {rank : Nat} {s t : Shape}

def orderAfter (p q : List Nat) : List Nat := q.map fun axis => p.getD axis 0

theorem map_range_getD (l : List Nat) : (List.range l.length).map (fun k => l.getD k 0) = l :=
  List.ext_getElem (by simp) fun k _ below => by simp [below]

theorem orderAfter_perm (first : p.Perm (List.range rank)) (second : q.Perm (List.range rank)) :
    (orderAfter p q).Perm (List.range rank) := by
  have turned := second.map fun axis => p.getD axis 0
  have sizes : p.length = rank := by rw [first.length_eq, List.length_range]
  rw [← sizes, map_range_getD] at turned
  exact turned.trans first

theorem idxOf_orderAfter (first : p.Perm (List.range rank)) (second : q.Perm (List.range rank)) {k : Nat}
    (below : k < rank) : (orderAfter p q).idxOf k = q.idxOf (p.idxOf k) := by
  have sizes : p.length = rank := by rw [first.length_eq, List.length_range]
  have distinct : (orderAfter p q).Nodup := (orderAfter_perm first second).nodup_iff.mpr List.nodup_range
  have axis : p.idxOf k < p.length := List.idxOf_lt_length_iff.mpr (first.mem_iff.mpr (List.mem_range.mpr below))
  have place : q.idxOf (p.idxOf k) < q.length :=
    List.idxOf_lt_length_iff.mpr (second.mem_iff.mpr (List.mem_range.mpr (sizes ▸ axis)))
  have inside : q.idxOf (p.idxOf k) < (orderAfter p q).length := by rwa [orderAfter, List.length_map]
  have here : (orderAfter p q)[q.idxOf (p.idxOf k)] = k := by
    simp [orderAfter, List.getElem_idxOf, axis]
  have found := distinct.idxOf_getElem _ inside
  rwa [here] at found

theorem backward_backward (first : p.Perm (List.range rank)) (second : q.Perm (List.range rank)) (i : Index) :
    backward p rank (backward q rank i) = backward (orderAfter p q) rank i := by
  refine List.map_congr_left fun k below => ?_
  have below := List.mem_range.mp below
  have axis : p.idxOf k < rank := by
    have inside := List.idxOf_lt_length_iff.mpr (first.mem_iff.mpr (List.mem_range.mpr below))
    rwa [first.length_eq, List.length_range] at inside
  rw [getD_backward axis, idxOf_orderAfter first second below]

theorem inverseOrder_perm (perm : p.Perm (List.range s.length)) :
    (inverseOrder p s.length).Perm (List.range s.length) := by
  obtain ⟨axes, same, perm'⟩ := Operator.isPermutation_axes (Operator.isPermutation_inverse perm).1
  rwa [List.map_injective_iff.mpr (fun _ _ => Int.ofNat.inj) same]

theorem orderAfter_inverse (perm : p.Perm (List.range rank)) :
    orderAfter p (inverseOrder p rank) = List.range rank := by
  rw [orderAfter, inverseOrder, List.map_map]
  refine (List.map_congr_left fun k below => ?_).trans (List.map_id _)
  have inside := List.idxOf_lt_length_iff.mpr (perm.mem_iff.mpr below)
  simp [inside]

theorem dims_perm (perm : order.Perm (List.range s.length)) : (order.map fun axis => s.getD axis 0).Perm s := by
  have turned := perm.map fun axis => s.getD axis 0
  rwa [map_range_getD] at turned

theorem length_dims (perm : order.Perm (List.range s.length)) :
    (order.map fun axis => s.getD axis 0).length = s.length :=
  (dims_perm perm).length_eq

theorem dims_orderAfter (first : p.Perm (List.range s.length)) (second : q.Perm (List.range s.length)) :
    q.map (fun axis => (p.map fun axis => s.getD axis 0).getD axis 0) =
      (orderAfter p q).map fun axis => s.getD axis 0 := by
  rw [orderAfter, List.map_map]
  refine List.map_congr_left fun axis listed => ?_
  have below : axis < p.length := by
    rw [first.length_eq]
    exact List.length_range ▸ List.mem_range.mp (second.mem_iff.mp listed)
  simp [below]

theorem Holdable.perm (holdable : s.Holdable) (perm : s.Perm t) : t.Holdable :=
  ⟨perm.length_eq ▸ holdable.axes, volume_perm (perm.filter _) ▸ holdable.bytes⟩

theorem Within.contains : ∀ {lows : List Nat} {sizes dims : Shape} {i : Index}, Within lows sizes dims →
    Contains sizes i → Contains dims (List.zipWith (· + ·) lows i)
  | [], [], [], [], _, _ => trivial
  | _ :: _, _ :: _, _ :: _, _ :: _, ⟨here, within⟩, ⟨below, inside⟩ =>
    ⟨Nat.lt_of_lt_of_le (Nat.add_lt_add_left below _) here, within.contains inside⟩

theorem zipWith_add_sub : ∀ {lows s : List Nat}, lows.length = s.length →
    List.zipWith (· - ·) (List.zipWith (· + ·) lows s) lows = s
  | [], [], _ => rfl
  | low :: lows, dim :: s, sizes => by
    rw [List.zipWith_cons_cons, List.zipWith_cons_cons, zipWith_add_sub (Nat.succ.inj sizes), Nat.add_sub_cancel_left]

theorem inWindow_add : ∀ {lows : List Nat} {s : Shape} {i : Index}, lows.length = s.length → Contains s i →
    inWindow lows s (List.zipWith (· + ·) lows i) = true
  | [], [], [], _, _ => rfl
  | low :: lows, dim :: s, k :: i, sizes, ⟨below, inside⟩ => by
    have later := inWindow_add (Nat.succ.inj sizes) inside
    rw [inWindow] at later
    simp [inWindow, later, below]

end Shape

namespace Tensor
open Shape
variable {α : Type} {a b : Tensor α} {p q order before after : List Nat}

namespace Same

theorem transpose (same : a.Same b) (perm : order.Perm (List.range a.shape.length)) :
    (a.transpose order).Same (b.transpose order) := by
  constructor
  · simp only [Tensor.transpose, same.shape]
  · intro i inside
    simp only [Tensor.transpose, ← same.shape]
    exact same.cells _ (contains_backward perm inside)

theorem slice {start stop : List Nat} (same : a.Same b)
    (within : Within start (List.zipWith (· - ·) stop start) a.shape) :
    (a.slice start stop).Same (b.slice start stop) :=
  ⟨rfl, fun _ inside => same.cells _ (within.contains inside)⟩

end Same

theorem transpose_transpose (t : Tensor α) (first : p.Perm (List.range t.shape.length))
    (second : q.Perm (List.range t.shape.length)) : (t.transpose p).transpose q = t.transpose (orderAfter p q) := by
  refine congrArg₂ Tensor.mk (dims_orderAfter first second) (funext fun i => congrArg t.cell ?_)
  show backward p t.shape.length (backward q (p.map fun axis => t.shape.getD axis 0).length i) = _
  rw [length_dims first]
  exact backward_backward first second i

theorem transpose_range (t : Tensor α) : (t.transpose (List.range t.shape.length)).Same t := by
  have shape : (t.transpose (List.range t.shape.length)).shape = t.shape := map_range_getD t.shape
  refine ⟨shape, fun i inside => congrArg t.cell ?_⟩
  have long : i.length = t.shape.length := (shape ▸ inside).length
  refine (List.map_congr_left fun k below => ?_).trans (long ▸ map_range_getD i)
  have inside : k < (List.range t.shape.length).length := by
    rw [List.length_range]
    exact List.mem_range.mp below
  have here := List.nodup_range.idxOf_getElem k inside
  rw [List.getElem_range] at here
  rw [here]

theorem transpose_inverse (t : Tensor α) (perm : p.Perm (List.range t.shape.length)) :
    ((t.transpose p).transpose (inverseOrder p t.shape.length)).Same t := by
  rw [transpose_transpose t perm (inverseOrder_perm perm), orderAfter_inverse perm]
  exact transpose_range t

theorem reshape_reshape (t : Tensor α) {s : Shape} (volumes : volume s = volume t.shape) :
    ((t.reshape s).reshape t.shape).Same t := by
  refine ⟨rfl, fun i inside => ?_⟩
  have inside : Contains t.shape i := inside
  have below : offset t.shape i < volume s := volumes ▸ offset_lt_volume inside
  simp only [reshape]
  rw [offset_index below, index_offset inside]

theorem slice_pad [Zero α] (t : Tensor α) (fits : before.length = t.shape.length) :
    ((t.pad before after).slice before (List.zipWith (· + ·) before t.shape)).Same t := by
  have shape : ((t.pad before after).slice before (List.zipWith (· + ·) before t.shape)).shape = t.shape :=
    zipWith_add_sub fits
  refine ⟨shape, fun i inside => ?_⟩
  rw [shape] at inside
  refine (if_pos (inWindow_add fits inside)).trans (congrArg t.cell ?_)
  exact zipWith_add_sub (fits.trans inside.length.symm)

end Tensor

namespace Node
open Shape (orderAfter)
variable {leaf : Node → Result Bytes} {x y d : Node} {op op' : Operator} {bytes : Bytes}

/-- What comes back to the words of an input evaluates to them, if arrays can have the input and what is between. -/
theorem MovesCells.undone [Memory] (first : y.MovesCells op x) (second : d.MovesCells op' y) (typed : d.type = x.type)
    (fits : x.type.Fits)
    (between : y.type.Fits) (back : ∀ t u : Tensor UInt32, t.shape = x.shape → u.Same (op.tensor y.shape [t]) →
      (op'.tensor x.shape [u]).Same t) : d.Evaluates leaf bytes ↔ x.Evaluates leaf bytes := by
  have words : ∀ {a}, x.Evaluates leaf a → (Tensor.ofBytes x.shape a).bytes = a := fun value =>
    Tensor.bytes_ofBytes (value.2.trans (Nat.mul_comm ..))
  have whole : d.type.Fits := typed ▸ fits
  rw [first.worded.twice first.inputs second.worded second.inputs first.frugal second.frugal (fun _ _ => between)
    (h := fun t => t) fun t u shape same => Node.shape_eq typed ▸ back t u shape same]
  constructor
  · rintro ⟨_, a, value, _, rfl⟩
    rw [words value]
    exact value
  · exact fun value => ⟨whole, bytes, value, fits.holdable, words value⟩

/-- Transpositions one after another have the value of one. -/
theorem MovesCells.transposed [Memory] {m k n : Node} {p q : List Nat} (first : p.Perm (List.range x.shape.length))
    (second : q.Perm (List.range x.shape.length)) (once : n.MovesCells (.transpose (p.map Int.ofNat)) x)
    (twice : m.MovesCells (.transpose (q.map Int.ofNat)) n)
    (direct : k.MovesCells (.transpose ((orderAfter p q).map Int.ofNat)) x) (typed : m.type = k.type)
    (shape : n.shape = p.map fun axis => x.shape.getD axis 0)
    (shape' : m.shape = q.map fun axis => n.shape.getD axis 0) : m.Evaluates leaf bytes ↔ k.Evaluates leaf bytes := by
  have rank : n.shape.length = x.shape.length := shape ▸ Shape.length_dims first
  have turned : n.shape.Perm x.shape := shape ▸ Shape.dims_perm first
  have turned' : m.shape.Perm n.shape := shape' ▸ Shape.dims_perm (rank ▸ second)
  have fits : x.shape.Holdable → m.type.Fits → n.type.Fits := fun holdable whole =>
    ⟨holdable.perm turned.symm, (Nat.mul_le_mul_right 4 (Shape.volume_perm turned').ge).trans whole.room⟩
  rw [once.worded.twice once.inputs twice.worded twice.inputs once.frugal twice.frugal fits
    (h := fun t => (Operator.transpose ((orderAfter p q).map Int.ofNat)).tensor k.shape [t]) ?_, direct.evaluates_iff,
    typed]
  intro t u source same
  have perm : p.Perm (List.range t.shape.length) := source ▸ first
  have perm' : q.Perm (List.range t.shape.length) := source ▸ second
  simp only [Operator.tensor, Shape.toNat_ofNat] at same ⊢
  have rank' : u.shape.length = t.shape.length := same.shape ▸ Shape.length_dims perm
  rw [← t.transpose_transpose perm perm']
  exact same.transpose (rank' ▸ perm')

end Node

/-- The rule of a node, given the node as its gradient, answers with one node of the type and the value of the
input. -/
def Gradient.Restores [Memory] (w : Workspace) (x y : Node) : Prop :=
  ∃ rule d v, Rules.standard.find y.kind = .ok rule ∧ rule.run y (.node y) w = .ok [some d] v ∧ d.type = x.type ∧
    ∀ leaf bytes, d.Evaluates leaf bytes ↔ x.Evaluates leaf bytes

namespace Workspace
open Building (transpose reshape pad)
open Shape (orderAfter inverseOrder)
variable [Memory] {w v : Workspace} {x y n : Node}

theorem Forms.moves {op : Operator} {type : TensorType} (forms : w.Forms v n op [x] type)
    (moving : op.kind ∈ Kind.moving) (axes : op.kind = .pad → x.shape ≠ []) : n.MovesCells op x :=
  ⟨forms.formed, moving, forms.inputs, axes⟩

theorem Built.transposes {p : List Nat} (built : w.Built ShapeRules.Lasting) (own : x ∈ w.graph.nodes)
    (perm : p.Perm (List.range x.shape.length)) : ∃ n v, transpose (.node x) (.ints (p.map Int.ofNat)) w = .ok n v ∧
      w.Forms v n (.transpose (p.map Int.ofNat)) [x] ⟨x.elementType, p.map fun axis => x.shape.getD axis 0⟩ := by
  have permutes : Operator.isPermutation (p.map Int.ofNat) x.type.shape.length = true := by
    simp only [Operator.isPermutation, Bool.and_eq_true, decide_eq_true_eq, List.length_map, List.all_eq_true,
      List.contains_iff_mem]
    refine ⟨perm.length_eq.trans List.length_range, fun axis below => ?_⟩
    exact List.mem_map_of_mem (f := Int.ofNat) (perm.mem_iff.mpr below)
  obtain ⟨n, v, ran, forms⟩ := built.forms [x] (by simpa using own) (Kind.means_transpose (x := x.type) permutes)
  exact ⟨n, v, ran, { forms with typed := forms.typed.trans (congrArg (TensorType.mk _) List.map_map) }⟩

theorem Forms.transposed_dims {p : List Nat} {type : TensorType}
    (once : w.Forms v n (.transpose (p.map Int.ofNat)) [x] type) (perm : p.Perm (List.range x.shape.length)) :
    n.shape.Perm x.shape := by
  obtain ⟨_, types, _, typed⟩ := Operator.inferTranspose_eq_ok.mp once.formed.typed
  rw [once.inputs] at types
  cases types
  rw [Node.shape_eq typed.symm, List.map_map]
  exact Shape.dims_perm perm

theorem Forms.transposed_fits {p : List Nat} {type : TensorType}
    (once : w.Forms v n (.transpose (p.map Int.ofNat)) [x] type) (perm : p.Perm (List.range x.shape.length))
    (fits : x.type.Fits) : n.type.Fits := by
  have turned := once.transposed_dims perm
  exact ⟨fits.holdable.perm turned.symm, (Nat.mul_le_mul_right 4 (Shape.volume_perm turned).le).trans fits.room⟩

/-- Transpositions one after another are the one by the order after the other. -/
theorem Built.transposes_compose {p q : List Nat} (built : w.Built ShapeRules.Lasting) (own : x ∈ w.graph.nodes)
    (first : p.Perm (List.range x.shape.length)) (second : q.Perm (List.range x.shape.length)) :
    ∃ n w₁ m w₂ k w₃, transpose (.node x) (.ints (p.map Int.ofNat)) w = .ok n w₁ ∧
      transpose (.node n) (.ints (q.map Int.ofNat)) w₁ = .ok m w₂ ∧
        transpose (.node x) (.ints ((orderAfter p q).map Int.ofNat)) w₂ = .ok k w₃ ∧ m.type = k.type ∧
          ∀ leaf, (∀ bytes, m.evaluate leaf = .ok bytes ↔ k.evaluate leaf = .ok bytes) ∧
            (x.type.Fits → ∀ a, x.Evaluates leaf a → ∃ bytes, k.evaluate leaf = .ok bytes) := by
  obtain ⟨n, w₁, ran, once⟩ := built.transposes own first
  have shape : n.shape = p.map fun axis => x.shape.getD axis 0 := Node.shape_eq once.typed
  have rank : n.shape.length = x.shape.length := shape ▸ Shape.length_dims first
  obtain ⟨m, w₂, ran', twice⟩ := once.built.transposes once.member (rank ▸ second)
  obtain ⟨k, w₃, ran'', direct⟩ :=
    twice.built.transposes (twice.keeps.mem (once.keeps.mem own)) (Shape.orderAfter_perm first second)
  have typed : m.type = k.type := by
    rw [twice.typed, direct.typed, shape]
    exact congrArg₂ TensorType.mk (Node.elementType_eq once.typed) (Shape.dims_orderAfter first second)
  have moves : Kind.transpose ∈ Kind.moving := by decide
  refine ⟨n, w₁, m, w₂, k, w₃, ran, ran', ran'', typed, fun leaf => ⟨fun bytes => ?_, fun fits a value => ?_⟩⟩
  · rw [twice.formed.evaluate_iff nofun, direct.formed.evaluate_iff nofun]
    exact Node.MovesCells.transposed first second (once.moves moves nofun) (twice.moves moves nofun)
      (direct.moves moves nofun) typed shape (Node.shape_eq twice.typed)
  · have whole := direct.transposed_fits (Shape.orderAfter_perm first second) fits
    have evaluates := (direct.moves moves nofun).evaluates_iff.mpr ⟨whole, a, value, fits.holdable, rfl⟩
    exact ⟨_, evaluates.1⟩

/-- The rule of a transposition restores what was transposed. -/
theorem Forms.transposed_restored {p : List Nat} {type : TensorType}
    (once : w.Forms v n (.transpose (p.map Int.ofNat)) [x] type) (fits : x.type.Fits) : Gradient.Restores v x n := by
  obtain ⟨axes, same, perm, d, v', answer, forms⟩ :=
    Gradient.answers_transpose once.built once.formed once.inputs once.member rfl
  obtain rfl : p = axes := List.map_injective_iff.mpr (fun _ _ => Int.ofNat.inj) same
  have moves : Kind.transpose ∈ Kind.moving := by decide
  refine ⟨.standard .transpose, d, v', ?_, answer, forms.typed, fun leaf bytes => ?_⟩
  · rw [once.formed.named]
    rfl
  have between := once.transposed_fits perm fits
  refine (once.moves moves nofun).undone (forms.moves moves nofun) forms.typed fits between fun t u source same => ?_
  have perm : p.Perm (List.range t.shape.length) := source ▸ perm
  simp only [Operator.tensor, Shape.toNat_ofNat, ← source] at same ⊢
  have inverts : (Shape.inverseOrder p t.shape.length).Perm (List.range u.shape.length) := by
    rw [same.shape, show (t.transpose p).shape.length = t.shape.length from Shape.length_dims perm]
    exact Shape.inverseOrder_perm perm
  exact (same.transpose inverts).trans (t.transpose_inverse perm)

/-- Reshaped and reshaped back, a node has its value. -/
theorem Built.reshaped_back {s : Shape} {u : Value} (built : w.Built ShapeRules.Lasting) (own : x ∈ w.graph.nodes)
    (lists : u.Lists (s.map Int.ofNat)) (volumes : Shape.volume s = Shape.volume x.shape) :
    ∃ y w₁ z w₂, reshape (.node x) u w = .ok y w₁ ∧ reshape (.node y) (.dims x.shape) w₁ = .ok z w₂ ∧
      z.type = x.type ∧
        (x.type.Fits → s.Holdable → ∀ leaf bytes, z.Evaluates leaf bytes ↔ x.Evaluates leaf bytes) := by
  obtain ⟨y, w₁, ran, once⟩ := built.forms [x] (by simpa using own) (Kind.means_reshape (x := x.type) lists volumes)
  have shape : y.shape = s := Node.shape_eq once.typed
  have back : Shape.volume x.shape = Shape.volume y.type.shape := by
    rw [show y.type.shape = s from shape, volumes]
  obtain ⟨z, w₂, ran', twice⟩ := once.built.forms [y] (by simpa using once.member)
    (Kind.means_reshape (x := y.type) (Value.lists_dims x.shape) back)
  have typed : z.type = x.type := Node.type_eq twice.typed (Node.elementType_eq once.typed)
  have moves : Kind.reshape ∈ Kind.moving := by decide
  refine ⟨y, w₁, z, w₂, ran, ran', typed, fun fits holdable leaf bytes => ?_⟩
  have between : y.type.Fits := ⟨show y.shape.Holdable from shape ▸ holdable,
    (Nat.mul_le_mul_right 4 back.ge).trans fits.room⟩
  refine (once.moves moves nofun).undone (twice.moves moves nofun) typed fits between fun t u source same => ?_
  simp only [Operator.tensor] at same ⊢
  have known : Shape.volume x.shape = Shape.volume u.shape := by
    rw [same.shape]
    exact back
  rw [← source] at known ⊢
  exact (same.reshape known).trans (t.reshape_reshape (by rw [shape, volumes, source]))

/-- The rule of margins restores what has them. -/
theorem Forms.padded_restored {before after : List Nat} {type : TensorType}
    (once : w.Forms v n (.pad (before.map Int.ofNat) (after.map Int.ofNat)) [x] type) (axes : x.shape ≠ [])
    (positive : ∀ d ∈ x.shape, 1 ≤ d) (fits : x.type.Fits) (between : n.type.Fits) : Gradient.Restores v x n := by
  obtain ⟨d, v', answer, forms⟩ :=
    Gradient.answers_pad once.built once.formed once.inputs once.member rfl positive
  refine ⟨.standard .pad, d, v', ?_, answer, forms.typed, fun leaf bytes => ?_⟩
  · rw [once.formed.named]
    rfl
  refine (once.moves (show Kind.pad ∈ Kind.moving by decide) fun _ => axes).undone
    (forms.moves (show Kind.slice ∈ Kind.moving by decide) nofun) forms.typed fits between fun t u source same => ?_
  have sizes : before.length = t.shape.length ∧ after.length = t.shape.length := by
    obtain ⟨_, types, sizes, _, _⟩ := Operator.inferPad_eq_ok.mp once.formed.typed
    rw [once.inputs] at types
    cases types
    rwa [List.length_map, List.length_map, TensorType.rank, show x.type.shape = t.shape from source.symm] at sizes
  have stops :
      (List.zipWith (fun (low : Int) (dim : Nat) => low + dim) (before.map Int.ofNat) t.shape).map Int.toNat =
        List.zipWith (· + ·) before t.shape := by
    rw [List.zipWith_map_left, List.map_zipWith]
    rfl
  simp only [Operator.tensor, Shape.toNat_ofNat, ← source] at same ⊢
  rw [stops]
  refine (same.slice ?_).trans (t.slice_pad sizes.1)
  rw [same.shape]
  have cut : List.zipWith (· - ·) (List.zipWith (· + ·) before t.shape) before = t.shape :=
    Shape.zipWith_add_sub sizes.1
  rw [cut]
  exact Shape.within_margins sizes.1 sizes.2

/-- Transpositions compose, and what was transposed, reshaped or padded comes back: by the rule of the transposition,
under the shape that it had, and by the rule of the margins. -/
theorem Built.layouts_undone (built : w.Built ShapeRules.Lasting) (own : x ∈ w.graph.nodes) :
    (∀ p q : List Nat, p.Perm (List.range x.shape.length) → q.Perm (List.range x.shape.length) → ∃ n w₁ m w₂ k w₃,
      transpose (.node x) (.ints (p.map Int.ofNat)) w = .ok n w₁ ∧
        transpose (.node n) (.ints (q.map Int.ofNat)) w₁ = .ok m w₂ ∧
          transpose (.node x) (.ints ((orderAfter p q).map Int.ofNat)) w₂ = .ok k w₃ ∧ m.type = k.type ∧
            ∀ leaf, (∀ bytes, m.evaluate leaf = .ok bytes ↔ k.evaluate leaf = .ok bytes) ∧
              (x.type.Fits → ∀ a, x.Evaluates leaf a → ∃ bytes, k.evaluate leaf = .ok bytes)) ∧
      (∀ p : List Nat, p.Perm (List.range x.shape.length) → ∃ n v,
        transpose (.node x) (.ints (p.map Int.ofNat)) w = .ok n v ∧ (x.type.Fits → Gradient.Restores v x n)) ∧
      (∀ (s : Shape) (u : Value), u.Lists (s.map Int.ofNat) → Shape.volume s = Shape.volume x.shape → ∃ y w₁ z w₂,
        reshape (.node x) u w = .ok y w₁ ∧ reshape (.node y) (.dims x.shape) w₁ = .ok z w₂ ∧ z.type = x.type ∧
          (x.type.Fits → s.Holdable → ∀ leaf bytes, z.Evaluates leaf bytes ↔ x.Evaluates leaf bytes)) ∧
      (x.shape ≠ [] → (∀ d ∈ x.shape, 1 ≤ d) → ∀ (before after : List Nat) (low high : Value),
        before.length = x.shape.length → after.length = x.shape.length → low.Lists (before.map Int.ofNat) →
          high.Lists (after.map Int.ofNat) → ∃ n v, pad (.node x) low high w = .ok n v ∧
            n.type = ⟨x.elementType, List.zipWith (· + ·) (List.zipWith (· + ·) before x.shape) after⟩ ∧
              (x.type.Fits → n.type.Fits → Gradient.Restores v x n)) := by
  refine ⟨fun p q first second => built.transposes_compose own first second, fun p perm => ?_,
    fun s u lists volumes => built.reshaped_back own lists volumes,
    fun axes positive before after low high sizes sizes' lists lists' => ?_⟩
  · obtain ⟨n, v, ran, forms⟩ := built.transposes own perm
    exact ⟨n, v, ran, forms.transposed_restored⟩
  · have padded : List.zipWith (· + ·) (List.zipWith (· + ·) ((before.map Int.ofNat).map Int.toNat) x.type.shape)
        ((after.map Int.ofNat).map Int.toNat) =
          List.zipWith (· + ·) (List.zipWith (· + ·) before x.shape) after := by
      rw [Shape.toNat_ofNat, Shape.toNat_ofNat]
      rfl
    obtain ⟨n, v, ran, forms⟩ := built.forms [x] (by simpa using own) (Kind.means_pad (x := x.type) lists lists'
      ((List.length_map ..).trans sizes) ((List.length_map ..).trans sizes') (by simp) (by simp) padded)
    exact ⟨n, v, ran, forms.typed, forms.padded_restored axes positive⟩

end Workspace

namespace Sample
open Building (transpose reshape pad)

/-! Real elements along three axes of different sizes. -/

def cuboid : Node := ⟨⟨0, 0⟩, "placeholder", [], [], ⟨.float32, [2, 3, 4]⟩, none⟩

def cuboidWorkspace : Workspace := ⟨.standard, ⟨0, .null, #[cuboid], []⟩, .empty⟩

theorem cuboidWorkspace_built : cuboidWorkspace.Built ShapeRules.Lasting := by
  have first : Building.placeholder (.dims [2, 3, 4]) (.elementType .float32) ⟨.standard, .empty 0 .null, .empty⟩ =
      .ok cuboid cuboidWorkspace := rfl
  exact Workspace.built_empty.placeholder first

/-- Axes moved on by one and then the first two exchanged are the axes in reverse; and all that is laid out anew
comes back. -/
theorem layouts_undone_cuboid :
    (∃ n w₁ m w₂ k w₃, transpose (.node cuboid) (.ints [1, 2, 0]) cuboidWorkspace = .ok n w₁ ∧
      transpose (.node n) (.ints [1, 0, 2]) w₁ = .ok m w₂ ∧
        transpose (.node cuboid) (.ints [2, 1, 0]) w₂ = .ok k w₃ ∧ m.type = k.type ∧ ∃ bytes,
          m.evaluate (fun x => .ok (Bytes.zeros x.byteSize)) = .ok bytes ∧
            k.evaluate (fun x => .ok (Bytes.zeros x.byteSize)) = .ok bytes) ∧
      (∃ n v, transpose (.node cuboid) (.ints [1, 2, 0]) cuboidWorkspace = .ok n v ∧ Gradient.Restores v cuboid n) ∧
      (∃ y w₁ z w₂, reshape (.node cuboid) (.dims [6, 4]) cuboidWorkspace = .ok y w₁ ∧
        reshape (.node y) (.dims [2, 3, 4]) w₁ = .ok z w₂ ∧
          ∀ leaf bytes, z.Evaluates leaf bytes ↔ cuboid.Evaluates leaf bytes) ∧
      ∃ n v, pad (.node cuboid) (.dims [1, 0, 2]) (.dims [0, 1, 0]) cuboidWorkspace = .ok n v ∧
        Gradient.Restores v cuboid n := by
  have fits : cuboid.type.Fits := ⟨Shape.holdable_iff.mp (by decide), by decide⟩
  obtain ⟨composes, restores, back, padded⟩ := cuboidWorkspace_built.layouts_undone (x := cuboid)
    (by simp [cuboidWorkspace])
  refine ⟨?_, ?_, ?_, ?_⟩
  · obtain ⟨n, w₁, m, w₂, k, w₃, ran, ran', ran'', typed, agrees⟩ :=
      composes [1, 2, 0] [1, 0, 2] (by decide) (by decide)
    obtain ⟨values, returns⟩ := agrees fun x => .ok (Bytes.zeros x.byteSize)
    obtain ⟨bytes, value⟩ := returns fits (Bytes.zeros 96) ⟨rfl, rfl⟩
    exact ⟨n, w₁, m, w₂, k, w₃, ran, ran', ran'', typed, bytes, (values bytes).mpr value, value⟩
  · obtain ⟨n, v, ran, restored⟩ := restores [1, 2, 0] (by decide)
    exact ⟨n, v, ran, restored fits⟩
  · obtain ⟨y, w₁, z, w₂, ran, ran', _, same⟩ := back [6, 4] _ (Value.lists_dims _) rfl
    exact ⟨y, w₁, z, w₂, ran, ran', same fits (Shape.holdable_iff.mp (by decide))⟩
  · obtain ⟨n, v, ran, typed, restored⟩ := padded nofun (by decide) [1, 0, 2] [0, 1, 0] _ _ rfl rfl
      (Value.lists_dims _) (Value.lists_dims _)
    exact ⟨n, v, ran, restored fits (typed ▸ ⟨Shape.holdable_iff.mp (by decide), by decide⟩)⟩

/-! A single cell under a shape of more axes than arrays have, and under its own again. -/

def singleInt : Node := ⟨⟨0, 0⟩, "placeholder", [], [], ⟨.int32, [1]⟩, none⟩
def reshapedTo65Axes : Node :=
  ⟨⟨0, 1⟩, "reshape", [singleInt], [("shape", .dims (List.replicate 65 1))], ⟨.int32, List.replicate 65 1⟩, none⟩
def reshapedBack : Node := ⟨⟨0, 2⟩, "reshape", [reshapedTo65Axes], [("shape", .dims [1])], ⟨.int32, [1]⟩, none⟩

def reshapeWorkspace (nodes : Array Node) (memo : List (MemoKey × Node)) : Workspace :=
  ⟨.standard, ⟨0, .null, nodes, memo⟩, .empty⟩

theorem reshapeWorkspace_built : (reshapeWorkspace #[singleInt] []).Built ShapeRules.Lasting := by
  have first : Building.placeholder (.dims [1]) (.elementType .int32) ⟨.standard, .empty 0 .null, .empty⟩ =
      .ok singleInt (reshapeWorkspace #[singleInt] []) := rfl
  exact Workspace.built_empty.placeholder first

/-- A shape of as many cells that no array has does not give the cells back. -/
theorem reshape_lost :
    (reshapeWorkspace #[singleInt] []).Built ShapeRules.Lasting ∧
      singleInt ∈ (reshapeWorkspace #[singleInt] []).graph.nodes ∧
      Shape.volume (List.replicate 65 1) = Shape.volume singleInt.shape ∧
      (∃ v u, reshape (.node singleInt) (.dims (List.replicate 65 1)) (reshapeWorkspace #[singleInt] []) =
        .ok reshapedTo65Axes v ∧ reshape (.node reshapedTo65Axes) (.dims [1]) v = .ok reshapedBack u) ∧
      singleInt.evaluate (fun _ => .ok (Bytes.zeros 4)) = .ok (Bytes.zeros 4) ∧
      reshapedBack.evaluate (fun _ => .ok (Bytes.zeros 4)) = .fault .notAddressable :=
  ⟨reshapeWorkspace_built, by simp [reshapeWorkspace], by decide, ⟨_, _, rfl, rfl⟩, rfl, rfl⟩

end Sample
end TensorDag
