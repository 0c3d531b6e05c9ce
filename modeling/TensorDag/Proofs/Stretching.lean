import TensorDag.Proofs.Unknown
import TensorDag.Proofs.Words

/-!
Operands that are stretched. Two shapes stretch to a least common one, unless axes at one place from the end differ
and neither has one cell. An elementwise operation then makes the same words of its operands, whether it stretches
them itself or they have been stretched before.
-/
namespace TensorDag
open Result (bind_eq_ok)

namespace Shape
variable {a b s t : Shape}

/-- The least shape to which two shapes stretch. -/
structure Meets (a b s : Shape) : Prop where
  left : Stretches a s
  right : Stretches b s
  least : ∀ t, Stretches a t → Stretches b t → Stretches s t

/-- Two axes at one place from the end differ, and neither has one cell. -/
def Clash (a b : Shape) : Prop :=
  ∃ i d e : Nat, a.reverse[i]? = some d ∧ b.reverse[i]? = some e ∧ d ≠ e ∧ d ≠ 1 ∧ e ≠ 1

/-- Axes given last axis first, each of one cell or of the size of that above it. -/
def Under : List Nat → List Nat → Prop
  | [], _ => True
  | _ :: _, [] => False
  | d :: as, e :: ss => (d = e ∨ d = 1) ∧ Under as ss

theorem under_iff : ∀ {as ss : List Nat}, Under as ss ↔
    ∃ front back, ss = front ++ back ∧ List.Forall₂ (fun d e => d = e ∨ d = 1) as front
  | [], ss => ⟨fun _ => ⟨[], ss, rfl, .nil⟩, fun _ => trivial⟩
  | d :: as, [] => ⟨False.elim, by
      rintro ⟨front, back, split, agree⟩
      cases agree
      cases split⟩
  | d :: as, e :: ss => by
    rw [Under, under_iff]
    constructor
    · rintro ⟨here, front, back, rfl, agree⟩
      exact ⟨e :: front, back, rfl, .cons here agree⟩
    · rintro ⟨front, back, split, agree⟩
      cases agree with
      | cons here agree =>
        cases split
        exact ⟨here, _, back, rfl, agree⟩

theorem stretches_iff : Stretches a s ↔ Under a.reverse s.reverse := by
  rw [under_iff]
  constructor
  · rintro ⟨lead, tail, rfl, agree⟩
    exact ⟨tail.reverse, lead.reverse, List.reverse_append, List.rel_reverse agree⟩
  · rintro ⟨front, back, split, agree⟩
    refine ⟨back.reverse, front.reverse, ?_, List.forall₂_reverse_iff.mp (by rwa [List.reverse_reverse])⟩
    rw [← List.reverse_append, ← split, List.reverse_reverse]

namespace Under
variable {as ss : List Nat}

theorem refl (ss : List Nat) : Under ss ss :=
  under_iff.mpr ⟨ss, [], (List.append_nil ss).symm, List.forall₂_same.mpr fun _ _ => .inl rfl⟩

theorem get (under : Under as ss) {i d : Nat} (here : as[i]? = some d) : ∃ e, ss[i]? = some e ∧ (d = e ∨ d = 1) := by
  induction as generalizing ss i with
  | nil => cases here
  | cons a as ih =>
    cases ss with
    | nil => exact under.elim
    | cons e ss =>
      cases i with
      | zero =>
        cases here
        exact ⟨e, rfl, under.1⟩
      | succ i => exact ih under.2 here

theorem antisymm (first : Under as ss) (second : Under ss as) : as = ss := by
  induction as generalizing ss with
  | nil =>
    cases ss with
    | nil => rfl
    | cons => exact second.elim
  | cons a as ih =>
    cases ss with
    | nil => exact first.elim
    | cons e ss =>
      have same : a = e := by
        have := first.1
        have := second.1
        omega
      rw [same, ih first.2 second.2]

end Under

theorem stretch?_least {a b : Nat} (close : ¬(a ≠ b ∧ a ≠ 1 ∧ b ≠ 1)) : ∃ dim, stretch? a b = some dim ∧
    (a = dim ∨ a = 1) ∧ (b = dim ∨ b = 1) ∧ ∀ t, (a = t ∨ a = 1) → (b = t ∨ b = 1) → (dim = t ∨ dim = 1) := by
  by_cases keeps : a = b ∨ b = 1
  · exact ⟨a, by simp [stretch?, keeps], .inl rfl, by omega, fun t first _ => first⟩
  · have single : a = 1 := by omega
    exact ⟨b, by simp_all [stretch?], .inr single, .inl rfl, fun t _ second => second⟩

/-- Axes stretch to one another up to a place where they clash; else they have a least common size. -/
theorem stretchAll?_cases : ∀ as bs : List Nat,
    (∃ i d e : Nat, stretchAll? as bs = none ∧ as[i]? = some d ∧ bs[i]? = some e ∧ d ≠ e ∧ d ≠ 1 ∧ e ≠ 1) ∨
      ∃ ss, stretchAll? as bs = some ss ∧ Under as ss ∧ Under bs ss ∧
        (∀ ts, Under as ts → Under bs ts → Under ss ts) ∧ ss.length = max as.length bs.length
  | [], bs => .inr ⟨bs, rfl, trivial, .refl bs, fun _ _ right => right, by simp⟩
  | a :: as, [] => .inr ⟨a :: as, rfl, .refl _, trivial, fun _ left _ => left, by simp⟩
  | a :: as, b :: bs => by
    rw [stretchAll?]
    rcases stretchAll?_cases as bs with ⟨i, d, e, none, here, there, clash⟩ | ⟨ss, found, left, right, least, long⟩
    · refine .inl ⟨i + 1, d, e, ?_, here, there, clash⟩
      rw [none]
      split <;> simp_all
    · by_cases clash : a ≠ b ∧ a ≠ 1 ∧ b ≠ 1
      · exact .inl ⟨0, a, b, by simp [stretch?, clash], rfl, rfl, clash⟩
      · obtain ⟨dim, met, first, second, smallest⟩ := stretch?_least clash
        refine .inr ⟨dim :: ss, by rw [met, found], ⟨first, left⟩, ⟨second, right⟩, fun ts above above' => ?_, ?_⟩
        · cases ts with
          | nil => exact above.elim
          | cons t ts => exact ⟨smallest t above.1 above'.1, least ts above.2 above'.2⟩
        · simp only [List.length_cons, long]
          omega

theorem Clash.apart (clash : Clash a b) (left : Stretches a t) (right : Stretches b t) : False := by
  obtain ⟨i, d, e, here, there, differ, first, second⟩ := clash
  obtain ⟨x, above, same⟩ := (stretches_iff.mp left).get here
  obtain ⟨y, above', same'⟩ := (stretches_iff.mp right).get there
  cases above.symm.trans above'
  omega

theorem Meets.unique (meets : Meets a b s) (other : Meets a b t) : s = t := by
  have first := stretches_iff.mp (meets.least t other.left other.right)
  have second := stretches_iff.mp (other.least s meets.left meets.right)
  exact List.reverse_injective (first.antisymm second)

theorem meets_of_stretchAll? {ss : List Nat} (left : Under a.reverse ss) (right : Under b.reverse ss)
    (least : ∀ ts, Under a.reverse ts → Under b.reverse ts → Under ss ts) : Meets a b ss.reverse := by
  refine ⟨stretches_iff.mpr ?_, stretches_iff.mpr ?_, fun t above above' => stretches_iff.mpr ?_⟩
  · rwa [List.reverse_reverse]
  · rwa [List.reverse_reverse]
  · rw [List.reverse_reverse]
    exact least _ (stretches_iff.mp above) (stretches_iff.mp above')

theorem meets_or_clash (a b : Shape) :
    (∃ s, Meets a b s ∧ stretchAll? a.reverse b.reverse = some s.reverse ∧ s.length = max a.length b.length) ∨
      Clash a b ∧ stretchAll? a.reverse b.reverse = none := by
  rcases stretchAll?_cases a.reverse b.reverse with ⟨i, d, e, none, clash⟩ | ⟨ss, found, left, right, least, long⟩
  · exact .inr ⟨⟨i, d, e, clash⟩, none⟩
  · refine .inl ⟨ss.reverse, meets_of_stretchAll? left right least, ?_, by simpa using long⟩
    rwa [List.reverse_reverse]

theorem Meets.stretchAll?_eq (meets : Meets a b s) :
    stretchAll? a.reverse b.reverse = some s.reverse ∧ s.length = max a.length b.length := by
  rcases meets_or_clash a b with ⟨t, other, found⟩ | ⟨clash, _⟩
  · rwa [meets.unique other]
  · exact (clash.apart meets.left meets.right).elim

theorem meets_iff : Meets a b s ↔ stretchAll? a.reverse b.reverse = some s.reverse := by
  refine ⟨fun meets => meets.stretchAll?_eq.1, fun found => ?_⟩
  rcases meets_or_clash a b with ⟨t, meets, found', _⟩ | ⟨_, none⟩
  · have same := List.reverse_injective (Option.some.inj (found'.symm.trans found))
    rwa [← same]
  · cases none.symm.trans found

theorem clash_iff : Clash a b ↔ stretchAll? a.reverse b.reverse = none := by
  rcases meets_or_clash a b with ⟨s, meets, found, _⟩ | ⟨clash, none⟩
  · exact ⟨fun clash => (clash.apart meets.left meets.right).elim, fun none => by cases none.symm.trans found⟩
  · exact ⟨fun _ => none, fun _ => clash⟩

instance (a b s : Shape) : Decidable (Meets a b s) := decidable_of_iff _ meets_iff.symm

instance (a b : Shape) : Decidable (Clash a b) := decidable_of_iff _ clash_iff.symm

theorem Meets.broadcast?_eq (meets : Meets a b s) (addressable : s.addressable = true)
    (counts : countable 1 s = true) : broadcast? a b = some s := by
  rw [broadcast?, meets.left.addressable addressable, meets.right.addressable addressable, Bool.and_self,
    if_pos rfl, meets.stretchAll?_eq.1, Option.map_some, List.reverse_reverse]
  simp [Option.filter, counts]

theorem Clash.broadcast?_eq (clash : Clash a b) : broadcast? a b = none := by
  rw [broadcast?, clash_iff.mp clash]
  split <;> rfl

theorem common_few (few : max a.length b.length ≤ maxStretched) (refusal : ShapeFault) :
    Shape.common a b refusal = ((broadcast? a b).map .ok).getD (.shape refusal) := by
  have short : ¬(a.addressable && b.addressable && maxStretched < max a.length b.length) = true := by
    rw [Bool.and_eq_true, not_and]
    exact fun _ more => Nat.not_lt.mpr few (of_decide_eq_true more)
  rw [Shape.common, if_neg short]

/-- What stretches to a shape that arrays can have is one. -/
theorem Stretches.holdable (stretches : Stretches a s) (holdable : s.Holdable) : a.Holdable := by
  refine ⟨le_trans stretches.length_le holdable.axes, lt_of_le_of_lt (Nat.mul_le_mul_left 4 ?_) holdable.bytes⟩
  obtain ⟨lead, tail, rfl, agree⟩ := stretches
  have fewer : volume a.filled ≤ volume tail.filled := by
    clear holdable
    induction agree with
    | nil => exact le_refl _
    | @cons d e a tail here _ ih =>
      have positive := volume_pos (filled_pos tail)
      rcases here with rfl | rfl
      · by_cases empty : d = 0
        · simpa [filled, empty] using ih
        · simpa [filled, empty, volume] using Nat.mul_le_mul_left d ih
      · by_cases empty : e = 0
        · simpa [filled, empty, volume] using ih
        · have more : volume (filled tail) ≤ e * volume (filled tail) := Nat.le_mul_of_pos_left _ (by omega)
          simpa [filled, empty, volume] using le_trans ih more
  rw [filled_append, volume_append]
  exact le_trans fewer (Nat.le_mul_of_pos_left _ (volume_pos (filled_pos lead)))

end Shape

namespace BinaryKind

def onWords (op : BinaryKind) : ElementType → UInt32 → UInt32 → UInt32
  | .int32, a, b => Element.toWord .int32 (op.apply (Element.ofWord .int32 a : Int32) (Element.ofWord .int32 b))
  | .float32, a, b =>
    Element.toWord .float32 (op.apply (Element.ofWord .float32 a : Single) (Element.ofWord .float32 b))

/-- The words that an elementwise operation makes of two operands. -/
def words (op : BinaryKind) (type : TensorType) : List (Tensor UInt32) → Tensor UInt32
  | [a, b] => Tensor.zipWith (op.onWords type.elementType) type.shape a b
  | _ => ⟨type.shape, fun _ => 0⟩

theorem compute_eq {α : Type} [Element α] (op : BinaryKind) (s : Shape) (arg : Nat → Result (Tensor α)) :
    (Operator.binary op).compute s arg = arg 0 >>= fun a => arg 1 >>= fun b =>
      (Operator.stretched op.apply a b).map .of := by
  have mapped : ∀ {x : Result (Tensor α)}, (do return Computed.of (← x)) = x.map .of := fun {x} => by
    cases x <;> rfl
  cases here : arg 0 with
  | error e => cases op <;> simp only [Operator.compute, Operator.polynomial?, here] <;> rfl
  | ok a =>
    cases there : arg 1 with
    | error e => cases op <;> simp only [Operator.compute, Operator.polynomial?, here, there] <;> rfl
    | ok b =>
      cases op with
      | add | sub | mul => simp only [Operator.compute, Operator.polynomial?, here, there]; rfl
      | _ => simp only [Operator.compute, Operator.polynomial?, here, there]; exact mapped

end BinaryKind

/-- There is room for the doubles that an operation makes: the result of dividing or raising whole numbers, and what
whole numbers are raised from. -/
structure BinaryKind.Afforded [Memory] (op : BinaryKind) (a : TensorType) (s : Shape) : Prop where
  result : a.elementType = .int32 → op = .div ∨ op = .pow → s.room 8 = .ok ()
  base : a.elementType = .int32 → op = .pow → a.shape.room 8 = .ok ()

/-- Elements of one type are afforded what an operation asks for where there is room for the doubles it makes. -/
theorem Operator.afford_binary [Memory] {op : BinaryKind} {a b : TensorType} {s : Shape}
    (same : a.elementType = b.elementType) : (Operator.binary op).afford [a, b] s = .ok () ↔ op.Afforded a s := by
  have common : (Operator.binary op).kind.elementType? [a, b] = some a.elementType :=
    Kind.elementType?_two rfl same.symm
  have source : (Kind.source [a, b]).elementType = a.elementType := rfl
  rw [afford_eq_ok, common]
  cases element : a.elementType with
  | float32 =>
    have other : a.elementType ≠ .int32 := by simp [element]
    have narrow : (Operator.binary op).widens (some .float32) = false := by cases op <;> rfl
    refine iff_of_true ⟨fun wide => absurd (narrow.symm.trans wide) Bool.false_ne_true, ?_⟩
      ⟨fun int => absurd int other, fun int => absurd int other⟩
    cases op <;> simp [ownDemands, source, element]
  | int32 =>
    have own : (∀ d ∈ (Operator.binary op).ownDemands [a, b] s, d.meet = .ok ()) ↔
        (op = .pow → a.shape.room 8 = .ok ()) := by
      cases op <;> simp [ownDemands, source, element, Demand.meet]
    have wide : (Operator.binary op).widens (some .int32) = true ↔ op = .div ∨ op = .pow := by
      cases op <;> simp [widens]
    rw [own, wide]
    constructor
    · intro met
      exact ⟨fun _ => met.1, fun _ => met.2⟩
    · intro afforded
      exact ⟨afforded.result element, afforded.base element⟩

namespace Node
variable {leaf : Node → Result Bytes} {n x y : Node} {op : BinaryKind} {bytes : Bytes}

theorem Formed.binary_types (formed : n.Formed (.binary op)) (inputs : n.inputs = [x, y]) :
    x.elementType = n.elementType ∧ y.elementType = n.elementType ∧
      Shape.broadcast? x.shape y.shape = some n.shape := by
  have typed := formed.typed
  rw [inputs] at typed
  obtain ⟨_, _, s, types, same, common, typed⟩ := Operator.inferBinary_eq_ok.mp typed
  cases types
  have element : x.elementType = n.elementType := (Node.elementType_eq typed.symm).symm
  refine ⟨element, same.symm.trans element, ?_⟩
  rw [Node.shape_eq typed.symm]
  exact Operator.common_eq_ok common

theorem Formed.binary_worded (formed : n.Formed (.binary op)) (inputs : n.inputs = [x, y]) :
    n.Worded (.binary op) (op.words n.type) := by
  obtain ⟨element, element', stretches⟩ := formed.binary_types inputs
  have rewords : ∀ {α : Type} [Element α], Element.Kept α n.elementType →
      (∀ a b : α, Element.toWord n.elementType (op.apply a b) =
        op.onWords n.elementType (Element.toWord n.elementType a) (Element.toWord n.elementType b)) →
          (Operator.binary op).Rewords α n (op.words n.type) := by
    intro α _ kept onWords
    constructor
    · intro arg c computed i below
      rw [BinaryKind.compute_eq] at computed
      obtain ⟨a, first, computed⟩ := bind_eq_ok.mp computed
      obtain ⟨b, second, _⟩ := bind_eq_ok.mp computed
      rw [inputs] at below
      rcases Nat.le_one_iff_eq_zero_or_eq_one.mp (Nat.le_of_lt_succ below) with rfl | rfl
      · exact ⟨a, first⟩
      · exact ⟨b, second⟩
    · intro _ arg ts supplied
      have shapes := supplied.shapes
      rw [inputs] at shapes
      obtain ⟨a, rest, rfl, left, shapes⟩ := List.map_eq_cons_iff.mp shapes
      obtain ⟨b, none, rfl, right, shapes⟩ := List.map_eq_cons_iff.mp shapes
      cases List.map_eq_nil_iff.mp shapes
      have made : Operator.stretched op.apply a b = .ok (Tensor.zipWith op.apply n.shape a b) := by
        rw [Operator.stretched, left, right, stretches]
      refine ⟨Tensor.zipWith op.apply n.shape a b, ?_, rfl, ?_⟩
      · rw [BinaryKind.compute_eq]
        refine bind_eq_ok.mpr ⟨a, supplied.given 0 a rfl, bind_eq_ok.mpr ⟨b, supplied.given 1 b rfl, ?_⟩⟩
        rw [made]
        rfl
      · exact congrArg (Tensor.mk n.shape) (funext fun index => onWords _ _)
  have plain : Operator.binary op ≠ .softmax := Operator.noConfusion
  have still : (Operator.binary op).kind ∉ Kind.sliding := by simp [Operator.kind, Kind.sliding]
  refine ⟨formed, trivial, still, plain, by simp [Operator.kind, Kind.readPlaces], by simp [inputs], ?_, ?_, ?_⟩
  · simp [inputs, element, element']
  · intro int
    rw [int] at rewords
    exact rewords Element.kept_whole fun a b => by simp [BinaryKind.onWords, Element.kept_whole.element]
  · intro single
    rw [single] at rewords
    exact rewords Element.kept_single fun a b => rfl

/-- An elementwise operation evaluates to words made of those of both operands. -/
theorem Formed.evaluates_binary [Memory] (formed : n.Formed (.binary op)) (inputs : n.inputs = [x, y]) :
    n.Evaluates leaf bytes ↔ (n.type.Fits ∧ op.Afforded x.type n.shape) ∧
      ∃ a b, (x.Evaluates leaf a ∧ x.shape.Holdable) ∧
        (y.Evaluates leaf b ∧ y.shape.Holdable) ∧ (Tensor.zipWith (op.onWords n.elementType) n.shape
          (Tensor.ofBytes x.shape a) (Tensor.ofBytes y.shape b)).bytes = bytes := by
  obtain ⟨element, element', _⟩ := formed.binary_types inputs
  rw [(formed.binary_worded inputs).evaluates_iff, inputs,
    ← Operator.afford_binary (show x.type.elementType = y.type.elementType from element.trans element'.symm)]
  refine and_congr_right fun _ => ⟨?_, ?_⟩
  · rintro ⟨_, values, made⟩
    obtain ⟨a, _, first, others, rfl⟩ := List.forall₂_cons_left_iff.mp values
    obtain ⟨b, _, second, none, rfl⟩ := List.forall₂_cons_left_iff.mp others
    cases none
    exact ⟨a, b, first, second, made⟩
  · rintro ⟨a, b, first, second, made⟩
    exact ⟨[a, b], .cons first (.cons second .nil), made⟩

end Node

theorem Tensor.zipWith_stretched {α β : Type} {s : Shape} {a b left right : Tensor α} (f : α → α → β)
    (first : left.Same (a.broadcast s)) (second : right.Same (b.broadcast s)) :
    (zipWith f s left right).Same (zipWith f s a b) := by
  refine ⟨rfl, fun index inside => ?_⟩
  have inside : Shape.Contains s index := inside
  have read : ∀ {t u : Tensor α}, t.Same (u.broadcast s) →
      t.cell (Shape.narrow t.shape index) = u.cell (Shape.narrow u.shape index) := by
    intro t u same
    have shape : t.shape = s := same.shape
    rw [shape, Shape.narrow_self inside]
    exact same.cells index (shape ▸ inside)
  exact congrArg₂ f (read first) (read second)

/-- An elementwise operation on operands that are stretched to a shape before. -/
def Building.stretched (op : BinaryKind) (s : Shape) (a b : Node) : Building Node := do
  binary op (← broadcast a s) (← broadcast b s)

namespace Workspace
open Building (binary broadcast stretched)
open Shape (Stretches Meets Clash)
variable {w v u : Workspace} {a b n m p q : Node} {s : Shape} {op : BinaryKind} {type : TensorType}

theorem Forms.evaluates_broadcast [Memory] {leaf : Node → Result Bytes} {bytes : Bytes} {e : ElementType}
    (forms : w.Forms v p (.broadcast s) [a] ⟨e, s⟩) : p.Evaluates leaf bytes ↔
      p.type.Fits ∧ ∃ x, a.Evaluates leaf x ∧ a.shape.Holdable ∧
        ((Tensor.ofBytes a.shape x).broadcast s).bytes = bytes := by
  have moves : p.MovesCells (.broadcast s) a :=
    ⟨forms.formed, show Kind.broadcast ∈ Kind.moving by decide, forms.inputs, nofun⟩
  have shape : p.shape = s := Node.shape_eq forms.typed
  rw [moves.evaluates_iff, shape]
  rfl

/-- Stretched before or by the operation, operands make the same words. -/
theorem Forms.stretched_agrees [Memory] {w₁ w₂ w₃ w₄ : Workspace} {leaf : Node → Result Bytes} {bytes : Bytes}
    (direct : w.Forms w₁ n (.binary op) [a, b] ⟨a.elementType, s⟩)
    (left : w₁.Forms w₂ p (.broadcast s) [a] ⟨a.elementType, s⟩)
    (right : w₂.Forms w₃ q (.broadcast s) [b] ⟨b.elementType, s⟩)
    (explicit : w₃.Forms w₄ m (.binary op) [p, q] ⟨a.elementType, s⟩) (same : a.elementType = b.elementType)
    (base : a.elementType = .int32 → op = .pow → a.shape.room 8 = .ok ()) :
    n.Evaluates leaf bytes ↔ m.Evaluates leaf bytes := by
  have type : m.type = n.type := explicit.typed.trans direct.typed.symm
  have left_type : p.type = n.type := left.typed.trans direct.typed.symm
  have right_type : q.type = n.type := by rw [right.typed, ← same, direct.typed]
  let made (k x y : Node) (left right : Bytes) : Bytes := (Tensor.zipWith (op.onWords k.elementType) k.shape
    (Tensor.ofBytes x.shape left) (Tensor.ofBytes y.shape right)).bytes
  have words : ∀ x y l r : Bytes, ((Tensor.ofBytes a.shape x).broadcast s).bytes = l →
      ((Tensor.ofBytes b.shape y).broadcast s).bytes = r → made m p q l r = made n a b x y := by
    rintro x y _ _ rfl rfl
    simp only [made]
    rw [Node.shape_eq explicit.typed, Node.shape_eq direct.typed, Node.shape_eq left.typed, Node.shape_eq right.typed,
      Node.elementType_eq explicit.typed, Node.elementType_eq direct.typed]
    exact (Tensor.zipWith_stretched _ (.words (.refl _) rfl) (.words (.refl _) rfl)).bytes_eq
  -- stretched before, what whole numbers are raised from takes no more than the result
  have afforded : op.Afforded a.type n.shape ↔ op.Afforded p.type m.shape := by
    rw [Node.shape_eq direct.typed, Node.shape_eq explicit.typed, left.typed]
    exact ⟨fun ⟨result, _⟩ => ⟨result, fun int pow => result int (.inr pow)⟩, fun ⟨result, _⟩ => ⟨result, base⟩⟩
  rw [direct.formed.evaluates_binary direct.inputs, explicit.formed.evaluates_binary explicit.inputs, type, afforded]
  refine and_congr_right fun ⟨fits, _⟩ => ?_
  have fits_left : p.type.Fits := left_type ▸ fits
  have fits_right : q.type.Fits := right_type ▸ fits
  constructor
  · rintro ⟨x, y, ⟨first, holdable⟩, ⟨second, holdable'⟩, rfl⟩
    refine ⟨_, _, ⟨left.evaluates_broadcast.mpr ⟨fits_left, x, first, holdable, rfl⟩, fits_left.holdable⟩,
      ⟨right.evaluates_broadcast.mpr ⟨fits_right, y, second, holdable', rfl⟩, fits_right.holdable⟩, ?_⟩
    exact words x y _ _ rfl rfl
  · rintro ⟨l, r, ⟨first, _⟩, ⟨second, _⟩, rfl⟩
    obtain ⟨_, x, value, holdable, made⟩ := left.evaluates_broadcast.mp first
    obtain ⟨_, y, value', holdable', made'⟩ := right.evaluates_broadcast.mp second
    exact ⟨x, y, ⟨value, holdable⟩, ⟨value', holdable'⟩, (words x y l r made made').symm⟩

theorem Coherent.broadcast_stretches (coherent : w.Coherent ShapeRules.Lasting) (own : a ∈ w.graph.nodes)
    (made : broadcast a s w = .ok n v) : Stretches a.shape s := by
  obtain ⟨ps, normal, inferred, _⟩ := coherent.apply (by simpa using own) made
  obtain ⟨op, spelled, read⟩ := Kind.normalize_spells normal
  cases (Kind.spell_broadcast (Value.lists_dims s)).symm.trans spelled
  rw [Kind.infer, read] at inferred
  obtain ⟨t, types, common, _⟩ := Operator.inferBroadcast_eq_ok.mp
    (show Operator.inferBroadcast s [a.type] = _ from inferred)
  cases types
  exact (Shape.broadcast?_eq_some (Operator.common_eq_ok common)).1

theorem Coherent.binary_clash (coherent : w.Coherent ShapeRules.Lasting) (own : a ∈ w.graph.nodes)
    (own' : b ∈ w.graph.nodes) (same : a.elementType = b.elementType)
    (few : max a.shape.length b.shape.length ≤ Shape.maxStretched) (clash : Clash a.shape b.shape) :
    binary op a b w = .error (.shape (.incompatible a.shape.wholes b.shape.wholes)) w := by
  have normal : (Kind.binary op).normalize ([a, b].map Node.type) [] = .ok [] := rfl
  refine coherent.untyped (by simp [own, own']) normal ?_
  have refused : Shape.broadcast a.shape b.shape = .shape (.incompatible a.shape.wholes b.shape.wholes) := by
    rw [Shape.broadcast, Shape.common_few few, clash.broadcast?_eq]
    rfl
  show Operator.inferBinary op [a.type, b.type] = _
  have alike : ¬a.type.elementType ≠ b.type.elementType := not_not_intro same
  show (if a.type.elementType ≠ b.type.elementType then _ else _) = _
  rw [if_neg alike]
  show (Shape.broadcast a.shape b.shape >>= _) = _
  rw [refused]
  rfl

/-- Operands that meet in a shape are stretched to it, by an operation or before. -/
theorem Built.forms_stretched [Memory] (built : w.Built ShapeRules.Lasting) (own : a ∈ w.graph.nodes)
    (own' : b ∈ w.graph.nodes) (same : a.elementType = b.elementType) (meets : Meets a.shape b.shape s)
    (few : max a.shape.length b.shape.length ≤ Shape.maxStretched) (addressable : s.addressable = true)
    (counts : Shape.countable 1 s = true) (op : BinaryKind) : ∃ n w₁ p w₂ q w₃ m w₄,
      binary op a b w = .ok n w₁ ∧ stretched op s a b w₁ = .ok m w₄ ∧
        w.Forms w₁ n (.binary op) [a, b] ⟨a.elementType, s⟩ ∧ w₁.Forms w₂ p (.broadcast s) [a] ⟨a.elementType, s⟩ ∧
          w₂.Forms w₃ q (.broadcast s) [b] ⟨b.elementType, s⟩ ∧
            w₃.Forms w₄ m (.binary op) [p, q] ⟨a.elementType, s⟩ := by
  have long : s.length ≤ Shape.maxStretched := meets.stretchAll?_eq.2 ▸ few
  have common : ∀ {x y : Shape}, max x.length y.length ≤ Shape.maxStretched → Shape.broadcast? x y = some s →
      ∀ refusal, Shape.common x y refusal = .ok s := fun short found refusal => by
    rw [Shape.common_few short, found]
    rfl
  have alone : ∀ {x : Shape}, Stretches x s → ∀ refusal, Shape.common x s refusal = .ok s := fun stretches =>
    common (by rw [max_eq_right stretches.length_le]; exact long)
      (Shape.broadcast?_of_stretches stretches (stretches.addressable addressable) addressable counts).2
  obtain ⟨n, w₁, ran, direct⟩ := built.forms [a, b] (by simp [own, own']) (Kind.means_binary
    (Operator.inferBinary_eq_ok.mpr ⟨_, _, s, rfl, same, common few (meets.broadcast?_eq addressable counts) _, rfl⟩))
  obtain ⟨p, w₂, ran₁, left⟩ := direct.built.forms [a] (by simpa using direct.keeps.mem own)
    (Kind.means_broadcast (alone meets.left))
  obtain ⟨q, w₃, ran₂, right⟩ := left.built.forms [b] (by simpa using left.keeps.mem (direct.keeps.mem own'))
    (Kind.means_broadcast (alone meets.right))
  have stays : Shape.common p.shape q.shape (.incompatible p.shape.wholes q.shape.wholes) = .ok s := by
    rw [Node.shape_eq left.typed, Node.shape_eq right.typed]
    exact alone (.refl s) _
  obtain ⟨m, w₄, ran₃, explicit⟩ := right.built.forms [p, q] (by simp [right.keeps.mem left.member, right.member])
    (Kind.means_binary (Operator.inferBinary_eq_ok.mpr ⟨_, _, s, rfl,
      (Node.elementType_eq left.typed).trans (same.trans (Node.elementType_eq right.typed).symm), stays, rfl⟩))
  have element : p.type.elementType = a.elementType := Node.elementType_eq left.typed
  rw [element] at explicit
  refine ⟨n, w₁, p, w₂, q, w₃, m, w₄, ran, ?_, direct, left, right, explicit⟩
  exact Program.bind_eq_ok.mpr ⟨p, w₂, ran₁, Program.bind_eq_ok.mpr ⟨q, w₃, ran₂, ran₃⟩⟩

/-- An elementwise operation on operands that meet in a shape, stretched to one another or to the shape before. Both
evaluate alike, given room for the doubles that whole numbers are raised from, and they do evaluate where there is
room for the result and for the doubles that are made of whole numbers. -/
theorem Built.stretching_agrees [Memory] (built : w.Built ShapeRules.Lasting) (own : a ∈ w.graph.nodes)
    (own' : b ∈ w.graph.nodes) (same : a.elementType = b.elementType)
    (few : max a.shape.length b.shape.length ≤ Shape.maxStretched) (op : BinaryKind) :
    (∀ s, Meets a.shape b.shape s → s.addressable = true → Shape.countable 1 s = true → ∃ n v m u,
      binary op a b w = .ok n v ∧ stretched op s a b v = .ok m u ∧ n.type = ⟨a.elementType, s⟩ ∧ m.type = n.type ∧
        ((a.elementType = .int32 → op = .pow → a.shape.room 8 = .ok ()) →
          ∀ leaf bytes, n.evaluate leaf = .ok bytes ↔ m.evaluate leaf = .ok bytes) ∧
        (n.type.Fits → op.Afforded a.type s → ∀ leaf x y, a.Evaluates leaf x → b.Evaluates leaf y →
          ∃ bytes, n.evaluate leaf = .ok bytes)) ∧
      (Clash a.shape b.shape →
        binary op a b w = .error (.shape (.incompatible a.shape.wholes b.shape.wholes)) w ∧
          ∀ s n v m u, broadcast a s w = .ok n v → ¬broadcast b s v = .ok m u) ∧
        ((∃ s, Meets a.shape b.shape s) ∨ Clash a.shape b.shape) := by
  have coherent := built.lasting
  refine ⟨fun s meets addressable counts => ?_, fun clash => ⟨?_, fun s n v m u made made' => ?_⟩, ?_⟩
  · obtain ⟨n, w₁, p, w₂, q, w₃, m, w₄, ran, ran', direct, left, right, explicit⟩ :=
      built.forms_stretched own own' same meets few addressable counts op
    have typed : m.type = n.type := explicit.typed.trans direct.typed.symm
    refine ⟨n, w₁, m, w₄, ran, ran', direct.typed, typed, fun base leaf bytes => ?_, ?_⟩
    · rw [direct.formed.evaluate_iff nofun, explicit.formed.evaluate_iff nofun]
      exact direct.stretched_agrees left right explicit same base
    · intro fits afforded leaf x y value value'
      have shape : n.shape = s := Node.shape_eq direct.typed
      have holdable : s.Holdable := shape ▸ fits.holdable
      have evaluates := (direct.formed.evaluates_binary direct.inputs).mpr ⟨⟨fits, shape ▸ afforded⟩, x, y,
        ⟨value, meets.left.holdable holdable⟩, ⟨value', meets.right.holdable holdable⟩, rfl⟩
      exact ⟨_, evaluates.1⟩
  · exact coherent.binary_clash own own' same few clash
  · obtain ⟨later, keeps, _⟩ := coherent.applied (by simpa using own) made
    exact clash.apart (coherent.broadcast_stretches own made) (later.broadcast_stretches (keeps.mem own') made')
  · exact (Shape.meets_or_clash a.shape b.shape).imp (fun ⟨s, meets, _⟩ => ⟨s, meets⟩) And.left

end Workspace

namespace Sample
open Building (binary broadcast stretched)
open Shape (Meets Clash)

/-! A column and a row that meet in a matrix, and a row that clashes with the other. -/

def column : Node := ⟨⟨0, 0⟩, "placeholder", [], [], ⟨.float32, [2, 1]⟩, none⟩
def row : Node := ⟨⟨0, 1⟩, "placeholder", [], [], ⟨.float32, [3]⟩, none⟩
def shortRow : Node := ⟨⟨0, 2⟩, "placeholder", [], [], ⟨.float32, [2]⟩, none⟩

def rowsWorkspace : Workspace := ⟨.standard, ⟨0, .null, #[column, row, shortRow], []⟩, .empty⟩

theorem rowsWorkspace_built : rowsWorkspace.Built ShapeRules.Lasting := by
  have first : Building.placeholder (.dims [2, 1]) (.elementType .float32) ⟨.standard, .empty 0 .null, .empty⟩ =
      .ok column ⟨.standard, ⟨0, .null, #[column], []⟩, .empty⟩ := rfl
  have second : Building.placeholder (.dims [3]) (.elementType .float32)
      ⟨.standard, ⟨0, .null, #[column], []⟩, .empty⟩ =
        .ok row ⟨.standard, ⟨0, .null, #[column, row], []⟩, .empty⟩ := rfl
  have third : Building.placeholder (.dims [2]) (.elementType .float32)
      ⟨.standard, ⟨0, .null, #[column, row], []⟩, .empty⟩ = .ok shortRow rowsWorkspace := rfl
  exact ((Workspace.built_empty.placeholder first).placeholder second).placeholder third

/-- The column and the row are compared alike, stretched before or not; the rows are not compared. -/
theorem stretching_agrees_column :
    (∃ n v m u, binary .lt column row rowsWorkspace = .ok n v ∧ stretched .lt [2, 3] column row v = .ok m u ∧
      n.type = ⟨.float32, [2, 3]⟩ ∧ m.type = n.type ∧ ∃ bytes,
        n.evaluate (fun x => .ok (Bytes.zeros x.byteSize)) = .ok bytes ∧
          m.evaluate (fun x => .ok (Bytes.zeros x.byteSize)) = .ok bytes) ∧
      binary .lt row shortRow rowsWorkspace = .error (.shape (.incompatible [.int 3] [.int 2])) rowsWorkspace ∧
        ∀ s n v m u, broadcast row s rowsWorkspace = .ok n v → ¬broadcast shortRow s v = .ok m u := by
  have own : column ∈ rowsWorkspace.graph.nodes ∧ row ∈ rowsWorkspace.graph.nodes ∧
    shortRow ∈ rowsWorkspace.graph.nodes := by simp [rowsWorkspace]
  constructor
  · obtain ⟨n, v, m, u, ran, ran', typed, same, agrees⟩ :=
      (rowsWorkspace_built.stretching_agrees own.1 own.2.1 rfl (by decide) .lt).1 [2, 3] (by decide) rfl rfl
    have fits : n.type.Fits := typed ▸ ⟨Shape.holdable_iff.mp (by decide), by decide⟩
    obtain ⟨values, returns⟩ := agrees
    obtain ⟨bytes, value⟩ := returns fits ⟨nofun, nofun⟩ (fun x => .ok (Bytes.zeros x.byteSize)) (Bytes.zeros 8)
      (Bytes.zeros 12) ⟨rfl, rfl⟩ ⟨rfl, rfl⟩
    exact ⟨n, v, m, u, ran, ran', typed, same, bytes, value, (values nofun _ bytes).mp value⟩
  · exact (rowsWorkspace_built.stretching_agrees own.2.1 own.2.2 rfl (by decide) .lt).2.1 (by decide)

/-! Cells of more axes than can be stretched, and a row and a column of more cells than can be counted together. -/

def pairOf33Axes : Node := ⟨⟨0, 0⟩, "placeholder", [], [], ⟨.int32, 2 :: List.replicate 32 1⟩, none⟩
def tripleOf33Axes : Node := ⟨⟨0, 1⟩, "placeholder", [], [], ⟨.int32, 3 :: List.replicate 32 1⟩, none⟩
def vastColumn : Node := ⟨⟨0, 2⟩, "placeholder", [], [], ⟨.int32, [2 ^ 40, 1]⟩, none⟩
def vastRow : Node := ⟨⟨0, 3⟩, "placeholder", [], [], ⟨.int32, [1, 2 ^ 40]⟩, none⟩

def vastRowsWorkspace : Workspace := ⟨.standard, ⟨0, .null, #[pairOf33Axes, tripleOf33Axes, vastColumn, vastRow],
    []⟩, .empty⟩

theorem vastRowsWorkspace_built : vastRowsWorkspace.Built ShapeRules.Lasting := by
  have first : Building.placeholder (.dims (2 :: List.replicate 32 1)) (.elementType .int32)
      ⟨.standard, .empty 0 .null, .empty⟩ = .ok pairOf33Axes ⟨.standard, ⟨0, .null, #[pairOf33Axes], []⟩, .empty⟩ := rfl
  have second : Building.placeholder (.dims (3 :: List.replicate 32 1)) (.elementType .int32)
      ⟨.standard, ⟨0, .null, #[pairOf33Axes], []⟩, .empty⟩ =
        .ok tripleOf33Axes ⟨.standard, ⟨0, .null, #[pairOf33Axes, tripleOf33Axes], []⟩, .empty⟩ := rfl
  have third : Building.placeholder (.dims [2 ^ 40, 1]) (.elementType .int32)
      ⟨.standard, ⟨0, .null, #[pairOf33Axes, tripleOf33Axes], []⟩, .empty⟩ =
        .ok vastColumn ⟨.standard, ⟨0, .null, #[pairOf33Axes, tripleOf33Axes, vastColumn], []⟩, .empty⟩ := rfl
  have fourth : Building.placeholder (.dims [1, 2 ^ 40]) (.elementType .int32)
      ⟨.standard, ⟨0, .null, #[pairOf33Axes, tripleOf33Axes, vastColumn], []⟩, .empty⟩ =
        .ok vastRow vastRowsWorkspace := rfl
  exact (((Workspace.built_empty.placeholder first).placeholder second).placeholder third).placeholder fourth

/-- Without limits to axes and cells, an operation is refused on operands that meet, and for another reason on
operands that clash. -/
theorem stretching_refused :
    vastRowsWorkspace.Built ShapeRules.Lasting ∧
      (Meets pairOf33Axes.shape pairOf33Axes.shape pairOf33Axes.shape ∧
        binary .add pairOf33Axes pairOf33Axes vastRowsWorkspace = .error (.fault .tooManyAxes) vastRowsWorkspace) ∧
      (Clash pairOf33Axes.shape tripleOf33Axes.shape ∧
        binary .add pairOf33Axes tripleOf33Axes vastRowsWorkspace = .error (.fault .tooManyAxes) vastRowsWorkspace) ∧
      (Meets vastColumn.shape vastRow.shape [2 ^ 40, 2 ^ 40] ∧
        binary .add vastColumn vastRow vastRowsWorkspace =
          .error (.shape (.incompatible vastColumn.shape.wholes vastRow.shape.wholes)) vastRowsWorkspace) :=
  ⟨vastRowsWorkspace_built, ⟨by decide, rfl⟩, ⟨by decide, rfl⟩, by decide, rfl⟩

end Sample
end TensorDag
