import TensorDag.Proofs.Layers
import TensorDag.Proofs.Operating

/-!
Gradient rules that return. Given the gradient of a node of shapes within the limits, the rule of its kind hands to
each input a contribution of the type of the input, or none.
-/
namespace TensorDag
open Shape (Stretches)

section
variable {m x : Node} {e : ElementType} {s : Shape}

theorem Node.elementType_eq (typed : m.type = ⟨e, s⟩) : m.elementType = e := congrArg TensorType.elementType typed

theorem Node.shape_eq (typed : m.type = ⟨e, s⟩) : m.shape = s := congrArg TensorType.shape typed

theorem Node.type_eq (typed : m.type = ⟨e, x.shape⟩) (element : e = x.elementType) : m.type = x.type :=
  typed.trans (congrArg (TensorType.mk · x.shape) element)

end

/-- A type that stretches to another one. -/
structure TensorType.Widens (t u : TensorType) : Prop where
  typed : t.elementType = u.elementType
  stretches : Stretches t.shape u.shape

theorem TensorType.Widens.refl (t : TensorType) : t.Widens t := ⟨rfl, .refl _⟩

theorem Operator.inferBinary_widens {op : BinaryKind} {t u type : TensorType}
    (inferred : inferBinary op [t, u] = .ok type) : t.Widens type ∧ u.Widens type := by
  obtain ⟨_, _, s, operands, typed, common, rfl⟩ := inferBinary_eq_ok.mp inferred
  cases operands
  obtain ⟨first, second, _⟩ := Shape.broadcast?_eq_some (common_eq_ok common)
  exact ⟨⟨rfl, first⟩, ⟨typed.symm, second⟩⟩

/-- What the rule of an operator asks for. What it answers to the gradient of a slice has to be padded; what was
padded is cut out again, and so are the features under windows that do not cover all of them, where no cut may be
empty; a gradient of softmax is added up along its last axis. The rules of the gradients of a convolution answer with
convolutions, which look at all windows. -/
def Operator.Answered (op : Operator) (types : List TensorType) : Prop :=
  let shape := (Kind.source types).shape
  let second := (types.map TensorType.shape).getD 1 []
  match op with
  | .slice _ _ | .softmaxGradient => shape ≠ []
  | .pad _ _ => ∀ d ∈ shape, 1 ≤ d
  | .maxpoolGradient dims => (∀ d ∈ shape, 1 ≤ d) ∨
      (types.map TensorType.shape).getD 2 [] = List.zipWith (· * ·) shape [1, 1, dims.1.toNat, dims.2.toNat]
  | .featuresGradient c => c.Countable (c.features.getD []) second shape
  | .filtersGradient c => c.Countable second (c.filters.getD []) shape
  | _ => True

/-- Nodes that the rule of their kind answers to. -/
def Node.Answered (n : Node) : Prop := ∀ op, n.Formed op → op.Answered (n.inputs.map Node.type)

/-- The kinds whose rules answer with what may be out of reach of kernels. -/
def Kind.straining : List Kind := [.slice, .featuresGradient, .filtersGradient]

/-- The kinds whose rules ask for something. -/
def Kind.asking : List Kind := [.pad, .maxpoolGradient, .softmaxGradient] ++ straining

theorem Node.answered_of_kind {n : Node} (plain : n.kind ∉ Kind.asking.map Kind.name) : n.Answered := by
  intro op formed
  rw [formed.named] at plain
  cases op with
  | slice | pad | maxpoolGradient | softmaxGradient | featuresGradient | filtersGradient =>
    exact absurd (by simp [Kind.asking, Kind.straining, Operator.kind]) plain
  | _ => trivial

namespace Gradient
open Building (Yields)

/-- Contributions of the types of the inputs that they are for. -/
def Fitting (inputs : List Node) (cs : Contributions) : Prop :=
  List.Forall₂ (fun x c => ∀ d, c = some d → d.type = x.type) inputs cs

/-- A builder that returns contributions to the inputs of a node. -/
abbrev Contributes [Memory] (full operable : Prop) (held : List Node) (n : Node) (x : Building Contributions) : Prop :=
  Yields full operable held .contributions (Fitting n.inputs) x

/-- A node and its gradient are given to the rule of its kind, which answers to them. What it answers to the
gradient of a slice of a scalar is there, but no kernel computes it, and so are convolutions of too many windows. -/
structure Handed (operable : Prop) (held : List Node) (n g : Node) (op : Operator) : Prop where
  own : n ∈ held
  inputs : ∀ x ∈ n.inputs, x ∈ held
  gradient : g ∈ held
  typed : g.type = n.type
  formed : n.Formed op
  answered : operable ∨ op.kind ∉ Kind.straining → op.Answered (n.inputs.map Node.type)

section inputs
variable {n a b c : Node}

theorem oneInput_eq (inputs : n.inputs = [a]) : oneInput n = pure a := by rw [oneInput, inputs]

theorem twoInputs_eq (inputs : n.inputs = [a, b]) : twoInputs n = pure (a, b) := by rw [twoInputs, inputs]

theorem threeInputs_eq (inputs : n.inputs = [a, b, c]) : threeInputs n = pure (a, b, c) := by
  rw [threeInputs, inputs]

theorem firstInput_eq {rest : List Node} (inputs : n.inputs = a :: rest) : firstInput n = pure a := by
  rw [firstInput, inputs]

theorem inputs_one {t : TensorType} (types : n.inputs.map Node.type = [t]) : ∃ x, n.inputs = [x] ∧ x.type = t := by
  obtain ⟨x, rest, inputs, typed, none⟩ := List.map_eq_cons_iff.mp types
  cases List.map_eq_nil_iff.mp none
  exact ⟨x, inputs, typed⟩

theorem inputs_two {t u : TensorType} (types : n.inputs.map Node.type = [t, u]) :
    ∃ x y, n.inputs = [x, y] ∧ x.type = t ∧ y.type = u := by
  obtain ⟨x, _, inputs, typed, types⟩ := List.map_eq_cons_iff.mp types
  obtain ⟨y, rest, rfl, typed', none⟩ := List.map_eq_cons_iff.mp types
  cases List.map_eq_nil_iff.mp none
  exact ⟨x, y, inputs, typed, typed'⟩

theorem inputs_three {t u v : TensorType} (types : n.inputs.map Node.type = [t, u, v]) :
    ∃ x y z, n.inputs = [x, y, z] ∧ x.type = t ∧ y.type = u ∧ z.type = v := by
  obtain ⟨x, _, inputs, typed, types⟩ := List.map_eq_cons_iff.mp types
  obtain ⟨y, _, rfl, typed', types⟩ := List.map_eq_cons_iff.mp types
  obtain ⟨z, rest, rfl, typed'', none⟩ := List.map_eq_cons_iff.mp types
  cases List.map_eq_nil_iff.mp none
  exact ⟨x, y, z, inputs, typed, typed', typed''⟩

end inputs

variable {full operable : Prop} {held : List Node} {n g p x a b c d : Node}

theorem none_typed {t : TensorType} : ∀ g : Node, none = some g → g.type = t := by
  intro _ absent
  cases absent

theorem contributes_none [Memory] : Contributes full operable held n (pure (n.inputs.map fun _ => none)) := by
  refine .pure (by simp [Form.contributions]) ?_
  rw [Fitting, List.forall₂_map_right_iff]
  exact List.forall₂_same.mpr fun _ _ => none_typed

theorem contributes_one [Memory] (inputs : n.inputs = [x]) (own : c ∈ held) (typed : c.type = x.type) :
    Contributes full operable held n (pure [some c]) := by
  refine .pure (by simpa [Form.contributions] using own) ?_
  rw [inputs]
  exact .cons (fun _ same => Option.some.inj same ▸ typed) .nil

theorem contributes_two [Memory] (inputs : n.inputs = [a, b]) (first : c ∈ held) (second : d ∈ held)
    (typed : c.type = a.type)
    (typed' : d.type = b.type) : Contributes full operable held n (pure [some c, some d]) := by
  refine .pure (by simp [Form.contributions, first, second]) ?_
  rw [inputs]
  exact .cons (fun _ same => Option.some.inj same ▸ typed)
    (.cons (fun _ same => Option.some.inj same ▸ typed') .nil)

/-- A gradient is summed to a node that stretches to it. -/
theorem yields_unbroadcastTo [Memory] (own : g ∈ held) (widens : x.type.Widens g.type) :
    Yields full operable held .node (·.type = x.type) (unbroadcastTo (.node g) x) := by
  refine .known own fun bounded => ?_
  rcases unbroadcastTo_eq widens.stretches with ⟨same, program⟩ | ⟨is, k, bounds, distinct, collapses, program⟩
  · rw [program]
    exact .node own (congrArg₂ TensorType.mk widens.typed.symm same)
  rw [program]
  refine (Yields.sum own bounds distinct).step fun total ⟨axes, members, typed⟩ => ?_
  have element : total.elementType = x.elementType := (Node.elementType_eq typed).trans widens.typed.symm
  refine .ite (fun whole => ?_) fun _ => ?_
  · exact .node (by simp) (congrArg₂ TensorType.mk element (areDims_wholes.mp whole).symm)
  · have volume : Shape.volume x.shape = Shape.volume total.shape := by
      rw [Node.shape_eq typed]
      exact (collapses axes members).volume_keep.symm
    have fits := widens.stretches.bounded bounded.shape
    exact (Yields.reshape (by simp) (Value.lists_wholes x.shape) volume fits).weaken
      fun m made => Node.type_eq made element

theorem yields_toward [Memory] (own : p ∈ held) (typed : p.type = g.type) (widens : x.type.Widens g.type) :
    Yields full operable held .node (·.type = x.type) (unbroadcastTo (.node p) x) :=
  yields_unbroadcastTo own (typed ▸ widens)

/-! Elementwise operations. -/

/-- The operands of an elementwise operation, given with its gradient. -/
structure Operands (held : List Node) (n g a b : Node) : Prop where
  inputs : n.inputs = [a, b]
  first : a ∈ held
  second : b ∈ held
  widens : a.type.Widens g.type
  widens' : b.type.Widens g.type

theorem Handed.operands {op : BinaryKind} (handed : Handed operable held n g (.binary op)) :
    ∃ a b, Operands held n g a b := by
  have typed := handed.formed.typed
  obtain ⟨_, _, _, types, _⟩ := Operator.inferBinary_eq_ok.mp typed
  obtain ⟨a, b, inputs, -, -⟩ := inputs_two types
  rw [inputs, ← handed.typed] at typed
  obtain ⟨widens, widens'⟩ := Operator.inferBinary_widens typed
  exact ⟨a, b, inputs, handed.inputs a (by simp [inputs]), handed.inputs b (by simp [inputs]), widens, widens'⟩

theorem yields_stretched [Memory] (op : BinaryKind) (own : p ∈ held) (typed : p.type = g.type) (known : x ∈ held)
    (widens : x.type.Widens g.type) : Yields full operable held .node (·.type = g.type) (Building.binary op p x) := by
  rw [← typed] at widens ⊢
  exact .stretched op own known widens.stretches widens.typed

theorem yields_beside [Memory] (op : BinaryKind) (own : x ∈ held) (known : p ∈ held)
    (scalar : p.type = ⟨x.elementType, []⟩) :
    Yields full operable held .node (·.type = x.type) (Building.binary op x p) :=
  .stretched op own known (Node.shape_eq scalar ▸ .nil _) (Node.elementType_eq scalar)

theorem contributes_binary [Memory] {op : BinaryKind} (handed : Handed operable held n g (.binary op)) :
    Contributes full operable held n (binaryRule op n (.node g)) := by
  obtain ⟨a, b, inputs, first, second, widens, widens'⟩ := handed.operands
  have own := handed.gradient
  rw [binaryRule, twoInputs_eq inputs]
  cases op with
  | add =>
    refine (yields_unbroadcastTo own widens).step fun da typed => ?_
    refine (yields_unbroadcastTo (by simp [own]) widens').step fun db typed' => ?_
    exact contributes_two inputs (by simp) (by simp) typed typed'
  | sub =>
    refine (yields_unbroadcastTo own widens).step fun da typed => ?_
    refine (Yields.unary .neg (by simp [own])).step fun minus negated => ?_
    refine (yields_toward (by simp) negated widens').step fun db typed' => ?_
    exact contributes_two inputs (by simp) (by simp) typed typed'
  | mul =>
    refine (yields_stretched .mul own rfl second widens').step fun left scaled => ?_
    refine (yields_toward (by simp) scaled widens).step fun da typed => ?_
    refine (yields_stretched .mul (by simp [own]) rfl (by simp [first]) widens).step fun right scaled' => ?_
    refine (yields_toward (by simp) scaled' widens').step fun db typed' => ?_
    exact contributes_two inputs (by simp) (by simp) typed typed'
  | div =>
    refine (yields_stretched .div own rfl second widens').step fun left scaled => ?_
    refine (yields_toward (by simp) scaled widens).step fun da typed => ?_
    refine (yields_stretched .mul (by simp [own]) rfl (by simp [first]) widens).step fun product scaled' => ?_
    refine (Yields.unary .neg (by simp)).step fun top negated => ?_
    refine (Yields.alike .mul (by simp [second]) (by simp [second]) rfl).step fun bottom squared => ?_
    refine (yields_stretched .div (by simp) (negated.trans scaled') (by simp) (squared ▸ widens')).step
      fun right divided => ?_
    refine (yields_toward (by simp) divided widens').step fun db typed' => ?_
    exact contributes_two inputs (by simp) (by simp) typed typed'
  | pow =>
    refine .known handed.own fun bounded => ?_
    have inferred := handed.formed.typed
    rw [inputs, ← handed.typed] at inferred
    have fits : g.type.shape.Bounded full := handed.typed ▸ bounded.shape
    obtain ⟨_, filled⟩ := exists_leafBytes_one (show TensorType.volume ⟨b.elementType, []⟩ = 1 from rfl)
    refine (yields_stretched .mul own rfl second widens').step fun left scaled => ?_
    refine (Yields.lift b filled).step fun one unit => ?_
    -- the exponent less one has the type of the exponent, so that the power has the type of the node
    refine (yields_beside .sub (by simp [second]) (by simp) unit).step fun less lowered => ?_
    refine (Yields.binary (by simp [first]) (by simp) (lowered ▸ inferred) fits).step fun power raised => ?_
    refine (yields_stretched .mul (by simp) scaled (by simp) (raised ▸ .refl _)).step fun da outer => ?_
    refine (Yields.alike .mul (by simp [own]) (by simp [handed.own]) handed.typed.symm).step fun product scaled' => ?_
    refine (Yields.unary .log (by simp [first])).step fun log known => ?_
    refine (yields_stretched .mul (by simp) scaled' (by simp) (known ▸ widens)).step fun db inner => ?_
    refine (yields_toward (by simp) outer widens).step fun da' typed => ?_
    refine (yields_toward (by simp) inner widens').step fun db' typed' => ?_
    exact contributes_two inputs (by simp) (by simp) typed typed'
  | max | min =>
    rw [handed.typed] at widens widens'
    refine (Yields.stretching .eq first handed.own widens.stretches widens.typed).step fun hit found => ?_
    refine (Yields.alike .mul (by simp) (by simp [own]) (handed.typed.trans found.symm)).step fun left masked => ?_
    refine (yields_toward (by simp) (masked.trans found) widens).step fun da typed => ?_
    refine (Yields.stretching .eq (by simp [second]) (by simp [handed.own]) widens'.stretches widens'.typed).step
      fun hit' found' => ?_
    refine (Yields.alike .mul (by simp) (by simp [own]) (handed.typed.trans found'.symm)).step fun right masked' => ?_
    refine (yields_toward (by simp) (masked'.trans found') widens').step fun db typed' => ?_
    exact contributes_two inputs (by simp) (by simp) typed typed'
  | lt | lte | gt | gte | eq | neq => exact contributes_none

theorem contributes_unary [Memory] {op : UnaryKind} (handed : Handed operable held n g (.unary op)) :
    Contributes full operable held n (unaryRule op n (.node g)) := by
  obtain ⟨x, inputs, same⟩ := inputs_one (Operator.inferUnary_eq_ok.mp handed.formed.typed)
  have own := handed.gradient
  have known : x ∈ held := handed.inputs x (by simp [inputs])
  have typed : g.type = x.type := handed.typed.trans same.symm
  cases op with
  | neg => exact (Yields.unary .neg own).step fun d made => contributes_one inputs (by simp) (made.trans typed)
  | abs =>
    rw [unaryRule, firstInput_eq inputs]
    refine (Yields.unary .sgn known).step fun sign signed => ?_
    refine (Yields.alike .mul (by simp [own]) (by simp) (signed.trans typed.symm)).step fun d made => ?_
    exact contributes_one inputs (by simp) (made.trans typed)
  | sgn => exact contributes_none
  | exp =>
    refine (Yields.alike .mul own handed.own handed.typed.symm).step fun d made => ?_
    exact contributes_one inputs (by simp) (made.trans typed)
  | log =>
    rw [unaryRule, firstInput_eq inputs]
    refine (Yields.alike .div own known typed.symm).step fun d made => ?_
    exact contributes_one inputs (by simp) (made.trans typed)
  | sqrt =>
    obtain ⟨_, filled⟩ : ∃ bytes, leafBytes ⟨n.elementType, []⟩ (.int 2) = .ok bytes := by
      cases n.elementType <;> exact ⟨_, rfl⟩
    refine (Yields.lift n filled).step fun two unit => ?_
    refine (yields_beside .mul (by simp [handed.own]) (by simp) unit).step fun double doubled => ?_
    refine (Yields.alike .div (by simp [own]) (by simp) (doubled.trans handed.typed.symm)).step fun d made => ?_
    exact contributes_one inputs (by simp) (made.trans typed)

end Gradient
end TensorDag
