import Mathlib.Data.List.Forall2
import TensorDag.Proofs.Growth

/-!
Builders that do the same with other nodes. Two builders are parallel if each step of one is a step of
the other, with nodes of the same types in place of one another: so are gradient rules with two
gradients of one type. What holds of parallel builders is shown by induction over their steps.
-/
namespace TensorDag

/-- How results stand for one another: which nodes are in them, and what agrees otherwise. -/
structure Form (α : Type) where
  nodes : α → List Node
  agree : α → α → Prop
  refl : ∀ a, agree a a

namespace Form

/-- Data without nodes. -/
def plain (α : Type) : Form α := ⟨fun _ => [], Eq, fun _ => rfl⟩

def node : Form Node := ⟨fun n => [n], fun a b => a.type = b.type, fun _ => rfl⟩

def contributions : Form Gradient.Contributions where
  nodes := List.filterMap id
  agree as bs := as.map (Option.map Node.type) = bs.map (Option.map Node.type)
  refl _ := rfl

def adjoints : Form Gradient.Adjoints where
  nodes as := as.map Prod.snd
  agree as bs := as.map (Prod.map id Node.type) = bs.map (Prod.map id Node.type)
  refl _ := rfl

def several : Form (List Node) := ⟨id, fun as bs => as.map Node.type = bs.map Node.type, fun _ => rfl⟩

end Form

namespace Building
variable [Memory]

/-- Pairs of nodes that stand for one another. -/
abbrev Pairs := List (Node × Node)

/-- Builders of the same steps, given pairs of nodes; what a step returns is paired from then on. A call
without attributes has no entries, so that its node has a key. -/
inductive Parallel : {α : Type} → Pairs → Form α → Building α → Building α → Prop
  | pure {α : Type} {pairs : Pairs} {form : Form α} {a b : α} (agree : form.agree a b)
    (known : List.Forall₂ (fun n m => (n, m) ∈ pairs) (form.nodes a) (form.nodes b)) :
    Parallel pairs form (pure a) (pure b)
  | throw {α : Type} {pairs : Pairs} {form : Form α} (e e' : Error) : Parallel pairs form (throw e) (throw e')
  | constant {pairs : Pairs} (shape elementType data : Value) :
    Parallel pairs .node (constant shape elementType data) (constant shape elementType data)
  | apply {pairs : Pairs} (kind : Kind) {as bs : List Node} (es : Entries)
    (known : List.Forall₂ (fun n m => (n, m) ∈ pairs) as bs) (bare : kind.arity? = none → es = []) :
    Parallel pairs .node (apply kind as es) (apply kind bs es)
  | bind {α β : Type} {pairs : Pairs} {form : Form α} {form' : Form β} {x y : Building α}
    {f f' : α → Building β} (first : Parallel pairs form x y)
    (rest : ∀ a b, form.agree a b →
      Parallel ((form.nodes a).zip (form.nodes b) ++ pairs) form' (f a) (f' b)) :
    Parallel pairs form' (x >>= f) (y >>= f')

namespace Parallel
variable {α β : Type} {pairs : Pairs} {form : Form α} {a a' b b' : Node}

omit [Memory] in
theorem exists_pair {as bs : List Node} (known : List.Forall₂ (fun n m => (n, m) ∈ pairs) as bs) :
    ∀ n ∈ as, ∃ m, (n, m) ∈ pairs := by
  induction known with
  | nil => simp
  | cons head _ ih => simpa using ⟨⟨_, head⟩, ih⟩

theorem step {x y : Building Node} {f f' : Node → Building α} (first : Parallel pairs .node x y)
    (rest : ∀ a b, a.type = b.type → Parallel ((a, b) :: pairs) form (f a) (f' b)) :
    Parallel pairs form (x >>= f) (y >>= f') :=
  .bind first rest

theorem of_bind {result : Result β} {f f' : β → Building α} (rest : ∀ b, Parallel pairs form (f b) (f' b)) :
    Parallel pairs form (of result >>= f) (of result >>= f') := by
  cases result with
  | ok b => exact rest b
  | error e => exact .throw e e

theorem ite {c : Prop} [Decidable c] {x x' y y' : Building α} (first : c → Parallel pairs form x y)
    (second : ¬c → Parallel pairs form x' y') :
    Parallel pairs form (if c then x else x') (if c then y else y') := by
  by_cases here : c
  · rw [if_pos here, if_pos here]
    exact first here
  · rw [if_neg here, if_neg here]
    exact second here

theorem node (typed : a.type = b.type) (known : (a, b) ∈ pairs) : Parallel pairs .node (Pure.pure a) (Pure.pure b) :=
  .pure typed (.cons known .nil)

/-! Operations on nodes. -/

theorem one (kind : Kind) {es : Entries} (known : (a, b) ∈ pairs) (bare : kind.arity? = none → es = []) :
    Parallel pairs .node (Building.apply kind [a] es) (Building.apply kind [b] es) :=
  .apply kind es (.cons known .nil) bare

theorem two (kind : Kind) {es : Entries} (first : (a, b) ∈ pairs) (second : (a', b') ∈ pairs)
    (bare : kind.arity? = none → es = []) :
    Parallel pairs .node (Building.apply kind [a, a'] es) (Building.apply kind [b, b'] es) :=
  .apply kind es (.cons first (.cons second .nil)) bare

theorem binary (op : BinaryKind) (first : (a, b) ∈ pairs) (second : (a', b') ∈ pairs) :
    Parallel pairs .node (Building.binary op a a') (Building.binary op b b') :=
  two _ first second fun _ => rfl

theorem unary (op : UnaryKind) (known : (a, b) ∈ pairs) :
    Parallel pairs .node (Building.unary op a) (Building.unary op b) :=
  one _ known fun _ => rfl

theorem operator (op : BinaryKind) (first : (a, b) ∈ pairs) (second : (a', b') ∈ pairs) :
    Parallel pairs .node (Building.operator op (.node a) (.node a')) (Building.operator op (.node b) (.node b')) :=
  binary op first second

theorem sum (axes : List Int) (known : (a, b) ∈ pairs) :
    Parallel pairs .node (Building.sum a axes) (Building.sum b axes) :=
  one _ known nofun

theorem reshape (shape : Value) (known : (a, b) ∈ pairs) :
    Parallel pairs .node (Building.reshape (.node a) shape) (Building.reshape (.node b) shape) :=
  one .reshape known nofun

theorem transpose (order : Value) (known : (a, b) ∈ pairs) :
    Parallel pairs .node (Building.transpose (.node a) order) (Building.transpose (.node b) order) :=
  one .transpose known nofun

theorem slice (start stop : Value) (known : (a, b) ∈ pairs) :
    Parallel pairs .node (Building.slice (.node a) start stop) (Building.slice (.node b) start stop) :=
  one .slice known nofun

theorem pad (before after : Value) (known : (a, b) ∈ pairs) :
    Parallel pairs .node (Building.pad (.node a) before after) (Building.pad (.node b) before after) :=
  one .pad known nofun

theorem broadcast (shape : Shape) (known : (a, b) ∈ pairs) :
    Parallel pairs .node (Building.broadcast a shape) (Building.broadcast b shape) :=
  one _ known nofun

theorem matmul (first : (a, b) ∈ pairs) (second : (a', b') ∈ pairs) :
    Parallel pairs .node (Building.on .matmul (.node a) [.node a'] []) (Building.on .matmul (.node b) [.node b'] []) :=
  two .matmul first second fun _ => rfl

theorem convolution (w : Window) (first : (a, b) ∈ pairs) (second : (a', b') ∈ pairs) :
    Parallel pairs .node (Building.convolution (.node a) (.node a') w)
      (Building.convolution (.node b) (.node b') w) :=
  two .convolution first second nofun

theorem featuresGradient (shape : Value) (w : Window) (first : (a, b) ∈ pairs) (second : (a', b') ∈ pairs) :
    Parallel pairs .node (Building.featuresGradient (.node a) (.node a') shape w)
      (Building.featuresGradient (.node b) (.node b') shape w) :=
  two .featuresGradient first second nofun

theorem filtersGradient (shape : Value) (w : Window) (first : (a, b) ∈ pairs) (second : (a', b') ∈ pairs) :
    Parallel pairs .node (Building.filtersGradient (.node a) (.node a') shape w)
      (Building.filtersGradient (.node b) (.node b') shape w) :=
  two .filtersGradient first second nofun

theorem maxpoolGradient {c d : Node} (dims : Value) (first : (a, b) ∈ pairs) (second : (a', b') ∈ pairs)
    (third : (c, d) ∈ pairs) :
    Parallel pairs .node (Building.maxpoolGradient (.node a) a' c dims)
      (Building.maxpoolGradient (.node b) b' d dims) :=
  .apply .maxpoolGradient _ (.cons first (.cons second (.cons third .nil))) nofun

theorem softmaxGradient (first : (a, b) ∈ pairs) (second : (a', b') ∈ pairs) :
    Parallel pairs .node (Building.softmaxGradient (.node a) a') (Building.softmaxGradient (.node b) b') :=
  two .softmaxGradient first second fun _ => rfl

end Parallel
end Building

namespace Gradient
open Building (Pairs Parallel)
open Building.Parallel (step of_bind)

variable {pairs : Pairs} {n x g g' u u' : Node}

theorem parallel_unbroadcast [Memory] (known : (g, g') ∈ pairs) (typed : g.type = g'.type) (target : List Value) :
    Parallel pairs .node (unbroadcast g target) (unbroadcast g' target) := by
  have shape : g.shape = g'.shape := congrArg TensorType.shape typed
  have last : ∀ r r' : Node, r.type = r'.type → Parallel ((r, r') :: pairs) .node
      (if areDims r.shape target then pure r else Building.reshape (.node r) (.tuple target))
      (if areDims r'.shape target then pure r' else Building.reshape (.node r') (.tuple target)) := by
    intro r r' same
    have shape : r.shape = r'.shape := congrArg TensorType.shape same
    rw [shape]
    exact .ite (fun _ => .node same (List.mem_cons_self ..)) fun _ => .reshape _ (List.mem_cons_self ..)
  unfold unbroadcast
  rw [shape]
  refine .ite (fun _ => .node typed known) fun _ => of_bind fun axes => ?_
  dsimp only
  exact .ite (fun _ => step (.node typed known) last) fun _ => step (.sum _ known) last

theorem parallel_unbroadcastTo [Memory] (known : (g, g') ∈ pairs) (typed : g.type = g'.type) (x : Node) :
    Parallel pairs .node (unbroadcastTo (.node g) x) (unbroadcastTo (.node g') x) :=
  parallel_unbroadcast known typed _

section inputs
variable [Memory] {α : Type} {form : Form α}

theorem parallel_oneInput {f f' : Node → Building α}
    (rest : ∀ a, n.inputs = [a] → Parallel pairs form (f a) (f' a)) :
    Parallel pairs form (oneInput n >>= f) (oneInput n >>= f') := by
  unfold oneInput
  split
  · exact rest _ ‹_›
  · exact .throw _ _

theorem parallel_twoInputs {f f' : Node × Node → Building α}
    (rest : ∀ a b, n.inputs = [a, b] → Parallel pairs form (f (a, b)) (f' (a, b))) :
    Parallel pairs form (twoInputs n >>= f) (twoInputs n >>= f') := by
  unfold twoInputs
  split
  · exact rest _ _ ‹_›
  · exact .throw _ _

theorem parallel_threeInputs {f f' : Node × Node × Node → Building α}
    (rest : ∀ a b c, n.inputs = [a, b, c] → Parallel pairs form (f (a, b, c)) (f' (a, b, c))) :
    Parallel pairs form (threeInputs n >>= f) (threeInputs n >>= f') := by
  unfold threeInputs
  split
  · exact rest _ _ _ ‹_›
  · exact .throw _ _

theorem parallel_firstInput {f f' : Node → Building α}
    (rest : ∀ a others, n.inputs = a :: others → Parallel pairs form (f a) (f' a)) :
    Parallel pairs form (firstInput n >>= f) (firstInput n >>= f') := by
  unfold firstInput
  split
  · exact rest _ _ ‹_›
  · exact .throw _ _

theorem parallel_windowOf {f f' : Building.Window → Building α}
    (rest : ∀ w, Parallel pairs form (f w) (f' w)) :
    Parallel pairs form (windowOf n >>= f) (windowOf n >>= f') := by
  unfold windowOf
  cases n.params.get "padding" with
  | error e => exact .throw e e
  | ok padding =>
    cases n.params.get "stride" with
    | error e => exact .throw e e
    | ok stride => exact rest _

end inputs

theorem parallel_single [Memory] (typed : u.type = u'.type) (known : (u, u') ∈ pairs) :
    Parallel pairs .contributions (pure [some u]) (pure [some u']) :=
  .pure (by simp [Form.contributions, typed]) (.cons known .nil)

theorem parallel_double [Memory] {v v' : Node} (typed : u.type = u'.type) (known : (u, u') ∈ pairs)
    (typed' : v.type = v'.type) (known' : (v, v') ∈ pairs) :
    Parallel pairs .contributions (pure [some u, some v]) (pure [some u', some v']) :=
  .pure (by simp [Form.contributions, typed, typed']) (.cons known (.cons known' .nil))

theorem parallel_none [Memory] :
    Parallel pairs .contributions (pure (n.inputs.map fun _ => none)) (pure (n.inputs.map fun _ => none)) :=
  .pure rfl (by simp [Form.contributions])

/-! Rules, given a node with its inputs and two gradients of one type that stand for one another. -/

theorem parallel_spread [Memory] (known : (g, g') ∈ pairs) (x : Node) (kept : Shape) :
    Parallel pairs .node (spread (.node g) x kept) (spread (.node g') x kept) :=
  step (.reshape _ known) fun _ _ _ => .broadcast _ (List.mem_cons_self ..)

section rules
variable [Memory] (own : (n, n) ∈ pairs) (inputs : ∀ x ∈ n.inputs, (x, x) ∈ pairs) (known : (g, g') ∈ pairs)
  (typed : g.type = g'.type)
include own inputs known typed

theorem parallel_binaryRule (op : BinaryKind) :
    Parallel pairs .contributions (binaryRule op n (.node g)) (binaryRule op n (.node g')) := by
  refine parallel_twoInputs fun a b split => ?_
  have first : (a, a) ∈ pairs := inputs a (by simp [split])
  have second : (b, b) ∈ pairs := inputs b (by simp [split])
  cases op with
  | add =>
    refine step (parallel_unbroadcastTo known typed a) fun da da' same => ?_
    refine step (parallel_unbroadcastTo (by simp [known]) typed b) fun db db' same' => ?_
    exact parallel_double same (by simp) same' (by simp)
  | sub =>
    refine step (parallel_unbroadcastTo known typed a) fun da da' same => ?_
    refine step (.unary .neg (by simp [known])) fun minus minus' negated => ?_
    refine step (parallel_unbroadcastTo (by simp) negated b) fun db db' same' => ?_
    exact parallel_double same (by simp) same' (by simp)
  | mul =>
    refine step (.operator .mul known second) fun left left' scaled => ?_
    refine step (parallel_unbroadcastTo (by simp) scaled a) fun da da' same => ?_
    refine step (.operator .mul (by simp [known]) (by simp [first])) fun right right' scaled => ?_
    refine step (parallel_unbroadcastTo (by simp) scaled b) fun db db' same' => ?_
    exact parallel_double same (by simp) same' (by simp)
  | div =>
    refine step (.operator .div known second) fun left left' scaled => ?_
    refine step (parallel_unbroadcastTo (by simp) scaled a) fun da da' same => ?_
    refine step (.operator .mul (by simp [known]) (by simp [first])) fun product product' _ => ?_
    refine step (.unary .neg (by simp)) fun top top' _ => ?_
    refine step (.binary .mul (by simp [second]) (by simp [second])) fun bottom bottom' _ => ?_
    refine step (.binary .div (by simp) (by simp)) fun right right' scaled => ?_
    refine step (parallel_unbroadcastTo (by simp) scaled b) fun db db' same' => ?_
    exact parallel_double same (by simp) same' (by simp)
  | pow =>
    refine step (.operator .mul known second) fun left left' _ => ?_
    refine step (.constant ..) fun one one' _ => ?_
    refine step (.binary .sub (by simp [second]) (by simp)) fun less less' _ => ?_
    refine step (.binary .pow (by simp [first]) (by simp)) fun power power' _ => ?_
    refine step (.binary .mul (by simp) (by simp)) fun da da' scaled => ?_
    refine step (.operator .mul (by simp [known]) (by simp [own])) fun product product' _ => ?_
    refine step (.unary .log (by simp [first])) fun logarithm logarithm' _ => ?_
    refine step (.binary .mul (by simp) (by simp)) fun db db' scaled' => ?_
    refine step (parallel_unbroadcastTo (by simp) scaled a) fun left left' same => ?_
    refine step (parallel_unbroadcastTo (by simp) scaled' b) fun right right' same' => ?_
    exact parallel_double same (by simp) same' (by simp)
  | max | min =>
    refine step (.binary .eq first own) fun hit hit' _ => ?_
    refine step (.operator .mul (by simp) (by simp [known])) fun left left' scaled => ?_
    refine step (parallel_unbroadcastTo (by simp) scaled a) fun da da' same => ?_
    refine step (.binary .eq (by simp [second]) (by simp [own])) fun hit hit' _ => ?_
    refine step (.operator .mul (by simp) (by simp [known])) fun right right' scaled => ?_
    refine step (parallel_unbroadcastTo (by simp) scaled b) fun db db' same' => ?_
    exact parallel_double same (by simp) same' (by simp)
  | _ => exact parallel_none

omit typed in
theorem parallel_unaryRule (op : UnaryKind) :
    Parallel pairs .contributions (unaryRule op n (.node g)) (unaryRule op n (.node g')) := by
  cases op with
  | neg => exact step (.unary .neg known) fun _ _ same => parallel_single same (by simp)
  | abs =>
    refine parallel_firstInput fun x others split => ?_
    refine step (.unary .sgn (inputs x (by simp [split]))) fun sign sign' _ => ?_
    exact step (.operator .mul (by simp [known]) (by simp)) fun _ _ same => parallel_single same (by simp)
  | sgn => exact parallel_none
  | exp => exact step (.operator .mul known own) fun _ _ same => parallel_single same (by simp)
  | log =>
    refine parallel_firstInput fun x others split => ?_
    exact step (.operator .div known (inputs x (by simp [split]))) fun _ _ same => parallel_single same (by simp)
  | sqrt =>
    refine step (.constant ..) fun two two' _ => ?_
    refine step (.binary .mul (by simp [own]) (by simp)) fun twice twice' _ => ?_
    exact step (.operator .div (by simp [known]) (by simp)) fun _ _ same => parallel_single same (by simp)

omit own inputs typed in
theorem parallel_sumRule : Parallel pairs .contributions (sumRule n (.node g)) (sumRule n (.node g')) := by
  refine parallel_oneInput fun x split => of_bind fun axes => of_bind fun kept => ?_
  exact step (parallel_spread known x kept) fun _ _ same => parallel_single same (by simp)

omit typed in
theorem parallel_maxElementRule :
    Parallel pairs .contributions (maxElementRule n (.node g)) (maxElementRule n (.node g')) := by
  refine parallel_oneInput fun x split => of_bind fun axes => of_bind fun kept => ?_
  refine step (parallel_spread own x kept) fun peak peak' _ => ?_
  refine step (.binary .eq (by simp [inputs x, split]) (by simp)) fun hit hit' _ => ?_
  refine step (parallel_spread (by simp [known]) x kept) fun wide wide' _ => ?_
  exact step (.binary .mul (by simp) (by simp)) fun _ _ same => parallel_single same (by simp)

omit own typed in
theorem parallel_matmulRule :
    Parallel pairs .contributions (matmulRule n (.node g)) (matmulRule n (.node g')) := by
  refine parallel_twoInputs fun a b split => ?_
  have first : (a, a) ∈ pairs := inputs a (by simp [split])
  have second : (b, b) ∈ pairs := inputs b (by simp [split])
  refine step (.transpose .null second) fun turned turned' _ => ?_
  refine step (.matmul (by simp [known]) (by simp)) fun da da' same => ?_
  refine step (.transpose .null (by simp [first])) fun turned turned' _ => ?_
  refine step (.matmul (by simp) (by simp [known])) fun db db' same' => ?_
  exact parallel_double same (by simp) same' (by simp)

omit own inputs typed in
theorem parallel_transposeRule :
    Parallel pairs .contributions (transposeRule n (.node g)) (transposeRule n (.node g')) := by
  refine of_bind fun order => of_bind fun items => of_bind fun places => ?_
  exact step (.transpose _ known) fun _ _ same => parallel_single same (by simp)

omit own inputs typed in
theorem parallel_sliceRule : Parallel pairs .contributions (sliceRule n (.node g)) (sliceRule n (.node g')) := by
  refine parallel_oneInput fun x split => of_bind fun stop => of_bind fun after => of_bind fun start => ?_
  exact step (.pad _ _ known) fun _ _ same => parallel_single same (by simp)

omit own inputs typed in
theorem parallel_padRule : Parallel pairs .contributions (padRule n (.node g)) (padRule n (.node g')) := by
  refine parallel_oneInput fun x split => of_bind fun before => of_bind fun lows => of_bind fun stop => ?_
  exact step (.slice _ _ known) fun _ _ same => parallel_single same (by simp)

omit own typed in
theorem parallel_convolutionRule :
    Parallel pairs .contributions (convolutionRule n (.node g)) (convolutionRule n (.node g')) := by
  refine parallel_twoInputs fun a b split => parallel_windowOf fun w => ?_
  have first : (a, a) ∈ pairs := inputs a (by simp [split])
  have second : (b, b) ∈ pairs := inputs b (by simp [split])
  refine step (.featuresGradient _ w known second) fun da da' same => ?_
  refine step (.filtersGradient _ w (by simp [known]) (by simp [first]))
    fun db db' same' => ?_
  exact parallel_double same (by simp) same' (by simp)

omit own typed in
theorem parallel_featuresGradientRule :
    Parallel pairs .contributions (featuresGradientRule n (.node g)) (featuresGradientRule n (.node g')) := by
  refine parallel_twoInputs fun a b split => parallel_windowOf fun w => ?_
  have first : (a, a) ∈ pairs := inputs a (by simp [split])
  have second : (b, b) ∈ pairs := inputs b (by simp [split])
  refine step (.convolution w known second) fun da da' same => ?_
  refine step (.filtersGradient _ w (by simp [first]) (by simp [known]))
    fun db db' same' => ?_
  exact parallel_double same (by simp) same' (by simp)

omit own typed in
theorem parallel_filtersGradientRule :
    Parallel pairs .contributions (filtersGradientRule n (.node g)) (filtersGradientRule n (.node g')) := by
  refine parallel_twoInputs fun a b split => parallel_windowOf fun w => ?_
  have first : (a, a) ∈ pairs := inputs a (by simp [split])
  have second : (b, b) ∈ pairs := inputs b (by simp [split])
  refine step (.convolution w second known) fun da da' same => ?_
  refine step (.featuresGradient _ w (by simp [first]) (by simp [known]))
    fun db db' same' => ?_
  exact parallel_double same (by simp) same' (by simp)

omit typed in
theorem parallel_maxpoolRule :
    Parallel pairs .contributions (maxpoolRule n (.node g)) (maxpoolRule n (.node g')) := by
  refine parallel_firstInput fun x others split => of_bind fun dims => ?_
  have first : (x, x) ∈ pairs := inputs x (by simp [split])
  exact step (.maxpoolGradient _ known own first)
    fun _ _ same => parallel_single same (by simp)

omit own typed in
theorem parallel_maxpoolGradientRule :
    Parallel pairs .contributions (maxpoolGradientRule n (.node g)) (maxpoolGradientRule n (.node g')) := by
  refine parallel_threeInputs fun a pooled features split => of_bind fun (down, right) => ?_
  have second : (pooled, pooled) ∈ pairs := inputs pooled (by simp [split])
  have third : (features, features) ∈ pairs := inputs features (by simp [split])
  refine of_bind fun _ => step (.constant ..) fun ones ones' _ => ?_
  refine step (.maxpoolGradient _ (by simp) (by simp [second]) (by simp [third]))
    fun routed routed' _ => ?_
  refine step (.operator .mul (by simp) (by simp [known])) fun selected selected' scaled => ?_
  split
  · refine of_bind fun tiles => ?_
    have last : ∀ (pairs : Pairs) (tiled tiled' : Node) (shape : Value),
        Parallel ((tiled, tiled') :: pairs) .contributions
          (do
            let blocks ← Building.reshape (.node tiled) shape
            return [some (← Building.sum blocks [3, 5]), none, none])
          (do
            let blocks ← Building.reshape (.node tiled') shape
            return [some (← Building.sum blocks [3, 5]), none, none]) := by
      intro pairs tiled tiled' shape
      refine step (.reshape _ (by simp)) fun blocks blocks' _ => ?_
      refine step (.sum _ (by simp)) fun total total' same => ?_
      exact .pure (by simp [Form.contributions, same]) (.cons (by simp) .nil)
    dsimp only
    refine .ite (fun _ => ?_) fun _ => ?_
    · exact step (.node scaled (by simp)) fun _ _ _ => last ..
    · exact step (.slice _ _ (by simp)) fun _ _ _ => last ..
  · exact .throw _ _

end rules

theorem parallel_lastAxisTotal [Memory] (known : (u, u') ∈ pairs) (typed : u.type = u'.type) :
    Parallel pairs .node (lastAxisTotal u) (lastAxisTotal u') := by
  have shape : u.shape = u'.shape := congrArg TensorType.shape typed
  unfold lastAxisTotal
  rw [shape]
  refine step (.sum _ known) fun total total' _ => ?_
  exact step (.reshape _ (by simp)) fun _ _ _ => .broadcast _ (by simp)

section rules
variable (own : (n, n) ∈ pairs) (inputs : ∀ x ∈ n.inputs, (x, x) ∈ pairs) (known : (g, g') ∈ pairs)
  (typed : g.type = g'.type)
include own inputs known typed

omit own typed in
theorem parallel_softmaxGradientRule [Memory] :
    Parallel pairs .contributions (softmaxGradientRule n (.node g)) (softmaxGradientRule n (.node g')) := by
  refine parallel_twoInputs fun u y split => ?_
  have first : (u, u) ∈ pairs := inputs u (by simp [split])
  have second : (y, y) ∈ pairs := inputs y (by simp [split])
  refine step (.softmaxGradient known second) fun du du' same => ?_
  refine step (.binary .mul (by simp [first]) (by simp [second])) fun product product' typed => ?_
  refine step (parallel_lastAxisTotal (by simp) typed) fun total total' _ => ?_
  refine step (.binary .sub (by simp [first]) (by simp)) fun less less' _ => ?_
  refine step (.operator .mul (by simp [known]) (by simp)) fun left left' _ => ?_
  refine step (.operator .mul (by simp [known]) (by simp [second])) fun product product' typed => ?_
  refine step (parallel_lastAxisTotal (by simp) typed) fun total total' _ => ?_
  refine step (.binary .mul (by simp [first]) (by simp)) fun right right' _ => ?_
  refine step (.binary .sub (by simp) (by simp)) fun dy dy' same' => ?_
  exact parallel_double same (by simp) same' (by simp)

/-- The rule of a kind does the same with two gradients of one type. -/
theorem parallel_standardRule [Memory] (kind : Kind) :
    Parallel pairs .contributions (standardRule kind n (.node g)) (standardRule kind n (.node g')) := by
  cases kind with
  | binary op => exact parallel_binaryRule own inputs known typed op
  | unary op => exact parallel_unaryRule own inputs known op
  | matmul => exact parallel_matmulRule inputs known
  | sum => exact parallel_sumRule known
  | maxElement => exact parallel_maxElementRule own inputs known
  | reshape =>
    refine parallel_firstInput fun x others split => ?_
    exact step (.reshape _ known) fun _ _ same => parallel_single same (by simp)
  | transpose => exact parallel_transposeRule known
  | slice => exact parallel_sliceRule known
  | pad => exact parallel_padRule known
  | repeated =>
    exact step (.one .sum known nofun) fun _ _ same => parallel_single same (by simp)
  | broadcast =>
    refine parallel_firstInput fun x others split => ?_
    exact step (parallel_unbroadcastTo known typed x) fun _ _ same => parallel_single same (by simp)
  | convolution => exact parallel_convolutionRule inputs known
  | featuresGradient => exact parallel_featuresGradientRule inputs known
  | filtersGradient => exact parallel_filtersGradientRule inputs known
  | maxpool => exact parallel_maxpoolRule own inputs known
  | maxpoolGradient => exact parallel_maxpoolGradientRule inputs known
  | softmax =>
    exact step (.softmaxGradient known own)
      fun _ _ same => parallel_single same (by simp)
  | softmaxGradient => exact parallel_softmaxGradientRule inputs known
  | argmin | uniform => exact parallel_none

end rules

/-! The sweep. -/

/-- Gradients of the same nodes that stand for one another. -/
def Adjoints.Matched (pairs : Pairs) : Adjoints → Adjoints → Prop :=
  List.Forall₂ fun p q => p.1 = q.1 ∧ p.2.type = q.2.type ∧ (p.2, q.2) ∈ pairs

/-- Contributions to the same inputs that stand for one another. -/
def Contributions.Matched (pairs : Pairs) : Contributions → Contributions → Prop :=
  List.Forall₂ (Option.Rel fun a b => a.type = b.type ∧ (a, b) ∈ pairs)

theorem Adjoints.Matched.mono {pairs wider : Pairs} {as bs : Adjoints} (matched : Adjoints.Matched pairs as bs)
    (sub : ∀ p ∈ pairs, p ∈ wider) : Adjoints.Matched wider as bs :=
  List.Forall₂.imp (fun _ _ ⟨same, typed, known⟩ => ⟨same, typed, sub _ known⟩) matched

theorem Contributions.Matched.mono {pairs wider : Pairs} {as bs : Contributions}
    (matched : Contributions.Matched pairs as bs) (sub : ∀ p ∈ pairs, p ∈ wider) :
    Contributions.Matched wider as bs := by
  refine List.Forall₂.imp (fun a b related => ?_) matched
  cases related with
  | none => exact .none
  | some both => exact .some ⟨both.1, sub _ both.2⟩

theorem parallel_adjoints [Memory] {as bs : Adjoints} (matched : Adjoints.Matched pairs as bs) :
    Parallel pairs .adjoints (pure as) (pure bs) := by
  refine .pure ?_ ?_
  · induction matched with
    | nil => rfl
    | cons both _ ih =>
      simp only [Form.adjoints, List.map_cons, Prod.map, id, both.1, both.2.1] at ih ⊢
      rw [ih]
  · refine List.forall₂_map_left_iff.mpr (List.forall₂_map_right_iff.mpr ?_)
    exact List.Forall₂.imp (fun _ _ both => both.2.2) matched

theorem Adjoints.matched_of_agree : ∀ {as bs : Adjoints}, Form.adjoints.agree as bs →
    Adjoints.Matched ((Form.adjoints.nodes as).zip (Form.adjoints.nodes bs)) as bs
  | [], [], _ => .nil
  | [], _ :: _, agree => by cases agree
  | _ :: _, [], agree => by cases agree
  | a :: as, b :: bs, agree => by
    obtain ⟨head, tail⟩ := List.cons.inj agree
    obtain ⟨same, typed⟩ := Prod.mk.inj head
    refine .cons ⟨same, typed, List.mem_cons_self ..⟩ ?_
    exact (matched_of_agree tail).mono fun p member => List.mem_cons_of_mem _ member

theorem Contributions.matched_of_agree : ∀ {as bs : Contributions}, Form.contributions.agree as bs →
    Contributions.Matched ((Form.contributions.nodes as).zip (Form.contributions.nodes bs)) as bs
  | [], [], _ => .nil
  | [], _ :: _, agree => by cases agree
  | _ :: _, [], agree => by cases agree
  | a :: as, b :: bs, agree => by
    obtain ⟨head, tail⟩ := List.cons.inj agree
    have rest := @matched_of_agree as bs tail
    cases a with
    | none =>
      cases b with
      | none => exact .cons .none rest
      | some b => cases head
    | some a =>
      cases b with
      | none => cases head
      | some b =>
        refine .cons (.some ⟨Option.some.inj head, List.mem_cons_self ..⟩) ?_
        exact rest.mono fun p member => List.mem_cons_of_mem _ member

theorem Adjoints.Matched.lookup {as bs : Adjoints} (matched : Adjoints.Matched pairs as bs) (id : NodeId) :
    Option.Rel (fun a b => a.type = b.type ∧ (a, b) ∈ pairs) (as.lookup id) (bs.lookup id) := by
  induction matched with
  | nil => exact .none
  | @cons p q _ _ both _ ih =>
    obtain ⟨name, a⟩ := p
    obtain ⟨name', b⟩ := q
    obtain ⟨rfl, typed, known⟩ := both
    rw [List.lookup_cons, List.lookup_cons]
    by_cases here : id = name
    · simpa [here] using Option.Rel.some ⟨typed, known⟩
    · simpa [beq_false_of_ne here] using ih

theorem parallel_accumulate [Memory] {as bs : Adjoints} (matched : Adjoints.Matched pairs as bs) (x : Node)
    (known : (u, u') ∈ pairs) (typed : u.type = u'.type) :
    Parallel pairs .adjoints (accumulate as x u) (accumulate bs x u') := by
  have here := matched.lookup x.id
  unfold accumulate
  generalize as.lookup x.id = found, bs.lookup x.id = found' at here ⊢
  cases here with
  | none => exact parallel_adjoints (.cons ⟨rfl, typed, known⟩ matched)
  | some both =>
    refine step (.binary .add both.2 known) fun total total' same => ?_
    refine parallel_adjoints (.cons ⟨rfl, same, by simp⟩ ?_)
    exact matched.mono fun p member => List.mem_cons_of_mem _ member

theorem parallel_distribute [Memory] (kind : String) (found : List Node) : ∀ (inputs : List Node)
    {cs ds : Contributions}
    {pairs : Pairs} {as bs : Adjoints}, Contributions.Matched pairs cs ds → Adjoints.Matched pairs as bs →
      Parallel pairs .adjoints (distribute kind found (inputs.zip cs) as) (distribute kind found (inputs.zip ds) bs)
  | [], _, _, _, _, _, _, matched => parallel_adjoints matched
  | _ :: _, [], [], _, _, _, _, matched => parallel_adjoints matched
  | x :: inputs, c :: cs, d :: ds, pairs, as, bs, .cons head tail, matched => by
    cases head with
    | none => exact parallel_distribute kind found inputs tail matched
    | @some c d both =>
      rw [List.zip_cons_cons, List.zip_cons_cons, distribute, distribute, both.1]
      refine .ite (fun _ => .ite (fun _ => ?_) fun _ => .throw _ _) fun _ =>
        parallel_distribute kind found inputs tail matched
      refine .bind (parallel_accumulate matched x both.2 both.1) fun as' bs' agree => ?_
      have later := Contributions.Matched.mono tail fun p member =>
        List.mem_append_right ((Form.adjoints.nodes as').zip (Form.adjoints.nodes bs')) member
      refine parallel_distribute kind found inputs later ?_
      exact (Adjoints.matched_of_agree agree).mono fun p member => List.mem_append_left _ member

theorem Rules.of_find_standard {kind : String} {rule : Rule} (found : Rules.standard.find kind = .ok rule) :
    rule = .constant ∨ ∃ k : Kind, kind = k.name ∧ rule = .standard k := by
  obtain ⟨k, _, same⟩ := List.mem_map.mp (mem_of_find found)
  obtain ⟨rfl, rfl⟩ := Prod.mk.inj same
  by_cases still : constantKinds.contains k
  · exact .inl (if_pos still)
  · exact .inr ⟨k, rfl, if_neg still⟩

theorem parallel_run [Memory] {kind : String} {rule : Rule} (found : Rules.standard.find kind = .ok rule)
    (own : (n, n) ∈ pairs) (inputs : ∀ x ∈ n.inputs, (x, x) ∈ pairs) (known : (g, g') ∈ pairs)
    (typed : g.type = g'.type) :
    Parallel pairs .contributions (rule.run n (.node g)) (rule.run n (.node g')) := by
  obtain rfl | ⟨k, _, rfl⟩ := Rules.of_find_standard found
  · exact parallel_none
  · exact parallel_standardRule own inputs known typed k

/-- The sweep over nodes that stand for themselves, with gradients that stand for one another. -/
theorem parallel_sweep [Memory] (found : List Node) : ∀ {nodes : List Node} {pairs : Pairs} {as bs : Adjoints},
    (∀ n ∈ nodes, (n, n) ∈ pairs ∧ ∀ x ∈ n.inputs, (x, x) ∈ pairs) → Adjoints.Matched pairs as bs →
      Parallel pairs .adjoints (sweep .standard found nodes as) (sweep .standard found nodes bs)
  | [], _, _, _, _, matched => parallel_adjoints matched
  | n :: rest, pairs, as, bs, own, matched => by
    have here := matched.lookup n.id
    have later := fun m member => own m (List.mem_cons_of_mem n member)
    obtain ⟨mine, inputs⟩ := own n (List.mem_cons_self ..)
    unfold sweep
    generalize as.lookup n.id = adjoint, bs.lookup n.id = adjoint' at here ⊢
    cases isLeaf : n.isLeaf with
    | true => exact parallel_sweep found later matched
    | false =>
      cases here with
      | none => exact parallel_sweep found later matched
      | @some g g' both =>
        dsimp only
        cases ruled : Rules.standard.find n.kind with
        | error e => exact .throw e e
        | ok rule =>
          refine .ite (fun _ => parallel_sweep found later matched) fun _ => ?_
          refine .bind (parallel_run ruled mine inputs both.2 both.1) fun cs ds agree => ?_
          have size : cs.length = ds.length := by simpa using congrArg List.length agree
          rw [size]
          refine .ite (fun _ => .throw _ _) fun _ => ?_
          have handed := parallel_distribute n.kind found n.inputs
            ((Contributions.matched_of_agree agree).mono fun p member => List.mem_append_left pairs member)
            (matched.mono fun p member => List.mem_append_right _ member)
          refine .bind handed fun as' bs' agree' => ?_
          refine parallel_sweep found (fun m member => ?_) ((Adjoints.matched_of_agree agree').mono fun p member =>
            List.mem_append_left _ member)
          obtain ⟨first, others⟩ := later m member
          exact ⟨by simp [first], fun x input => by simp [others x input]⟩

/-- Lists of nodes that stand for one another, in order. -/
def Matched (pairs : Pairs) : List Node → List Node → Prop :=
  List.Forall₂ fun a b => a.type = b.type ∧ (a, b) ∈ pairs

theorem parallel_several [Memory] {as bs : List Node} (matched : Matched pairs as bs) :
    Parallel pairs .several (pure as) (pure bs) := by
  refine .pure ?_ (List.Forall₂.imp (fun _ _ both => both.2) matched)
  induction matched with
  | nil => rfl
  | cons both _ ih =>
    simp only [Form.several, List.map_cons, both.1] at ih ⊢
    rw [ih]

theorem matched_of_agree : ∀ {as bs : List Node}, Form.several.agree as bs → Matched (as.zip bs) as bs
  | [], [], _ => .nil
  | [], _ :: _, agree => by cases agree
  | _ :: _, [], agree => by cases agree
  | a :: as, b :: bs, agree => by
    obtain ⟨typed, tail⟩ := List.cons.inj agree
    refine .cons ⟨typed, List.mem_cons_self ..⟩ ?_
    exact List.Forall₂.imp (fun _ _ both => ⟨both.1, List.mem_cons_of_mem _ both.2⟩) (matched_of_agree tail)

theorem parallel_collect [Memory] : ∀ {targets : List Node} {pairs : Pairs} {as bs : Adjoints},
    Adjoints.Matched pairs as bs → Parallel pairs .several (collect as targets) (collect bs targets)
  | [], _, _, _, _ => parallel_several .nil
  | t :: rest, pairs, as, bs, matched => by
    have here := matched.lookup t.id
    have last : ∀ g g' : Node, g.type = g'.type → Parallel ((g, g') :: pairs) .several
        (do return g :: (← collect as rest)) (do return g' :: (← collect bs rest)) := by
      intro g g' typed
      have others : Parallel ((g, g') :: pairs) .several (collect as rest) (collect bs rest) := parallel_collect
        (matched.mono fun p member => List.mem_cons_of_mem (g, g') member)
      refine .bind others fun ds ds' agree => parallel_several (.cons ⟨typed, by simp⟩ ?_)
      exact List.Forall₂.imp (fun _ _ both => ⟨both.1, List.mem_append_left _ both.2⟩) (matched_of_agree agree)
    unfold collect
    generalize as.lookup t.id = adjoint, bs.lookup t.id = adjoint' at here ⊢
    cases here with
    | none => exact step (.constant ..) last
    | some both => exact step (.node both.1 both.2) last

/-- Gradients of one objective are built by the same steps wherever they are built. -/
theorem parallel_build [Memory] (objective : Node) (targets : List Node)
    (own : ∀ n ∈ Node.order [objective], (n, n) ∈ pairs ∧ ∀ x ∈ n.inputs, (x, x) ∈ pairs) :
    Parallel pairs .several (build .standard objective targets) (build .standard objective targets) := by
  have last : ∀ (seed seed' : Adjoints) (pairs' : Pairs), Adjoints.Matched (pairs' ++ pairs) seed seed' →
      Parallel (pairs' ++ pairs) .several
        (do collect (← sweep .standard (relevant targets (Node.order [objective]))
          (Node.order [objective]).reverse seed) targets)
        (do collect (← sweep .standard (relevant targets (Node.order [objective]))
          (Node.order [objective]).reverse seed') targets) := by
    intro seed seed' pairs' matched
    refine .bind (parallel_sweep _ (fun n member => ?_) matched) fun as bs agree => ?_
    · obtain ⟨mine, inputs⟩ := own n (List.mem_reverse.mp member)
      exact ⟨by simp [mine], fun x input => by simp [inputs x input]⟩
    · exact parallel_collect ((Adjoints.matched_of_agree agree).mono fun p member => List.mem_append_left _ member)
  unfold build
  dsimp only
  refine .ite (fun _ => ?_) fun _ => last [] [] [] .nil
  exact step (.constant ..) fun one one' typed => last _ _ [(one, one')] (.cons ⟨rfl, typed, by simp⟩ .nil)

end Gradient
end TensorDag
