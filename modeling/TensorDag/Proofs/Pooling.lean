import Mathlib
import TensorDag.Proofs.Layouts
import TensorDag.Proofs.Routing

/-!
Pools and their gradients, at first and second order. A pool of whole elements holds the greatest element of each
window, its gradient hands what it is given to the first of them, and the rule of the gradient answers with what it
gathers there again.
-/
namespace TensorDag
open Program (bind_eq_ok pure_eq_ok)

attribute [local instance] Int32.ring

namespace Workspace
variable {w : Workspace} {n : Node}

/-- Constants have the values that are in their buffers. -/
def Supplies (w : Workspace) (leaf : Node → Result Bytes) : Prop :=
  ∀ n ∈ w.graph.nodes, n.kind = "constant" → ∀ id, n.buffer = some id → leaf n = .ok (w.store.get id).bytes

theorem Supplies.evaluates [Memory] {leaf : Node → Result Bytes} {type : TensorType} {bytes : Bytes}
    (supplies : w.Supplies leaf) (coherent : w.Coherent ShapeRules.Lasting)
    (found : w.graph.find? (.constant type bytes) = some n) : Node.evaluate leaf n = .ok bytes := by
  obtain ⟨member, keyed⟩ := coherent.found found
  obtain ⟨constant, _, id, held, rfl⟩ := Node.of_key?_constant keyed
  exact (Node.evaluate_leaf (Node.isLeaf_of_kind rfl constant)).trans (supplies n member constant id held)

end Workspace

namespace Node
open Tensor (whole maxpool maxpoolGradient)
variable {dims : Int × Int} {x p g m : Node} {leaf : Node → Result Bytes} {a b : Bytes}
  {batch channels height width down right : Nat}

/-- A pool of features of whole elements, without empty axes. There is memory for the places of all cells. -/
structure Pooled [Memory] (dims : Int × Int) (x p : Node) : Prop where
  inputs : p.inputs = [x]
  formed : p.Formed (.maxpool dims)
  element : x.elementType = .int32
  positive : ∀ d ∈ x.shape, 1 ≤ d
  room : 8 * Shape.volume x.shape ≤ Memory.capacity

/-- The gradient of a pool for a gradient that is handed to the pool. -/
structure Routed (dims : Int × Int) (x p g m : Node) : Prop where
  inputs : m.inputs = [g, p, x]
  formed : m.Formed (.maxpoolGradient dims)

/-- The types of features and of their pool. -/
structure Tiled [Memory] (dims : Int × Int) (x p : Node) (batch channels height width down right : Nat) : Prop where
  sizes : dims = (↑down, ↑right)
  features : x.type = ⟨.int32, [batch, channels, height, width]⟩
  pooled : p.type = ⟨.int32, [batch, channels, height / down, width / right]⟩
  moderate : Shape.Moderate [batch, channels, height, width]
  tiles : Tiles down right (height / down) (width / right) height width
  counts : pooledShape dims x.type.shape = .ok p.type.shape

theorem Pooled.tiled [Memory] (pooled : Pooled dims x p) :
    ∃ batch channels height width down right, Tiled dims x p batch channels height width down right := by
  obtain ⟨_, s, types, fits, typed⟩ := Operator.inferMaxpool_eq_ok.mp pooled.formed.typed
  rw [pooled.inputs] at types
  cases types
  obtain ⟨batch, channels, height, width, down, right, rfl, features, rfl, tiles⟩ :=
    pooledShape_eq_ok pooled.formed.maxpool.windows fits
  have element : x.type.elementType = .int32 := pooled.element
  have long : x.type.shape.length ≤ Shape.maxStretched := by
    rw [features]
    exact (by decide : 4 ≤ Shape.maxStretched)
  have moderate : x.type.shape.Moderate := ⟨pooled.positive, long, pooled.room⟩
  rw [features] at moderate
  refine ⟨batch, channels, height, width, down, right, rfl, ?_, ?_, moderate, tiles, ?_⟩
  · exact congrArg₂ TensorType.mk element features
  · rw [← typed, element]
  · rw [← typed, fits]

namespace Tiled
variable [Memory] (tiled : Tiled dims x p batch channels height width down right)
include tiled

theorem pooled_moderate : Shape.Moderate [batch, channels, height / down, width / right] := by
  obtain ⟨some, some', -⟩ : 1 ≤ batch ∧ 1 ≤ channels ∧ 1 ≤ height ∧ 1 ≤ width := by
    simpa using tiled.moderate.positive
  refine tiled.moderate.resized ?_ tiled.moderate.axes (Shape.volume_le ?_)
  · simpa [some, some'] using tiled.tiles.counts
  · exact .cons (le_refl _) (.cons (le_refl _) (.cons (Nat.div_le_self ..) (.cons (Nat.div_le_self ..) .nil)))

theorem fits : x.type.Fits := by
  rw [tiled.features]
  exact .of_moderate tiled.moderate

theorem pooled_fits : p.type.Fits := by
  rw [tiled.pooled]
  exact .of_moderate tiled.pooled_moderate

theorem given (evaluates : x.Evaluates leaf a) : Given leaf x a :=
  ⟨evaluates, Node.elementType_eq tiled.features, tiled.fits.holdable⟩

theorem limited : x.shape.Limited := by
  rw [Node.shape_eq tiled.features]
  exact tiled.moderate.limited

theorem pooled_limited : p.shape.Limited := by
  rw [Node.shape_eq tiled.pooled]
  exact tiled.pooled_moderate.limited

end Tiled

theorem Pooled.holds [Memory] (pooled : Pooled dims x p) (tiled : Tiled dims x p batch channels height width down right)
    (evaluates : x.Evaluates leaf a) : p.Holds leaf ((whole x.shape a).maxpool (down, right)) := by
  have given : List.Forall₂ (Given leaf) p.inputs [a] := by
    rw [pooled.inputs]
    exact .cons (tiled.given evaluates) .nil
  have first : argument p.inputs [a] 0 = .ok (whole x.shape a) :=
    (supplied_whole given).given 0 _ (by rw [pooled.inputs]; rfl)
  have features : x.shape = [batch, channels, height, width] := Node.shape_eq tiled.features
  obtain ⟨rfl⟩ := tiled.sizes
  refine pooled.formed.holds_computed (Node.elementType_eq tiled.pooled) tiled.pooled_fits given
    (show 0 ∈ Kind.maxpool.readPlaces by decide) trivial ?_ (by simp [pooled.inputs]) ?_ ?_
  · exact pooled.formed.afforded ⟨trivial, nofun⟩ tiled.pooled_limited (by simpa [pooled.inputs] using tiled.limited)
  · exact Result.bind_eq_ok.mpr ⟨_, Result.bind_eq_ok.mpr ⟨_, first, Operator.fourAxes_eq features⟩, rfl⟩
  · rw [Node.shape_eq tiled.pooled, maxpool, show (whole x.shape a).shape = _ from features]
    rfl

namespace Routed
variable [Memory] (routed : Routed dims x p g m) (tiled : Tiled dims x p batch channels height width down right)
include routed

omit [Memory] in
theorem types : m.type = x.type ∧ g.type = p.type := by
  obtain ⟨_, _, types, same, _, _, shape⟩ := Operator.inferMaxpoolGradient_eq_ok.mp routed.formed.typed
  rw [routed.inputs] at types
  obtain ⟨rfl, later⟩ := List.cons.inj types
  obtain ⟨rfl, last⟩ := List.cons.inj later
  exact ⟨(List.cons.inj last).1.symm, congrArg₂ TensorType.mk same.symm shape⟩

include tiled

theorem gradient : g.shape = [batch, channels, height / down, width / right] :=
  Node.shape_eq (routed.types.2.trans tiled.pooled)

theorem holds (pooled : Pooled dims x p) (evaluates : x.Evaluates leaf a) (evaluates' : g.Evaluates leaf b) :
    m.Holds leaf (maxpoolGradient (down, right) (whole g.shape b) (whole x.shape a)) := by
  obtain ⟨c, middle, _⟩ := pooled.holds tiled evaluates
  obtain ⟨typed, typed'⟩ := routed.types
  have features : x.shape = [batch, channels, height, width] := Node.shape_eq tiled.features
  have inner : Given leaf p c := ⟨middle, Node.elementType_eq tiled.pooled, tiled.pooled_fits.holdable⟩
  have fits : g.type.Fits := typed' ▸ tiled.pooled_fits
  have outer : Given leaf g b := ⟨evaluates', Node.elementType_eq (typed'.trans tiled.pooled), fits.holdable⟩
  have given : List.Forall₂ (Given leaf) m.inputs [b, c, a] := by
    rw [routed.inputs]
    exact .cons outer (.cons inner (.cons (tiled.given evaluates) .nil))
  have supplied := supplied_whole given
  have first : argument m.inputs [b, c, a] 0 = .ok (whole g.shape b) := supplied.given 0 _ (by rw [routed.inputs]; rfl)
  have third : argument m.inputs [b, c, a] 2 = .ok (whole x.shape a) := supplied.given 2 _ (by rw [routed.inputs]; rfl)
  obtain ⟨rfl⟩ := tiled.sizes
  have limited : ∀ n ∈ m.inputs, n.shape.Limited := by
    rw [routed.inputs, List.forall_mem_cons, List.forall_mem_cons, List.forall_mem_singleton]
    exact ⟨Node.shape_eq typed' ▸ tiled.pooled_limited, tiled.pooled_limited, tiled.limited⟩
  refine routed.formed.holds_computed (Node.elementType_eq (typed.trans tiled.features)) (typed ▸ tiled.fits) given
    (show 0 ∈ Kind.maxpoolGradient.readPlaces by decide) trivial
    (routed.formed.afforded ⟨trivial, nofun⟩ (Node.shape_eq typed ▸ tiled.limited) limited) (by simp [routed.inputs]) ?_
    (congrArg TensorType.shape typed).symm
  exact Result.bind_eq_ok.mpr ⟨_, first, Result.bind_eq_ok.mpr ⟨_, Result.bind_eq_ok.mpr ⟨_, third,
    Operator.fourAxes_eq features⟩, rfl⟩⟩

end Routed
end Node

namespace Gradient
open Node (Evaluates Given Holds Pooled Routed Tiled)
open Tensor (Gathered dot maxpoolGradient whole)
variable {w : Workspace} {dims : Int × Int} {x p g m u : Node} {batch channels height width down right tall wide : Nat}

theorem whole_ones {s : Shape} {index : Index} (inside : Shape.Contains s index) :
    (whole s (Bytes.ofWords (List.replicate (Shape.volume s) 1))).cell index = 1 := by
  have listed : (List.replicate (Shape.volume s) (1 : UInt32))[Shape.offset s index]? = some 1 :=
    List.getElem?_replicate_of_lt (Shape.offset_lt_volume inside)
  exact congrArg UInt32.toInt32 (Bytes.word_ofWords listed)

/-- Ones are handed to a pool, which stay ones in all workspaces behind. -/
theorem exists_place [Memory] (built : w.Built ShapeRules.Lasting) (pooled : Pooled dims x p)
    (tiled : Tiled dims x p batch channels height width down right) (features : x ∈ w.graph.nodes)
    (own : p ∈ w.graph.nodes) :
    ∃ ones place v v', Building.constant (.dims p.shape) (.elementType p.elementType)
        (.list (List.replicate (Shape.volume p.shape) (.int 1))) w = .ok ones v ∧
      Building.maxpoolGradient (.node ones) p x (.ofPair dims) v = .ok place v' ∧ w.Reaches v' place x.type ∧
      ∀ u leaf, u.Built ShapeRules.Lasting → v'.Keeps u → u.Supplies leaf → ∀ a, x.Evaluates leaf a →
        ∃ o : Tensor Int32, (∀ k, Shape.Contains p.shape k → o.cell k = 1) ∧
          place.Holds leaf (maxpoolGradient (down, right) o (whole x.shape a)) := by
  have read : Value.word p.type.elementType (.int 1) = .ok 1 := by
    rw [tiled.pooled]
    rfl
  obtain ⟨ones, v, made, filled, found⟩ := built.fills (leafBytes_ones read)
  obtain ⟨place, v', ran, forms⟩ := filled.built.forms [ones, p, x]
    (by simpa using ⟨filled.member, filled.keeps.mem own, filled.keeps.mem features⟩)
    (Kind.means_maxpoolGradient pooled.formed.maxpool.windows filled.typed (by rw [tiled.features, tiled.pooled])
      tiled.counts)
  refine ⟨ones, place, v, v', made, ran, forms.toReaches.after filled.keeps,
    fun u leaf later keeps supplies a at_x => ?_⟩
  -- a later memo still knows the ones, whose value is therefore what they were filled with
  have known := keeps.memo _ _ (forms.keeps.memo _ _ found)
  have at_ones : ones.Evaluates leaf (Bytes.ofWords (List.replicate (Shape.volume p.shape) 1)) := by
    refine ⟨supplies.evaluates later.lasting known, ?_⟩
    rw [Bytes.size_ofWords, List.length_replicate, Node.byteSize, filled.typed]
    exact Nat.mul_comm ..
  have routed : Routed dims x p ones place := ⟨forms.inputs, forms.formed⟩
  refine ⟨_, fun k inside => ?_, routed.holds tiled pooled at_x at_ones⟩
  rw [show ones.shape = p.shape from congrArg TensorType.shape filled.typed]
  exact whole_ones inside

/-- What ones arrive at is multiplied by the gradient of the features. -/
theorem exists_selected [Memory] {place : Node} (built : w.Built ShapeRules.Lasting)
    (tiled : Tiled dims x p batch channels height width down right) (own : place ∈ w.graph.nodes)
    (typed : place.type = x.type) (given : u ∈ w.graph.nodes) (typed' : u.type = x.type) :
    ∃ selected v, times (.node place) (.node u) w = .ok selected v ∧ w.Reaches v selected x.type ∧
      ∀ leaf t b, place.Holds leaf t → u.Evaluates leaf b →
        selected.Holds leaf (Tensor.zipWith (· * ·) x.shape t (whole u.shape b)) := by
  have alike : Shape.broadcast place.type.shape u.type.shape = .ok x.type.shape := by
    rw [typed, typed', tiled.features]
    exact ((Shape.Stretches.refl _).common tiled.moderate.axes tiled.moderate.holdable _).2
  have inferred := Operator.inferBinary_eq .mul (by rw [typed, typed']) alike
  obtain ⟨selected, v, ran, forms⟩ := built.forms [place, u] (by simpa using ⟨own, given⟩) (Kind.means_binary inferred)
  have made : selected.type = x.type := by rw [forms.typed, typed]
  refine ⟨selected, v, ran, { forms.toReaches with typed := made }, fun leaf t b holds evaluates => ?_⟩
  obtain ⟨c, middle, held⟩ := holds
  have int : x.elementType = .int32 := Node.elementType_eq tiled.features
  have fits : ∀ {n : Node}, n.type = x.type → n.elementType = .int32 ∧ n.type.Fits := fun same =>
    ⟨(congrArg TensorType.elementType same).trans int, same ▸ tiled.fits⟩
  have limited : ∀ {n : Node}, n.type = x.type → n.shape.Limited := fun same => Node.shape_eq same ▸ tiled.limited
  have values : List.Forall₂ (Given leaf) selected.inputs [c, b] := by
    rw [forms.inputs]
    exact .cons ⟨middle, (fits typed).1, (fits typed).2.holdable⟩
      (.cons ⟨evaluates, (fits typed').1, (fits typed').2.holdable⟩ .nil)
  have answers := forms.formed.holds_tensor (fits made).1 (fits made).2 values
    (show Kind.binary .mul ∈ Kind.polynomial by decide) nofun trivial (forms.formed.afforded ⟨trivial, nofun⟩
      (limited made) (by simpa [forms.inputs] using ⟨limited typed, limited typed'⟩))
  rw [forms.inputs] at answers
  have shape : ∀ {n : Node}, n.type = x.type → n.shape = x.shape := congrArg TensorType.shape
  have stretches : ∀ {s : Shape}, s = x.shape → Shape.Stretches s x.shape := fun same => same ▸ .refl _
  refine answers.same ?_
  exact (shape made).symm ▸ Tensor.Same.zipWith (· * ·) held (.refl (whole u.shape b)) (stretches (shape typed))
    (stretches (shape typed'))

/-- One call of a layout kind between moderate shapes, on a node that holds a tensor. -/
theorem holds_moderate [Memory] {v : Workspace} {n : Node} {op : Operator} {type : TensorType} {s s' : Shape}
    {leaf : Node → Result Bytes} {t t' : Tensor Int32} (forms : w.Forms v n op [x] type)
    (listed : op.kind ∈ Kind.layout ∧ op.kind ≠ .pad) (typed : x.type = ⟨.int32, s⟩) (made : n.type = ⟨.int32, s'⟩)
    (moderate : s.Moderate) (moderate' : s'.Moderate) (same : ∀ a : Tensor Int32, a.Same t → (op.tensor s' [a]).Same t')
    (holds : x.Holds leaf t) : n.Holds leaf t' := by
  obtain ⟨c, evaluates, held⟩ := holds
  have holdable : x.shape.Holdable := by
    rw [Node.shape_eq typed]
    exact moderate.holdable
  have fits : n.type.Fits := by
    rw [made]
    exact .of_moderate moderate'
  have answers := holds_layout forms.formed forms.inputs listed.1 (absurd · listed.2) (Node.elementType_eq made) fits
    ⟨evaluates, Node.elementType_eq typed, holdable⟩
  rw [Node.shape_eq made] at answers
  exact answers.same (same _ held)

/-- Cells behind the last window are cut off, if there are any. -/
theorem exists_cut [Memory] {n : Node} (tiles : Tiles down right tall wide height width)
    (moderate : Shape.Moderate [batch, channels, height, width]) (built : w.Built ShapeRules.Lasting)
    (own : n ∈ w.graph.nodes) (typed : n.type = ⟨.int32, [batch, channels, height, width]⟩) :
    ∃ cut v, (∀ (rest : Node → Building Contributions) ds v', rest cut v = .ok ds v' →
        (if areDims [height, width] [.int (tall * down), .int (wide * right)] then pure n >>= rest
        else Building.slice (.node n) (.tuple (List.replicate 4 (.int 0)))
          (.tuple [.int batch, .int channels, .int (tall * down), .int (wide * right)]) >>= rest) w = .ok ds v') ∧
      w.Reaches v cut ⟨.int32, [batch, channels, tall * down, wide * right]⟩ ∧ ∀ leaf t, n.Holds leaf t →
        cut.Holds leaf ⟨[batch, channels, tall * down, wide * right], t.cell⟩ := by
  by_cases exactly : areDims [height, width] [.int (tall * down), .int (wide * right)] = true
  · have covered : areDims [height, width] ([tall * down, wide * right].map fun (d : Nat) => .int d) = true := by
      simpa using exactly
    cases areDims_wholes.mp covered
    refine ⟨n, w, fun rest ds v' ran => ?_, ⟨built, .refl w, own, typed⟩, fun leaf t holds => holds.same ⟨?_, ?_⟩⟩
    · exact (congrFun (if_pos exactly) w).trans ran
    · obtain ⟨_, _, held⟩ := holds
      exact held.shape.symm.trans (Node.shape_eq typed)
    · exact fun _ _ => rfl
  · have long : (4 : Nat) = n.type.shape.length := by
      rw [typed]
      rfl
    have inside : Operator.sliceDims (List.replicate 4 0)
        ([batch, channels, tall * down, wide * right].map Int.ofNat) n.type.shape =
          .ok [batch, channels, tall * down, wide * right] := by
      rw [typed]
      exact Operator.sliceDims_front
        (tiles.covered (moderate.positive batch (by simp)) (moderate.positive channels (by simp)))
    obtain ⟨cut, v, ran, forms⟩ := built.forms [n] (by simpa using own)
      (Kind.means_slice (x := n.type) (Value.lists_tuple (List.replicate 4 0))
        (Value.lists_wholes [batch, channels, tall * down, wide * right]) long long inside)
    have made : cut.type = ⟨.int32, [batch, channels, tall * down, wide * right]⟩ := by rw [forms.typed, typed]
    refine ⟨cut, v, fun rest ds v' later => ?_, { forms.toReaches with typed := made }, fun leaf t holds => ?_⟩
    · exact (congrFun (if_neg exactly) w).trans (bind_eq_ok.mpr ⟨cut, v, ran, later⟩)
    have size : t.shape = [batch, channels, height, width] := by
      obtain ⟨_, _, held⟩ := holds
      exact held.shape.symm.trans (Node.shape_eq typed)
    refine holds_moderate forms (show Kind.slice ∈ Kind.layout ∧ Kind.slice ≠ .pad by decide) typed made moderate
      (tiles.covered_bounded moderate.bounded).moderate (fun a same => ⟨rfl, fun index within => ?_⟩) holds
    obtain ⟨b, c, y, z, rfl, inB, inC, inY, inZ⟩ := Shape.contains_four
      (show Shape.Contains [batch, channels, tall * down, wide * right] index from within)
    have cell := same.cells [b, c, y, z] (by
      rw [same.shape, size]
      exact ⟨inB, inC, inY.trans_le tiles.rows, inZ.trans_le tiles.columns, trivial⟩)
    simpa [Operator.tensor, Tensor.slice] using cell

/-- Blocks of cells are summed up. -/
theorem exists_blocks [Memory] {cut : Node} (built : w.Built ShapeRules.Lasting) (own : cut ∈ w.graph.nodes)
    (typed : cut.type = ⟨.int32, [batch, channels, tall * down, wide * right]⟩)
    (moderate : Shape.Moderate [batch, channels, tall * down, wide * right]) :
    ∃ r v, (do
        let blocks ← Building.reshape (.node cut)
          (.tuple [.int batch, .int channels, .int tall, .int down, .int wide, .int right])
        return [some (← Building.sum blocks [3, 5]), none, none] : Building Contributions) w =
          .ok [some r, none, none] v ∧ w.Reaches v r ⟨.int32, [batch, channels, tall, wide]⟩ ∧
      ∃ axes : List Nat, (∀ k, k ∈ axes ↔ k < 6 ∧ Int.ofNat k ∈ [(3 : Int), 5]) ∧ ∀ leaf t, cut.Holds leaf t →
        r.Holds leaf ((t.reshape [batch, channels, tall, down, wide, right]).sum axes) := by
  have same : Shape.volume [batch, channels, tall, down, wide, right] =
      Shape.volume [batch, channels, tall * down, wide * right] := by
    simp [Shape.volume, Nat.mul_assoc]
  have volume : Shape.volume [batch, channels, tall, down, wide, right] = Shape.volume cut.type.shape := by
    rw [typed, same]
  obtain ⟨blocks, v, ran, first⟩ := built.forms [cut] (by simpa using own)
    (Kind.means_reshape (x := cut.type) (Value.lists_wholes [batch, channels, tall, down, wide, right]) volume)
  have parted : blocks.type = ⟨.int32, [batch, channels, tall, down, wide, right]⟩ := by rw [first.typed, typed]
  have front : ∀ i ∈ [(3 : Int), 5], 0 ≤ i ∧ i < blocks.type.shape.length := by
    rw [parted]
    simp
  obtain ⟨axes, members, means⟩ := Kind.means_sum front (by simp)
  obtain ⟨r, v', ran', second⟩ := first.built.forms [blocks] (by simpa using first.member) means
  have only : ∀ k, k ∈ axes ↔ k < 6 ∧ Int.ofNat k ∈ [(3 : Int), 5] := by
    rw [parted] at members
    exact members
  have summed : r.type = ⟨.int32, [batch, channels, tall, wide]⟩ := by rw [second.typed, parted, keep_blocks only]
  obtain ⟨some, some', tall_some, down_some, wide_some, right_some⟩ :
      1 ≤ batch ∧ 1 ≤ channels ∧ 1 ≤ tall ∧ 1 ≤ down ∧ 1 ≤ wide ∧ 1 ≤ right := by
    simpa [Nat.one_le_iff_ne_zero, and_assoc] using moderate.positive
  have moderate' : Shape.Moderate [batch, channels, tall, down, wide, right] := by
    refine moderate.resized ?_ (show 6 ≤ Shape.maxStretched by decide) (le_of_eq same)
    simp [some, some', tall_some, down_some, wide_some, right_some]
  have moderate'' : Shape.Moderate [batch, channels, tall, wide] := by
    refine moderate.resized ?_ moderate.axes (Shape.volume_le ?_)
    · simp [some, some', tall_some, wide_some]
    · exact .cons (le_refl _) (.cons (le_refl _) (.cons (Nat.le_mul_of_pos_right _ down_some)
        (.cons (Nat.le_mul_of_pos_right _ right_some) .nil)))
  refine ⟨r, v', bind_eq_ok.mpr ⟨blocks, v, ran, bind_eq_ok.mpr ⟨r, v', ran', rfl⟩⟩,
    ({ second.toReaches with typed := summed } : Workspace.Reaches ..).after first.keeps, axes, only,
    fun leaf t holds => ?_⟩
  have size : t.shape = [batch, channels, tall * down, wide * right] := by
    obtain ⟨_, _, held⟩ := holds
    exact held.shape.symm.trans (Node.shape_eq typed)
  have middle := holds_moderate first (show Kind.reshape ∈ Kind.layout ∧ Kind.reshape ≠ .pad by decide) typed parted
    moderate moderate' (fun a alike => alike.reshape (by rw [alike.shape, size, same])) holds
  exact holds_moderate second (show Kind.sum ∈ Kind.layout ∧ Kind.sum ≠ .pad by decide) parted summed moderate'
    moderate'' (fun a alike => alike.sum axes) middle

/-- The rule of the gradient of a pool answers a gradient of the features with what it gathers at the peaks. -/
theorem exists_gathered [Memory] (built : w.Built ShapeRules.Lasting) (pooled : Pooled dims x p)
    (routed : Routed dims x p g m)
    (tiled : Tiled dims x p batch channels height width down right) (own : m ∈ w.graph.nodes)
    (given : u ∈ w.graph.nodes) (typed : u.type = x.type) :
    ∃ r v, standardRule .maxpoolGradient m (.node u) w = .ok [some r, none, none] v ∧ w.Reaches v r g.type ∧
      ∀ leaf, v.Supplies leaf → ∀ a b, x.Evaluates leaf a → u.Evaluates leaf b →
        ∃ t, r.Holds leaf t ∧ Gathered (down, right) (whole x.shape a) (whole u.shape b) t p.shape := by
  have input : ∀ n ∈ [g, p, x], n ∈ w.graph.nodes := fun n listed =>
    (built.ordered.inputs m own n (routed.inputs ▸ listed)).1
  have features : x.shape = [batch, channels, height, width] := Node.shape_eq tiled.features
  have shape : p.shape = [batch, channels, height / down, width / right] := Node.shape_eq tiled.pooled
  obtain ⟨ones, place, v, v', made, placed, first, holds₁⟩ :=
    exists_place built pooled tiled (input x (by simp)) (input p (by simp))
  obtain ⟨selected, v₂, chosen, second, holds₂⟩ :=
    exists_selected first.built tiled first.member first.typed (first.keeps.mem given) typed
  obtain ⟨cut, v₃, trimmed, third, holds₃⟩ :=
    exists_cut tiled.tiles tiled.moderate second.built second.member (second.typed.trans tiled.features)
  obtain ⟨r, v₄, summed, last, axes, only, holds₄⟩ :=
    exists_blocks third.built third.member third.typed (tiled.tiles.covered_bounded tiled.moderate.bounded).moderate
  have result : r.type = g.type := last.typed.trans (routed.types.2.trans tiled.pooled).symm
  have keeps := second.keeps.trans third.keeps
  refine ⟨r, v₄, ?_, { last.after (first.keeps.trans keeps) with typed := result },
    fun leaf supplies a b at_x at_u => ?_⟩
  · have program : standardRule .maxpoolGradient m (.node u) = maxpoolGradientRule m (.node u) := rfl
    have read : (do (← m.params.get "dims").both) = Except.ok (.int down, .int right) := by
      obtain ⟨rfl⟩ := tiled.sizes
      exact Result.bind_eq_ok.mpr ⟨_, routed.formed.maxpoolGradient.stated, rfl⟩
    have behind : x.shape.drop 2 = [height, width] := by
      rw [features]
      rfl
    rw [tiled.sizes] at placed
    rw [program, maxpoolGradientRule, threeInputs_eq routed.inputs]
    refine bind_eq_ok.mpr ⟨_, w, rfl, bind_eq_ok.mpr ⟨_, w, Building.of_eq_ok.mpr ⟨read, rfl⟩, bind_eq_ok.mpr ⟨_, w,
      Building.of_eq_ok.mpr ⟨tiled.pooled_limited.room_doubles, rfl⟩, bind_eq_ok.mpr ⟨ones, v, made,
        bind_eq_ok.mpr ⟨place, v', placed, bind_eq_ok.mpr ⟨selected, v₂, chosen, ?_⟩⟩⟩⟩⟩⟩
    simp only [shape, behind]
    refine bind_eq_ok.mpr ⟨[.int (↑(height / down) * down), .int (↑(width / right) * right)], v₂,
      Building.of_eq_ok.mpr ⟨rfl, rfl⟩, ?_⟩
    exact trimmed _ _ _ summed
  · have alike : u.shape = x.shape := congrArg TensorType.shape typed
    obtain ⟨o, all, handed⟩ := holds₁ v₄ leaf last.built (keeps.trans last.keeps) supplies a at_x
    refine ⟨_, holds₄ leaf _ (holds₃ leaf _ (holds₂ leaf _ b handed at_u)), ?_⟩
    rw [shape] at all ⊢
    refine Tensor.gathered_blocks only features all rfl (fun index inside => ?_) tiled.tiles
    obtain ⟨i, j, y, z, rfl, inB, inC, inY, inZ⟩ := Shape.contains_four inside
    have within : Shape.Contains x.shape [i, j, y, z] := by
      rw [features]
      exact ⟨inB, inC, inY.trans_le tiled.tiles.rows, inZ.trans_le tiled.tiles.columns, trivial⟩
    show Tensor.cell _ (Shape.narrow x.shape _) * Tensor.cell _ (Shape.narrow u.shape _) = _
    rw [alike, Shape.narrow_self within]

end Gradient

namespace Sample
open Building (entry)

/-! A pool whose windows leave out the last row and the last column. -/

def poolFeatures : Node := ⟨⟨0, 0⟩, "placeholder", [], [], ⟨.int32, [1, 1, 3, 5]⟩, none⟩
def featuresPool : Node := ⟨⟨0, 1⟩, "maxpool", [poolFeatures], [("dims", .ofPair (2, 2))], ⟨.int32, [1, 1, 1, 2]⟩, none⟩
def poolGradient : Node := ⟨⟨0, 2⟩, "placeholder", [], [], ⟨.int32, [1, 1, 1, 2]⟩, none⟩
def routedGradient : Node :=
  ⟨⟨0, 3⟩, "maxpool_grad", [poolGradient, featuresPool, poolFeatures], [("dims", .ofPair (2, 2))],
    ⟨.int32, [1, 1, 3, 5]⟩, none⟩
def secondGradient : Node := ⟨⟨0, 4⟩, "placeholder", [], [], ⟨.int32, [1, 1, 3, 5]⟩, none⟩

def featuresPoolKey : MemoKey × Node := (.interior "maxpool" [0] [("dims", .ofPair (2, 2))], featuresPool)
def routedGradientKey : MemoKey × Node := (.interior "maxpool_grad" [2, 1, 0] [("dims", .ofPair (2, 2))],
    routedGradient)

def poolWorkspace : Workspace := ⟨.standard, ⟨0, .null, #[poolFeatures, featuresPool, poolGradient, routedGradient,
    secondGradient], [routedGradientKey, featuresPoolKey]⟩, .empty⟩

theorem poolWorkspace_built : poolWorkspace.Built ShapeRules.Lasting := by
  have first : Building.placeholder (.dims [1, 1, 3, 5]) (.elementType .int32) ⟨.standard, .empty 0 .null, .empty⟩ =
      .ok poolFeatures ⟨.standard, ⟨0, .null, #[poolFeatures], []⟩, .empty⟩ := rfl
  have second : Building.call "maxpool" [.node poolFeatures] (.dictionary [entry "dims" (.ofPair (2, 2))])
      ⟨.standard, ⟨0, .null, #[poolFeatures], []⟩, .empty⟩ =
        .ok featuresPool ⟨.standard, ⟨0, .null, #[poolFeatures, featuresPool], [featuresPoolKey]⟩, .empty⟩ := rfl
  have third : Building.placeholder (.dims [1, 1, 1, 2]) (.elementType .int32)
      ⟨.standard, ⟨0, .null, #[poolFeatures, featuresPool], [featuresPoolKey]⟩, .empty⟩ =
        .ok poolGradient ⟨.standard, ⟨0, .null, #[poolFeatures, featuresPool, poolGradient], [featuresPoolKey]⟩,
          .empty⟩ := rfl
  have fourth : Building.call "maxpool_grad" [.node poolGradient, .node featuresPool, .node poolFeatures]
      (.dictionary [entry "dims" (.ofPair (2, 2))])
      ⟨.standard, ⟨0, .null, #[poolFeatures, featuresPool, poolGradient], [featuresPoolKey]⟩, .empty⟩ =
        .ok routedGradient ⟨.standard, ⟨0, .null, #[poolFeatures, featuresPool, poolGradient, routedGradient],
          [routedGradientKey, featuresPoolKey]⟩, .empty⟩ := rfl
  have fifth : Building.placeholder (.dims [1, 1, 3, 5]) (.elementType .int32)
      ⟨.standard, ⟨0, .null, #[poolFeatures, featuresPool, poolGradient, routedGradient],
        [routedGradientKey, featuresPoolKey]⟩, .empty⟩ = .ok secondGradient poolWorkspace := rfl
  have routed := (((Workspace.built_empty.placeholder first).call (by simp) second).placeholder third).call
    (by simp) fourth
  exact routed.placeholder fifth

theorem poolFeatures_pooled : Node.Pooled (2, 2) poolFeatures featuresPool where
  inputs := rfl
  formed := ⟨rfl, rfl, rfl, [entry "dims" (.ofPair (2, 2))], rfl⟩
  element := rfl
  positive := by decide
  room := by decide

theorem poolGradient_routed : Node.Routed (2, 2) poolFeatures featuresPool poolGradient routedGradient where
  inputs := rfl
  formed := ⟨rfl, rfl, rfl, [entry "dims" (.ofPair (2, 2))], rfl⟩

/-- Constants have their values, and all other leaves are zeros. -/
def zeroLeaf (w : Workspace) (n : Node) : Result Bytes :=
  match n.buffer with
  | some id => .ok (w.store.get id).bytes
  | none => .ok (Bytes.zeros n.byteSize)

end Sample
end TensorDag
