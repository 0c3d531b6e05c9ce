import TensorDag.Proofs.Movement

/-!
Contributions of convolutions and of the gradient of softmax.
-/
namespace TensorDag
open Program (bind_eq_ok pure_eq_ok)
open Building (of_eq_ok)
open Node (exact Fit Reached)
open Tensor (dot)
variable {R : Type} [CommRing R] {given : Node → Option (Tensor R)} {w w' : Workspace} {n g : Node}

/-- A node of one of the three convolution kinds. -/
structure Node.Convolves (n : Node) (c : ConvolutionAttributes) : Prop where
  attributes : ConvolutionAttributes.ofParams n.params = .ok c
  slides : Kind.Slides c

namespace Node.Convolves
variable {c : ConvolutionAttributes}

private theorem window (convolves : n.Convolves c) : n.params.get "padding" = .ok (.ofPair c.padding) ∧
    n.params.get "stride" = .ok (.ofPair c.stride) ∧
      ∀ s, c.features = some s → n.params.get "features_shape" = .ok (.dims s) := by
  obtain ⟨p, needed, attributes⟩ := Result.bind_eq_ok.mp convolves.attributes
  obtain ⟨s, needed', attributes⟩ := Result.bind_eq_ok.mp attributes
  obtain ⟨features, wanted, attributes⟩ := Result.bind_eq_ok.mp attributes
  obtain ⟨filters, _, made⟩ := Result.bind_eq_ok.mp attributes
  cases made
  refine ⟨Params.get_pair needed, Params.get_pair needed', fun s stated => ?_⟩
  cases stated
  exact Params.get_dims (Params.need_of_want wanted)

theorem padding (convolves : n.Convolves c) : n.params.get "padding" = .ok (.ofPair c.padding) := convolves.window.1

theorem stride (convolves : n.Convolves c) : n.params.get "stride" = .ok (.ofPair c.stride) := convolves.window.2.1

theorem features {s : Shape} (convolves : n.Convolves c) (stated : c.features = some s) :
    n.params.get "features_shape" = .ok (.dims s) :=
  convolves.window.2.2 s stated

end Node.Convolves

namespace Node.Formed
variable {c : ConvolutionAttributes}

private theorem convolves_of {name : String} {wrap : ConvolutionAttributes → Operator}
    (injective : ∀ {c c'}, wrap c = wrap c' → c = c') {es : Entries} {ps : Params}
    (attributes : (do return wrap (← ConvolutionAttributes.ofParams ps)) = Except.ok (wrap c))
    (spelled : (do return wrap (← Kind.spellConvolution name es)) = Except.ok (wrap c)) :
    ConvolutionAttributes.ofParams ps = .ok c ∧ Kind.Slides c := by
  obtain ⟨read, found, made⟩ := Result.bind_eq_ok.mp attributes
  obtain ⟨meant, written, same⟩ := Result.bind_eq_ok.mp spelled
  cases injective (Except.ok.inj made)
  cases injective (Except.ok.inj same)
  exact ⟨found, Kind.spellConvolution_slides written⟩

theorem convolution (formed : n.Formed (.convolution c)) : n.Convolves c := by
  obtain ⟨es, spelled⟩ := formed.spelled
  obtain ⟨attributes, slides⟩ := convolves_of Operator.convolution.inj formed.attributes spelled
  exact ⟨attributes, slides⟩

theorem featuresGradient (formed : n.Formed (.featuresGradient c)) : n.Convolves c := by
  obtain ⟨es, spelled⟩ := formed.spelled
  obtain ⟨attributes, slides⟩ := convolves_of Operator.featuresGradient.inj formed.attributes spelled
  exact ⟨attributes, slides⟩

theorem filtersGradient (formed : n.Formed (.filtersGradient c)) : n.Convolves c := by
  obtain ⟨es, spelled⟩ := formed.spelled
  obtain ⟨attributes, slides⟩ := convolves_of Operator.filtersGradient.inj formed.attributes spelled
  exact ⟨attributes, slides⟩

end Node.Formed

namespace Gradient
variable {cs : Contributions} {c : ConvolutionAttributes}

theorem windowOf_eq (convolves : n.Convolves c) : windowOf n = pure (Kind.window c) := by
  rw [windowOf, convolves.padding, convolves.stride]
  rfl

theorem convolutionRule_passes (reached : Reached w n g (.convolution c)) (fit : Fit given)
    (ran : convolutionRule n (.node g) w = .ok cs w') : w.Passes given w' n g (.convolution c) cs := by
  have convolves := reached.formed.convolution
  simp only [convolutionRule, bind_eq_ok, pure_eq_ok] at ran
  obtain ⟨⟨a, b⟩, _, two, window, _, windowed, da, w₁, left, db, _, right, rfl, rfl⟩ := ran
  obtain ⟨inputs, rfl⟩ := twoInputs_eq_ok two
  rw [windowOf_eq convolves, pure_eq_ok] at windowed
  obtain ⟨rfl, rfl⟩ := windowed
  obtain ⟨c₁, left, same, sized⟩ :=
    reached.exact.featuresGradient reached.gradient (reached.input (by simp [inputs])) left
  obtain ⟨c₂, right, same', sized'⟩ := left.exact.filtersGradient (left.grows.nodes g reached.gradient)
    (left.grows.nodes a (reached.input (by simp [inputs]))) right
  refine .two (left.grows.trans right.grows) right.exact (right.grows.nodes da left.member) right.member inputs
    fun x y atFirst atSecond => ?_
  have shaped := reached.shaped
  rw [inputs] at shaped
  obtain ⟨_, _, _, _, _, _, _, _, _, features, kernel, result⟩ := ConvolutionAttributes.shape_eq_ok shaped
  have first := reached.value_shape fit (by simp [inputs]) atFirst
  have second := reached.value_shape fit (by simp [inputs]) atSecond
  have gradient := reached.gradient_shape fit
  have before : da.exact given = (g.exact given).featuresGradient c₁.windowing da.shape (b.exact given) :=
    left.exact_eq fit
  have behind : db.exact given = (g.exact given).filtersGradient c₂.windowing db.shape (a.exact given) :=
    right.exact_eq fit
  rw [before, behind, same, same', sized, sized', ← atFirst, ← atSecond, ← first, ← second, ← gradient]
  obtain ⟨down, right⟩ := convolves.slides.windowing
  exact Tensor.dot_tangent_convolution c.windowing down right (first.trans features) (second.trans kernel)
    (gradient.trans result)

theorem featuresGradientRule_passes (reached : Reached w n g (.featuresGradient c)) (fit : Fit given)
    (ran : featuresGradientRule n (.node g) w = .ok cs w') : w.Passes given w' n g (.featuresGradient c) cs := by
  have convolves := reached.formed.featuresGradient
  simp only [featuresGradientRule, bind_eq_ok, pure_eq_ok] at ran
  obtain ⟨⟨a, b⟩, _, two, window, _, windowed, da, w₁, left, db, _, right, rfl, rfl⟩ := ran
  obtain ⟨inputs, rfl⟩ := twoInputs_eq_ok two
  rw [windowOf_eq convolves, pure_eq_ok] at windowed
  obtain ⟨rfl, rfl⟩ := windowed
  obtain ⟨c₁, left, same⟩ :=
    reached.exact.convolution reached.gradient (reached.input (by simp [inputs])) left
  obtain ⟨c₂, right, same', sized⟩ := left.exact.filtersGradient
    (left.grows.nodes a (reached.input (by simp [inputs]))) (left.grows.nodes g reached.gradient) right
  refine .two (left.grows.trans right.grows) right.exact (right.grows.nodes da left.member) right.member inputs
    fun x y atFirst atSecond => ?_
  have shaped := reached.shaped
  rw [inputs] at shaped
  obtain ⟨_, _, _, _, _, _, _, _, _, features, kernel, result⟩ := ConvolutionAttributes.shape_eq_ok shaped.2
  have first := reached.value_shape fit (by simp [inputs]) atFirst
  have second := reached.value_shape fit (by simp [inputs]) atSecond
  have gradient := reached.gradient_shape fit
  have before : da.exact given = (g.exact given).convolution c₁.windowing da.shape (b.exact given) :=
    left.exact_eq fit
  have behind : db.exact given = (a.exact given).filtersGradient c₂.windowing db.shape (g.exact given) :=
    right.exact_eq fit
  rw [before, behind, same, same', sized, ← atFirst, ← atSecond, ← second, ← gradient]
  obtain ⟨down, right⟩ := convolves.slides.windowing
  exact Tensor.dot_tangent_featuresGradient c.windowing down right (gradient.trans features) (second.trans kernel)
    (first.trans result)

theorem filtersGradientRule_passes (reached : Reached w n g (.filtersGradient c)) (fit : Fit given)
    (ran : filtersGradientRule n (.node g) w = .ok cs w') : w.Passes given w' n g (.filtersGradient c) cs := by
  have convolves := reached.formed.filtersGradient
  simp only [filtersGradientRule, bind_eq_ok, pure_eq_ok] at ran
  obtain ⟨⟨a, b⟩, _, two, window, _, windowed, da, w₁, left, db, _, right, rfl, rfl⟩ := ran
  obtain ⟨inputs, rfl⟩ := twoInputs_eq_ok two
  rw [windowOf_eq convolves, pure_eq_ok] at windowed
  obtain ⟨rfl, rfl⟩ := windowed
  obtain ⟨c₁, left, same⟩ :=
    reached.exact.convolution (reached.input (by simp [inputs])) reached.gradient left
  obtain ⟨c₂, right, same', sized⟩ := left.exact.featuresGradient
    (left.grows.nodes a (reached.input (by simp [inputs]))) (left.grows.nodes g reached.gradient) right
  refine .two (left.grows.trans right.grows) right.exact (right.grows.nodes da left.member) right.member inputs
    fun x y atFirst atSecond => ?_
  have shaped := reached.shaped
  rw [inputs] at shaped
  obtain ⟨_, _, _, _, _, _, _, _, _, features, kernel, result⟩ := ConvolutionAttributes.shape_eq_ok shaped.2
  have first := reached.value_shape fit (by simp [inputs]) atFirst
  have second := reached.value_shape fit (by simp [inputs]) atSecond
  have gradient := reached.gradient_shape fit
  have before : da.exact given = (b.exact given).convolution c₁.windowing da.shape (g.exact given) :=
    left.exact_eq fit
  have behind : db.exact given = (a.exact given).featuresGradient c₂.windowing db.shape (g.exact given) :=
    right.exact_eq fit
  rw [before, behind, same, same', sized, ← atFirst, ← atSecond, ← second, ← gradient]
  obtain ⟨down, right⟩ := convolves.slides.windowing
  exact Tensor.dot_tangent_filtersGradient c.windowing down right (second.trans features) (gradient.trans kernel)
    (first.trans result)

end Gradient

/-! The gradient of softmax is built of nodes of one shape. -/

theorem Tensor.zipWith_cell {S T : Type} {f : S → S → T} {s t : Shape} {a b : Tensor S} {i : Index}
    (left : a.shape = s) (right : b.shape = s) (inside : Shape.Contains s i) :
    (zipWith f t a b).cell i = f (a.cell i) (b.cell i) := by
  simp only [zipWith, left, right, Shape.narrow_self inside]

/-- A builder that leads to a node of a shape with known cells. -/
structure Workspace.Fills (given : Node → Option (Tensor R)) (w w' : Workspace) (m : Node) (s : Shape)
    (cell : Index → R) : Prop where
  grows : w.Grows w'
  exact : w'.Exact
  member : m ∈ w'.graph.nodes
  shape : m.shape = s
  cells : ∀ i, Shape.Contains s i → (m.exact given).cell i = cell i

namespace Workspace.Exact
variable {m a b t x : Node} {s lead : Shape} {dim : Nat}

theorem fill {op : BinaryKind} {f : R → R → R} (exact : w.Exact) (fit : Fit given)
    (polynomial : Kind.binary op ∈ Kind.polynomial)
    (computes : ∀ shape x y, (Operator.binary op).tensor shape [x, y] = Tensor.zipWith f shape x y)
    (first : a ∈ w.graph.nodes) (second : b ∈ w.graph.nodes) (left : a.shape = s) (right : b.shape = s)
    (made : Building.binary op a b w = .ok m w') :
    w.Fills given w' m s fun i => f ((a.exact given).cell i) ((b.exact given).cell i) := by
  have makes := exact.binary polynomial first second made
  have stretches : Shape.Stretches b.shape a.shape := by
    rw [left, right]
    exact .refl s
  refine ⟨makes.grows, makes.exact, makes.member, (stretches.broadcast?_eq makes.shaped).trans left, fun i inside => ?_⟩
  rw [makes.exact_eq fit]
  exact (congrArg (Tensor.cell · i) (computes ..)).trans (Tensor.zipWith_cell
    ((exact.exact_shape fit first).trans left) ((exact.exact_shape fit second).trans right) inside)

theorem fill_mul (exact : w.Exact) (fit : Fit given) (first : a ∈ w.graph.nodes) (second : b ∈ w.graph.nodes)
    (left : a.shape = s) (right : b.shape = s) (made : Building.mul a b w = .ok m w') :
    w.Fills given w' m s fun i => (a.exact given).cell i * (b.exact given).cell i :=
  exact.fill fit (by decide) (fun _ _ _ => rfl) first second left right made

theorem fill_sub (exact : w.Exact) (fit : Fit given) (first : a ∈ w.graph.nodes) (second : b ∈ w.graph.nodes)
    (left : a.shape = s) (right : b.shape = s) (made : Building.sub a b w = .ok m w') :
    w.Fills given w' m s fun i => (a.exact given).cell i - (b.exact given).cell i :=
  exact.fill fit (by decide) (fun _ _ _ => rfl) first second left right made

theorem fill_total (exact : w.Exact) (fit : Fit given) (own : x ∈ w.graph.nodes) (shape : x.shape = lead ++ [dim])
    (made : Gradient.lastAxisTotal x w = .ok t w') :
    w.Fills given w' t (lead ++ [dim]) fun i => ∑ l ∈ Finset.range dim, (x.exact given).cell (i.dropLast ++ [l]) := by
  have rank : (x.shape.length : Int) - 1 = lead.length := by
    rw [shape, List.length_append, List.length_singleton]
    omega
  have before : x.shape.dropLast = lead := by rw [shape, List.dropLast_concat]
  simp only [Gradient.lastAxisTotal, bind_eq_ok, rank, before] at made
  obtain ⟨m, _, summed, r, _, reshaped, stretched⟩ := made
  obtain ⟨axes, sum, members⟩ := exact.sum own (by simp) summed
  have reshape := sum.exact.reshape sum.member (Value.lists_dims _) reshaped
  have broadcast := reshape.exact.broadcast reshape.member stretched
  refine ⟨(sum.grows.trans reshape.grows).trans broadcast.grows, broadcast.exact, broadcast.member,
    broadcast.shaped.1.trans shape, fun i inside => ?_⟩
  obtain ⟨p, k, rfl, left, right⟩ := Shape.contains_append_iff.mp inside
  have only : ∀ k, k ∈ axes ↔ k = lead.length := fun k => by
    rw [members, shape]
    simp
    omega
  have whole := exact.exact_shape fit own
  have total : m.exact given = (x.exact given).sum axes := sum.exact_eq fit
  have kept : r.exact given = (m.exact given).reshape r.shape := reshape.exact_eq fit
  have spread : t.exact given = (r.exact given).broadcast t.shape := broadcast.exact_eq fit
  match k, right with
  | [k], _ =>
    rw [spread, kept, total, reshape.shaped.1, broadcast.shaped.1, List.dropLast_concat, ← whole]
    exact Tensor.last_total (whole.trans shape) only left

end Workspace.Exact

namespace Gradient
variable {cs : Contributions}

theorem softmaxGradientRule_passes [Memory] (reached : Reached w n g .softmaxGradient) (fit : Fit given)
    (ran : softmaxGradientRule n (.node g) w = .ok cs w') : w.Passes given w' n g .softmaxGradient cs := by
  simp only [softmaxGradientRule, bind_eq_ok, pure_eq_ok] at ran
  obtain ⟨⟨u, y⟩, _, two, du, w₁, first, p, w₂, weighted, t, w₃, summed, r, w₄, rest, left, w₅, outer, q, w₆, weighted',
    t', w₇, summed', right, w₈, inner, dy, _, made, rfl, rfl⟩ := ran
  obtain ⟨inputs, rfl⟩ := twoInputs_eq_ok two
  obtain ⟨lead, dim, split⟩ := (List.eq_nil_or_concat' n.shape).resolve_left (reached.axes rfl)
  have shaped := reached.shaped
  rw [inputs] at shaped
  obtain ⟨sameU, sameY⟩ : u.shape = n.shape ∧ y.shape = n.shape := shaped
  rw [split] at sameU sameY
  have sameG := reached.shape.trans split
  have ownU : u ∈ w.graph.nodes := reached.input (by simp [inputs])
  have ownY : y ∈ w.graph.nodes := reached.input (by simp [inputs])
  have du_makes := reached.exact.softmaxGradient reached.gradient ownY (by simp [sameG]) (by simp [sameY]) first
  have g₁ := du_makes.grows
  have p_fills := du_makes.exact.fill_mul fit (g₁.nodes u ownU) (g₁.nodes y ownY) sameU sameY weighted
  have g₂ := g₁.trans p_fills.grows
  have t_fills := p_fills.exact.fill_total fit p_fills.member p_fills.shape summed
  have g₃ := g₂.trans t_fills.grows
  have r_fills := t_fills.exact.fill_sub fit (g₃.nodes u ownU) t_fills.member sameU t_fills.shape rest
  have g₄ := g₃.trans r_fills.grows
  have l_fills := r_fills.exact.fill_mul fit (g₄.nodes g reached.gradient) r_fills.member sameG r_fills.shape outer
  have g₅ := g₄.trans l_fills.grows
  have q_fills := l_fills.exact.fill_mul fit (g₅.nodes g reached.gradient) (g₅.nodes y ownY) sameG sameY weighted'
  have g₆ := g₅.trans q_fills.grows
  have t'_fills := q_fills.exact.fill_total fit q_fills.member q_fills.shape summed'
  have g₇ := g₆.trans t'_fills.grows
  have i_fills := t'_fills.exact.fill_mul fit (g₇.nodes u ownU) t'_fills.member sameU t'_fills.shape inner
  have later := (q_fills.grows.trans t'_fills.grows).trans i_fills.grows
  have dy_fills := i_fills.exact.fill_sub fit (later.nodes left l_fills.member) i_fills.member l_fills.shape
    i_fills.shape made
  have behind := (((p_fills.grows.trans t_fills.grows).trans r_fills.grows).trans l_fills.grows).trans
    (later.trans dy_fills.grows)
  refine .two (g₁.trans behind) dy_fills.exact (behind.nodes du du_makes.member) dy_fills.member inputs
    fun a b atFirst atSecond => ?_
  have softmax : du.exact given = Tensor.softmaxGradient (g.exact given) (y.exact given) := du_makes.exact_eq fit
  have balances : Tensor.Balances (dy.exact given) (g.exact given) (u.exact given) (y.exact given) lead dim := by
    refine ⟨fun i outer k below => ?_⟩
    have inside : ∀ k < dim, Shape.Contains (lead ++ [dim]) (i ++ [k]) := fun k below =>
      (Shape.mem_box.mp outer).append ⟨below, trivial⟩
    have row : ∑ l ∈ Finset.range dim, (p.exact given).cell (i ++ [l]) =
        ∑ l ∈ Finset.range dim, (u.exact given).cell (i ++ [l]) * (y.exact given).cell (i ++ [l]) :=
      Finset.sum_congr rfl fun l below => p_fills.cells _ (inside l (Finset.mem_range.mp below))
    have row' : ∑ l ∈ Finset.range dim, (q.exact given).cell (i ++ [l]) =
        ∑ l ∈ Finset.range dim, (g.exact given).cell (i ++ [l]) * (y.exact given).cell (i ++ [l]) :=
      Finset.sum_congr rfl fun l below => q_fills.cells _ (inside l (Finset.mem_range.mp below))
    have here := inside k below
    rw [dy_fills.cells _ here, l_fills.cells _ here, i_fills.cells _ here, r_fills.cells _ here, t_fills.cells _ here,
      t'_fills.cells _ here, List.dropLast_concat, row, row']
  rw [softmax, ← atSecond]
  rw [← atFirst, ← atSecond] at balances
  exact Tensor.dot_tangent_softmaxGradient ((reached.value_shape fit (by simp [inputs]) atFirst).trans sameU)
    ((reached.value_shape fit (by simp [inputs]) atSecond).trans sameY) balances

/-- The rule of every polynomial kind passes the gradient of a node on to its inputs. -/
theorem standardRule_passes [Memory] {op : Operator} (reached : Reached w n g op) (fit : Fit given)
    (ran : standardRule op.kind n (.node g) w = .ok cs w') : w.Passes given w' n g op cs := by
  have polynomial := reached.polynomial
  cases op with
  | binary op =>
    cases op with
    | add => exact addRule_passes reached fit ran
    | sub => exact subRule_passes reached fit ran
    | mul => exact mulRule_passes reached fit ran
    | _ => exact absurd polynomial (by simp [Operator.kind, Kind.polynomial])
  | unary op =>
    cases op with
    | neg => exact negRule_passes reached fit ran
    | _ => exact absurd polynomial (by simp [Operator.kind, Kind.polynomial])
  | matmul => exact matmulRule_passes reached fit ran
  | sum => exact sumRule_passes reached fit ran
  | reshape => exact reshapeRule_passes reached fit ran
  | transpose => exact transposeRule_passes reached fit ran
  | slice => exact sliceRule_passes reached fit ran
  | pad => exact padRule_passes reached fit ran
  | repeated => exact repeatedRule_passes reached fit ran
  | broadcast => exact broadcastRule_passes reached fit ran
  | convolution => exact convolutionRule_passes reached fit ran
  | featuresGradient => exact featuresGradientRule_passes reached fit ran
  | filtersGradient => exact filtersGradientRule_passes reached fit ran
  | softmaxGradient => exact softmaxGradientRule_passes reached fit ran
  | _ => exact absurd polynomial (by simp [Operator.kind, Kind.polynomial])

end Gradient
end TensorDag
