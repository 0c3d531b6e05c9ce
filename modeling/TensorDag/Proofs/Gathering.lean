import TensorDag.Proofs.Making

/-!
Gradients that are summed over the axes along which a node was stretched: what they gather is what the
cells of the node pass on.
-/
namespace TensorDag
open Program (bind_eq_ok pure_eq_ok throw_eq_ok)
open Building (of_eq_ok)

theorem Param.same_int (i j : Int) : (Param.int i).same (.int j) = decide (i = j) := by
  simp [same, sameAtom, Atom.number?, compareNumbers]

theorem Value.isDim_int (dim : Nat) (i : Int) : Value.isDim dim (.int i) = decide (i = dim) :=
  Param.same_int i dim

namespace Gradient
open Shape (Collapses Stretches)

theorem areDims_wholes : ∀ {s t : Shape}, areDims s (t.map fun (d : Nat) => .int d) = true ↔ t = s
  | [], [] => by simp [areDims]
  | [], _ :: _ => by simp [areDims]
  | _ :: _, [] => by simp [areDims]
  | d :: s, e :: t => by
    have rest := areDims_wholes (s := s) (t := t)
    simp only [areDims, List.length_map, Bool.and_eq_true, decide_eq_true_eq] at rest
    simp only [areDims, List.map_cons, List.length_cons, List.length_map, List.zipWith_cons_cons,
      List.all_cons, id, Value.isDim_int, Bool.and_eq_true, decide_eq_true_eq, List.cons.injEq, ← rest,
      Nat.cast_inj, Nat.add_right_cancel_iff]
    exact and_left_comm

theorem dimAt_append (lead tail : Shape) (dim : Nat) :
    dimAt (lead ++ dim :: tail) (lead.length : Int) = .ok dim := by
  have inside : lead.length < (lead ++ dim :: tail).length := by simp
  rw [dimAt, place?_ofNat inside, Option.bind_some, List.getElem?_append_right (le_refl _), Nat.sub_self]
  rfl

/-- The axes that are listed as widened are those along which a shape of one cell was stretched. -/
theorem widened_returns : ∀ {a tail : Shape} (lead : Shape), List.Forall₂ (fun d e => d = e ∨ d = 1) a tail →
    ∃ is, widened (lead ++ tail) lead.length (a.map fun (d : Nat) => decide ((d : Int) = (1 : Nat))) = .ok is ∧
      (∀ i ∈ is, (lead.length : Int) ≤ i ∧ i < (lead ++ tail).length) ∧ is.Nodup ∧ ∀ axes : List Nat,
        (∀ k, lead.length ≤ k → k < lead.length + tail.length → (k ∈ axes ↔ Int.ofNat k ∈ is)) →
          Collapses axes lead.length tail a
  | [], [], _, _ => ⟨[], rfl, by simp, .nil, fun _ _ => trivial⟩
  | d :: a, e :: tail, lead, .cons agree rest => by
    have moved : lead ++ e :: tail = (lead ++ [e]) ++ tail := by simp
    have next : (lead.length : Int) + 1 = ((lead ++ [e]).length : Nat) := by simp
    obtain ⟨others, later, bounds, distinct, collapses⟩ := widened_returns (lead ++ [e]) rest
    rw [← moved, ← next] at later
    have size : (lead ++ [e]).length = lead.length + 1 := by simp
    rw [← moved, size] at bounds
    rw [size] at collapses
    have apart : (lead.length : Int) ∉ others := fun old => absurd (bounds _ old).1 (by simp)
    by_cases wide : d = 1 ∧ e ≠ 1
    · -- this axis was widened
      refine ⟨lead.length :: others, ?_, ?_, List.nodup_cons.mpr ⟨apart, distinct⟩, fun axes members => ⟨?_, ?_⟩⟩
      · rw [List.map_cons, widened, wide.1, dimAt_append, later]
        simp [Except.map, wide.2, bind, Except.bind, pure, Except.pure]
      · refine List.forall_mem_cons.mpr ⟨⟨le_refl _, by simp⟩, fun i old => ?_⟩
        have := bounds i old
        omega
      · have listed : lead.length ∈ axes := (members _ (le_refl _) (by simp)).mpr (List.mem_cons_self ..)
        rw [if_pos (List.contains_iff_mem.mpr listed)]
        exact wide.1
      · refine collapses axes fun k low high => ?_
        rw [members k (by omega) (by rw [List.length_cons]; omega), List.mem_cons]
        refine ⟨fun found => found.resolve_left fun same => ?_, .inr⟩
        have := Int.ofNat.inj same
        omega
    · refine ⟨others, ?_, fun i old => ?_, distinct, fun axes members => ⟨?_, ?_⟩⟩
      · rw [List.map_cons, widened, dimAt_append, later]
        by_cases single : d = 1
        · have kept : e = 1 := by omega
          simp [Except.map, single, kept, bind, Except.bind, pure, Except.pure]
        · simp [single, bind, Except.bind, pure, Except.pure]
      · have := bounds i old
        omega
      · have absent : lead.length ∉ axes := fun listed => apart ((members _ (le_refl _) (by simp)).mp listed)
        rw [if_neg fun contained => absent (List.contains_iff_mem.mp contained)]
        omega
      · exact collapses axes fun k low high => members k (by omega) (by rw [List.length_cons]; omega)

/-- Axes in front and widened ones are all that a stretched shape has beyond the shape before. -/
theorem exists_widened {a tail : Shape} (lead : Shape) (agree : List.Forall₂ (fun d e => d = e ∨ d = 1) a tail) :
    ∃ wide, widened (lead ++ tail) lead.length (a.map fun (d : Nat) => decide ((d : Int) = (1 : Nat))) = .ok wide ∧
      (∀ i ∈ (List.range lead.length).map Int.ofNat ++ wide, 0 ≤ i ∧ i < (lead ++ tail).length) ∧
      ((List.range lead.length).map Int.ofNat ++ wide).Nodup ∧
      ∀ axes : List Nat, (∀ j, j ∈ axes ↔
        j < (lead ++ tail).length ∧ Int.ofNat j ∈ (List.range lead.length).map Int.ofNat ++ wide) →
          Collapses axes 0 (lead ++ tail) (List.replicate lead.length 1 ++ a) := by
  obtain ⟨wide, found, bounds, distinct, collapses⟩ := widened_returns lead agree
  have front : ∀ j, Int.ofNat j ∈ (List.range lead.length).map Int.ofNat ↔ j < lead.length := fun j => by simp
  refine ⟨wide, found, fun i member => ?_, ?_, fun axes members => ?_⟩
  · rcases List.mem_append.mp member with inFront | old
    · obtain ⟨k, below, rfl⟩ := List.mem_map.mp inFront
      have := List.mem_range.mp below
      rw [List.length_append]
      exact ⟨Int.natCast_nonneg k, by simp only [Int.ofNat_eq_natCast]; omega⟩
    · have := bounds i old
      omega
  · refine List.nodup_append.mpr ⟨List.nodup_range.map fun _ _ => Int.ofNat.inj, distinct, ?_⟩
    rintro _ inFront i old rfl
    obtain ⟨k, below, rfl⟩ := List.mem_map.mp inFront
    have := (bounds _ old).1
    have := List.mem_range.mp below
    simp only [Int.ofNat_eq_natCast] at *
    omega
  · refine Collapses.behind (fun k _ below => ?_) ?_
    · rw [Nat.zero_add] at below
      exact (members k).mpr ⟨by rw [List.length_append]; omega, List.mem_append_left _ ((front k).mpr below)⟩
    · rw [Nat.zero_add]
      refine collapses axes fun k low high => ?_
      rw [members, List.mem_append, front, List.length_append]
      exact ⟨fun found => found.2.resolve_left (by omega), fun old => ⟨by omega, .inr old⟩⟩

/-- A gradient of the shape is handed on; another one is summed over what collapses, and reshaped. -/
theorem unbroadcastTo_eq {g a : Node} (stretches : Stretches a.shape g.shape) :
    g.shape = a.shape ∧ unbroadcastTo (.node g) a = pure g ∨
      ∃ is : List Int, ∃ k : Nat, (∀ i ∈ is, 0 ≤ i ∧ i < g.shape.length) ∧ is.Nodup ∧
        (∀ axes : List Nat, (∀ j, j ∈ axes ↔ j < g.shape.length ∧ Int.ofNat j ∈ is) →
          Collapses axes 0 g.shape (List.replicate k 1 ++ a.shape)) ∧
        unbroadcastTo (.node g) a = (do
          let reduced ← Building.sum g is
          if areDims reduced.shape (a.shape.map fun (d : Nat) => .int d) then return reduced
          else Building.reshape (.node reduced) (.tuple (a.shape.map fun (d : Nat) => .int d))) := by
  obtain ⟨lead, tail, split, agree⟩ := stretches
  have toward : unbroadcastTo (.node g) a = unbroadcast g (a.shape.map fun (d : Nat) => .int d) := rfl
  rw [toward]
  by_cases same : g.shape = a.shape
  · exact .inl ⟨same, by rw [unbroadcast, if_pos (areDims_wholes.mpr same.symm)]⟩
  right
  obtain ⟨wide, found, bounds, distinct, collapses⟩ := exists_widened lead agree
  have size : (g.shape.length : Int) - (a.shape.map fun (d : Nat) => Value.int d).length = lead.length := by
    rw [split, List.length_map, List.length_append, agree.length_eq]
    omega
  have singles : ((a.shape.map fun (d : Nat) => Value.int d).map (Value.isDim 1)) =
      a.shape.map fun (d : Nat) => decide ((d : Int) = (1 : Nat)) := by
    rw [List.map_map]
    exact List.map_congr_left fun d _ => Value.isDim_int 1 d
  have some : ¬((List.range lead.length).map Int.ofNat ++ wide).isEmpty = true := by
    -- without axes to sum over the shapes were the same
    intro empty
    rw [List.isEmpty_iff] at empty
    have none : lead.length = 0 := by simpa using congrArg List.length (List.append_eq_nil_iff.mp empty).1
    have whole := (collapses [] (by simp [empty])).of_nil
    rw [none, ← split] at whole
    exact same whole.symm
  refine ⟨_, lead.length, by rwa [split], distinct, by rwa [split], ?_⟩
  rw [unbroadcast, if_neg fun dims => same (areDims_wholes.mp dims).symm]
  dsimp only
  rw [size, singles, split, found, Int.toNat_natCast]
  exact if_neg some

theorem unbroadcastTo_cases {g u a : Node} {w w' : Workspace} (stretches : Stretches a.shape g.shape)
    (made : unbroadcastTo (.node g) a w = .ok u w') :
    g.shape = a.shape ∧ u = g ∧ w' = w ∨
      ∃ is : List Int, ∃ k : Nat, ∃ reduced middle, (∀ i ∈ is, 0 ≤ i) ∧
        (∀ axes : List Nat, (∀ j, j ∈ axes ↔ j < g.shape.length ∧ Int.ofNat j ∈ is) →
          Collapses axes 0 g.shape (List.replicate k 1 ++ a.shape)) ∧
        Building.sum g is w = .ok reduced middle ∧
        (reduced.shape = a.shape ∧ u = reduced ∧ w' = middle ∨
          Building.reshape (.node reduced) (.tuple (a.shape.map fun (d : Nat) => .int d)) middle = .ok u w') := by
  rcases unbroadcastTo_eq stretches with ⟨same, program⟩ | ⟨is, k, bounds, _, collapses, program⟩
  · rw [program, pure_eq_ok] at made
    exact .inl ⟨same, made.1.symm, made.2.symm⟩
  · rw [program, bind_eq_ok] at made
    obtain ⟨reduced, middle, summed, made⟩ := made
    refine .inr ⟨is, k, reduced, middle, fun i member => (bounds i member).1, collapses, summed, ?_⟩
    split at made
    · rename_i dims
      exact .inl ⟨(areDims_wholes.mp dims).symm, (pure_eq_ok.mp made).1.symm, (pure_eq_ok.mp made).2.symm⟩
    · exact .inr made

end Gradient

namespace Workspace
open Node (exact Fit)
variable {R : Type} [CommRing R]

/-- A builder that leads to a node of a shape, in which another node is gathered. -/
structure Gathers (given : Node → Option (Tensor R)) (w w' : Workspace) (u g : Node) (shape : Shape) : Prop where
  grows : w.Grows w'
  exact : w'.Exact
  member : u ∈ w'.graph.nodes
  shape : u.shape = shape
  gathers : (u.exact given).Gathers (g.exact given)

variable {given : Node → Option (Tensor R)} {w w' : Workspace} {g u a : Node}

theorem Gathers.exact_shape {shape : Shape} (gathers : w.Gathers given w' u g shape) (fit : Fit given) :
    (u.exact given).shape = shape :=
  (gathers.exact.exact_shape fit gathers.member).trans gathers.shape

/-- To sum a gradient over what was stretched gathers it. -/
theorem Exact.gather (exact : w.Exact) (fit : Fit given) (own : g ∈ w.graph.nodes)
    (stretches : Shape.Stretches a.shape g.shape) (made : Gradient.unbroadcastTo (.node g) a w = .ok u w') :
    w.Gathers given w' u g a.shape := by
  rcases Gradient.unbroadcastTo_cases stretches made with
    ⟨same, rfl, rfl⟩ | ⟨is, k, reduced, middle, front, collapses, summed, last⟩
  · exact ⟨.refl _, exact, own, same, .refl _⟩
  obtain ⟨axes, sum, members⟩ := exact.sum own front summed
  have shape := exact.exact_shape fit own
  have collapses : Shape.Collapses axes 0 (g.exact given).shape (List.replicate k 1 ++ a.shape) :=
    shape ▸ collapses axes members
  have total : reduced.exact given = (g.exact given).sum axes := sum.exact_eq fit
  rcases last with ⟨same, rfl, rfl⟩ | reshaped
  · refine ⟨sum.grows, sum.exact, sum.member, same, total ▸ Tensor.gathers_total collapses (shape ▸ stretches) ?_⟩
    rw [← total, sum.exact.exact_shape fit sum.member, same]
  · have reshape := sum.exact.reshape sum.member (Value.lists_wholes a.shape) reshaped
    have same : u.shape = a.shape := reshape.shaped.1
    refine ⟨sum.grows.trans reshape.grows, reshape.exact, reshape.member, same, ?_⟩
    have reshaped : u.exact given = (reduced.exact given).reshape u.shape := reshape.exact_eq fit
    rw [reshaped, same, total]
    exact Tensor.gathers_sum collapses (shape ▸ stretches)

end Workspace
end TensorDag
