import Mathlib
import TensorDag.Proofs.Building
import TensorDag.Proofs.Order

/-!
The order of a search with a path of frames is the recursive post-order, which knows no nodes but those
it has emitted; and the search takes one turn for each output, for each node and for each of its inputs.
-/
namespace TensorDag.Node

mutual

/-- Post-order by definition: nodes that are done, then a node once its inputs are. -/
def emitted : Node → List Node → List Node
  | ⟨id, kind, inputs, params, type, buffer⟩, done =>
    let n : Node := ⟨id, kind, inputs, params, type, buffer⟩
    if n.isIn done then done else emittedAll inputs done ++ [n]

def emittedAll : List Node → List Node → List Node
  | [], done => done
  | x :: rest, done => emittedAll rest (emitted x done)

end

def postOrder (outputs : List Node) : List Node := emittedAll outputs []

theorem emitted_eq (n : Node) (done : List Node) :
    emitted n done = if n.isIn done then done else emittedAll n.inputs done ++ [n] := by
  cases n
  rw [emitted]

/-- A search between two turns: outputs still to be visited, the path to the present node, and the
nodes met. -/
structure Search where
  roots : List Node
  path : List Frame
  met : Traversal

/-- One turn: advance the innermost frame, or start from the next output; at the end nothing happens. -/
def Search.turn : Search → Search
  | ⟨roots, ⟨n, []⟩ :: path, met⟩ => ⟨roots, path, met.leave n⟩
  | ⟨roots, ⟨n, x :: pending⟩ :: path, met⟩ =>
    if x.isIn met.entered then ⟨roots, ⟨n, pending⟩ :: path, met⟩
    else ⟨roots, ⟨x, x.inputs⟩ :: ⟨n, pending⟩ :: path, met.enter x⟩
  | ⟨o :: roots, [], met⟩ =>
    if o.isIn met.entered then ⟨roots, [], met⟩ else ⟨roots, [⟨o, o.inputs⟩], met.enter o⟩
  | ⟨[], [], met⟩ => ⟨[], [], met⟩

/-- Turns that a search spends on nodes: one for each input, and one to leave. -/
def turns (nodes : List Node) : Nat := (nodes.map fun n => n.inputs.length + 1).sum

theorem turns_cons (n : Node) (nodes : List Node) :
    turns (n :: nodes) = n.inputs.length + 1 + turns nodes := by
  rw [turns, List.map_cons, List.sum_cons, turns]

theorem turns_reverse (nodes : List Node) : turns nodes.reverse = turns nodes := by
  rw [turns, List.map_reverse, List.sum_reverse, turns]

/-- The turns that lead from a path to its end. What nodes on the path have passed so far was spent
before, so both sides count the path: once with all inputs, once with those still pending. -/
theorem Search.turn_path (roots : List Node) (path : List Frame) (t : Traversal) :
    ∃ k, turn^[k] ⟨roots, path, t⟩ = ⟨roots, [], traverse path t⟩ ∧
      k + turns t.left + (path.map fun frame => frame.node.inputs.length).sum =
        turns (traverse path t).left + (path.map fun frame => frame.pending.length).sum := by
  induction path, t using traverse.induct with
  | case1 t => exact ⟨0, by rw [traverse]; rfl, by simp [traverse]⟩
  | case2 t n path ih =>
    obtain ⟨k, reached, spent⟩ := ih
    refine ⟨k + 1, ?_, ?_⟩
    · rw [Function.iterate_succ_apply, traverse]
      exact reached
    · rw [turns_cons] at spent
      simp only [traverse, List.map_cons, List.sum_cons, List.length_nil]
      omega
  | case3 t n x pending path entered ih =>
    obtain ⟨k, reached, spent⟩ := ih
    refine ⟨k + 1, ?_, ?_⟩
    · rw [Function.iterate_succ_apply, traverse, if_pos entered, turn, if_pos entered]
      exact reached
    · rw [traverse, if_pos entered]
      simp only [List.map_cons, List.sum_cons, List.length_cons] at spent ⊢
      omega
  | case4 t n x pending path new ih =>
    obtain ⟨k, reached, spent⟩ := ih
    refine ⟨k + 1, ?_, ?_⟩
    · rw [Function.iterate_succ_apply, traverse, if_neg new, turn, if_neg new]
      exact reached
    · rw [traverse, if_neg new]
      simp only [List.map_cons, List.sum_cons, List.length_cons] at spent ⊢
      omega

/-- All outputs are visited, with one turn for each of them beside those spent on nodes. -/
theorem Search.turn_roots (roots : List Node) (t : Traversal) :
    ∃ k, turn^[k] ⟨roots, [], t⟩ = ⟨[], [], roots.foldl visit t⟩ ∧
      k + turns t.left = roots.length + turns (roots.foldl visit t).left := by
  induction roots generalizing t with
  | nil => exact ⟨0, rfl, by simp⟩
  | cons o roots ih =>
    rw [List.foldl_cons, visit, List.length_cons]
    by_cases met : o.isIn t.entered
    · obtain ⟨k, reached, spent⟩ := ih t
      rw [if_pos met]
      refine ⟨k + 1, ?_, by omega⟩
      rw [Function.iterate_succ_apply, turn, if_pos met]
      exact reached
    · obtain ⟨k, left, spent⟩ := turn_path roots [⟨o, o.inputs⟩] (t.enter o)
      obtain ⟨more, reached, rest⟩ := ih (traverse [⟨o, o.inputs⟩] (t.enter o))
      rw [if_neg met]
      refine ⟨more + (k + 1), ?_, ?_⟩
      · rw [Function.iterate_add_apply, Function.iterate_succ_apply, turn, if_neg met, left]
        exact reached
      · simp only [List.map_cons, List.map_nil, List.sum_cons, List.sum_nil, Traversal.enter] at spent rest ⊢
        omega

theorem Search.turn_order (outputs : List Node) :
    ∃ met, turn^[outputs.length + turns (order outputs)] ⟨outputs, [], ⟨[], []⟩⟩ = ⟨[], [], met⟩ ∧
      met.left.reverse = order outputs := by
  obtain ⟨k, reached, spent⟩ := turn_roots outputs ⟨[], []⟩
  refine ⟨outputs.foldl visit ⟨[], []⟩, ?_, by rw [order]⟩
  have all : k = outputs.length + turns (order outputs) := by
    rw [order, turns_reverse, ← spent]
    rfl
  rw [← all]
  exact reached

section
variable {family : Node → Prop}

theorem Traversal.Above.isIn_iff (arena : Arena family) {t : Traversal} {n : Node} (above : t.Above n)
    (valid : t.Valid family) (own : family n) :
    n.isIn t.left.reverse = true ↔ n.isIn t.entered = true := by
  have left : n.isIn t.left.reverse = true ↔ n ∈ t.left.reverse := arena.isIn_iff_mem own
    fun m member => valid.own m (valid.entered m (List.mem_reverse.mp member))
  rw [left, arena.isIn_iff_mem own valid.own, List.mem_reverse]
  constructor
  · exact valid.entered n
  · intro entered
    exact (above n entered).resolve_right (Nat.lt_irrefl _)

/-- What is left is emitted: marking nodes when they are entered changes nothing, since no node lies
on a path to itself. -/
theorem left_visitAll (arena : Arena family) (pending : List Node) (t : Traversal)
    (own : ∀ x ∈ pending, family x) (valid : t.Valid family) (above : ∀ x ∈ pending, t.Above x) :
    (visitAll pending t).left.reverse = emittedAll pending t.left.reverse := by
  induction measure : sizeOf pending using Nat.strongRecOn generalizing pending t with
  | ind size ih =>
    cases pending with
    | nil => rw [visitAll, emittedAll]
    | cons x rest =>
      have smaller : sizeOf rest < size := by subst measure; simp only [List.cons.sizeOf_spec]; omega
      have mine := own x (List.mem_cons_self ..)
      have higher := above x (List.mem_cons_self ..)
      have first : (visitDeep x t).left.reverse = emitted x t.left.reverse := by
        rw [visitDeep_eq, emitted_eq]
        by_cases met : x.isIn t.entered
        · rw [if_pos met, if_pos ((higher.isIn_iff arena valid mine).mpr met)]
        · have inner : sizeOf x.inputs < size := by
            have below := sizeOf_inputs_lt x
            subst measure
            simp only [List.cons.sizeOf_spec]
            omega
          have inputs := ih _ inner x.inputs (t.enter x) (fun y input => arena.inputs mine input)
            (valid.enter mine) (fun y input => higher.enter input) rfl
          rw [if_neg met, if_neg (mt (higher.isIn_iff arena valid mine).mp met), Traversal.leave,
            List.reverse_cons, inputs, Traversal.enter]
      obtain ⟨middle, added, grown⟩ := visitAll_valid arena [x] t (by simpa using mine) valid
        (by simpa using higher)
      rw [visitAll, visitAll] at middle grown
      rw [visitAll, emittedAll, ← first]
      exact ih _ smaller rest (visitDeep x t) (fun y member => own y (List.mem_cons_of_mem _ member)) middle
        (fun y member => (above y (List.mem_cons_of_mem _ member)).grown grown) rfl

variable {outputs : List Node}

theorem order_eq_postOrder (arena : Arena family) (own : ∀ o ∈ outputs, family o) :
    order outputs = postOrder outputs := by
  rw [order_eq, postOrder]
  exact left_visitAll arena outputs ⟨[], []⟩ own ⟨by simp, by simp, trivial⟩ (by simp [Traversal.Above])

end

theorem Settled.inputs {later earlier : List Node} {n : Node} (settled : Settled (later ++ n :: earlier)) :
    ∀ x ∈ n.inputs, x ∈ earlier :=
  settled.append.2.1

theorem left_traverse (path : List Frame) (t : Traversal) : t.left <:+ (traverse path t).left := by
  induction path, t using traverse.induct with
  | case1 t => simp [traverse]
  | case2 t n path ih =>
    rw [traverse]
    exact (List.suffix_cons n t.left).trans ih
  | case3 t n x pending path entered ih =>
    rw [traverse, if_pos entered]
    exact ih
  | case4 t n x pending path new ih =>
    rw [traverse, if_neg new]
    exact ih

theorem left_foldl_visit (outputs : List Node) (t : Traversal) :
    t.left <:+ (outputs.foldl visit t).left := by
  induction outputs generalizing t with
  | nil => exact List.suffix_rfl
  | cons o rest ih =>
    have one : t.left <:+ (visit t o).left := by
      unfold visit
      split
      · exact List.suffix_rfl
      · exact left_traverse [⟨o, o.inputs⟩] (t.enter o)
    exact one.trans (ih _)

theorem order_append_prefix (outputs further : List Node) :
    order outputs <+: order (outputs ++ further) := by
  rw [order, order, List.foldl_append]
  exact List.reverse_prefix.mpr (left_foldl_visit further _)

/-- The search ends, and its order is the recursive post-order of exactly the nodes that the outputs
need: each once, behind its inputs, with the order for fewer outputs in front. -/
theorem order_recursive [Memory] {allowed : ShapeRules → Prop} {w : Workspace} (built : w.Built allowed)
    {outputs : List Node} (own : ∀ o ∈ outputs, o ∈ w.graph.nodes) :
    (∃ met, Search.turn^[outputs.length + turns (order outputs)] ⟨outputs, [], ⟨[], []⟩⟩ = ⟨[], [], met⟩ ∧
        met.left.reverse = order outputs) ∧
      order outputs = postOrder outputs ∧
      (order outputs).Nodup ∧
      (∀ n, n ∈ order outputs ↔ Needed outputs n) ∧
      (∀ before n after, order outputs = before ++ n :: after → ∀ x ∈ n.inputs, x ∈ before) ∧
      ∀ further, order outputs <+: order (outputs ++ further) := by
  have arena := built.ordered.arena
  have settled := order_settled arena own
  refine ⟨Search.turn_order outputs, order_eq_postOrder arena own, List.nodup_reverse.mp settled.nodup,
    fun n => mem_order_iff arena own, ?_, order_append_prefix outputs⟩
  intro before n after split x input
  rw [split, List.reverse_append, List.reverse_cons, List.append_assoc, List.singleton_append] at settled
  exact List.mem_reverse.mp (settled.inputs x input)

end TensorDag.Node

namespace TensorDag.Sample
open Node

/-- The square is asked for twice, and once more through what it is made of. -/
theorem order_recursive_square :
    (∃ met, Search.turn^[3 + turns (order [square, total, square])] ⟨[square, total, square], [], ⟨[], []⟩⟩ =
        ⟨[], [], met⟩ ∧ met.left.reverse = order [square, total, square]) ∧
      order [square, total, square] = postOrder [square, total, square] ∧
      postOrder [square, total, square] = [x, y, total, square] := by
  have own : ∀ o ∈ [square, total, square], o ∈ workspace.graph.nodes := by simp [mem_nodes]
  obtain ⟨ends, recursive, _⟩ := order_recursive built own
  exact ⟨ends, recursive, rfl⟩

end TensorDag.Sample
