import TensorDag.Proofs.Arena

/-!
The order of a traversal. `Node.visitDeep` is the recursive post-order: the traversal with a path of
frames computes the same, and what is left last comes behind all that it reads.
-/
namespace TensorDag.Node

/-- Leave a node once all that is below it was left. -/
def Traversal.leave (t : Traversal) (n : Node) : Traversal := { t with left := n :: t.left }

def Traversal.enter (t : Traversal) (n : Node) : Traversal := { t with entered := n :: t.entered }

mutual

/-- Post-order by recursion: inputs from the left, then the node itself; nothing is visited twice. -/
def visitDeep : Node → Traversal → Traversal
  | ⟨id, kind, inputs, params, type, buffer⟩, t =>
    let n : Node := ⟨id, kind, inputs, params, type, buffer⟩
    if n.isIn t.entered then t else (visitAll inputs (t.enter n)).leave n

def visitAll : List Node → Traversal → Traversal
  | [], t => t
  | x :: rest, t => visitAll rest (visitDeep x t)

end

theorem visitDeep_eq (n : Node) (t : Traversal) :
    visitDeep n t =
      if n.isIn t.entered then t else (visitAll n.inputs (t.enter n)).leave n := by
  cases n
  rw [visitDeep]

/-- Frames are left one after the other, each with what recursion makes of its pending inputs. -/
theorem traverse_frame (n : Node) (pending : List Node) (path : List Frame) (t : Traversal) :
    traverse (⟨n, pending⟩ :: path) t = traverse path ((visitAll pending t).leave n) := by
  induction measure : sizeOf pending using Nat.strongRecOn generalizing n pending path t with
  | ind size ih =>
    cases pending with
    | nil => rw [traverse, visitAll, Traversal.leave]
    | cons x rest =>
      have smaller : sizeOf rest < size := by subst measure; simp only [List.cons.sizeOf_spec]; omega
      rw [traverse, visitAll, visitDeep_eq]
      by_cases met : x.isIn t.entered
      · rw [if_pos met, if_pos met, ih _ smaller _ _ _ _ rfl]
      · have inner : sizeOf x.inputs < size := by
          have below := sizeOf_inputs_lt x
          subst measure
          simp only [List.cons.sizeOf_spec]
          omega
        rw [if_neg met, if_neg met, ih _ inner _ _ _ _ rfl, ih _ smaller _ _ _ _ rfl]
        rfl

theorem visit_eq (t : Traversal) (n : Node) : visit t n = visitDeep n t := by
  rw [visit, visitDeep_eq, traverse_frame, traverse]
  rfl

theorem foldl_visit (outputs : List Node) (t : Traversal) :
    outputs.foldl visit t = visitAll outputs t := by
  induction outputs generalizing t with
  | nil => rw [visitAll, List.foldl_nil]
  | cons x rest ih => rw [List.foldl_cons, ih, visit_eq, visitAll]

/-- Nodes, the last first, of which each stands once and behind its inputs. -/
def Settled : List Node → Prop
  | [] => True
  | n :: earlier => n ∉ earlier ∧ (∀ x ∈ n.inputs, x ∈ earlier) ∧ Settled earlier

theorem Settled.nodup {nodes : List Node} (settled : Settled nodes) : nodes.Nodup := by
  induction nodes with
  | nil => exact List.nodup_nil
  | cons n earlier ih => exact List.nodup_cons.mpr ⟨settled.1, ih settled.2.2⟩

theorem Settled.append {later earlier : List Node} (settled : Settled (later ++ earlier)) :
    Settled earlier := by
  induction later with
  | nil => exact settled
  | cons _ _ ih => exact ih settled.2.2

section
variable {family : Node → Prop}

/-- A traversal within a family: what it has left is settled. -/
structure Traversal.Valid (family : Node → Prop) (t : Traversal) : Prop where
  own : ∀ n ∈ t.entered, family n
  entered : ∀ n ∈ t.left, n ∈ t.entered
  settled : Settled t.left

/-- Every node that was entered and not left is a larger one: it is on the path to this one. -/
def Traversal.Above (t : Traversal) (n : Node) : Prop :=
  ∀ a ∈ t.entered, a ∈ t.left ∨ sizeOf n < sizeOf a

/-- What a visit adds: nodes below those that it starts from, each of them entered and left. -/
structure Traversal.Grown (start : List Node) (t t' : Traversal) (added : List Node) : Prop where
  left : t'.left = added ++ t.left
  entered : ∀ n, n ∈ t'.entered ↔ n ∈ added ∨ n ∈ t.entered
  reached : ∀ n ∈ start, n ∈ t'.left
  below : ∀ n ∈ added, Needed start n

theorem Traversal.Above.grown {t t' : Traversal} {start added : List Node} {n : Node}
    (above : t.Above n) (grown : Traversal.Grown start t t' added) : t'.Above n := by
  intro a member
  rw [grown.left]
  rcases (grown.entered a).mp member with new | old
  · exact .inl (List.mem_append_left _ new)
  · exact (above a old).imp (List.mem_append_right _) fun larger => larger

theorem Traversal.Valid.enter {t : Traversal} (valid : t.Valid family) {n : Node} (own : family n) :
    (t.enter n).Valid family where
  own := by
    intro m member
    rcases List.mem_cons.mp member with same | member
    · exact same ▸ own
    · exact valid.own m member
  entered m member := List.mem_cons_of_mem _ (valid.entered m member)
  settled := valid.settled

theorem Traversal.Above.enter {t : Traversal} {n x : Node} (above : t.Above n)
    (input : x ∈ n.inputs) : (t.enter n).Above x := by
  intro a member
  have below := sizeOf_input input
  rcases List.mem_cons.mp member with same | member
  · exact .inr (same ▸ below)
  · exact (above a member).imp (fun left => left) (Nat.lt_trans below)

/-- A node that is left behind its inputs is settled among them. -/
theorem Traversal.Valid.leave {t t' : Traversal} {n : Node} {added : List Node}
    (valid : t.Valid family) (new : n ∉ t.entered) (after : t'.Valid family)
    (grown : Traversal.Grown n.inputs (t.enter n) t' added) :
    (t'.leave n).Valid family ∧ Traversal.Grown [n] t (t'.leave n) (n :: added) := by
  have inside : n ∈ t'.entered := (grown.entered n).mpr (.inr (List.mem_cons_self ..))
  have absent : n ∉ t'.left := by
    intro member
    rw [grown.left] at member
    rcases List.mem_append.mp member with fresh | old
    · obtain ⟨x, input, path⟩ := grown.below n fresh
      have smaller := sizeOf_input input
      have bound := path.sizeOf_le
      omega
    · exact new (valid.entered n old)
  refine ⟨⟨after.own, ?_, absent, grown.reached, after.settled⟩, ?_, ?_, ?_, ?_⟩
  · intro m member
    rcases List.mem_cons.mp member with same | member
    · exact same ▸ inside
    · exact after.entered m member
  · simp [Traversal.leave, grown.left, Traversal.enter]
  · intro m
    have cases := grown.entered m
    simp only [Traversal.leave, Traversal.enter, List.mem_cons] at cases ⊢
    rw [cases]
    exact or_left_comm.trans or_assoc.symm
  · simp [Traversal.leave]
  · intro m member
    rcases List.mem_cons.mp member with same | member
    · exact ⟨n, List.mem_singleton_self n, same ▸ .self⟩
    · obtain ⟨x, input, path⟩ := grown.below m member
      exact ⟨n, List.mem_singleton_self n, .input input path⟩

/-- A recursive visit adds exactly what its nodes need and keeps all settled. -/
theorem visitAll_valid (arena : Arena family) (pending : List Node) (t : Traversal)
    (own : ∀ x ∈ pending, family x) (valid : t.Valid family) (above : ∀ x ∈ pending, t.Above x) :
    (visitAll pending t).Valid family ∧
      ∃ added, Traversal.Grown pending t (visitAll pending t) added := by
  induction measure : sizeOf pending using Nat.strongRecOn generalizing pending t with
  | ind size ih =>
    cases pending with
    | nil => exact ⟨by simpa [visitAll] using valid, [], by constructor <;> simp [visitAll]⟩
    | cons x rest =>
      have smaller : sizeOf rest < size := by subst measure; simp only [List.cons.sizeOf_spec]; omega
      have mine := own x (List.mem_cons_self ..)
      have first : (visitDeep x t).Valid family ∧
          ∃ added, Traversal.Grown [x] t (visitDeep x t) added := by
        rw [visitDeep_eq]
        by_cases met : x.isIn t.entered
        · have member := (arena.isIn_iff_mem mine valid.own).mp met
          have left : x ∈ t.left :=
            (above x (List.mem_cons_self ..) x member).resolve_right (Nat.lt_irrefl _)
          rw [if_pos met]
          exact ⟨valid, [], by simp, by simp, by simpa using left, by simp⟩
        · have new : x ∉ t.entered := fun member => met (isIn_of_mem member)
          have inner : sizeOf x.inputs < size := by
            have below := sizeOf_inputs_lt x
            subst measure
            simp only [List.cons.sizeOf_spec]
            omega
          obtain ⟨after, added, grown⟩ := ih _ inner x.inputs (t.enter x)
            (fun y input => arena.inputs mine input) (valid.enter mine)
            (fun y input => (above x (List.mem_cons_self ..)).enter input) rfl
          rw [if_neg met]
          obtain ⟨left, growth⟩ := valid.leave new after grown
          exact ⟨left, _, growth⟩
      obtain ⟨middle, added, grown⟩ := first
      obtain ⟨after, more, growth⟩ := ih _ smaller rest (visitDeep x t)
        (fun y member => own y (List.mem_cons_of_mem _ member)) middle
        (fun y member => (above y (List.mem_cons_of_mem _ member)).grown grown) rfl
      rw [visitAll]
      refine ⟨after, more ++ added, ?_, ?_, ?_, ?_⟩
      · rw [growth.left, grown.left, List.append_assoc]
      · intro n
        rw [growth.entered, grown.entered, List.mem_append, or_assoc]
      · intro n member
        rcases List.mem_cons.mp member with same | member
        · rw [growth.left]
          exact List.mem_append_right _ (same ▸ grown.reached x (List.mem_singleton_self x))
        · exact growth.reached n member
      · intro n member
        rcases List.mem_append.mp member with new | old
        · obtain ⟨y, start, path⟩ := growth.below n new
          exact ⟨y, List.mem_cons_of_mem _ start, path⟩
        · obtain ⟨y, start, path⟩ := grown.below n old
          exact ⟨y, List.mem_singleton.mp start ▸ List.mem_cons_self .., path⟩

variable {outputs : List Node}

theorem order_eq (outputs : List Node) : order outputs = (visitAll outputs ⟨[], []⟩).left.reverse := by
  rw [order, foldl_visit]

private theorem order_grown (arena : Arena family) (own : ∀ o ∈ outputs, family o) :
    (visitAll outputs ⟨[], []⟩).Valid family ∧
      ∃ added, Traversal.Grown outputs ⟨[], []⟩ (visitAll outputs ⟨[], []⟩) added :=
  visitAll_valid arena outputs ⟨[], []⟩ own ⟨by simp, by simp, trivial⟩ (by simp [Traversal.Above])

theorem order_settled (arena : Arena family) (own : ∀ o ∈ outputs, family o) :
    Settled (order outputs).reverse := by
  rw [order_eq, List.reverse_reverse]
  exact (order_grown arena own).1.settled

theorem mem_order_of_mem (arena : Arena family) (own : ∀ o ∈ outputs, family o) {o : Node}
    (member : o ∈ outputs) : o ∈ order outputs := by
  obtain ⟨_, added, grown⟩ := order_grown arena own
  rw [order_eq, List.mem_reverse]
  exact grown.reached o member

theorem Settled.reaches {nodes : List Node} (settled : Settled nodes) {n m : Node} (path : n.Reaches m)
    (member : n ∈ nodes) : m ∈ nodes := by
  have closed : ∀ {nodes : List Node}, Settled nodes → ∀ n ∈ nodes, ∀ x ∈ n.inputs, x ∈ nodes := by
    intro nodes settled
    induction nodes with
    | nil => simp
    | cons head earlier ih =>
      intro n member x input
      rcases List.mem_cons.mp member with same | member
      · exact List.mem_cons_of_mem _ (settled.2.1 x (same ▸ input))
      · exact List.mem_cons_of_mem _ (ih settled.2.2 n member x input)
  induction path with
  | self => exact member
  | input edge _ ih => exact ih (closed settled _ member _ edge)

theorem mem_order_iff (arena : Arena family) (own : ∀ o ∈ outputs, family o) {n : Node} :
    n ∈ order outputs ↔ Needed outputs n := by
  constructor
  · intro member
    obtain ⟨_, added, grown⟩ := order_grown arena own
    rw [order_eq, List.mem_reverse, grown.left] at member
    exact grown.below n (by simpa using member)
  · rintro ⟨o, member, path⟩
    have settled := order_settled arena own
    exact List.mem_reverse.mp
      (settled.reaches path (List.mem_reverse.mpr (mem_order_of_mem arena own member)))

theorem order_own (arena : Arena family) (own : ∀ o ∈ outputs, family o) :
    ∀ n ∈ order outputs, family n :=
  fun _ member => arena.needed own ((mem_order_iff arena own).mp member)

end
end TensorDag.Node
