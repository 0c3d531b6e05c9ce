import TensorDag.Proofs.Layers
import TensorDag.Proofs.Order

/-!
The reverse sweep. Each gradient found so far is paired with the tangent of its node; over the nodes that
are still to come, these pairings add up to the tangent of the objective.
-/
namespace TensorDag
open Program (bind_eq_ok pure_eq_ok throw_eq_ok)
open Building (of_eq_ok)
open Node (exact dual Fit Reached)
open Tensor (dot)

namespace Gradient

/-! Rules and relevant nodes. -/

theorem find_standard {kind : Kind} {rule : Rule} {w w' : Workspace} (polynomial : kind ∈ Kind.polynomial)
    (ran : Building.of (Rules.standard.find kind.name) w = .ok rule w') :
    rule = .standard kind ∧ Rules.standard.isDifferentiable kind.name = true ∧ w = w' := by
  obtain ⟨found, rfl⟩ := of_eq_ok.mp ran
  have moves : constantKinds.contains kind = false := by
    have all : ∀ kind ∈ Kind.polynomial, constantKinds.contains kind = false := by decide
    exact all kind polynomial
  cases known : Rules.standard.lookup kind.name with
  | none => simp [Rules.find, known] at found
  | some entry =>
    obtain ⟨before, after, split, _⟩ := List.lookup_eq_some_iff.mp known
    have member : (kind.name, entry) ∈ Rules.standard := split ▸ by simp
    obtain ⟨kind', _, same⟩ := List.mem_map.mp member
    obtain ⟨named, ruled⟩ := Prod.mk.inj same
    rw [Kind.name_injective named, moves, if_neg Bool.false_ne_true] at ruled
    rw [Rules.find, known] at found
    refine ⟨(Except.ok.inj found).symm.trans ruled.symm, ?_, rfl⟩
    rw [Rules.isDifferentiable, known, ← ruled]

/-- The nodes of an order that reach a target are found relevant. -/
theorem mem_relevant {targets : List Node} {t : Node} (target : t ∈ targets) : ∀ {nodes : List Node},
    Node.Settled nodes → ∀ m ∈ nodes, m.Reaches t → m ∈ relevant targets nodes.reverse
  | [], _, m, member, _ => by cases member
  | n :: earlier, settled, m, member, path => by
    have step : relevant targets (n :: earlier).reverse =
        if (n.isIn targets || n.inputs.any (·.isIn (relevant targets earlier.reverse))) = true then
          n :: relevant targets earlier.reverse else relevant targets earlier.reverse := by
      rw [relevant, List.reverse_cons, List.foldl_append]
      rfl
    rw [step]
    rcases List.mem_cons.mp member with rfl | old
    · have here : (m.isIn targets || m.inputs.any (·.isIn (relevant targets earlier.reverse))) = true := by
        rw [Bool.or_eq_true, List.any_eq_true]
        cases path with
        | self => exact .inl (Node.isIn_of_mem target)
        | input edge path =>
          exact .inr ⟨_, edge, Node.isIn_of_mem (mem_relevant target settled.2.2 _ (settled.2.1 _ edge) path)⟩
      rw [if_pos here]
      exact List.mem_cons_self ..
    · have later := mem_relevant target settled.2.2 m old path
      split
      · exact List.mem_cons_of_mem _ later
      · exact later

/-! Gradients found so far. -/

/-- Each gradient is a node of the workspace, of the shape of a node for which it stands. -/
def Adjoints.Valid (w : Workspace) (adjoints : Adjoints) : Prop :=
  ∀ entry ∈ adjoints, ∃ x ∈ w.graph.nodes, entry.1 = x.id ∧ entry.2 ∈ w.graph.nodes ∧ entry.2.shape = x.shape

variable {w w' : Workspace} {adjoints adjoints' : Adjoints} {x c g t : Node}

theorem Adjoints.Valid.lookup (valid : Adjoints.Valid w adjoints) (exact : w.Exact) (own : x ∈ w.graph.nodes)
    (found : adjoints.lookup x.id = some g) : g ∈ w.graph.nodes ∧ g.shape = x.shape := by
  obtain ⟨before, after, split, _⟩ := List.lookup_eq_some_iff.mp found
  obtain ⟨y, member, same, inside, shape⟩ := valid (x.id, g) (split ▸ by simp)
  cases exact.ordered.arena.identity own member same
  exact ⟨inside, shape⟩

theorem Adjoints.Valid.grown (valid : Adjoints.Valid w adjoints) (grows : w.Grows w') :
    Adjoints.Valid w' adjoints := by
  intro entry member
  obtain ⟨y, own, same, inside, shape⟩ := valid entry member
  exact ⟨y, grows.nodes y own, same, grows.nodes _ inside, shape⟩

theorem Adjoints.Valid.cons (valid : Adjoints.Valid w adjoints) (own : x ∈ w.graph.nodes) (inside : c ∈ w.graph.nodes)
    (shape : c.shape = x.shape) : Adjoints.Valid w ((x.id, c) :: adjoints) := by
  intro entry member
  rcases List.mem_cons.mp member with rfl | old
  · exact ⟨x, own, rfl, inside, shape⟩
  · exact valid entry old

section
variable {R : Type} [CommRing R] {given : Node → Option (Tensor R)} {v : Index → R}

/-- The gradient found for a node, paired with the tangent of the node where `t` moves by `v`. -/
def share (given : Node → Option (Tensor R)) (t : Node) (v : Index → R) (adjoints : Adjoints) (m : Node) : R :=
  match adjoints.lookup m.id with
  | some g => dot (g.exact given) (dual given t v m).tangent
  | none => 0

theorem share_some {m : Node} (found : adjoints.lookup m.id = some g) :
    share given t v adjoints m = dot (g.exact given) (dual given t v m).tangent := by
  rw [share, found]

theorem share_none {m : Node} (absent : adjoints.lookup m.id = none) : share given t v adjoints m = 0 := by
  rw [share, absent]

theorem share_congr {m : Node} (same : adjoints'.lookup m.id = adjoints.lookup m.id) :
    share given t v adjoints' m = share given t v adjoints m := by
  rw [share, share, same]

/-- What is added to a gradient is added to its share. -/
theorem accumulate_shares (exact : w.Exact) (fit : Fit given) (valid : Adjoints.Valid w adjoints)
    (own : x ∈ w.graph.nodes) (inside : c ∈ w.graph.nodes) (shape : c.shape = x.shape) (target : t ∈ w.graph.nodes)
    (ran : accumulate adjoints x c w = .ok adjoints' w') :
    w.Grows w' ∧ w'.Exact ∧ Adjoints.Valid w' adjoints' ∧
      (∀ id, id ≠ x.id → adjoints'.lookup id = adjoints.lookup id) ∧
      share given t v adjoints' x =
        share given t v adjoints x + dot (c.exact given) (dual given t v x).tangent := by
  have skipped : ∀ (d : Node) (id : NodeId), id ≠ x.id → ((x.id, d) :: adjoints).lookup id = adjoints.lookup id := by
    intro d id other
    rw [List.lookup_cons, beq_false_of_ne other]
  unfold accumulate at ran
  cases found : adjoints.lookup x.id with
  | none =>
    rw [found] at ran
    obtain ⟨rfl, rfl⟩ := pure_eq_ok.mp ran
    refine ⟨.refl w, exact, valid.cons own inside shape, skipped c, ?_⟩
    rw [share_none found, share_some (List.lookup_cons_self), zero_add]
  | some g =>
    rw [found] at ran
    obtain ⟨m, _, made, ran⟩ := bind_eq_ok.mp ran
    obtain ⟨rfl, rfl⟩ := pure_eq_ok.mp ran
    obtain ⟨member, same⟩ := valid.lookup exact own found
    have fills := exact.fill (f := (· + ·)) fit (by decide) (fun _ _ _ => rfl) member inside same shape made
    refine ⟨fills.grows, fills.exact, (valid.grown fills.grows).cons (fills.grows.nodes x own) fills.member fills.shape,
      skipped m, ?_⟩
    rw [share_some found, share_some (List.lookup_cons_self), dot, dot, dot, ← Finset.sum_add_distrib]
    refine Finset.sum_congr rfl fun i inside => ?_
    rw [Tensor.tangent_shape, exact.dual_shape fit target own] at inside
    rw [fills.cells i (Shape.mem_box.mp inside), add_mul]

def shares (given : Node → Option (Tensor R)) (t : Node) (v : Index → R) (adjoints : Adjoints) (nodes : List Node) :
    R := (nodes.map (share given t v adjoints)).sum

theorem shares_cons (m : Node) (rest : List Node) :
    shares given t v adjoints (m :: rest) = share given t v adjoints m + shares given t v adjoints rest := by
  rw [shares, List.map_cons, List.sum_cons, shares]

theorem shares_changed {d : R} : ∀ {nodes : List Node}, nodes.Nodup → x ∈ nodes →
    (∀ m ∈ nodes, m ≠ x → share given t v adjoints' m = share given t v adjoints m) →
    share given t v adjoints' x = share given t v adjoints x + d →
      shares given t v adjoints' nodes = shares given t v adjoints nodes + d
  | m :: rest, distinct, member, others, grown => by
    obtain ⟨absent, distinct⟩ := List.nodup_cons.mp distinct
    rw [shares_cons, shares_cons]
    rcases List.mem_cons.mp member with rfl | later
    · have same : shares given t v adjoints' rest = shares given t v adjoints rest :=
        congrArg List.sum (List.map_congr_left fun m member =>
          others m (List.mem_cons_of_mem _ member) fun same => absent (same ▸ member))
      rw [grown, same]
      ring
    · rw [others m (List.mem_cons_self ..) fun same => absent (same ▸ later),
        shares_changed distinct later (fun m member => others m (List.mem_cons_of_mem _ member)) grown, add_assoc]

/-- What a step hands on is added to the shares of the inputs. -/
structure Shares (given : Node → Option (Tensor R)) (t : Node) (v : Index → R) (w w' : Workspace)
    (adjoints adjoints' : Adjoints) (inputs contributions : List Node) : Prop where
  grows : w.Grows w'
  exact : w'.Exact
  valid : Adjoints.Valid w' adjoints'
  apart : ∀ m ∈ w.graph.nodes, m ∉ inputs → adjoints'.lookup m.id = adjoints.lookup m.id
  added : ∀ nodes : List Node, nodes.Nodup → (∀ m ∈ nodes, m ∈ w.graph.nodes) → (∀ x ∈ inputs, x ∈ nodes) →
    shares given t v adjoints' nodes = shares given t v adjoints nodes +
      (List.zipWith (fun c x => dot (c.exact given) (dual given t v x).tangent) contributions inputs).sum

/-- Inputs that are passed over do not move. -/
theorem distribute_shares {kind : String} {found : List Node} (fit : Fit given) :
    ∀ {xs cs : List Node} {w adjoints}, cs.length = xs.length → w.Exact → Adjoints.Valid w adjoints →
      t ∈ w.graph.nodes → (∀ x ∈ xs, x ∈ w.graph.nodes) → (∀ x ∈ xs, ¬x.isIn found = true → ¬x.Reaches t) →
      (∀ c ∈ cs, c ∈ w.graph.nodes) →
      distribute kind found (xs.zip (cs.map some)) adjoints w = .ok adjoints' w' →
        Shares given t v w w' adjoints adjoints' xs cs
  | [], [], w, adjoints, _, exact, valid, _, _, _, _, ran => by
    obtain ⟨rfl, rfl⟩ := pure_eq_ok.mp ran
    exact ⟨.refl w, exact, valid, fun _ _ _ => rfl, fun _ _ _ _ => by simp⟩
  | x :: xs, c :: cs, w, adjoints, sizes, exact, valid, target, own, still, inside, ran => by
    have mine := own x (List.mem_cons_self ..)
    have others : ∀ y ∈ xs, y ∈ w.graph.nodes := fun y member => own y (List.mem_cons_of_mem _ member)
    have still' : ∀ y ∈ xs, ¬y.isIn found = true → ¬y.Reaches t := fun y member =>
      still y (List.mem_cons_of_mem _ member)
    have inside' : ∀ d ∈ cs, d ∈ w.graph.nodes := fun d member => inside d (List.mem_cons_of_mem _ member)
    rw [List.map_cons, List.zip_cons_cons, distribute] at ran
    by_cases relevant : x.isIn found = true
    · rw [if_pos relevant] at ran
      split at ran
      · rename_i typed
        obtain ⟨middle, w₁, first, ran⟩ := bind_eq_ok.mp ran
        obtain ⟨grows, exact₁, valid₁, apart, added⟩ := accumulate_shares (v := v) exact fit valid mine
          (inside c (List.mem_cons_self ..)) (congrArg TensorType.shape typed) target first
        have rest := distribute_shares fit (Nat.succ.inj sizes) exact₁ valid₁ (grows.nodes t target)
          (fun y member => grows.nodes y (others y member)) still'
            (fun d member => grows.nodes d (inside' d member)) ran
        have apart : ∀ m ∈ w.graph.nodes, m ≠ x → middle.lookup m.id = adjoints.lookup m.id := fun m there other =>
          apart m.id fun same => other (exact.ordered.arena.identity there mine same)
        refine ⟨grows.trans rest.grows, rest.exact, rest.valid, fun m there absent =>
          ?_, fun nodes distinct all reads => ?_⟩
        · rw [List.mem_cons, not_or] at absent
          rw [rest.apart m (grows.nodes m there) absent.2, apart m there absent.1]
        · rw [rest.added nodes distinct (fun m member => grows.nodes m (all m member))
              fun y member => reads y (List.mem_cons_of_mem _ member),
            shares_changed distinct (reads x (List.mem_cons_self ..))
              (fun m member other => share_congr (apart m (all m member) other)) added,
            List.zipWith_cons_cons, List.sum_cons, add_assoc]
      · cases throw_eq_ok ran
    · rw [if_neg relevant] at ran
      have rest := distribute_shares fit (Nat.succ.inj sizes) exact valid target others still' inside' ran
      have zero := exact.tangent_still (v := v) fit target mine (still x (List.mem_cons_self ..) relevant)
        (c.exact given)
      refine ⟨rest.grows, rest.exact, rest.valid, fun m there absent => ?_, fun nodes distinct all reads => ?_⟩
      · exact rest.apart m there fun later => absent (List.mem_cons_of_mem _ later)
      · rw [rest.added nodes distinct all fun y member => reads y (List.mem_cons_of_mem _ member),
          List.zipWith_cons_cons, List.sum_cons, zero, zero_add]

/-- One node of the sweep: what its gradient gives with its tangent is handed on to its inputs. -/
theorem step_shares [Memory] {n : Node} {op : Operator} {found : List Node} {cs : Contributions} {w₁ : Workspace}
    (fit : Fit given) (reached : Reached w n g op) (valid : Adjoints.Valid w adjoints) (target : t ∈ w.graph.nodes)
    (still : ∀ x ∈ n.inputs, ¬x.isIn found = true → ¬x.Reaches t)
    (ruled : standardRule op.kind n (.node g) w = .ok cs w₁)
    (ran : distribute n.kind found (n.inputs.zip cs) adjoints w₁ = .ok adjoints' w') :
    ∃ contributions, Shares given t v w w' adjoints adjoints' n.inputs contributions ∧
      (n ≠ t → dot (g.exact given) (dual given t v n).tangent =
        (List.zipWith (fun c x => dot (c.exact given) (dual given t v x).tangent) contributions n.inputs).sum) := by
  have passes := standardRule_passes reached fit ruled
  obtain ⟨contributions, rfl, inside, sizes, pairs⟩ := passes.pairs
  have shares := distribute_shares (v := v) fit sizes passes.exact (valid.grown passes.grows)
    (passes.grows.nodes t target) (fun x input => passes.grows.nodes x (reached.input input)) still inside ran
  refine ⟨contributions, ⟨passes.grows.trans shares.grows, shares.exact, shares.valid,
    fun m own => shares.apart m (passes.grows.nodes m own), fun nodes distinct own =>
      shares.added nodes distinct fun m member => passes.grows.nodes m (own m member)⟩, fun other => ?_⟩
  rw [reached.exact.dual_formed fit target reached.own reached.formed other]
  exact pairs _ fun x input => reached.exact.dual_value fit target (reached.input input)

theorem inputs_still (exact : w.Exact) (fit : Fit given) (target : t ∈ w.graph.nodes) : ∀ {xs : List Node},
    (∀ x ∈ xs, x ∈ t.inputs) → ∀ cs : List Node,
      (List.zipWith (fun c x => dot (c.exact given) (dual given t v x).tangent) cs xs).sum = 0
  | [], _, cs => by simp
  | _ :: _, _, [] => rfl
  | x :: xs, below, c :: cs => by
    have input := below x (List.mem_cons_self ..)
    have apart : ¬x.Reaches t := fun path =>
      absurd (Nat.lt_of_le_of_lt path.sizeOf_le (Node.sizeOf_input input)) (Nat.lt_irrefl _)
    rw [List.zipWith_cons_cons, List.sum_cons,
      exact.tangent_still fit target (exact.ordered.inputs t target x input).1 apart,
      inputs_still exact fit target (fun y member => below y (List.mem_cons_of_mem _ member)) cs, add_zero]

theorem share_passed {n : Node} (exact : w.Exact) (fit : Fit given) (target : t ∈ w.graph.nodes)
    (own : n ∈ w.graph.nodes) (passed : n.isLeaf = true ∨ adjoints.lookup n.id = none) (other : n ≠ t) :
    share given t v adjoints n = 0 := by
  rcases passed with isLeaf | absent
  · cases found : adjoints.lookup n.id with
    | none => exact share_none found
    | some g =>
      rw [share_some found, exact.dual_leaf fit target own isLeaf other]
      exact Finset.sum_eq_zero fun i _ => mul_zero _
  · exact share_none absent

theorem sweep_passed [Memory] {rules : Rules} {found rest : List Node} {n : Node}
    (passed : n.isLeaf = true ∨ adjoints.lookup n.id = none) :
    sweep rules found (n :: rest) adjoints = sweep rules found rest adjoints := by
  rw [sweep]
  rcases passed with isLeaf | absent
  · rw [isLeaf]
  · rw [absent]
    cases n.isLeaf <;> rfl

theorem sweep_step [Memory] {found rest : List Node} {n : Node} (exact : w.Exact) (valid : Adjoints.Valid w adjoints)
    (own : n ∈ w.graph.nodes) (interior : n.isLeaf = false) (known : adjoints.lookup n.id = some g)
    (ran : sweep .standard found (n :: rest) adjoints w = .ok adjoints' w') :
    ∃ op cs w₁ middle w₂, Reached w n g op ∧ standardRule op.kind n (.node g) w = .ok cs w₁ ∧
      distribute n.kind found (n.inputs.zip cs) adjoints w₁ = .ok middle w₂ ∧
        sweep .standard found rest middle w₂ = .ok adjoints' w' := by
  obtain ⟨inside, shape⟩ := valid.lookup exact own known
  simp only [sweep, interior, known, bind_eq_ok] at ran
  obtain ⟨rule, middle, found, ran⟩ := ran
  cases exact.readable n own with
  | leaf isLeaf =>
    rw [interior] at isLeaf
    cases isLeaf
  | interior op formed polynomial axes =>
    rw [formed.named] at found
    obtain ⟨rfl, moves, rfl⟩ := find_standard polynomial found
    rw [formed.named, moves, Bool.not_true, if_neg Bool.false_ne_true, ← formed.named] at ran
    obtain ⟨cs, w₁, ruled, ran⟩ := bind_eq_ok.mp ran
    split at ran
    · obtain ⟨_, _, thrown, _⟩ := bind_eq_ok.mp ran
      cases throw_eq_ok thrown
    · obtain ⟨middle, w₂, handed, ran⟩ := bind_eq_ok.mp ran
      exact ⟨op, cs, w₁, middle, w₂, ⟨exact, own, formed, polynomial, axes, inside, shape⟩, ruled, handed, ran⟩

/-- The sweep ends with the tangent of the objective as the share of the target. -/
theorem sweep_shares [Memory] {found : List Node} (fit : Fit given) : ∀ {rest : List Node} {w adjoints},
    Node.Settled rest → (∀ m ∈ rest, m ∈ w.graph.nodes) → t ∈ w.graph.nodes →
      (∀ m ∈ rest, m.Reaches t → m.isIn found = true) → w.Exact → Adjoints.Valid w adjoints →
      sweep .standard found rest adjoints w = .ok adjoints' w' →
        w.Grows w' ∧ w'.Exact ∧ Adjoints.Valid w' adjoints' ∧
          (t ∈ rest → share given t v adjoints' t = shares given t v adjoints rest) ∧
          (t ∉ rest → share given t v adjoints' t =
            shares given t v adjoints rest + share given t v adjoints t)
  | [], w, adjoints, _, _, _, _, exact, valid, ran => by
    obtain ⟨rfl, rfl⟩ := pure_eq_ok.mp ran
    exact ⟨.refl w, exact, valid, by simp, fun _ => (zero_add _).symm⟩
  | n :: rest, w, adjoints, ⟨absent, behind, settled⟩, own, target, relevant, exact, valid, ran => by
    have mine := own n (List.mem_cons_self ..)
    have others : ∀ m ∈ rest, m ∈ w.graph.nodes := fun m member => own m (List.mem_cons_of_mem _ member)
    have relevant' : ∀ m ∈ rest, m.Reaches t → m.isIn found = true := fun m member =>
      relevant m (List.mem_cons_of_mem _ member)
    by_cases passed : n.isLeaf = true ∨ adjoints.lookup n.id = none
    · rw [sweep_passed passed] at ran
      obtain ⟨grows, exact', valid', inside, outside⟩ :=
        sweep_shares fit settled others target relevant' exact valid ran
      refine ⟨grows, exact', valid', fun member => ?_, fun apart => ?_⟩
      · by_cases same : n = t
        · rw [outside (same ▸ absent), shares_cons, same, add_comm]
        · rw [inside ((List.mem_cons.mp member).resolve_left fun equal => same equal.symm), shares_cons,
            share_passed exact fit target mine passed same, zero_add]
      · rw [List.mem_cons, not_or] at apart
        rw [outside apart.2, shares_cons, share_passed exact fit target mine passed (Ne.symm apart.1), zero_add]
    · rw [not_or, Bool.not_eq_true] at passed
      obtain ⟨g, known⟩ := Option.ne_none_iff_exists'.mp passed.2
      obtain ⟨op, cs, w₁, middle, w₂, reached, ruled, handed, ran⟩ := sweep_step exact valid mine passed.1 known ran
      have still : ∀ x ∈ n.inputs, ¬x.isIn found = true → ¬x.Reaches t := fun x input apart path =>
        apart (relevant' x (behind x input) path)
      obtain ⟨contributions, step, handed⟩ := step_shares (v := v) fit reached valid target still ruled handed
      obtain ⟨grows, exact', valid', inside, outside⟩ := sweep_shares fit settled
        (fun m member => step.grows.nodes m (others m member)) (step.grows.nodes t target) relevant' step.exact
        step.valid ran
      have added := step.added rest settled.nodup others behind
      refine ⟨step.grows.trans grows, exact', valid', fun member => ?_, fun apart => ?_⟩
      · by_cases same : n = t
        · -- what the target hands on finds nothing that moves
          have apart := step.apart n mine fun input => absent (behind n input)
          have nothing := inputs_still (v := v) exact fit mine (fun x input => input) contributions
          rw [outside (same ▸ absent), shares_cons, added, ← same, share_congr apart, nothing, add_zero, add_comm]
        · rw [inside ((List.mem_cons.mp member).resolve_left fun equal => same equal.symm), shares_cons, added,
            share_some known, handed same, add_comm]
      · rw [List.mem_cons, not_or] at apart
        rw [outside apart.2, shares_cons, added, share_some known, handed (Ne.symm apart.1),
          share_congr (step.apart t target fun input => apart.2 (behind t input))]
        ring

end

end Gradient
end TensorDag
