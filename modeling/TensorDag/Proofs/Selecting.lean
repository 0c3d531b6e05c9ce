import TensorDag.Proofs.Derivative
import TensorDag.Proofs.Replaying

/-!
Gradients of some of the targets. The nodes that reach fewer targets are passed by the sweep in the same
order and with the same gradients, so that a gradient does not depend on which others are asked for.
-/
namespace TensorDag
open Program
open Building (Again)

namespace Node

/-- What is found relevant lies in the order and reaches a target. -/
theorem reaches_of_relevant {family : Node → Prop} (arena : Arena family) {targets nodes : List Node}
    (own : ∀ n ∈ nodes, family n) (targeted : ∀ t ∈ targets, family t) :
    ∀ m ∈ Gradient.relevant targets nodes, m ∈ nodes ∧ ∃ t ∈ targets, m.Reaches t := by
  induction nodes using List.reverseRecOn with
  | nil => simp [Gradient.relevant]
  | append_singleton earlier n ih =>
    have before := ih fun m member => own m (List.mem_append_left _ member)
    have mine := own n (by simp)
    have step : Gradient.relevant targets (earlier ++ [n]) =
        if (n.isIn targets || n.inputs.any (·.isIn (Gradient.relevant targets earlier))) = true then
          n :: Gradient.relevant targets earlier else Gradient.relevant targets earlier := by
      rw [Gradient.relevant, List.foldl_append]
      rfl
    intro m member
    rw [step] at member
    split at member
    · rename_i here
      rcases List.mem_cons.mp member with rfl | old
      · refine ⟨by simp, ?_⟩
        rw [Bool.or_eq_true, List.any_eq_true] at here
        rcases here with target | ⟨x, input, found⟩
        · exact ⟨m, (arena.isIn_iff_mem mine targeted).mp target, .self⟩
        · have known := (arena.isIn_iff_mem (arena.inputs mine input)
            fun y old => own y (List.mem_append_left _ (before y old).1)).mp found
          obtain ⟨_, t, target, path⟩ := before x known
          exact ⟨t, target, .input input path⟩
      · exact ⟨List.mem_append_left _ (before m old).1, (before m old).2⟩
    · exact ⟨List.mem_append_left _ (before m member).1, (before m member).2⟩

theorem ne_of_isIn {m x : Node} {nodes : List Node} (inside : x.isIn nodes = true) (outside : m.isIn nodes = false) :
    m.id ≠ x.id := by
  intro same
  obtain ⟨y, member, named⟩ := isIn_iff.mp inside
  rw [isIn_iff.mpr ⟨y, member, same.trans named⟩] at outside
  cases outside

end Node

namespace Gradient
variable {w v : Workspace} {found few : List Node} {many chosen : Adjoints} {x : Node}

/-- Gradients of the nodes that count, out of those of more nodes. -/
structure Adjoints.Restricts (few : List Node) (chosen many : Adjoints) : Prop where
  same : ∀ m : Node, m.isIn few = true → chosen.lookup m.id = many.lookup m.id
  none : ∀ m : Node, m.isIn few = false → chosen.lookup m.id = none

theorem lookup_cons_of_ne {id other : NodeId} (g : Node) (differ : other ≠ id) :
    List.lookup other ((id, g) :: many) = many.lookup other := by
  rw [List.lookup_cons, beq_false_of_ne differ]

theorem Adjoints.Restricts.both (restricts : Restricts few chosen many) (counts : x.isIn few = true) (g : Node) :
    Restricts few ((x.id, g) :: chosen) ((x.id, g) :: many) where
  same m member := by
    by_cases here : m.id = x.id
    · rw [here, List.lookup_cons_self, List.lookup_cons_self]
    · rw [lookup_cons_of_ne g here, lookup_cons_of_ne g here, restricts.same m member]
  none m apart := by rw [lookup_cons_of_ne g (Node.ne_of_isIn counts apart), restricts.none m apart]

theorem Adjoints.Restricts.other (restricts : Restricts few chosen many) (apart : x.isIn few = false) (g : Node) :
    Restricts few chosen ((x.id, g) :: many) where
  same m member := by rw [lookup_cons_of_ne g (Node.ne_of_isIn member apart).symm, restricts.same m member]
  none := restricts.none

/-- To accumulate a gradient puts one node in front, which is found again. -/
theorem accumulate_again [Memory] {c : Node} {many' : Adjoints} (coherent : w.Coherent ShapeRules.Lasting)
    (own : ∀ entry ∈ many, entry.2 ∈ w.graph.nodes) (given : c ∈ w.graph.nodes)
    (ran : accumulate many x c w = .ok many' v) :
    v.Coherent ShapeRules.Lasting ∧ w.Keeps v ∧ ∃ g, g ∈ v.graph.nodes ∧ many' = (x.id, g) :: many ∧
      ∀ chosen : Adjoints, chosen.lookup x.id = many.lookup x.id →
        Again (accumulate chosen x c) ((x.id, g) :: chosen) v := by
  unfold accumulate at ran
  cases known : many.lookup x.id with
  | none =>
    simp only [known, pure_eq_ok] at ran
    obtain ⟨rfl, rfl⟩ := ran
    refine ⟨coherent, .refl w, c, given, rfl, fun chosen same => ?_⟩
    simp only [accumulate, same]
    exact .pure
  | some g =>
    simp only [known, bind_eq_ok, pure_eq_ok] at ran
    obtain ⟨total, _, added, rfl, rfl⟩ := ran
    obtain ⟨before, after, split, _⟩ := List.lookup_eq_some_iff.mp known
    have held : g ∈ w.graph.nodes := own (x.id, g) (split ▸ by simp)
    have parallel : Building.Parallel [(g, g), (c, c)] .node (Building.add g c) (Building.add g c) :=
      .binary .add (by simp) (by simp)
    obtain ⟨next, keeps, made, again⟩ := parallel.replays coherent (by simp [held, given]) added
    refine ⟨next, keeps, total, made total (by simp [Form.node]), rfl, fun chosen same => ?_⟩
    simp only [accumulate, same]
    exact again.bind .pure

/-- What a step of the sweep over fewer nodes has in common with the step over all of them. -/
structure Prunes (found few : List Node) (many many' : Adjoints) (w v : Workspace) (step : Building Adjoints) :
    Prop where
  coherent : v.Coherent ShapeRules.Lasting
  keeps : w.Keeps v
  own : ∀ entry ∈ many', entry.2 ∈ v.graph.nodes
  outside : ∀ m : Node, m.isIn found = false → many'.lookup m.id = many.lookup m.id
  again : ∃ chosen, Adjoints.Restricts few chosen many' ∧ Again step chosen v

/-- Contributions to the nodes that count are handed out again. -/
theorem distribute_prunes [Memory] {kind : String} (sub : ∀ m : Node, m.isIn few = true → m.isIn found = true) :
    ∀ (entries : List (Node × Option Node)) {w v : Workspace} {chosen many many' : Adjoints},
      w.Coherent ShapeRules.Lasting → (∀ x c, (x, some c) ∈ entries → c ∈ w.graph.nodes) →
        (∀ entry ∈ many, entry.2 ∈ w.graph.nodes) → Adjoints.Restricts few chosen many →
          distribute kind found entries many w = .ok many' v →
            Prunes found few many many' w v (distribute kind few entries chosen)
  | [], w, v, chosen, many, many', coherent, _, own, restricts, ran => by
    obtain ⟨rfl, rfl⟩ := pure_eq_ok.mp ran
    exact ⟨coherent, .refl w, own, fun _ _ => rfl, chosen, restricts, .pure⟩
  | (x, none) :: rest, w, v, chosen, many, many', coherent, given, own, restricts, ran =>
    distribute_prunes sub rest coherent (fun y c member => given y c (List.mem_cons_of_mem _ member)) own
      restricts ran
  | (x, some c) :: rest, w, v, chosen, many, many', coherent, given, own, restricts, ran => by
    have later := fun y d member => given y d (List.mem_cons_of_mem (x, some c) member)
    rw [distribute] at ran
    by_cases relevant : x.isIn found = true
    · rw [if_pos relevant] at ran
      split at ran
      · rename_i typed
        obtain ⟨middle, w₁, accumulated, ran⟩ := bind_eq_ok.mp ran
        obtain ⟨coherent₁, keeps, g, made, rfl, again⟩ := accumulate_again coherent own
          (given x c (List.mem_cons_self ..)) accumulated
        have known : ∀ entry ∈ (x.id, g) :: many, entry.2 ∈ w₁.graph.nodes := by
          intro entry member
          rcases List.mem_cons.mp member with rfl | old
          · exact made
          · exact keeps.mem (own entry old)
        have later₁ := fun y d member => keeps.mem (later y d member)
        have apart : ∀ m : Node, m.isIn found = false → List.lookup m.id ((x.id, g) :: many) = many.lookup m.id := by
          intro m outside
          exact lookup_cons_of_ne g (Node.ne_of_isIn relevant outside)
        cases counts : x.isIn few with
        | true =>
          obtain ⟨coherent₂, keeps₂, own₂, outside, chosen', restricts₂, again₂⟩ :=
            distribute_prunes sub rest coherent₁ later₁ known (restricts.both counts g) ran
          refine ⟨coherent₂, keeps.trans keeps₂, own₂, fun m out => (outside m out).trans (apart m out), chosen',
            restricts₂, ?_⟩
          rw [distribute, if_pos counts, if_pos typed]
          exact ((again chosen (restricts.same x counts)).later keeps₂).bind again₂
        | false =>
          obtain ⟨coherent₂, keeps₂, own₂, outside, chosen', restricts₂, again₂⟩ :=
            distribute_prunes sub rest coherent₁ later₁ known (restricts.other counts g) ran
          refine ⟨coherent₂, keeps.trans keeps₂, own₂, fun m out => (outside m out).trans (apart m out), chosen',
            restricts₂, ?_⟩
          rwa [distribute, counts, if_neg Bool.false_ne_true]
      · cases throw_eq_ok ran
    · rw [if_neg relevant] at ran
      have apart : ¬x.isIn few = true := fun counts => relevant (sub x counts)
      rw [distribute, if_neg apart]
      exact distribute_prunes sub rest coherent later own restricts ran

theorem distribute_nothing {kind : String} {adjoints : Adjoints} : ∀ {entries : List (Node × Option Node)},
    (∀ entry ∈ entries, entry.1.isIn few = false) → distribute kind few entries adjoints = pure adjoints
  | [], _ => rfl
  | (x, none) :: rest, apart => by
    rw [distribute]
    exact distribute_nothing fun entry member => apart entry (List.mem_cons_of_mem _ member)
  | (x, some c) :: rest, apart => by
    rw [distribute, apart _ (List.mem_cons_self ..), if_neg Bool.false_ne_true]
    exact distribute_nothing fun entry member => apart entry (List.mem_cons_of_mem _ member)

section
variable {rules : Rules} {rule : Rule} {n g : Node} {rest : List Node} {adjoints : Adjoints}

theorem sweep_constant [Memory] (ruled : rules.find n.kind = .ok rule) (still : rules.isDifferentiable n.kind = false) :
    sweep rules found (n :: rest) adjoints = sweep rules found rest adjoints := by
  by_cases passed : n.isLeaf = true ∨ adjoints.lookup n.id = none
  · exact sweep_passed passed
  · rw [not_or, Bool.not_eq_true] at passed
    obtain ⟨g, known⟩ := Option.ne_none_iff_exists'.mp passed.2
    rw [sweep, passed.1, known]
    dsimp only
    rw [ruled, still]
    rfl

theorem sweep_again [Memory] {cs : Contributions} {middle adjoints' : Adjoints} (interior : n.isLeaf = false)
    (known : adjoints.lookup n.id = some g) (ruled : rules.find n.kind = .ok rule)
    (moves : rules.isDifferentiable n.kind = true) (size : cs.length = n.inputs.length)
    (contributed : Again (rule.run n (.node g)) cs v)
    (handed : Again (distribute n.kind found (n.inputs.zip cs) adjoints) middle v)
    (swept : Again (sweep rules found rest middle) adjoints' v) :
    Again (sweep rules found (n :: rest) adjoints) adjoints' v := by
  rw [sweep, interior, known]
  dsimp only
  rw [ruled, moves, Bool.not_true]
  refine Again.bind .pure ?_
  rw [if_neg Bool.false_ne_true]
  refine contributed.bind ?_
  rw [if_neg (not_not.mpr size)]
  exact handed.bind swept

/-- The parts of a step of the sweep that returned. -/
theorem sweep_parts [Memory] {adjoints' : Adjoints} (interior : n.isLeaf = false)
    (known : adjoints.lookup n.id = some g) (ran : sweep rules found (n :: rest) adjoints w = .ok adjoints' v) :
    ∃ rule, rules.find n.kind = .ok rule ∧ (rules.isDifferentiable n.kind = true →
      ∃ cs w₁ middle w₂, rule.run n (.node g) w = .ok cs w₁ ∧ cs.length = n.inputs.length ∧
        distribute n.kind found (n.inputs.zip cs) adjoints w₁ = .ok middle w₂ ∧
          sweep rules found rest middle w₂ = .ok adjoints' v) := by
  simp only [sweep, interior, known, bind_eq_ok] at ran
  obtain ⟨rule, _, ruled, ran⟩ := ran
  obtain ⟨found, rfl⟩ := Building.of_eq_ok.mp ruled
  refine ⟨rule, found, fun moves => ?_⟩
  rw [moves, Bool.not_true, if_neg Bool.false_ne_true, bind_eq_ok] at ran
  obtain ⟨cs, w₁, contributed, ran⟩ := ran
  split at ran
  · obtain ⟨_, _, thrown, _⟩ := bind_eq_ok.mp ran
    cases throw_eq_ok thrown
  · rename_i size
    obtain ⟨middle, w₂, handed, swept⟩ := bind_eq_ok.mp ran
    exact ⟨cs, w₁, middle, w₂, contributed, not_not.mp size, handed, swept⟩

end

/-- The sweep over the nodes that count finds the same gradients again. -/
theorem sweep_prunes [Memory] (sub : ∀ m : Node, m.isIn few = true → m.isIn found = true) :
    ∀ {nodes : List Node} {w v : Workspace} {chosen many many' : Adjoints},
      w.Coherent ShapeRules.Lasting → (∀ n ∈ nodes, n ∈ w.graph.nodes) →
        (∀ n ∈ nodes, ∀ x ∈ n.inputs, x.isIn few = true → n.isIn few = true) →
          (∀ entry ∈ many, entry.2 ∈ w.graph.nodes) → Adjoints.Restricts few chosen many →
            sweep .standard found nodes many w = .ok many' v →
              Prunes found few many many' w v (sweep .standard few nodes chosen)
  | [], w, v, chosen, many, many', coherent, _, _, own, restricts, ran => by
    obtain ⟨rfl, rfl⟩ := pure_eq_ok.mp ran
    exact ⟨coherent, .refl w, own, fun _ _ => rfl, chosen, restricts, .pure⟩
  | n :: rest, w, v, chosen, many, many', coherent, inside, closed, own, restricts, ran => by
    have inside' : ∀ m ∈ rest, m ∈ w.graph.nodes := fun m member => inside m (List.mem_cons_of_mem _ member)
    have closed' : ∀ m ∈ rest, ∀ x ∈ m.inputs, x.isIn few = true → m.isIn few = true :=
      fun m member => closed m (List.mem_cons_of_mem _ member)
    by_cases passed : n.isLeaf = true ∨ many.lookup n.id = none
    · have passed' : n.isLeaf = true ∨ chosen.lookup n.id = none := passed.imp_right fun absent => by
        cases counts : n.isIn few with
        | true => rw [restricts.same n counts, absent]
        | false => exact restricts.none n counts
      rw [sweep_passed passed] at ran
      rw [sweep_passed passed']
      exact sweep_prunes sub coherent inside' closed' own restricts ran
    · rw [not_or, Bool.not_eq_true] at passed
      obtain ⟨interior, known⟩ := passed
      obtain ⟨g, known⟩ := Option.ne_none_iff_exists'.mp known
      obtain ⟨rule, ruled, parts⟩ := sweep_parts interior known ran
      cases moves : Rules.standard.isDifferentiable n.kind with
      | false =>
        rw [sweep_constant ruled moves] at ran ⊢
        exact sweep_prunes sub coherent inside' closed' own restricts ran
      | true =>
        obtain ⟨cs, w₁, middle, w₂, contributed, size, handed, swept⟩ := parts moves
        have mine := inside n (List.mem_cons_self ..)
        obtain ⟨before, after, split, _⟩ := List.lookup_eq_some_iff.mp known
        have held : g ∈ w.graph.nodes := own (n.id, g) (split ▸ by simp)
        -- the contributions are found again, since all that the rule uses is there
        have parallel : Building.Parallel ((n, n) :: (g, g) :: n.inputs.map fun x => (x, x)) .contributions
            (rule.run n (.node g)) (rule.run n (.node g)) :=
          parallel_run ruled (by simp) (fun x input => by simp [input]) (by simp) rfl
        obtain ⟨coherent₁, keeps₁, made, again₁⟩ := parallel.replays coherent (by
          simpa [mine, held] using fun x input => (coherent.inputs n mine x input).1) contributed
        have given : ∀ x c, (x, some c) ∈ n.inputs.zip cs → c ∈ w₁.graph.nodes := fun x c member =>
          made c (by simpa [Form.contributions] using (List.of_mem_zip member).2)
        have step := distribute_prunes sub (n.inputs.zip cs) coherent₁ given
          (fun entry member => keeps₁.mem (own entry member)) restricts handed
        obtain ⟨chosen', restricts', again₂⟩ := step.again
        have tail := sweep_prunes sub step.coherent
          (fun m member => step.keeps.mem (keeps₁.mem (inside' m member))) closed' step.own restricts' swept
        obtain ⟨final, restricts'', again₃⟩ := tail.again
        refine ⟨tail.coherent, keeps₁.trans (step.keeps.trans tail.keeps), tail.own,
          fun m out => (tail.outside m out).trans (step.outside m out), final, restricts'', ?_⟩
        cases counts : n.isIn few with
        | true =>
          exact sweep_again interior (restricts.same n counts ▸ known) ruled moves size
            (again₁.later (step.keeps.trans tail.keeps)) (again₂.later tail.keeps) again₃
        | false =>
          -- nothing of what the node hands on counts
          have apart : ∀ entry ∈ n.inputs.zip cs, entry.1.isIn few = false := by
            intro entry member
            cases input : entry.1.isIn few with
            | false => rfl
            | true =>
              rw [closed n (List.mem_cons_self ..) _ (List.of_mem_zip (b := entry.2) member).1 input] at counts
              cases counts
          have same : chosen = chosen' := by
            have nothing := again₂ w₂ step.coherent.rules (.refl w₂)
            rw [distribute_nothing apart] at nothing
            exact (pure_eq_ok.mp nothing).1
          rw [sweep_passed (.inr (restricts.none n counts)), same]
          exact again₃

/-! Collecting. -/

/-- What is collected for a target, here and ever after: the gradient found, or the same zeros. -/
def CollectedFor [Memory] (adjoints : Adjoints) (v : Workspace) (t d : Node) : Prop :=
  adjoints.lookup t.id = some d ∨ adjoints.lookup t.id = none ∧
    Again (Building.constant (.dims t.shape) (.elementType t.elementType) .null) d v

theorem constant_again [Memory] {shape elementType data : Value} {n : Node} (coherent : w.Coherent ShapeRules.Lasting)
    (made : Building.constant shape elementType data w = .ok n v) :
    v.Coherent ShapeRules.Lasting ∧ w.Keeps v ∧ n ∈ v.graph.nodes ∧
      Again (Building.constant shape elementType data) n v := by
  have parallel : Building.Parallel [] .node (Building.constant shape elementType data) _ := .constant ..
  obtain ⟨next, keeps, made, again⟩ := parallel.replays coherent (by simp) made
  exact ⟨next, keeps, made n (by simp [Form.node]), again⟩

theorem collect_gives [Memory] {adjoints : Adjoints} : ∀ {targets ds : List Node} {w v : Workspace},
    w.Coherent ShapeRules.Lasting → collect adjoints targets w = .ok ds v →
      v.Coherent ShapeRules.Lasting ∧ w.Keeps v ∧ List.Forall₂ (CollectedFor adjoints v) targets ds
  | [], ds, w, v, coherent, ran => by
    obtain ⟨rfl, rfl⟩ := pure_eq_ok.mp ran
    exact ⟨coherent, .refl w, .nil⟩
  | t :: rest, ds, w, v, coherent, ran => by
    cases known : adjoints.lookup t.id with
    | some g =>
      simp only [collect, known, bind_eq_ok, pure_eq_ok] at ran
      obtain ⟨_, _, ⟨rfl, rfl⟩, others, _, ran, rfl, rfl⟩ := ran
      obtain ⟨next, keeps, gives⟩ := collect_gives coherent ran
      exact ⟨next, keeps, .cons (.inl known) gives⟩
    | none =>
      simp only [collect, known, bind_eq_ok, pure_eq_ok] at ran
      obtain ⟨d, w₁, made, others, _, ran, rfl, rfl⟩ := ran
      obtain ⟨coherent₁, keeps₁, _, again⟩ := constant_again coherent made
      obtain ⟨next, keeps, gives⟩ := collect_gives coherent₁ ran
      exact ⟨next, keeps₁.trans keeps, .cons (.inr ⟨known, again.later keeps⟩) gives⟩

theorem collect_again [Memory] {adjoints : Adjoints} {targets ds : List Node}
    (gives : List.Forall₂ (CollectedFor adjoints v) targets ds) : Again (collect adjoints targets) ds v := by
  induction gives with
  | nil => exact .pure
  | cons here _ ih =>
    unfold collect
    rcases here with known | ⟨known, again⟩
    · rw [known]
      exact Again.bind .pure (ih.bind .pure)
    · rw [known]
      exact again.bind (ih.bind .pure)

/-- Some entries of a list, in any order and as often as wanted. -/
def Picks {α : Type} (places : List Nat) (all picked : List α) : Prop :=
  picked.map some = places.map fun place => all[place]?

theorem Picks.forall₂ {α β : Type} {R : α → β → Prop} {as : List α} {bs : List β} (related : List.Forall₂ R as bs) :
    ∀ {places : List Nat} {cs : List α}, Picks places as cs →
      ∃ ds, Picks places bs ds ∧ List.Forall₂ R cs ds
  | [], [], _ => ⟨[], rfl, .nil⟩
  | [], _ :: _, picks => by cases picks
  | _ :: _, [], picks => by cases picks
  | place :: places, c :: cs, picks => by
    obtain ⟨head, tail⟩ := List.cons.inj picks
    obtain ⟨ds, picks', rest⟩ := Picks.forall₂ related tail
    obtain ⟨inside, here⟩ := List.getElem?_eq_some_iff.mp head.symm
    have inside' : place < bs.length := related.length_eq ▸ inside
    have there := List.Forall₂.get related inside inside'
    refine ⟨bs[place] :: ds, ?_, .cons (by simpa [here] using there) rest⟩
    rw [Picks, List.map_cons, List.map_cons, ← picks', List.getElem?_eq_getElem inside']

theorem Picks.mem {α : Type} {places : List Nat} {all picked : List α} (picks : Picks places all picked) :
    ∀ a ∈ picked, a ∈ all := by
  intro a member
  have here : some a ∈ picked.map some := List.mem_map_of_mem member
  rw [picks] at here
  obtain ⟨place, _, found⟩ := List.mem_map.mp here
  exact List.mem_of_getElem? found

/-! Building. -/

section
variable {family : Node → Prop} {objective : Node} {targets picked : List Node}

theorem isIn_relevant_iff (arena : Arena family) (own : family objective) (targeted : ∀ t ∈ targets, family t)
    {m : Node} (mine : family m) : m.isIn (relevant targets (Node.order [objective])) = true ↔
      m ∈ Node.order [objective] ∧ ∃ t ∈ targets, m.Reaches t := by
  have only : ∀ o ∈ [objective], family o := by simpa using own
  have inside := Node.order_own arena only
  rw [arena.isIn_iff_mem mine fun y member => inside y (Node.reaches_of_relevant arena inside targeted y member).1]
  refine ⟨Node.reaches_of_relevant arena inside targeted m, fun ⟨member, t, target, path⟩ => ?_⟩
  have found := mem_relevant target (Node.order_settled arena only) m (List.mem_reverse.mpr member) path
  rwa [List.reverse_reverse] at found

theorem relevant_mono (arena : Arena family) (own : family objective) (targeted : ∀ t ∈ targets, family t)
    (sub : ∀ t ∈ picked, t ∈ targets) (m : Node) (counts : m.isIn (relevant picked (Node.order [objective])) = true) :
    m.isIn (relevant targets (Node.order [objective])) = true := by
  have only : ∀ o ∈ [objective], family o := by simpa using own
  have wanted : ∀ t ∈ picked, family t := fun t member => targeted t (sub t member)
  obtain ⟨y, member, same⟩ := Node.isIn_iff.mp counts
  obtain ⟨placed, t, target, path⟩ :=
    Node.reaches_of_relevant arena (Node.order_own arena only) wanted y member
  have mine := Node.order_own arena only y placed
  obtain ⟨z, found, same'⟩ :=
    Node.isIn_iff.mp ((isIn_relevant_iff arena own targeted mine).mpr ⟨placed, t, sub t target, path⟩)
  exact Node.isIn_iff.mpr ⟨z, found, same.trans same'⟩

theorem relevant_closed (arena : Arena family) (own : family objective) (targeted : ∀ t ∈ targets, family t) :
    ∀ n ∈ (Node.order [objective]).reverse, ∀ x ∈ n.inputs,
      x.isIn (relevant targets (Node.order [objective])) = true →
        n.isIn (relevant targets (Node.order [objective])) = true := by
  intro n member x input counts
  have placed := List.mem_reverse.mp member
  have mine := Node.order_own arena (by simpa using own) n placed
  obtain ⟨_, t, target, path⟩ := (isIn_relevant_iff arena own targeted (arena.inputs mine input)).mp counts
  exact (isIn_relevant_iff arena own targeted mine).mpr ⟨placed, t, target, .input input path⟩

theorem outside_relevant (arena : Arena family) (own : family objective) (targeted : ∀ t ∈ targets, family t)
    (sub : ∀ t ∈ picked, t ∈ targets) {t : Node} (target : t ∈ picked)
    (apart : t.isIn (relevant picked (Node.order [objective])) = false) :
    t.isIn (relevant targets (Node.order [objective])) = false := by
  have mine := targeted t (sub t target)
  cases counts : t.isIn (relevant targets (Node.order [objective])) with
  | false => rfl
  | true =>
    have placed := ((isIn_relevant_iff arena own targeted mine).mp counts).1
    rw [(isIn_relevant_iff arena own (fun t member => targeted t (sub t member)) mine).mpr
      ⟨placed, t, target, .self⟩] at apart
    cases apart

end

/-- The seed of a sweep: one at the objective where that counts. -/
def seedOf (objective one : Node) (found : List Node) : Adjoints :=
  if objective.isIn found = true then [(objective.id, one)] else []

theorem restricts_seed {objective one : Node} (sub : ∀ m : Node, m.isIn few = true → m.isIn found = true) :
    Adjoints.Restricts few (seedOf objective one few) (seedOf objective one found) := by
  have start : Adjoints.Restricts few [] [] := ⟨fun _ _ => rfl, fun _ _ => rfl⟩
  unfold seedOf
  cases counts : objective.isIn few with
  | true =>
    rw [sub objective counts]
    exact start.both counts one
  | false =>
    cases objective.isIn found with
    | true => exact start.other counts one
    | false => exact start

theorem lookup_seedOf {objective one m : Node} (outside : m.isIn found = false) :
    (seedOf objective one found).lookup m.id = none := by
  unfold seedOf
  split
  · rename_i inside
    exact lookup_cons_of_ne one (Node.ne_of_isIn inside outside)
  · rfl

/-- Gradients of some targets are built again from those of all targets. -/
theorem build_again [Memory] {objective : Node} {targets picked ds : List Node} {places : List Nat}
    (coherent : w.Coherent ShapeRules.Lasting) (own : objective ∈ w.graph.nodes)
    (targeted : ∀ t ∈ targets, t ∈ w.graph.nodes) (picks : Picks places targets picked)
    (ran : build .standard objective targets w = .ok ds v) :
    v.Coherent ShapeRules.Lasting ∧ w.Keeps v ∧
      ∃ es, Picks places ds es ∧ Again (build .standard objective picked) es v := by
  have arena := coherent.arena
  have sub := relevant_mono arena own targeted picks.mem
  have wanted : ∀ t ∈ picked, t ∈ w.graph.nodes := fun t member => targeted t (picks.mem t member)
  obtain ⟨seed, w₁, many, w₂, seeding, swept, collected⟩ := build_cases ran
  obtain ⟨one, coherent₁, keeps₁, rfl, held, again₁⟩ : ∃ one, w₁.Coherent ShapeRules.Lasting ∧ w.Keeps w₁ ∧
      seed = seedOf objective one (relevant targets (Node.order [objective])) ∧
      (∀ entry ∈ seed, entry.2 ∈ w₁.graph.nodes) ∧
      (objective.isIn (relevant targets (Node.order [objective])) = true →
        Again (Building.constant (.dims objective.shape) (.elementType objective.elementType) (.int 1)) one w₁) := by
    unfold seedOf
    rcases seeding with ⟨inside, one, rfl, made⟩ | ⟨outside, rfl, rfl⟩
    · obtain ⟨coherent₁, keeps₁, made, again⟩ := constant_again coherent made
      exact ⟨one, coherent₁, keeps₁, (if_pos inside).symm, by simpa using made, fun _ => again⟩
    · exact ⟨objective, coherent, .refl _, (if_neg outside).symm, by simp, fun inside => absurd inside outside⟩
  have step := sweep_prunes sub coherent₁
    (fun n member => keeps₁.mem (Node.order_own arena (by simpa using own) n (List.mem_reverse.mp member)))
    (relevant_closed arena own wanted) held (restricts_seed sub) swept
  obtain ⟨chosen, restricts, again₂⟩ := step.again
  obtain ⟨coherent₃, keeps₃, gives⟩ := collect_gives step.coherent collected
  obtain ⟨es, picks', gives⟩ := picks.forall₂ gives
  have lookups : ∀ t ∈ picked, chosen.lookup t.id = many.lookup t.id := by
    intro t target
    cases counts : t.isIn (relevant picked (Node.order [objective])) with
    | true => exact restricts.same t counts
    | false =>
      have outside := outside_relevant arena own targeted picks.mem target counts
      rw [restricts.none t counts, step.outside t outside, lookup_seedOf outside]
  have gives' : List.Forall₂ (CollectedFor chosen v) picked es := by
    obtain ⟨size, each⟩ := List.forall₂_iff_zip.mp gives
    refine List.forall₂_iff_zip.mpr ⟨size, fun member => ?_⟩
    rw [CollectedFor, lookups _ (List.of_mem_zip member).1]
    exact each member
  refine ⟨coherent₃, keeps₁.trans (step.keeps.trans keeps₃), es, picks', ?_⟩
  have last := Again.bind (f := fun adjoints => collect adjoints picked) (again₂.later keeps₃) (collect_again gives')
  unfold build
  unfold seedOf at last
  dsimp only
  cases counts : objective.isIn (relevant picked (Node.order [objective])) with
  | true =>
    rw [if_pos counts] at last
    rw [if_pos rfl]
    exact ((again₁ (sub objective counts)).later (step.keeps.trans keeps₃)).bind (Again.bind .pure last)
  | false =>
    rw [counts, if_neg Bool.false_ne_true] at last
    rw [if_neg Bool.false_ne_true]
    exact Again.bind .pure last

/-! Requests. -/

/-- A request for gradients with respect to some nodes: one node, or what a sequence yields. -/
def GradientRequest (wrt : Value) (targets : List Node) : Prop :=
  (∃ t, wrt = .node t ∧ targets = [t]) ∨ wrt.items? = some (targets.map .node)

theorem targetNodes_own {graph : Nat} {targets : List Node} (own : ∀ t ∈ targets, t.id.graph = graph) :
    targetNodes graph (targets.map .node) = .ok targets := by
  induction targets with
  | nil => rfl
  | cons t rest ih =>
    obtain ⟨here, later⟩ := List.forall_mem_cons.mp own
    rw [List.map_cons, targetNodes, if_pos here, ih later]
    rfl

/-- A request for gradients of a single element of single precision is answered by building them. -/
theorem ofValues_eq_build [Memory] {rules : Rules} {objective : Node} {wrt : Value} {targets : List Node}
    (asks : GradientRequest wrt targets) (single : objective.type.volume = 1)
    (floating : objective.elementType = .float32) (own : ∀ t ∈ targets, t.id.graph = objective.id.graph) :
    ofValues rules (.node objective) wrt = build rules objective targets := by
  have positive : objective.elementType.isFloating = true := by
    rw [floating]
    rfl
  have answer : ∀ v : Value, v.items? = some (targets.map .node) →
      ofValues rules (.node objective) v = build rules objective targets := by
    intro v listed
    unfold ofValues
    split
    · cases listed
    · rw [listed]
      change (if objective.type.volume ≠ 1 then _ else
        if (!objective.elementType.isFloating) = true then _ else
          Building.of (targetNodes objective.id.graph (targets.map .node)) >>= build rules objective) = _
      rw [if_neg (not_not.mpr single), positive, targetNodes_own own]
      rfl
  rcases asks with ⟨t, rfl, rfl⟩ | listed
  · exact answer (.list [.node t]) rfl
  · exact answer wrt listed

theorem ofValues_asks [Memory] {rules : Rules} {objective : Node} {wrt : Value} {targets ds : List Node}
    (asks : GradientRequest wrt targets) (ran : ofValues rules (.node objective) wrt w = .ok ds v) :
    objective.type.volume = 1 ∧ objective.elementType = .float32 ∧ build rules objective targets w = .ok ds v := by
  rcases asks with ⟨t, rfl, rfl⟩ | listed
  · have listed : (Value.list [.node t]).items? = some ([t].map Value.node) := rfl
    exact ofValues_cases listed ran
  · exact ofValues_cases listed ran

theorem parallel_own [Memory] {objective : Node} {targets : List Node} (coherent : w.Coherent ShapeRules.Lasting)
    (own : objective ∈ w.graph.nodes) :
    Building.Parallel (w.graph.nodes.toList.map fun n => (n, n)) .several (build .standard objective targets)
      (build .standard objective targets) := by
  refine parallel_build objective targets fun n member => ?_
  have mine := Node.order_own coherent.arena (by simpa using own) n member
  exact ⟨by simpa using mine, fun x input => by simpa using coherent.arena.inputs mine input⟩

/-- Gradients do not depend on which others are asked for: those of some targets are, later on, the very nodes
that were built for all of them, and if they are built first, they stay the gradients when all are. -/
theorem ofValues_picked [Memory] {objective : Node} {wrt part : Value} {targets picked ds : List Node}
    {places : List Nat} (built : w.Built ShapeRules.Lasting) (own : objective ∈ w.graph.nodes)
    (targeted : ∀ t ∈ targets, t ∈ w.graph.nodes) (asks : GradientRequest wrt targets)
    (fewer : GradientRequest part picked)
    (picks : Picks places targets picked) (ran : ofValues .standard (.node objective) wrt w = .ok ds v) :
    (∃ es, Picks places ds es ∧ ∀ u, v.Becomes ShapeRules.Lasting u →
      ofValues .standard (.node objective) part u = .ok es u) ∧
    ∃ es v', ofValues .standard (.node objective) part w = .ok es v' ∧ ∀ u, v'.Becomes ShapeRules.Lasting u →
      ∃ all u', ofValues .standard (.node objective) wrt u = .ok all u' ∧ Picks places all es := by
  have proper : ∀ rules, ShapeRules.Lasting rules → rules.Proper := fun _ lasting => lasting.proper
  have coherent := built.coherent proper
  have wanted : ∀ t ∈ picked, t ∈ w.graph.nodes := fun t member => targeted t (picks.mem t member)
  have graphs : ∀ t ∈ w.graph.nodes, t.id.graph = objective.id.graph := fun t member =>
    (coherent.owns member).trans (coherent.owns own).symm
  obtain ⟨single, floating, made⟩ := ofValues_asks asks ran
  rw [ofValues_eq_build fewer single floating fun t member => graphs t (wanted t member),
    ofValues_eq_build asks single floating fun t member => graphs t (targeted t member)]
  obtain ⟨coherent', keeps, es, picks', again⟩ := build_again coherent own targeted picks made
  refine ⟨⟨es, picks', fun u path => ?_⟩, ?_⟩
  · obtain ⟨later, known⟩ := path.coherent proper coherent'
    exact again u later.rules known
  -- the smaller request returns here as well, since it returns behind the larger one
  have part := again v coherent'.rules (.refl v)
  have diagonal : ∀ {u u' : Workspace}, w.Keeps u → w.Keeps u' → ∀ p ∈ w.graph.nodes.toList.map fun n => (n, n),
      Building.Parallel.StandsFor u u' p := by
    intro u u' known known' p member
    obtain ⟨n, inside, rfl⟩ := List.mem_map.mp member
    have inside : n ∈ w.graph.nodes := by simpa using inside
    exact ⟨known.mem inside, known'.mem inside, rfl⟩
  obtain ⟨fs, v', made', both⟩ := (parallel_own coherent own).mimics coherent' coherent (diagonal keeps (.refl w)) part
  refine ⟨fs, v', made', fun u path => ?_⟩
  obtain ⟨later, known⟩ := path.coherent proper both.right
  obtain ⟨all, u', made'', whole⟩ := (parallel_own coherent own).mimics coherent later
    (diagonal (.refl w) (both.keeps'.trans known)) made
  have still : w.Keeps u := both.keeps'.trans known
  obtain ⟨_, _, gs, picks'', again'⟩ := build_again later (still.mem own)
    (fun t member => still.mem (targeted t member)) picks made''
  obtain ⟨_, _, _, again''⟩ := (parallel_own coherent own).replays coherent (fun p member =>
    (diagonal (.refl w) (.refl w) p member).left) made'
  have first := again' u' whole.right.rules (.refl u')
  rw [again'' u' whole.right.rules (known.trans whole.keeps')] at first
  cases first
  exact ⟨all, u', made'', picks''⟩

end Gradient

namespace Sample

/-- The second of two gradients, asked for twice. -/
theorem ofValues_picked_energy :
    ∃ ds w', Gradient.ofValues .standard (.node energy) (.list [.node x, .node total]) energyWorkspace = .ok ds w' ∧
      (∃ es, Gradient.Picks [1, 1] ds es ∧ ∀ u, w'.Becomes ShapeRules.Lasting u →
        Gradient.ofValues .standard (.node energy) (.tuple [.node total, .node total]) u = .ok es u) ∧
      ∃ es v, Gradient.ofValues .standard (.node energy) (.tuple
        [.node total, .node total]) energyWorkspace = .ok es v ∧ ∀ u, v.Becomes ShapeRules.Lasting u → ∃ all u',
          Gradient.ofValues .standard (.node energy) (.list [.node x, .node total]) u = .ok all u' ∧
            Gradient.Picks [1, 1] all es := by
  obtain ⟨ds, w', ran⟩ := energy_returns
  have built : energyWorkspace.Built ShapeRules.Lasting :=
    energyWorkspace_built.mono fun rules standard => standard ▸ ShapeRules.standard_lasting
  have own : energy ∈ energyWorkspace.graph.nodes := mem_energyWorkspace.mpr (.inr (.inr (.inr (.inr rfl))))
  have whole : Gradient.GradientRequest (.list [.node x, .node total]) [x, total] := .inr rfl
  have part : Gradient.GradientRequest (.tuple [.node total, .node total]) [total, total] := .inr rfl
  exact ⟨ds, w', ran, Gradient.ofValues_picked built own targets_energyWorkspace whole part rfl ran⟩

end Sample
end TensorDag
