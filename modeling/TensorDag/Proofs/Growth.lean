import TensorDag.Gradient.Reverse
import TensorDag.Proofs.Building

/-!
Building on. Whatever callers build, gradients included, is made of constants, variables, placeholders
and calls, so that it makes new buffers at most and leaves the old ones as they are.
-/
namespace TensorDag
open Program
variable [Memory]

/-- One workspace leads to another by constants and calls. -/
inductive Workspace.Leads : Workspace → Workspace → Prop
  | refl (w : Workspace) : Leads w w
  | constant {w w' w'' : Workspace} {shape elementType data : Value} {n : Node} (path : Leads w w')
    (made : Building.constant shape elementType data w' = .ok n w'') : Leads w w''
  | call {w w' w'' : Workspace} {kind : String} {inputs : List Value} {params : Value} {n : Node}
    (path : Leads w w') (made : Building.call kind inputs params w' = .ok n w'') : Leads w w''

theorem Workspace.Leads.trans {w w' w'' : Workspace} (first : w.Leads w') (second : w'.Leads w'') :
    w.Leads w'' := by
  induction second with
  | refl => exact first
  | constant _ made ih => exact .constant ih made
  | call _ made ih => exact .call ih made

theorem Workspace.Leads.store {w w' : Workspace} (leads : w.Leads w') : w.store.Extends w'.store := by
  induction leads with
  | refl => exact .refl _
  | constant _ made ih =>
    obtain ⟨type, bytes, _, _, ⟨_, rfl⟩ | ⟨_, _, rfl⟩⟩ := Building.constant_cases made
    · exact ih
    · exact ih.trans (Store.extends_insert ..)
  | call _ made ih =>
    obtain ⟨graph, _, rfl⟩ := Building.call_cases made
    exact ih

namespace Building
variable {α β : Type}

omit [Memory] in
theorem ensures_of {result : Result α} {w : Workspace} {post : α → Workspace → Prop}
    {rest : Workspace → Prop} (returns : ∀ a, result = .ok a → post a w)
    (fails : ∀ e, result = .error e → rest w) : Ensures (of result) w post rest := by
  cases result with
  | ok a => exact returns a rfl
  | error e => exact fails e rfl

/-! Where one node is asked for and there is none, nothing has changed. -/

theorem constant_unchanged (shape elementType data : Value) (w : Workspace) :
    Ensures (constant shape elementType data) w (fun _ _ => True) (fun w' => w' = w) := by
  refine .bind (ensures_of (fun type _ => ?_) fun _ _ => rfl)
  refine .bind (ensures_of (fun bytes _ => .bind (.get ?_)) fun _ _ => rfl)
  dsimp only
  split
  · exact .pure trivial
  · exact .bind (.set (.pure trivial))

theorem variableOf_unchanged (shape elementType data : Value) (w : Workspace) :
    Ensures (variableOf shape elementType data) w (fun _ _ => True) (fun w' => w' = w) := by
  refine .bind (ensures_of (fun type _ => ?_) fun _ _ => rfl)
  exact .bind (ensures_of (fun bytes _ => .bind (.get (.bind (.set (.pure trivial))))) fun _ _ => rfl)

omit [Memory] in
theorem placeholder_unchanged (shape elementType : Value) (w : Workspace) :
    Ensures (placeholder shape elementType) w (fun _ _ => True) (fun w' => w' = w) :=
  .bind (ensures_of (fun _ _ => .bind (.get (.bind (.set (.pure trivial))))) fun _ _ => rfl)

omit [Memory] in
theorem call_unchanged (kind : String) (inputs : List Value) (params : Value) (w : Workspace) :
    Ensures (call kind inputs params) w (fun _ _ => True) (fun w' => w' = w) :=
  .bind (.get (.bind (ensures_of (fun _ _ => .bind (.set (.pure trivial))) fun _ _ => rfl)))

/-- A builder that is made of constants and calls, also where it fails. -/
structure Ordinary (x : Building α) : Prop where
  leads : ∀ w, Ensures x w (fun _ w' => w.Leads w') (fun w' => w.Leads w')

namespace Ordinary

theorem pure (a : α) : Ordinary (Pure.pure a : Building α) := ⟨fun w => Ensures.pure (.refl w)⟩

theorem throw (e : Error) : Ordinary (throw e : Building α) := ⟨fun w => Ensures.throw (.refl w)⟩

theorem of (result : Result α) : Ordinary (Building.of result) :=
  ⟨fun w => ensures_of (fun _ _ => .refl w) fun _ _ => .refl w⟩

theorem bind {x : Building α} {f : α → Building β} (first : Ordinary x) (rest : ∀ a, Ordinary (f a)) :
    Ordinary (x >>= f) where
  leads w := .bind ((first.leads w).weaken (fun a w' leads =>
    ((rest a).leads w').weaken (fun _ _ => leads.trans) fun _ => leads.trans) fun _ leads => leads)

theorem of_bind {result : Result α} {f : α → Building β} (rest : ∀ a, result = .ok a → Ordinary (f a)) :
    Ordinary (Building.of result >>= f) := by
  refine ⟨fun w => .bind (ensures_of (fun a known => (rest a known).leads w) fun _ _ => .refl w)⟩

theorem constant (shape elementType data : Value) :
    Ordinary (Building.constant shape elementType data) := by
  refine ⟨fun w => (constant_unchanged shape elementType data w).ran.weaken ?_ ?_⟩
  · exact fun _ _ ran => .constant (.refl w) ran.2
  · rintro _ ⟨rfl, _⟩
    exact .refl _

theorem call (kind : String) (inputs : List Value) (params : Value) :
    Ordinary (Building.call kind inputs params) := by
  refine ⟨fun w => (call_unchanged kind inputs params w).ran.weaken ?_ ?_⟩
  · exact fun _ _ ran => .call (.refl w) ran.2
  · rintro _ ⟨rfl, _⟩
    exact .refl _

theorem apply (kind : Kind) (inputs : List Node) (entries : Entries) :
    Ordinary (Building.apply kind inputs entries) := by
  rw [apply_eq_call]
  exact call ..

theorem forM {f : α → Building PUnit} (each : ∀ a, Ordinary (f a)) (items : List α) :
    Ordinary (items.forM f) := by
  induction items with
  | nil => exact pure _
  | cons a rest ih =>
    rw [forM_cons]
    exact (each a).bind fun _ => ih

/-! Operations. -/

theorem lift (n : Node) (v : Value) : Ordinary (Building.lift n v) := constant ..

theorem asNode (v : Value) : Ordinary (Building.asNode v) := by
  cases v with
  | node n => exact pure n
  | _ => exact throw _

theorem on (kind : Kind) (first : Value) (others : List Value) (entries : Entries) :
    Ordinary (Building.on kind first others entries) :=
  (asNode first).bind fun _ => call ..

theorem single (op : BinaryKind) (a b : Value) : Ordinary (Building.single op a b) := by
  unfold Building.single
  split
  · exact call ..
  · split
    · exact (lift ..).bind fun _ => call ..
    · exact throw _
  · split
    · exact (lift ..).bind fun _ => call ..
    · exact throw _
  · exact throw _

theorem overCells {content : Value} {make : Value → Building Node} (each : ∀ v, Ordinary (make v)) :
    Ordinary (Building.overCells content make) := by
  cases content with
  | list vs => exact (forM (fun v => (each v).bind fun _ => pure _) _).bind fun _ => throw _
  | _ => exact each _

theorem operator (op : BinaryKind) (a b : Value) : Ordinary (Building.operator op a b) := by
  unfold Building.operator
  split
  · exact overCells fun _ => single ..
  · exact overCells fun _ => single ..
  · exact single ..

theorem negative (v : Value) : Ordinary (Building.negative v) := by
  unfold Building.negative
  split
  · exact apply ..
  all_goals exact throw _

end Ordinary
end Building

namespace Gradient
open Building (Ordinary)
open Building.Ordinary (pure throw)

theorem ordinary_unbroadcast (g : Node) (target : List Value) : Ordinary (unbroadcast g target) := by
  unfold unbroadcast
  split
  · exact pure g
  refine (Ordinary.of _).bind fun _ => ?_
  have last : ∀ reduced : Node, Ordinary (if areDims reduced.shape target then Pure.pure reduced
      else Building.reshape (.node reduced) (.tuple target)) := by
    intro reduced
    split
    · exact pure reduced
    · exact .on ..
  dsimp only
  split
  · exact (pure g).bind last
  · exact (Ordinary.apply ..).bind last

theorem ordinary_unbroadcastTo (g : Value) (x : Node) : Ordinary (unbroadcastTo g x) :=
  (Ordinary.asNode g).bind fun _ => ordinary_unbroadcast ..

theorem ordinary_oneInput (n : Node) : Ordinary (oneInput n) := by
  unfold oneInput
  split
  · exact pure _
  · exact throw _

theorem ordinary_twoInputs (n : Node) : Ordinary (twoInputs n) := by
  unfold twoInputs
  split
  · exact pure _
  · exact throw _

theorem ordinary_threeInputs (n : Node) : Ordinary (threeInputs n) := by
  unfold threeInputs
  split
  · exact pure _
  · exact throw _

theorem ordinary_firstInput (n : Node) : Ordinary (firstInput n) := by
  unfold firstInput
  split
  · exact pure _
  · exact throw _

theorem ordinary_binaryRule (op : BinaryKind) (n : Node) (g : Value) : Ordinary (binaryRule op n g) := by
  refine (ordinary_twoInputs n).bind fun ⟨a, b⟩ => ?_
  have toward := ordinary_unbroadcastTo
  have times := Ordinary.operator .mul
  have apply := Ordinary.apply
  cases op with
  | add => exact (toward ..).bind fun _ => (toward ..).bind fun _ => pure _
  | sub =>
    exact (toward ..).bind fun _ => (Ordinary.negative g).bind fun _ => (toward ..).bind fun _ => pure _
  | mul =>
    exact (times ..).bind fun _ => (toward ..).bind fun _ =>
      (times ..).bind fun _ => (toward ..).bind fun _ => pure _
  | div =>
    exact (Ordinary.operator ..).bind fun _ => (toward ..).bind fun _ => (times ..).bind fun _ =>
      (apply ..).bind fun _ => (apply ..).bind fun _ => (apply ..).bind fun _ => (toward ..).bind fun _ =>
        pure _
  | pow =>
    exact (times ..).bind fun _ => (Ordinary.lift ..).bind fun _ => (apply ..).bind fun _ =>
      (apply ..).bind fun _ => (apply ..).bind fun _ => (times ..).bind fun _ => (apply ..).bind fun _ =>
        (apply ..).bind fun _ => (toward ..).bind fun _ => (toward ..).bind fun _ => pure _
  | max | min =>
    exact (apply ..).bind fun _ => (times ..).bind fun _ => (toward ..).bind fun _ =>
      (apply ..).bind fun _ => (times ..).bind fun _ => (toward ..).bind fun _ => pure _
  | _ => exact pure _

theorem ordinary_unaryRule (op : UnaryKind) (n : Node) (g : Value) : Ordinary (unaryRule op n g) := by
  cases op with
  | neg => exact (Ordinary.negative g).bind fun _ => pure _
  | abs =>
    exact (ordinary_firstInput n).bind fun _ => (Ordinary.apply ..).bind fun _ =>
      (Ordinary.operator ..).bind fun _ => pure _
  | sgn => exact pure _
  | exp => exact (Ordinary.operator ..).bind fun _ => pure _
  | log =>
    exact (ordinary_firstInput n).bind fun _ => (Ordinary.operator ..).bind fun _ => pure _
  | sqrt =>
    exact (Ordinary.lift ..).bind fun _ => (Ordinary.apply ..).bind fun _ =>
      (Ordinary.operator ..).bind fun _ => pure _

theorem ordinary_spread (g : Value) (x : Node) (kept : Shape) : Ordinary (spread g x kept) :=
  (Ordinary.on ..).bind fun _ => .apply ..

theorem ordinary_sumRule (n : Node) (g : Value) : Ordinary (sumRule n g) :=
  (ordinary_oneInput n).bind fun _ => (Ordinary.of _).bind fun _ => (Ordinary.of _).bind fun _ =>
    (ordinary_spread ..).bind fun _ => pure _

theorem ordinary_maxElementRule (n : Node) (g : Value) : Ordinary (maxElementRule n g) :=
  (ordinary_oneInput n).bind fun _ => (Ordinary.of _).bind fun _ => (Ordinary.of _).bind fun _ =>
    (ordinary_spread ..).bind fun _ => (Ordinary.apply ..).bind fun _ =>
      (ordinary_spread ..).bind fun _ => (Ordinary.apply ..).bind fun _ => pure _

theorem ordinary_matmulRule (n : Node) (g : Value) : Ordinary (matmulRule n g) :=
  (ordinary_twoInputs n).bind fun ⟨_, _⟩ => (Ordinary.on ..).bind fun _ => (Ordinary.on ..).bind fun _ =>
    (Ordinary.on ..).bind fun _ => (Ordinary.on ..).bind fun _ => pure _

theorem ordinary_transposeRule (n : Node) (g : Value) : Ordinary (transposeRule n g) :=
  (Ordinary.of _).bind fun _ => (Ordinary.of _).bind fun _ => (Ordinary.of _).bind fun _ =>
    (Ordinary.on ..).bind fun _ => pure _

theorem ordinary_sliceRule (n : Node) (g : Value) : Ordinary (sliceRule n g) :=
  (ordinary_oneInput n).bind fun _ => (Ordinary.of _).bind fun _ => (Ordinary.of _).bind fun _ =>
    (Ordinary.of _).bind fun _ => (Ordinary.on ..).bind fun _ => pure _

theorem ordinary_padRule (n : Node) (g : Value) : Ordinary (padRule n g) :=
  (ordinary_oneInput n).bind fun _ => (Ordinary.of _).bind fun _ => (Ordinary.of _).bind fun _ =>
    (Ordinary.of _).bind fun _ => (Ordinary.on ..).bind fun _ => pure _

theorem ordinary_windowOf (n : Node) : Ordinary (windowOf n) :=
  (Ordinary.of _).bind fun _ => (Ordinary.of _).bind fun _ => pure _

theorem ordinary_convolutionRule (n : Node) (g : Value) : Ordinary (convolutionRule n g) :=
  (ordinary_twoInputs n).bind fun ⟨_, _⟩ => (ordinary_windowOf n).bind fun _ =>
    (Ordinary.on ..).bind fun _ => (Ordinary.on ..).bind fun _ => pure _

theorem ordinary_featuresGradientRule (n : Node) (g : Value) : Ordinary (featuresGradientRule n g) :=
  (ordinary_twoInputs n).bind fun ⟨_, _⟩ => (ordinary_windowOf n).bind fun _ =>
    (Ordinary.on ..).bind fun _ => (Ordinary.on ..).bind fun _ => pure _

theorem ordinary_filtersGradientRule (n : Node) (g : Value) : Ordinary (filtersGradientRule n g) :=
  (ordinary_twoInputs n).bind fun ⟨_, _⟩ => (ordinary_windowOf n).bind fun _ =>
    (Ordinary.on ..).bind fun _ => (Ordinary.on ..).bind fun _ => pure _

theorem ordinary_maxpoolRule (n : Node) (g : Value) : Ordinary (maxpoolRule n g) :=
  (ordinary_firstInput n).bind fun _ => (Ordinary.of _).bind fun _ => (Ordinary.on ..).bind fun _ => pure _

theorem ordinary_maxpoolGradientRule (n : Node) (g : Value) : Ordinary (maxpoolGradientRule n g) := by
  refine (ordinary_threeInputs n).bind fun ⟨_, pooled, features⟩ => (Ordinary.of _).bind fun (down, right) =>
    (Ordinary.of _).bind fun _ => (Ordinary.constant ..).bind fun ones => (Ordinary.on ..).bind fun _ =>
      (Ordinary.operator ..).bind fun _ => ?_
  split
  · refine (Ordinary.of _).bind fun _ => ?_
    have last : ∀ tiled shape, Ordinary (do
        let blocks ← Building.reshape (.node tiled) shape
        return [some (← Building.sum blocks [3, 5]), none, none] : Building Contributions) :=
      fun _ _ => (Ordinary.on ..).bind fun _ => (Ordinary.apply ..).bind fun _ => pure _
    dsimp only
    split
    · exact (pure _).bind fun _ => last ..
    · exact (Ordinary.on ..).bind fun _ => last ..
  · exact throw _

theorem ordinary_lastAxisTotal (x : Node) : Ordinary (lastAxisTotal x) :=
  (Ordinary.apply ..).bind fun _ => (Ordinary.on ..).bind fun _ => .apply ..

theorem ordinary_softmaxGradientRule (n : Node) (g : Value) : Ordinary (softmaxGradientRule n g) := by
  have apply := Ordinary.apply
  have times := Ordinary.operator .mul
  exact (ordinary_twoInputs n).bind fun ⟨_, _⟩ => (Ordinary.on ..).bind fun _ => (apply ..).bind fun _ =>
    (ordinary_lastAxisTotal _).bind fun _ => (apply ..).bind fun _ => (times ..).bind fun _ =>
      (times ..).bind fun _ => (ordinary_lastAxisTotal _).bind fun _ => (apply ..).bind fun _ =>
        (apply ..).bind fun _ => pure _

theorem ordinary_standardRule (kind : Kind) (n : Node) (g : Value) : Ordinary (standardRule kind n g) := by
  cases kind with
  | binary op => exact ordinary_binaryRule op n g
  | unary op => exact ordinary_unaryRule op n g
  | matmul => exact ordinary_matmulRule n g
  | sum => exact ordinary_sumRule n g
  | maxElement => exact ordinary_maxElementRule n g
  | reshape => exact (ordinary_firstInput n).bind fun _ => (Ordinary.on ..).bind fun _ => pure _
  | transpose => exact ordinary_transposeRule n g
  | slice => exact ordinary_sliceRule n g
  | pad => exact ordinary_padRule n g
  | repeated => exact (Ordinary.on ..).bind fun _ => pure _
  | broadcast => exact (ordinary_firstInput n).bind fun _ => (ordinary_unbroadcastTo ..).bind fun _ => pure _
  | convolution => exact ordinary_convolutionRule n g
  | featuresGradient => exact ordinary_featuresGradientRule n g
  | filtersGradient => exact ordinary_filtersGradientRule n g
  | maxpool => exact ordinary_maxpoolRule n g
  | maxpoolGradient => exact ordinary_maxpoolGradientRule n g
  | softmax => exact (Ordinary.on ..).bind fun _ => pure _
  | softmaxGradient => exact ordinary_softmaxGradientRule n g
  | argmin | uniform => exact pure _

/-! The sweep. -/

theorem ordinary_accumulate (adjoints : Adjoints) (x contribution : Node) :
    Ordinary (accumulate adjoints x contribution) := by
  unfold accumulate
  split
  · exact (Ordinary.apply ..).bind fun _ => pure _
  · exact pure _

theorem ordinary_distribute (kind : String) (found : List Node)
    (contributions : List (Node × Option Node)) (adjoints : Adjoints) :
    Ordinary (distribute kind found contributions adjoints) := by
  induction contributions generalizing adjoints with
  | nil => exact pure _
  | cons entry rest ih =>
    obtain ⟨x, _ | contribution⟩ := entry
    · exact ih adjoints
    · unfold distribute
      split
      · split
        · exact (ordinary_accumulate ..).bind ih
        · exact throw _
      · exact ih adjoints

/-- Rules that come with the library, and rules that are ordinary builders. -/
def Rule.Plain : Rule → Prop
  | .custom _ run => ∀ n g, Ordinary (run n g)
  | _ => True

theorem Rule.Plain.run {rule : Rule} (plain : rule.Plain) (n : Node) (g : Value) :
    Ordinary (rule.run n g) := by
  cases rule with
  | constant => exact pure _
  | standard kind => exact ordinary_standardRule kind n g
  | custom name run => exact plain n g

def Rules.Plain (rules : Rules) : Prop := ∀ entry ∈ rules, entry.2.Plain

theorem Rules.standard_plain : Rules.standard.Plain := by
  intro entry member
  obtain ⟨kind, _, rfl⟩ := List.mem_map.mp member
  dsimp only
  split <;> trivial

omit [Memory] in
theorem Rules.mem_of_find {rules : Rules} {kind : String} {rule : Rule} (found : rules.find kind = .ok rule) :
    (kind, rule) ∈ rules := by
  unfold Rules.find at found
  cases listed : rules.lookup kind with
  | none => simp [listed] at found
  | some other =>
    simp only [listed, Except.ok.injEq] at found
    obtain ⟨before, after, split, _⟩ := List.lookup_eq_some_iff.mp listed
    exact found ▸ split ▸ List.mem_append_right _ (List.mem_cons_self ..)

theorem ordinary_sweep {rules : Rules} (plain : rules.Plain) (found nodes : List Node)
    (adjoints : Adjoints) : Ordinary (sweep rules found nodes adjoints) := by
  induction nodes generalizing adjoints with
  | nil => exact pure _
  | cons n rest ih =>
    unfold sweep
    split
    · refine .of_bind fun rule known => ?_
      split
      · exact ih adjoints
      · refine ((plain _ (Rules.mem_of_find known)).run n _).bind fun contributions => ?_
        have last : ∀ u : Unit, Ordinary (do
            sweep rules found rest (← distribute n.kind found (n.inputs.zip contributions) adjoints)) :=
          fun _ => (ordinary_distribute ..).bind ih
        dsimp only
        split
        · exact (throw _).bind last
        · exact last ()
    · exact ih adjoints

theorem ordinary_collect (adjoints : Adjoints) (targets : List Node) :
    Ordinary (collect adjoints targets) := by
  induction targets with
  | nil => exact pure _
  | cons t rest ih =>
    unfold collect
    split
    · exact (pure _).bind fun _ => ih.bind fun _ => pure _
    · exact (Ordinary.constant ..).bind fun _ => ih.bind fun _ => pure _

theorem ordinary_build {rules : Rules} (plain : rules.Plain) (objective : Node) (targets : List Node) :
    Ordinary (build rules objective targets) := by
  unfold build
  dsimp only
  have last : ∀ seed, Ordinary (do
      collect (← sweep rules (relevant targets (Node.order [objective])) (Node.order [objective]).reverse seed)
        targets) := fun seed => (ordinary_sweep plain ..).bind fun _ => ordinary_collect ..
  split
  · exact (Ordinary.constant ..).bind fun _ => (pure _).bind last
  · exact (pure _).bind last

/-- Gradients are made of constants and calls. -/
theorem ordinary_ofValues {rules : Rules} (plain : rules.Plain) (objective targets : Value) :
    Ordinary (ofValues rules objective targets) := by
  have last : ∀ items, Ordinary (do
      let objective ← Building.asNode objective
      if objective.type.volume ≠ 1 then throw (.shape (.objectiveVolume objective.type))
      if !objective.elementType.isFloating then throw (.shape (.objectiveType objective.type))
      build rules objective (← Building.of (targetNodes objective.id.graph items))) := by
    refine fun items => (Ordinary.asNode objective).bind fun n => ?_
    have final : Ordinary (do build rules n (← Building.of (targetNodes n.id.graph items))) :=
      (Ordinary.of _).bind fun _ => ordinary_build plain ..
    have floating : Ordinary (do
        if !n.elementType.isFloating then throw (.shape (.objectiveType n.type))
        build rules n (← Building.of (targetNodes n.id.graph items))) := by
      dsimp only
      split
      · exact (throw _).bind fun _ => final
      · exact final
    dsimp only
    split
    · exact (throw _).bind fun _ => floating
    · exact floating
  unfold ofValues
  split
  · exact (pure _).bind last
  · dsimp only
    split
    · exact (pure _).bind last
    · exact (throw _).bind last

end Gradient

/-- What callers build. -/
inductive BuilderCall
  | constant (shape elementType data : Value)
  | variableOf (shape elementType data : Value)
  | placeholder (shape elementType : Value)
  | call (kind : String) (inputs : List Value) (params : Value)
  | gradient (rules : Gradient.Rules) (plain : rules.Plain) (objective targets : Value)

namespace BuilderCall

def run : BuilderCall → Building (List Node)
  | constant shape elementType data => return [← Building.constant shape elementType data]
  | variableOf shape elementType data => return [← Building.variableOf shape elementType data]
  | placeholder shape elementType => return [← Building.placeholder shape elementType]
  | call kind inputs params => return [← Building.call kind inputs params]
  | gradient rules _ objective targets => Gradient.ofValues rules objective targets

/-- What a call on a graph can do. -/
inductive Leaves (w : Workspace) : Workspace → Prop
  | leads {w' : Workspace} (path : w.Leads w') : Leaves w w'
  | variableOf {w' : Workspace} {shape elementType data : Value} {n : Node}
    (made : Building.variableOf shape elementType data w = .ok n w') : Leaves w w'
  | placeholder {w' : Workspace} {shape elementType : Value} {n : Node}
    (made : Building.placeholder shape elementType w = .ok n w') : Leaves w w'

/-- Whether or not it returns. -/
theorem leaves_final (c : BuilderCall) (w : Workspace) : Leaves w (final c.run w) := by
  have ordinary : ∀ {x : Building (List Node)}, Building.Ordinary x → Ensures x w
      (fun _ w' => Leaves w w') (fun w' => Leaves w w') :=
    fun plain => (plain.leads w).weaken (fun _ _ => .leads) fun _ => .leads
  have spec : Ensures c.run w (fun _ w' => Leaves w w') (fun w' => Leaves w w') := by
    cases c with
    | constant shape elementType data =>
      exact ordinary ((Building.Ordinary.constant ..).bind fun _ => .pure _)
    | call kind inputs params => exact ordinary ((Building.Ordinary.call ..).bind fun _ => .pure _)
    | gradient rules plain objective targets => exact ordinary (Gradient.ordinary_ofValues plain ..)
    | variableOf shape elementType data =>
      refine .bind ((Building.variableOf_unchanged shape elementType data w).ran.weaken ?_ ?_)
      · exact fun n w' ran => .pure (.variableOf ran.2)
      · rintro _ ⟨rfl, _⟩
        exact .leads (.refl _)
    | placeholder shape elementType =>
      refine .bind ((Building.placeholder_unchanged shape elementType w).ran.weaken ?_ ?_)
      · exact fun n w' ran => .pure (.placeholder ran.2)
      · rintro _ ⟨rfl, _⟩
        exact .leads (.refl _)
  exact spec.final

theorem extends_final (c : BuilderCall) (w : Workspace) : w.store.Extends (final c.run w).store := by
  cases c.leaves_final w with
  | leads path => exact path.store
  | variableOf made =>
    obtain ⟨type, bytes, _, _, _, left⟩ := Building.variableOf_cases made
    rw [left]
    exact Store.extends_insert ..
  | placeholder made =>
    obtain ⟨type, _, _, left⟩ := Building.placeholder_cases made
    rw [left]
    exact .refl _

end BuilderCall
end TensorDag
