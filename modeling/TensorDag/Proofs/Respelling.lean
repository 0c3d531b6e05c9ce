import TensorDag.Proofs.Rereading
import TensorDag.Proofs.Unknown

/-!
Equivalent spellings. Calls that name the same axes, order, shape, window or pair in different ways mean one
operator, so that whichever comes first makes the node that all of them return.
-/
namespace TensorDag
open Result (bind_eq_ok pure_eq_ok)

namespace Value

/-- An axis is named by a value, counted from either end; null names all of them. -/
def NamesAxis (rank : Nat) (v : Value) (k : Nat) : Prop :=
  k < rank ∧ (v = .null ∨ ∃ items, v.asSequence.items? = some items ∧
    ∃ item ∈ items, ∃ i, item.int? = some i ∧ i % rank = k)

/-- A value names a pair: a number the pair that repeats it, two numbers the pair of them. -/
def NamesPair (v : Value) (p : Int × Int) : Prop :=
  v.int? = some p.1 ∧ p.1 = p.2 ∨
    v.int? = none ∧ ∃ first second, v.items? = some [first, second] ∧ first.int? = some p.1 ∧ second.int? = some p.2

theorem truncated_int {v : Value} {i : Int} (whole : v.int? = some i) : v.truncated = .ok i := by
  cases v with
  | int j => cases whole; rfl
  | scalar type v =>
    cases v with
    | int j => cases whole; rfl
    | _ => cases whole
  | _ => cases whole

theorem pair_names {v : Value} {p : Int × Int} (names : v.NamesPair p) (kind name : String) (minimum : Int) :
    v.pair kind name minimum =
      if p.1 < minimum ∨ p.2 < minimum then .shape (.pairBelow kind name minimum p.1 p.2) else .ok p := by
  have read : ∀ {first second : Value} (fault : ShapeFault), first.int? = some p.1 → second.int? = some p.2 →
      pairInts fault [first, second] = .ok [p.1, p.2] := by
    intro first second fault here there
    simp only [pairInts, truncated_int here, truncated_int there]
    rfl
  rcases names with ⟨whole, twice⟩ | ⟨other, first, second, items, here, there⟩
  · simp only [pair, whole, Option.isSome_some, if_true, items?]
    refine (congrArg (· >>= _) (read _ whole (twice ▸ whole))).trans ?_
    rfl
  · simp only [pair, other, Option.isSome_none, Bool.false_eq_true, if_false, items]
    refine (congrArg (· >>= _) (read _ here there)).trans ?_
    rfl

theorem shape_ints_eq_ok {is : List Int} {s : Shape} : (ints is).shape = .ok s ↔ is = s.map Int.ofNat := by
  constructor
  · have all : ∀ (is : List Int) (s : Shape) (whole : Value) (others : List Value),
        shapeDims whole others (is.map .int) = .ok s → is = s.map Int.ofNat := by
      intro is s whole others read
      induction is generalizing s with
      | nil => cases read; rfl
      | cons i rest ih =>
        rw [List.map_cons, shapeDims] at read
        simp only [int?] at read
        split at read
        · cases read
        · obtain ⟨others, later, made⟩ := bind_eq_ok.mp read
          cases made
          rw [ih _ later, List.map_cons]
          exact congrArg (· :: _) (Int.toNat_of_nonneg (by omega)).symm
    exact all is s _ _
  · rintro rfl
    exact shape_lists (lists_ints _)

end Value

namespace Kind
variable {kind : Kind} {types : List TensorType} {es es' : Entries} {op op' : Operator}

/-- Two entries that name one pair, or say the same by their absence. -/
def SamePair (es es' : Entries) (name : String) (default : Int) : Prop :=
  ∃ p, (es.getD name (.int default)).NamesPair p ∧ (es'.getD name (.int default)).NamesPair p

/-- Spellings of one call. -/
inductive Respelled (types : List TensorType) : Kind → Entries → Entries → Prop
  | axes {kind : Kind} {es es' : Entries} (reduces : kind = .sum ∨ kind = .maxElement)
    (same : ∀ k, (es.get "axes").NamesAxis (source types).rank k ↔ (es'.get "axes").NamesAxis (source types).rank k) :
    Respelled types kind es es'
  | order {es es' : Entries} (absent : es.get "order" = .null)
    (reversed : (es'.get "order").integers "transpose" "order" =
      .ok ((List.range (source types).rank).reverse.map Int.ofNat)) : Respelled types .transpose es es'
  | unknown {es es' : Entries} {v v' : Value} {before after : List Int} {d : Nat}
    (named : Value.field? "shape" es = some v) (named' : Value.field? "shape" es' = some v')
    (open_ : v.integers "reshape" "shape" = .ok (before ++ -1 :: after))
    (filled : v'.integers "reshape" "shape" = .ok (before ++ Int.ofNat d :: after)) : Respelled types .reshape es es'
  | window {kind : Kind} {es es' : Entries}
    (slides : kind = .convolution ∨ kind = .featuresGradient ∨ kind = .filtersGradient)
    (padding : SamePair es es' "padding" 0) (stride : SamePair es es' "stride" 1)
    (features : Value.field? "features_shape" es = Value.field? "features_shape" es')
    (filters : Value.field? "filters_shape" es = Value.field? "filters_shape" es') : Respelled types kind es es'
  | dims {kind : Kind} {es es' : Entries} {v v' : Value} {p : Int × Int}
    (pools : kind = .maxpool ∨ kind = .maxpoolGradient) (named : Value.field? "dims" es = some v)
    (named' : Value.field? "dims" es' = some v') (pair : v.NamesPair p) (pair' : v'.NamesPair p) :
    Respelled types kind es es'
  | symm {kind : Kind} {es es' : Entries} (other : Respelled types kind es' es) : Respelled types kind es es'

theorem resolveAxis_eq_ok {rank axis : Nat} {i : Int} :
    resolveAxis rank i = .ok axis ↔ (-(rank : Int) ≤ i ∧ i < rank) ∧ i % rank = axis := by
  unfold resolveAxis
  constructor
  · intro resolved
    split at resolved
    · rename_i bounds
      cases resolved
      exact ⟨bounds, (Int.toNat_of_nonneg (Int.emod_nonneg i (by omega))).symm⟩
    · cases resolved
  · rintro ⟨bounds, same⟩
    rw [if_pos bounds, same, Int.toNat_natCast]

theorem mem_resolveAxes {name : String} {rank : Nat} : ∀ {items : List Value} {axes : List Nat},
    resolveAxes name rank items = .ok axes → ∀ k, k ∈ axes ↔ ∃ item ∈ items, ∃ i, item.int? = some i ∧ i % rank = k
  | [], axes, resolved, k => by
    cases resolved
    simp
  | item :: rest, axes, resolved, k => by
    rw [resolveAxes] at resolved
    split at resolved
    · cases resolved
    · rename_i i whole
      obtain ⟨axis, here, resolved⟩ := bind_eq_ok.mp resolved
      obtain ⟨others, later, made⟩ := bind_eq_ok.mp resolved
      cases made
      obtain ⟨_, counted⟩ := resolveAxis_eq_ok.mp here
      rw [List.mem_cons, mem_resolveAxes later k, List.exists_mem_cons_iff]
      simp only [whole, Option.some.injEq, exists_eq_left', counted, Int.natCast_inj, eq_comm]

/-- The axes of a reduction are those that are named. -/
theorem mem_spellAxes {name : String} {axes : List Nat} (spelled : spellAxes name types es = .ok axes) (k : Nat) :
    k ∈ axes ↔ (es.get "axes").NamesAxis (source types).rank k := by
  unfold spellAxes at spelled
  unfold Value.NamesAxis
  generalize es.get "axes" = v at spelled ⊢
  split at spelled
  · cases spelled
    rw [List.mem_range]
    exact (and_iff_left (.inl rfl)).symm
  · rename_i given
    split at spelled
    · cases spelled
    · rename_i items found
      obtain ⟨named, resolved, spelled⟩ := bind_eq_ok.mp spelled
      split at spelled <;> cases spelled
      rw [List.mem_filter, List.mem_range, List.contains_iff_mem, mem_resolveAxes resolved, or_iff_right given]
      simp only [found, Option.some.injEq, exists_eq_left']

theorem spellAxes_respelled {name : String} {axes axes' : List Nat} (spelled : spellAxes name types es = .ok axes)
    (spelled' : spellAxes name types es' = .ok axes')
    (same : ∀ k, (es.get "axes").NamesAxis (source types).rank k ↔ (es'.get "axes").NamesAxis (source types).rank k) :
    axes = axes' :=
  List.Pairwise.eq_of_mem_iff (spellAxes_sorted spelled).1 (spellAxes_sorted spelled').1 fun k => by
    rw [mem_spellAxes spelled, mem_spellAxes spelled', same]

theorem roundedWord_zero : roundedWord 0 = 0 := by decide +kernel

theorem foldl_zero {factors : List Int} (member : 0 ∈ factors) : ∀ i : Int, factors.foldl (· * ·) i = 0 := by
  induction factors with
  | nil => cases member
  | cons f rest ih =>
    intro i
    rw [List.foldl_cons]
    rcases List.mem_cons.mp member with rfl | later
    · have none : ∀ rest : List Int, rest.foldl (· * ·) (0 : Int) = 0 := fun rest => by
        induction rest with
        | nil => rfl
        | cons f rest ih => rw [List.foldl_cons, Int.zero_mul, ih]
      rw [Int.mul_zero, none]
    · exact ih later _

theorem wrappedProduct_ne_zero {factors : List Int} {known : Int} (product : wrappedProduct factors = .ok known)
    (used : known ≠ 0) : (0 : Int) ∉ factors := by
  intro member
  have rounded : (0 : Int) ∈ factors.map roundedWord := List.mem_map.mpr ⟨0, member, roundedWord_zero⟩
  simp only [wrappedProduct, foldl_zero member, foldl_zero rounded, Int.zero_bmod] at product
  split at product
  · cases product
  · split at product <;> cases product <;> exact used rfl

theorem fillUnknown_cases {type : TensorType} {dims filled : List Int} (made : fillUnknown type dims = .ok filled) :
    dims.count (-1) = 0 ∧ filled = dims ∨ dims.count (-1) = 1 ∧ ∃ known,
      wrappedProduct (dims.filter (· ≠ -1)) = .ok known ∧ known ≠ 0 ∧
        filled = dims.map fun d => if d = -1 then Int.fdiv type.volume known else d := by
  unfold fillUnknown at made
  split at made
  · rename_i known
    cases made
    exact .inl ⟨known, rfl⟩
  · rename_i unknown
    obtain ⟨known, product, made⟩ := bind_eq_ok.mp made
    split at made <;> cases made
    rename_i allowed
    exact .inr ⟨unknown, known, product, (not_or.mp allowed).1, rfl⟩
  · cases made

theorem spellReshape_cases {v : Value} {dims : List Int} (named : Value.field? "shape" es = some v)
    (read : v.integers "reshape" "shape" = .ok dims) (spelled : spellReshape types es = .ok op) :
    ∃ filled s, fillUnknown (source types) dims = .ok filled ∧ filled = s.map Int.ofNat ∧ op = .reshape s := by
  simp only [spellReshape, named, read] at spelled
  obtain ⟨_, same, spelled⟩ := bind_eq_ok.mp spelled
  cases same
  obtain ⟨filled, made, spelled⟩ := bind_eq_ok.mp spelled
  obtain ⟨s, shaped, spelled⟩ := bind_eq_ok.mp spelled
  cases spelled
  exact ⟨filled, s, made, Value.shape_ints_eq_ok.mp shaped, rfl⟩

/-- Shapes of one volume that differ at one place at most are the same, unless the other dimensions have no cells. -/
theorem shape_inserted {before after : List Int} {i j : Int} {s t : Shape}
    (first : s.map Int.ofNat = before ++ i :: after) (second : t.map Int.ofNat = before ++ j :: after)
    (used : (0 : Int) ∉ before ++ after) (cells : Shape.volume s = Shape.volume t) : s = t := by
  obtain ⟨b, rest, rfl, rfl, later⟩ := List.map_eq_append_iff.mp first
  obtain ⟨d, a, rfl, rfl, rfl⟩ := List.map_eq_cons_iff.mp later
  obtain ⟨b', rest', rfl, same, later'⟩ := List.map_eq_append_iff.mp second
  obtain ⟨e, a', rfl, rfl, same'⟩ := List.map_eq_cons_iff.mp later'
  have injective : Function.Injective Int.ofNat := fun _ _ => Int.ofNat.inj
  obtain rfl := List.map_injective_iff.mpr injective same
  obtain rfl := List.map_injective_iff.mpr injective same'
  rw [← List.map_append] at used
  have positive : 1 ≤ Shape.volume (b' ++ a') := Shape.volume_pos fun d member =>
    Nat.pos_of_ne_zero fun none => used (List.mem_map.mpr ⟨d, member, none ▸ rfl⟩)
  rw [Shape.volume_insert, Shape.volume_insert] at cells
  rw [Nat.eq_of_mul_eq_mul_right positive cells]

/-- The unknown dimension is the only one that gives the shape its volume. -/
theorem spellReshape_respelled {v v' : Value} {before after : List Int} {d : Nat}
    (named : Value.field? "shape" es = some v) (named' : Value.field? "shape" es' = some v')
    (missing : v.integers "reshape" "shape" = .ok (before ++ -1 :: after))
    (filled : v'.integers "reshape" "shape" = .ok (before ++ Int.ofNat d :: after))
    (spelled : spellReshape types es = .ok op) (spelled' : spellReshape types es' = .ok op')
    {type type' : TensorType} (inferred : op.infer types = .ok type) (inferred' : op'.infer types = .ok type') :
    op = op' := by
  obtain ⟨_, s, made, shaped, rfl⟩ := spellReshape_cases named missing spelled
  obtain ⟨_, s', made', shaped', rfl⟩ := spellReshape_cases named' filled spelled'
  obtain ⟨t, rfl, cells, _⟩ := Operator.inferReshape_eq_ok.mp inferred
  obtain ⟨t', same, cells', _⟩ := Operator.inferReshape_eq_ok.mp inferred'
  cases same
  rcases fillUnknown_cases made with ⟨none, _⟩ | ⟨single, known, product, used, here⟩
  · rw [List.count_append, List.count_cons_self] at none
    omega
  -- no dimension is unknown but the one between the others
  rw [List.count_append, List.count_cons_self] at single
  have first : (-1 : Int) ∉ before := List.count_eq_zero.mp (by omega)
  have second : (-1 : Int) ∉ after := List.count_eq_zero.mp (by omega)
  have others : ∀ {is : List Int}, (-1 : Int) ∉ is → is.filter (· ≠ -1) = is ∧
      ∀ i, is.map (fun d => if d = -1 then i else d) = is := by
    intro is absent
    refine ⟨List.filter_eq_self.mpr fun i member => ?_,
      fun i => (List.map_congr_left fun d member => ?_).trans (List.map_id is)⟩
    · simpa using ne_of_mem_of_not_mem member absent
    · exact if_neg (ne_of_mem_of_not_mem member absent)
  rw [List.filter_append, List.filter_cons_of_neg (by simp), (others first).1, (others second).1] at product
  rw [List.map_append, List.map_cons, if_pos rfl, (others first).2, (others second).2] at here
  rcases fillUnknown_cases made' with ⟨_, there⟩ | ⟨single', _⟩
  · rw [shape_inserted (shaped.symm.trans here) (shaped'.symm.trans there) (wrappedProduct_ne_zero product used)
      (cells.trans cells'.symm)]
  · rw [List.count_append, List.count_cons_of_ne (by simp), List.count_eq_zero.mpr first, List.count_eq_zero.mpr second]
      at single'
    omega

theorem spellConvolution_respelled (name : String) (padding : SamePair es es' "padding" 0)
    (stride : SamePair es es' "stride" 1)
    (features : Value.field? "features_shape" es = Value.field? "features_shape" es')
    (filters : Value.field? "filters_shape" es = Value.field? "filters_shape" es') :
    spellConvolution name es = spellConvolution name es' := by
  obtain ⟨p, first, first'⟩ := padding
  obtain ⟨q, second, second'⟩ := stride
  simp only [spellConvolution, spellShape?, Value.pair_names first, Value.pair_names first', Value.pair_names second,
    Value.pair_names second', features, filters]

theorem spellPool_respelled (name : String) {v v' : Value} {p : Int × Int} (named : Value.field? "dims" es = some v)
    (named' : Value.field? "dims" es' = some v') (pair : v.NamesPair p) (pair' : v'.NamesPair p) :
    spellPool name es = spellPool name es' := by
  simp only [spellPool, named, named', Value.pair_names pair, Value.pair_names pair']

/-- Spellings of one call mean one operator, where both of them are accepted. -/
theorem spell_respelled (respelled : Respelled types kind es es') : ∀ {op op' : Operator} {type type' : TensorType},
    kind.spell types es = .ok op → kind.spell types es' = .ok op' → op.infer types = .ok type →
      op'.infer types = .ok type' → op = op' := by
  induction respelled with
  | axes reduces same =>
    intro op op' type type' spelled spelled' _ _
    rcases reduces with rfl | rfl
    all_goals
      obtain ⟨axes, found, made⟩ := bind_eq_ok.mp spelled
      obtain ⟨axes', found', made'⟩ := bind_eq_ok.mp spelled'
      cases made
      cases made'
      rw [spellAxes_respelled found found' same]
  | order absent reversed =>
    intro op op' type type' spelled spelled' _ _
    simp only [spell, spellTranspose, absent] at spelled spelled'
    cases spelled
    split at spelled'
    · cases spelled'
      rfl
    · obtain ⟨order, read, made⟩ := bind_eq_ok.mp spelled'
      cases made
      cases reversed.symm.trans read
      rfl
  | unknown named named' missing filled =>
    exact fun spelled spelled' => spellReshape_respelled named named' missing filled spelled spelled'
  | window slides padding stride features filters =>
    intro op op' type type' spelled spelled' _ _
    have same := fun name => spellConvolution_respelled name padding stride features filters
    rcases slides with rfl | rfl | rfl
    all_goals
      simp only [spell, same] at spelled spelled'
      exact Except.ok.inj (spelled.symm.trans spelled')
  | dims pools named named' pair pair' =>
    intro op op' type type' spelled spelled' _ _
    have same := fun name => spellPool_respelled name named named' pair pair'
    rcases pools with rfl | rfl
    all_goals
      simp only [spell, same] at spelled spelled'
      exact Except.ok.inj (spelled.symm.trans spelled')
  | symm _ ih => exact fun spelled spelled' inferred inferred' => (ih spelled' spelled inferred' inferred).symm

theorem Respelled.attributed (respelled : Respelled types kind es es') : kind.arity? ≠ none := by
  induction respelled with
  | axes reduces => rcases reduces with rfl | rfl <;> nofun
  | order | unknown => nofun
  | window slides => rcases slides with rfl | rfl | rfl <;> nofun
  | dims pools => rcases pools with rfl | rfl <;> nofun
  | symm _ ih => exact ih

theorem normalize_respelled (respelled : Respelled types kind es es') {ps ps' : Params} {type type' : TensorType}
    (normal : kind.normalize types es = .ok ps) (normal' : kind.normalize types es' = .ok ps')
    (inferred : kind.infer types ps = .ok type) (inferred' : kind.infer types ps' = .ok type') : ps = ps' := by
  obtain ⟨op, spelled, read⟩ := normalize_spells normal
  obtain ⟨op', spelled', read'⟩ := normalize_spells normal'
  have typed : op.infer types = .ok type := by
    rw [infer, read] at inferred
    exact inferred
  have typed' : op'.infer types = .ok type' := by
    rw [infer, read'] at inferred'
    exact inferred'
  have same := spell_respelled respelled spelled spelled' typed typed'
  exact normalize_params respelled.attributed normal normal' (read.trans (same ▸ read'.symm))

end Kind

namespace Workspace
variable {w : Workspace}

theorem Built.found_again [Memory] (built : w.Built ShapeRules.Lasting) {n : Node} (member : n ∈ w.graph.nodes)
    {kind : Kind}
    (named : n.kind = kind.name) (matchable : ∀ entry ∈ n.params, entry.2.Every Atom.Matchable) {es : Entries}
    (held : es.Hold n.params) : Building.apply kind n.inputs es w = .ok n w := by
  have coherent := built.lasting
  obtain ⟨given, normal⟩ := built.normalized n member kind named
  obtain ⟨keys, keyed⟩ := Params.exists_key.mpr matchable
  have key : Graph.key? kind.name n.inputs n.params = some (.interior kind.name (n.inputs.map (·.id.index)) keys) := by
    rw [Graph.key?, keyed, Option.map_some]
  have interior : n.isLeaf = false := by rw [Node.isLeaf, named, kind.name_interior]
  refine Building.apply_found (coherent.rules.builtin kind)
    (fun x input => coherent.owns (coherent.inputs n member x input).1) (Kind.normalize_hold normal held) key ?_
  exact coherent.filed n member _ (by rw [Node.key?_interior interior, Graph.keyOf_eq (by rw [named, key])])

/-- A call that spells another one differently finds the node of the other one. -/
theorem Coherent.respelled [Memory] (coherent : w.Coherent ShapeRules.Lasting) {kind : Kind} {nodes : List Node}
    {es es' : Entries} {n n' : Node} {w' v v' : Workspace} (own : ∀ x ∈ nodes, x ∈ w.graph.nodes)
    (respelled : kind.Respelled (nodes.map Node.type) es es') (made : Building.apply kind nodes es w = .ok n w')
    (path : w'.Becomes ShapeRules.Lasting v) (again : Building.apply kind nodes es' v = .ok n' v') :
    n' = n ∧ v' = v := by
  obtain ⟨ps, normal, inferred, _, _, _, found⟩ := coherent.apply own made
  obtain ⟨middle, keeps, _⟩ := coherent.applied own made
  obtain ⟨later, kept⟩ := path.coherent (fun _ lasting => lasting.proper) middle
  have own' : ∀ x ∈ nodes, x ∈ v.graph.nodes := fun x input => (keeps.trans kept).mem (own x input)
  obtain ⟨ps', normal', inferred', _⟩ := later.apply own' again
  obtain rfl := Kind.normalize_respelled respelled normal normal' inferred inferred'
  obtain ⟨keys, keyed⟩ := Kind.normalize_keyed normal fun bare => absurd bare respelled.attributed
  have key : Graph.key? kind.name nodes ps = some (.interior kind.name (nodes.map (·.id.index)) keys) := by
    rw [Graph.key?, keyed, Option.map_some]
  have here := Building.apply_found (later.rules.builtin kind) (fun x input => later.owns (own' x input)) normal' key
    (kept.memo _ _ (found _ key))
  rw [here] at again
  cases again
  exact ⟨rfl, rfl⟩

/-- Equivalent spellings name one node: a node's own parameters, read back from it, and whatever spells one call
in two ways, however much is built between. -/
theorem Built.named_once [Memory] (built : w.Built ShapeRules.Lasting) :
    (∀ n ∈ w.graph.nodes, ∀ kind : Kind, n.kind = kind.name → (∀ entry ∈ n.params, entry.2.Every Atom.Matchable) →
      ∀ (given : Value) (es : Entries), given.entries = .ok es → es.Hold n.params →
        Building.call kind.name (n.inputs.map .node) given w = .ok n w) ∧
      ∀ (kind : Kind) (nodes : List Node) (given given' : Value) (es es' : Entries) (n n' : Node) (w' v v' : Workspace),
        (∀ x ∈ nodes, x ∈ w.graph.nodes) → given.entries = .ok es → given'.entries = .ok es' →
          kind.Respelled (nodes.map Node.type) es es' → Building.call kind.name (nodes.map .node) given w = .ok n w' →
            w'.Becomes ShapeRules.Lasting v → Building.call kind.name (nodes.map .node) given' v = .ok n' v' →
              n' = n ∧ v' = v := by
  constructor
  · intro n member kind named matchable given es entered held
    rw [Building.call_entered entered]
    exact built.found_again member named matchable held
  · intro kind nodes given given' es es' n n' w' v v' own entered entered' respelled made path again
    rw [Building.call_entered entered] at made
    rw [Building.call_entered entered'] at again
    exact built.lasting.respelled own respelled made path again

end Workspace

/-! A sum of a variable over its only axis. -/
namespace Sample
open Building (entry)

def sumOfX : Node := ⟨⟨0, 4⟩, "sum", [x], [("axes", .dims [0])], ⟨.float32, []⟩, none⟩

def sumWorkspace : Workspace where
  rules := .standard
  graph := ⟨0, .null, #[x, y, total, square, sumOfX],
    [(.interior "sum" [0] [("axes", .dims [0])], sumOfX), (.interior "mul" [2, 2] [], square),
      (.interior "add" [0, 1] [], total)]⟩
  store := workspace.store

def alongAxes (axes : List Value) : Value := .dictionary [entry "axes" (.tuple axes)]

theorem built_lasting : workspace.Built ShapeRules.Lasting :=
  built.mono fun _ same => same ▸ ShapeRules.standard_lasting

theorem sum_all : Building.call "sum" [.node x] .null workspace = .ok sumOfX sumWorkspace := rfl

theorem sum_last : Building.call "sum" [.node x] (alongAxes [.int (-1)]) sumWorkspace = .ok sumOfX sumWorkspace := rfl

theorem sumWorkspace_built : sumWorkspace.Built ShapeRules.Lasting := built_lasting.call (by simp [mem_nodes]) sum_all

theorem respelled_sum : Kind.Respelled [x.type] .sum [] [entry "axes" (.tuple [.int (-1)])] :=
  .axes (.inl rfl) fun k => by
    have absent : Entries.get [] "axes" = .null := rfl
    have last : Entries.get [entry "axes" (.tuple [.int (-1)])] "axes" = .tuple [.int (-1)] := rfl
    have items : (Value.tuple [.int (-1)]).asSequence.items? = some [.int (-1)] := rfl
    simp [Value.NamesAxis, absent, last, items, Value.int?, Kind.source, TensorType.rank, x, eq_comm]

theorem named_once_sum :
    Building.call "sum" [.node x] (alongAxes [.int 0]) sumWorkspace = .ok sumOfX sumWorkspace ∧ ∃ n v,
      Building.call "sum" [.node x] (alongAxes [.int (-1)]) sumWorkspace = .ok n v ∧ n = sumOfX ∧ v = sumWorkspace := by
  have own : ∀ n ∈ [x], n ∈ workspace.graph.nodes := by simp [mem_nodes]
  have matchable : ∀ entry ∈ sumOfX.params, entry.2.Every Atom.Matchable := by
    simp [sumOfX, Param.dims, Param.Every, Param.EveryAll, Atom.Matchable]
  have held : Entries.Hold [entry "axes" (.tuple [.int 0])] sumOfX.params := .cons ⟨rfl, rfl, trivial⟩ .nil
  refine ⟨sumWorkspace_built.named_once.1 sumOfX (by simp [sumWorkspace]) .sum rfl matchable _ _ rfl held,
    sumOfX, sumWorkspace, sum_last, ?_⟩
  exact built_lasting.named_once.2 .sum [x] _ _ _ _ _ _ _ _ _ own rfl rfl respelled_sum sum_all .refl sum_last

end Sample
end TensorDag
