import Mathlib.Logic.Relation
import TensorDag.Proofs.Rereading

/-!
Freezing is canonical. Where the keys of each dictionary have different texts, only a set keeps a value from being
frozen; what is frozen freezes to itself, and neither the order of entries nor the choice between a list and a
tuple shows in it.
-/
namespace TensorDag
open Result (bind_eq_ok pure_eq_ok)

namespace Value
variable {u v w : Value}

/-- The values that a value is made of; keys are none of them. -/
def parts : Value → List Value
  | .list items | .tuple items => items
  | .dictionary entries => entries.map Prod.snd
  | .scalar _ v | .array _ v => [v]
  | _ => []

/-- A value stands in another one, at any depth. -/
inductive OccursIn (u : Value) : Value → Prop
  | here : OccursIn u u
  | inside {v w : Value} (part : v ∈ w.parts) (inner : OccursIn u v) : OccursIn u w

/-- No two keys of a dictionary have one text, at any depth. -/
def KeysApart (v : Value) : Prop :=
  ∀ entries, (Value.dictionary entries).OccursIn v → (entries.map fun entry => entry.1.plain).Nodup

theorem occursIn_iff : u.OccursIn v ↔ u = v ∨ ∃ w ∈ v.parts, u.OccursIn w := by
  constructor
  · intro occurs
    cases occurs with
    | here => exact .inl rfl
    | inside part inner => exact .inr ⟨_, part, inner⟩
  · rintro (rfl | ⟨w, part, inner⟩)
    · exact .here
    · exact .inside part inner

theorem KeysApart.part (apart : v.KeysApart) (part : u ∈ v.parts) : u.KeysApart :=
  fun entries inner => apart entries (.inside part inner)

theorem keysApart_dictionary {entries : List (Value × Value)} : (Value.dictionary entries).KeysApart ↔
    (entries.map fun entry => entry.1.plain).Nodup ∧ ∀ entry ∈ entries, entry.2.KeysApart := by
  refine ⟨fun apart => ⟨apart entries .here, fun _ member => apart.part (List.mem_map_of_mem member)⟩,
    fun ⟨own, apart⟩ others occurs => ?_⟩
  rcases occursIn_iff.mp occurs with ⟨⟨⟩⟩ | ⟨v, part, inner⟩
  · exact own
  · obtain ⟨entry, member, rfl⟩ := List.mem_map.mp part
    exact apart entry member others inner

theorem keysApart_other (other : ∀ entries, v ≠ .dictionary entries) :
    v.KeysApart ↔ ∀ u ∈ v.parts, u.KeysApart := by
  refine ⟨fun apart u => apart.part, fun apart entries occurs => ?_⟩
  rcases occursIn_iff.mp occurs with same | ⟨u, part, inner⟩
  · exact absurd same.symm (other entries)
  · exact apart u part entries inner

/-! Entries in the order of their keys. -/

/-- The keys rise. -/
def Rising (entries : List (String × Param)) : Prop := entries.Pairwise fun a b => a.1 < b.1

theorem insertEntry_perm {entry : String × Param} {entries sorted : List (String × Param)}
    (made : insertEntry entry entries = .ok sorted) : sorted.Perm (entry :: entries) := by
  induction entries generalizing sorted with
  | nil =>
    cases made
    exact .refl _
  | cons head rest ih =>
    rw [insertEntry] at made
    split at made
    · cases made
    · cases made
      exact .refl _
    · obtain ⟨others, inserted, rfl⟩ := Result.map_eq_ok.mp made
      exact ((ih inserted).cons head).trans (.swap ..)

theorem sortEntries_perm {start entries sorted : List (String × Param)}
    (made : sortEntries start entries = .ok sorted) : sorted.Perm (start ++ entries) := by
  induction entries generalizing start with
  | nil =>
    cases made
    rw [List.append_nil]
  | cons entry rest ih =>
    obtain ⟨longer, inserted, made⟩ := bind_eq_ok.mp made
    exact (ih made).trans (((insertEntry_perm inserted).append_right rest).trans List.perm_middle.symm)

/-- A new key is decided by its text alone. -/
theorem insertEntry_rising {entry : String × Param} {entries : List (String × Param)} (rising : Rising entries)
    (fresh : entry.1 ∉ entries.map Prod.fst) : ∃ sorted, insertEntry entry entries = .ok sorted ∧ Rising sorted := by
  induction entries with
  | nil => exact ⟨[entry], rfl, List.pairwise_singleton ..⟩
  | cons head rest ih =>
    obtain ⟨below, rising⟩ := List.pairwise_cons.mp rising
    obtain ⟨differ, fresh⟩ := not_or.mp (mt List.mem_cons.mpr fresh)
    have order : entryLess? entry head = some (decide (entry.1 < head.1)) := if_neg differ
    by_cases before : entry.1 < head.1
    · refine ⟨entry :: head :: rest, ?_, ?_⟩
      · rw [insertEntry, order, decide_eq_true before]
      · refine List.pairwise_cons.mpr ⟨fun other member => ?_, List.pairwise_cons.mpr ⟨below, rising⟩⟩
        rcases List.mem_cons.mp member with rfl | later
        · exact before
        · exact String.lt_trans before (below other later)
    · have behind : head.1 < entry.1 := by
        refine String.not_le.mp fun above => differ ?_
        exact String.le_antisymm above (String.not_lt.mp before)
      obtain ⟨sorted, inserted, rising⟩ := ih rising fresh
      refine ⟨head :: sorted, ?_, List.pairwise_cons.mpr ⟨fun other member => ?_, rising⟩⟩
      · rw [insertEntry, order, decide_eq_false before]
        exact Result.map_eq_ok.mpr ⟨sorted, inserted, rfl⟩
      · rcases List.mem_cons.mp ((insertEntry_perm inserted).mem_iff.mp member) with rfl | old
        · exact behind
        · exact below other old

theorem sortEntries_rising {start entries : List (String × Param)} (rising : Rising start)
    (distinct : ((start ++ entries).map Prod.fst).Nodup) :
    ∃ sorted, sortEntries start entries = .ok sorted ∧ Rising sorted := by
  induction entries generalizing start with
  | nil => exact ⟨start, rfl, rising⟩
  | cons entry rest ih =>
    have moved : ((entry :: start ++ rest).map Prod.fst).Nodup := (List.perm_middle.map _).nodup_iff.mp distinct
    have fresh : entry.1 ∉ start.map Prod.fst := fun member =>
      (List.nodup_cons.mp moved).1 (List.map_append ▸ List.mem_append_left _ member)
    obtain ⟨longer, inserted, rising⟩ := insertEntry_rising rising fresh
    have perm := (insertEntry_perm inserted).append_right rest
    obtain ⟨sorted, made, rising⟩ := ih rising ((perm.map _).nodup_iff.mpr moved)
    exact ⟨sorted, bind_eq_ok.mpr ⟨longer, inserted, made⟩, rising⟩

theorem sortEntries_returns {entries : List (String × Param)} (distinct : (entries.map Prod.fst).Nodup) :
    ∃ sorted, sortEntries [] entries = .ok sorted ∧ Rising sorted := sortEntries_rising .nil distinct

theorem sortEntries_unique {entries others : List (String × Param)} (same : entries.Perm others)
    (distinct : (entries.map Prod.fst).Nodup) :
    ∃ sorted, sortEntries [] entries = .ok sorted ∧ sortEntries [] others = .ok sorted := by
  obtain ⟨sorted, made, rising⟩ := sortEntries_returns distinct
  obtain ⟨sorted', made', rising'⟩ := sortEntries_returns ((same.map _).nodup_iff.mp distinct)
  have perm : sorted'.Perm sorted := (sortEntries_perm made').trans (same.symm.trans (sortEntries_perm made).symm)
  have equal : sorted' = sorted :=
    perm.eq_of_pairwise (fun _ _ _ _ below above => absurd above (String.lt_asymm below)) rising' rising
  exact ⟨sorted, made, equal ▸ made'⟩

/-! What freezes. -/

theorem freezeAll_cons {vs : List Value} {ps : List Param} : freezeAll (v :: vs) = .ok ps ↔
    ∃ p others, v.freeze = .ok p ∧ freezeAll vs = .ok others ∧ p :: others = ps := by
  simp only [freezeAll, bind_eq_ok, pure_eq_ok, exists_and_left]

theorem freezeEntries_cons {entry : Value × Value} {entries : List (Value × Value)} {ps : List (String × Param)} :
    freezeEntries (entry :: entries) = .ok ps ↔ ∃ p others, entry.2.freeze = .ok p ∧
      freezeEntries entries = .ok others ∧ (entry.1.plain, p) :: others = ps := by
  simp only [freezeEntries, bind_eq_ok, pure_eq_ok, exists_and_left]

theorem freezeEntries_names {entries : List (Value × Value)} {ps : List (String × Param)}
    (frozen : freezeEntries entries = .ok ps) : ps.map Prod.fst = entries.map fun entry => entry.1.plain := by
  induction entries generalizing ps with
  | nil =>
    cases frozen
    rfl
  | cons entry rest ih =>
    obtain ⟨p, others, _, later, rfl⟩ := freezeEntries_cons.mp frozen
    rw [List.map_cons, List.map_cons, ih later]

/-- A result, or an error that names a set. -/
def Settled {α : Type} (result : Result α) (occurs : List Value → Prop) : Prop :=
  (∃ a, result = .ok a ∧ ∀ items, ¬occurs items) ∨ ∃ items, occurs items ∧ result = .error (.notHashable (.set items))

section
variable {α β γ : Type} {x : Result α} {y : Result β} {first second occurs : List Value → Prop}

theorem Settled.weaken (settled : Settled x first) (same : ∀ items, first items ↔ occurs items) : Settled x occurs := by
  rwa [← funext fun items => propext (same items)]

theorem Settled.bind (settled : Settled x occurs) {f : α → Result β} (rest : ∀ a, x = .ok a → ∃ b, f a = .ok b) :
    Settled (x >>= f) occurs := by
  rcases settled with ⟨a, made, none⟩ | ⟨items, found, rfl⟩
  · obtain ⟨b, last⟩ := rest a made
    exact .inl ⟨b, bind_eq_ok.mpr ⟨a, made, last⟩, none⟩
  · exact .inr ⟨items, found, rfl⟩

theorem Settled.pair {f : α → β → γ} (here : Settled x first) (later : Settled y second) :
    Settled (do return f (← x) (← y)) fun items => first items ∨ second items := by
  rcases here with ⟨a, rfl, none⟩ | ⟨items, found, rfl⟩
  · rcases later with ⟨b, rfl, none'⟩ | ⟨items, found, rfl⟩
    · exact .inl ⟨f a b, rfl, fun items found => found.elim (none items) (none' items)⟩
    · exact .inr ⟨items, .inr found, rfl⟩
  · exact .inr ⟨items, .inl found, rfl⟩

end

theorem set_occursIn {items : List Value} (other : v ≠ .set items) :
    (Value.set items).OccursIn v ↔ ∃ w ∈ v.parts, (Value.set items).OccursIn w :=
  occursIn_iff.trans (or_iff_right other.symm)

theorem settled_atom {a : Atom} (known : v.atom? = some a) :
    Settled v.freeze fun items => (Value.set items).OccursIn v := by
  refine .inl ⟨.atom a, freeze_atom known, fun items occurs => ?_⟩
  obtain ⟨w, part, _⟩ := (set_occursIn (by rintro rfl; cases known)).mp occurs
  cases v <;> cases known <;> cases part

mutual

/-- Where keys have different texts, a value freezes, or a set occurs in it. -/
theorem settled_freeze : ∀ {v : Value}, v.KeysApart → Settled v.freeze fun items => (Value.set items).OccursIn v
  | .null, _ | .bool _, _ | .int _, _ | .float _, _ | .undefined _, _ | .text _, _ | .bytes _, _
  | .elementType _, _ | .node _, _ | .buffer _ _, _ => settled_atom rfl
  | .list items, apart | .tuple items, apart => by
    rw [freeze]
    have each : ∀ v ∈ items, v.KeysApart := fun v => apart.part
    refine ((settled_freezeAll each).bind fun _ _ => ⟨_, rfl⟩).weaken fun others => ?_
    rw [set_occursIn (by nofun), parts]
  | .set items, _ => .inr ⟨items, .here, by rw [freeze]⟩
  | .dictionary entries, apart => by
    obtain ⟨distinct, each⟩ := keysApart_dictionary.mp apart
    rw [freeze]
    refine ((settled_freezeEntries each).bind fun ps frozen => ?_).weaken fun others => ?_
    · obtain ⟨sorted, made, _⟩ := sortEntries_returns (freezeEntries_names frozen ▸ distinct)
      exact ⟨_, bind_eq_ok.mpr ⟨sorted, made, rfl⟩⟩
    · rw [set_occursIn (by nofun), parts]
  | .scalar _ v, apart | .array _ v, apart => by
    rw [freeze]
    refine (settled_freeze (apart.part (List.mem_singleton_self v))).weaken fun items => Iff.symm ?_
    rw [set_occursIn (by nofun), parts]
    simp only [List.mem_singleton, exists_eq_left]

theorem settled_freezeAll : ∀ {vs : List Value}, (∀ v ∈ vs, v.KeysApart) →
    Settled (freezeAll vs) fun items => ∃ v ∈ vs, (Value.set items).OccursIn v
  | [], _ => .inl ⟨[], rfl, fun _ ⟨_, member, _⟩ => List.not_mem_nil member⟩
  | v :: vs, apart => by
    obtain ⟨here, later⟩ := List.forall_mem_cons.mp apart
    rw [freezeAll]
    exact ((settled_freeze here).pair (settled_freezeAll later)).weaken fun items => (List.exists_mem_cons_iff ..).symm

theorem settled_freezeEntries : ∀ {entries : List (Value × Value)}, (∀ entry ∈ entries, entry.2.KeysApart) →
    Settled (freezeEntries entries) fun items => ∃ v ∈ entries.map Prod.snd, (Value.set items).OccursIn v
  | [], _ => .inl ⟨[], rfl, fun _ ⟨_, member, _⟩ => List.not_mem_nil member⟩
  | (key, v) :: entries, apart => by
    obtain ⟨here, later⟩ := List.forall_mem_cons.mp apart
    rw [freezeEntries]
    exact ((settled_freeze here).pair (settled_freezeEntries later)).weaken fun items =>
      (List.exists_mem_cons_iff ..).symm

end

theorem exists_holdsAll {ps : List Param} (each : ∀ p ∈ ps, ∃ u : Value, u.Holds p) : ∃ us, HoldsAll us ps := by
  induction ps with
  | nil => exact ⟨[], trivial⟩
  | cons p rest ih =>
    obtain ⟨⟨u, here⟩, later⟩ := List.forall_mem_cons.mp each
    obtain ⟨us, held⟩ := ih later
    exact ⟨u :: us, here, held⟩

theorem exists_holds_atom {a : Atom} (known : v.atom? = some a) {p : Param} (frozen : v.freeze = .ok p) :
    ∃ u : Value, u.Holds p := by
  cases (freeze_atom known).symm.trans frozen
  exact ⟨v, by cases v <;> exact known⟩

mutual

/-- What a value freezes to is a value. -/
theorem exists_holds : ∀ {v : Value} {p : Param}, v.freeze = .ok p → ∃ u : Value, u.Holds p
  | .null, _, frozen | .bool _, _, frozen | .int _, _, frozen | .float _, _, frozen | .undefined _, _, frozen
  | .text _, _, frozen | .bytes _, _, frozen | .elementType _, _, frozen | .node _, _, frozen
  | .buffer _ _, _, frozen =>
    exists_holds_atom rfl frozen
  | .list items, _, frozen | .tuple items, _, frozen => by
    rw [freeze] at frozen
    obtain ⟨ps, all, ⟨⟩⟩ := bind_eq_ok.mp frozen
    obtain ⟨us, held⟩ := exists_holdsAll (exists_holds_of_freezeAll all)
    exact ⟨.tuple us, held⟩
  | .set _, _, frozen => by
    rw [freeze] at frozen
    cases frozen
  | .dictionary entries, _, frozen => by
    rw [freeze] at frozen
    obtain ⟨ps, all, frozen⟩ := bind_eq_ok.mp frozen
    obtain ⟨sorted, made, ⟨⟩⟩ := bind_eq_ok.mp frozen
    have each : ∀ p ∈ sorted.map entryParam, ∃ u : Value, u.Holds p := by
      intro p member
      obtain ⟨entry, listed, rfl⟩ := List.mem_map.mp member
      obtain ⟨u, held⟩ := exists_holds_of_freezeEntries all entry ((sortEntries_perm made).mem_iff.mp listed)
      exact ⟨.tuple [.text entry.1, u], rfl, held, trivial⟩
    obtain ⟨us, held⟩ := exists_holdsAll each
    exact ⟨.tuple us, held⟩
  | .scalar _ v, _, frozen | .array _ v, _, frozen => by
    rw [freeze] at frozen
    exact exists_holds frozen

theorem exists_holds_of_freezeAll : ∀ {vs : List Value} {ps : List Param}, freezeAll vs = .ok ps →
    ∀ p ∈ ps, ∃ u : Value, u.Holds p
  | [], _, frozen => by
    cases frozen
    exact fun _ member => (List.not_mem_nil member).elim
  | v :: vs, _, frozen => by
    obtain ⟨p, others, here, later, rfl⟩ := freezeAll_cons.mp frozen
    exact List.forall_mem_cons.mpr ⟨exists_holds here, exists_holds_of_freezeAll later⟩

theorem exists_holds_of_freezeEntries : ∀ {entries : List (Value × Value)} {ps : List (String × Param)},
    freezeEntries entries = .ok ps → ∀ p ∈ ps, ∃ u : Value, u.Holds p.2
  | [], _, frozen => by
    cases frozen
    exact fun _ member => (List.not_mem_nil member).elim
  | (key, v) :: entries, _, frozen => by
    obtain ⟨p, others, here, later, rfl⟩ := freezeEntries_cons.mp frozen
    exact List.forall_mem_cons.mpr ⟨exists_holds here, exists_holds_of_freezeEntries later⟩

end

/-! Other ways to write a value. -/

/-- The entries of one dictionary are written in another order, or one list as a tuple, at any depth. -/
inductive Rewritten : Value → Value → Prop
  | ordered {entries others : List (Value × Value)} (same : entries.Perm others) :
    Rewritten (.dictionary entries) (.dictionary others)
  | listed (items : List Value) : Rewritten (.list items) (.tuple items)
  | list {before after : List Value} {v w : Value} (inner : Rewritten v w) :
    Rewritten (.list (before ++ v :: after)) (.list (before ++ w :: after))
  | tuple {before after : List Value} {v w : Value} (inner : Rewritten v w) :
    Rewritten (.tuple (before ++ v :: after)) (.tuple (before ++ w :: after))
  | dictionary {before after : List (Value × Value)} {key v w : Value} (inner : Rewritten v w) :
    Rewritten (.dictionary (before ++ (key, v) :: after)) (.dictionary (before ++ (key, w) :: after))
  | array {type : MachineType} {content others : Value} (inner : Rewritten content others) :
    Rewritten (.array type content) (.array type others)

theorem Rewritten.keysApart (rewritten : v.Rewritten w) : v.KeysApart ↔ w.KeysApart := by
  induction rewritten with
  | ordered same =>
    rw [keysApart_dictionary, keysApart_dictionary, (same.map _).nodup_iff]
    exact and_congr_right fun _ => forall_congr' fun entry => by rw [same.mem_iff]
  | listed items => rw [keysApart_other (by nofun), keysApart_other (by nofun), parts, parts]
  | list _ ih | tuple _ ih =>
    rw [keysApart_other (by nofun), keysApart_other (by nofun)]
    simp only [parts, List.forall_mem_append, List.forall_mem_cons, ih]
  | dictionary _ ih =>
    simp only [keysApart_dictionary, List.map_append, List.map_cons, List.forall_mem_append, List.forall_mem_cons, ih]
  | array _ ih =>
    rw [keysApart_other (by nofun), keysApart_other (by nofun)]
    simp only [parts, List.forall_mem_singleton, ih]

/-- Entries in another order freeze to the same entries in another order. -/
theorem freezeEntries_perm {entries others : List (Value × Value)} (same : entries.Perm others)
    {ps : List (String × Param)} (frozen : freezeEntries entries = .ok ps) :
    ∃ qs, freezeEntries others = .ok qs ∧ ps.Perm qs := by
  induction same generalizing ps with
  | nil => exact ⟨ps, frozen, .refl _⟩
  | cons entry _ ih =>
    obtain ⟨p, rest, here, later, rfl⟩ := freezeEntries_cons.mp frozen
    obtain ⟨qs, later, same⟩ := ih later
    exact ⟨_, freezeEntries_cons.mpr ⟨p, qs, here, later, rfl⟩, same.cons _⟩
  | swap first second rest =>
    obtain ⟨p, _, here, others, rfl⟩ := freezeEntries_cons.mp frozen
    obtain ⟨q, qs, next, later, rfl⟩ := freezeEntries_cons.mp others
    exact ⟨_, freezeEntries_cons.mpr ⟨q, _, next, freezeEntries_cons.mpr ⟨p, qs, here, later, rfl⟩, rfl⟩, .swap ..⟩
  | trans _ _ first second =>
    obtain ⟨qs, frozen, same⟩ := first frozen
    obtain ⟨rs, frozen, same'⟩ := second frozen
    exact ⟨rs, frozen, same.trans same'⟩

theorem freezeAll_congr (same : ∀ p, v.freeze = .ok p ↔ w.freeze = .ok p) {before after : List Value}
    {ps : List Param} : freezeAll (before ++ v :: after) = .ok ps ↔ freezeAll (before ++ w :: after) = .ok ps := by
  induction before generalizing ps with
  | nil => simp only [List.nil_append, freezeAll_cons, same]
  | cons u before ih => simp only [List.cons_append, freezeAll_cons, ih]

theorem freezeEntries_congr (same : ∀ p, v.freeze = .ok p ↔ w.freeze = .ok p) {before after : List (Value × Value)}
    {key : Value} {ps : List (String × Param)} :
    freezeEntries (before ++ (key, v) :: after) = .ok ps ↔ freezeEntries (before ++ (key, w) :: after) = .ok ps := by
  induction before generalizing ps with
  | nil => simp only [List.nil_append, freezeEntries_cons, same]
  | cons entry before ih => simp only [List.cons_append, freezeEntries_cons, ih]

theorem freeze_ordered {entries others : List (Value × Value)} (same : entries.Perm others)
    (distinct : (entries.map fun entry => entry.1.plain).Nodup) {p : Param}
    (frozen : (Value.dictionary entries).freeze = .ok p) : (Value.dictionary others).freeze = .ok p := by
  rw [freeze] at frozen ⊢
  obtain ⟨ps, all, frozen⟩ := bind_eq_ok.mp frozen
  obtain ⟨qs, all', same⟩ := freezeEntries_perm same all
  obtain ⟨sorted, made, made'⟩ := sortEntries_unique same (freezeEntries_names all ▸ distinct)
  rw [made] at frozen
  exact bind_eq_ok.mpr ⟨qs, all', by rwa [made']⟩

theorem Rewritten.freeze (rewritten : v.Rewritten w) (apart : v.KeysApart) (p : Param) :
    v.freeze = .ok p ↔ w.freeze = .ok p := by
  induction rewritten generalizing p with
  | ordered same =>
    have distinct := (keysApart_dictionary.mp apart).1
    exact ⟨freeze_ordered same distinct, freeze_ordered same.symm ((same.map _).nodup_iff.mp distinct)⟩
  | listed items => rw [Value.freeze, Value.freeze]
  | list _ ih | tuple _ ih =>
    have inner := ih (apart.part (List.mem_append_right _ (List.mem_cons_self ..)))
    simp only [Value.freeze, bind_eq_ok, freezeAll_congr inner]
  | @dictionary before after key v w _ ih =>
    have inner := ih ((keysApart_dictionary.mp apart).2 (key, v) (List.mem_append_right _ (List.mem_cons_self ..)))
    simp only [Value.freeze, bind_eq_ok, freezeEntries_congr inner]
  | array _ ih =>
    rw [Value.freeze, Value.freeze]
    exact ih (apart.part (List.mem_singleton_self _)) p

theorem freeze_rewritten (rewritten : Relation.EqvGen Rewritten v w) :
    (v.KeysApart ↔ w.KeysApart) ∧ (v.KeysApart → ∀ p, v.freeze = .ok p ↔ w.freeze = .ok p) := by
  induction rewritten with
  | rel _ _ one => exact ⟨one.keysApart, one.freeze⟩
  | refl _ => exact ⟨.rfl, fun _ _ => .rfl⟩
  | symm _ _ _ ih => exact ⟨ih.1.symm, fun apart p => (ih.2 (ih.1.mpr apart) p).symm⟩
  | trans _ _ _ _ _ first second =>
    exact ⟨first.1.trans second.1, fun apart p => (first.2 apart p).trans (second.2 (first.1.mp apart) p)⟩

/-- Where keys have different texts, a value fails to freeze, by a type error that names a set, exactly if a set occurs
in it. Otherwise what it freezes to freezes to itself, and however the value is written it freezes to the same. -/
theorem freeze_canonical (apart : v.KeysApart) :
    ((∃ e, v.freeze = .error e) ↔ ∃ items, (Value.set items).OccursIn v) ∧
      (∀ e, v.freeze = .error e →
        e.category = .type ∧ ∃ items, e = .notHashable (.set items) ∧ (Value.set items).OccursIn v) ∧
      ((∀ items, ¬(Value.set items).OccursIn v) → ∃ p, v.freeze = .ok p ∧
        (∃ u : Value, u.Holds p) ∧ (∀ u : Value, u.Holds p → u.freeze = .ok p) ∧
          ∀ w, Relation.EqvGen Rewritten v w → w.freeze = .ok p) := by
  rcases settled_freeze apart with ⟨p, frozen, none⟩ | ⟨items, occurs, failed⟩
  · refine ⟨⟨fun ⟨e, failed⟩ => ?_, fun ⟨items, occurs⟩ => (none items occurs).elim⟩, fun e failed => ?_, fun _ => ?_⟩
    · cases frozen.symm.trans failed
    · cases frozen.symm.trans failed
    · exact ⟨p, frozen, exists_holds frozen, fun _ => freeze_holds, fun w rewritten =>
        ((freeze_rewritten rewritten).2 apart p).mp frozen⟩
  · refine ⟨⟨fun _ => ⟨items, occurs⟩, fun _ => ⟨_, failed⟩⟩, fun e failed' => ?_, fun none => (none items occurs).elim⟩
    cases failed.symm.trans failed'
    exact ⟨rfl, items, rfl, occurs⟩

end Value

namespace Sample
open Building (entry)
open Value (keysApart_other keysApart_dictionary freeze_canonical)

/-- Entries of several kinds, and the same entries in another order, a list among them as a tuple. -/
def nestedEntries : Value := .dictionary [entry "b" (.list [.int 1, .array (.signed 8) (.list [.int 2])]),
  entry "a" (.dictionary [entry "x" (.scalar (.signed 8) (.int 3)), entry "w" .null])]
def reorderedEntries : Value := .dictionary [
  entry "a" (.dictionary [entry "w" .null, entry "x" (.scalar (.signed 8) (.int 3))]),
  entry "b" (.tuple [.int 1, .array (.signed 8) (.list [.int 2])])]

theorem nestedEntries_apart : nestedEntries.KeysApart := by
  have row : (Value.list [.int 1, .array (.signed 8) (.list [.int 2])]).KeysApart := by
    simp [keysApart_other, Value.parts]
  have inner : (Value.dictionary [entry "x" (.scalar (.signed 8) (.int 3)), entry "w" .null]).KeysApart :=
    keysApart_dictionary.mpr ⟨by decide, by simp [entry, keysApart_other, Value.parts]⟩
  exact keysApart_dictionary.mpr ⟨by decide, by simpa [entry] using ⟨row, inner⟩⟩

theorem nestedEntries_reordered : Relation.EqvGen Value.Rewritten nestedEntries reorderedEntries :=
  .trans _ _ _ (.rel _ _ (@Value.Rewritten.dictionary [] _ _ _ _ (.listed _)))
    (.trans _ _ _ (.rel _ _ (@Value.Rewritten.dictionary [_] _ _ _ _ (.ordered (.swap ..))))
      (.rel _ _ (.ordered (.swap ..))))

/-- What both freeze to; and a set, which nothing freezes. -/
theorem freeze_canonical_nested : nestedEntries.KeysApart ∧
    (∃ p, nestedEntries.freeze = .ok p ∧ (∃ u : Value, u.Holds p) ∧ (∀ u : Value, u.Holds p → u.freeze = .ok p) ∧
      reorderedEntries.freeze = .ok p) ∧
    (Value.list [.set [.int 1]]).KeysApart ∧
      ∃ e, (Value.list [.set [.int 1]]).freeze = .error e ∧ e.category = .type := by
  have unset : ∀ items, ¬(Value.set items).OccursIn nestedEntries := fun items occurs => by
    obtain ⟨e, failed⟩ := (freeze_canonical nestedEntries_apart).1.mpr ⟨items, occurs⟩
    cases (show nestedEntries.freeze = .ok _ from rfl).symm.trans failed
  obtain ⟨p, frozen, value, same, others⟩ := (freeze_canonical nestedEntries_apart).2.2 unset
  have apart : (Value.list [.set [.int 1]]).KeysApart :=
    (keysApart_other (by nofun)).mpr fun v part => by
      rw [List.mem_singleton.mp part]
      exact (keysApart_other (by nofun)).mpr (by nofun)
  obtain ⟨e, failed⟩ := (freeze_canonical apart).1.mpr ⟨_, .inside (.head _) .here⟩
  exact ⟨nestedEntries_apart, ⟨p, frozen, value, same, others reorderedEntries nestedEntries_reordered⟩,
    apart, e, failed, ((freeze_canonical apart).2.1 e failed).1⟩

end Sample
end TensorDag
