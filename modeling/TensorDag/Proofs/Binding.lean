import TensorDag.Execution
import TensorDag.Proofs.Arena
import TensorDag.Proofs.Outcome
import TensorDag.Proofs.Stores

/-!
Values bound to leaves. Each leaf of a plan gets the buffer that was bound to it last, or its own; the
bytes there are those that the bindings give it.
-/
namespace TensorDag

/-- A buffer among values is one of a store. -/
def Value.Within (store : Store) : Value → Prop
  | .buffer id _ => id < store.size
  | _ => True

theorem Value.Within.extends {store store' : Store} {v : Value} (within : v.Within store)
    (extended : store.Extends store') : v.Within store' := by
  cases v with
  | buffer id content => exact Nat.lt_of_lt_of_le within extended.grows
  | _ => trivial

namespace Execution
open Program

/-- The value bound to a node: that of the last pair of which it is the key. -/
def bindingOf (n : Node) : List (Value × Value) → Option Value
  | [] => none
  | (key, v) :: rest =>
    (bindingOf n rest).or
      (match key with
      | .node m => if m.id = n.id then some v else none
      | _ => none)

theorem mem_of_bindingOf {n : Node} {pairs : List (Value × Value)} {v : Value}
    (found : bindingOf n pairs = some v) : ∃ m : Node, m.id = n.id ∧ (.node m, v) ∈ pairs := by
  induction pairs with
  | nil => simp [bindingOf] at found
  | cons pair rest ih =>
    obtain ⟨key, w⟩ := pair
    have later : bindingOf n rest = some v → ∃ m : Node, m.id = n.id ∧ (.node m, v) ∈ (key, w) :: rest :=
      fun inside => by
        obtain ⟨m, same, member⟩ := ih inside
        exact ⟨m, same, List.mem_cons_of_mem _ member⟩
    cases key with
    | node m =>
      simp only [bindingOf, Option.or_eq_some_iff] at found
      rcases found with inside | ⟨_, here⟩
      · exact later inside
      · split at here
        · rename_i same
          exact ⟨m, same, by rw [Option.some.inj here]; exact List.mem_cons_self ..⟩
        · cases here
    | _ =>
      simp only [bindingOf, Option.or_none] at found
      exact later found

/-- The bytes that a value stands for when it is bound to a leaf. -/
def boundBytes (store : Store) (n : Node) : Value → Result Bytes
  | .buffer id _ => .ok (store.get id).bytes
  | v => v.elementBytes n.elementType

/-- The bytes of a leaf: those bound to it, else those of its own buffer. -/
def givenBytes (store : Store) (bindings : List (Value × Value)) (n : Node) : Result Bytes :=
  match bindingOf n bindings with
  | some v => boundBytes store n v
  | none =>
    match n.buffer with
    | some id => .ok (store.get id).bytes
    | none => .error (.noBuffer n.name)

/-- A state in which buffers were made and nothing else happened. -/
structure State.Extends (s s' : State) : Prop where
  store : s.store.Extends s'.store
  storage : s'.storage = s.storage

theorem State.Extends.refl (s : State) : s.Extends s := ⟨.refl _, rfl⟩

theorem State.Extends.trans {s s' s'' : State} (first : s.Extends s') (second : s'.Extends s'') :
    s.Extends s'' :=
  ⟨first.store.trans second.store, second.storage.trans first.storage⟩

theorem of_eq_ok {α : Type} {result : Result α} {a : α} {s s' : State} :
    of result s = .ok a s' ↔ result = .ok a ∧ s = s' := by
  cases result with
  | ok b => exact pure_eq_ok.trans (by simp)
  | error e => simp [of, run_throw]

theorem ensures_of {α : Type} {result : Result α} {s : State} {post : α → State → Prop}
    {rest : State → Prop} (returns : ∀ a, result = .ok a → post a s)
    (fails : ∀ e, result = .error e → rest s) : Ensures (of result) s post rest := by
  cases result with
  | ok a => exact returns a rfl
  | error e => exact fails e rfl

theorem ensures_allocate {b : Buffer} {s : State} {post : BufferId → State → Prop}
    {rest : State → Prop} (holds : post s.store.size { s with store := (s.store.insert b).2 }) :
    Ensures (allocate b) s post rest := holds

/-- A buffer stands for a value that is bound to a node: the value itself, or a buffer with its bytes
that did not exist at the start. -/
structure StandsForValue (start : Nat) (store : Store) (n : Node) (v : Value) (id : BufferId) : Prop where
  inside : id < store.size
  size : (store.get id).size = n.byteSize
  content : (∃ content, v = .buffer id content) ∨
    (∀ other content, v ≠ .buffer other content) ∧ start ≤ id ∧
      v.elementBytes n.elementType = .ok (store.get id).bytes

theorem StandsForValue.extends {start : Nat} {store store' : Store} {n : Node} {v : Value} {id : BufferId}
    (stands : StandsForValue start store n v id) (extended : store.Extends store') :
    StandsForValue start store' n v id where
  inside := Nat.lt_of_lt_of_le stands.inside extended.grows
  size := by rw [extended.same id stands.inside, stands.size]
  content := by rw [extended.same id stands.inside]; exact stands.content

theorem boundBuffer_spec (n : Node) {v : Value} {s : State} {start : Nat} (early : start ≤ s.store.size)
    (within : v.Within s.store) :
    Ensures (boundBuffer n v) s
      (fun id s' => s.Extends s' ∧ ((s'.store.get id).size = n.byteSize → StandsForValue start s'.store n v id))
      (fun s' => s' = s) := by
  have made : (∀ other content, v ≠ .buffer other content) →
      Ensures (do allocate (Buffer.ofBytes (← of (v.elementBytes n.elementType)))) s
        (fun id s' => s.Extends s' ∧
          ((s'.store.get id).size = n.byteSize → StandsForValue start s'.store n v id))
        (fun s' => s' = s) := by
    intro plain
    refine .bind (ensures_of (fun bytes content => ensures_allocate ?_) fun _ _ => rfl)
    refine ⟨⟨Store.extends_insert .., rfl⟩, fun size => ⟨by simp, size, .inr ⟨plain, early, ?_⟩⟩⟩
    rw [Store.get_insert_self]
    exact content
  unfold boundBuffer
  split
  · rename_i id content
    exact .pure ⟨.refl s, fun size => ⟨within, size, .inl ⟨content, rfl⟩⟩⟩
  · rename_i plain
    exact made plain

theorem boundBytes_extends {store store' : Store} {n : Node} {v : Value} (within : v.Within store)
    (extended : store.Extends store') : boundBytes store' n v = boundBytes store n v := by
  cases v with
  | buffer id content => rw [boundBytes, boundBytes, extended.same id within]
  | _ => rfl

theorem StandsForValue.boundBytes {start : Nat} {store store' : Store} {n : Node} {u : Value} {id : BufferId}
    (stands : StandsForValue start store' n u id) (within : u.Within store) (extended : store.Extends store') :
    ∃ bytes, boundBytes store n u = .ok bytes ∧ bytes.size = n.byteSize := by
  rw [← boundBytes_extends within extended]
  rcases stands.content with ⟨content, rfl⟩ | ⟨plain, _, made⟩
  · exact ⟨_, rfl, stands.size⟩
  · refine ⟨_, ?_, stands.size⟩
    cases u with
    | buffer other content => exact absurd rfl (plain other content)
    | _ => exact made

theorem boundBuffer_returns {n : Node} {v : Value} {s : State} {bytes : Bytes}
    (content : boundBytes s.store n v = .ok bytes) :
    Ensures (boundBuffer n v) s (fun id s' => s.Extends s' ∧ (s'.store.get id).bytes = bytes)
      (fun _ => False) := by
  have made : v.elementBytes n.elementType = .ok bytes →
      Ensures (do allocate (Buffer.ofBytes (← of (v.elementBytes n.elementType)))) s
        (fun id s' => s.Extends s' ∧ (s'.store.get id).bytes = bytes) (fun _ => False) := by
    intro known
    refine .bind (ensures_of (fun other here => ensures_allocate ⟨⟨Store.extends_insert .., rfl⟩, ?_⟩)
      fun e failed => ?_)
    · rw [Store.get_insert_self]
      exact Except.ok.inj (here.symm.trans known)
    · cases failed.symm.trans known
  unfold boundBuffer
  cases v with
  | buffer id other => exact .pure ⟨.refl s, Except.ok.inj content⟩
  | _ => exact made content

/-- A key with the identity of a leaf is that leaf. -/
def Keyed (p : Plan) (pairs : List (Value × Value)) : Prop :=
  ∀ n v, (.node n, v) ∈ pairs → ∀ leaf ∈ p.leaves, n.id = leaf.node.id → n = leaf.node

/-- The buffers bound behind `bindAll`: for each leaf of the plan that of its last binding. -/
def BoundTo (start : Nat) (store : Store) (p : Plan) (pairs : List (Value × Value))
    (bound bound' : Bindings) : Prop :=
  ∀ leaf ∈ p.leaves,
    match bindingOf leaf.node pairs with
    | some v => ∃ id, bound'.lookup leaf.node.id = some id ∧ StandsForValue start store leaf.node v id
    | none => bound'.lookup leaf.node.id = bound.lookup leaf.node.id

theorem BoundTo.unbound {start : Nat} {store : Store} {p : Plan} {pairs : List (Value × Value)} {bound : Bindings}
    (bounds : BoundTo start store p pairs [] bound) {leaf : LeafSlot} (member : leaf ∈ p.leaves) :
    bound.lookup leaf.node.id = none ↔ bindingOf leaf.node pairs = none := by
  have last := bounds leaf member
  cases given : bindingOf leaf.node pairs with
  | none => simpa only [given, List.lookup_nil, iff_true] using last
  | some v =>
    simp only [given] at last
    obtain ⟨id, found, _⟩ := last
    simp [found]

theorem BoundTo.stands {start : Nat} {store : Store} {p : Plan} {pairs : List (Value × Value)} {bound : Bindings}
    (bounds : BoundTo start store p pairs [] bound) {leaf : LeafSlot} (member : leaf ∈ p.leaves) {id : BufferId}
    (found : bound.lookup leaf.node.id = some id) :
    ∃ v, bindingOf leaf.node pairs = some v ∧ StandsForValue start store leaf.node v id := by
  have last := bounds leaf member
  cases given : bindingOf leaf.node pairs with
  | none =>
    simp only [given, List.lookup_nil] at last
    cases found.symm.trans last
  | some v =>
    simp only [given] at last
    obtain ⟨other, same, stands⟩ := last
    cases found.symm.trans same
    exact ⟨v, rfl, stands⟩

/-- A buffer that is bound was bound before, or is among the values, or is new. -/
def Sourced (start : Nat) (store : Store) (pairs : List (Value × Value)) (bound bound' : Bindings) :
    Prop :=
  ∀ n id, bound'.lookup n = some id → bound.lookup n = some id ∨ (start ≤ id ∧ id < store.size) ∨
    ∃ key content, (key, .buffer id content) ∈ pairs

/-- The bindings behind one that was accepted; a node that the plan does not use is passed over. -/
abbrev bindOne (p : Plan) (m : Node) (id : BufferId) (bound : Bindings) : Bindings :=
  if m.isIn (p.leaves.map LeafSlot.node) then (m.id, id) :: bound else bound

private theorem Sourced.bind {p : Plan} {start : Nat} {store store' : Store} {key v : Value} {m : Node}
    {rest : List (Value × Value)} {bound bound' : Bindings} {id : BufferId}
    (sources : Sourced start store' rest (bindOne p m id bound) bound')
    (stands : StandsForValue start store m v id) (extended : store.Extends store') :
    Sourced start store' ((key, v) :: rest) bound bound' := by
  intro n other found
  rcases sources n other found with earlier | fresh | ⟨key', content, listed⟩
  · unfold bindOne at earlier
    split at earlier
    · rw [List.lookup_cons] at earlier
      split at earlier
      · cases earlier
        rcases stands.content with ⟨content, rfl⟩ | ⟨_, late, _⟩
        · exact .inr (.inr ⟨key, content, List.mem_cons_self ..⟩)
        · exact .inr (.inl ⟨late, Nat.lt_of_lt_of_le stands.inside extended.grows⟩)
      · exact .inl earlier
    · exact .inl earlier
  · exact .inr (.inl fresh)
  · exact .inr (.inr ⟨key', content, List.mem_cons_of_mem _ listed⟩)

private theorem BoundTo.bind {p : Plan} {start : Nat} {store : Store} {v : Value} {m : Node}
    {rest : List (Value × Value)} {bound bound' : Bindings} {id : BufferId}
    (bounds : BoundTo start store p rest (bindOne p m id bound) bound')
    (stands : StandsForValue start store m v id) {leaf : LeafSlot} (member : leaf ∈ p.leaves)
    (keyed : m.id = leaf.node.id → m = leaf.node) :
    match bindingOf leaf.node ((.node m, v) :: rest) with
    | some v => ∃ id, bound'.lookup leaf.node.id = some id ∧ StandsForValue start store leaf.node v id
    | none => bound'.lookup leaf.node.id = bound.lookup leaf.node.id := by
  have last := bounds leaf member
  cases found : bindingOf leaf.node rest with
  | some w =>
    simp only [found] at last
    simpa only [bindingOf, found, Option.some_or] using last
  | none =>
    simp only [found] at last
    by_cases same : m.id = leaf.node.id
    · have equal := keyed same
      have present : m.isIn (p.leaves.map LeafSlot.node) = true :=
        Node.isIn_of_mem (equal ▸ List.mem_map_of_mem member)
      simp only [bindingOf, found, Option.none_or, same, if_true]
      refine ⟨id, ?_, equal ▸ stands⟩
      rw [last, bindOne, if_pos present, same, List.lookup_cons_self]
    · simp only [bindingOf, found, Option.none_or, same, if_false]
      rw [last, bindOne]
      split
      · rw [List.lookup_cons, beq_eq_false_iff_ne.mpr (Ne.symm same)]
      · rfl

/-- Binding makes buffers at most, and binds each leaf as the pairs say. -/
theorem bindAll_spec {p : Plan} {pairs : List (Value × Value)} {start : Nat} {s : State}
    {bound : Bindings} (within : ∀ pair ∈ pairs, pair.2.Within s.store) (early : start ≤ s.store.size) :
    Ensures (bindAll p pairs bound) s
      (fun bound' s' => s.Extends s' ∧ Sourced start s'.store pairs bound bound' ∧
        (Keyed p pairs → BoundTo start s'.store p pairs bound bound'))
      (fun s' => s.Extends s') := by
  induction pairs generalizing s bound with
  | nil => exact .pure ⟨.refl s, fun _ _ found => .inl found, fun _ leaf _ => rfl⟩
  | cons pair rest ih =>
    obtain ⟨key, v⟩ := pair
    cases key with
    | node m =>
      rw [bindAll]
      cases isLeaf : m.isLeaf with
      | false => exact .bind (.throw (.refl s))
      | true =>
        refine .bind ((boundBuffer_spec m early (within _ (List.mem_cons_self ..))).weaken ?_
          fun s' same => same ▸ .refl s)
        rintro id s' ⟨extended, stands⟩
        refine .bind (.get ?_)
        by_cases size : (s'.store.get id).size = m.byteSize
        · rw [if_neg (not_not_intro size)]
          have known := stands size
          refine ((ih (fun pair member =>
            (within pair (List.mem_cons_of_mem _ member)).extends extended.store)
            (Nat.le_trans early extended.store.grows)).weaken ?_
            fun s'' later => extended.trans later)
          rintro bound' s'' ⟨later, sources, bounds⟩
          refine ⟨extended.trans later, ?_, fun keys leaf member => ?_⟩
          · exact sources.bind known later.store
          · exact (bounds fun n w listed => keys n w (List.mem_cons_of_mem _ listed)).bind
              (known.extends later.store) member (keys m v (List.mem_cons_self ..) leaf member)
        · rw [if_pos size]
          exact .bind (.throw extended)
    | _ => exact .throw (.refl s)

/-- Values of the right sizes are bound to leaves without fail. -/
theorem bindAll_returns {p : Plan} {pairs : List (Value × Value)} {s : State} {bound : Bindings}
    (keys : ∀ pair ∈ pairs, ∃ n : Node, pair.1 = .node n ∧ n.isLeaf)
    (within : ∀ pair ∈ pairs, pair.2.Within s.store)
    (sizes : ∀ n v, (.node n, v) ∈ pairs →
      ∃ bytes, boundBytes s.store n v = .ok bytes ∧ bytes.size = n.byteSize) :
    Ensures (bindAll p pairs bound) s (fun _ _ => True) (fun _ => False) := by
  induction pairs generalizing s bound with
  | nil => exact .pure trivial
  | cons pair rest ih =>
    obtain ⟨_, v⟩ := pair
    rw [List.forall_mem_cons] at keys within
    obtain ⟨⟨n, rfl, isLeaf⟩, keys⟩ := keys
    obtain ⟨bytes, content, size⟩ := sizes n v (List.mem_cons_self ..)
    rw [bindAll, isLeaf]
    refine .bind ((boundBuffer_returns content).weaken ?_ fun _ failed => failed)
    rintro id s' ⟨extended, rfl⟩
    have fits : (s'.store.get id).size = n.byteSize := size
    refine .bind (.get ?_)
    rw [if_neg (not_not_intro fits)]
    refine ih keys (fun pair member => (within.2 pair member).extends extended.store) fun m w member => ?_
    rw [boundBytes_extends (within.2 _ member) extended.store]
    exact sizes m w (List.mem_cons_of_mem _ member)

/-- Bindings that are accepted are those of leaves, to values of their sizes. -/
theorem bindAll_accepts {p : Plan} {pairs : List (Value × Value)} {s : State} {bound : Bindings}
    (within : ∀ pair ∈ pairs, pair.2.Within s.store) :
    Ensures (bindAll p pairs bound) s
      (fun _ _ => ∀ pair ∈ pairs, ∃ n : Node, pair.1 = .node n ∧ n.isLeaf ∧
        ∃ bytes, boundBytes s.store n pair.2 = .ok bytes ∧ bytes.size = n.byteSize) (fun _ => True) := by
  induction pairs generalizing s bound with
  | nil => exact .pure (by simp)
  | cons pair rest ih =>
    obtain ⟨key, u⟩ := pair
    rw [List.forall_mem_cons] at within
    obtain ⟨here, others⟩ := within
    cases key with
    | node m =>
      rw [bindAll]
      cases isLeaf : m.isLeaf with
      | false => exact .bind (.throw trivial)
      | true =>
        refine .bind ((boundBuffer_spec m (Nat.le_refl _) here).weaken ?_ fun _ _ => trivial)
        rintro id s₁ ⟨extended, stands⟩
        refine .bind (.get ?_)
        by_cases size : (s₁.store.get id).size = m.byteSize
        · rw [if_neg (not_not_intro size)]
          have later : ∀ pair ∈ rest, pair.2.Within s₁.store :=
            fun pair member => (others pair member).extends extended.store
          refine (ih later).weaken (fun _ _ accepted => List.forall_mem_cons.mpr ⟨?_, ?_⟩) fun _ _ => trivial
          · exact ⟨m, rfl, isLeaf, (stands size).boundBytes here extended.store⟩
          · intro pair member
            obtain ⟨n, key, leaf, content⟩ := accepted pair member
            exact ⟨n, key, leaf, boundBytes_extends (others pair member) extended.store ▸ content⟩
        · rw [if_pos size]
          exact .bind (.throw trivial)
    | _ => exact .throw trivial

theorem checkBound_returns {bound : Bindings} {leaves : List LeafSlot}
    (given : ∀ leaf ∈ leaves, leaf.node.kind = "placeholder" → ∃ id, bound.lookup leaf.node.id = some id) :
    checkBound bound leaves = .ok () := by
  induction leaves with
  | nil => rfl
  | cons leaf rest ih =>
    rw [List.forall_mem_cons] at given
    rw [checkBound, if_neg, ih given.2]
    rintro ⟨kind, missing⟩
    obtain ⟨id, found⟩ := given.1 kind
    simp [found] at missing

theorem checkBound_eq_ok {bound : Bindings} {leaves : List LeafSlot} (checked : checkBound bound leaves = .ok ()) :
    ∀ leaf ∈ leaves, leaf.node.kind = "placeholder" → ∃ id, bound.lookup leaf.node.id = some id := by
  induction leaves with
  | nil => simp
  | cons leaf rest ih =>
    rw [checkBound] at checked
    split at checked
    · cases checked
    · rename_i missing
      refine List.forall_mem_cons.mpr ⟨fun kind => ?_, ih checked⟩
      exact Option.isSome_iff_exists.mp (by simpa [kind] using missing)

end Execution
end TensorDag
