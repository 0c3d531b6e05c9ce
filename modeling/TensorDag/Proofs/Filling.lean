import TensorDag.Buffer.Access
import TensorDag.Proofs.Nesting
import TensorDag.Proofs.Replaying
import TensorDag.Proofs.Words

/-!
Leaves filled with whole elements. Whole numbers become words in two's complement, four bytes each and the lowest
first, and every four bytes are those of one number. So a leaf reads as the numbers that it was made of, and a leaf
made of the numbers that another reads as holds the other's bytes. Data of another length makes no leaf.
-/
namespace TensorDag

/-! Whole numbers as words. -/

theorem toNat_wordOfInt (i : Int) : (wordOfInt i).toNat = (i % 2 ^ 32).toNat := by
  have below : (i % 2 ^ 32).toNat < 2 ^ 32 := by omega
  exact Nat.mod_eq_of_lt below

theorem toInt_toInt32 (w : UInt32) : w.toInt32.toInt = (w.toNat : Int).bmod (2 ^ 32) :=
  BitVec.toInt_eq_toNat_bmod w.toBitVec

theorem toInt_wordOfInt {i : Int} (range : -2 ^ 31 ≤ i ∧ i < 2 ^ 31) : (wordOfInt i).toInt32.toInt = i := by
  rw [toInt_toInt32, toNat_wordOfInt, Int.toNat_of_nonneg (by omega)]
  exact (Int.emod_bmod i (2 ^ 32)).trans (Int.bmod_eq_of_le range.1 range.2)

theorem wordOfInt_toInt (w : UInt32) : wordOfInt w.toInt32.toInt = w := by
  have same : (w.toNat : Int).bmod (2 ^ 32) % (2 ^ 32 : Nat) = w.toNat % (2 ^ 32 : Nat) := Int.bmod_emod
  have below : w.toNat < 2 ^ 32 := w.toNat_lt
  apply UInt32.toNat_inj.mp
  rw [toNat_wordOfInt, toInt_toInt32]
  omega

namespace Bytes
variable {is : List Int} {bytes : Bytes} {count : Nat}

/-- Whole numbers in two's complement of four bytes each, the lowest byte first. -/
def ofIntegers (is : List Int) : Bytes := (is.flatMap fun i => ofNat 4 (i % 2 ^ 32).toNat).toArray

def integers (bytes : Bytes) : List Int := bytes.words.map fun w => w.toInt32.toInt

theorem ofWord_eq (w : UInt32) : ofWord w = ofNat 4 w.toNat := by
  simp only [ofWord, ofNat]
  congr 1
  simp [← UInt8.toNat_inj, Nat.shiftRight_eq_div_pow, Nat.div_div_eq_div_mul]

theorem ofWords_wordOfInt (is : List Int) : ofWords (is.map wordOfInt) = ofIntegers is := by
  simp only [ofWords, ofIntegers, List.flatMap_map, ofWord_eq, toNat_wordOfInt]

theorem words_eq (size : bytes.size = 4 * count) : bytes.words = (List.range count).map bytes.word := by
  have whole : bytes.size / 4 = count := by omega
  rw [words, whole]

theorem words_ofWords (words : List UInt32) : (ofWords words).words = words := by
  rw [words_eq (size_ofWords words)]
  refine List.ext_getElem (by simp) fun i _ inside => ?_
  rw [List.getElem_map, List.getElem_range]
  exact word_ofWords (List.getElem?_eq_getElem inside)

theorem size_ofIntegers (is : List Int) : (ofIntegers is).size = 4 * is.length := by
  rw [← ofWords_wordOfInt, size_ofWords, List.length_map]

theorem length_integers (size : bytes.size = 4 * count) : bytes.integers.length = count := by
  rw [integers, words_eq size, List.length_map, List.length_map, List.length_range]

theorem integers_range : ∀ i ∈ bytes.integers, -2 ^ 31 ≤ i ∧ i < 2 ^ 31 := by
  intro i member
  obtain ⟨w, _, rfl⟩ := List.mem_map.mp member
  exact ⟨w.toInt32.le_toInt, w.toInt32.toInt_lt⟩

theorem integers_ofIntegers (range : ∀ i ∈ is, -2 ^ 31 ≤ i ∧ i < 2 ^ 31) : (ofIntegers is).integers = is := by
  rw [← ofWords_wordOfInt, integers, words_ofWords, List.map_map]
  exact (List.map_congr_left fun i member => toInt_wordOfInt (range i member)).trans (List.map_id is)

theorem ofIntegers_integers (size : bytes.size = 4 * count) : ofIntegers bytes.integers = bytes := by
  have back : (wordOfInt ∘ fun w : UInt32 => w.toInt32.toInt) = id := funext wordOfInt_toInt
  rw [← ofWords_wordOfInt, integers, List.map_map, back, List.map_id, words_eq size, ofWords_words size]

end Bytes

/-! Data of leaves. -/

namespace Value

/-- Whole numbers in row-major order: in nested lists, or in an array. -/
def Nests (v : Value) (is : List Int) : Prop :=
  ∃ s : Shape, s.length ≤ Shape.maxRank ∧ is.length = Shape.volume s ∧
    (v = nested s is ∨ v = .array (.signed 4) (nested s is))

/-- Bytes, by themselves or in a buffer. -/
def Raw (v : Value) (bytes : Bytes) : Prop := v = .bytes bytes ∨ ∃ id readonly, v = .buffer id ⟨bytes, readonly⟩

theorem nests_ints (is : List Int) : (ints is).Nests is :=
  ⟨[is.length], Nat.le_of_lt (by simp [Shape.maxRank]), (Nat.mul_one _).symm, .inl (nested_ints is).symm⟩

theorem Nests.words {v : Value} {is : List Int} (nests : v.Nests is) (range : ∀ i ∈ is, -2 ^ 31 ≤ i ∧ i < 2 ^ 31) :
    v.words .int32 = .ok (is.map wordOfInt) := by
  obtain ⟨s, axes, count, rfl | rfl⟩ := nests
  · exact words_nested axes count fun i member => if_pos (range i member)
  · exact words_array axes count fun _ _ => rfl

end Value

section
variable {type : TensorType} {v : Value} {is : List Int} {bytes : Bytes}

theorem leafBytes_nests [Memory] {s : Shape} (nests : v.Nests is) (range : ∀ i ∈ is, -2 ^ 31 ≤ i ∧ i < 2 ^ 31) :
    leafBytes ⟨.int32, s⟩ v = if is.length = Shape.volume s then .ok (Bytes.ofIntegers is)
      else .error (.shape (.elementCount ⟨.int32, s⟩ is.length)) := by
  have words := nests.words range
  have listed : leafBytes ⟨.int32, s⟩ v = v.words .int32 >>= fun words =>
      if words.length = Shape.volume s then .ok (Bytes.ofWords words)
      else .error (.shape (.elementCount ⟨.int32, s⟩ words.length)) := by
    obtain ⟨lengths, _, _, rfl | rfl⟩ := nests
    · cases lengths <;> rfl
    · rfl
  rw [listed, words]
  simp only [bind, Except.bind, List.length_map, Bytes.ofWords_wordOfInt]

theorem leafBytes_raw [Memory] (raw : v.Raw bytes) (size : bytes.size = type.byteSize) :
    leafBytes type v = .ok bytes := by
  rcases raw with rfl | ⟨_, _, rfl⟩
  · exact if_pos size
  · exact if_pos size

theorem leafBytes_raw_refused [Memory] (raw : v.Raw bytes) (size : bytes.size ≠ type.byteSize) :
    ∃ e : Error, e.category = .bufferSize ∧ leafBytes type v = .error e := by
  rcases raw with rfl | ⟨_, _, rfl⟩
  · exact ⟨.leafBytes type bytes.size, rfl, if_neg size⟩
  · exact ⟨.leafBuffer type bytes.size, rfl, if_neg size⟩

end

/-! Leaves. -/

/-- What a node's own buffer is read as: a shape, and whole numbers in row-major order. -/
def Node.integers (n : Node) (store : Store) : Result (Shape × List Int) := do
  let t ← n.tensor store
  return (t.shape, t.cells.map fun w => w.toInt32.toInt)

/-- The calls that make leaves with data. -/
def Building.filling [Memory] : List (Value → Value → Value → Building Node) := [constant, variableOf]

namespace Building
variable {w : Workspace} {shape elementType data : Value} {type : TensorType}
    {make : Value → Value → Value → Building Node}

theorem filling_refused [Memory] {e : Error} (makes : make ∈ filling)
    (typed : TensorType.ofValues elementType shape = .ok type)
    (failed : leafBytes type data = .error e) : make shape elementType data w = .error e w := by
  simp only [filling, List.mem_cons, List.not_mem_nil, or_false] at makes
  rcases makes with rfl | rfl
  · exact constant_refused typed failed w
  · exact variableOf_refused typed failed w

end Building

namespace Workspace
variable {w u : Workspace} {n : Node} {s : Shape} {type : TensorType} {is : List Int} {bytes : Bytes}
variable {shape elementType v : Value} {make : Value → Value → Value → Building Node}

/-- A leaf whose own buffer has some bytes. -/
structure LeafHolds (w : Workspace) (n : Node) (type : TensorType) (bytes : Bytes) : Prop where
  member : n ∈ w.graph.nodes
  isLeaf : n.isLeaf = true
  typed : n.type = type
  held : ∃ id, n.buffer = some id ∧ id < w.store.size ∧ (w.store.get id).bytes = bytes

/-- A leaf of whole elements that holds some bytes and, if arrays can have its shape, is read as some numbers. -/
structure LeafReads (w : Workspace) (n : Node) (s : Shape) (bytes : Bytes) (is : List Int) : Prop
    extends w.LeafHolds n ⟨.int32, s⟩ bytes where
  size : bytes.size = 4 * Shape.volume s
  read : n.integers w.store = if s.holdable then .ok (s, is) else .fault .notAddressable

theorem LeafHolds.reads (stocks : w.LeafHolds n ⟨.int32, s⟩ bytes) (size : bytes.size = 4 * Shape.volume s) :
    w.LeafReads n s bytes bytes.integers := by
  refine ⟨stocks, size, ?_⟩
  obtain ⟨id, own, _, content⟩ := stocks.held
  have whole : n.type.byteSize = (w.store.get id).size := by
    rw [stocks.typed, Buffer.size, content, size]
    exact Nat.mul_comm ..
  have cells : (Tensor.ofBytes s bytes).cells = bytes.words := by
    rw [Tensor.cells_ofBytes, Bytes.words_eq size]
  have tensor : n.tensor w.store =
      if s.holdable then .ok (Tensor.ofBytes s bytes) else .fault .notAddressable := by
    rw [Node.tensor, own]
    refine (if_neg (not_not_intro whole)).trans ?_
    rw [stocks.typed, content]
  rw [Node.integers, tensor, Bytes.integers, ← cells]
  split <;> rfl

/-- A leaf is made of data that fills it, or is there already. -/
theorem Built.stocks [Memory] {data : Value} (built : w.Built ShapeRules.Proper) (makes : make ∈ Building.filling)
    (typed : TensorType.ofValues elementType shape = .ok type) (filled : leafBytes type data = .ok bytes) :
    ∃ n u, make shape elementType data w = .ok n u ∧ u.Built ShapeRules.Proper ∧ u.LeafHolds n type bytes := by
  simp only [Building.filling, List.mem_cons, List.not_mem_nil, or_false] at makes
  rcases makes with rfl | rfl
  · obtain ⟨n, u, made⟩ := Building.constant_returns (w := w) typed filled
    have coherent := built.coherent fun _ => id
    obtain ⟨_, _, member⟩ := coherent.constant made
    obtain ⟨named, known, held⟩ := coherent.constant_content typed filled made
    exact ⟨n, u, made, .constant built made, member, Node.isLeaf_of_kind rfl named, known, held⟩
  · obtain ⟨n, u, made⟩ := Building.variableOf_returns (w := w) typed filled
    have next := Built.variableOf built made
    obtain ⟨_, _, typed', filled', rfl, rfl⟩ := Building.variableOf_cases made
    cases typed.symm.trans typed'
    cases filled.symm.trans filled'
    refine ⟨_, _, made, next, Array.mem_push_self, rfl, rfl, w.store.size, rfl, ?_, ?_⟩
    · exact Nat.lt_of_lt_of_eq (Nat.lt_succ_self _) (Store.size_insert w.store ⟨bytes, false⟩).symm
    · exact congrArg Buffer.bytes (Store.get_insert_self w.store ⟨bytes, false⟩)

theorem Built.reads_nested [Memory] (built : w.Built ShapeRules.Proper)
    (typed : TensorType.ofValues elementType shape = .ok ⟨.int32, s⟩) (makes : make ∈ Building.filling)
    (nests : v.Nests is) (range : ∀ i ∈ is, -2 ^ 31 ≤ i ∧ i < 2 ^ 31) (count : is.length = Shape.volume s) :
    ∃ n u, make shape elementType v w = .ok n u ∧ u.Built ShapeRules.Proper ∧
      u.LeafReads n s (Bytes.ofIntegers is) is := by
  obtain ⟨n, u, made, next, stocks⟩ := built.stocks makes typed ((leafBytes_nests nests range).trans (if_pos count))
  have reads := stocks.reads (by rw [Bytes.size_ofIntegers, count])
  rw [Bytes.integers_ofIntegers range] at reads
  exact ⟨n, u, made, next, reads⟩

/-- Leaves of whole elements are made of data of their length, and of no other. A leaf made of numbers of 32 bits has
their bytes and is read as these numbers; a leaf made of bytes has these bytes, and so has every leaf made of the
numbers that it is read as. -/
theorem Built.whole_leaves [Memory] (built : w.Built ShapeRules.Proper)
    (typed : TensorType.ofValues elementType shape = .ok ⟨.int32, s⟩) (makes : make ∈ Building.filling) :
    (∀ is v, v.Nests is → (∀ i ∈ is, -2 ^ 31 ≤ i ∧ i < 2 ^ 31) →
      (is.length = Shape.volume s → ∃ n u, make shape elementType v w = .ok n u ∧
        u.Built ShapeRules.Proper ∧ u.LeafReads n s (Bytes.ofIntegers is) is) ∧
      (is.length ≠ Shape.volume s →
        make shape elementType v w = .error (.shape (.elementCount ⟨.int32, s⟩ is.length)) w)) ∧
    (∀ bytes v, v.Raw bytes →
      (bytes.size = 4 * Shape.volume s → ∃ n u, make shape elementType v w = .ok n u ∧
        u.Built ShapeRules.Proper ∧ u.LeafReads n s bytes bytes.integers ∧
          ∀ x : Workspace, x.Built ShapeRules.Proper → ∀ again ∈ Building.filling, ∀ v', v'.Nests bytes.integers →
            ∃ n' u', again shape elementType v' x = .ok n' u' ∧ u'.LeafReads n' s bytes bytes.integers) ∧
      (bytes.size ≠ 4 * Shape.volume s →
        ∃ e : Error, e.category = .bufferSize ∧ make shape elementType v w = .error e w)) := by
  have size : (⟨.int32, s⟩ : TensorType).byteSize = 4 * Shape.volume s := Nat.mul_comm ..
  constructor
  · intro is v nests range
    refine ⟨fun count => ?_, fun count => ?_⟩
    · exact built.reads_nested typed makes nests range count
    · exact Building.filling_refused makes typed ((leafBytes_nests nests range).trans (if_neg count))
  · intro bytes v raw
    refine ⟨fun whole => ?_, fun other => ?_⟩
    · obtain ⟨n, u, made, next, stocks⟩ := built.stocks makes typed (leafBytes_raw raw (whole.trans size.symm))
      refine ⟨n, u, made, next, stocks.reads whole, fun x before again makes' v' nests => ?_⟩
      obtain ⟨n', u', made', _, reads⟩ := before.reads_nested typed makes' nests Bytes.integers_range
        (Bytes.length_integers whole)
      rw [Bytes.ofIntegers_integers whole] at reads
      exact ⟨n', u', made', reads⟩
    · obtain ⟨e, sort, failed⟩ := leafBytes_raw_refused raw (size ▸ other)
      exact ⟨e, sort, Building.filling_refused makes typed failed⟩

end Workspace

namespace Sample

/-- One, its negative, and the ends of the range, in two rows. -/
def corners : Value := .list [.ints [1, -1], .ints [2 ^ 31 - 1, -2 ^ 31]]

def cornerBytes : Bytes := #[1, 0, 0, 0, 255, 255, 255, 255, 255, 255, 255, 127, 0, 0, 0, 128]

theorem whole_leaves_corners :
    let made := fun data => Building.variableOf (.dims [2, 2]) (.elementType .int32) data workspace
    (∃ n u, made corners = .ok n u ∧ u.LeafReads n [2, 2] cornerBytes [1, -1, 2 ^ 31 - 1, -2 ^ 31]) ∧
      (∃ n u, made (.bytes cornerBytes) = .ok n u ∧ u.LeafReads n [2, 2] cornerBytes cornerBytes.integers ∧
        ∃ n' u', Building.constant (.dims [2, 2]) (.elementType .int32) (.array (.signed 4) corners) u = .ok n' u' ∧
          u'.LeafReads n' [2, 2] cornerBytes cornerBytes.integers) ∧
      made (.ints [1, 2, 3]) = .error (.shape (.elementCount ⟨.int32, [2, 2]⟩ 3)) workspace ∧
      ∃ e : Error, e.category = .bufferSize ∧ made (.buffer 0 ⟨.zeros 8, false⟩) = .error e workspace := by
  intro made
  have typed : TensorType.ofValues (.elementType .int32) (.dims [2, 2]) = .ok ⟨.int32, [2, 2]⟩ := rfl
  have nests : corners.Nests [1, -1, 2 ^ 31 - 1, -2 ^ 31] := ⟨[2, 2], by decide, rfl, .inl rfl⟩
  have nests' : (Value.array (.signed 4) corners).Nests cornerBytes.integers :=
    ⟨[2, 2], by decide, rfl, .inr rfl⟩
  have range : ∀ i ∈ ([1, -1, 2 ^ 31 - 1, -2 ^ 31] : List Int), -2 ^ 31 ≤ i ∧ i < 2 ^ 31 := by decide
  have makes : Building.variableOf ∈ Building.filling := List.mem_cons_of_mem _ (List.mem_cons_self ..)
  obtain ⟨lists, raws⟩ := Workspace.Built.whole_leaves built_proper typed makes
  obtain ⟨n, u, read, _, reads⟩ := (lists _ corners nests range).1 rfl
  obtain ⟨m, x, held, next, reads', again⟩ := (raws cornerBytes _ (.inl rfl)).1 rfl
  refine ⟨⟨n, u, read, reads⟩, ⟨m, x, held, reads', ?_⟩, ?_, ?_⟩
  · exact again x next Building.constant (List.mem_cons_self ..) _ nests'
  · exact (lists _ _ (Value.nests_ints [1, 2, 3]) (by decide)).2 (by decide)
  · exact (raws (.zeros 8) _ (.inr ⟨0, false, rfl⟩)).2 (by decide)

/-- A leaf of one cell along more axes than arrays have is made, and cannot be read. -/
theorem whole_leaves_unread :
    let pillar : Shape := List.replicate 65 1
    workspace.Built ShapeRules.Proper ∧ Shape.volume pillar = ([5] : List Int).length ∧
      ∃ n u, Building.variableOf (.dims pillar) (.elementType .int32) (.ints [5]) workspace = .ok n u ∧
        n.integers u.store = .fault .notAddressable :=
  ⟨built_proper, by decide, _, _, rfl, rfl⟩

end Sample
end TensorDag
