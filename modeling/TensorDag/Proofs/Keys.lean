import TensorDag.Proofs.Attributes
import TensorDag.Value.Freeze

/-!
What a look-up tells apart. Parameters have one key where they have one form and the same atoms, up to
the sign of a zero. The same comes out where they are compared with each number tagged by its type: no
nesting of parameters can pass for a tag.
-/
namespace TensorDag
namespace Binary

theorem Format.read_zero {f : Format} {word : Nat} {negative : Bool} {exponent : Int}
    (read : f.read word = .finite negative 0 exponent) : word % f.signBit = 0 := by
  have positive : 0 < f.step := Nat.two_pow_pos _
  have split := Nat.div_add_mod (word % f.signBit) f.step
  unfold Format.read at read
  dsimp only at read
  split at read
  · cases read
  · split at read
    · cases read
    · split at read <;> simp only [Reading.finite.injEq] at read
      · rename_i field
        rw [field, read.2.1] at split
        simpa using split.symm
      · omega

end Binary
namespace Double
open Binary
variable {x y : Double}

def negativeZero : Double := ofWord Format.double.signBit

theorem reading_zero (none : x.isZero = true) : ∃ negative exponent, x.reading = .finite negative 0 exponent := by
  unfold isZero at none
  split at none
  · rename_i negative significand exponent found
    obtain rfl : significand = 0 := by simpa using none
    exact ⟨negative, exponent, found⟩
  · cases none

theorem isZero_iff : x.isZero = true ↔ x = zero ∨ x = negativeZero := by
  constructor
  · intro none
    obtain ⟨negative, exponent, read⟩ := reading_zero none
    have magnitude : x.bits.toNat % 2 ^ 63 = 0 := Format.read_zero read
    have bounded : x.bits.toNat < 2 ^ 64 := x.bits.toNat_lt
    rcases (by omega : x.bits.toNat = 0 ∨ x.bits.toNat = 2 ^ 63) with word | word
    · exact .inl (congrArg Double.mk (UInt64.toNat_inj.mp word))
    · exact .inr (congrArg Double.mk (UInt64.toNat_inj.mp word))
  · rintro (rfl | rfl) <;> rfl

theorem isUndefined_of_isZero (none : x.isZero = true) : x.isUndefined = false := by
  rcases isZero_iff.mp none with rfl | rfl <;> rfl

theorem less_self (x : Double) : x.less x = false := by
  unfold less
  split <;> simp_all

theorem less_of_isZero (first : x.isZero = true) (second : y.isZero = true) : x.less y = false := by
  obtain ⟨n, e, here⟩ := reading_zero first
  obtain ⟨m, d, there⟩ := reading_zero second
  have none : ∀ exponent, (ratio 0 exponent).1 = 0 := fun exponent => Nat.zero_mul _
  simp only [less, here, there, none]
  cases n <;> cases m <;> simp

theorem withoutSignedZero_inj :
    x.withoutSignedZero = y.withoutSignedZero ↔ x = y ∨ x.isZero = true ∧ y.isZero = true := by
  have zeros : zero.isZero = true := rfl
  unfold withoutSignedZero
  constructor
  · intro same
    split at same <;> split at same
    · exact .inr ⟨‹_›, ‹_›⟩
    · rename_i other
      exact absurd (same ▸ zeros) other
    · rename_i other _
      exact absurd (same ▸ zeros) other
    · exact .inl same
  · rintro (rfl | ⟨first, second⟩)
    · rfl
    · rw [if_pos first, if_pos second]

/-- Defined numbers are equal where they are the same up to the sign of a zero. -/
theorem compareNumbers_eq : compareNumbers (.inr x) (.inr y) = some .eq ↔
    x.isUndefined = false ∧ y.isUndefined = false ∧ (x = y ∨ x.isZero = true ∧ y.isZero = true) := by
  have level : x = y ∨ x.isZero = true ∧ y.isZero = true → x.less y = false ∧ y.less x = false := by
    rintro (rfl | ⟨first, second⟩)
    · exact ⟨less_self x, less_self x⟩
    · exact ⟨less_of_isZero first second, less_of_isZero second first⟩
  rw [← withoutSignedZero_inj] at level ⊢
  simp only [compareNumbers]
  constructor
  · intro same
    split at same
    · cases same
    · split at same
      · cases same
      · split at same
        · simpa [Double.same, and_assoc] using ‹x.same y = true›
        · cases same
  · rintro ⟨first, second, same⟩
    obtain ⟨below, above⟩ := level same
    simp [below, above, Double.same, first, second, same]

end Double

namespace Atom

/-- Atoms that differ at most in the sign of a zero. -/
def Agrees (a b : Atom) : Prop :=
  a = b ∨ ∃ x y : Double, a = .float (.of x) ∧ b = .float (.of y) ∧ x.isZero = true ∧ y.isZero = true

/-- Every atom but an undefined number made where it stands, which equals none but itself. -/
def Matchable (a : Atom) : Prop := ∀ x : Double, a = .float (.of x) → x.isUndefined = false

/-- Every atom but the two zeros that a sign tells apart. -/
def Signless (a : Atom) : Prop := ∀ x : Double, a = .float (.of x) → x.isZero = false

/-- A zero without its sign, and every other atom as it is. -/
def unsigned : Atom → Atom
  | .float (.of x) => .float (.of x.withoutSignedZero)
  | a => a

theorem unsigned_float {x y : FloatObject} :
    (Atom.float x).unsigned = (Atom.float y).unsigned ↔ (Atom.float x).Agrees (.float y) := by
  cases x <;> cases y <;> simp [unsigned, Agrees, Double.withoutSignedZero_inj]

theorem unsigned_inj {a b : Atom} : a.unsigned = b.unsigned ↔ a.Agrees b := by
  cases a <;> cases b
  case float.float x y => exact unsigned_float
  case float.null x | float.bool x _ | float.int x _ | float.text x _ | float.bytes x _ | float.elementType x _ |
      float.node x _ _ _ | float.buffer x _ => cases x <;> simp [unsigned, Agrees]
  case null.float x | bool.float _ x | int.float _ x | text.float _ x | bytes.float _ x | elementType.float _ x |
      node.float _ _ _ x | buffer.float _ x => cases x <;> simp [unsigned, Agrees]
  all_goals simp [unsigned, Agrees]

theorem Agrees.matchable {a b : Atom} (agrees : a.Agrees b) (matchable : a.Matchable) : b.Matchable := by
  rcases agrees with rfl | ⟨x, y, rfl, rfl, _, none⟩
  · exact matchable
  · intro z same
    cases same
    exact Double.isUndefined_of_isZero none

theorem Agrees.eq {a b : Atom} (agrees : a.Agrees b) (signless : b.Signless) : a = b := by
  rcases agrees with same | ⟨x, y, _, rfl, _, none⟩
  · exact same
  · exact absurd none (by simp [signless y rfl])

/-- The name of a number's type. -/
def tag? : Atom → Option String
  | .bool _ => some "bool"
  | .int _ => some "int"
  | .float _ => some "float"
  | _ => none

end Atom

namespace Param

mutual

/-- Parameters with the same atoms at the same places, up to the sign of a zero. -/
def Agrees : Param → Param → Prop
  | .atom a, .atom b => a.Agrees b
  | .tuple ps, .tuple qs => AgreesAll ps qs
  | _, _ => False

def AgreesAll : List Param → List Param → Prop
  | [], [] => True
  | p :: ps, q :: qs => Agrees p q ∧ AgreesAll ps qs
  | _, _ => False

end

mutual

/-- Parameters whose atoms, at any depth, have a property. -/
def Every (holds : Atom → Prop) : Param → Prop
  | .atom a => holds a
  | .tuple ps => EveryAll holds ps

def EveryAll (holds : Atom → Prop) : List Param → Prop
  | [] => True
  | p :: ps => Every holds p ∧ EveryAll holds ps

end

mutual

/-- A parameter with each number in it paired with the name of its type. -/
def tagged : Param → Param
  | .atom a =>
    match a.tag? with
    | some tag => .tuple [.text tag, .atom a]
    | none => .atom a
  | .tuple ps => .tuple (taggedAll ps)

def taggedAll : List Param → List Param
  | [] => []
  | p :: ps => tagged p :: taggedAll ps

end

/-! Keys. -/

theorem key?_atom {a : Atom} {key : Param} :
    (Param.atom a).key? = some key ↔ a.Matchable ∧ .atom a.unsigned = key := by
  cases a with
  | float x => cases x <;> simp [key?, Atom.Matchable, Atom.unsigned]
  | _ => simp [key?, Atom.Matchable, Atom.unsigned]

theorem keys?_cons {p : Param} {ps keys : List Param} : keys? (p :: ps) = some keys ↔
    ∃ key, p.key? = some key ∧ ∃ rest, keys? ps = some rest ∧ key :: rest = keys := by
  rw [keys?]
  cases p.key? <;> cases keys? ps <;> simp

mutual

theorem exists_key : ∀ p : Param, (∃ key, p.key? = some key) ↔ p.Every Atom.Matchable
  | .atom a => by simp only [key?_atom, exists_and_left, exists_eq', and_true, Every]
  | .tuple ps => by
    rw [Every, ← exists_keys ps]
    simp only [key?, Option.map_eq_some_iff]
    exact ⟨fun ⟨_, keys, found, _⟩ => ⟨keys, found⟩, fun ⟨keys, found⟩ => ⟨_, keys, found, rfl⟩⟩

theorem exists_keys : ∀ ps : List Param, (∃ keys, keys? ps = some keys) ↔ EveryAll Atom.Matchable ps
  | [] => by simp [keys?, EveryAll]
  | p :: ps => by
    rw [EveryAll, ← exists_key p, ← exists_keys ps, keys?]
    cases p.key? <;> cases keys? ps <;> simp

end

mutual

theorem key?_iff : ∀ {p q key : Param}, p.key? = some key → (q.key? = some key ↔ p.Agrees q)
  | .atom a, .atom b, key, found => by
    obtain ⟨matchable, rfl⟩ := key?_atom.mp found
    rw [key?_atom, Agrees, Param.atom.injEq, eq_comm, Atom.unsigned_inj]
    exact and_iff_right_of_imp fun agrees => agrees.matchable matchable
  | .atom a, .tuple qs, key, found => by
    obtain ⟨matchable, rfl⟩ := key?_atom.mp found
    simp [key?, Agrees]
  | .tuple ps, .atom b, key, found => by
    obtain ⟨keys, _, rfl⟩ := Option.map_eq_some_iff.mp found
    simp [key?_atom, Agrees]
  | .tuple ps, .tuple qs, key, found => by
    obtain ⟨keys, here, rfl⟩ := Option.map_eq_some_iff.mp found
    rw [Agrees, ← keys?_iff here]
    simp [key?]

theorem keys?_iff : ∀ {ps qs keys : List Param}, keys? ps = some keys → (keys? qs = some keys ↔ AgreesAll ps qs)
  | [], [], keys, found => by simpa [keys?, AgreesAll] using found
  | [], q :: qs, keys, found => by
    cases found
    simp [keys?_cons, AgreesAll]
  | p :: ps, [], keys, found => by
    obtain ⟨key, _, rest, _, rfl⟩ := keys?_cons.mp found
    simp [keys?, AgreesAll]
  | p :: ps, q :: qs, keys, found => by
    obtain ⟨key, here, rest, later, rfl⟩ := keys?_cons.mp found
    rw [AgreesAll, ← key?_iff here, ← keys?_iff later, keys?_cons]
    constructor
    · rintro ⟨key', first, rest', second, same⟩
      cases same
      exact ⟨first, second⟩
    · rintro ⟨first, second⟩
      exact ⟨key, first, rest, second, rfl⟩

end

mutual

theorem Agrees.refl : ∀ p : Param, p.Agrees p
  | .atom _ => .inl rfl
  | .tuple ps => AgreesAll.refl ps

theorem AgreesAll.refl : ∀ ps : List Param, AgreesAll ps ps
  | [] => trivial
  | p :: ps => ⟨Agrees.refl p, AgreesAll.refl ps⟩

end

mutual

theorem Agrees.eq : ∀ {p q : Param}, p.Agrees q → q.Every Atom.Signless → p = q
  | .atom _, .atom _, agrees, signless => congrArg Param.atom (Atom.Agrees.eq agrees signless)
  | .tuple _, .tuple _, agrees, signless => congrArg Param.tuple (AgreesAll.eq agrees signless)

theorem AgreesAll.eq : ∀ {ps qs : List Param}, AgreesAll ps qs → EveryAll Atom.Signless qs → ps = qs
  | [], [], _, _ => rfl
  | _ :: _, _ :: _, ⟨here, later⟩, ⟨first, others⟩ => congrArg₂ List.cons (here.eq first) (AgreesAll.eq later others)

end

/-! Tags. -/

theorem agrees_tag {a b : Atom} (agrees : a.Agrees b) : a.tag? = b.tag? := by
  rcases agrees with rfl | ⟨x, y, rfl, rfl, _⟩ <;> rfl

theorem sameAtom_float {x y : FloatObject} : sameAtom (.float x) (.float y) = true ↔
    (Atom.float x).Agrees (.float y) ∧ (Atom.float x).Matchable := by
  have compared : ∀ z w : FloatObject, (∃ z', z = .of z') ∨ (∃ w', w = .of w') →
      sameAtom (.float z) (.float w) = decide (compareNumbers (.inr z.double) (.inr w.double) = some .eq) := by
    rintro (_ | _) (_ | _) one <;> first | rfl | simp at one
  cases x with
  | of x =>
    rw [compared _ _ (.inl ⟨x, rfl⟩), decide_eq_true_iff, Double.compareNumbers_eq]
    cases y with
    | of y => simp [FloatObject.double, Atom.Agrees, Atom.Matchable]; grind [Double.isUndefined_of_isZero]
    | undefined object =>
      have undefined : Double.undefined.isUndefined = true := rfl
      simp [FloatObject.double, Atom.Agrees, undefined]
  | undefined object =>
    cases y with
    | of y =>
      have undefined : Double.undefined.isUndefined = true := rfl
      rw [compared _ _ (.inr ⟨y, rfl⟩), decide_eq_true_iff, Double.compareNumbers_eq]
      simp [FloatObject.double, Atom.Agrees, undefined]
    | undefined other => simp [sameAtom, Atom.Agrees, Atom.Matchable]

theorem sameAtom_iff {a b : Atom} (typed : a.tag? = b.tag?) : sameAtom a b = true ↔ a.Agrees b ∧ a.Matchable := by
  cases a <;> cases b <;> simp only [Atom.tag?, reduceCtorEq, Option.some.injEq, String.reduceEq] at typed
  case float.float x y => exact sameAtom_float
  case bool.bool b b' =>
    cases b <;> cases b' <;> simp [sameAtom, Atom.number?, Atom.Agrees, Atom.Matchable, compareNumbers]
  all_goals simp [sameAtom, Atom.number?, Atom.Agrees, Atom.Matchable, compareNumbers]

theorem tagged_number {a : Atom} {tag : String} (number : a.tag? = some tag) :
    (Param.atom a).tagged = .tuple [.text tag, .atom a] := by
  rw [tagged, number]

theorem tagged_other {a : Atom} (other : a.tag? = none) : (Param.atom a).tagged = .atom a := by
  rw [tagged, other]

theorem same_bare {a : Atom} {tag : String} (number : a.tag? = some tag) (p : Param) :
    same (.atom a) p.tagged = false ∧ same p.tagged (.atom a) = false := by
  cases p with
  | tuple ps => exact ⟨rfl, rfl⟩
  | atom b =>
    cases other : b.tag? with
    | some _ =>
      rw [tagged_number other]
      exact ⟨rfl, rfl⟩
    | none =>
      rw [tagged_other other, same, same]
      cases a <;> cases b <;> simp_all [Atom.tag?, sameAtom, Atom.number?]

theorem same_tag {a : Atom} {tag : String} (number : a.tag? = some tag) : ∀ ps : List Param,
    sameAll [.text tag, .atom a] (taggedAll ps) = false ∧ sameAll (taggedAll ps) [.text tag, .atom a] = false
  | [] => ⟨rfl, rfl⟩
  | [p] => by simp [taggedAll, sameAll]
  | p :: q :: rest => by simp [taggedAll, sameAll, same_bare number q]

theorem same_atoms {a b : Atom} : (Param.atom a).tagged.same
    (Param.atom b).tagged = true ↔ a.Agrees b ∧ a.Matchable := by
  by_cases typed : a.tag? = b.tag?
  · cases number : b.tag? with
    | none =>
      rw [tagged_other (typed.trans number), tagged_other number, same]
      exact sameAtom_iff typed
    | some tag =>
      rw [tagged_number (typed.trans number), tagged_number number]
      simpa [same, sameAll, sameAtom, Atom.number?] using sameAtom_iff typed
  · refine iff_of_false ?_ fun both => typed (agrees_tag both.1)
    cases first : a.tag? with
    | none =>
      cases second : b.tag? with
      | none => exact absurd (first.trans second.symm) typed
      | some tag =>
        rw [tagged_other first, tagged_number second]
        nofun
    | some tag =>
      cases second : b.tag? with
      | none =>
        rw [tagged_number first, tagged_other second]
        nofun
      | some tag' =>
        rw [first, second, Option.some.injEq] at typed
        rw [tagged_number first, tagged_number second]
        simp [same, sameAll, sameAtom, Atom.number?, typed]

mutual

/-- Tagged parameters are equal where they agree and no undefined number was made in them. -/
theorem same_tagged : ∀ {p q : Param}, p.tagged.same q.tagged = true ↔ p.Agrees q ∧ p.Every Atom.Matchable
  | .atom a, .atom b => same_atoms
  | .atom a, .tuple qs => by
    refine iff_of_false ?_ fun both => both.1
    cases number : a.tag? with
    | none => rw [tagged_other number]; nofun
    | some tag =>
      rw [tagged_number number, tagged, same, (same_tag number qs).1]
      nofun
  | .tuple ps, .atom b => by
    refine iff_of_false ?_ fun both => both.1
    cases number : b.tag? with
    | none => rw [tagged_other number]; nofun
    | some tag =>
      rw [tagged_number number, tagged, same, (same_tag number ps).2]
      nofun
  | .tuple ps, .tuple qs => by
    rw [tagged, tagged, same, Agrees, Every]
    exact sameAll_tagged

theorem sameAll_tagged : ∀ {ps qs : List Param},
    sameAll (taggedAll ps) (taggedAll qs) = true ↔ AgreesAll ps qs ∧ EveryAll Atom.Matchable ps
  | [], [] => by simp [taggedAll, sameAll, AgreesAll, EveryAll]
  | [], q :: qs => by simp [taggedAll, sameAll, AgreesAll]
  | p :: ps, [] => by simp [taggedAll, sameAll, AgreesAll]
  | p :: ps, q :: qs => by
    rw [taggedAll, taggedAll, sameAll, Bool.and_eq_true, same_tagged, sameAll_tagged, AgreesAll, EveryAll]
    exact and_and_and_comm

end

theorem share_key_iff {p q : Param} :
    (∃ key, p.key? = some key ∧ q.key? = some key) ↔ p.tagged.same q.tagged = true := by
  rw [same_tagged, ← exists_key]
  constructor
  · rintro ⟨key, first, second⟩
    exact ⟨(key?_iff first).mp second, key, first⟩
  · rintro ⟨agrees, key, first⟩
    exact ⟨key, first, (key?_iff first).mpr agrees⟩

end Param

namespace Params
variable {ps qs keys : Params}

/-- Parameters with the same names, under which stand parameters that agree. -/
def Agree (ps qs : Params) : Prop := ∀ name, Option.Rel Param.Agrees (ps.find? name) (qs.find? name)

theorem agree_of_key (first : ps.key? = some keys) (second : qs.key? = some keys) : ps.Agree qs := by
  intro name
  have here := find?_key first name
  have there := find?_key second name
  generalize ps.find? name = p, qs.find? name = q, keys.find? name = key at here there ⊢
  cases here with
  | none => cases there; exact .none
  | some found =>
    cases there with
    | some other => exact .some ((Param.key?_iff found).mp other)

theorem Agree.refl (ps : Params) : ps.Agree ps := by
  intro name
  generalize ps.find? name = p
  cases p with
  | none => exact .none
  | some p => exact .some (.refl p)

theorem exists_key : (∃ keys, ps.key? = some keys) ↔ ∀ entry ∈ ps, entry.2.Every Atom.Matchable := by
  have all : ∀ values : List Param, Param.EveryAll Atom.Matchable values ↔ ∀ p ∈ values, p.Every Atom.Matchable := by
    intro values
    induction values with
    | nil => simp [Param.EveryAll]
    | cons p rest ih => simp [Param.EveryAll, ih]
  rw [Params.key?]
  have keyed := Param.exists_keys (ps.map Prod.snd)
  rw [all, List.forall_mem_map] at keyed
  rw [← keyed]
  cases Param.keys? (ps.map Prod.snd) <;> simp

end Params
end TensorDag
