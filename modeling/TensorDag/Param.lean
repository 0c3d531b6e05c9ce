import TensorDag.Buffer
import TensorDag.Binary.Double

/-!
Parameters of nodes: frozen values of any nesting. `Param.key?` is the form under which parameters
are compared when nodes are looked up: the two zeros are one, and an undefined number is equal to
none but the same object.
-/
namespace TensorDag

/-- A double as an object. What an undefined one denotes does not tell it from others: one that may be
met again goes by a number, and any other was made where it stands and is met nowhere else. -/
inductive FloatObject
  | of (x : Double)
  | undefined (object : Nat)
  deriving DecidableEq

namespace FloatObject

def double : FloatObject → Double
  | of x => x
  | undefined _ => .undefined

instance : Coe FloatObject Double := ⟨double⟩

end FloatObject

inductive Atom
  | null
  | bool (b : Bool)
  | int (i : Int)
  | float (x : FloatObject)
  | text (s : String)
  | bytes (bytes : Bytes)
  | elementType (e : ElementType)
  | node (graph index : Nat) (name : String)
  | buffer (id : BufferId)
  deriving DecidableEq

inductive Param
  | atom (a : Atom)
  | tuple (items : List Param)

namespace Param

@[match_pattern] abbrev null : Param := .atom .null
@[match_pattern] abbrev bool (b : Bool) : Param := .atom (.bool b)
@[match_pattern] abbrev int (i : Int) : Param := .atom (.int i)
@[match_pattern] abbrev float (x : Double) : Param := .atom (.float (.of x))
@[match_pattern] abbrev text (s : String) : Param := .atom (.text s)

def ints (is : List Int) : Param := .tuple (is.map .int)

def dims (ns : List Nat) : Param := .tuple (ns.map fun (n : Nat) => .int n)

mutual

protected def decEq : (p q : Param) → Decidable (p = q)
  | .atom a, .atom b =>
    if same : a = b then isTrue (congrArg Param.atom same)
    else isFalse fun equal => same (by injection equal)
  | .tuple ps, .tuple qs =>
    match Param.decEqAll ps qs with
    | isTrue same => isTrue (congrArg Param.tuple same)
    | isFalse different => isFalse fun equal => different (by injection equal)
  | .atom _, .tuple _ => isFalse (by intro equal; injection equal)
  | .tuple _, .atom _ => isFalse (by intro equal; injection equal)

protected def decEqAll : (ps qs : List Param) → Decidable (ps = qs)
  | [], [] => isTrue rfl
  | [], _ :: _ => isFalse (by intro equal; injection equal)
  | _ :: _, [] => isFalse (by intro equal; injection equal)
  | p :: ps, q :: qs =>
    match Param.decEq p q, Param.decEqAll ps qs with
    | isTrue head, isTrue tail => isTrue (by rw [head, tail])
    | isFalse different, _ => isFalse fun equal => different (by injection equal)
    | _, isFalse different => isFalse fun equal => different (by injection equal)

end

instance : DecidableEq Param := Param.decEq

mutual

/-- The form compared in a look-up; `none` where an undefined number was made. -/
def key? : Param → Option Param
  | .float x => if x.isUndefined then none else some (.float x.withoutSignedZero)
  | .atom a => some (.atom a)
  | .tuple items => (keys? items).map .tuple

def keys? : List Param → Option (List Param)
  | [] => some []
  | item :: rest =>
    match key? item, keys? rest with
    | some head, some tail => some (head :: tail)
    | _, _ => none

end
end Param

/-- Named parameters, in the order in which they were given; each name occurs once. -/
abbrev Params := List (String × Param)

namespace Params

def find? (ps : Params) (name : String) : Option Param := ps.lookup name

def insertSorted (entry : String × Param) : Params → Params
  | [] => [entry]
  | head :: rest => if entry.1 ≤ head.1 then entry :: head :: rest else head :: insertSorted entry rest

/-- The entries by name, each in the form compared in a look-up. -/
def key? (ps : Params) : Option Params :=
  match Param.keys? (ps.map Prod.snd) with
  | some keys => some (((ps.map Prod.fst).zip keys).foldr insertSorted [])
  | none => none

end Params
end TensorDag
