import TensorDag.Error

/-!
Freezing: values of any nesting become parameters. Lists and tuples freeze alike, dictionaries to
their entries sorted by the text of the key, arrays to their content.
-/
namespace TensorDag

/-- Whole numbers and doubles, a truth value counting as 0 or 1. -/
def Atom.number? : Atom → Option (Int ⊕ Double)
  | .bool b => some (.inl (if b then 1 else 0))
  | .int i => some (.inl i)
  | .float x => some (.inr x)
  | _ => none

def compareNumbers : Int ⊕ Double → Int ⊕ Double → Option Ordering
  | .inl i, .inl j => some (compare i j)
  | .inl i, .inr y => Double.compareInt i y
  | .inr x, .inl j => (Double.compareInt j x).map Ordering.swap
  | .inr x, .inr y =>
    if x.less y then some .lt else if y.less x then some .gt else if x.same y then some .eq else none

namespace Param

/-- Equality of values: numbers by what they denote, whatever their type, and one object as itself. -/
def sameAtom (a b : Atom) : Bool :=
  match a, b with
  | .float (.undefined i), .float (.undefined j) => i = j
  | a, b =>
    match a.number?, b.number? with
    | some x, some y => compareNumbers x y = some .eq
    | _, _ => a = b

mutual

def same : Param → Param → Bool
  | .atom a, .atom b => sameAtom a b
  | .tuple ps, .tuple qs => sameAll ps qs
  | _, _ => false

def sameAll : List Param → List Param → Bool
  | [], [] => true
  | p :: ps, q :: qs => same p q && sameAll ps qs
  | _, _ => false

end

/-- Order of two atoms of one sort: numbers, texts or bytes. -/
def lessAtom? (a b : Atom) : Option Bool :=
  match a.number?, b.number? with
  | some x, some y => some (compareNumbers x y = some .lt)
  | _, _ =>
    match a, b with
    | .text s, .text t => some (s < t)
    | .bytes s, .bytes t => some (s.toList.map UInt8.toNat < t.toList.map UInt8.toNat)
    | _, _ => none

mutual

/-- Order where there is one: tuples by the first items that differ. -/
def less? : Param → Param → Option Bool
  | .atom a, .atom b => lessAtom? a b
  | .tuple ps, .tuple qs => lessAll? ps qs
  | _, _ => none

def lessAll? : List Param → List Param → Option Bool
  | _, [] => some false
  | [], _ :: _ => some true
  | p :: ps, q :: qs => if same p q then lessAll? ps qs else less? p q

end
end Param

namespace Value

/-- Order of entries: by key, and by value where the keys agree. -/
def entryLess? (a b : String × Param) : Option Bool :=
  if a.1 = b.1 then (if a.2.same b.2 then some false else a.2.less? b.2) else some (a.1 < b.1)

/-- Put an entry behind those that are not above it. -/
def insertEntry (entry : String × Param) : List (String × Param) → Result (List (String × Param))
  | [] => .ok [entry]
  | head :: rest =>
    match entryLess? entry head with
    | none => .fault .notComparable
    | some true => .ok (entry :: head :: rest)
    | some false => (insertEntry entry rest).map (head :: ·)

def sortEntries : List (String × Param) → List (String × Param) → Result (List (String × Param))
  | sorted, [] => .ok sorted
  | sorted, entry :: rest => do sortEntries (← insertEntry entry sorted) rest

def entryParam (entry : String × Param) : Param := .tuple [.text entry.1, entry.2]

mutual

def freeze : Value → Result Param
  | .null => .ok .null
  | .bool b => .ok (.bool b)
  | .int i => .ok (.int i)
  | .float x => .ok (.float x)
  | .undefined object => .ok (.atom (.float (.undefined object)))
  | .text s => .ok (.text s)
  | .bytes bs => .ok (.atom (.bytes bs))
  | .elementType e => .ok (.atom (.elementType e))
  | .list items | .tuple items => do return .tuple (← freezeAll items)
  | .set items => .error (.notHashable (.set items))
  | .dictionary entries => do
    let sorted ← sortEntries [] (← freezeEntries entries)
    return .tuple (sorted.map entryParam)
  | .scalar _ value => freeze value
  | .array _ content => freeze content
  | .node n => .ok (.atom (.node n.id.graph n.id.index n.name))
  | .buffer id _ => .ok (.atom (.buffer id))

def freezeAll : List Value → Result (List Param)
  | [] => .ok []
  | v :: rest => do return (← freeze v) :: (← freezeAll rest)

def freezeEntries : List (Value × Value) → Result (List (String × Param))
  | [] => .ok []
  | (key, value) :: rest => do return (key.plain, ← freeze value) :: (← freezeEntries rest)

end

/-- Put an entry under its key: in place of an equal key's entry, else behind all. -/
def putEntry (entry : String × Param) : Params → Params
  | [] => [entry]
  | head :: rest => if head.1 = entry.1 then entry :: rest else head :: putEntry entry rest

/-- The named parameters of a mapping, each frozen; of equal names the last counts. -/
def params (entries : List (Value × Value)) : Result Params := do
  return (← freezeEntries entries).foldl (fun ps entry => putEntry entry ps) []

/-- Whether two values are one key of a dictionary. -/
def sameKey (a b : Value) : Bool :=
  match a.freeze, b.freeze with
  | .ok p, .ok q => p.same q
  | _, _ => false

/-- Whether a value is a number equal to a dimension. -/
def isDim (dim : Nat) (v : Value) : Bool := sameKey v (.int dim)

/-- Put a value under a key, behind all if the key is new. -/
def putField (key value : Value) : List (Value × Value) → List (Value × Value)
  | [] => [(key, value)]
  | (k, v) :: rest => if sameKey k key then (k, value) :: rest else (k, v) :: putField key value rest

mutual

/-- Whether a value can be a key of a mapping. -/
def isKey : Value → Bool
  | .list _ | .set _ | .dictionary _ | .array _ _ => false
  | .tuple items => areKeys items
  | _ => true

def areKeys : List Value → Bool
  | [] => true
  | v :: rest => isKey v && areKeys rest

end

/-- A mapping of the given entries; of equal keys the first stays and the last value counts. -/
def mapping (entries : List (Value × Value)) : Result (List (Value × Value)) :=
  if areKeys (entries.map Prod.fst) then
    .ok (entries.foldl (fun fields (key, value) => putField key value fields) [])
  else .fault .noKey

/-- The places of a table that keeps so many members of a set apart. -/
def places (count : Nat) : Nat := if count < 5 then 8 else if count < 19 then 32 else 128

/-- The members of a set in the order in which it is gone through: whole numbers below the number of
places stand at their own place, others are left in the order in which they came. -/
def gathered (items : List Value) : Result (List Value) := do
  let members := (← mapping (items.map fun item => (item, .null))).map Prod.fst
  let stands (v : Value) : Bool :=
    match v.index? with
    | some i => 0 ≤ i && i < places members.length
    | none => false
  if members.all stands then
    return members.mergeSort fun a b => (a.index?).getD 0 ≤ (b.index?).getD 0
  else return members

mutual

/-- A frozen parameter as a value again. -/
def ofParam : Param → Value
  | .atom .null => .null
  | .atom (.bool b) => .bool b
  | .atom (.int i) => .int i
  | .float x => .float x
  | .atom (.float (.undefined object)) => .undefined object
  | .atom (.text s) => .text s
  | .atom (.bytes bs) => .bytes bs
  | .atom (.elementType e) => .elementType e
  | .atom (.node _ _ _) | .atom (.buffer _) => .null
  | .tuple items => .tuple (ofParams items)

def ofParams : List Param → List Value
  | [] => []
  | p :: rest => ofParam p :: ofParams rest

end
end Value
end TensorDag
