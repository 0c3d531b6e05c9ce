import TensorDag.Element.Double
import TensorDag.Value.Freeze
import TensorDag.Value.Numbers

/-!
Arithmetic on values: whole numbers stay whole, and what meets a double becomes one. `Value.member`
is the value at a place of another.
-/
namespace TensorDag

namespace Double

/-- The quotient of two numbers, the lower of the two whole numbers around it. -/
def floorQuotient (x y : Double) : Double :=
  match x.reading, y.reading with
  | .finite n s e, .finite m t d =>
    let (xn, xd) := Binary.ratio s e
    let (yn, yd) := Binary.ratio t d
    if yn = 0 then .undefined
    else
      let top : Int := if n = m then xn * yd else -(xn * yd : Nat)
      ((ofInt? (top.fdiv (xd * yn : Nat))).getD (.infinite (n ≠ m)))
  | .finite n s _, .infinite m => if s = 0 || n = m then .zero else one.negate
  | _, _ => .undefined

end Double

/-- A number of a value. What a machine type holds divides by zero without a fault. -/
structure Number where
  amount : Int ⊕ Double
  fromMachine : Bool

namespace Number

def ofInt (i : Int) : Number := ⟨.inl i, false⟩

def real (n : Number) : Result Double :=
  match n.amount with
  | .inl i => ((Double.ofInt? i).map .ok).getD (.fault .tooLarge)
  | .inr x => .ok x

def combine (whole : Int → Int → Int) (real : Double → Double → Double) (a b : Number) :
    Result Number :=
  match a.amount, b.amount with
  | .inl i, .inl j => .ok ⟨.inl (whole i j), a.fromMachine || b.fromMachine⟩
  | _, _ => do
    let x ← a.real
    return ⟨.inr (real x (← b.real)), a.fromMachine || b.fromMachine⟩

def add : Number → Number → Result Number := combine (· + ·) Double.add

def sub : Number → Number → Result Number := combine (· - ·) (Double.lift₂ (· - ·))

def mul : Number → Number → Result Number := combine (· * ·) (Double.lift₂ (· * ·))

def isZero (n : Number) : Bool := compareNumbers n.amount (.inl 0) = some .eq

/-- The quotient rounded down. -/
def floorDiv (a b : Number) : Result Number :=
  if !b.isZero then combine Int.fdiv Double.floorQuotient a b
  else if a.fromMachine || b.fromMachine then
    combine (fun _ _ => 0) (Double.lift₂ (· / ·)) a b
  else .fault .zeroStride

def below (a b : Number) : Bool := compareNumbers a.amount b.amount = some .lt

/-- The whole number next to it on the side of zero. -/
def truncated (n : Number) : Result Int :=
  match n.amount with
  | .inl i => .ok i
  | .inr x => Value.wholeNumber (.float x)

end Number

namespace Value

/-- A value as an operand; truth values count as 0 and 1. -/
def number (v : Value) : Result Number :=
  let plain (fromMachine : Bool) : Value → Result Number
    | .bool b => .ok ⟨.inl (if b then 1 else 0), fromMachine⟩
    | .int i => .ok ⟨.inl i, fromMachine⟩
    | .float x => .ok ⟨.inr x, fromMachine⟩
    | .undefined _ => .ok ⟨.inr .undefined, fromMachine⟩
    | _ => .fault .notNumber
  match v with
  | .scalar _ v | .array _ v => plain true v
  | v => plain false v

/-- A number as the whole number next to it on the side of zero. -/
def wholePart (v : Value) : Result Int := v.number >>= Number.truncated

def real (v : Value) : Result Double := v.number >>= Number.real

def sequence (v : Value) : Result (List Value) := ((v.items?).map .ok).getD (.fault .notIterable)

/-- The value at a place: of a sequence by position, of a dictionary by key. -/
def member (place : Nat) (v : Value) : Result Value :=
  match v, v.items? with
  | .dictionary entries, _ =>
    match entries.find? fun entry => sameKey entry.1 (.int place) with
    | some entry => .ok entry.2
    | none => .fault .emptySlot
  | .set _, _ => .fault .notIterable
  | .scalar _ _, none | .array _ _, none => .fault .noPlace
  | _, none => .fault .notIterable
  | _, some items => ((items[place]?).map .ok).getD (.fault .noPlace)

end Value
end TensorDag
