import TensorDag.Random.Seed
import TensorDag.Binary.Double

/-!
Streams of random numbers: a congruential state of 128 bits, of which each step yields 64 bits by
a rotation. A stream is a function of its seed alone.
-/
namespace TensorDag.Random

structure Stream where
  state : Nat
  increment : Nat
  deriving DecidableEq

namespace Stream

def modulus : Nat := 2 ^ 128

def step (s : Stream) : Stream :=
  { s with state := (s.state * 0x2360ED051FC65DA44385DF649FCCF645 + s.increment) % modulus }

/-- Four numbers of 64 bits as two of 128, the first one of each pair being the high half. -/
def start (a b c d : Nat) : Stream :=
  let increment := ((c * 2 ^ 64 + d) * 2 + 1) % modulus
  let first := step ⟨0, increment⟩
  step { first with state := (first.state + (a * 2 ^ 64 + b)) % modulus }

/-- Words in pairs as numbers of 64 bits, the low one first. -/
def paired : List UInt32 → List Nat
  | low :: high :: rest => (low.toNat + high.toNat * 2 ^ 32) :: paired rest
  | _ => []

/-- The stream of a seed, given by its words. -/
def ofWords (seed : List UInt32) : Stream :=
  let ns := paired ((Pool.ofWords seed).draw 8)
  start (ns.getD 0 0) (ns.getD 1 0) (ns.getD 2 0) (ns.getD 3 0)

def ofSeed (seed : Nat) : Stream := ofWords (seedWords seed)

/-- The next 64 bits: the halves of the state joined and rotated right by its top six bits. -/
def next (s : Stream) : Nat × Stream :=
  let s := s.step
  let joined := s.state / 2 ^ 64 ^^^ s.state % 2 ^ 64
  let turn := s.state / 2 ^ 122
  (joined / 2 ^ turn + joined * 2 ^ (64 - turn) % 2 ^ 64, s)

/-- The next sample of the half-open interval from above zero up to one: one less the top 53 bits as
a fraction. -/
def sample (s : Stream) : Double × Stream :=
  let (bits, s) := s.next
  (.ofWord (Binary.Format.double.round false (2 ^ 53 - bits / 2 ^ 11) (2 ^ 53)), s)

/-- The next `count` samples. -/
def samples : Nat → Stream → List Double × Stream
  | 0, s => ([], s)
  | count + 1, s =>
    let (first, s) := s.sample
    let (rest, s) := samples count s
    (first :: rest, s)

end Stream
end TensorDag.Random
