import TensorDag.Basic

/-!
Seeds spread over words: a pool of four words mixes all words of a seed, and any number of words is
drawn from the pool.
-/
namespace TensorDag.Random

/-- The words of a seed, the lowest first; zero has one word. -/
def seedWords (seed : Nat) : List UInt32 :=
  if _ : seed < 2 ^ 32 then [UInt32.ofNat seed]
  else UInt32.ofNat seed :: seedWords (seed / 2 ^ 32)

/-- Fold the high half of a word into the low one. -/
def spread (v : UInt32) : UInt32 := v ^^^ (v >>> 16)

/-- Hash a word under a multiplier that changes with every use. -/
def hash (factor multiplier v : UInt32) : UInt32 × UInt32 :=
  let next := multiplier * factor
  (spread ((v ^^^ multiplier) * next), next)

def mix (x y : UInt32) : UInt32 := spread (0xca01f9dd * x - 0x4973f715 * y)

structure Pool where
  words : List UInt32
  multiplier : UInt32

namespace Pool

def hash (p : Pool) (v : UInt32) : UInt32 × UInt32 := Random.hash 0x931e8875 p.multiplier v

def push (p : Pool) (v : UInt32) : Pool :=
  let (hashed, multiplier) := p.hash v
  ⟨p.words ++ [hashed], multiplier⟩

def stir (p : Pool) (place : Nat) (v : UInt32) : Pool :=
  let (hashed, multiplier) := p.hash v
  ⟨p.words.set place (mix (p.words.getD place 0) hashed), multiplier⟩

/-- The pool of some words: four words, each mixed with every other, then with the words past four. -/
def ofWords (words : List UInt32) : Pool :=
  let filled := (List.range 4).foldl (fun p i => p.push (words.getD i 0)) ⟨[], 0x43b0d7e5⟩
  let crossed := (List.range 4).foldl (fun p source =>
    (List.range 4).foldl (fun p place =>
      if source = place then p else p.stir place (p.words.getD source 0)) p) filled
  (words.drop 4).foldl (fun p word =>
    (List.range 4).foldl (fun p place => p.stir place word) p) crossed

/-- Words drawn from the pool, one for each of the places `places`. -/
def drawFrom (p : Pool) : UInt32 → List Nat → List UInt32
  | _, [] => []
  | multiplier, place :: rest =>
    let (hashed, next) := Random.hash 0x58f38ded multiplier (p.words.getD (place % 4) 0)
    hashed :: drawFrom p next rest

def draw (p : Pool) (count : Nat) : List UInt32 := p.drawFrom 0x8b51f9dd (List.range count)

end Pool
end TensorDag.Random
