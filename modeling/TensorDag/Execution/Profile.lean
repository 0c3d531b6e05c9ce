import TensorDag.Graph

/-!
Profiles: what executions of a plan used and how often kernels ran. Times are milliseconds.
-/
namespace TensorDag

structure Profile where
  /-- The most bytes that were ever held. -/
  peak : Int
  executions : Nat
  /-- Runs of kernels, by kind. -/
  calls : List (String × Nat)
  /-- Times by name. -/
  events : List (String × Double)

namespace Profile

def empty : Profile := ⟨0, 0, [], []⟩

def recordMemory (p : Profile) (bytes : Int) : Profile := { p with peak := max p.peak bytes }

def recordExecution (p : Profile) : Profile := { p with executions := p.executions + 1 }

def recordEvent (p : Profile) (name : String) (time : Double) : Profile :=
  { p with events := putNamed name (((p.events.lookup name).getD .zero).add time) p.events }

def countCall (p : Profile) (kind : String) : Profile :=
  { p with calls := putNamed kind ((p.calls.lookup kind).getD 0 + 1) p.calls }

/-- Count a run of a kernel and add to the time of its kind. -/
def recordKernel (p : Profile) (kind : String) (time : Double) : Profile :=
  (p.countCall kind).recordEvent kind time

/-- All times together, added up in order from zero. -/
def totalTime (p : Profile) : Double := p.events.foldl (fun sum event => sum.add event.2) .zero

end Profile
end TensorDag
