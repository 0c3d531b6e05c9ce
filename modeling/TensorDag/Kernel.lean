import TensorDag.Settings
import TensorDag.Graph
import TensorDag.Operator.Application
import TensorDag.Operator.Demands
import TensorDag.Param.Seed
import TensorDag.Random.Stream

/-!
Kernels compute the bytes of a node from the bytes of its inputs. `Kind.value` is what the host
computes at a node; `Kernel.run` also minds the buffer that the result goes to. Only the kernel of
`uniform` has a state: the stream of each node, which every run moves on.
-/
namespace TensorDag
variable [Memory]

inductive Kernel
  /-- The host's kernel of a kind. -/
  | host (kind : Kind)
  /-- A kernel of a caller, which may leave its output as it is. -/
  | custom (name : String) (run : Node → List Bytes → Result (Option Bytes))

/-- Kernels by kind and device. -/
abbrev Kernels := List ((String × Device) × Kernel)

namespace Kernels

/-- The host's kernels of the kinds that come with the library. -/
def standard : Kernels := Kind.all.map fun kind => ((kind.name, .host), .host kind)

def erase (kernels : Kernels) (kind : String) (device : Device) : Kernels :=
  kernels.filter fun entry => entry.1 ≠ (kind, device)

def register (kernels : Kernels) (kind : String) (device : Device) (kernel : Kernel) : Kernels :=
  ((kind, device), kernel) :: kernels.erase kind device

def find (kernels : Kernels) (kind : String) (device : Device) : Result Kernel :=
  match kernels.lookup (kind, device) with
  | some kernel => .ok kernel
  | none => .error (.noKernel device.name kind)

def supports (kernels : Kernels) (kind : String) (device : Device) : Bool :=
  (kernels.lookup (kind, device)).isSome

/-- The kinds with a kernel on a device, or on any. -/
def kinds (kernels : Kernels) : Option Device → List String
  | some device =>
    ((kernels.filter fun entry => entry.1.2 = device).map (·.1.1)).mergeSort
  | none => (kernels.map (·.1.1)).eraseDups.mergeSort

end Kernels

/-- The argument at a place: the bytes given there as a tensor of the type of the input there. -/
def argument {α : Type} [Element α] (inputs : List Node) (args : List Bytes) (place : Nat) :
    Result (Tensor α) :=
  match args[place]?, inputs[place]? with
  | some bytes, some input =>
    if bytes.size ≠ input.byteSize then .error (.sizeMismatch bytes.size input.byteSize)
    else if input.shape.holdable then
      .ok ((Tensor.ofBytes input.shape bytes).map (Element.ofWord input.elementType))
    else .fault .notAddressable
  | _, _ => .fault .noPlace

/-- A way of running operators at a node, where all that they ask for on their way can be had. -/
def Operator.runAt {α : Type} (n : Node)
    (run : Operator → Shape → (Nat → Result (Tensor α)) → Result Computed) (op : Operator)
    (shape : Shape) (arg : Nat → Result (Tensor α)) : Result Computed := do
  let c ← run op shape arg
  op.afford (n.inputs.map Node.type) (c n.elementType).shape
  return c

namespace Kind

/-- What a way of running operators computes at a node from given arguments. -/
def computedWith {α : Type} (kind : Kind) (n : Node) (arg : Nat → Result (Tensor α))
    (run : Operator → Shape → (Nat → Result (Tensor α)) → Result Computed) : Result Computed :=
  let applied : Result Computed := do
    let a ← kind.application n.params n.shape arg
    let c ← run a.operator n.shape a.argument
    return fun e => (c e).flip a.turned
  match Operator.ofParams kind n.params with
  | .ok op => if op.fits (n.inputs.map Node.type) n.type then run op n.shape arg else applied
  | .error _ => applied

/-- What the host's kernel of a kind computes at a node; elements of different types meet in
doubles. -/
def computed (kind : Kind) (n : Node) (args : List Bytes) : Result Computed :=
  match kind.elementType? (n.inputs.map Node.type) with
  | some .int32 =>
    kind.computedWith n (argument n.inputs args : Nat → Result (Tensor Int32))
      (Operator.runAt n Operator.computeWhole)
  | some .float32 =>
    kind.computedWith n (argument n.inputs args : Nat → Result (Tensor Single))
      (Operator.runAt n Operator.compute)
  | none =>
    kind.computedWith n (argument n.inputs args : Nat → Result (Tensor Double))
      (Operator.runAt n Operator.compute)

/-- The bytes that the host's kernel of a kind gives a node. -/
def value (kind : Kind) (n : Node) (args : List Bytes) : Result Bytes := do
  (← kind.computed n args).store n.type

end Kind

def sampled (shape : Shape) (samples : List Double) : Computed :=
  .of (Tensor.ofCells shape samples.toArray .zero)

/-- Streams of the nodes that have drawn samples. -/
abbrev Streams := List (NodeId × Random.Stream)

namespace Streams

/-- The stream of a node: where its last run left it, or the start that its seed gives. -/
def find (streams : Streams) (n : Node) : Result Random.Stream :=
  match streams.lookup n.id with
  | some stream => .ok stream
  | none => do return .ofWords (← (← n.params.get "seed").seed)

def put (streams : Streams) (n : Node) (stream : Random.Stream) : Streams :=
  (n.id, stream) :: streams.filter fun entry => entry.1 ≠ n.id

/-- The next samples of a node, which are doubles. -/
def draw (streams : Streams) (n : Node) : Result (Computed × Streams) := do
  let stream ← streams.find n
  n.shape.room 8
  let (samples, stream) := stream.samples n.type.volume
  return (sampled n.shape samples, streams.put n stream)

end Streams

/-- Bytes of some size for a buffer, which has to be writable and of that size. -/
def Buffer.accept (output : Buffer) (size : Nat) (bytes : Result Bytes) : Result Bytes :=
  if output.size ≠ size then .error (.sizeMismatch output.size size)
  else if output.readonly then .fault .writeProtected
  else bytes

/-- The bytes that a computed tensor becomes in a buffer of its type. -/
def Computed.storeIn (c : Computed) (type : TensorType) (output : Buffer) : Result Bytes :=
  output.accept type.byteSize
    (if type.shape.holdable then c.store type else .fault .notAddressable)

/-- The new content of the output buffer of a node; `none` leaves it as it is. Samples are drawn
from the node's stream whether or not they can be stored. -/
def Kernel.run (kernel : Kernel) (n : Node) (args : List Bytes) (output : Buffer)
    (streams : Streams) : Result (Option Bytes) × Streams :=
  match kernel with
  | .custom _ run =>
    (run n args >>= fun written =>
      match written with
      | some bytes => (output.accept bytes.size (.ok bytes)).map some
      | none => .ok none, streams)
  | .host .uniform =>
    match streams.draw n with
    | .error e => (.error e, streams)
    | .ok (c, later) => ((c.storeIn n.type output).map some, later)
  | .host kind =>
    ((kind.computed n args >>= fun c => c.storeIn n.type output).map some, streams)

end TensorDag
