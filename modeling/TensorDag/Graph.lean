import TensorDag.Memory
import TensorDag.Operator.Typing
import TensorDag.Basic
import TensorDag.Value.Cells
import TensorDag.Value.Types

/-!
Operation graphs. A graph is an arena of nodes with a memo: constants are found again by type and
content, interior nodes by kind, inputs and parameters, so that what is built twice is built once.
Shape rules decide which interior nodes there can be. Variables and placeholders are always new.
-/
namespace TensorDag

/-- How a kind treats a call: which parameters the node gets, and which type. -/
structure ShapeRule where
  normalize : List TensorType → Entries → Result Params
  infer : List TensorType → Params → Result TensorType

def Kind.rule (kind : Kind) : ShapeRule := ⟨kind.normalize, kind.infer⟩

/-- Shape rules by kind. -/
abbrev ShapeRules := List (String × ShapeRule)

/-- Put an entry under its name: in place of an equal name's entry, else behind all. -/
def putNamed {α : Type} (name : String) (value : α) : List (String × α) → List (String × α)
  | [] => [(name, value)]
  | head :: rest =>
    if head.1 = name then (name, value) :: rest else head :: putNamed name value rest

theorem lookup_putNamed {α : Type} (name other : String) (value : α) (entries : List (String × α)) :
    (putNamed name value entries).lookup other =
      if other = name then some value else entries.lookup other := by
  induction entries with
  | nil =>
    by_cases same : other = name
    · simp [putNamed, same]
    · have differ : (other == name) = false := by simpa using same
      simp [putNamed, List.lookup_cons, same, differ]
  | cons head rest ih =>
    obtain ⟨key, old⟩ := head
    by_cases same : key = name
    · subst same
      by_cases equal : other = key
      · simp [putNamed, equal]
      · have differ : (other == key) = false := by simpa using equal
        simp [putNamed, List.lookup_cons, equal, differ]
    · by_cases equal : other = key
      · subst equal; simp [putNamed, same]
      · have differ : (other == key) = false := by simpa using equal
        simp [putNamed, List.lookup_cons, same, differ, ih]

namespace ShapeRules

/-- The rules of the kinds that come with the library. -/
def standard : ShapeRules := Kind.all.map fun kind => (kind.name, kind.rule)

def find (rules : ShapeRules) (kind : String) : Result ShapeRule :=
  match rules.lookup kind with
  | some rule => .ok rule
  | none => .error (.unknownKind kind)

def register (rules : ShapeRules) (kind : String) (rule : ShapeRule) : Result ShapeRules :=
  if leafKinds.contains kind then .error (.reservedKind kind)
  else .ok (putNamed kind rule rules)

def kinds (rules : ShapeRules) : List String := (rules.map Prod.fst).mergeSort

end ShapeRules

/-- What a node is found by. -/
inductive MemoKey
  | constant (type : TensorType) (bytes : Bytes)
  | interior (kind : String) (inputs : List Nat) (params : Params)
  /-- The key of the node at an index for which an undefined number was made: it equals no other. -/
  | unmatched (kind : String) (inputs : List Nat) (params : Params) (index : Nat)
  deriving DecidableEq

structure Graph where
  id : Nat
  name : Value
  nodes : Array Node
  memo : List (MemoKey × Node)

namespace Graph

def empty (id : Nat) (name : Value) : Graph := ⟨id, name, #[], []⟩

def size (g : Graph) : Nat := g.nodes.size

def text (g : Graph) : String :=
  "Graph(name=" ++ g.name.shown ++ ", nodes=" ++ toString g.size ++ ")"

/-- The node at a place counted from the front or, negative, from the end. -/
def node (g : Graph) (place : Int) : Result Node :=
  match (place? g.size place).bind (g.nodes[·]?) with
  | some n => .ok n
  | none => .fault .noPlace

def find? (g : Graph) (key : MemoKey) : Option Node := g.memo.lookup key

def append (g : Graph) (kind : String) (inputs : List Node) (params : Params) (type : TensorType)
    (buffer : Option BufferId) : Node × Graph :=
  let n : Node := ⟨⟨g.id, g.size⟩, kind, inputs, params, type, buffer⟩
  (n, { g with nodes := g.nodes.push n })

/-- Let a key stand for a node from now on. -/
def remember (g : Graph) (key : MemoKey) (n : Node) : Graph :=
  { g with memo := (key, n) :: g.memo }

/-- The key by which a call finds a node; `none` where an undefined number was made for the call. -/
def key? (kind : String) (inputs : List Node) (params : Params) : Option MemoKey :=
  params.key?.map fun key => .interior kind (inputs.map (·.id.index)) key

def keyOf (n : Node) : MemoKey :=
  (key? n.kind n.inputs n.params).getD
    (.unmatched n.kind (n.inputs.map (·.id.index)) n.params n.id.index)

/-- The node of a kind with given inputs and parameters: the one found by its key, or a new one of
the type that the rule infers, which its key stands for from now on. -/
def intern (g : Graph) (rule : ShapeRule) (kind : String) (inputs : List Node) (params : Params) :
    Result (Node × Graph) :=
  match (key? kind inputs params).bind g.find? with
  | some n => .ok (n, g)
  | none => do
    let type ← rule.infer (inputs.map Node.type) params
    let (n, g) := g.append kind inputs params type none
    return (n, g.remember (keyOf n) n)

/-- The inputs of a call, all of them nodes of this graph. -/
def ownNodes (g : Graph) (kind : String) : List Value → Result (List Node)
  | [] => .ok []
  | .node n :: rest =>
    if n.id.graph = g.id then do return n :: (← ownNodes g kind rest)
    else .error (.foreignNode n.name)
  | v :: _ => .error (.inputNotNode kind v.typeName)

/-- The node that a call of a kind with some inputs and entries means. -/
def apply (g : Graph) (rules : ShapeRules) (kind : String) (inputs : List Value)
    (entries : Result Entries) : Result (Node × Graph) := do
  let rule ← rules.find kind
  let nodes ← g.ownNodes kind inputs
  let params ← rule.normalize (nodes.map Node.type) (← entries)
  g.intern rule kind nodes params

end Graph

/-- A pair of a key and a value. -/
def Value.entry (v : Value) : Result (Value × Value) :=
  match v.items? with
  | none => .fault .notIterable
  | some [key, value] => .ok (key, value)
  | some _ => .fault .wrongCount

/-- Null, zero, or what is empty; of arrays only those that hold one number are or are not. -/
def Value.isAbsent : Value → Result Bool
  | .array _ content =>
    match leaves content with
    | [v] => .ok v.isNothing
    | _ => .fault .wrongCount
  | v => .ok v.isNothing

/-- The entries of a mapping: a dictionary, a sequence of pairs, or what stands for nothing. -/
def Value.entries (v : Value) : Result Entries :=
  match v with
  | .dictionary entries => .ok entries
  | v => do
    if ← v.isAbsent then return []
    else match v.items? with
      | none => .fault .notIterable
      | some items => mapping (← items.mapM Value.entry)

/-- The bytes of a leaf of a given type: zeros where no data is given. -/
def leafBytes [Memory] (type : TensorType) : Value → Result Bytes
  | .null => Bytes.cleared type.byteSize
  | .buffer _ content =>
    if content.size = type.byteSize then .ok content.bytes
    else .error (.leafBuffer type content.size)
  | .bytes bs =>
    if bs.size = type.byteSize then .ok bs else .error (.leafBytes type bs.size)
  | v => do
    let words ← v.words type.elementType
    if words.length = type.volume then return Bytes.ofWords words
    else .shape (.elementCount type words.length)

end TensorDag
