import TensorDag.Graph.Building

/-!
Named operations on nodes. The first part takes nodes and numbers, the second takes values as
callers give them, so that numbers can stand on either side of an operator.
-/
namespace TensorDag.Building
variable [Memory]

/-- One named value of a call. -/
def entry (name : String) (v : Value) : Value × Value := (.text name, v)

def binary (op : BinaryKind) (a b : Node) : Building Node := apply (.binary op) [a, b] []

def add : Node → Node → Building Node := binary .add
def sub : Node → Node → Building Node := binary .sub
def mul : Node → Node → Building Node := binary .mul
def div : Node → Node → Building Node := binary .div
def pow : Node → Node → Building Node := binary .pow
def eq : Node → Node → Building Node := binary .eq

def unary (op : UnaryKind) (x : Node) : Building Node := apply (.unary op) [x] []

def neg : Node → Building Node := unary .neg

def asNode (v : Value) : Building Node :=
  match v with
  | .node n => return n
  | _ => throw (.fault .noAttribute)

/-- A call of a kind on a first input that has to be a node. -/
def on (kind : Kind) (first : Value) (others : List Value) (entries : Entries) :
    Building Node := do
  let n ← asNode first
  call kind.name (.node n :: others) (.dictionary entries)

def sum (x : Node) (axes : List Int) : Building Node :=
  apply .sum [x] [entry "axes" (.ints axes)]

/-- The reshaped value of a node, the shape as callers give it. -/
def reshape (x shape : Value) : Building Node := on .reshape x [] [entry "shape" shape]

/-- Axes in reverse order where the order is null. -/
def transpose (x order : Value) : Building Node := on .transpose x [] [entry "order" order]

def slice (x start stop : Value) : Building Node :=
  on .slice x [] [entry "start" start, entry "stop" stop]

def pad (x before after : Value) : Building Node :=
  on .pad x [] [entry "before" before, entry "after" after]

def broadcast (x : Node) (shape : Shape) : Building Node :=
  apply .broadcast [x] [entry "shape" (.dims shape)]

/-- Margins and steps of a convolution, as callers give them. -/
structure Window where
  padding : Value
  stride : Value

def Window.entries (w : Window) : Entries := [entry "padding" w.padding, entry "stride" w.stride]

def convolution (features filters : Value) (w : Window) : Building Node :=
  on .convolution features [filters] w.entries

def featuresGradient (gradient filters shape : Value) (w : Window) : Building Node :=
  on .featuresGradient gradient [filters] (entry "features_shape" shape :: w.entries)

def filtersGradient (gradient features shape : Value) (w : Window) : Building Node :=
  on .filtersGradient gradient [features] (entry "filters_shape" shape :: w.entries)

def maxpoolGradient (gradient : Value) (pooled features : Node) (dims : Value) : Building Node :=
  on .maxpoolGradient gradient [.node pooled, .node features] [entry "dims" dims]

def softmaxGradient (gradient : Value) (output : Node) : Building Node :=
  on .softmaxGradient gradient [.node output] []

/-- A node, or a constant for a value beside a node. -/
def lifted (beside : Node) (v : Value) : Building Value :=
  match v with
  | .node _ => return v
  | v => return .node (← lift beside v)

/-- An elementwise operation of which one operand is a node; the other may be any data. -/
def elementwise (op : BinaryKind) (a b : Value) : Building Node := do
  let beside ← match a, b with
    | .node n, _ => pure n
    | _, .node n => pure n
    | _, _ => throw (.noOperand op.name)
  let a ← lifted beside a
  let b ← lifted beside b
  call op.name [a, b] .null

/-- The number beside a node in an operator. In front of the node, and where it is a truth value,
a number of a machine type counts as a plain one. -/
def operand? (inFront : Bool) : Value → Option Value
  | .scalar type (.int i) => some (if inFront then .int i else .scalar type (.int i))
  | .scalar type (.float x) => some (if inFront then .float x else .scalar type (.float x))
  | .scalar _ (.bool b) => some (.bool b)
  | .bool b => some (.bool b)
  | .int i => some (.int i)
  | .float x => some (.float x)
  | .undefined object => some (.undefined object)
  | _ => none

/-- An operator between nodes and numbers. -/
def single (op : BinaryKind) (a b : Value) : Building Node :=
  match a, b with
  | .node _, .node _ => call op.name [a, b] .null
  | .node n, v =>
    match operand? false v with
    | some number => do call op.name [a, .node (← lift n number)] .null
    | none => throw (.fault .notNumber)
  | v, .node n =>
    match operand? true v with
    | some number => do call op.name [.node (← lift n number), b] .null
    | none => throw (.fault .notNumber)
  | _, _ => throw (.fault .notNumber)

/-- The node made from the only cell of an array without axes. An array with axes makes nodes too,
but together they are none. -/
def overCells (content : Value) (make : Value → Building Node) : Building Node :=
  match content with
  | .list _ => do
    (Value.leaves content).forM fun v => do let _ ← make v
    throw (.fault .noAttribute)
  | v => make v

/-- An operator between nodes, numbers and arrays. -/
def operator (op : BinaryKind) (a b : Value) : Building Node :=
  match a, b with
  | .node _, .array _ content => overCells content fun v => single op a v
  | .array _ content, .node _ => overCells content fun v => single op v b
  | _, _ => single op a b

/-- Unary minus, which gives a node of a node only. -/
def negative (v : Value) : Building Node :=
  match v with
  | .node n => neg n
  | .bool _ | .int _ | .float _ | .undefined _ => throw (.fault .noAttribute)
  | .scalar type _ | .array type _ =>
    throw (.fault (if type = .truth || type.isText then .notNumber else .noAttribute))
  | _ => throw (.fault .notNumber)

/-- The matrix product as an operator, which takes no numbers. -/
def matrixOperator (a b : Value) : Building Node :=
  match a, b with
  | .node _, .node _ => call Kind.matmul.name [a, b] .null
  | .node _, .array _ _ | .array _ _, .node _ => throw (.fault .doesNotStretch)
  | _, _ => throw (.fault .notNumber)

/-- A chain of nodes of one input each, the kinds taken in turn. -/
def chain (kinds : List String) (count : Nat) (x : Node) : Building Node :=
  (List.range count).foldlM
    (fun n i =>
      match kinds[i % kinds.length]? with
      | some kind => call kind [.node n] .null
      | none => throw (.fault .zeroStride)) x

/-- Samples of a stream given by its seed. -/
def uniform (shape seed : Value) : Building Node :=
  match shape.items? with
  | none => throw (.fault .notIterable)
  | some items =>
    call Kind.uniform.name [] (.dictionary [entry "shape" (.tuple items), entry "seed" seed])

/-- The transposed convolution: the gradient of a convolution to features of the shape that the
arithmetic of convolutions gives back. -/
def convolutionTranspose (features filters padding stride : Value) : Building Node := do
  let name := "convolution_transpose"
  let padding ← of (padding.pair name "padding" 0)
  let stride ← of (stride.pair name "stride" 1)
  let x ← asNode features
  match x.shape.map Int.ofNat with
  | [batch, _, height, width] =>
    let kernel ← asNode filters
    match kernel.shape.map Int.ofNat with
    | [_, channels, rows, columns] =>
      featuresGradient (.node x) (.node kernel)
        (.ints [batch, channels, (height - 1) * stride.1 - 2 * padding.1 + rows,
          (width - 1) * stride.2 - 2 * padding.2 + columns]) ⟨.ofPair padding, .ofPair stride⟩
    | _ => throw (.shape (.transposedRank features filters))
  | _ => throw (.shape (.transposedRank features filters))

end TensorDag.Building
