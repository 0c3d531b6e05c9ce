import TensorDag.Operator.Typing
import TensorDag.Value.Arithmetic

/-!
Shapes of results asked for directly, from dimensions as callers give them. The rules are those of
the operators, but nothing is known of these dimensions: what is no number is refused where the
first sum needs it, in the order in which the sums are taken.
-/
namespace TensorDag.Value

/-- The dimensions that a value gives to a shape, a single whole number being one. Truth values are
none. -/
def extents (v : Value) : Result (List Int) :=
  let whole? : Value → Option Int
    | .bool _ => none
    | v => v.index?
  match whole? v, v with
  | some i, _ => .ok [i]
  | none, .dictionary _ | none, .set _ => .fault .notIterable
  | none, v => do (← v.sequence).mapM fun item => ((whole? item).map .ok).getD (.fault .notNumber)

/-- The shape that some dimensions are, or why a message names both shapes. -/
def extentShape (refusal : Result Shape) (dims : List Int) : Result Shape :=
  if dims.all (0 ≤ ·) && Shape.addressable (dims.map Int.toNat) then .ok (dims.map Int.toNat)
  else refusal

/-- The shape to which two shapes stretch. The second is looked at once the first is one. -/
def broadcastShape (a b : Value) : Result (List Int) := do
  let refusal : Result Shape := do .shape (.incompatible (← a.sequence) (← b.sequence))
  let left ← extentShape refusal (← a.extents)
  let right ← extentShape refusal (← b.extents)
  if max left.length right.length ≤ Shape.maxStretched then
    match Shape.broadcast? left right with
    | some s => return s.map Int.ofNat
    | none => return (← refusal).map Int.ofNat
  else .fault .tooManyAxes

/-- Along one axis the size with its margins, and how often a window fits in by strides. -/
def slid (padding stride : Value) (place : Nat) (size window : Value) : Result (Number × Number) := do
  let margin ← (Number.ofInt 2).mul (← (← padding.member place).number)
  let padded ← (← size.number).add margin
  let room ← padded.sub (← window.number)
  return (padded, ← (← room.floorDiv (← (← stride.member place).number)).add (.ofInt 1))

/-- The shape of a convolution. -/
def convolutionShape (features filters padding stride : Value) : Result (List Int) := do
  let featureDims ← features.sequence
  let filterDims ← filters.sequence
  match featureDims, filterDims with
  | [batch, channels, height, width], [outputs, inputs, rows, columns] =>
    if channels matches .undefined _ || !sameKey channels inputs then .shape (.channels channels inputs)
    else
      let (tall, outHeight) ← slid padding stride 0 height rows
      let (wide, outWidth) ← slid padding stride 1 width columns
      if tall.below (← rows.number) || wide.below (← columns.number) ||
          outHeight.below (.ofInt 1) || outWidth.below (.ofInt 1) then
        .shape (.filtersDoNotFit filterDims featureDims padding)
      else
        return [← batch.truncated, ← outputs.truncated, ← outHeight.truncated, ← outWidth.truncated]
  | _, _ => .shape (.convolutionRank featureDims filterDims)

/-- The shape of pooled features. -/
def poolShape (features dims : Value) : Result (List Int) := do
  let featureDims ← features.sequence
  match featureDims with
  | [batch, channels, height, width] =>
    let divided (size : Value) (place : Nat) : Result Number := do
      let window ← dims.member place
      (← size.number).floorDiv (← window.number)
    let outHeight ← divided height 0
    let outWidth ← divided width 1
    if outHeight.below (.ofInt 1) || outWidth.below (.ofInt 1) then
      .shape (.poolWindow dims featureDims)
    else
      return [← batch.truncated, ← channels.truncated, ← outHeight.truncated, ← outWidth.truncated]
  | _ => .shape (.poolRank featureDims)

end TensorDag.Value
