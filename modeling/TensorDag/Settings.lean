import TensorDag.Error
import TensorDag.Text.Blank

/-!
Devices that kernels run on, and settings that hold for all graphs and plans.
-/
namespace TensorDag

inductive Device
  | host
  | accelerator
  deriving DecidableEq

namespace Device

def name : Device → String
  | .host => "host"
  | .accelerator => "accelerator"

/-- The device that a value names, in letters of either case. -/
def ofValue (v : Value) : Result Device :=
  let name := Text.lower v.plain
  if name = host.name then .ok .host
  else if name = accelerator.name then .ok .accelerator
  else .error (.unknownDevice v)

end Device

structure Settings where
  /-- Validate every plan that is compiled, unless this is nothing. -/
  debug : Value
  /-- The device of nodes for which none is given. -/
  defaultDevice : Value
  /-- The device that kernels of the accelerator use; none is chosen by default. -/
  acceleratorDevice : Option String
  /-- Count the runs of kernels, unless this is nothing. -/
  profile : Value

namespace Settings

/-- Words that switch a setting on. -/
def affirmative : List String := ["1", "true", "yes", "on"]

/-- Whether a text, blanks around it and case aside, switches a setting on. -/
def isOn (s : String) : Bool :=
  affirmative.contains (Text.lower (String.ofList (Text.trim s.toList)))

def validates (s : Settings) : Bool := !s.debug.isNothing

def counts (s : Settings) : Bool := !s.profile.isNothing

/-- The settings that the texts of an environment give, where it has them. -/
def ofEnvironment (debug device accelerator : Option String) : Settings where
  debug := .bool ((debug.map isOn).getD false)
  defaultDevice := .text (device.getD Device.host.name)
  acceleratorDevice := accelerator.filter (· ≠ "")
  profile := .bool true

def standard : Settings := ofEnvironment none none none

/-- The texts of an environment by name; it has nothing but texts. -/
def environment : List (Value × Value) → Result (List (String × String))
  | [] => .ok []
  | (.text name, .text s) :: rest => do return (name, s) :: (← environment rest)
  | _ :: _ => .fault .notMapping

def ofEntries (entries : List (Value × Value)) : Result Settings := do
  let texts ← environment entries
  return ofEnvironment (texts.lookup "TINY_OPGRAPH_DEBUG") (texts.lookup "TINY_OPGRAPH_DEVICE")
    (texts.lookup "TINY_OPGRAPH_TORCH_DEVICE")

end Settings
end TensorDag
