import ControlNode.Device.Basic

/-!
# Building devices

Devices of configured ports are built from settings by the name of their kind. Software ports
that are made at run time have a stored definition.
-/

namespace ControlNode

/-! ### Settings -/

/-- Reads a port type: its name, or an object that holds nothing but the name. -/
def PortType.ofJson? : Json → Option PortType
  | .str s => PortType.ofText? s
  | .obj [(name, .null)] => PortType.ofText? name
  | _ => none

/-- Reads a switch that is off where it is missing. -/
def switchOfJson? : Option Json → Option Bool
  | none => some false
  | some (.bool b) => some b
  | some _ => none

/-- Reads a number that may be missing or null. -/
def numberOfJson? : Option Json → Option (Option Float)
  | none => some none
  | some .null => some none
  | some j => j.asFloat?.map some

inductive SettingsError where
  | malformed
  | invalidInitialValue (value : Json)

def SettingsError.message : SettingsError → String
  | .malformed => "malformed settings"
  | .invalidInitialValue value => "invalid initial value: " ++ value.compact

abbrev Settings := Dict String Json

/-- A memory device; without a type it is a boolean one. -/
def MemoryDevice.ofSettings (s : Settings) : Except SettingsError MemoryDevice :=
  let type := match s.get? "type" with
    | none => some PortType.boolean
    | some j => PortType.ofJson? j
  match type, switchOfJson? (s.get? "writable"), switchOfJson? (s.get? "integer") with
  | some type, some writable, some integer =>
    let d : MemoryDevice := { type := type, writable := writable, integer := integer }
    match s.get? "value" with
    | none => .ok d
    | some .null => .ok d
    | some j => match Value.ofJson? j with
      | some v => .ok { d with value := some v }
      | none => .error (.invalidInitialValue j)
  | _, _, _ => .error .malformed

def SoftwareDevice.ofSettings (s : Settings) : Except SettingsError SoftwareDevice :=
  match (s.get? "type").bind PortType.ofJson?, switchOfJson? (s.get? "integer") with
  | some type, some integer => .ok { type := type, integer := integer }
  | _, _ => .error .malformed

/-! ### Kinds by name -/

namespace Device

/-- How a device is built from settings. -/
abbrev Factory := Settings → Except SettingsError Device

abbrev Registry := Dict String Factory

/-- The kinds that configured ports may have. -/
def builtIn : Registry :=
  [("dummy", fun s => (MemoryDevice.ofSettings s).map .memory),
    ("virtual", fun s => (SoftwareDevice.ofSettings s).map .software)]

inductive BuildError where
  | unknownDriver (name : String)
  | settings (cause : SettingsError)

def Registry.build (r : Registry) (name : String) (s : Settings) : Except BuildError Device :=
  match Dict.get? r name with
  | none => .error (.unknownDriver name)
  | some make => match make s with
    | .ok d => .ok d
    | .error e => .error (.settings e)

end Device

/-! ### Stored definitions -/

structure VirtualPortDef where
  id : String
  type : PortType
  limits : NumberLimits := {}
  choices : Option (List Choice) := none

namespace VirtualPortDef

def attrs (d : VirtualPortDef) : Record :=
  let field (name : String) (value : Option Json) : List (String × Json) :=
    match value with
    | some j => [(name, j)]
    | none => []
  Dict.ofList (
    field "min" (d.limits.min.map .ofFloat) ++ field "max" (d.limits.max.map .ofFloat) ++
    field "step" (d.limits.step.map .ofFloat) ++ [("integer", .bool d.limits.integer)] ++
    field "choices" (d.choices.map Choice.listToJson))

def toRecord (d : VirtualPortDef) : Record :=
  Dict.insert (Dict.insert d.attrs "type" (.str d.type.text)) "id" (.str d.id)

def ofRecord? (r : Record) : Option VirtualPortDef := do
  let id ← (Dict.get? r "id").bind Json.asStr?
  let type ← (Dict.get? r "type").bind PortType.ofJson?
  let min ← numberOfJson? (Dict.get? r "min")
  let max ← numberOfJson? (Dict.get? r "max")
  let integer ← switchOfJson? (Dict.get? r "integer")
  let step ← numberOfJson? (Dict.get? r "step")
  let choices ← match Dict.get? r "choices" with
    | none => some none
    | some .null => some none
    | some j => (Choice.listOfJson? j).map some
  some ⟨id, type, ⟨min, max, integer, step⟩, choices⟩

def device (d : VirtualPortDef) : Device :=
  .software { type := d.type, integer := d.limits.integer }

end VirtualPortDef

end ControlNode
