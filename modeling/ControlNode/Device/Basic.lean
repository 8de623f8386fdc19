import ControlNode.Port.Error

/-!
# Devices

The far end of a port: it is read and written in raw values, hears that its port is enabled or
disabled and of each passing second, and may have attributes of its own. Some devices hold a
value in memory, some are made of software only, some follow a script.
-/

namespace ControlNode

/-! ### Kinds of device -/

/-- A device that holds a value in memory; its reads can be made to fail. -/
structure MemoryDevice where
  type : PortType
  writable : Bool := false
  integer : Bool := false
  value : Option Value := none
  failReads : Bool := false
  /-- The values written so far, the last one first. -/
  written : List Value := []
  deriving Repr

/-- A device made of software only: it reads back what was written last. -/
structure SoftwareDevice where
  type : PortType
  integer : Bool := false
  value : Option Value := none
  deriving Repr

inductive DeviceCall where
  | read
  | write
  | enable
  | disable
  deriving Repr, DecidableEq

/-- A device that counts what is asked of it, takes its time for writes and fails when it is
told to. -/
structure ScriptedDevice where
  type : PortType
  writable : Bool := false
  integer : Bool := false
  value : Option Value := none
  attrDefs : List AttrDef := []
  attrs : Dict String Json := []
  /-- How long a write takes, in milliseconds. -/
  writeTime : Nat := 0
  /-- How operations fail, for those that do. -/
  failures : List (DeviceCall × PortError) := []
  reads : Nat := 0
  enables : Nat := 0
  disables : Nat := 0
  beats : Nat := 0
  /-- The values written so far, the last one first. -/
  written : List Value := []

namespace ScriptedDevice

/-- How a scripted operation fails, if it does. -/
def failure? (d : ScriptedDevice) (call : DeviceCall) : Option PortError :=
  (d.failures.find? fun e => e.1 = call).map Prod.snd

def outcome (d : ScriptedDevice) (call : DeviceCall) : Except PortError Unit :=
  match d.failure? call with
  | some e => .error e
  | none => .ok ()

end ScriptedDevice

inductive Device where
  | memory (d : MemoryDevice)
  | software (d : SoftwareDevice)
  | scripted (d : ScriptedDevice)
  /-- A number that always reads one. -/
  | unit

namespace Device

/-! ### What a device is -/

def driverName : Device → String
  | .memory _ => "dummy"
  | .software _ => "virtual"
  | .scripted _ => "probe"
  | .unit => "minimal"

def type : Device → PortType
  | .memory d => d.type
  | .software d => d.type
  | .scripted d => d.type
  | .unit => .number

def writable : Device → Bool
  | .memory d => d.writable
  | .software _ => true
  | .scripted d => d.writable
  | .unit => false

/-- Whether the values of a number port are whole. -/
def integer : Device → Bool
  | .memory d => d.integer
  | .software d => d.integer
  | .scripted d => d.integer
  | .unit => false

def value : Device → Option Value
  | .memory d => d.value
  | .software d => d.value
  | .scripted d => d.value
  | .unit => some (.num 1)

/-! ### Operations -/

def held (v : Option Value) : Except PortError Value :=
  match v with
  | some v => .ok v
  | none => .error .skipRead

def read (d : Device) : Except PortError Value × Device :=
  match d with
  | .memory m => (if m.failReads then .error (.read "simulated failure") else held m.value, d)
  | .software s => (held s.value, d)
  | .scripted s =>
    ((match s.failure? .read with
      | some e => .error e
      | none => held s.value), .scripted { s with reads := s.reads + 1 })
  | .unit => (.ok (.num 1), d)

/-- How long a write takes, in milliseconds. -/
def writeTime : Device → Nat
  | .scripted d => d.writeTime
  | _ => 0

def write (d : Device) (v : Value) : Except PortError Unit × Device :=
  match d with
  | .memory m =>
    if m.writable then (.ok (), .memory { m with value := some v, written := v :: m.written })
    else (.error .notWritable, d)
  | .software s => (.ok (), .software { s with value := some v })
  | .scripted s =>
    match s.failure? .write with
    | some e => (.error e, d)
    | none => (.ok (), .scripted { s with value := some v, written := v :: s.written })
  | .unit => (.error .notWritable, d)

/-- The device hears that its port is being enabled and may refuse. -/
def enable (d : Device) : Except PortError Unit × Device :=
  match d with
  | .scripted s => (s.outcome .enable, .scripted { s with enables := s.enables + 1 })
  | d => (.ok (), d)

/-- The device hears that its port is being disabled and may refuse. -/
def disable (d : Device) : Except PortError Unit × Device :=
  match d with
  | .scripted s => (s.outcome .disable, .scripted { s with disables := s.disables + 1 })
  | d => (.ok (), d)

def beat : Device → Device
  | .scripted s => .scripted { s with beats := s.beats + 1 }
  | d => d

/-! ### Attributes -/

def failReadsDef : AttrDef :=
  { AttrDef.make "fail_reads" .boolean with
    modifiable := true
    description := "Make every read fail" }

/-- The attributes that the device adds to the standard ones. -/
def attrDefs : Device → List AttrDef
  | .memory _ => [failReadsDef]
  | .scripted d => d.attrDefs
  | _ => []

def getAttr (d : Device) (name : String) : Option Json :=
  match d with
  | .memory m => if name = "fail_reads" then some (.bool m.failReads) else none
  | .scripted s => Dict.get? s.attrs name
  | _ => none

def refusedValue : String := "reject"

def setAttr (d : Device) (name : String) (value : Json) : Except AttrError Unit × Device :=
  match d with
  | .memory m =>
    if name = "fail_reads" then
      match value with
      | .bool b => (.ok (), .memory { m with failReads := b })
      | _ => (.error (.invalid name .notBoolean), d)
    else (.error (.unknown name), d)
  | .scripted s =>
    if value.asStr? = some refusedValue then (.error (.invalid name (.refused "rejected")), d)
    else (.ok (), .scripted { s with attrs := Dict.insert s.attrs name value })
  | d => (.error (.unknown name), d)

/-! ### Watching -/

/-- The values written since the last time, in order, and the device with none. -/
def takeWritten (d : Device) : List Value × Device :=
  match d with
  | .memory m => (m.written.reverse, .memory { m with written := [] })
  | .scripted s => (s.written.reverse, .scripted { s with written := [] })
  | d => ([], d)

end Device

end ControlNode
