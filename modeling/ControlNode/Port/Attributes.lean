import ControlNode.Attr.Standard
import ControlNode.Expr.Loop
import ControlNode.Port.Basic

/-!
# Attributes of ports

Reading and changing the attributes of a port, the record in which they are stored, and how
they are restored from it.
-/

namespace ControlNode.Port

/-! ### Reading -/

/-- The standard attributes that apply to the port, then those of the device. -/
def attrDefs (p : Port) : List AttrDef :=
  StandardAttr.forPort ⟨p.type, p.writable⟩ ++ p.device.attrDefs

def attrDef? (p : Port) (name : String) : Option AttrDef :=
  p.attrDefs.find? fun d => d.name == name

def schema (p : Port) : Json := AttrDef.objectSchema p.attrDefs

/-- The value of a standard attribute, null where it is unset. -/
def standardValue? (p : Port) (name : String) : Option Json :=
  let text (s : Option String) : Json := Json.ofOption .str s
  let number (x : Option Float) : Json := Json.ofOption .ofFloat x
  let expr (e : Option Expr) : Json := Json.ofOption (fun e => .str (Expr.text e)) e
  match name with
  | "id" => some (.str p.id)
  | "type" => some (.str p.type.text)
  | "writable" => some (.bool p.writable)
  | "virtual" => some (.bool p.isVirtual)
  | "enabled" => some (.bool p.enabled)
  | "persisted" => some (.bool p.persisted)
  | "internal" => some (.bool p.internal)
  | "display_name" => some (text p.displayName)
  | "unit" => some (text p.unit)
  | "tag" => some (text p.tag)
  | "expression" => some (expr p.expression)
  | "transform_read" => some (expr p.transformRead)
  | "transform_write" => some (expr p.transformWrite)
  | "history_interval" => some (.int p.historyInterval)
  | "history_retention" => some (.int p.historyRetention)
  | "min" => some (number p.limits.min)
  | "max" => some (number p.limits.max)
  | "integer" => some (.bool p.limits.integer)
  | "step" => some (number p.limits.step)
  | "choices" => some (Json.ofOption Choice.listToJson p.choices)
  | _ => none

/-- The value of an attribute, standard or of the device; null where it is unset. -/
def rawValue (p : Port) (name : String) : Json :=
  match p.standardValue? name with
  | some v => v
  | none => (p.device.getAttr name).getD .null

def lookUp (p : Port) (name : String) : Option Json :=
  match p.attrDef? name with
  | none => none
  | some d =>
    let v := p.rawValue name
    if v.isNull then d.default else some v

/-- The value of an attribute, from the cache if it is there; what is found is kept. -/
def getAttr (p : Port) (name : String) : Option Json × Port :=
  match Dict.get? p.attrCache name with
  | some v => (some v, p)
  | none =>
    match p.lookUp name with
    | some v => (some v, { p with attrCache := Dict.insert p.attrCache name v })
    | none => (none, p)

def dropAttrCache (p : Port) : Port := { p with attrCache := [] }

def collectAttrs (p : Port) : List AttrDef → Record × Port
  | [] => ([], p)
  | d :: ds =>
    let (v, p) := p.getAttr d.name
    let (rest, p) := collectAttrs p ds
    match v with
    | some v => (Dict.insert rest d.name v, p)
    | none => (rest, p)

def attrsJson (p : Port) : Json × Port :=
  let (attrs, p) := p.collectAttrs p.attrDefs
  (.obj (Dict.insert attrs "value" (Json.ofOption Value.toJson p.lastRead)), p)

/-! ### Changing -/

structure AttrChange where
  result : Except AttrError Unit
  port : Port
  /-- Whether the expression is to be evaluated at the next tick. -/
  evaluate : Bool := false

namespace AttrChange

def done (p : Port) : AttrChange := ⟨.ok (), p, false⟩

def refused (e : AttrError) (p : Port) : AttrChange := ⟨.error e, p, false⟩

end AttrChange

/-- Enables or disables the port, if its device agrees. A disabled port has no value and runs
no sequence. -/
def setEnabled (p : Port) (enabled : Bool) : AttrChange :=
  if p.enabled == enabled then .done p
  else
    let (r, device) := if enabled then p.device.enable else p.device.disable
    let p := { p with device := device }
    match r with
    | .error e => .refused (.invalid "enabled" (.refused e.message)) p
    | .ok () =>
      if enabled then ⟨.ok (), { p with enabled := true }, true⟩
      else .done { p with enabled := false, lastRead := none }.cancelSequence

def sourceText? (value : Json) : Option String :=
  value.asStr?.filter fun s => !Text.allBlank s.toList

/-- Sets the expression, unless it would close a loop through the expressions in `graph`. -/
def setExpression (p : Port) (graph : DepGraph) (value : Json) : AttrChange :=
  match sourceText? value with
  | none => .done { p with expression := none, expressionDeps := [] }
  | some source =>
    match Expr.parse source p.id with
    | .error e => .refused (.expression "expression" e) p
    | .ok expr =>
      match graph.findLoop p.id expr.deps with
      | some path => .refused (.circular path) p
      | none => ⟨.ok (), { p with expression := some expr, expressionDeps := expr.deps }, true⟩

/-- Reads a transform: none where the text is blank. -/
def readTransform (p : Port) (name : String) (value : Json) :
    Except AttrError (Option Expr) :=
  match sourceText? value with
  | none => .ok none
  | some source =>
    match Expr.parseTransform source p.id with
    | .ok e => .ok (some e)
    | .error e => .error (.expression name e)

def integerOf (value : Json) : Int := (value.asFloat?.map Binary64.toInt64).getD 0

def switchOf (value : Json) : Bool := value.asBool?.getD false

def setPlain (p : Port) (name : String) (value : Json) : Except AttrError Port :=
  match name with
  | "display_name" => .ok { p with displayName := value.asStr? }
  | "unit" => .ok { p with unit := value.asStr? }
  | "tag" => .ok { p with tag := value.asStr? }
  | "persisted" => .ok { p with persisted := switchOf value }
  | "internal" => .ok { p with internal := switchOf value }
  | "history_interval" => .ok { p with historyInterval := integerOf value }
  | "history_retention" => .ok { p with historyRetention := integerOf value }
  | "min" => .ok { p with limits := { p.limits with min := value.asFloat? } }
  | "max" => .ok { p with limits := { p.limits with max := value.asFloat? } }
  | "step" => .ok { p with limits := { p.limits with step := value.asFloat? } }
  | "integer" => .ok { p with limits := { p.limits with integer := switchOf value } }
  | "choices" =>
    if value.isNull then .ok { p with choices := none }
    else match Choice.listOfJson? value with
      | some cs => .ok { p with choices := some cs }
      | none => .error (.invalid name .malformedChoices)
  | "transform_read" => (p.readTransform name value).map fun e => { p with transformRead := e }
  | "transform_write" => (p.readTransform name value).map fun e => { p with transformWrite := e }
  | _ => .error (.notModifiable name)

def applyAttr (p : Port) (graph : DepGraph) (name : String) (value : Json) : AttrChange :=
  if !StandardAttr.isStandard name then
    let (r, device) := p.device.setAttr name value
    ⟨r, { p with device := device }, false⟩
  else if name = "enabled" then p.setEnabled (switchOf value)
  else if name = "expression" then p.setExpression graph value
  else match p.setPlain name value with
    | .ok p => .done p
    | .error e => .refused e p

/-- Changes an attribute if it exists, can be changed and accepts the value. A port that has
changed is to be saved. -/
def setAttr (p : Port) (graph : DepGraph) (name : String) (value : Json) : AttrChange :=
  match p.attrDef? name with
  | none => .refused (.unknown name) p
  | some d =>
    if !d.modifiable then .refused (.notModifiable name) p
    else match d.validate value with
      | .error e => .refused e p
      | .ok () =>
        let change := p.applyAttr graph name value
        match change.result with
        | .error _ => change
        | .ok () => { change with port := { change.port.dropAttrCache with dirty := true } }

/-! ### Storing -/

/-- The record in which the port is stored: its id, the attributes that can be changed and
are set, the time of the last sample, and the value of a persisted port. -/
def toRecord (p : Port) : Record :=
  let attrs := p.attrDefs.filterMap fun d =>
    let v := p.rawValue d.name
    if d.modifiable && !v.isNull then some (d.name, v) else none
  let value := match p.lastRead with
    | some v => if p.persisted then [("value", v.toJson)] else []
    | none => []
  Dict.ofList ([("id", .str p.id)] ++ attrs ++ [("history_last_timestamp", .int p.historyLast)]
    ++ value)

/-- Restores one field of a stored record; a field that is no attribute, or has a value that
the attribute does not accept, is passed over. -/
def loadAttr (p : Port) (graph : DepGraph) (name : String) (value : Json) : Port × Bool :=
  if name = "history_last_timestamp" then ({ p with historyLast := integerOf value }, false)
  else match p.attrDef? name with
    | none => (p, false)
    | some d =>
      if d.modifiable && (d.fault value).isNone then
        let change := p.applyAttr graph name value
        (change.port, change.evaluate)
      else (p, false)

/-- Restores the fields of a stored record in the order of application. Returns the port and
whether its expression is to be evaluated at the next tick. -/
def loadAttrs (p : Port) (graph : DepGraph) (r : Record) : Port × Bool :=
  let (p, evaluate) := (StandardAttr.loadOrder (Dict.keys r)).foldl (fun (p, evaluate) name =>
    let (p, again) := p.loadAttr graph name (((Dict.get? r name)).getD .null)
    (p, evaluate || again)) (p, false)
  (p.dropAttrCache, evaluate)

end ControlNode.Port
