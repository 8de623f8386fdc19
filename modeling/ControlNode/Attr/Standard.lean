import ControlNode.Attr.Basic

/-!
# Standard attributes

The attributes that every port has, each as far as it applies to the port's type and to
whether it is writable, and the order in which stored attributes are applied.
-/

namespace ControlNode.StandardAttr

/-! ### The table -/

def onNumbers (t : PortTraits) : Bool := t.type == .number

def onWritable (t : PortTraits) : Bool := t.writable

/-- A text that may be unset and has at most `length` characters. -/
def shortText (name : String) (length : Float) : AttrDef :=
  { AttrDef.make name .string with
    modifiable := true
    optional := true
    limits := { max := some length } }

def switch (name : String) : AttrDef := { AttrDef.make name .boolean with modifiable := true }

/-- A number of number ports that may be unset. -/
def limit (name : String) : AttrDef :=
  { AttrDef.make name .number with
    modifiable := true
    optional := true
    existsFor := onNumbers }

/-- All standard attributes, in the order of the table. -/
def all : List AttrDef :=
  [{ AttrDef.make "id" .string with displayName := "Identifier" },
    { AttrDef.make "type" .string with
      choices := some [⟨.str "boolean", some "Boolean"⟩, ⟨.str "number", some "Number"⟩] },
    shortText "display_name" 64,
    { shortText "unit" 64 with existsFor := onNumbers },
    AttrDef.make "writable" .boolean,
    switch "enabled",
    { switch "persisted" with description := "Keep the last value across restarts" },
    { switch "internal" with description := "Do not emit value-change events" },
    AttrDef.make "virtual" .boolean,
    shortText "tag" 64,
    { shortText "expression" 1024 with existsFor := onWritable },
    shortText "transform_read" 1024,
    { shortText "transform_write" 1024 with existsFor := onWritable },
    { AttrDef.make "history_interval" .number with
      modifiable := true
      limits := { min := some (-1), max := some 2147483647, integer := true }
      default := some (.int 0)
      description := "Seconds between samples; -1 samples every change, 0 disables" },
    { AttrDef.make "history_retention" .number with
      modifiable := true
      limits := { min := some 0, integer := true }
      default := some (.int 0)
      description := "Seconds to keep samples; 0 keeps them forever" },
    limit "min",
    limit "max",
    { switch "integer" with existsFor := onNumbers },
    { limit "step" with limits := { min := some 0 } },
    { AttrDef.make "choices" .list with modifiable := true, optional := true }]

def isStandard (name : String) : Bool := all.any fun d => d.name == name

def forPort (t : PortTraits) : List AttrDef := all.filter fun d => d.existsFor t

/-! ### The order of application -/

/-- Whether a port is enabled comes first, its expression last. -/
def loadRank (name : String) : Nat :=
  if name = "enabled" then 0 else if name = "expression" then 2 else 1

/-- Whether a name is applied no later than another: by rank, then by text. -/
def loadBefore (a b : String) : Bool :=
  if loadRank a = loadRank b then !(b < a : Bool) else loadRank a < loadRank b

/-- Puts a name in its place among names that are in the order of application. -/
def insertInOrder (name : String) : List String → List String
  | [] => [name]
  | other :: names =>
    if loadBefore name other then name :: other :: names
    else other :: insertInOrder name names

def loadOrder : List String → List String
  | [] => []
  | name :: names => insertInOrder name (loadOrder names)

end ControlNode.StandardAttr
