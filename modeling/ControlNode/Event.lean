import ControlNode.Value

/-!
# Events

What a node announces: that ports come and go, that attributes change and that values change.
Subscriptions select events by glob patterns over their types.
-/

namespace ControlNode

structure Event where
  type : String
  source : String
  data : Json

namespace Event

def portAdd (id : String) (attrs : Json) : Event := ⟨"Port/Add", id, attrs⟩

def portRemove (id : String) : Event := ⟨"Port/Remove", id, .obj [("id", .str id)]⟩

def portUpdate (id : String) (attrs : Json) : Event := ⟨"Port/Update", id, attrs⟩

def valueChange (id : String) (old : Option Value) (new : Value) : Event :=
  ⟨"Port/ValueChange", id,
    .obj [("id", .str id), ("old_value", Json.ofOption Value.toJson old),
      ("value", new.toJson)]⟩

/-! ### Patterns -/

/-- Whether a text matches a pattern: a star stands for any run of characters, a question
mark for exactly one, all else for itself. -/
def globMatches : (pattern text : List Char) → Bool
  | [], [] => true
  | [], _ :: _ => false
  | '*' :: ps, [] => globMatches ps []
  | '*' :: ps, c :: cs => globMatches ps (c :: cs) || globMatches ('*' :: ps) cs
  | _ :: _, [] => false
  | p :: ps, c :: cs => (p == '?' || p == c) && globMatches ps cs
termination_by pattern text => pattern.length + text.length

def matchesPattern (e : Event) (pattern : String) : Bool :=
  globMatches pattern.toList e.type.toList

end Event

end ControlNode
