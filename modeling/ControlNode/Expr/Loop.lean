import ControlNode.Expr.Deps

/-!
# Circular references

The search for a chain of references that leads from a port back to itself. It goes depth
first and enters no port twice; a port that refers to itself directly makes no loop.
-/

namespace ControlNode

/-- The dependencies of the expressions that ports hold. -/
abbrev DepGraph := Dict String DepSet

namespace DepGraph

/-- The result of a search: the chain that was found, from the place of the search to the
origin, and the ports entered so far, in order. -/
abbrev Trail := Option (List String) × List String

/-- Tries the given ports one after another until one leads to a chain. -/
def firstChain (search : String → List String → Trail) : List String → List String → Trail
  | [], entered => (none, entered)
  | id :: ids, entered =>
    match search id entered with
    | (some chain, entered) => (some chain, entered)
    | (none, entered) => firstChain search ids entered

/-- Searches from `current` for a chain to `origin`, at most `depth` ports deep. -/
def searchFrom (g : DepGraph) (origin : String) :
    (depth : Nat) → (current : String) → (entered : List String) → Trail
  | 0, _, entered => (none, entered)
  | depth + 1, current, entered =>
    if current = origin then (some [origin], entered)
    else if current ∈ entered then (none, entered)
    else
      let entered := entered ++ [current]
      match g.get? current with
      | none => (none, entered)
      | some deps =>
        let next := deps.portIds.filter (· ≠ current)
        match firstChain (searchFrom g origin depth) next entered with
        | (some chain, entered) => (some (current :: chain), entered)
        | (none, entered) => (none, entered)

/-- Looks for a chain of references from `origin`, whose expression has the dependencies
`deps`, back to `origin`. A chain enters each port that has an expression at most once, so
their number bounds its depth. -/
def search (g : DepGraph) (origin : String) (deps : DepSet) : Trail :=
  match firstChain (searchFrom g origin (g.length + 2)) (deps.portIds.filter (· ≠ origin)) []
  with
  | (some chain, entered) => (some (origin :: chain), entered)
  | (none, entered) => (none, entered)

/-- The chain of a circular reference, with the origin at both ends. -/
def findLoop (g : DepGraph) (origin : String) (deps : DepSet) : Option (List String) :=
  (g.search origin deps).1

end DepGraph

end ControlNode
