import JsonAudit.Json.Basic

/-!
# Steps into a value

A `Step` goes from a value to one of its parts, by the key of a member or by the index of an
element.  `Json.child` takes one step and `Json.descend` a list of them.  `pathText steps` is the
canonical path of the value reached from the root: keys are joined by dots and indices stand in
brackets.  A path is joined to the one it is relative to by `joinPath`.
-/

namespace JsonAudit

/-- A step from a value to a part of it. -/
inductive Step where
  | key (name : String)
  | index (i : Nat)
deriving DecidableEq, Repr

/-- The part of the value that the step leads to. -/
def Json.child : Json → Step → Option Json
  | .object members, .key name => Keyed.find? name members
  | .array items, .index i => items[i]?
  | _, _ => none

/-- The part of the value that the steps lead to, one after the other. -/
def Json.descend : Json → List Step → Option Json
  | value, [] => some value
  | value, step :: rest => (value.child step).bind fun part => part.descend rest

/-- The path with a step after it. -/
def Step.extend (path : String) : Step → String
  | key name => if path = "" then name else path ++ "." ++ name
  | index i => path ++ "[" ++ Nat.repr i ++ "]"

/-- The path with the steps after it. -/
def extendPath (path : String) (steps : List Step) : String := steps.foldl Step.extend path

/-- The canonical path of the steps from a root. -/
def pathText (steps : List Step) : String := extendPath "" steps

/-- The relative path after the base: directly if it begins with a bracket, after a dot
otherwise; an empty side adds nothing. -/
def joinPath (base relative : String) : String :=
  if base = "" then relative
  else if relative = "" then base
  else if relative.toList.head? = some '[' then base ++ relative
  else base ++ "." ++ relative

end JsonAudit
