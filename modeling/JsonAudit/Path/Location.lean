import JsonAudit.Json.Printer
import JsonAudit.Path.Step

/-!
# Located values

A `Location` is a value and the canonical path it was reached by; the root has the empty path.
`qualify` gives the path from the root of what lies at a path from the location, `element` and
`property` are its parts, and `children` are the parts that are not null.
-/

namespace JsonAudit

/-- A value and its path from the root. -/
structure Location where
  path : String
  value : Json

namespace Location

/-- The value as the root of a document. -/
def root (value : Json) : Location := ⟨"", value⟩

/-- The location is a root. -/
def isRoot (l : Location) : Bool := l.path == ""

/-- The relative path, from the root. -/
def qualify (l : Location) (relative : String) : String := joinPath l.path relative

/-- The value as the element with the index. -/
def element (l : Location) (i : Nat) (value : Json) : Location :=
  ⟨Step.extend l.path (.index i), value⟩

/-- The value as the property with the name. -/
def property (l : Location) (name : String) (value : Json) : Location :=
  ⟨joinPath l.path name, value⟩

/-- The locations of the elements, the indices beginning at `i`. -/
def elements (l : Location) (i : Nat) : List Json → List Location
  | [] => []
  | item :: rest => l.element i item :: l.elements (i + 1) rest

/-- The parts of the value that are not null: elements by index, members in their order. -/
def children (l : Location) : List Location :=
  let all := match l.value with
    | .array items => l.elements 0 items
    | .object members => members.map fun (name, value) => l.property name value
    | _ => []
  all.filter fun child => !child.value.isNull

/-- The locations have one path and the same value. -/
def same (l l' : Location) : Bool := l.path == l'.path && l.value.same l'.value

/-- The location as a JSON value. -/
def toJson (l : Location) : Json := .object [("path", .string l.path), ("value", l.value)]

end Location

end JsonAudit
