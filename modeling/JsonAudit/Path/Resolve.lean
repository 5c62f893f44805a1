import JsonAudit.Path.Location
import JsonAudit.Path.Reader
import JsonAudit.Path.Walk

/-!
# Resolving a path

`resolve path node` is the part of a value that a path selects, and `locate path node` that part
with its canonical path.  A blank path selects nothing, without a note; a path that has no
segments and is not blank selects the node itself.  `Location.locate` goes on from a location.
-/

namespace JsonAudit

/-- The path holds blanks only. -/
def isBlankPath (path : String) : Bool := allBlank path.toList

/-- The part of the node at the path. -/
def resolve (path : String) (node : Json) : Logged Note (Option Json) :=
  if isBlankPath path then .pure none else select (parsePath path) node

/-- The part of the node at the path and the steps that lead to it. -/
def trace (path : String) (node : Json) : Entered :=
  if isBlankPath path then .pure none else track (parsePath path) node

/-- The part of the node at the path, with its canonical path from the node. -/
def locate (path : String) (node : Json) : Logged Note (Option Location) :=
  (trace path node).map fun found => found.map fun (part, steps) => ⟨pathText steps, part⟩

/-- The part of the location's value at the path, with its canonical path from the root. -/
def Location.locate (path : String) (l : Location) : Logged Note (Option Location) :=
  (JsonAudit.locate path l.value).map fun found =>
    found.map fun part => ⟨joinPath l.path part.path, part.value⟩

end JsonAudit
