import JsonAudit.Path.Segment

/-!
# Notes on absent values

A path that selects nothing leaves a note that says why, and so does a predicate that no element
satisfies.
-/

namespace JsonAudit

/-- Why a segment selected nothing, or no element. -/
inductive Note where
  /-- The object has no such property. -/
  | missingProperty (name : String)
  /-- The node that should have the property is not an object. -/
  | notObject (name : String)
  /-- The node that the predicate should search is not an array. -/
  | notArray (p : Predicate)
  /-- No element of the array satisfies the predicate. -/
  | noMatch (p : Predicate)
  /-- The node has no element with the index. -/
  | notAddressable (i : Nat)
  /-- The bracket text of the segment has no meaning. -/
  | malformed (raw : String) (segment : Segment)
deriving DecidableEq

/-- The wording of a note. -/
def Note.message : Note → String
  | missingProperty name => "property '" ++ name ++ "' not present"
  | notObject name => "property '" ++ name ++ "' requested on a non-object node"
  | notArray p =>
    "predicate " ++ (Indexer.predicate p).text ++ " applied to a non-array node"
  | noMatch p => "predicate " ++ (Indexer.predicate p).text ++ " matched no element"
  | notAddressable i => "index [" ++ Nat.repr i ++ "] is not addressable on this node"
  | malformed raw segment =>
    "malformed indexer [" ++ raw ++ "] in segment '" ++ segment.text ++ "'"

end JsonAudit
