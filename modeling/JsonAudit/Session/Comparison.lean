import JsonAudit.Conversion.Readable
import JsonAudit.Path.Components
import JsonAudit.Session.Table

/-!
# Comparisons

A comparison is built in two steps.  An `Expectation` is its left side, a key and the value found
there; with a right side it is a `Comparison`.  `outcome` decides it: a missing side makes it
unresolved, under the key of that side, the left one first; two values pass or fail under the
left key.
-/

namespace JsonAudit

/-- A key and the value found there. -/
structure Expectation (α : Type) where
  key : String
  value : Option α

/-- Two keys and the values found there. -/
structure Comparison (α : Type) where
  left : Expectation α
  right : Expectation α

namespace Comparison

/-- The message of a comparison that had no left value. -/
def leftMissing : String := "Expected value not found"

/-- The message of a comparison that had no right value. -/
def rightMissing : String := "Equal value not found"

/-- The message of a comparison of two values, with the last components of their keys. -/
def message {α : Type} [Comparable α] (components : Nat) (leftKey rightKey : String)
    (left right : α) : String :=
  let relation := if Comparable.same left right then ") is equal to " else ") is not equal to "
  "Expected " ++ shortPath leftKey components ++ " (" ++ Comparable.text left ++ relation
    ++ shortPath rightKey components ++ " (" ++ Comparable.text right ++ ")"

/-- The key and the record of a comparison. -/
def outcome {α : Type} [Comparable α] (components : Nat) (c : Comparison α) : String × Record :=
  match c.left.value, c.right.value with
  | none, _ => (c.left.key, ⟨.unresolved, leftMissing⟩)
  | some _, none => (c.right.key, ⟨.unresolved, rightMissing⟩)
  | some left, some right =>
    (c.left.key, ⟨if Comparable.same left right then .pass else .fail,
      message components c.left.key c.right.key left right⟩)

end Comparison

end JsonAudit
