import JsonAudit.Decimal.Double
import JsonAudit.Keyed

/-!
# JSON values

A `Json` value is null, a boolean, a number, a string, an array, or an object.  A `Number` is
an integer or a double, and the two are never the same.  An object is its list of members in
the order in which their keys came first.

`Json.same` compares values: arrays element by element, objects without regard to the order of
their members, doubles by value.
-/

namespace JsonAudit

/-- A number of a JSON text. -/
inductive Number where
  | int (n : Int)
  | float (x : Double)
deriving DecidableEq, Repr

/-- The numbers are both integers or both doubles, of one value. -/
def Number.same : Number → Number → Bool
  | .int n, .int n' => n == n'
  | .float x, .float x' => x.same x'
  | _, _ => false

/-- A JSON value. -/
inductive Json where
  | null
  | bool (b : Bool)
  | number (n : Number)
  | string (s : String)
  | array (items : List Json)
  | object (members : List (String × Json))

namespace Json

/-- The value is null. -/
def isNull : Json → Bool
  | null => true
  | _ => false

/-- The name of the kind of value. -/
def kind : Json → String
  | null => "null"
  | bool _ => "bool"
  | number _ => "number"
  | string _ => "string"
  | array _ => "array"
  | object _ => "object"

/-! ### Equality -/

mutual

/-- The values are the same up to the order of the members of objects. -/
def same : Json → Json → Bool
  | null, null => true
  | bool b, bool b' => b == b'
  | number n, number n' => n.same n'
  | string s, string s' => s == s'
  | array items, array items' => sameItems items items'
  | object members, object members' =>
    members.length == members'.length && sameMembers members members'
  | _, _ => false

/-- The elements are the same, one by one. -/
def sameItems : List Json → List Json → Bool
  | [], [] => true
  | item :: rest, item' :: rest' => item.same item' && sameItems rest rest'
  | _, _ => false

/-- Every member has the same value under its key among the others. -/
def sameMembers : List (String × Json) → List (String × Json) → Bool
  | [], _ => true
  | (key, value) :: rest, others =>
    (match Keyed.find? key others with
      | some other => value.same other
      | none => false)
      && sameMembers rest others

end

end Json

end JsonAudit
