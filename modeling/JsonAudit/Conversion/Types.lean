import JsonAudit.Conversion.Readable

/-!
# The types of values

Integers of a bounded range, doubles, booleans, characters, strings and JSON values are read
from JSON and compared; lists are read.  An integer is read as a double if that is asked for, the
nearest one; a double is never read as an integer.
-/

namespace JsonAudit

/-- A range of integers with a name. -/
structure IntegerType where
  name : String
  least : Int
  greatest : Int

namespace IntegerType

/-- The integers of so many bits with a sign. -/
def signed (bits : Nat) : IntegerType :=
  ⟨"i" ++ Nat.repr bits, -(Nat.pow 2 (bits - 1) : Nat), (Nat.pow 2 (bits - 1) : Nat) - 1⟩

/-- The integers of so many bits without a sign. -/
def unsigned (bits : Nat) : IntegerType := ⟨"u" ++ Nat.repr bits, 0, (Nat.pow 2 bits : Nat) - 1⟩

/-- The integer lies in the range. -/
def Has (t : IntegerType) (n : Int) : Prop := t.least ≤ n ∧ n ≤ t.greatest

instance (t : IntegerType) (n : Int) : Decidable (t.Has n) :=
  inferInstanceAs (Decidable (_ ∧ _))

end IntegerType

/-- An integer of a bounded range. -/
abbrev Bounded (t : IntegerType) := { n : Int // t.Has n }

instance (t : IntegerType) : Readable (Bounded t) where
  typeName := t.name
  read
    | .number (.int n) =>
      if h : t.Has n then .ok ⟨n, h⟩ else .error (.range (.number (.int n)) t.name)
    | value => .error (.kind value t.name)

instance (t : IntegerType) : Comparable (Bounded t) where
  same n n' := n.val == n'.val
  text n := Int.repr n.val

instance : Readable Double where
  typeName := "f64"
  read
    | .number (.int n) => .ok (Double.ofInt n)
    | .number (.float x) => .ok x
    | value => .error (.kind value "f64")

instance : Comparable Double where
  same := Double.same
  text := Layout.plain.write

instance : Readable Bool where
  typeName := "bool"
  read
    | .bool b => .ok b
    | value => .error (.kind value "a boolean")

instance : Comparable Bool where
  same b b' := b == b'
  text b := (Json.bool b).text

instance : Readable Char where
  typeName := "char"
  read
    | .string s =>
      match s.toList with
      | [c] => .ok c
      | _ => .error (.range (.string s) "a character")
    | value => .error (.kind value "a character")

instance : Comparable Char where
  same c c' := c == c'
  text c := String.ofList [c]

instance : Readable String where
  typeName := "alloc::string::String"
  read
    | .string s => .ok s
    | value => .error (.kind value "a string")

instance : Comparable String where
  same s s' := s == s'
  text s := s

instance : Readable Json where
  typeName := "serde_json::value::Value"
  read value := .ok value

instance : Comparable Json where
  same := Json.same
  text := Json.text

/-- The items read one by one, up to the first that cannot be. -/
def readList {α : Type} [Readable α] : List Json → Except Mismatch (List α)
  | [] => .ok []
  | item :: rest =>
    match Readable.read item with
    | .error m => .error m
    | .ok first => (readList rest).map (first :: ·)

instance {α : Type} [Readable α] : Readable (List α) where
  typeName := "alloc::vec::Vec<" ++ Readable.typeName α ++ ">"
  read
    | .array items => readList items
    | value => .error (.kind value "a sequence")

end JsonAudit
