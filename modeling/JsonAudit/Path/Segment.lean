/-!
# Path segments

A path is a list of segments.  A `Segment` names a property, possibly the empty one, and may
carry an `Indexer`: the index of an array element, a `Predicate` that selects an element by the
text of a value inside it, or bracket text that is neither and selects nothing.  A predicate
holds the path of that value as it was written and as segments.

`Segment.text`, `Indexer.text` and `Operator.text` write them as they stand in a path.
Equality of segments is decided.
-/

namespace JsonAudit

/-- The operator of a predicate. -/
inductive Operator where
  | equal
  | notEqual
deriving DecidableEq, Repr

namespace Operator

/-- The operator as written. -/
def text : Operator → String
  | equal => "=="
  | notEqual => "!="

/-- The first character of the operator; the second is `=`. -/
def firstChar : Operator → Char
  | equal => '='
  | notEqual => '!'

/-- The operator that begins with the character. -/
def ofFirstChar : Char → Option Operator
  | '=' => some equal
  | '!' => some notEqual
  | _ => none

/-- The rendered value stands in this relation to the literal. -/
def holds (operator : Operator) (rendered literal : String) : Bool :=
  match operator with
  | equal => rendered == literal
  | notEqual => rendered != literal

end Operator

mutual

/-- One step of a path. -/
inductive Segment where
  /-- The property to enter, none if empty, and what to select there. -/
  | mk (property : String) (indexer : Option Indexer)

/-- What a segment selects at its property. -/
inductive Indexer where
  /-- The array element with this index. -/
  | index (i : Nat)
  /-- The first array element that satisfies the predicate. -/
  | predicate (p : Predicate)
  /-- Bracket text with no meaning. -/
  | malformed (raw : String)

/-- The condition that the value at a path inside an element, once rendered, stands in a
relation to a literal. -/
inductive Predicate where
  /-- The path as written and as segments, the relation, and the literal without quotes. -/
  | mk (property : String) (segments : List Segment) (operator : Operator) (literal : String)

end

/-- The property that a segment enters, empty for none. -/
def Segment.property : Segment → String
  | .mk property _ => property

/-- What a segment selects at its property. -/
def Segment.indexer : Segment → Option Indexer
  | .mk _ indexer => indexer

/-- The path inside an element, as written. -/
def Predicate.property : Predicate → String
  | .mk property _ _ _ => property

/-- The path inside an element, as segments. -/
def Predicate.segments : Predicate → List Segment
  | .mk _ segments _ _ => segments

/-- The relation between the value and the literal. -/
def Predicate.operator : Predicate → Operator
  | .mk _ _ operator _ => operator

/-- The literal, without quotes. -/
def Predicate.literal : Predicate → String
  | .mk _ _ _ literal => literal

/-! ### Text -/

/-- The predicate as written between brackets, its literal in double quotes. -/
def Predicate.text (p : Predicate) : String :=
  "@." ++ p.property ++ p.operator.text ++ "\"" ++ p.literal ++ "\""

/-- The indexer as written, with its brackets. -/
def Indexer.text : Indexer → String
  | .index i => "[" ++ Nat.repr i ++ "]"
  | .predicate p => "[" ++ p.text ++ "]"
  | .malformed raw => "[" ++ raw ++ "]"

/-- The segment as written. -/
def Segment.text (segment : Segment) : String :=
  match segment.indexer with
  | none => segment.property
  | some indexer => segment.property ++ indexer.text

/-! ### Equality -/

mutual

/-- Decides the equality of segments. -/
def Segment.decEq : (a b : Segment) → Decidable (a = b)
  | .mk property none, .mk property' none =>
    if h : property = property' then isTrue (by rw [h])
    else isFalse fun e => h (Segment.mk.inj e).1
  | .mk _ none, .mk _ (some _) => isFalse nofun
  | .mk _ (some _), .mk _ none => isFalse nofun
  | .mk property (some indexer), .mk property' (some indexer') =>
    match indexer.decEq indexer' with
    | isTrue hi =>
      if h : property = property' then isTrue (by rw [h, hi])
      else isFalse fun e => h (Segment.mk.inj e).1
    | isFalse hi => isFalse fun e => hi (Option.some.inj (Segment.mk.inj e).2)

/-- Decides the equality of indexers. -/
def Indexer.decEq : (a b : Indexer) → Decidable (a = b)
  | .index i, .index i' =>
    if h : i = i' then isTrue (by rw [h]) else isFalse fun e => h (Indexer.index.inj e)
  | .predicate p, .predicate p' =>
    match p.decEq p' with
    | isTrue h => isTrue (by rw [h])
    | isFalse h => isFalse fun e => h (Indexer.predicate.inj e)
  | .malformed raw, .malformed raw' =>
    if h : raw = raw' then isTrue (by rw [h]) else isFalse fun e => h (Indexer.malformed.inj e)
  | .index _, .predicate _ => isFalse nofun
  | .index _, .malformed _ => isFalse nofun
  | .predicate _, .index _ => isFalse nofun
  | .predicate _, .malformed _ => isFalse nofun
  | .malformed _, .index _ => isFalse nofun
  | .malformed _, .predicate _ => isFalse nofun

/-- Decides the equality of predicates. -/
def Predicate.decEq : (a b : Predicate) → Decidable (a = b)
  | .mk property segments operator literal, .mk property' segments' operator' literal' =>
    match Segment.decEqList segments segments' with
    | isTrue hs =>
      if h : property = property' ∧ operator = operator' ∧ literal = literal' then
        isTrue (by rw [h.1, h.2.1, h.2.2, hs])
      else
        isFalse fun e =>
          h ⟨(Predicate.mk.inj e).1, (Predicate.mk.inj e).2.2.1, (Predicate.mk.inj e).2.2.2⟩
    | isFalse hs => isFalse fun e => hs (Predicate.mk.inj e).2.1

/-- Decides the equality of lists of segments. -/
def Segment.decEqList : (a b : List Segment) → Decidable (a = b)
  | [], [] => isTrue rfl
  | [], _ :: _ => isFalse nofun
  | _ :: _, [] => isFalse nofun
  | a :: as, b :: bs =>
    match a.decEq b with
    | isTrue h =>
      match Segment.decEqList as bs with
      | isTrue hs => isTrue (by rw [h, hs])
      | isFalse hs => isFalse fun e => hs (List.cons.inj e).2
    | isFalse h => isFalse fun e => h (List.cons.inj e).1

end

instance : DecidableEq Segment := Segment.decEq

instance : DecidableEq Indexer := Indexer.decEq

instance : DecidableEq Predicate := Predicate.decEq

/-! ### Size -/

mutual

/-- The number of predicates in a segment, at every level. -/
def Segment.predicateCount : Segment → Nat
  | .mk _ none => 0
  | .mk _ (some indexer) => indexer.predicateCount

/-- The number of predicates in an indexer, at every level. -/
def Indexer.predicateCount : Indexer → Nat
  | .index _ => 0
  | .predicate p => p.predicateCount
  | .malformed _ => 0

/-- The number of predicates in a predicate, itself included. -/
def Predicate.predicateCount : Predicate → Nat
  | .mk _ segments _ _ => Segment.predicateCountList segments + 1

/-- The number of predicates in a list of segments, at every level. -/
def Segment.predicateCountList : List Segment → Nat
  | [] => 0
  | segment :: rest => segment.predicateCount + Segment.predicateCountList rest

end

end JsonAudit
