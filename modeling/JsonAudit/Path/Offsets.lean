import JsonAudit.Logged
import JsonAudit.Path.Reader

/-!
# Reading a path by byte offsets

A part of a text is asked for by the offsets of its ends, in bytes of UTF-8.  Such a `Cut` is valid
if its ends are in order, not behind the end of the text and not inside a character, and else there
is no part.  `parseByOffsets` reads a path as `parse` does and notes its cuts: it scans a text with
the offset of each character at hand, and makes every component, name, bracket, path and literal by
a cut at offsets that it has met or moved by the bytes of a mark.  It reads nothing if a cut fails.
-/

namespace JsonAudit

/-! ### Cuts -/

/-- A request for the part of a text between two byte offsets. -/
structure Cut where
  text : String
  start : Nat
  stop : Nat
deriving DecidableEq, Repr

/-- The ends are in order, the part does not go over the end of the text, and no character is cut
in two. -/
structure Cut.IsValid (cut : Cut) : Prop where
  ordered : cut.start ≤ cut.stop
  within : cut.stop ≤ cut.text.utf8ByteSize
  startBoundary : (⟨cut.start⟩ : String.Pos.Raw).IsValid cut.text
  stopBoundary : (⟨cut.stop⟩ : String.Pos.Raw).IsValid cut.text

instance (cut : Cut) : Decidable cut.IsValid :=
  decidable_of_iff (cut.start ≤ cut.stop ∧ cut.stop ≤ cut.text.utf8ByteSize
      ∧ (⟨cut.start⟩ : String.Pos.Raw).IsValid cut.text
      ∧ (⟨cut.stop⟩ : String.Pos.Raw).IsValid cut.text)
    ⟨fun ⟨ho, hw, hs, he⟩ => ⟨ho, hw, hs, he⟩, fun ⟨ho, hw, hs, he⟩ => ⟨ho, hw, hs, he⟩⟩

/-- The part of the text, if the cut is valid. -/
def Cut.part? (cut : Cut) : Option String :=
  if h : cut.IsValid then
    some (String.extract ⟨⟨cut.start⟩, h.startBoundary⟩ ⟨⟨cut.stop⟩, h.stopBoundary⟩)
  else
    none

/-- What is read by cuts, each of them noted: nothing, once a cut fails. -/
abbrev Cutting (α : Type) := Logged Cut (Option α)

/-- The part of the text between the offsets. -/
def cutOut (text : String) (start stop : Nat) : Cutting String :=
  .note ⟨text, start, stop⟩ (Cut.part? ⟨text, start, stop⟩)

/-- The texts read one after the other. -/
def readEach {α : Type} (read : String → Cutting α) : List String → Cutting (List α)
  | [] => .pure (some [])
  | text :: rest =>
    (read text).andThen fun first =>
    (readEach read rest).andThen fun others => .pure (some (first :: others))

/-! ### Components -/

/-- The components of a path from the one on that begins at byte `start`, the characters before byte
`i` having been scanned. -/
def componentsFrom (path : String) (s : Scanner) (start i : Nat) :
    List Char → Cutting (List String)
  | [] =>
    if start < path.utf8ByteSize then
      (cutOut path start path.utf8ByteSize).andThen fun last => .pure (some [last])
    else
      .pure (some [])
  | c :: rest =>
    if s.isOutermost '.' c then
      if start < i then
        (cutOut path start i).andThen fun component =>
        (componentsFrom path (s.next c) (i + 1) (i + c.utf8Size) rest).andThen fun others =>
        .pure (some (component :: others))
      else
        componentsFrom path (s.next c) (i + 1) (i + c.utf8Size) rest
    else
      componentsFrom path (s.next c) start (i + c.utf8Size) rest

/-- The bracket with this text after its `[`, the characters before byte `i` of it having been
scanned. -/
def bracketFrom (text : String) (s : Scanner) (i : Nat) : List Char → Cutting Bracket
  | [] => .pure (some (.unbalanced text.toList))
  | c :: rest =>
    if s.isOutermost ']' c then
      if i + 1 = text.utf8ByteSize then
        (cutOut text 0 i).andThen fun content => .pure (some (.closed content.toList))
      else
        .pure (some (.unbalanced text.toList))
    else
      bracketFrom text (s.next c) (i + c.utf8Size) rest

/-- The byte at which the mark stands first, from byte `i` on. -/
def offsetOf (mark : Char) (i : Nat) : List Char → Option Nat
  | [] => none
  | c :: rest => if c == mark then some i else offsetOf mark (i + c.utf8Size) rest

/-- The name of a component and its bracket. -/
def splitByOffset (component : String) : Cutting (String × Option Bracket) :=
  match offsetOf '[' 0 component.toList with
  | none => .pure (some (component, none))
  | some i =>
    (cutOut component 0 i).andThen fun name =>
    (cutOut component (i + 1) component.utf8ByteSize).andThen fun text =>
    (bracketFrom text (Scanner.start 1) 0 text.toList).andThen fun bracket =>
    .pure (some (name, some bracket))

/-! ### Conditions -/

/-- The byte at which the first operator outside brackets and quoted literals begins, from byte `i`
on, and the operator. -/
def offsetOfOperator (s : Scanner) (i : Nat) : List Char → Option (Nat × Operator)
  | [] => none
  | c :: rest =>
    match operatorAt s c rest with
    | some operator => some (i, operator)
    | none => offsetOfOperator (s.next c) (i + c.utf8Size) rest

/-- The text begins and ends with the mark, in different places. -/
def isEnclosed (text : String) (mark : Char) : Bool :=
  decide (2 ≤ text.utf8ByteSize) && text.toList.head? == some mark
    && text.toList.getLast? == some mark

/-- The text inside one pair of equal quote marks, or the text itself. -/
def unquoteByOffset (literal : String) : Cutting String :=
  if isEnclosed literal '"' || isEnclosed literal '\'' then
    cutOut literal 1 (literal.utf8ByteSize - 1)
  else
    .pure (some literal)

/-- The condition in a body that begins behind `@.`, if it is one. -/
def conditionOfBody (body : String) : Cutting (Option Condition) :=
  match offsetOfOperator (Scanner.start 0) 0 body.toList with
  | none => .pure (some none)
  | some (i, operator) =>
    (cutOut body 0 i).andThen fun before =>
    if (trim before.toList).isEmpty || (trim before.toList).any isBlank then
      .pure (some none)
    else
      (cutOut body (i + 2) body.utf8ByteSize).andThen fun after =>
      if (trim after.toList).isEmpty then
        .pure (some none)
      else
        (unquoteByOffset (String.ofList (trim after.toList))).andThen fun literal =>
        .pure (some (some ⟨trim before.toList, operator, literal.toList⟩))

/-- The condition that a trimmed bracket content states. -/
def conditionByOffset (text : List Char) : Cutting (Option Condition) :=
  match unwrap text with
  | some ('@' :: '.' :: body) => conditionOfBody (String.ofList body)
  | _ => .pure (some none)

/-! ### Paths -/

/-- The indexer with this content, the path of a condition being read by `nested`. -/
def indexerByOffset (nested : String → Cutting (List Segment)) (content : List Char) :
    Cutting Indexer :=
  (conditionByOffset (trim content)).andThen fun
    | some condition =>
      (nested (String.ofList condition.property)).andThen fun segments =>
      .pure (some (.predicate (.mk (String.ofList condition.property) segments condition.operator
        (String.ofList condition.literal))))
    | none =>
      match readIndex (trim content) with
      | some i => .pure (some (.index i))
      | none => .pure (some (.malformed (String.ofList content)))

/-- The segment that a component states, the path of a condition being read by `nested`. -/
def segmentByOffset (nested : String → Cutting (List Segment)) (component : String) :
    Cutting Segment :=
  (splitByOffset component).andThen fun
    | (name, none) => .pure (some (.mk name none))
    | (name, some (.unbalanced rest)) =>
      .pure (some (.mk name (some (.malformed (String.ofList rest)))))
    | (name, some (.closed content)) =>
      (indexerByOffset nested content).andThen fun indexer =>
      .pure (some (.mk name (some indexer)))

/-- The segments of a path.  A path inside a condition is read only if it is shorter. -/
def parseByOffsets (path : String) : Cutting (List Segment) :=
  (componentsFrom path (Scanner.start 0) 0 0 path.toList).andThen fun components =>
  readEach (segmentByOffset fun property =>
    if property.utf8ByteSize < path.utf8ByteSize then parseByOffsets property else .pure none)
    components
termination_by path.utf8ByteSize

end JsonAudit
