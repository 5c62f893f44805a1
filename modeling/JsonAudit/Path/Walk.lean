import JsonAudit.Json.Printer
import JsonAudit.Logged
import JsonAudit.Path.Note
import JsonAudit.Path.Step

/-!
# Walking a value

`segment.enter node` is the part of `node` that a segment selects and the steps that lead there.
A predicate selects the first element it accepts; if it accepts none, the array stays selected.
An element is accepted if its value at the path of the predicate is present, is not null, and
compares with the literal, once rendered, as the operator says.

`select segments node` enters one segment after the other and gives the node reached; `track`
gives also the steps taken.  Where nothing is selected both stop with a note that says why.
-/

namespace JsonAudit

/-- A part of a value and the steps that lead to it, if there is one, with the notes made. -/
abbrev Entered := Logged Note (Option (Json × List Step))

/-- The part that one step leads to. -/
def entered (part : Json) (step : Step) : Entered := .pure (some (part, [step]))

/-- The part of the node under the property; the node itself if the name is empty. -/
def enterProperty (name : String) (node : Json) : Entered :=
  if name = "" then
    .pure (some (node, []))
  else
    match node with
    | .object members =>
      match Keyed.find? name members with
      | some part => entered part (.key name)
      | none => .note (.missingProperty name) none
    | _ => .note (.notObject name) none

/-- The element of the node with the index. -/
def enterIndex (i : Nat) (node : Json) : Entered :=
  match node with
  | .array items =>
    match items[i]? with
    | some item => entered item (.index i)
    | none => .note (.notAddressable i) none
  | _ => .note (.notAddressable i) none

/-- The first accepted item and its index, the indices beginning at `i`. -/
def firstAccepted (accepts : Json → Logged Note Bool) (i : Nat) :
    List Json → Logged Note (Option (Nat × Json))
  | [] => .pure none
  | item :: rest =>
    (accepts item).bind fun
      | true => .pure (some (i, item))
      | false => firstAccepted accepts (i + 1) rest

/-- The first accepted element of the node, or the node itself if it is an array without one. -/
def enterFirst (p : Predicate) (accepts : Json → Logged Note Bool) (node : Json) : Entered :=
  match node with
  | .array items =>
    (firstAccepted accepts 0 items).bind fun
      | some (i, item) => entered item (.index i)
      | none => .note (.noMatch p) (some (node, []))
  | _ => .note (.notArray p) none

mutual

/-- The part of the node that the segment selects, and the steps to it. -/
def Segment.enter : Segment → Json → Entered
  | .mk name none, node => enterProperty name node
  | .mk name (some indexer), node =>
    (enterProperty name node).andThen fun (inner, steps) =>
      (indexer.enter name inner).map fun found =>
        found.map fun (part, more) => (part, steps ++ more)

/-- The part of the node that the indexer of a segment selects, and the steps to it. -/
def Indexer.enter (name : String) : Indexer → Json → Entered
  | .index i, node => enterIndex i node
  | .predicate p, node => enterFirst p p.accepts node
  | .malformed raw, _ => .note (.malformed raw (.mk name (some (.malformed raw)))) none

/-- The element satisfies the predicate. -/
def Predicate.accepts : Predicate → Json → Logged Note Bool
  | .mk _ segments operator literal, item =>
    (select segments item).map fun
      | some value => !value.isNull && operator.holds value.render literal
      | none => false

/-- The part of the node that the segments select, one after the other. -/
def select : List Segment → Json → Logged Note (Option Json)
  | [], node => .pure (some node)
  | segment :: rest, node => (segment.enter node).andThen fun (part, _) => select rest part

end

/-- The part of the node that the segments select, and all the steps to it. -/
def track : List Segment → Json → Entered
  | [], node => .pure (some (node, []))
  | segment :: rest, node =>
    (segment.enter node).andThen fun (part, steps) =>
      (track rest part).map fun found =>
        found.map fun (last, more) => (last, steps ++ more)

end JsonAudit
