import JsonAudit.Path.Components
import JsonAudit.Path.Condition

/-!
# Reading a path

`parse path` reads a path as its list of segments.  Every text is a path: bracket text that is
neither an index nor a condition becomes a malformed indexer.  The path of a condition is read
in the same way; it is shorter than the component it stands in.

Main statements: `parse_eq_map` says that a path is read component by component, and
`Indexer.ofContent` says what is read between brackets.
-/

namespace JsonAudit

/-- The segments of a path. -/
def parse (path : List Char) : List Segment :=
  (components path).attach.map fun ⟨component, hm⟩ =>
    match hb : splitBracket component with
    | (name, none) => .mk (String.ofList name) none
    | (name, some (.unbalanced rest)) =>
      .mk (String.ofList name) (some (.malformed (String.ofList rest)))
    | (name, some (.closed content)) =>
      match hc : readCondition (trim content) with
      | some condition =>
        have : condition.property.length < path.length := by
          have := length_property_add_five_le hc
          have := length_trim_le content
          have := length_lt_of_splitBracket hb
          have := length_le_of_mem_components hm
          omega
        .mk (String.ofList name) (some (.predicate (.mk (String.ofList condition.property)
          (parse condition.property) condition.operator (String.ofList condition.literal))))
      | none =>
        match readIndex (trim content) with
        | some i => .mk (String.ofList name) (some (.index i))
        | none => .mk (String.ofList name) (some (.malformed (String.ofList content)))
termination_by path.length

/-- The predicate that a condition states. -/
def Predicate.ofCondition (condition : Condition) : Predicate :=
  .mk (String.ofList condition.property) (parse condition.property) condition.operator
    (String.ofList condition.literal)

/-- The indexer with this content: a predicate, else an index, else malformed. -/
def Indexer.ofContent (content : List Char) : Indexer :=
  match readCondition (trim content) with
  | some condition => .predicate (.ofCondition condition)
  | none =>
    match readIndex (trim content) with
    | some i => .index i
    | none => .malformed (String.ofList content)

/-- The indexer in this bracket. -/
def Indexer.ofBracket : Bracket → Indexer
  | .closed content => .ofContent content
  | .unbalanced rest => .malformed (String.ofList rest)

/-- The segment that a component states. -/
def Segment.ofComponent (component : List Char) : Segment :=
  .mk (String.ofList (splitBracket component).1)
    ((splitBracket component).2.map Indexer.ofBracket)

theorem parse_eq_map (path : List Char) :
  parse path = (components path).map Segment.ofComponent
  := by
  rw [parse, ← @List.attach_map_val _ _ (components path) Segment.ofComponent]
  apply List.map_congr_left
  rintro ⟨component, hm⟩ -
  simp only [Segment.ofComponent]
  split
  · rename_i name hb
    rw [hb]
    rfl
  · rename_i name rest hb
    rw [hb]
    rfl
  · rename_i name content hb
    rw [hb]
    simp only [Option.map_some, Indexer.ofBracket, Indexer.ofContent]
    split
    · rename_i condition hc
      rw [hc]
      rfl
    · rename_i hc
      rw [hc]
      split <;> rfl

/-- The segments of a path written as a string. -/
def parsePath (path : String) : List Segment := parse path.toList

end JsonAudit
