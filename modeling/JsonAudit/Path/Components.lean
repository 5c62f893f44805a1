import JsonAudit.Path.Scanner

/-!
# The components of a path

A path is cut at the dots that are outside every bracket and every quoted literal.  `pieces`
are all the parts between those dots, and `components` the parts that are not empty.  A
component is cut once more, at its first `[`: `splitBracket` gives the name before the bracket
and, in `Bracket`, the text inside it.  `shortPath` keeps the last components of a path.
-/

namespace JsonAudit

/-- The parts of a text between its separating dots, the scanner being where it starts. -/
def piecesFrom (s : Scanner) : List Char → List (List Char)
  | [] => [[]]
  | c :: rest =>
    if s.isOutermost '.' c then
      [] :: piecesFrom (s.next c) rest
    else
      (piecesFrom (s.next c) rest).modifyHead (c :: ·)

/-- The parts of a path between its separating dots. -/
def pieces (path : List Char) : List (List Char) := piecesFrom (Scanner.start 0) path

/-- The parts of a path that are not empty. -/
def components (path : List Char) : List (List Char) :=
  (pieces path).filter fun piece => !piece.isEmpty

/-- The text of a component after its first `[`. -/
inductive Bracket where
  /-- The bracket closes at the end of the component, around this content. -/
  | closed (content : List Char)
  /-- The bracket never closes, or text follows the place where it does. -/
  | unbalanced (rest : List Char)
deriving DecidableEq, Repr

/-- The text before the `]` that closes the last open bracket, and the text after it. -/
def closeFrom (s : Scanner) : List Char → Option (List Char × List Char)
  | [] => none
  | c :: rest =>
    if s.isOutermost ']' c then
      some ([], rest)
    else
      (closeFrom (s.next c) rest).map fun (content, after) => (c :: content, after)

/-- The bracket with this text after its `[`. -/
def Bracket.ofRest (rest : List Char) : Bracket :=
  match closeFrom (Scanner.start 1) rest with
  | some (content, []) => .closed content
  | _ => .unbalanced rest

/-- The name of a component and its bracket. -/
def splitBracket (component : List Char) : List Char × Option Bracket :=
  (component.takeWhile (· != '['),
    match component.dropWhile (· != '[') with
    | [] => none
    | _ :: rest => some (.ofRest rest))

/-- The components of a path, as texts. -/
def pathComponents (path : String) : List String :=
  (components path.toList).map String.ofList

/-- The last components of a path, joined by dots. -/
def shortPath (path : String) (count : Nat) : String :=
  let all := pathComponents path
  ".".intercalate (all.drop (all.length - count))

/-! ### Sizes -/

theorem length_le_of_mem_piecesFrom {s : Scanner} {text piece : List Char}
    (h : piece ∈ piecesFrom s text) :
  piece.length ≤ text.length
  := by
  induction text generalizing s piece with
  | nil =>
    rw [piecesFrom, List.mem_singleton] at h
    subst h
    apply Nat.le_refl
  | cons c rest ih =>
    rw [piecesFrom] at h
    split at h
    · rcases List.mem_cons.mp h with rfl | h
      · apply Nat.zero_le
      · apply Nat.le_succ_of_le (ih h)
    · cases hp : piecesFrom (s.next c) rest with
      | nil => simp [hp] at h
      | cons first others =>
        rw [hp, List.modifyHead_cons, List.mem_cons] at h
        rcases h with rfl | h
        · exact Nat.succ_le_succ (ih (hp ▸ List.mem_cons_self))
        · exact Nat.le_succ_of_le (ih (hp ▸ List.mem_cons_of_mem _ h))

/-- A component is no longer than its path. -/
theorem length_le_of_mem_components {path component : List Char}
    (h : component ∈ components path) :
  component.length ≤ path.length
  := length_le_of_mem_piecesFrom (List.mem_filter.mp h).1

/-- A bracket that closes has its content, `]` and what stands behind. -/
theorem append_eq_of_closeFrom {s : Scanner} {text content after : List Char}
    (h : closeFrom s text = some (content, after)) :
  content ++ ']' :: after = text
  := by
  induction text generalizing s content with
  | nil => simp [closeFrom] at h
  | cons c rest ih =>
    rw [closeFrom] at h
    split at h
    · rename_i hc
      obtain ⟨rfl, rfl⟩ := Prod.mk.inj (Option.some.inj h)
      simp only [Scanner.isOutermost, Bool.and_eq_true, beq_iff_eq] at hc
      rw [List.nil_append, hc.1.2]
    · obtain ⟨⟨inner, tail⟩, hi, he⟩ := Option.map_eq_some_iff.mp h
      obtain ⟨rfl, rfl⟩ := Prod.mk.inj he
      rw [List.cons_append, ih hi]

/-- The content of a closed bracket is shorter than the component around it. -/
theorem length_lt_of_splitBracket {component name content : List Char}
    (h : splitBracket component = (name, some (.closed content))) :
  content.length < component.length
  := by
  obtain ⟨-, hb⟩ := Prod.mk.inj h
  have hd := (List.dropWhile_sublist (· != '[') : (component.dropWhile (· != '[')).Sublist _).length_le
  split at hb
  · cases hb
  · rename_i rest hr
    have hc := Option.some.inj hb
    rw [Bracket.ofRest] at hc
    split at hc
    · rename_i inner hi
      cases hc
      have hl := congrArg List.length (append_eq_of_closeFrom hi)
      rw [hr] at hd
      simp only [List.length_append, List.length_cons, List.length_nil] at hl hd
      omega
    · cases hc

end JsonAudit
