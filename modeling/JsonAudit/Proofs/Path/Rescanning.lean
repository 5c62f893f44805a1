import JsonAudit.Proofs.Path.WellFormed

/-!
# Brackets scanned twice

A path is cut at its dots by one scanner that runs through all of it, and the bracket of a component
is then read by a scanner that starts behind its `[` and knows nothing of what stands before.  Where
a piece of the path begins the first scanner is settled, and so the two are alike at every
character of the bracket.  A bracket that the second one finds open at the end of its component is
open at the end of the path, and the component is the last.
-/

namespace JsonAudit

open Scanner

/-! ### Where a piece stands -/

/-- The pieces with the dots behind them. -/
def withDots (pieces : List (List Char)) : List Char := pieces.flatMap (· ++ ['.'])

/-- A path that leaves the scanner settled does so behind another such path and a dot. -/
theorem settled_append_dot {before after : List Char} (hb : ((start 0).run before).Settled)
    (ha : ((start 0).run after).Settled) :
  ((start 0).run (before ++ '.' :: after)).Settled
  := by
  have hn : (((start 0).run before).next '.').Settled := hb.next (by decide)
  apply ((sound_start 0).run _).settled
  rw [run_append]
  exact (hn.alike_start.run after).depth.trans ha.depth

/-- A piece stands behind those before it and their dots, where the scanner is settled. -/
theorem path_eq_of_pieces {path : List Char} {front back : List (List Char)} {piece : List Char}
    (h : pieces path = front ++ piece :: back) :
  (∃ after, path = withDots front ++ (piece ++ after)) ∧ ((start 0).run (withDots front)).Settled
  := by
  induction path using pieces_induction generalizing front with
  | whole path hp =>
    rw [hp] at h
    cases front with
    | nil =>
      obtain ⟨rfl, -⟩ := List.cons.inj h
      exact ⟨⟨[], (List.append_nil _).symm⟩, settled_start⟩
    | cons first others => simp at h
  | cut before after hs hb ih =>
    have hp : pieces (before ++ '.' :: after) = before :: pieces after := by
      rw [pieces, piecesFrom_append_dot hs]
      exact congrArg (· ++ pieces after) hb
    rw [hp] at h
    cases front with
    | nil =>
      obtain ⟨rfl, -⟩ := List.cons.inj h
      exact ⟨⟨'.' :: after, rfl⟩, settled_start⟩
    | cons first others =>
      obtain ⟨rfl, hr⟩ := List.cons.inj h
      obtain ⟨⟨rest, hrest⟩, hd⟩ := ih hr
      have he : withDots (before :: others) = before ++ '.' :: withDots others := by
        simp [withDots]
      rw [he]
      refine ⟨⟨rest, ?_⟩, settled_append_dot hs hd⟩
      rw [List.append_assoc, List.cons_append, ← hrest]

/-! ### Inside a bracket -/

/-- The text of a component behind its first `[`. -/
def Bracket.text : Bracket → List Char
  | closed content => content ++ [']']
  | unbalanced rest => rest

/-- A bracket has the text from which it was made. -/
theorem Bracket.text_ofRest (rest : List Char) :
  (ofRest rest).text = rest
  := by
  unfold ofRest
  split
  · rename_i content hc
    exact append_eq_of_closeFrom hc
  · rfl

/-- Behind a settled scanner a name and a part of a bracket are read as that part is by a scanner
that starts inside the bracket. -/
theorem alike_start_of_bracket {before name : List Char}
    (hs : ((start 0).run before).Settled) (hn : '[' ∉ name) (inner : List Char) :
  ((start 0).run (before ++ (name ++ '[' :: inner))).Alike ((start 1).run inner)
  := by
  rw [run_append, run_append]
  exact (hs.run hn).next_bracket.run inner

/-- The components of a path before its last close their brackets. -/
theorem closes_of_mem_dropLast {path component : List Char}
    (h : component ∈ (components path).dropLast) :
  ¬ NeverCloses component
  := fun hn => hn.not_settled ((areComponents_components path).settled component h)

/-- Scanning a path from its start, a quoted literal is open or awaited only inside brackets, and
never both at once.  A component with a bracket is cut into a simple name and the bracket, which
make it up again; the bracket closes unless the component is the last.  The scanner that cuts the
path reads on from the first `[` of a piece as the one does that starts there. -/
theorem brackets_rescanned :
  (∀ text : List Char, ((start 0).run text).Sound)
    ∧ ∀ path : List Char,
      (∀ component ∈ components path, '[' ∈ component →
        ∃ name bracket, splitBracket component = (name, some bracket)
          ∧ '.' ∉ name ∧ '[' ∉ name ∧ component = name ++ '[' :: bracket.text)
      ∧ (∀ component ∈ (components path).dropLast, ¬ NeverCloses component)
      ∧ ∀ (front back : List (List Char)) (name rest : List Char),
        pieces path = front ++ (name ++ '[' :: rest) :: back → '[' ∉ name →
        (∃ after, path = withDots front ++ (name ++ '[' :: rest ++ after))
          ∧ ∀ inner,
            ((start 0).run (withDots front ++ (name ++ '[' :: inner))).Alike ((start 1).run inner)
  := by
  constructor
  · exact (sound_start 0).run
  intro path
  refine ⟨?_, fun component hc => closes_of_mem_dropLast hc, ?_⟩
  · intro component hc hm
    obtain ⟨name, rest, rfl, hn⟩ := List.eq_append_cons_of_mem hm
    have hs := splitBracket_of_bracket hn rest
    have hd := (simple_name_of_mem_components hc).1
    rw [hs] at hd
    exact ⟨name, .ofRest rest, hs, hd, hn, by rw [Bracket.text_ofRest]⟩
  · intro front back name rest hp hn
    obtain ⟨he, hs⟩ := path_eq_of_pieces hp
    exact ⟨he, alike_start_of_bracket hs hn⟩

/-- A quoted `]` and a dot in the first bracket, and a last bracket that never closes. -/
theorem brackets_rescanned_rows :
  ("rows[@.at=='].']".toList ∈ (components "rows[@.at=='].'].x[9".toList).dropLast
      ∧ ¬ NeverCloses "rows[@.at=='].']".toList)
    ∧ ("x[9".toList ∈ components "rows[@.at=='].'].x[9".toList ∧ '[' ∈ "x[9".toList
      ∧ ∃ name bracket, splitBracket "x[9".toList = (name, some bracket)
        ∧ '.' ∉ name ∧ '[' ∉ name ∧ "x[9".toList = name ++ '[' :: bracket.text)
    ∧ pieces "rows[@.at=='].'].x[9".toList
      = ["rows[@.at=='].']".toList] ++ (['x'] ++ '[' :: ['9']) :: []
    ∧ '[' ∉ ['x']
    ∧ ((start 0).run "rows[@.at=='].'].x[9".toList).Alike ((start 1).run ['9'])
  := by
  have hl : "rows[@.at=='].']".toList ∈ (components "rows[@.at=='].'].x[9".toList).dropLast := by
    decide +kernel
  have hm : "x[9".toList ∈ components "rows[@.at=='].'].x[9".toList := by decide +kernel
  have hb : '[' ∈ "x[9".toList := by decide +kernel
  have hp : pieces "rows[@.at=='].'].x[9".toList
      = ["rows[@.at=='].']".toList] ++ (['x'] ++ '[' :: ['9']) :: [] := by
    decide +kernel
  have hn : '[' ∉ ['x'] := by decide
  obtain ⟨hc, hs, ha⟩ := brackets_rescanned.2 "rows[@.at=='].'].x[9".toList
  exact ⟨⟨hl, hs _ hl⟩, ⟨hm, hb, hc _ hm hb⟩, hp, hn, (ha _ _ _ _ hp hn).2 ['9']⟩

end JsonAudit
