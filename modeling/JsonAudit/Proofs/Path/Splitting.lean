import JsonAudit.Path.Components
import JsonAudit.Proofs.Path.Scanning

/-!
# How a path falls into components

A text without dots goes into one piece with what follows it.  After a text that leaves the
scanner settled a dot separates: the components of `p.q` are those of `p` and those of `q`.  No
dot stands before the first bracket of a component.  If the scanner is inside a bracket at the end
of a path, that bracket opens in the last component and is unbalanced there.
-/

namespace JsonAudit

open Scanner

/-! ### Pieces -/

/-- Scanners that read alike cut a text into the same pieces. -/
theorem piecesFrom_alike {s t : Scanner} (h : s.Alike t) (text : List Char) :
  piecesFrom s text = piecesFrom t text
  := by
  cases text with
  | nil => rfl
  | cons c rest => rw [piecesFrom, piecesFrom, h.isOutermost_eq, h.next_eq]

/-- A settled scanner cuts a text as at its beginning. -/
theorem piecesFrom_of_settled {s : Scanner} (h : s.Settled) (text : List Char) :
  piecesFrom s text = pieces text
  := piecesFrom_alike h.alike_start text

theorem piecesFrom_ne_nil (s : Scanner) (text : List Char) :
  piecesFrom s text ≠ []
  := by
  induction text generalizing s with
  | nil => apply List.cons_ne_nil
  | cons c rest ih =>
    rw [piecesFrom]
    split
    · apply List.cons_ne_nil
    · rw [ne_eq, List.modifyHead_eq_nil_iff]
      apply ih

/-- A text without dots is the beginning of the first piece. -/
theorem piecesFrom_append_of_no_dot {text : List Char} (h : '.' ∉ text) (s : Scanner)
    (rest : List Char) :
  piecesFrom s (text ++ rest) = (piecesFrom (s.run text) rest).modifyHead (text ++ ·)
  := by
  induction text generalizing s with
  | nil =>
    have hm : (fun piece : List Char => [] ++ piece) = id := rfl
    rw [hm, List.modifyHead_id]
    rfl
  | cons c tail ih =>
    obtain ⟨hc, ht⟩ := not_or.mp (mt List.mem_cons.mpr h)
    have hp : ¬ s.isOutermost '.' c = true := by
      simp [isOutermost, Ne.symm hc]
    rw [List.cons_append, piecesFrom, if_neg hp, ih ht, List.modifyHead_modifyHead]
    rfl

/-- A dot after a settled scanner separates the pieces before it from those after it. -/
theorem piecesFrom_append_dot {s : Scanner} {before : List Char} (h : (s.run before).Settled)
    (after : List Char) :
  piecesFrom s (before ++ '.' :: after) = piecesFrom s before ++ pieces after
  := by
  induction before generalizing s with
  | nil =>
    have hs : s.Settled := h
    have hn : (s.next '.').Settled := hs.next (by decide)
    rw [List.nil_append, piecesFrom, piecesFrom, if_pos hs.isOutermost_dot,
      piecesFrom_of_settled hn]
    rfl
  | cons c rest ih =>
    have hr : ((s.next c).run rest).Settled := h
    rw [List.cons_append, piecesFrom, piecesFrom]
    split
    · rw [ih hr, List.cons_append]
    · rw [ih hr]
      cases hp : piecesFrom (s.next c) rest with
      | nil => cases piecesFrom_ne_nil _ _ hp
      | cons first others => rfl

/-- The last piece is read from the beginning, if it is the only one, and from a settled scanner
otherwise. -/
theorem exists_last_piece {s : Scanner} (h : s.Sound) (text : List Char) :
  ∃ before last t, piecesFrom s text = before ++ [last] ∧ s.run text = t.run last
    ∧ ((before = [] ∧ t = s) ∨ (before ≠ [] ∧ t.Settled))
  := by
  induction text generalizing s with
  | nil => exact ⟨[], [], s, rfl, rfl, .inl ⟨rfl, rfl⟩⟩
  | cons c rest ih =>
    obtain ⟨before, last, t, hp, hr, ht⟩ := ih (h.next c)
    rw [piecesFrom, hp]
    split
    · rename_i ho
      obtain ⟨-, -, hs⟩ := h.settled_of_isOutermost ho
      refine ⟨[] :: before, last, t, rfl, hr, .inr ⟨List.cons_ne_nil _ _, ?_⟩⟩
      rcases ht with ⟨-, rfl⟩ | ⟨-, ht⟩
      · apply hs
      · apply ht
    · rcases ht with ⟨rfl, rfl⟩ | ⟨hb, ht⟩
      · exact ⟨[], c :: last, s, rfl, hr, .inl ⟨rfl, rfl⟩⟩
      · obtain ⟨first, others, rfl⟩ := List.exists_cons_of_ne_nil hb
        exact ⟨(c :: first) :: others, last, t, rfl, hr, .inr ⟨List.cons_ne_nil _ _, ht⟩⟩

/-! ### Components -/

/-- A dot behind a settled text divides its components from those behind the dot. -/
theorem components_append_dot {before : List Char} (h : ((start 0).run before).Settled)
    (after : List Char) :
  components (before ++ '.' :: after) = components before ++ components after
  := by
  rw [components, pieces, piecesFrom_append_dot h, List.filter_append]
  rfl

/-- A non-empty text without dots goes into one component with what follows it, if that is
scanned from inside it. -/
theorem components_append_of_no_dot
    {text rest first : List Char} {others : List (List Char)} (hd : '.' ∉ text) (hn : text ≠ [])
    (hp : piecesFrom ((start 0).run text) rest = first :: others) :
  components (text ++ rest) = (text ++ first) :: others.filter fun piece => !piece.isEmpty
  := by
  have hne : (text ++ first).isEmpty = false := by
    simp [List.isEmpty_eq_false_iff, hn]
  rw [components, pieces, piecesFrom_append_of_no_dot hd, hp]
  simp [hne]

/-- A text without dots is one component. -/
theorem components_of_no_dot {text : List Char} (hd : '.' ∉ text) (hn : text ≠ []) :
  components text = [text]
  := by
  have h : components (text ++ []) = _ := components_append_of_no_dot hd hn rfl
  rw [List.append_nil] at h
  apply h

/-- A path that begins with `[` has a first component that begins so. -/
theorem pieces_of_bracket (rest : List Char) :
  ∃ first others, pieces ('[' :: rest) = ('[' :: first) :: others
  := by
  have hb : ¬ (start 0).isOutermost '.' '[' = true := by decide
  rw [pieces, piecesFrom, if_neg hb]
  cases hp : piecesFrom ((start 0).next '[') rest with
  | nil => cases piecesFrom_ne_nil _ _ hp
  | cons first others => exact ⟨first, others, rfl⟩

/-! ### Brackets -/

/-- No bracket is open any more after the one that closes the last. -/
theorem depth_of_closeFrom {s : Scanner} {text content after : List Char}
    (h : closeFrom s text = some (content, after)) :
  (s.run (content ++ [']'])).depth = 0
  := by
  induction text generalizing s content with
  | nil => cases h
  | cons c rest ih =>
    rw [closeFrom] at h
    split at h
    · rename_i hc
      obtain ⟨rfl, -⟩ := Prod.mk.inj (Option.some.inj h)
      simp only [isOutermost, Bool.and_eq_true, beq_iff_eq] at hc
      rw [← hc.1.2]
      apply hc.2
    · obtain ⟨⟨inner, tail⟩, hi, he⟩ := Option.map_eq_some_iff.mp h
      obtain ⟨rfl, rfl⟩ := Prod.mk.inj he
      apply ih hi

/-- No character of a name without brackets ends it. -/
theorem ne_bracket_of_mem {name : List Char} (h : '[' ∉ name) :
  ∀ c ∈ name, (c != '[') = true
  := by
  intro c hc
  rw [bne_iff_ne]
  rintro rfl
  apply h hc

/-- A component is split at its first bracket. -/
theorem splitBracket_of_bracket {name : List Char} (h : '[' ∉ name) (rest : List Char) :
  splitBracket (name ++ '[' :: rest) = (name, some (.ofRest rest))
  := by
  rw [splitBracket, List.takeWhile_append_of_pos (ne_bracket_of_mem h),
    List.dropWhile_append_of_pos (ne_bracket_of_mem h)]
  simp

/-- A component without a bracket is a name. -/
theorem splitBracket_of_simple {name : List Char} (h : '[' ∉ name) :
  splitBracket name = (name, none)
  := by
  rw [splitBracket, ← List.append_nil name, List.takeWhile_append_of_pos,
    List.dropWhile_append_of_pos]
  · simp
  · apply ne_bracket_of_mem h
  · simpa using ne_bracket_of_mem h

/-- A dot outside every bracket ends a piece, so that no dot stands before the first bracket of
one: not of a later piece, and not of the first if the scanner is settled where it starts. -/
theorem dot_not_mem_name {s : Scanner} (h : s.Sound) {text first : List Char}
    {others : List (List Char)} (hp : piecesFrom s text = first :: others) :
  (s.Settled → '.' ∉ (splitBracket first).1)
    ∧ ∀ piece ∈ others, '.' ∉ (splitBracket piece).1
  := by
  induction text generalizing s first others with
  | nil =>
    cases hp
    exact ⟨fun _ => List.not_mem_nil, nofun⟩
  | cons c rest ih =>
    obtain ⟨next, more, hn⟩ := List.exists_cons_of_ne_nil (piecesFrom_ne_nil (s.next c) rest)
    obtain ⟨hnext, hmore⟩ := ih (h.next c) hn
    rw [piecesFrom, hn] at hp
    split at hp
    · rename_i ho
      obtain ⟨-, -, hs⟩ := h.settled_of_isOutermost ho
      cases hp
      exact ⟨fun _ => List.not_mem_nil, List.forall_mem_cons.mpr ⟨hnext hs, hmore⟩⟩
    · rename_i ho
      cases hp
      refine ⟨?_, hmore⟩
      intro hs
      by_cases hb : c = '['
      · rw [hb]
        exact List.not_mem_nil
      · have hd : c ≠ '.' := by
          rintro rfl
          apply ho hs.isOutermost_dot
        have hc : (splitBracket (c :: next)).1 = c :: (splitBracket next).1 :=
          List.takeWhile_cons_of_pos (p := (· != '[')) (bne_iff_ne.mpr hb)
        rw [hc]
        exact List.not_mem_cons_of_ne_of_not_mem (Ne.symm hd) (hnext (hs.next hb))

/-- The name of a component holds neither a dot nor a bracket. -/
theorem simple_name_of_mem_components {path component : List Char}
    (h : component ∈ components path) :
  '.' ∉ (splitBracket component).1 ∧ '[' ∉ (splitBracket component).1
  := by
  constructor
  · obtain ⟨first, others, hp⟩ := List.exists_cons_of_ne_nil (piecesFrom_ne_nil (start 0) path)
    obtain ⟨hf, ho⟩ := dot_not_mem_name (sound_start 0) hp
    have hm : component ∈ first :: others := hp ▸ (List.mem_filter.mp h).1
    rcases List.mem_cons.mp hm with rfl | hm
    · apply hf settled_start
    · apply ho component hm
  · intro hb
    have ha := List.all_eq_true.mp List.all_takeWhile _ hb
    cases ha

/-- A component at whose end the scanner is inside a bracket has an unbalanced bracket. -/
theorem splitBracket_of_open {component : List Char}
    (h : 0 < ((start 0).run component).depth) :
  ∃ name rest, splitBracket component = (name, some (.unbalanced rest))
  := by
  have hb : '[' ∈ component := by
    apply Decidable.byContradiction
    intro hn
    have := (settled_start.run hn).depth
    omega
  obtain ⟨name, rest, rfl, hn⟩ := List.eq_append_cons_of_mem hb
  refine ⟨name, rest, ?_⟩
  rw [splitBracket_of_bracket hn, Bracket.ofRest]
  split
  · rename_i content hc
    have hs := (settled_start.run hn).next_bracket.run rest
    have hz := depth_of_closeFrom hc
    rw [append_eq_of_closeFrom hc, ← hs.depth] at hz
    rw [run_append] at h
    cases Nat.ne_of_gt h hz
  · rfl

/-- If the scanner is inside a bracket at the end of a path, some component of the path has an
unbalanced bracket. -/
theorem exists_unbalanced_of_open {path : List Char} (h : ¬ ((start 0).run path).Settled) :
  ∃ component ∈ components path, ∃ name rest,
    splitBracket component = (name, some (.unbalanced rest))
  := by
  have hs : ((start 0).run path).Sound := (sound_start 0).run path
  have hd : 0 < ((start 0).run path).depth := Nat.pos_of_ne_zero (mt hs.settled h)
  obtain ⟨before, last, t, hp, hr, ht⟩ := exists_last_piece (sound_start 0) path
  have hts : t.Settled := by
    rcases ht with ⟨-, rfl⟩ | ⟨-, ht⟩
    · apply settled_start
    · apply ht
  rw [hr, (hts.alike_start.run last).depth] at hd
  refine ⟨last, ?_, splitBracket_of_open hd⟩
  rw [components, pieces, hp]
  cases last with
  | nil => cases hd
  | cons c rest => simp

end JsonAudit
