import JsonAudit.Proofs.Path.Splitting
import Mathlib.Data.List.Basic

/-!
# Components put together again

A path is its components with dots between them: `Dotted` says how many may stand where.  Each
component is a component on its own, and all but the last leave the scanner settled, so that
components joined by single dots are the same components again.  `pathComponents_lossless` says
all of this of every path.
-/

namespace JsonAudit

open Scanner

/-! ### Cutting at the first separating dot -/

/-- A text is one piece, or it is cut at a first dot after which the scanner is settled. -/
theorem piecesFrom_cut {s : Scanner} (h : s.Sound) (text : List Char) :
  piecesFrom s text = [text]
    ∨ ∃ before after, text = before ++ '.' :: after ∧ (s.run before).Settled
      ∧ piecesFrom s before = [before]
  := by
  induction text generalizing s with
  | nil => exact .inl rfl
  | cons c rest ih =>
    by_cases ho : s.isOutermost '.' c = true
    · obtain ⟨rfl, hs, -⟩ := h.settled_of_isOutermost ho
      exact .inr ⟨[], rest, rfl, hs, rfl⟩
    · rcases ih (h.next c) with hw | ⟨before, after, rfl, hs, hb⟩
      · left
        rw [piecesFrom, if_neg ho, hw, List.modifyHead_cons]
      · right
        refine ⟨c :: before, after, rfl, hs, ?_⟩
        rw [piecesFrom, if_neg ho, hb, List.modifyHead_cons]

/-- What holds of a text that is one piece, and of a text cut at its first separating dot if it
holds of what follows the dot, holds of every path. -/
theorem pieces_induction {motive : List Char → Prop}
    (whole : ∀ path, pieces path = [path] → motive path)
    (cut : ∀ before after, ((start 0).run before).Settled → pieces before = [before] →
      motive after → motive (before ++ '.' :: after))
    (path : List Char) :
  motive path
  := by
  rcases piecesFrom_cut (sound_start 0) path with hw | ⟨before, after, hp, hs, hb⟩
  · apply whole path hw
  · have : after.length < path.length := by
      rw [hp, List.length_append, List.length_cons]
      omega
    rw [hp]
    apply cut before after hs hb
    apply pieces_induction whole cut after
termination_by path.length

/-- A text that is one piece is one component if it is not empty. -/
theorem components_of_pieces {text : List Char} (hn : text ≠ []) (h : pieces text = [text]) :
  components text = [text]
  := by
  have he : text.isEmpty = false := List.isEmpty_eq_false_iff.mpr hn
  simp [components, h, he]

/-! ### Lists of components -/

/-- The components of paths joined by single dots are those of all the paths, if every path but
the last leaves the scanner settled. -/
theorem components_intercalate {paths : List (List Char)}
    (h : ∀ path ∈ paths.dropLast, ((start 0).run path).Settled) :
  components (['.'].intercalate paths) = paths.flatMap components
  := by
  induction paths with
  | nil => rfl
  | cons path rest ih =>
    cases rest with
    | nil => rw [List.intercalate_singleton, List.flatMap_singleton]
    | cons next others =>
      rw [List.dropLast_cons_cons] at h
      obtain ⟨hs, hr⟩ := List.forall_mem_cons.mp h
      rw [List.intercalate_cons_cons, List.append_assoc, List.singleton_append,
        components_append_dot hs, ih hr, ← List.flatMap_cons]

/-- The texts are components, and stay so when dots are put between them. -/
structure AreComponents (texts : List (List Char)) : Prop where
  alone : ∀ text ∈ texts, components text = [text]
  settled : ∀ text ∈ texts.dropLast, ((start 0).run text).Settled

/-- A component that leaves the scanner settled can stand before others. -/
theorem AreComponents.cons {text : List Char} {rest : List (List Char)}
    (ht : components text = [text]) (hs : ((start 0).run text).Settled)
    (h : AreComponents rest) :
  AreComponents (text :: rest)
  := by
  constructor
  · exact List.forall_mem_cons.mpr ⟨ht, h.alone⟩
  · cases rest with
    | nil => nofun
    | cons next others =>
      rw [List.dropLast_cons_cons]
      exact List.forall_mem_cons.mpr ⟨hs, h.settled⟩

/-- Components joined by single dots are the components of the path that they make. -/
theorem AreComponents.components_intercalate {texts : List (List Char)}
    (h : AreComponents texts) :
  components (['.'].intercalate texts) = texts
  := by
  rw [JsonAudit.components_intercalate h.settled, List.flatMap_congr h.alone,
    List.flatMap_singleton']

/-- The components of a path are components, each of its own. -/
theorem areComponents_components (path : List Char) :
  AreComponents (components path)
  := by
  induction path using pieces_induction with
  | whole path hp =>
    by_cases hn : path = []
    · subst hn
      exact ⟨nofun, nofun⟩
    · have hc := components_of_pieces hn hp
      rw [hc]
      exact ⟨List.forall_mem_singleton.mpr hc, nofun⟩
  | cut before after hs hb ih =>
    rw [components_append_dot hs]
    by_cases hn : before = []
    · subst hn
      exact ih
    · have hc := components_of_pieces hn hb
      rw [hc]
      exact ih.cons hc hs

/-! ### Dots -/

/-- The path is the components in their order: `least` dots or more before the first, one or more
between neighbours, and any number after the last. -/
inductive Dotted : Nat → List (List Char) → List Char → Prop where
  | last (least count : Nat) : Dotted least [] (List.replicate count '.')
  | next {least count : Nat} {component after : List Char} {rest : List (List Char)} :
    least ≤ count → Dotted 1 rest after →
      Dotted least (component :: rest) (List.replicate count '.' ++ component ++ after)

/-- One more dot may stand before a path. -/
theorem Dotted.dot {least : Nat} {texts : List (List Char)} {path : List Char}
    (h : Dotted least texts path) :
  Dotted (least + 1) texts ('.' :: path)
  := by
  cases h with
  | last _ count => exact .last (least + 1) (count + 1)
  | next hc hr => exact .next (Nat.succ_le_succ hc) hr

/-- Fewer dots can be asked for before the first component. -/
theorem Dotted.of_le {least least' : Nat} (hl : least' ≤ least) {texts : List (List Char)}
    {path : List Char} (h : Dotted least texts path) :
  Dotted least' texts path
  := by
  cases h with
  | last _ count => apply Dotted.last
  | next hc hr => exact .next (Nat.le_trans hl hc) hr

/-- A path is its components with dots between them and around them. -/
theorem dotted_components (path : List Char) :
  Dotted 0 (components path) path
  := by
  induction path using pieces_induction with
  | whole path hp =>
    by_cases hn : path = []
    · subst hn
      exact .last 0 0
    · have hd : Dotted 0 [path] (List.replicate 0 '.' ++ path ++ List.replicate 0 '.') :=
        .next (Nat.le_refl 0) (.last 1 0)
      rw [components_of_pieces hn hp]
      simpa using hd
  | cut before after hs hb ih =>
    rw [components_append_dot hs]
    by_cases hn : before = []
    · subst hn
      exact ih.dot.of_le (Nat.zero_le 1)
    · rw [components_of_pieces hn hb]
      exact .next (Nat.le_refl 0) ih.dot

/-! ### Paths as strings -/

/-- The components of a path as strings have the characters of those of its text. -/
theorem toList_pathComponents (path : String) :
  (pathComponents path).map String.toList = components path.toList
  := by
  rw [pathComponents, List.map_map]
  apply List.map_id''
  apply String.toList_ofList

/-- Splitting a path loses nothing but the number of the dots: the components are not empty and
are components each on its own, the path is these with dots between and around them, and joined
by single dots they are its components again.  After a path at whose end no bracket is open the
components of what follows a dot are added. -/
theorem pathComponents_lossless (path : String) :
  (∀ component ∈ pathComponents path,
      component ≠ "" ∧ pathComponents component = [component])
    ∧ Dotted 0 ((pathComponents path).map String.toList) path.toList
    ∧ pathComponents (".".intercalate (pathComponents path)) = pathComponents path
    ∧ ∀ after : String, ((start 0).run path.toList).depth = 0 →
      pathComponents (path ++ "." ++ after) = pathComponents path ++ pathComponents after
  := by
  have ha := areComponents_components path.toList
  refine ⟨?_, ?_, ?_, ?_⟩
  · intro component hc
    obtain ⟨text, ht, rfl⟩ := List.mem_map.mp hc
    have hn : text ≠ [] := by
      rintro rfl
      cases (List.mem_filter.mp ht).2
    constructor
    · rwa [ne_eq, String.ofList_eq_empty_iff]
    · rw [pathComponents, String.toList_ofList, ha.alone text ht, List.map_singleton]
  · rw [toList_pathComponents]
    apply dotted_components
  · have hj : (".".intercalate (pathComponents path)).toList
        = ['.'].intercalate (components path.toList) := by
      rw [String.toList_intercalate, toList_pathComponents]
      rfl
    rw [pathComponents, hj, ha.components_intercalate]
    rfl
  · intro after hd
    have hs := ((sound_start 0).run path.toList).settled hd
    have hl : (path ++ "." ++ after).toList = path.toList ++ '.' :: after.toList := by
      simp [String.toList_append]
    rw [pathComponents, hl, components_append_dot hs, List.map_append]
    rfl

/-- A quoted bracket and dot, doubled dots, and dots at both ends, before a bracket that never
closes. -/
theorem pathComponents_lossless_rows :
  ((start 0).run ".rows[@.at=='x.y]']..id.".toList).depth = 0
    ∧ "rows[@.at=='x.y]']" ∈ pathComponents ".rows[@.at=='x.y]']..id."
    ∧ pathComponents "rows[@.at=='x.y]']" = ["rows[@.at=='x.y]']"]
    ∧ pathComponents (".rows[@.at=='x.y]']..id." ++ "." ++ "[0.b")
      = ["rows[@.at=='x.y]']", "id", "[0.b"]
  := by
  have hd : ((start 0).run ".rows[@.at=='x.y]']..id.".toList).depth = 0 := by decide +kernel
  have hm : "rows[@.at=='x.y]']" ∈ pathComponents ".rows[@.at=='x.y]']..id." := by
    decide +kernel
  obtain ⟨hc, -, -, ha⟩ := pathComponents_lossless ".rows[@.at=='x.y]']..id."
  refine ⟨hd, hm, (hc _ hm).2, ?_⟩
  rw [ha "[0.b" hd]
  decide +kernel

end JsonAudit
