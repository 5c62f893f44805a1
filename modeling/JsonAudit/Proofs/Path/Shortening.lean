import JsonAudit.Proofs.Path.Rendering
import JsonAudit.Proofs.Path.Resplitting
import Mathlib.Data.List.DropRight

/-!
# Shortened paths

The last components of a path, joined by dots, are components of the path that they make.  So
shortening a path is taking the last of its components (`pathComponents_shortPath`), whatever they
hold: shortening twice is shortening once to the lesser number, and a base before a path is not
seen if the path has components enough.
-/

namespace JsonAudit

open Scanner

/-! ### The end of a list -/

/-- The last items of the last items are the last ones, as many as the fewer. -/
theorem rtake_rtake {α : Type} (items : List α) (n m : Nat) :
  (items.rtake n).rtake m = items.rtake (min n m)
  := by
  simp only [List.rtake_eq_reverse_take_reverse, List.reverse_reverse, List.take_take,
    Nat.min_comm m n]

theorem length_rtake {α : Type} (items : List α) (n : Nat) :
  (items.rtake n).length = min n items.length
  := by
  rw [List.rtake_eq_reverse_take_reverse, List.length_reverse, List.length_take,
    List.length_reverse]

/-- What stands before enough items does not matter to the last ones. -/
theorem rtake_append_of_le {α : Type} {n : Nat} {items : List α} (h : n ≤ items.length)
    (before : List α) :
  (before ++ items).rtake n = items.rtake n
  := by
  rw [List.rtake, List.rtake, List.length_append, Nat.add_sub_assoc h, List.drop_length_add_append]

/-! ### Components -/

/-- The end of a list of components is one. -/
theorem AreComponents.of_suffix {texts rest : List (List Char)} (h : AreComponents texts)
    (hs : rest <:+ texts) :
  AreComponents rest
  := by
  obtain ⟨before, rfl⟩ := hs
  constructor
  · exact (List.forall_mem_append.mp h.alone).2
  · by_cases hn : rest = []
    · rw [hn]
      nofun
    · have hd := h.settled
      rw [List.dropLast_append_of_ne_nil hn] at hd
      exact (List.forall_mem_append.mp hd).2

/-- A short path is the last components with dots between them. -/
theorem shortPath_eq (path : String) (count : Nat) :
  shortPath path count = ".".intercalate ((pathComponents path).rtake count)
  := rfl

/-- The last components of a path are the components of the shortened path. -/
theorem pathComponents_shortPath (path : String) (count : Nat) :
  pathComponents (shortPath path count) = (pathComponents path).rtake count
  := by
  have ha : AreComponents (((pathComponents path).rtake count).map String.toList) := by
    apply (areComponents_components path.toList).of_suffix
    rw [← toList_pathComponents]
    exact (List.drop_suffix _ _).map _
  have hj : (shortPath path count).toList
      = ['.'].intercalate (((pathComponents path).rtake count).map String.toList) := by
    rw [shortPath_eq, String.toList_intercalate]
    rfl
  rw [pathComponents, hj, ha.components_intercalate, List.map_map]
  apply List.map_id''
  apply String.ofList_toList

/-- Behind a base that leaves no bracket open the components of a path are its own. -/
theorem pathComponents_joinPath {base path : String}
    (hb : ((start 0).run base.toList).depth = 0) (hp : opensBracket path = false) :
  pathComponents (joinPath base path) = pathComponents base ++ pathComponents path
  := by
  by_cases hbe : base = ""
  · rw [hbe, joinPath_empty_left]
    rfl
  by_cases hpe : path = ""
  · rw [hpe, joinPath_empty_right]
    symm
    apply List.append_nil
  have hs := ((sound_start 0).run base.toList).settled hb
  have hl : (joinPath base path).toList = base.toList ++ '.' :: path.toList := by
    rw [joinPath_of_no_bracket hbe hpe hp]
    simp [String.toList_append]
  rw [pathComponents, hl, components_append_dot hs, List.map_append]
  rfl

/-- Shortening a path keeps its last components, no more than it has: they are the components of
what it gives.  To shorten twice is to shorten once to the lesser number, and a base at whose end
no bracket is open does not show if a path that does not begin with a bracket has components
enough. -/
theorem shortPath_keeps_last (path : String) :
  (∀ count, pathComponents (shortPath path count) <:+ pathComponents path
      ∧ (pathComponents (shortPath path count)).length = min count (pathComponents path).length)
    ∧ (∀ count count',
      shortPath (shortPath path count) count' = shortPath path (min count count'))
    ∧ ∀ (base : String) (count : Nat), ((start 0).run base.toList).depth = 0 →
      opensBracket path = false → count ≤ (pathComponents path).length →
      shortPath (joinPath base path) count = shortPath path count
  := by
  refine ⟨?_, ?_, ?_⟩
  · intro count
    rw [pathComponents_shortPath]
    exact ⟨List.drop_suffix _ _, length_rtake _ _⟩
  · intro count count'
    rw [shortPath_eq (shortPath path count), pathComponents_shortPath, rtake_rtake, shortPath_eq]
  · intro base count hb hp hc
    rw [shortPath_eq, pathComponents_joinPath hb hp, rtake_append_of_le hc, shortPath_eq]

/-- The last component has a dot inside a quoted literal and a bracket that never closes; the base
ends in a dot of its own. -/
theorem shortPath_keeps_last_rows :
  ((start 0).run "rows[@.at==']'].".toList).depth = 0
    ∧ opensBracket "a..b.c[@.k=='x.y" = false
    ∧ 2 ≤ (pathComponents "a..b.c[@.k=='x.y").length
    ∧ shortPath (joinPath "rows[@.at==']']." "a..b.c[@.k=='x.y") 2 = "b.c[@.k=='x.y"
  := by
  have hd : ((start 0).run "rows[@.at==']'].".toList).depth = 0 := by decide +kernel
  have hp : opensBracket "a..b.c[@.k=='x.y" = false := by decide +kernel
  have hc : 2 ≤ (pathComponents "a..b.c[@.k=='x.y").length := by decide +kernel
  refine ⟨hd, hp, hc, ?_⟩
  rw [(shortPath_keeps_last "a..b.c[@.k=='x.y").2.2 _ 2 hd hp hc]
  decide +kernel

end JsonAudit
