import JsonAudit.Proofs.Path.Keys
import Mathlib.Data.List.Chain

/-!
# Retracing a canonical path

The keys that a walk records are names of components, so that all its steps can be spelled and
their path is read back step by step.  `resolve_canonical` says when the canonical path of a
located value leads to the value again: exactly when it is not blank and no index follows another
one among the steps.  Otherwise it leads nowhere.
-/

namespace JsonAudit

/-! ### The steps of a walk -/

/-- A property is a component of its own, if it is not empty. -/
theorem isComponent_property {path : List Char} {segment : Segment} (h : segment ∈ parse path)
    (hn : segment.property ≠ "") :
  IsComponent segment.property
  := by
  rw [parse_eq_map] at h
  obtain ⟨component, hc, rfl⟩ := List.mem_map.mp h
  rw [IsComponent, toList_property]
  exact ⟨hn, simple_name_of_mem_components hc⟩

/-- All the steps of a walk can be spelled: its keys are written in the path, and its indices are
those of elements. -/
theorem isSpelled_of_track {path : List Char} {node part : Json} {steps : List Step}
    (hn : ∀ items, node.Part (.array items) → items.length ≤ indexLimit)
    (h : (track (parse path) node).value = some (part, steps)) :
  ∀ step ∈ steps, step.IsSpelled
  := by
  obtain ⟨hd, hk⟩ := value_track h
  rintro (name | i) hs
  · obtain ⟨hne, segment, hm, rfl⟩ := hk name hs
    apply Step.isSpelled_key (isComponent_property hm hne)
  · apply Step.isSpelled_index (Json.index_le_of_descend hn hd hs)

/-! ### The way back -/

/-- The steps are not both indices. -/
def Step.Apart (a b : Step) : Prop := ¬ (a.isIndex = true ∧ b.isIndex = true)

/-- With nothing behind it a position is spaced exactly if no index follows another one. -/
theorem isSpaced_empty_iff (steps : List Step) :
  isSpaced "" steps = true ↔ steps.IsChain Step.Apart
  := by
  induction steps with
  | nil => simp [isSpaced]
  | cons a rest ih =>
    cases rest with
    | nil =>
      have ho : opensBracket "" = false := rfl
      cases a <;> simp [isSpaced, ho]
    | cons b tail =>
      rw [List.isChain_cons_cons, ← ih]
      cases a <;> cases b <;> simp [isSpaced, Step.Apart, Step.isIndex]

/-- The path of spelled steps is traced along the same steps, if it is not blank and the indices
in it are apart; otherwise nothing is traced. -/
theorem value_trace_canonical {node part : Json} {steps : List Step}
    (hs : ∀ step ∈ steps, step.IsSpelled) (h : node.descend steps = some part) :
  (trace (renderPath steps) node).value
    = if isBlankPath (renderPath steps) = false ∧ isSpaced "" steps = true then
        some (part, steps)
      else none
  := by
  cases hb : isBlankPath (renderPath steps) with
  | true =>
    rw [trace, if_pos hb]
    rfl
  | false =>
    have hv := value_track_renderPath hs h ""
    rw [joinPath_empty_right, parsePath_empty] at hv
    rw [trace_of_not_blank hb, hv]
    simp [Entered.value_behind, track]

/-- The canonical path of a located value selects the value again exactly if it is not blank and
no index directly follows another one among the steps of the walk, and then along the same steps;
in every other case it selects nothing. -/
theorem resolve_canonical {node : Json}
    (hn : ∀ items, node.Part (.array items) → items.length ≤ indexLimit) {p : String}
    {l : Location} (h : (locate p node).value = some l) :
  ∃ steps, (trace p node).value = some (l.value, steps)
    ∧ ((resolve l.path node).value = some l.value
      ↔ isBlankPath l.path = false ∧ steps.IsChain Step.Apart)
    ∧ (isBlankPath l.path = false ∧ steps.IsChain Step.Apart →
      (trace l.path node).value = some (l.value, steps))
    ∧ (¬ (isBlankPath l.path = false ∧ steps.IsChain Step.Apart) →
      (resolve l.path node).value = none)
  := by
  obtain ⟨steps, ht, hl⟩ := value_locate_iff.mp h
  have hw := track_of_trace ht
  have hv := value_trace_canonical (isSpelled_of_track hn hw) (value_track hw).1
  rw [← hl] at hv
  have hr : (resolve l.path node).value = (trace l.path node).value.map Prod.fst := by
    rw [resolve_eq_trace, Logged.value_map]
  refine ⟨steps, ht, ?_⟩
  rw [← isSpaced_empty_iff]
  by_cases hc : isBlankPath l.path = false ∧ isSpaced "" steps = true
  · rw [if_pos hc] at hv
    rw [hv] at hr
    exact ⟨iff_of_true hr hc, fun _ => hv, fun hne => absurd hc hne⟩
  · rw [if_neg hc] at hv
    rw [hv] at hr
    refine ⟨iff_of_false ?_ hc, fun hy => absurd hy hc, fun _ => hr⟩
    rw [hr]
    nofun

/-- The predicate without a match and the empty component leave nothing in the canonical path,
and that path leads to the value again. -/
theorem resolve_canonical_rows :
  (∀ items, (Json.object [("rows", .array [.bool true])]).Part (.array items) →
      items.length ≤ indexLimit)
    ∧ (locate "rows[@.id==9]..[0]" (.object [("rows", .array [.bool true])])).value
      = some ⟨"rows[0]", .bool true⟩
    ∧ (resolve "rows[0]" (.object [("rows", .array [.bool true])])).value = some (.bool true)
  := by
  have hp : parsePath "rows[@.id==9]..[0]"
      = [.mk "rows" (some (.predicate (.mk "id" [.mk "id" none] .equal "9"))),
        .mk "" (some (.index 0))] := by
    decide +kernel
  have hb : isBlankPath "rows[@.id==9]..[0]" = false := by decide +kernel
  have ht : (trace "rows[@.id==9]..[0]" (.object [("rows", .array [.bool true])])).value
      = some (.bool true, [.key "rows", .index 0]) := by
    rw [trace, hb, hp]
    rfl
  have hl : (locate "rows[@.id==9]..[0]" (.object [("rows", .array [.bool true])])).value
      = some ⟨"rows[0]", .bool true⟩ := value_locate_iff.mpr ⟨_, ht, by decide⟩
  have hn : ∀ items, (Json.object [("rows", .array [.bool true])]).Part (.array items) →
      items.length ≤ indexLimit := by
    intro items h
    obtain h | ⟨rows, hr, h⟩ := h.eq_or_inner
    · cases h
    cases List.mem_singleton.mp hr
    obtain h | ⟨row, hr, h⟩ := h.eq_or_inner
    · cases h
      decide
    cases List.mem_singleton.mp hr
    obtain h | ⟨value, hv, -⟩ := h.eq_or_inner
    · cases h
    · cases hv
  refine ⟨hn, hl, ?_⟩
  obtain ⟨steps, hs, hr, -⟩ := resolve_canonical hn hl
  cases Option.some.inj (ht.symm.trans hs)
  refine hr.mpr ⟨by decide +kernel, ?_⟩
  rw [← isSpaced_empty_iff]
  rfl

end JsonAudit
