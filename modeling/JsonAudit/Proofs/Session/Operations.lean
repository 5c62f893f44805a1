import JsonAudit.Proofs.Json.Reading
import JsonAudit.Session.Basic

/-!
# What the operations do

An operation that may fail has two replies: one with an answer, and one with an error that leaves
the session as it is.
-/

namespace JsonAudit.Session

/-- The root that a session gives is its root. -/
theorem root_of_rootLocation {s : Session} {l : Location} (h : s.rootLocation = .ok l) :
  s.root = some l
  := by
  rw [rootLocation] at h
  split at h
  · rename_i hr
    cases h
    apply hr
  · cases h

/-- The context that a session gives is its context. -/
theorem current_of_currentLocation {s : Session} {l : Location}
    (h : s.currentLocation = .ok l) :
  s.current = some l
  := by
  rw [currentLocation] at h
  split at h
  · rename_i hc
    cases h
    apply hc
  · cases h

/-- Every session adopts the document that a text holds, or every session stays as it is. -/
theorem adoptText_cases (text : String) :
  (∃ value, value.DistinctNames ∧ value ≠ .null
      ∧ ∀ s : Session, s.adoptText text = s.adopt value)
    ∨ ∃ e, ∀ s : Session, s.adoptText text = ⟨.error e, s, []⟩
  := by
  simp only [adoptText]
  split
  · right
    exact ⟨_, fun _ => rfl⟩
  · right
    exact ⟨_, fun _ => rfl⟩
  · rename_i value hn hp
    left
    exact ⟨value, distinctNames_of_parseDocument hp, hn, fun _ => rfl⟩

/-- A session moves to what is located, if that is not null, or it stays as it is. -/
theorem navigate_cases (s : Session) (node : Location) (path : String) :
  (∃ found, s.isInitialized = true ∧ (node.locate path).value = some found
      ∧ found.value.isNull = false
      ∧ s.navigate node path = ⟨.ok found, s.moveTo found,
          (node.locate path).entries.map .note ++ [.navigated found.path]⟩)
    ∨ ∃ e notes, s.navigate node path = ⟨.error e, s, List.map .note notes⟩
  := by
  rw [navigate, whenRooted]
  split
  · rename_i hr
    dsimp only
    split
    · rename_i found hf
      left
      obtain ⟨hv, hn⟩ := Option.filter_eq_some_iff.mp hf
      refine ⟨found, ?_, hv, by simpa using hn, rfl⟩
      rw [isInitialized, hr]
      rfl
    · right
      exact ⟨_, _, rfl⟩
  · right
    exact ⟨_, [], rfl⟩

/-- What is navigated to is located, and not null. -/
theorem locate_of_navigate {s : Session} {l found : Location} {path : String}
    (h : (s.navigate l path).answer = .ok found) :
  (l.locate path).value = some found ∧ found.value.isNull = false
  := by
  rcases s.navigate_cases l path with ⟨other, -, hv, hn, hr⟩ | ⟨e, notes, hr⟩
  · rw [hr] at h
    cases h
    exact ⟨hv, hn⟩
  · rw [hr] at h
    cases h

/-- A session enters the outcome of a comparison in its table if it has a root, or it stays as it
is. -/
theorem record_cases {α : Type} [Comparable α] (s : Session) (c : Comparison α) :
  (∃ key record, s.isInitialized = true
      ∧ c.outcome s.settings.displayComponents = (key, record)
      ∧ s.record c = ⟨.ok (s.table.insert key record),
          { s with table := s.table.insert key record }, s.outcomeEvents key record⟩)
    ∨ s.record c = ⟨.error .invalidState, s, []⟩
  := by
  rw [record, whenRooted]
  split
  · rename_i hr
    left
    refine ⟨_, _, ?_, rfl, rfl⟩
    rw [isInitialized, hr]
    rfl
  · right
    rfl

end JsonAudit.Session
