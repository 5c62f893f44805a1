import JsonAudit.Keyed
import Mathlib.Data.List.Forall2

/-!
# Two lists of named values

Two lists with the same names in order, and related values under them, stay so when a name gets
related values, and what is found in them is related.  What is found in a list of distinct names
does not depend on their order.
-/

namespace JsonAudit.Keyed

variable {α : Type} {R : α → α → Prop} {entries entries' : List (String × α)}

/-- Insertion of related values under one name keeps entries related. -/
theorem forall₂_insert {name : String} {value value' : α} (hv : R value value')
    (h : List.Forall₂ (fun entry entry' => entry.1 = entry'.1 ∧ R entry.2 entry'.2)
      entries entries') :
  List.Forall₂ (fun entry entry' => entry.1 = entry'.1 ∧ R entry.2 entry'.2)
    (insert name value entries) (insert name value' entries')
  := by
  induction h with
  | nil => exact .cons ⟨rfl, hv⟩ .nil
  | @cons entry entry' rest rest' he hr ih =>
    obtain ⟨other, former⟩ := entry
    obtain ⟨other', former'⟩ := entry'
    obtain ⟨rfl, hf⟩ := he
    rw [insert, insert]
    split
    · exact .cons ⟨rfl, hv⟩ hr
    · exact .cons ⟨rfl, hf⟩ ih

/-- Related entries have related values under a name, or none. -/
theorem forall₂_find?
    (h : List.Forall₂ (fun entry entry' => entry.1 = entry'.1 ∧ R entry.2 entry'.2)
      entries entries') (name : String) :
  Option.Rel R (find? name entries) (find? name entries')
  := by
  induction h with
  | nil => exact .none
  | @cons entry entry' rest rest' he hr ih =>
    obtain ⟨other, former⟩ := entry
    obtain ⟨other', former'⟩ := entry'
    obtain ⟨rfl, hf⟩ := he
    rw [find?, find?]
    split
    · exact .some hf
    · apply ih

/-- The order of entries does not matter to whether names are distinct. -/
theorem nodup_names_of_perm (h : entries.Perm entries') (hd : (names entries).Nodup) :
  (names entries').Nodup
  := (h.map Prod.fst).nodup_iff.mp hd

/-- In whatever order distinct names stand, each has its value. -/
theorem find?_of_perm (h : entries.Perm entries') (hd : (names entries).Nodup) (name : String) :
  find? name entries = find? name entries'
  := by
  apply Option.ext
  intro value
  constructor
  · intro hf
    apply find?_of_mem (nodup_names_of_perm h hd) (h.mem_iff.mp (mem_of_find? hf))
  · intro hf
    apply find?_of_mem hd (h.mem_iff.mpr (mem_of_find? hf))

end JsonAudit.Keyed
