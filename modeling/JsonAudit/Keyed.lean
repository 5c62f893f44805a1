/-!
# Lists of named values

A list of named values is read as a map.  `find?` gives the first value of a name, and `insert`
gives a name its value: in the place of its former value, or at the end.  Names that are
distinct stay distinct, and after `insert` the name has the new value and every other name its
own.
-/

namespace JsonAudit.Keyed

variable {α : Type}

/-- The first value of the name. -/
def find? (name : String) : List (String × α) → Option α
  | [] => none
  | (other, value) :: rest => if other = name then some value else find? name rest

/-- The list in which the name has the value. -/
def insert (name : String) (value : α) : List (String × α) → List (String × α)
  | [] => [(name, value)]
  | (other, former) :: rest =>
    if other = name then (name, value) :: rest
    else (other, former) :: insert name value rest

/-- The names of the list, in order. -/
def names (entries : List (String × α)) : List String := entries.map Prod.fst

/-- Insertion changes what is found under its name, and nothing else. -/
theorem find?_insert (name other : String) (value : α) (entries : List (String × α)) :
  find? other (insert name value entries) = if name = other then some value else find? other entries
  := by
  induction entries with
  | nil => rfl
  | cons entry rest ih =>
    obtain ⟨first, former⟩ := entry
    by_cases h : first = name
    · subst h
      rw [insert, if_pos rfl, find?, find?]
      split <;> rfl
    · rw [insert, if_neg h, find?, find?, ih]
      by_cases h' : first = other
      · subst h'
        rw [if_pos rfl, if_pos rfl, if_neg (Ne.symm h)]
      · rw [if_neg h', if_neg h']

/-- A value that is found stands under its name. -/
theorem mem_of_find? {name : String} {value : α} {entries : List (String × α)}
    (h : find? name entries = some value) :
  (name, value) ∈ entries
  := by
  induction entries with
  | nil => cases h
  | cons entry rest ih =>
    obtain ⟨other, first⟩ := entry
    rw [find?] at h
    split at h
    · rename_i he
      cases h
      rw [he]
      apply List.mem_cons_self
    · apply List.mem_cons_of_mem _ (ih h)

/-- If the names are distinct, every value is found under its name. -/
theorem find?_of_mem {name : String} {value : α} {entries : List (String × α)}
    (hd : (names entries).Nodup) (h : (name, value) ∈ entries) :
  find? name entries = some value
  := by
  induction entries with
  | nil => cases h
  | cons entry rest ih =>
    obtain ⟨other, first⟩ := entry
    obtain ⟨hn, hr⟩ := List.nodup_cons.mp hd
    rw [find?]
    rcases List.mem_cons.mp h with he | hm
    · cases he
      rw [if_pos rfl]
    · have hne : other ≠ name := by
        rintro rfl
        exact hn (List.mem_map.mpr ⟨_, hm, rfl⟩)
      rw [if_neg hne]
      apply ih hr hm

/-- A name under which something is found is among the names. -/
theorem mem_names_of_find? {name : String} {value : α} {entries : List (String × α)}
    (h : find? name entries = some value) :
  name ∈ names entries
  := List.mem_map.mpr ⟨_, mem_of_find? h, rfl⟩

/-- What stands in the list after an insertion was inserted or stood in it before. -/
theorem mem_insert {name : String} {value : α} {entries : List (String × α)}
    {entry : String × α} (h : entry ∈ insert name value entries) :
  entry = (name, value) ∨ entry ∈ entries
  := by
  induction entries with
  | nil =>
    left
    apply List.mem_singleton.mp h
  | cons first rest ih =>
    obtain ⟨other, former⟩ := first
    rw [insert] at h
    split at h
    · rcases List.mem_cons.mp h with he | hm
      · left
        apply he
      · right
        apply List.mem_cons_of_mem _ hm
    · rcases List.mem_cons.mp h with rfl | hm
      · right
        apply List.mem_cons_self
      · apply (ih hm).imp_right
        apply List.mem_cons_of_mem

theorem mem_names_insert {name other : String} {value : α} {entries : List (String × α)} :
  other ∈ names (insert name value entries) ↔ other = name ∨ other ∈ names entries
  := by
  induction entries with
  | nil => simp [insert, names]
  | cons entry rest ih =>
    obtain ⟨first, former⟩ := entry
    by_cases h : first = name
    · subst h
      simp [insert, names]
    · rw [insert, if_neg h]
      simp only [names, List.map_cons, List.mem_cons] at ih ⊢
      rw [ih]
      apply or_left_comm

/-- Insertion keeps names distinct. -/
theorem nodup_names_insert (name : String) (value : α) {entries : List (String × α)}
    (h : (names entries).Nodup) :
  (names (insert name value entries)).Nodup
  := by
  induction entries with
  | nil => simp [insert, names]
  | cons entry rest ih =>
    obtain ⟨first, former⟩ := entry
    obtain ⟨hf, hr⟩ := List.nodup_cons.mp h
    by_cases hn : first = name
    · subst hn
      rw [insert, if_pos rfl]
      exact h
    · rw [insert, if_neg hn]
      refine List.nodup_cons.mpr ⟨?_, ih hr⟩
      intro hm
      rcases mem_names_insert.mp hm with he | he
      · exact hn he
      · exact hf he

end JsonAudit.Keyed
