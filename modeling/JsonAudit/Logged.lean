/-!
# Values with a log

A `Logged ε α` is a value together with the entries that were written while it was found, in
order.  `bind` goes on with the value and writes after what was written before.
-/

namespace JsonAudit

/-- A value and the entries written on the way to it. -/
structure Logged (ε α : Type) where
  entries : List ε
  value : α
deriving DecidableEq, Repr

namespace Logged

variable {ε δ α β γ : Type}

/-- The value, nothing written. -/
def pure (value : α) : Logged ε α := ⟨[], value⟩

/-- The value after one entry. -/
def note (entry : ε) (value : α) : Logged ε α := ⟨[entry], value⟩

/-- The value changed, the log kept. -/
def map (f : α → β) (x : Logged ε α) : Logged ε β := ⟨x.entries, f x.value⟩

/-- The value kept, each entry changed. -/
def mapEntries (f : ε → δ) (x : Logged ε α) : Logged δ α := ⟨x.entries.map f, x.value⟩

/-- What follows from the value, written after what was written before. -/
def bind (x : Logged ε α) (f : α → Logged ε β) : Logged ε β :=
  ⟨x.entries ++ (f x.value).entries, (f x.value).value⟩

/-- What follows from the value if there is one. -/
def andThen (x : Logged ε (Option α)) (f : α → Logged ε (Option β)) : Logged ε (Option β) :=
  x.bind fun
    | some value => f value
    | none => pure none

/-- Going on twice is going on once with both. -/
theorem bind_assoc (x : Logged ε α) (f : α → Logged ε β) (g : β → Logged ε γ) :
  (x.bind f).bind g = x.bind fun value => (f value).bind g
  := by
  simp [bind]

@[simp]
theorem value_pure (value : α) :
  (pure value : Logged ε α).value = value
  := rfl

@[simp]
theorem value_note (entry : ε) (value : α) :
  (note entry value).value = value
  := rfl

@[simp]
theorem value_map (f : α → β) (x : Logged ε α) :
  (x.map f).value = f x.value
  := rfl

@[simp]
theorem value_bind (x : Logged ε α) (f : α → Logged ε β) :
  (x.bind f).value = (f x.value).value
  := rfl

@[simp]
theorem value_andThen (x : Logged ε (Option α)) (f : α → Logged ε (Option β)) :
  (x.andThen f).value = x.value.bind fun value => (f value).value
  := by
  rw [andThen, value_bind]
  cases x.value <;> rfl

/-- Behind a value that was found, what follows from it is written. -/
theorem entries_andThen {x : Logged ε (Option α)} {value : α} (h : x.value = some value)
    (f : α → Logged ε (Option β)) :
  (x.andThen f).entries = x.entries ++ (f value).entries
  := by
  simp only [andThen, bind, h]

/-- Behind nothing, nothing more is written. -/
theorem entries_andThen_of_none {x : Logged ε (Option α)} (h : x.value = none)
    (f : α → Logged ε (Option β)) :
  (x.andThen f).entries = x.entries
  := by
  simp only [andThen, bind, h, pure, List.append_nil]

theorem pure_andThen (value : α) (f : α → Logged ε (Option β)) :
  (pure (some value)).andThen f = f value
  := rfl

/-- Going on twice from what was found is going on once with both. -/
theorem andThen_assoc (x : Logged ε (Option α)) (f : α → Logged ε (Option β))
    (g : β → Logged ε (Option γ)) :
  (x.andThen f).andThen g = x.andThen fun value => (f value).andThen g
  := by
  rw [andThen, andThen, andThen, bind_assoc]
  congr 1
  funext value
  cases value with
  | none => rfl
  | some value => rfl

end Logged

end JsonAudit
