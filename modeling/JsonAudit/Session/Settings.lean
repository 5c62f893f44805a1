import JsonAudit.Error

/-!
# Settings

The `Settings` of a session say how many components of a key a message shows, and whether
outcomes are logged.  They are valid if at least one component is shown.
-/

namespace JsonAudit

/-- The settings of a session. -/
structure Settings where
  /-- The number of components of a key that a message shows. -/
  displayComponents : Nat := 2
  /-- Every outcome is logged when it is recorded. -/
  logOutcomes : Bool := true
deriving DecidableEq, Repr

/-- The settings show something of every key. -/
def Settings.check (settings : Settings) : Except Error Unit :=
  if settings.displayComponents == 0 then
    .error (.invalidSettings "display_components must be at least 1")
  else
    .ok ()

end JsonAudit
