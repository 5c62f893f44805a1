import JsonAudit.Proofs.Session.Histories

/-!
# The phases of a session

A session is rooted from the time it adopts a document until it drops it, and without a root it
has no records.  A rooted session has a context.  The converse fails: an iteration that goes on
after a visit has dropped the document moves the context all the same, so that the context is set
if a document was adopted or a visit began since the last drop.  This is `Phased`, the invariant
of every state of a run.
-/

namespace JsonAudit

/-! ### Operations on sessions without a root -/

namespace Op

variable {α : Type}

/-- Only a session that has a root moves its context. -/
theorem isInitialized_of_moves {op : Op α} {s : Session} {node found : Location}
    (hp : op.passed = [node]) (hg : op.given s = [found]) :
  s.isInitialized = true
  := by
  cases op with
  | navigate l path =>
    rcases s.navigate_cases l path with ⟨-, hi, -⟩ | ⟨e, notes, hr⟩
    · apply hi
    · rw [given, hr] at hg
      cases hg
  | _ => cases hp

/-- Only a session that has a root enters a record. -/
theorem isInitialized_of_recorded {op : Op α} {s : Session} {entry : String × Record}
    (h : op.recorded s = some entry) :
  s.isInitialized = true
  := by
  cases op with
  | record c =>
    rcases s.record_cases c with ⟨key, record, hi, -⟩ | hr
    · apply hi
    · rw [recorded, hr] at h
      cases h
  | _ => cases h

/-- No operation changes the settings. -/
theorem settings_run (op : Op α) (s : Session) :
  (op.run s).session.settings = s.settings
  := by
  cases op.effect s with
  | stays he => rw [he]
  | adopts value _ he =>
    rw [he]
    rfl
  | drops he =>
    rw [he]
    rfl
  | moves node found path _ _ _ he =>
    rw [he]
    rfl
  | records key record he => rw [he]

end Op

namespace Moment

/-- The document is taken away. -/
def drops : Moment → Bool
  | call _ op _ => op.drops
  | _ => false

/-- A visit begins. -/
def isVisit : Moment → Bool
  | visit _ _ _ => true
  | _ => false

/-- No moment changes the settings. -/
theorem Follows.settings {past : List Moment} {s : Session} {m : Moment} (h : m.Follows past s) :
  m.after.settings = s.settings
  := by
  cases m with
  | call depth op before =>
    obtain rfl : before = s := h
    apply op.settings_run
  | iterate depth node before =>
    obtain rfl : before = s := h
    rfl
  | visit depth child after =>
    obtain ⟨rfl, -⟩ := h
    rfl

end Moment

/-! ### The invariant -/

/-- After the moments the session has a root if it adopted a document and did not drop it since,
and a context if a document was adopted or a visit began since the last drop; without a root it
has no records. -/
structure Session.Phased (past : List Moment) (s : Session) : Prop where
  root : s.root.isSome = true
    ↔ Since (fun m => m.drops = false) (fun m => m.adopts = true) past
  current : s.current.isSome = true
    ↔ Since (fun m => m.drops = false) (fun m => m.adopts = true ∨ m.isVisit = true) past
  table : s.root = none → s.table = .empty

namespace Session

theorem phased_new (settings : Settings) :
  (new settings).Phased []
  where
  root := ⟨nofun, fun h => absurd h not_since_nil⟩
  current := ⟨nofun, fun h => absurd h not_since_nil⟩
  table _ := rfl

/-- A session with a root has a context. -/
theorem Phased.isSome_current {past : List Moment} {s : Session} (h : s.Phased past)
    (hr : s.root.isSome = true) :
  s.current.isSome = true
  := by
  apply h.current.mpr
  apply (h.root.mp hr).mono
  intro m hm
  left
  apply hm

/-- A moment at which the session neither adopts nor drops a document keeps the phase, if the
context is set by a visit only, and records are entered with a root only. -/
theorem Phased.keep {past : List Moment} {s t : Session} {m : Moment} (h : s.Phased past)
    (hm : m.adopts = false) (hd : m.drops = false) (hr : t.root = s.root)
    (hc : t.current.isSome = (m.isVisit || s.current.isSome))
    (ht : s.root = none → t.table = s.table) :
  t.Phased (past ++ [m])
  where
  root := by
    rw [since_snoc, hm, hd, hr, h.root]
    simp
  current := by
    rw [since_snoc, hm, hd, hc, Bool.or_eq_true, h.current]
    simp
  table hn := by
    rw [hr] at hn
    rw [ht hn, h.table hn]

/-- After an operation a session is in the phase of the history with the call. -/
theorem Phased.call {past : List Moment} {s : Session} (h : s.Phased past) (depth : Nat)
    {α : Type} (op : Op α) :
  (op.run s).session.Phased (past ++ [.call depth op s])
  := by
  cases op.effect s with
  | stays he ha hd =>
    rw [he]
    refine h.keep (m := .call depth op s) ha hd rfl rfl ?_
    intro _
    rfl
  | adopts value _ he ha =>
    rw [he]
    constructor
    · exact ⟨fun _ => since_snoc.mpr (.inl ha), fun _ => rfl⟩
    · exact ⟨fun _ => since_snoc.mpr (.inl (.inl ha)), fun _ => rfl⟩
    · nofun
  | drops he ha hd =>
    rw [he]
    have hn : (Moment.call depth op s).drops = true := hd
    have hm : (Moment.call depth op s).adopts = false := ha
    constructor
    · rw [since_snoc, hm, hn]
      simp [new]
    · rw [since_snoc, hm, hn]
      simp [new, Moment.isVisit]
    · intro _
      rfl
  | moves node found path hp _ _ he ha hd _ hg =>
    have hi := op.isInitialized_of_moves hp hg
    rw [he]
    refine h.keep (m := .call depth op s) ha hd rfl ?_ ?_
    · symm
      apply h.isSome_current hi
    · intro _
      rfl
  | records key record he ha hd hr =>
    have hi := op.isInitialized_of_recorded hr
    rw [he]
    refine h.keep (m := .call depth op s) ha hd rfl rfl ?_
    intro hn
    rw [isInitialized, hn] at hi
    cases hi

/-- Every moment keeps the session in its phases. -/
theorem Phased.step {past : List Moment} {s : Session} {m : Moment} (h : s.Phased past)
    (hf : m.Follows past s) :
  m.after.Phased (past ++ [m])
  := by
  cases m with
  | call depth op before =>
    obtain rfl : before = s := hf
    apply h.call
  | iterate depth node before =>
    obtain rfl : before = s := hf
    refine h.keep rfl rfl rfl rfl ?_
    intro _
    rfl
  | visit depth child after =>
    obtain ⟨rfl, -⟩ := hf
    refine h.keep rfl rfl rfl rfl ?_
    intro _
    rfl

end Session

/-! ### States of runs -/

/-- The session is a state of a run: a new session, or what one is after the first moments of a
script. -/
def Session.Reachable (s : Session) : Prop :=
  ∃ settings start, Session.withSettings settings = .ok start
    ∧ ∃ (β : Type) (script : Script β) (earlier later : List Moment),
      (script.run 0 start).history = earlier ++ later ∧ s = start.afterAll earlier

/-- A session that is made is new, and can be made again with the settings that it has. -/
theorem Session.of_withSettings {settings : Settings} {s : Session}
    (h : withSettings settings = .ok s) :
  s = .new settings ∧ withSettings s.settings = .ok s
  := by
  have hs : s = .new settings := by
    rw [withSettings] at h
    cases hc : settings.check with
    | error e =>
      rw [hc] at h
      cases h
    | ok =>
      rw [hc] at h
      cases h
      rfl
  subst hs
  exact ⟨rfl, h⟩

/-- The states of a run from a new session are in its phases. -/
theorem Script.phased {β : Type} (script : Script β) (settings : Settings)
    {earlier later : List Moment}
    (h : (script.run 0 (.new settings)).history = earlier ++ later) :
  (Session.afterAll (.new settings) earlier).Phased earlier
  := by
  have hl := (script.run_leads 0 [] (.new settings)).1
  rw [h] at hl
  exact Leads.invariant (P := fun past s => s.Phased past) Session.Phased.step
    (Session.phased_new settings) hl

/-- A reachable session is in the phase of some history. -/
theorem Session.Reachable.phased {s : Session} (h : s.Reachable) :
  ∃ past, s.Phased past
  := by
  obtain ⟨settings, start, hw, β, script, earlier, later, hh, rfl⟩ := h
  obtain ⟨rfl, -⟩ := of_withSettings hw
  exact ⟨earlier, script.phased settings hh⟩

/-- A state of a run has the settings that the session was made with. -/
theorem Session.Reachable.withSettings_eq {s : Session} (h : s.Reachable) :
  withSettings s.settings = .ok (.new s.settings)
  := by
  obtain ⟨settings, start, hw, β, script, earlier, later, hh, rfl⟩ := h
  have hl := (script.run_leads 0 [] start).1
  rw [hh] at hl
  have hs : (start.afterAll earlier).settings = start.settings :=
    Leads.invariant (P := fun _ s => s.settings = start.settings)
      (fun hs hf => hf.settings.trans hs) rfl hl
  obtain ⟨rfl, hn⟩ := of_withSettings hw
  rw [hs]
  apply hn

/-- In every state of a run a session that has a root has a context, and one without a root has no
records; without a root it has a context just if a visit began since the document was dropped. -/
theorem Script.phases {β : Type} (script : Script β) (settings : Settings)
    {earlier later : List Moment}
    (h : (script.run 0 (.new settings)).history = earlier ++ later) :
  ((Session.afterAll (.new settings) earlier).root.isSome = true →
      (Session.afterAll (.new settings) earlier).current.isSome = true)
    ∧ ((Session.afterAll (.new settings) earlier).root = none →
      (Session.afterAll (.new settings) earlier).table = .empty
        ∧ ((Session.afterAll (.new settings) earlier).current.isSome = true
          ↔ Since (fun m => m.drops = false) (fun m => m.isVisit = true) earlier))
  := by
  have hp := script.phased settings h
  refine ⟨hp.isSome_current, fun hn => ⟨hp.table hn, ?_⟩⟩
  have ha : ¬ Since (fun m => m.drops = false) (fun m => m.adopts = true) earlier := by
    rw [← hp.root, hn]
    nofun
  rw [hp.current]
  constructor
  · intro hs
    apply (since_or.mp hs).resolve_left ha
  · intro hs
    apply hs.mono
    intro m hm
    right
    apply hm

theorem distinctNames_pair :
  (Json.array [.bool true, .bool true]).DistinctNames
  := by
  have hb : (Json.bool true).DistinctNames := Json.distinctNames_of_inner_nil rfl
  exact Json.distinctNames_array (List.forall_mem_cons.mpr ⟨hb, List.forall_mem_singleton.mpr hb⟩)

/-- Resets the session on the visits to the elements of an array. -/
def resetOnVisits : Script (Except Error Unit) :=
  .call (.adopt (.array [.bool true, .bool true]) distinctNames_pair) fun
    | .error e => .done (.error e)
    | .ok root =>
      .iterate root (fun _ _ => .call .reset fun answer => .done ((), answer)) () fun _ answer =>
        .done answer

/-- The session at its second visit. -/
def secondVisit : Session :=
  (Session.new {}).afterAll ((resetOnVisits.run 0 (.new {})).history.take 5)

theorem reachable_secondVisit :
  secondVisit.Reachable
  := ⟨{}, .new {}, rfl, _, resetOnVisits, _, _, (List.take_append_drop 5 _).symm, rfl⟩

/-- The second visit begins on a session without a root. -/
theorem phases_resetOnVisits :
  ∃ earlier later, (resetOnVisits.run 0 (.new {})).history = earlier ++ later
    ∧ (Session.afterAll (.new {}) earlier).root = none
    ∧ (Session.afterAll (.new {}) earlier).table = .empty
    ∧ Since (fun m => m.drops = false) (fun m => m.isVisit = true) earlier
  := by
  refine ⟨(resetOnVisits.run 0 (.new {})).history.take 5,
    (resetOnVisits.run 0 (.new {})).history.drop 5, (List.take_append_drop 5 _).symm, rfl, ?_⟩
  obtain ⟨ht, hc⟩ := (resetOnVisits.phases {} (List.take_append_drop 5 _).symm).2 rfl
  exact ⟨ht, hc.mp rfl⟩

/-- A session can have a context although it has no root. -/
theorem reachable_context_without_root :
  ∃ s : Session, s.Reachable ∧ s.root = none ∧ s.current = some ⟨"[1]", .bool true⟩
  := ⟨secondVisit, reachable_secondVisit, rfl, rfl⟩

end JsonAudit
