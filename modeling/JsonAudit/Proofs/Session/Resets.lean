import JsonAudit.Proofs.Session.Correspondence
import JsonAudit.Proofs.Session.Phases

/-!
# Sessions without a root

A session without a root is as good as new: whatever it went through before, no script can tell it
from a session just made with the same settings (`Reachable.run_eq_fresh`).  The two can differ in
their context, which an iteration may have set after a reset; but no operation reads the context
before it has seen a root.
-/

namespace JsonAudit

/-! ### Sessions that no operation tells apart -/

/-- The sessions differ at most in a context without a root. -/
structure Session.Indistinct (s t : Session) : Prop where
  root : s.root = t.root
  current : s.root.isSome = true → s.current = t.current
  table : s.table = t.table
  settings : s.settings = t.settings

/-- The same answers and the same events, on sessions that differ at most in a context without a
root. -/
def indistinct : Correspondence where
  sessions := Session.Indistinct
  answers _ answer answer' := answer = answer'
  events events events' := events = events'

namespace Session.Indistinct

variable {s t : Session}

theorem refl (s : Session) :
  s.Indistinct s
  := ⟨rfl, fun _ => rfl, rfl, rfl⟩

/-- Sessions stay indistinct if the context is moved in both. -/
theorem moveTo (l : Location) (h : s.Indistinct t) :
  (s.moveTo l).Indistinct (t.moveTo l)
  := ⟨h.root, fun _ => rfl, h.table, h.settings⟩

/-- Replies that are the same correspond. -/
theorem replies_of_eq {α : Type} {op : Op α} {reply reply' : Reply α} (h : reply = reply') :
  indistinct.Replies op reply reply'
  := by
  subst h
  exact ⟨rfl, refl _, rfl⟩

/-- Indistinct sessions reply alike to every operation, and stay indistinct. -/
theorem reply (h : s.Indistinct t) {α : Type} (op : Op α) :
  indistinct.Replies op (op.run s) (op.run t)
  := by
  obtain ⟨root, current, table, settings⟩ := s
  obtain ⟨root', current', table', settings'⟩ := t
  obtain ⟨rfl, hc, rfl, rfl⟩ := h
  cases root with
  | some root =>
    obtain rfl := hc rfl
    apply replies_of_eq rfl
  | none =>
    have hn : Indistinct ⟨none, current, table, settings⟩ ⟨none, current', table, settings⟩ :=
      ⟨rfl, nofun, rfl, rfl⟩
    cases op with
    | adoptText text =>
      rcases adoptText_cases text with ⟨value, -, -, hr⟩ | ⟨e, hr⟩
      · apply replies_of_eq
        rw [Op.run, Op.run, hr, hr]
        rfl
      · rw [Op.run, Op.run, hr, hr]
        exact ⟨rfl, hn, rfl⟩
    | adopt value distinct => apply replies_of_eq rfl
    | reset => apply replies_of_eq rfl
    | takeTable => apply replies_of_eq rfl
    | _ => exact ⟨rfl, hn, rfl⟩

end Session.Indistinct

theorem kept_indistinct :
  indistinct.Kept
  where
  rooted h := by rw [Session.isInitialized, h.root, Session.isInitialized]
  moveTo := Session.Indistinct.moveTo
  reply op h := h.reply op

/-- Histories whose moments correspond tell of the same events. -/
theorem flatMap_events_eq {history history' : List Moment}
    (h : List.Forall₂ indistinct.Moments history history') :
  history.flatMap Moment.events = history'.flatMap Moment.events
  := by
  induction h with
  | nil => rfl
  | cons hm _ ih =>
    rw [List.flatMap_cons, List.flatMap_cons, ih]
    congr 1
    cases hm with
    | call depth op _ hr => apply hr.events
    | iterate depth node _ => rfl
    | visit depth child _ => rfl

/-! ### Sessions as good as new -/

/-- A state of a run that has no root cannot be told from a session just made with its settings: a
script gets the same answers and makes the same events at each step, and it leaves sessions that
differ at most in a context without a root. -/
theorem Session.Reachable.run_eq_fresh {s : Session} (h : s.Reachable) (hr : s.root = none) :
  ∃ fresh, Session.withSettings s.settings = .ok fresh
    ∧ ∀ {β : Type} (script : Script β) (depth : Nat),
      indistinct.Runs Eq (script.run depth s) (script.run depth fresh)
        ∧ (script.run depth s).events = (script.run depth fresh).events
        ∧ (script.run depth s).session.summary = (script.run depth fresh).session.summary
  := by
  obtain ⟨past, hp⟩ := h.phased
  have hi : s.Indistinct (.new s.settings) := by
    constructor
    · apply hr
    · rw [hr]
      nofun
    · apply hp.table hr
    · rfl
  refine ⟨.new s.settings, h.withSettings_eq, ?_⟩
  intro β script depth
  have hs : indistinct.Scripts Eq script script :=
    Correspondence.scripts_refl (fun _ _ _ he => he) script fun _ => rfl
  have hruns := kept_indistinct.run hs depth hi
  refine ⟨hruns, ?_, ?_⟩
  · rw [script.events_run, script.events_run]
    apply flatMap_events_eq hruns.history
  · rw [summary, summary, hruns.session.table]

/-- Asks for the context before and after a document is adopted. -/
def askContext : Script (Except Error Location × Except Error Location) :=
  .call .current fun before =>
    .call (.adopt (.array [.bool true, .bool true]) distinctNames_pair) fun _ =>
      .call .current fun after => .done (before, after)

/-- The context that was set after a reset is not seen. -/
theorem run_eq_fresh_secondVisit :
  secondVisit.Reachable ∧ secondVisit.root = none ∧ secondVisit.current.isSome = true
    ∧ ∃ fresh, Session.withSettings {} = .ok fresh
      ∧ (askContext.run 0 secondVisit).result = (askContext.run 0 fresh).result
      ∧ (askContext.run 0 secondVisit).result.1 = .error .invalidState
  := by
  obtain ⟨fresh, hf, hr⟩ := reachable_secondVisit.run_eq_fresh rfl
  exact ⟨reachable_secondVisit, rfl, rfl, fresh, hf, (hr askContext 0).1.result, rfl⟩

end JsonAudit
