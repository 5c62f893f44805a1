import Mathlib.Data.List.Forall2
import JsonAudit.Session.Script

/-!
# Two runs beside each other

A `Correspondence` says which sessions, answers and events of two runs correspond.  If every
operation gives corresponding replies on corresponding sessions (`Kept`), two scripts that go on in
a corresponding way wherever their answers correspond (`Scripts`) have corresponding runs, moment
by moment: this is `Kept.run`.
-/

namespace JsonAudit

/-- What sessions, answers to an operation, and events of two runs have in common. -/
structure Correspondence where
  sessions : Session → Session → Prop
  answers : {α : Type} → Op α → Except Error α → Except Error α → Prop
  events : List Event → List Event → Prop

namespace Correspondence

universe u

variable (c : Correspondence)

/-- The replies to an operation correspond in all their parts. -/
structure Replies {α : Type} (op : Op α) (reply reply' : Reply α) : Prop where
  answer : c.answers op reply.answer reply'.answer
  session : c.sessions reply.session reply'.session
  events : c.events reply.events reply'.events

/-- The same happened to sessions that correspond, and the replies correspond. -/
inductive Moments : Moment → Moment → Prop where
  | call {α : Type} (depth : Nat) (op : Op α) {s t : Session} :
    c.sessions s t → c.Replies op (op.run s) (op.run t) →
    Moments (.call depth op s) (.call depth op t)
  | iterate (depth : Nat) (node : Location) {s t : Session} :
    c.sessions s t → Moments (.iterate depth node s) (.iterate depth node t)
  | visit (depth : Nat) (child : Location) {s t : Session} :
    c.sessions s t → Moments (.visit depth child s) (.visit depth child t)

/-- The scripts call the same operations as long as the answers correspond, their visitors keep
corresponding states, and in the end their results are related. -/
inductive Scripts : {β : Type} → (β → β → Prop) → Script β → Script β → Prop where
  | done {β : Type} {R : β → β → Prop} {result result' : β} :
    R result result' → Scripts R (.done result) (.done result')
  | call {α β : Type} {R : β → β → Prop} (op : Op α) {next next' : Except Error α → Script β} :
    (∀ answer answer', c.answers op answer answer' → Scripts R (next answer) (next' answer')) →
    Scripts R (.call op next) (.call op next')
  | iterate {σ β : Type} {R : β → β → Prop} (node : Location)
    {visitor visitor' : σ → Location → Script (σ × Except Error Unit)} {state state' : σ}
    {next next' : σ → Except Error Unit → Script β} (S : σ → σ → Prop) :
    S state state' →
    (∀ q q' child, S q q' →
      Scripts (fun r r' => S r.1 r'.1 ∧ r.2 = r'.2) (visitor q child) (visitor' q' child)) →
    (∀ q q' answer, S q q' → Scripts R (next q answer) (next' q' answer)) →
    Scripts R (.iterate node visitor state next) (.iterate node visitor' state' next')

/-- What two visitors leave on the visits to one place correspond. -/
structure Visits {σ : Type u} (S : σ → σ → Prop) (visit visit' : σ × Reply Unit) : Prop where
  state : S visit.1 visit'.1
  answer : visit.2.answer = visit'.2.answer
  session : c.sessions visit.2.session visit'.2.session

/-- The runs end in related results and corresponding sessions, and correspond in every moment. -/
structure Runs {β : Type} (R : β → β → Prop) (run run' : Run β) : Prop where
  result : R run.result run'.result
  session : c.sessions run.session run'.session
  history : List.Forall₂ c.Moments run.history run'.history

/-- States of visitors correspond, and so do the histories that are kept beside them. -/
structure Noted {σ : Type} (S : σ → σ → Prop) (q q' : σ × List Moment) : Prop where
  state : S q.1 q'.1
  history : List.Forall₂ c.Moments q.2 q'.2

/-- Where sessions correspond, both have a root or none, and they correspond after every operation
and every move of the context to one place. -/
structure Kept : Prop where
  rooted {s t : Session} : c.sessions s t → s.isInitialized = t.isInitialized
  moveTo {s t : Session} (l : Location) : c.sessions s t → c.sessions (s.moveTo l) (t.moveTo l)
  reply {s t : Session} {α : Type} (op : Op α) :
    c.sessions s t → c.Replies op (op.run s) (op.run t)

variable {c}

/-- An iteration corresponds to itself if its visits and what follows it do. -/
theorem scripts_iterate_refl {σ β : Type} {R : β → β → Prop} (node : Location)
    {visitor : σ → Location → Script (σ × Except Error Unit)} (state : σ)
    {next : σ → Except Error Unit → Script β}
    (hv : ∀ q child, c.Scripts (fun r r' => r.1 = r'.1 ∧ r.2 = r'.2)
      (visitor q child) (visitor q child))
    (hn : ∀ q answer, c.Scripts R (next q answer) (next q answer)) :
  c.Scripts R (.iterate node visitor state next) (.iterate node visitor state next)
  := by
  apply Scripts.iterate node Eq rfl
  · rintro q _ child rfl
    apply hv
  · rintro q _ answer rfl
    apply hn

/-- A script corresponds to itself where only equal answers do. -/
theorem scripts_refl (ha : ∀ {α : Type} (op : Op α) answer answer',
      c.answers op answer answer' → answer = answer')
    {β : Type} (script : Script β) {R : β → β → Prop} (hr : ∀ result, R result result) :
  c.Scripts R script script
  := by
  induction script with
  | done result => apply Scripts.done (hr result)
  | call op next ih =>
    apply Scripts.call
    intro answer answer' h
    obtain rfl := ha op answer answer' h
    apply ih answer hr
  | iterate node visitor state next ihv ihn =>
    apply scripts_iterate_refl
    · intro q child
      apply ihv q child
      exact fun _ => ⟨rfl, rfl⟩
    · intro q answer
      apply ihn q answer hr

/-! ### Runs -/

/-- Visits correspond if the runs on them do, and so do the moments that they note. -/
theorem visits_ofRuns {σ : Type} {S : σ → σ → Prop}
    {run run' : σ → Location → Session → Run (σ × Except Error Unit)} (depth : Nat)
    (hr : ∀ q q' s t child, S q q' → c.sessions s t →
      c.Runs (fun r r' => S r.1 r'.1 ∧ r.2 = r'.2) (run q child s) (run' q' child t))
    (q q' : σ × List Moment) (s t : Session) (child : Location) (hq : c.Noted S q q')
    (hs : c.sessions s t) :
  c.Visits (c.Noted S) (Visitor.ofRuns depth run q s child) (Visitor.ofRuns depth run' q' t child)
  := by
  obtain ⟨hn, ht, hh⟩ := hr q.1 q'.1 s t child hq.state hs
  constructor
  · constructor
    · apply hn.1
    · apply List.rel_append hq.history (.cons (.visit depth child hs) hh)
  · apply hn.2
  · apply ht

namespace Kept

variable (hc : c.Kept)

include hc

/-- Visits to the same locations correspond, one by one and up to the first that fails. -/
theorem visitEach {σ : Type u} {S : σ → σ → Prop} {visitor visitor' : Visitor σ}
    (hv : ∀ q q' s t child, S q q' → c.sessions s t →
      c.Visits S (visitor q s child) (visitor' q' t child))
    (locations : List Location) {state state' : σ} (hq : S state state') {s t : Session}
    (hs : c.sessions s t) :
  c.Visits S (s.visitEach visitor state locations) (t.visitEach visitor' state' locations)
  := by
  induction locations generalizing state state' s t with
  | nil => exact ⟨hq, rfl, hs⟩
  | cons child rest ih =>
    have hf := hv state state' (s.moveTo child) (t.moveTo child) child hq (hc.moveTo child hs)
    rw [Session.visitEach, Session.visitEach]
    generalize visitor state (s.moveTo child) child = visit at hf
    generalize visitor' state' (t.moveTo child) child = visit' at hf
    obtain ⟨q, answer, u, events⟩ := visit
    obtain ⟨q', answer', u', events'⟩ := visit'
    obtain ⟨hq, ha, hu⟩ := hf
    obtain rfl : answer = answer' := ha
    cases answer with
    | error e => exact ⟨hq, rfl, hu⟩
    | ok =>
      obtain ⟨hq, ha, hu⟩ := ih hq hu
      exact ⟨hq, ha, hu⟩

/-- Iterations over one node correspond if their visits do. -/
theorem iterate {σ : Type u} {S : σ → σ → Prop} {visitor visitor' : Visitor σ}
    (hv : ∀ q q' s t child, S q q' → c.sessions s t →
      c.Visits S (visitor q s child) (visitor' q' t child))
    (node : Location) {state state' : σ} (hq : S state state') {s t : Session}
    (hs : c.sessions s t) :
  c.Visits S (s.iterate node visitor state) (t.iterate node visitor' state')
  := by
  have hi : s.root.isSome = t.root.isSome := hc.rooted hs
  rw [Session.iterate, Session.iterate]
  split
  · rename_i hr
    rw [hr] at hi
    obtain ⟨root, ht⟩ := Option.isSome_iff_exists.mp hi.symm
    rw [ht]
    apply hc.visitEach hv node.children hq hs
  · rename_i hr
    rw [hr] at hi
    rw [Option.isNone_iff_eq_none.mp (Option.isSome_eq_false_iff.mp hi.symm)]
    exact ⟨hq, rfl, hs⟩

/-- Corresponding scripts have corresponding runs from corresponding sessions. -/
theorem run {β : Type} {R : β → β → Prop} {script script' : Script β}
    (h : c.Scripts R script script') (depth : Nat) {s t : Session} (hs : c.sessions s t) :
  c.Runs R (script.run depth s) (script'.run depth t)
  := by
  induction h generalizing depth s t with
  | done hr => exact ⟨hr, hs, .nil⟩
  | call op _ ih =>
    have hr := hc.reply op hs
    obtain ⟨hb, ht, hh⟩ := ih _ _ hr.answer depth hr.session
    exact ⟨hb, ht, .cons (.call depth op hs hr) hh⟩
  | @iterate σ β R node visitor visitor' state state' next next' S hq _ _ ihv ihn =>
    have hv := visits_ofRuns (depth + 1) fun q q' s t child hq hs =>
      ihv q q' child hq (depth + 1) hs
    have hn : c.Noted S (state, []) (state', []) := ⟨hq, .nil⟩
    have hi := hc.iterate hv node hn hs
    rw [Script.run, Script.run]
    generalize s.iterate node _ _ = visits at hi ⊢
    generalize t.iterate node _ _ = visits' at hi ⊢
    obtain ⟨⟨q, inner⟩, answer, u, events⟩ := visits
    obtain ⟨⟨q', inner'⟩, answer', u', events'⟩ := visits'
    obtain ⟨⟨hq, hh⟩, ha, hu⟩ := hi
    obtain rfl : answer = answer' := ha
    obtain ⟨hb, ht, hl⟩ := ihn q q' answer hq depth hu
    exact ⟨hb, ht, .cons (.iterate depth node hs) (List.rel_append hh hl)⟩

end Kept

end Correspondence

end JsonAudit
