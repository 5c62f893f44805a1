import JsonAudit.Json.Part
import JsonAudit.Session.Iterate

/-!
# Scripts

A `Script` is a program that works on one session.  It calls operations one after the other, each
chosen by the answers before it, and it iterates with visitors that are scripts themselves and
have a state of their own.

`Script.run` carries a script out with the operations of the session.  Besides the result, the
session and the events it gives the history of the run: a `Moment` for every call of an
operation, for every call of an iteration and for every visit, in their order, with the number of
visits that are going on.
-/

namespace JsonAudit

/-! ### Operations -/

/-- An operation on a session and its arguments, with the type of the answer. -/
inductive Op : Type → Type 1 where
  | adopt (value : Json) (distinct : value.DistinctNames) : Op Location
  | adoptText (text : String) : Op Location
  | root : Op Location
  | current : Op Location
  | isInitialized : Op Bool
  | settings : Op Settings
  | navigate (node : Location) (path : String) : Op Location
  | get (α : Type) [Readable α] (node : Location) (path : String) : Op (Option α)
  | expect (α : Type) [Readable α] (node : Location) (path : String) : Op (Expectation α)
  | pairWith {α : Type} [Readable α] (left : Expectation α) (path : String) : Op (Comparison α)
  | record {α : Type} [Comparable α] (c : Comparison α) : Op Table
  | table : Op Table
  | summary : Op Summary
  | reset : Op Unit
  | takeTable : Op Table

/-- The reply of a session that stays as it is. -/
def Session.reply {α : Type} (s : Session) (answer : Answer α) : Reply α :=
  ⟨answer.value, s, answer.entries⟩

/-- The operation carried out. -/
def Op.run {α : Type} : Op α → Session → Reply α
  | adopt value _, s => s.adopt value
  | adoptText text, s => s.adoptText text
  | root, s => s.reply (.pure s.rootLocation)
  | current, s => s.reply (.pure s.currentLocation)
  | isInitialized, s => s.reply (.pure (.ok s.isInitialized))
  | settings, s => s.reply (.pure (.ok s.settings))
  | navigate node path, s => s.navigate node path
  | get _ node path, s => s.reply (s.get node path)
  | expect _ node path, s => s.reply (s.expect node path)
  | pairWith left path, s => s.reply (s.pairWith left path)
  | record c, s => s.record c
  | table, s => s.reply (.pure (.ok s.table))
  | summary, s => s.reply (.pure (.ok s.summary))
  | reset, s => s.reset
  | takeTable, s => s.takeTable

/-! ### Moments -/

/-- What happened to a session at one time. -/
inductive Moment where
  /-- The operation was called on the session. -/
  | call {α : Type} (depth : Nat) (op : Op α) (before : Session)
  /-- An iteration over the node was called on the session. -/
  | iterate (depth : Nat) (node : Location) (before : Session)
  /-- A visit to the child began, this one among the visits going on. -/
  | visit (depth : Nat) (child : Location) (after : Session)

namespace Moment

/-- The number of visits going on. -/
def depth : Moment → Nat
  | call depth _ _ => depth
  | iterate depth _ _ => depth
  | visit depth _ _ => depth

/-- The session after the moment. -/
def after : Moment → Session
  | call _ op before => (op.run before).session
  | iterate _ _ before => before
  | visit _ _ after => after

end Moment

/-! ### Scripts -/

/-- A program that works on a session and has a result. -/
inductive Script : Type → Type 1 where
  | done {β : Type} (result : β) : Script β
  /-- Calls the operation and goes on with the answer. -/
  | call {α β : Type} (op : Op α) (next : Except Error α → Script β) : Script β
  /-- Iterates over the node and goes on with the last state of the visitor and the answer. -/
  | iterate {σ β : Type} (node : Location) (visitor : σ → Location → Script (σ × Except Error Unit))
    (state : σ) (next : σ → Except Error Unit → Script β) : Script β

/-- The result of a script, the session after it, the events on the way, and the history. -/
structure Run (β : Type) where
  result : β
  session : Session
  events : List Event
  history : List Moment

/-- The visitor that runs a script on every visit and keeps the history of the visits. -/
def Visitor.ofRuns {σ : Type} (depth : Nat)
    (run : σ → Location → Session → Run (σ × Except Error Unit)) : Visitor (σ × List Moment) :=
  fun (state, history) s child =>
    let visit := run state child s
    ((visit.result.1, history ++ .visit depth child s :: visit.history),
      ⟨visit.result.2, visit.session, visit.events⟩)

/-- The script carried out on a session during so many visits. -/
def Script.run {β : Type} : Script β → Nat → Session → Run β
  | .done result, _, s => ⟨result, s, [], []⟩
  | .call op next, depth, s =>
    let reply := op.run s
    let later := (next reply.answer).run depth reply.session
    ⟨later.result, later.session, reply.events ++ later.events, .call depth op s :: later.history⟩
  | .iterate node visitor state next, depth, s =>
    let visits := s.iterate node
      (Visitor.ofRuns (depth + 1) fun state child => (visitor state child).run (depth + 1))
      (state, [])
    let later := (next visits.1.1 visits.2.answer).run depth visits.2.session
    ⟨later.result, later.session, visits.2.events ++ later.events,
      .iterate depth node s :: visits.1.2 ++ later.history⟩

end JsonAudit
