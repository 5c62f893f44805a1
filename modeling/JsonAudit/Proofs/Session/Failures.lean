import JsonAudit.Conversion.Types
import JsonAudit.Proofs.Session.Histories
import JsonAudit.Proofs.Session.Visits

/-!
# Failed operations

An operation that fails leaves the session as it is and tells nothing but why paths selected
nothing. One that succeeds changes its own part of the session: navigation the context, and a record
the entry of its key.  An iteration is as good as its visits: the first one that fails decides how
it ends. All this is `operations_keep`.
-/

namespace JsonAudit

/-- Nothing is told but why paths selected nothing. -/
def NotesOnly (events : List Event) : Prop := ∃ notes, events = List.map Event.note notes

theorem notesOnly_nil :
  NotesOnly []
  := ⟨[], rfl⟩

/-! ### Answers -/

namespace Session

variable {α : Type} [Readable α] {s : Session}

/-- A typed access tells nothing but why its path selected nothing. -/
theorem notesOnly_get (s : Session) (node : Location) (path : String) :
  NotesOnly (s.get node path : Answer (Option α)).entries
  := by
  rw [get, ifRooted]
  split
  · exact ⟨_, rfl⟩
  · apply notesOnly_nil

/-- A left side tells nothing but why its path selected nothing. -/
theorem notesOnly_expect (s : Session) (node : Location) (path : String) :
  NotesOnly (s.expect node path : Answer (Expectation α)).entries
  := s.notesOnly_get node path

/-- A right side tells nothing but why its path selected nothing. -/
theorem notesOnly_pairWith (s : Session) (left : Expectation α) (path : String) :
  NotesOnly (s.pairWith left path).entries
  := by
  rw [pairWith]
  split
  · apply notesOnly_nil
  · apply notesOnly_get

end Session

/-! ### Operations -/

namespace Op

variable {α : Type}

/-- The operation reads the session and does not write to it. -/
def reads : Op α → Bool
  | adopt _ _ => false
  | adoptText _ => false
  | navigate _ _ => false
  | record _ => false
  | reset => false
  | takeTable => false
  | _ => true

/-- The session is as it was, and nothing is told but why paths selected nothing. -/
structure Idle (op : Op α) (s : Session) : Prop where
  session : (op.run s).session = s
  events : NotesOnly (op.run s).events

/-- An operation that reads is idle, whether it fails or not. -/
theorem idle_of_reads {op : Op α} (h : op.reads = true) (s : Session) :
  op.Idle s
  := by
  cases op with
  | get _ node path => exact ⟨rfl, s.notesOnly_get node path⟩
  | expect _ node path => exact ⟨rfl, s.notesOnly_expect node path⟩
  | pairWith left path => exact ⟨rfl, s.notesOnly_pairWith left path⟩
  | root => exact ⟨rfl, notesOnly_nil⟩
  | current => exact ⟨rfl, notesOnly_nil⟩
  | isInitialized => exact ⟨rfl, notesOnly_nil⟩
  | settings => exact ⟨rfl, notesOnly_nil⟩
  | table => exact ⟨rfl, notesOnly_nil⟩
  | summary => exact ⟨rfl, notesOnly_nil⟩
  | _ => cases h

theorem idle_of_eq {op : Op α} {s : Session} {e : Error} (notes : List Note)
    (h : op.run s = ⟨.error e, s, notes.map .note⟩) :
  op.Idle s
  := by
  constructor
  · rw [h]
  · rw [h]
    exact ⟨notes, rfl⟩

/-- An operation that fails leaves the session as it is. -/
theorem idle_of_failed {op : Op α} {s : Session} {e : Error} (h : (op.run s).answer = .error e) :
  op.Idle s
  := by
  cases hr : op.reads with
  | true => apply idle_of_reads hr
  | false =>
    cases op with
    | adoptText text =>
      rcases Session.adoptText_cases text with ⟨value, -, -, hs⟩ | ⟨e', hs⟩
      · rw [run, hs] at h
        cases h
      · exact idle_of_eq [] (hs s)
    | navigate node path =>
      rcases s.navigate_cases node path with ⟨found, -, -, -, hs⟩ | ⟨e', notes, hs⟩
      · rw [run, hs] at h
        cases h
      · exact idle_of_eq notes hs
    | record c =>
      rcases s.record_cases c with ⟨key, record, -, -, hs⟩ | hs
      · rw [run, hs] at h
        cases h
      · exact idle_of_eq [] hs
    | adopt value distinct => cases h
    | reset => cases h
    | takeTable => cases h
    | _ => cases hr

end Op

/-- Navigation that succeeds changes the context and nothing else. -/
theorem Session.session_of_navigate {s : Session} {node found : Location} {path : String}
    (h : (s.navigate node path).answer = .ok found) :
  (s.navigate node path).session = { s with current := some found }
  := by
  rcases s.navigate_cases node path with ⟨other, -, -, -, hr⟩ | ⟨e, notes, hr⟩
  · rw [hr] at h ⊢
    cases h
    rfl
  · rw [hr] at h
    cases h

/-- The tables are the same but for the record under the key. -/
structure Table.Enters (before after : Table) (key : String) (record : Record) : Prop where
  entered : after.find? key = some record
  others : ∀ other, other ≠ key → after.find? other = before.find? other

/-- A table enters the record that is inserted. -/
theorem Table.enters_insert (table : Table) (key : String) (record : Record) :
  table.Enters (table.insert key record) key record
  := by
  constructor
  · rw [find?_insert, if_pos rfl]
  · intro other ho
    rw [find?_insert, if_neg (Ne.symm ho)]

/-- A comparison that is recorded changes the entry of its key and nothing else. -/
theorem Session.session_of_record {α : Type} [Comparable α] {s : Session} {c : Comparison α}
    {table : Table} (h : (s.record c).answer = .ok table) :
  (s.record c).session = { s with table := table }
    ∧ s.table.Enters table (c.outcome s.settings.displayComponents).1
      (c.outcome s.settings.displayComponents).2
  := by
  rcases s.record_cases c with ⟨key, record, -, ho, hr⟩ | hr
  · rw [hr] at h ⊢
    cases h
    rw [ho]
    exact ⟨rfl, s.table.enters_insert key record⟩
  · rw [hr] at h
    cases h

/-! ### Iterations -/

/-- The first visit that fails is the last one that is made, and the iteration leaves its error and
its session. -/
theorem Session.iterate_of_failed {σ : Type} {s : Session} {node : Location} {visitor : Visitor σ}
    {state : σ} {earlier later : List (Visit σ)} {visit : Visit σ} {e : Error}
    (hv : s.visits node visitor state = earlier ++ visit :: later)
    (he : visit.reply.answer = .error e) :
  later = [] ∧ (s.iterate node visitor state).1 = visit.state
    ∧ (s.iterate node visitor state).2.answer = .error e
    ∧ (s.iterate node visitor state).2.session = visit.reply.session
  := by
  cases hi : s.isInitialized with
  | true => apply (visited_iterate hi node visitor state).stopped hv he
  | false =>
    rw [(visits_of_unrooted hi node visitor state).1] at hv
    exact absurd hv.symm (List.append_ne_nil_of_right_ne_nil _ (List.cons_ne_nil _ _))

/-! ### Together -/

/-- An operation that fails leaves the session as it is and tells nothing but why paths selected
nothing, and so does one that reads; navigation changes the context only, and a record the entry of
its key only.  An iteration visits the children of the node in their order, and noting the visits
changes nothing about them; the first visit that fails is the last one, and the iteration ends with
its error, in its session. -/
theorem operations_keep (s : Session) :
  (∀ {α : Type} (op : Op α) (e : Error), (op.run s).answer = .error e → op.Idle s)
    ∧ (∀ {α : Type} (op : Op α), op.reads = true → op.Idle s)
    ∧ (∀ (node found : Location) (path : String), (s.navigate node path).answer = .ok found →
      (s.navigate node path).session = { s with current := some found })
    ∧ (∀ {α : Type} [Comparable α] (c : Comparison α) (table : Table),
      (s.record c).answer = .ok table →
      (s.record c).session = { s with table := table }
        ∧ s.table.Enters table (c.outcome s.settings.displayComponents).1
          (c.outcome s.settings.displayComponents).2)
    ∧ ∀ {σ : Type} (node : Location) (visitor : Visitor σ) (state : σ),
      s.iterate node visitor.noting (state, [])
          = (((s.iterate node visitor state).1, s.visits node visitor state),
            (s.iterate node visitor state).2)
        ∧ (s.isInitialized = true →
          Visited visitor node.children (s.visits node visitor state)
            (s.iterate node visitor state))
        ∧ ∀ (earlier later : List (Visit σ)) (visit : Visit σ) (e : Error),
          s.visits node visitor state = earlier ++ visit :: later →
          visit.reply.answer = .error e →
          later = [] ∧ (s.iterate node visitor state).2.answer = .error e
            ∧ (s.iterate node visitor state).2.session = visit.reply.session
  := by
  refine ⟨fun op e => Op.idle_of_failed, fun op h => Op.idle_of_reads h s,
    fun node found path => Session.session_of_navigate,
    fun c table => Session.session_of_record, ?_⟩
  intro σ node visitor state
  refine ⟨s.iterate_noting node visitor state, fun hi => s.visited_iterate hi node visitor state, ?_⟩
  intro earlier later visit e hv he
  obtain ⟨hl, -, ha, hs⟩ := Session.iterate_of_failed hv he
  exact ⟨hl, ha, hs⟩

/-- Records a comparison on a visit to `true`, and fails on any other one. -/
def recordTrue : Visitor Nat :=
  fun count s child =>
    match child.value with
    | .bool true =>
      let reply := s.record (⟨⟨child.path, some true⟩, ⟨"all", some true⟩⟩ : Comparison Bool)
      (count + 1, { reply with answer := reply.answer.map fun _ => () })
    | _ => (count + 1, ⟨.error (.notFound child.path), s, []⟩)

/-- Iterates over every child. -/
def recordRows : Visitor Nat := fun count s child => s.iterate child recordTrue count

/-- The first row of the document. -/
def firstRow : Location := ⟨"[0]", .array [.bool true, .bool false, .bool true]⟩

/-- The root of the document. -/
def flagRows : Location := .root (.array [firstRow.value, .array [.bool true]])

/-- The session of the document. -/
def flagSession : Session := ((Session.new {}).adopt flagRows.value).session

/-- The comparison of the first flag of the document with `true`. -/
def firstFlag : Comparison Bool := ⟨⟨"[0][0]", some true⟩, ⟨"all", some true⟩⟩

/-- A blank path moves nothing, and the summary writes nothing; the path of the first row moves the
context, and the comparison of the first flag enters its record.  The second visit of the inner
iteration fails, and so does the first one of the outer, which is the last.  What the first inner
visit recorded stays, and the context is where the second one was. -/
theorem operations_keep_recordRows :
  (flagSession.navigate flagRows " ").answer = .error (.notFound " ")
    ∧ (Op.navigate flagRows " ").Idle flagSession
    ∧ Op.summary.Idle flagSession
    ∧ (flagSession.navigate flagRows "[0]").answer = .ok firstRow
    ∧ (flagSession.navigate flagRows "[0]").session
      = { flagSession with current := some firstRow }
    ∧ (∃ table record, (flagSession.record firstFlag).answer = .ok table
      ∧ (flagSession.record firstFlag).session = { flagSession with table := table }
      ∧ flagSession.table.Enters table "[0][0]" record ∧ record.status = .pass)
    ∧ (flagSession.visits flagRows recordRows 0).map Visit.child = [firstRow]
    ∧ (flagSession.iterate flagRows recordRows 0).2.answer = .error (.notFound "[0][1]")
    ∧ (flagSession.iterate flagRows recordRows 0).2.session.current
      = some ⟨"[0][1]", .bool false⟩
    ∧ ((flagSession.iterate flagRows recordRows 0).2.session.table.find? "[0][0]").isSome = true
  := by
  obtain ⟨hf, hreads, hmoves, hrecords, hi⟩ := operations_keep flagSession
  have hb : isBlankPath " " = true := by decide +kernel
  have hb' : isBlankPath "[0]" = false := by decide +kernel
  have hp : parsePath "[0]" = [.mk "" (some (.index 0))] := by decide +kernel
  have hn : (flagSession.navigate flagRows " ").answer = .error (.notFound " ") := by
    rw [Session.navigate, Location.locate, locate, trace, hb]
    rfl
  have hm : (flagSession.navigate flagRows "[0]").answer = .ok firstRow := by
    rw [Session.navigate, Location.locate, locate, trace, hb', hp]
    rfl
  obtain ⟨hr, he⟩ := hrecords firstFlag _ rfl
  let visit : Visit Nat := ⟨firstRow, flagSession.moveTo firstRow, 2,
    (recordRows 0 (flagSession.moveTo firstRow) firstRow).2⟩
  have hv : flagSession.visits flagRows recordRows 0 = [] ++ visit :: [] := rfl
  have hlast : visit.reply.answer = .error (.notFound "[0][1]") := rfl
  obtain ⟨-, ha, hs⟩ := (hi flagRows recordRows 0).2.2 [] [] visit _ hv hlast
  refine ⟨hn, hf _ _ hn, hreads _ rfl, hm, hmoves _ _ _ hm, ⟨_, _, rfl, hr, he, rfl⟩, ?_, ha, ?_,
    ?_⟩
  · rw [hv]
    rfl
  · rw [hs]
    rfl
  · rw [hs]
    rfl

end JsonAudit
