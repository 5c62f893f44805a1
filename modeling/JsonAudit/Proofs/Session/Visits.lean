import JsonAudit.Session.Iterate

/-!
# The visits of an iteration

`Visitor.noting` is a visitor that does what another one does and notes every visit besides.  It
changes nothing about the iteration (`Session.iterate_noting`), so that its notes are the visits
that the other visitor makes: `Session.visits`.  An iteration visits the children in their order,
each once, up to the first visit that fails, and with that visit it comes to its end: this is
`Visited`.
-/

namespace JsonAudit

universe u

variable {σ : Type u}

/-- A visit that was made: to which child, on which session, and with which outcome. -/
structure Visit (σ : Type u) where
  child : Location
  /-- The session at the beginning of the visit. -/
  found : Session
  /-- The state of the visitor after the visit. -/
  state : σ
  reply : Reply Unit

/-- The visitor that notes its visits. -/
def Visitor.noting (visitor : Visitor σ) : Visitor (σ × List (Visit σ)) :=
  fun (state, visits) s child =>
    let (next, reply) := visitor state s child
    ((next, visits ++ [⟨child, s, next, reply⟩]), reply)

/-- The visits of the iteration over the node. -/
def Session.visits (s : Session) (node : Location) (visitor : Visitor σ) (state : σ) :
    List (Visit σ) :=
  (s.iterate node visitor.noting (state, [])).1.2

/-- The locations were visited in their order by these visits, and this is what it came to. -/
structure Visited (visitor : Visitor σ) (locations : List Location) (visits : List (Visit σ))
    (result : σ × Reply Unit) : Prop where
  /-- A visit is made with the context moved to its child. -/
  called : ∀ visit ∈ visits, ∃ (state : σ) (s : Session), visit.found = s.moveTo visit.child
    ∧ visitor state visit.found visit.child = (visit.state, visit.reply)
  /-- The children of the visits are the first of the locations, all of them if no visit fails. -/
  children : ∃ rest, locations = visits.map Visit.child ++ rest
    ∧ (result.2.answer = .ok () → rest = [])
  /-- A visit that fails is the last one, and its outcome is that of the iteration. -/
  stopped : ∀ {earlier later : List (Visit σ)} {visit : Visit σ} {e : Error},
    visits = earlier ++ visit :: later → visit.reply.answer = .error e →
    later = [] ∧ result.1 = visit.state ∧ result.2.answer = .error e
      ∧ result.2.session = visit.reply.session
  /-- Nothing but a visit makes the iteration fail. -/
  failed : ∀ {e : Error}, result.2.answer = .error e →
    ∃ earlier visit, visits = earlier ++ [visit] ∧ visit.reply.answer = .error e
  /-- The events are those of the visits. -/
  events : result.2.events = visits.flatMap fun visit => visit.reply.events

namespace Visited

variable {visitor : Visitor σ}

/-- Nothing was visited. -/
theorem nil (state : σ) (s : Session) :
  Visited visitor [] [] (state, ⟨.ok (), s, []⟩)
  where
  called visit hm := absurd hm List.not_mem_nil
  children := ⟨[], rfl, fun _ => rfl⟩
  stopped h := absurd h.symm (List.append_ne_nil_of_right_ne_nil _ (List.cons_ne_nil _ _))
  failed h := by cases h
  events := rfl

/-- The first visit failed. -/
theorem stop {state next : σ} {s : Session} {child : Location} {reply : Reply Unit} {e : Error}
    (hv : visitor state (s.moveTo child) child = (next, reply)) (he : reply.answer = .error e)
    (rest : List Location) :
  Visited visitor (child :: rest) [⟨child, s.moveTo child, next, reply⟩] (next, reply)
  where
  called := List.forall_mem_singleton.mpr ⟨state, s, rfl, hv⟩
  children := by
    refine ⟨rest, rfl, ?_⟩
    rw [he]
    rintro ⟨⟩
  stopped {earlier later visit e'} h he' := by
    cases earlier with
    | nil =>
      cases h
      exact ⟨rfl, rfl, he', rfl⟩
    | cons _ _ =>
      have hl := List.append_eq_nil_iff.mp (List.cons.inj h).2.symm
      exact absurd hl.2 (List.cons_ne_nil _ _)
  failed h := ⟨[], _, rfl, h⟩
  events := (List.flatMap_singleton _ _).symm

/-- The first visit did not fail, and the iteration went on. -/
theorem go {state next : σ} {s : Session} {child : Location} {reply : Reply Unit}
    (hv : visitor state (s.moveTo child) child = (next, reply)) (ho : reply.answer = .ok ())
    {rest : List Location} {visits : List (Visit σ)} {result : σ × Reply Unit}
    (h : Visited visitor rest visits result) :
  Visited visitor (child :: rest) (⟨child, s.moveTo child, next, reply⟩ :: visits)
    (result.1, { result.2 with events := reply.events ++ result.2.events })
  where
  called := List.forall_mem_cons.mpr ⟨⟨state, s, rfl, hv⟩, h.called⟩
  children := by
    obtain ⟨more, hr, hm⟩ := h.children
    refine ⟨more, ?_, hm⟩
    rw [hr]
    rfl
  stopped {earlier later visit e} hs he := by
    cases earlier with
    | nil =>
      cases hs
      rw [ho] at he
      cases he
    | cons _ _ => apply h.stopped (List.cons.inj hs).2 he
  failed he := by
    obtain ⟨earlier, visit, rfl, hf⟩ := h.failed he
    exact ⟨_ :: earlier, visit, rfl, hf⟩
  events := by
    rw [List.flatMap_cons, ← h.events]

end Visited

namespace Session

/-- Noting visits changes nothing about them, and what is noted are the visits made. -/
theorem visitEach_noting (visitor : Visitor σ) (state : σ) (past : List (Visit σ)) (s : Session)
    (locations : List Location) :
  ∃ visits, s.visitEach visitor.noting (state, past) locations
      = (((s.visitEach visitor state locations).1, past ++ visits),
        (s.visitEach visitor state locations).2)
    ∧ Visited visitor locations visits (s.visitEach visitor state locations)
  := by
  induction locations generalizing state past s with
  | nil =>
    refine ⟨[], ?_, .nil state s⟩
    rw [List.append_nil]
    rfl
  | cons child rest ih =>
    rw [visitEach, visitEach, Visitor.noting]
    cases hv : visitor state (s.moveTo child) child with
    | mk next reply =>
      dsimp only
      cases ha : reply.answer with
      | error e => exact ⟨_, rfl, .stop hv ha rest⟩
      | ok =>
        obtain ⟨visits, hn, hw⟩ := ih next (past ++ [⟨child, s.moveTo child, next, reply⟩])
          reply.session
        refine ⟨_ :: visits, ?_, .go hv ha hw⟩
        rw [hn, List.append_assoc]
        rfl

/-- The visitor that notes its visits replies as the other one. -/
theorem iterate_noting (s : Session) (node : Location) (visitor : Visitor σ) (state : σ) :
  s.iterate node visitor.noting (state, [])
    = (((s.iterate node visitor state).1, s.visits node visitor state),
      (s.iterate node visitor state).2)
  := by
  rw [visits, iterate, iterate]
  split
  · obtain ⟨visits, hn, -⟩ := visitEach_noting visitor state [] s node.children
    rw [hn]
  · rfl

/-- In a session that has a root the children of the node are visited. -/
theorem visited_iterate {s : Session} (h : s.isInitialized = true) (node : Location)
    (visitor : Visitor σ) (state : σ) :
  Visited visitor node.children (s.visits node visitor state) (s.iterate node visitor state)
  := by
  obtain ⟨root, hr⟩ := Option.isSome_iff_exists.mp h
  obtain ⟨made, hn, hw⟩ := visitEach_noting visitor state [] s node.children
  rw [visits, iterate, iterate, hr]
  dsimp only
  rw [hn]
  apply hw

/-- In a session without a root nothing is visited. -/
theorem visits_of_unrooted {s : Session} (h : s.isInitialized = false) (node : Location)
    (visitor : Visitor σ) (state : σ) :
  s.visits node visitor state = []
    ∧ s.iterate node visitor state = (state, ⟨.error .invalidState, s, []⟩)
  := by
  have hr : s.root = none := Option.not_isSome_iff_eq_none.mp (Bool.eq_false_iff.mp h)
  rw [visits, iterate, iterate, hr]
  exact ⟨rfl, rfl⟩

end Session

end JsonAudit
