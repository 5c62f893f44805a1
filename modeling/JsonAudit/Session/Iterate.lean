import JsonAudit.Session.Basic

/-!
# Iteration

`iterate` visits the children of a location one by one.  The context is moved to a child just
before its visit; a visit may do with the session what it likes, and the next one goes on from
there.  The first visit that fails ends the iteration.  A visitor has a state of its own, which
is carried from visit to visit.
-/

namespace JsonAudit

universe u

/-- What is done on a visit to a location, with a state of its own. -/
abbrev Visitor (σ : Type u) := σ → Session → Location → σ × Reply Unit

namespace Session

variable {σ : Type u}

/-- Visits the locations one by one. -/
def visitEach (visitor : Visitor σ) (state : σ) (s : Session) :
    List Location → σ × Reply Unit
  | [] => (state, ⟨.ok (), s, []⟩)
  | child :: rest =>
    let (state, reply) := visitor state (s.moveTo child) child
    match reply.answer with
    | .error _ => (state, reply)
    | .ok () =>
      let (state, later) := visitEach visitor state reply.session rest
      (state, { later with events := reply.events ++ later.events })

/-- Visits the children of the node. -/
def iterate (s : Session) (node : Location) (visitor : Visitor σ) (state : σ) :
    σ × Reply Unit :=
  match s.root with
  | some _ => visitEach visitor state s node.children
  | none => (state, ⟨.error .invalidState, s, []⟩)

end Session

end JsonAudit
