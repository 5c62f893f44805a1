import JsonAudit.Proofs.Path.Navigation
import JsonAudit.Proofs.Session.Histories

/-!
# The context of a session

A session does not check where the locations come from that it is given.  In a run that passes it
only its own ones (`KeepsToOwn`), and whose visits do not give it another document
(`SteadyVisits`), the context stays inside the root: this is `Script.context_inside`.  The
invariant is `Grounded`: the context and every location that belongs to the session lie inside its
root.
-/

namespace JsonAudit

/-! ### Own locations -/

/-- The locations that belong to a session after the moments: those it gave since it last got a
document, its root among them, and what is located from them. -/
inductive Own (past : List Moment) : Location → Prop where
  | given {l : Location} :
    Since (fun m => m.adopts = false) (fun m => l ∈ m.given) past → Own past l
  | locate {l found : Location} {path : String} :
    Own past l → (l.locate path).value = some found → Own past found

/-- Every location that is passed to the session belongs to it at that time. -/
def KeepsToOwn (history : List Moment) : Prop :=
  ∀ earlier m later, history = earlier ++ m :: later → ∀ l ∈ m.passed, Own earlier l

/-- The session does not get a document during a visit. -/
def SteadyVisits (history : List Moment) : Prop :=
  ∀ m ∈ history, 0 < m.depth → m.adopts = false

/-- Nothing is passed in an empty history. -/
theorem keepsToOwn_nil :
  KeepsToOwn []
  := forall_moment_nil

/-- What one more moment passes to the session belongs to it before. -/
theorem keepsToOwn_snoc {past : List Moment} {m : Moment} :
  KeepsToOwn (past ++ [m]) ↔ KeepsToOwn past ∧ ∀ l ∈ m.passed, Own past l
  := forall_moment_snoc

/-- What the last moment gives belongs to the session. -/
theorem Own.last {past : List Moment} {m : Moment} {l : Location} (h : l ∈ m.given) :
  Own (past ++ [m]) l
  := .given (since_snoc.mpr (.inl h))

/-- What belongs to the session belongs to it after one more moment, if it has the same document
still. -/
theorem Own.snoc {past : List Moment} {m : Moment} (hm : m.adopts = false) {l : Location}
    (h : Own past l) :
  Own (past ++ [m]) l
  := by
  induction h with
  | given hs => exact .given (since_snoc.mpr (.inr ⟨hm, hs⟩))
  | locate _ hl ih => exact .locate ih hl

/-- What belongs to the session after one more moment comes from what the moment gives, or from
what belonged to it before, if it has the same document still. -/
theorem Own.of_snoc {past : List Moment} {m : Moment} {P : Location → Prop}
    (hg : ∀ l ∈ m.given, P l) (hp : m.adopts = false → ∀ l, Own past l → P l)
    (hl : ∀ l found path, P l → (Location.locate path l).value = some found → P found)
    {l : Location} (h : Own (past ++ [m]) l) :
  P l
  := by
  induction h with
  | given hs =>
    rcases since_snoc.mp hs with hm | ⟨hm, hs⟩
    · apply hg _ hm
    · apply hp hm _ (.given hs)
  | locate _ hf ih => apply hl _ _ _ ih hf

/-! ### The invariant -/

/-- The location is at a position in the root. -/
def Location.Inside (root l : Location) : Prop :=
  ∃ steps, l.IsAt root.value steps

/-- If the session has a root, its context is at a position in the root, with the path of the
position, and it is null only as the root itself. -/
def Session.ContextInside (s : Session) : Prop :=
  ∀ root, s.root = some root → ∃ current, s.current = some current
    ∧ root.Inside current ∧ (current.value.isNull = true → current = root)

/-- After the moments the root is the top of a document, the context is inside it, and so is every
location that belongs to the session; the nodes of iterations that are going on belong to it. -/
structure Grounded (past : List Moment) (s : Session) (root : Location) : Prop where
  top : root.Inside root
  distinct : root.value.DistinctNames
  context : ∃ current, s.current = some current
    ∧ root.Inside current ∧ (current.value.isNull = true → current = root)
  own : ∀ l, Own past l → root.Inside l
  iterating : ∀ depth node, Iterating past depth node → Own past node

/-- What is located from inside the root is inside the root. -/
theorem Location.Inside.locate {root l found : Location} {path : String} (h : root.Inside l)
    (hf : (l.locate path).value = some found) :
  root.Inside found
  := by
  obtain ⟨steps, hs⟩ := h
  obtain ⟨more, hm⟩ := hs.locate hf
  exact ⟨steps ++ more, hm⟩

/-- The children of a location inside the root are inside the root. -/
theorem Location.Inside.child {root l child : Location} (hd : root.value.DistinctNames)
    (h : root.Inside l) (hc : child ∈ l.children) :
  root.Inside child
  := by
  obtain ⟨steps, hs⟩ := h
  obtain ⟨step, hm⟩ := hs.child hd hc
  exact ⟨steps ++ [step], hm⟩

/-- A root is inside itself. -/
theorem Location.inside_root (value : Json) :
  (root value).Inside (root value)
  := ⟨[], isAt_root value⟩

/-- An iteration is going on after one more moment if it begins there, or if it was going on and the
moment is within its visits. -/
theorem iterating_snoc {past : List Moment} {m : Moment} {depth : Nat} {node : Location} :
  Iterating (past ++ [m]) depth node
    ↔ (∃ before, m = .iterate depth node before) ∨ depth < m.depth ∧ Iterating past depth node
  := since_snoc

/-- A moment that leaves the session its document keeps the invariant, if what it passes belongs to
the session, and what it gives and the context after it are inside the root. -/
theorem Grounded.next {past : List Moment} {m : Moment} {s t : Session} {root : Location}
    (h : Grounded past s root) (hm : m.adopts = false) (hp : ∀ l ∈ m.passed, Own past l)
    (hg : ∀ l ∈ m.given, root.Inside l)
    (hc : ∃ current, t.current = some current
      ∧ root.Inside current ∧ (current.value.isNull = true → current = root)) :
  Grounded (past ++ [m]) t root
  where
  top := h.top
  distinct := h.distinct
  context := hc
  own l hl := hl.of_snoc hg (fun _ => h.own) fun _ _ _ => Location.Inside.locate
  iterating depth node hi := by
    apply Own.snoc hm
    rcases iterating_snoc.mp hi with ⟨before, rfl⟩ | ⟨-, hi⟩
    · apply hp node List.mem_cons_self
    · apply h.iterating depth node hi

/-- A document that is adopted outside the visits makes the session grounded. -/
theorem Grounded.of_adoption {past : List Moment} {m : Moment} {s : Session} {value : Json}
    (hd : value.DistinctNames) (hm : m.adopts = true) (hv : m.depth = 0)
    (hg : m.given = [.root value]) (hc : s.current = some (.root value)) :
  Grounded (past ++ [m]) s (.root value)
  where
  top := Location.inside_root value
  distinct := hd
  context := ⟨.root value, hc, Location.inside_root value, fun _ => rfl⟩
  own l hl := by
    apply hl.of_snoc _ _ fun _ _ _ => Location.Inside.locate
    · rw [hg]
      exact List.forall_mem_singleton.mpr (Location.inside_root value)
    · intro hn
      rw [hn] at hm
      cases hm
  iterating depth node hi := by
    rcases iterating_snoc.mp hi with ⟨before, rfl⟩ | ⟨hl, -⟩
    · cases hm
    · rw [hv] at hl
      exact absurd hl (Nat.not_lt_zero depth)

/-! ### Runs -/

/-- An operation keeps the invariant. -/
theorem Grounded.call {past : List Moment} {s : Session}
    (h : ∀ root, s.root = some root → Grounded past s root) {α : Type} {op : Op α} {depth : Nat}
    (hp : ∀ l ∈ op.passed, Own past l) (hs : 0 < depth → op.adopts s = false) :
  ∀ root, (op.run s).session.root = some root →
    Grounded (past ++ [.call depth op s]) (op.run s).session root
  := by
  intro root hr
  cases op.effect s with
  | stays he ha _ _ hg =>
    rw [he] at hr ⊢
    have hroot := h root hr
    obtain ⟨current, hc, hi⟩ := hroot.context
    apply hroot.next (m := .call depth op s) ha hp _ hroot.context
    intro l hl
    rcases hg l hl with hl | hl
    · obtain rfl := Option.some.inj (hr.symm.trans hl)
      apply hroot.top
    · obtain rfl := Option.some.inj (hc.symm.trans hl)
      apply hi.1
  | adopts value hd he ha _ _ hg =>
    rw [he] at hr ⊢
    obtain rfl := Option.some.inj hr
    apply Grounded.of_adoption (m := .call depth op s) hd ha _ hg rfl
    apply Nat.eq_zero_of_not_pos
    intro hv
    exact Bool.noConfusion (ha.symm.trans (hs hv))
  | drops he =>
    rw [he] at hr
    cases hr
  | moves node found path hn hf hv he ha _ _ hg =>
    rw [he] at hr ⊢
    have hroot := h root hr
    have ho : Own past found := (hp node (hn ▸ List.mem_cons_self)).locate hf
    have hi := hroot.own found ho
    apply hroot.next (m := .call depth op s) ha hp
    · intro l hl
      obtain rfl := List.mem_singleton.mp (hg ▸ hl : l ∈ [found])
      apply hi
    · refine ⟨found, rfl, hi, ?_⟩
      rw [hv]
      nofun
  | records key record he ha _ _ hg =>
    rw [he] at hr ⊢
    have hroot := h root hr
    apply hroot.next (m := .call depth op s) ha hp
    · intro l hl
      cases (hg ▸ hl : l ∈ [])
    · apply hroot.context

/-- A visit to a child keeps the invariant. -/
theorem Grounded.visit {past : List Moment} {s : Session} {root : Location}
    (h : Grounded past s root) {depth : Nat} {node child : Location}
    (hi : Iterating past depth node) (hc : child ∈ node.children) :
  Grounded (past ++ [.visit (depth + 1) child (s.moveTo child)]) (s.moveTo child) root
  := by
  have hn := h.own node (h.iterating depth node hi)
  have hin := hn.child h.distinct hc
  apply h.next rfl
  · rintro l ⟨⟩
  · exact List.forall_mem_singleton.mpr hin
  · refine ⟨child, rfl, hin, ?_⟩
    rw [Location.isNull_of_mem_children hc]
    nofun

/-- The next moment keeps the invariant. -/
theorem Grounded.step {past : List Moment} {s : Session} {m : Moment}
    (h : ∀ root, s.root = some root → Grounded past s root) (hf : m.Follows past s)
    (hp : ∀ l ∈ m.passed, Own past l) (hs : 0 < m.depth → m.adopts = false) :
  ∀ root, m.after.root = some root → Grounded (past ++ [m]) m.after root
  := by
  cases m with
  | call depth op before =>
    obtain rfl : before = s := hf
    apply Grounded.call h hp hs
  | iterate depth node before =>
    obtain rfl : before = s := hf
    intro root hr
    apply (h root hr).next rfl hp (List.forall_mem_nil _) (h root hr).context
  | visit depth child after =>
    obtain ⟨rfl, outer, node, rfl, hi, hc⟩ := hf
    intro root hr
    apply (h root hr).visit hi hc

/-- A run that keeps to the own locations of the session keeps the invariant. -/
theorem Grounded.run {past history : List Moment} {s t : Session}
    (h : ∀ root, s.root = some root → Grounded past s root) (hl : Leads past s history t)
    (ho : KeepsToOwn (past ++ history)) (hs : SteadyVisits history) :
  (∀ m ∈ history, m.after.ContextInside) ∧ t.ContextInside
  := by
  induction history generalizing past s with
  | nil =>
    cases hl
    exact ⟨List.forall_mem_nil _, fun root hr => (h root hr).context⟩
  | cons m rest ih =>
    obtain ⟨hf, hr⟩ := hl
    obtain ⟨hm, hs⟩ := List.forall_mem_cons.mp hs
    have hn := Grounded.step h hf (ho past m rest rfl) hm
    have ho' : KeepsToOwn (past ++ [m] ++ rest) := by
      rw [List.append_assoc]
      apply ho
    obtain ⟨ha, ht⟩ := ih hn hr ho' hs
    have hm' : m.after.ContextInside := fun root hr => (hn root hr).context
    exact ⟨List.forall_mem_cons.mpr ⟨hm', ha⟩, ht⟩

/-- In every run that begins with a new session, passes it only its own locations to move its
context, and gives it no document during a visit, the context stays inside the root. -/
theorem Script.context_inside {β : Type} (script : Script β) (settings : Settings)
    (ho : KeepsToOwn (script.run 0 (.new settings)).history)
    (hs : SteadyVisits (script.run 0 (.new settings)).history) :
  (∀ m ∈ (script.run 0 (.new settings)).history, m.after.ContextInside)
    ∧ (script.run 0 (.new settings)).session.ContextInside
  := by
  have hn : ∀ root, (Session.new settings).root = some root →
      Grounded [] (.new settings) root := by
    intro root hr
    cases hr
  exact Grounded.run hn (script.run_leads 0 [] (.new settings)).1 ho hs

/-- Visits the elements of every element of a document. -/
def visitRows (document : Json) (distinct : document.DistinctNames) :
    Script (Except Error Unit) :=
  .call (.adopt document distinct) fun
    | .error e => .done (.error e)
    | .ok root =>
      .iterate root
        (fun _ row => .iterate row (fun _ _ => .done ((), .ok ())) () fun _ answer =>
          .done ((), answer))
        () fun _ answer => .done answer

theorem distinctNames_rows :
  (Json.array [.array [.bool true]]).DistinctNames
  := by
  have hb : (Json.bool true).DistinctNames := Json.distinctNames_of_inner_nil rfl
  have hr := Json.distinctNames_array (List.forall_mem_singleton.mpr hb)
  exact Json.distinctNames_array (List.forall_mem_singleton.mpr hr)

/-- The session is passed its root and an element that it gave. -/
theorem context_inside_visitRows :
  KeepsToOwn ((visitRows _ distinctNames_rows).run 0 (.new {})).history
    ∧ SteadyVisits ((visitRows _ distinctNames_rows).run 0 (.new {})).history
    ∧ ((visitRows _ distinctNames_rows).run 0 (.new {})).session.isInitialized = true
    ∧ ((visitRows _ distinctNames_rows).run 0 (.new {})).session.ContextInside
  := by
  have ho : KeepsToOwn ((visitRows _ distinctNames_rows).run 0 (.new {})).history := by
    show KeepsToOwn ([] ++ [_] ++ [_] ++ [_] ++ [_] ++ [_])
    simp only [keepsToOwn_snoc, Moment.passed, Op.passed, List.not_mem_nil, false_imp_iff,
      implies_true, and_true, List.forall_mem_singleton]
    refine ⟨⟨keepsToOwn_nil, ?_⟩, ?_⟩
    · apply Own.last
      apply List.mem_cons_self
    · apply Own.last
      apply List.mem_cons_self
  have hs : SteadyVisits ((visitRows _ distinctNames_rows).run 0 (.new {})).history := by
    have ha : (((visitRows _ distinctNames_rows).run 0 (.new {})).history.all
        fun m => m.depth == 0 || !m.adopts) = true := rfl
    intro m hm hd
    simpa [Nat.ne_of_gt hd] using List.all_eq_true.mp ha m hm
  exact ⟨ho, hs, rfl, (Script.context_inside _ _ ho hs).2⟩

end JsonAudit
