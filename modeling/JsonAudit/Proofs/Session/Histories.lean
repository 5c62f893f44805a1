import JsonAudit.Proofs.Session.Operations
import JsonAudit.Session.Script

/-!
# Histories of runs

`Op.effect` says once what an operation can do to a session: leave it as it is, adopt a document,
drop the document, move the context, or enter a record.  The history of a run leads from session
to session (`Leads`), and every visit belongs to an iteration that is going on
(`Script.run_leads`); what holds along a run is proved by induction on its history.

`Since` is the operator of past time: something happened, and since then all was quiet.  One more
moment changes it by `since_snoc`, and what holds at every moment by `forall_moment_snoc`.
-/

namespace JsonAudit

/-! ### Operations -/

/-- The location that an answer gives, if it gives one. -/
def located : Except Error Location → List Location
  | .ok l => [l]
  | .error _ => []

theorem mem_located {answer : Except Error Location} {l : Location} :
  l ∈ located answer ↔ answer = .ok l
  := by
  cases answer with
  | error => exact ⟨nofun, nofun⟩
  | ok found => simp [located, eq_comm]

namespace Op

variable {α : Type}

/-- The operation gives the session a document. -/
def adopts : Op α → Session → Bool
  | adopt value _, s => (s.adopt value).answer.isOk
  | adoptText text, s => (s.adoptText text).answer.isOk
  | _, _ => false

/-- The operation takes the document away. -/
def drops : Op α → Bool
  | reset => true
  | takeTable => true
  | _ => false

/-- The key and the record that the operation enters. -/
def recorded : Op α → Session → Option (String × Record)
  | record c, s =>
    if (s.record c).answer.isOk then some (c.outcome s.settings.displayComponents) else none
  | _, _ => none

/-- The locations that the operation answers with. -/
def given : Op α → Session → List Location
  | adopt value _, s => located (s.adopt value).answer
  | adoptText text, s => located (s.adoptText text).answer
  | root, s => located s.rootLocation
  | current, s => located s.currentLocation
  | navigate node path, s => located (s.navigate node path).answer
  | _, _ => []

/-- The locations from which the operation moves the context. -/
def passed : Op α → List Location
  | navigate node _ => [node]
  | _ => []

/-- What an operation does to a session. -/
inductive Effect (op : Op α) (s : Session) : Prop where
  | stays :
    (op.run s).session = s → op.adopts s = false → op.drops = false → op.recorded s = none →
    (∀ l ∈ op.given s, s.root = some l ∨ s.current = some l) → Effect op s
  | adopts (value : Json) :
    value.DistinctNames → (op.run s).session = (s.adopt value).session → op.adopts s = true →
    op.drops = false → op.recorded s = none → op.given s = [.root value] → Effect op s
  | drops :
    (op.run s).session = .new s.settings → op.adopts s = false → op.drops = true →
    op.recorded s = none → op.given s = [] → Effect op s
  | moves (node found : Location) (path : String) :
    op.passed = [node] → (node.locate path).value = some found → found.value.isNull = false →
    (op.run s).session = s.moveTo found → op.adopts s = false → op.drops = false →
    op.recorded s = none → op.given s = [found] → Effect op s
  | records (key : String) (record : Record) :
    (op.run s).session = { s with table := s.table.insert key record } → op.adopts s = false →
    op.drops = false → op.recorded s = some (key, record) → op.given s = [] → Effect op s

/-- A text makes the session adopt its document, or leaves the session as it is. -/
theorem effect_adoptText (text : String) (s : Session) :
  (adoptText text).Effect s
  := by
  rcases Session.adoptText_cases text with ⟨value, hd, -, hr⟩ | ⟨e, hr⟩
  · apply Effect.adopts value hd
    · rw [run, hr]
    · rw [adopts, hr]
      rfl
    · rfl
    · rfl
    · rw [given, hr]
      rfl
  · apply Effect.stays
    · rw [run, hr]
    · rw [adopts, hr]
      rfl
    · rfl
    · rfl
    · rw [given, hr]
      rintro l ⟨⟩

/-- Navigation moves the context to what is located, or leaves the session as it is. -/
theorem effect_navigate (node : Location) (path : String) (s : Session) :
  (navigate node path).Effect s
  := by
  rcases s.navigate_cases node path with ⟨found, -, hv, hn, hr⟩ | ⟨e, notes, hr⟩
  · apply Effect.moves node found path rfl hv hn
    · rw [run, hr]
    · rfl
    · rfl
    · rfl
    · rw [given, hr]
      rfl
  · apply Effect.stays
    · rw [run, hr]
    · rfl
    · rfl
    · rfl
    · rw [given, hr]
      rintro l ⟨⟩

/-- A record is entered, or the session stays as it is. -/
theorem effect_record [Comparable α] (c : Comparison α) (s : Session) :
  (record c).Effect s
  := by
  rcases s.record_cases c with ⟨key, record, -, ho, hr⟩ | hr
  · apply Effect.records key record
    · rw [run, hr]
    · rfl
    · rfl
    · rw [recorded, hr, ho]
      rfl
    · rfl
  · apply Effect.stays
    · rw [run, hr]
    · rfl
    · rfl
    · rw [recorded, hr]
      rfl
    · rintro l ⟨⟩

/-- Every operation has one of the effects. -/
theorem effect (op : Op α) (s : Session) :
  op.Effect s
  := by
  cases op with
  | adopt value distinct => apply Effect.adopts value distinct rfl rfl rfl rfl rfl
  | adoptText text => apply effect_adoptText
  | root =>
    apply Effect.stays rfl rfl rfl rfl
    intro l hl
    left
    apply Session.root_of_rootLocation (mem_located.mp hl)
  | current =>
    apply Effect.stays rfl rfl rfl rfl
    intro l hl
    right
    apply Session.current_of_currentLocation (mem_located.mp hl)
  | navigate node path => apply effect_navigate
  | record c => apply effect_record
  | reset => apply Effect.drops rfl rfl rfl rfl rfl
  | takeTable => apply Effect.drops rfl rfl rfl rfl rfl
  | _ =>
    apply Effect.stays rfl rfl rfl rfl
    rintro l ⟨⟩

end Op

/-! ### Moments -/

namespace Moment

/-- The session gets a document. -/
def adopts : Moment → Bool
  | call _ op before => op.adopts before
  | _ => false

/-- The table is cleared: the session gets a document or loses it. -/
def clears : Moment → Bool
  | call _ op before => op.adopts before || op.drops
  | _ => false

/-- The key and the record that are entered. -/
def recorded : Moment → Option (String × Record)
  | call _ op before => op.recorded before
  | _ => none

/-- The events of the moment. -/
def events : Moment → List Event
  | call _ op before => (op.run before).events
  | _ => []

/-- The locations that the session gives to the script. -/
def given : Moment → List Location
  | call _ op before => op.given before
  | iterate _ _ _ => []
  | visit _ child _ => [child]

/-- The locations that the script passes to the session to move its context. -/
def passed : Moment → List Location
  | call _ op _ => op.passed
  | iterate _ node _ => [node]
  | visit _ _ _ => []

end Moment

/-! ### At every moment -/

/-- A moment of a history is its last one, or a moment of what is before that. -/
theorem snoc_eq_append_cons_iff {past earlier later : List Moment} {m other : Moment} :
  past ++ [m] = earlier ++ other :: later
    ↔ past = earlier ∧ m = other ∧ later = []
      ∨ ∃ init, past = earlier ++ other :: init ∧ later = init ++ [m]
  := by
  constructor
  · intro h
    rcases List.eq_nil_or_concat later with rfl | ⟨init, last, rfl⟩
    · obtain ⟨hp, hm⟩ := List.append_singleton_inj.mp h
      exact .inl ⟨hp, hm, rfl⟩
    · rw [List.concat_eq_append] at h ⊢
      rw [← List.cons_append, ← List.append_assoc] at h
      obtain ⟨hp, rfl⟩ := List.append_singleton_inj.mp h
      exact .inr ⟨init, hp, rfl⟩
  · rintro (⟨rfl, rfl, rfl⟩ | ⟨init, rfl, rfl⟩)
    · rfl
    · rw [List.append_assoc, List.cons_append]

/-- Whatever is said of every moment and those before it holds of an empty history. -/
theorem forall_moment_nil {P : List Moment → Moment → Prop} :
  ∀ earlier m later, [] = earlier ++ m :: later → P earlier m
  := by
  intro earlier m later h
  exact absurd h.symm (List.append_ne_nil_of_right_ne_nil earlier (List.cons_ne_nil m later))

/-- What holds at every moment of a history holds at the last one and at every one before. -/
theorem forall_moment_snoc {P : List Moment → Moment → Prop} {past : List Moment} {m : Moment} :
  (∀ earlier other later, past ++ [m] = earlier ++ other :: later → P earlier other)
    ↔ (∀ earlier other later, past = earlier ++ other :: later → P earlier other) ∧ P past m
  := by
  constructor
  · intro h
    refine ⟨?_, h past m [] rfl⟩
    intro earlier other later hp
    apply h earlier other (later ++ [m])
    exact snoc_eq_append_cons_iff.mpr (.inr ⟨later, hp, rfl⟩)
  · rintro ⟨hp, hm⟩ earlier other later h
    rcases snoc_eq_append_cons_iff.mp h with ⟨rfl, rfl, -⟩ | ⟨init, hi, -⟩
    · apply hm
    · apply hp earlier other init hi

/-! ### Since -/

/-- Something happened, and since then all was quiet. -/
def Since (quiet happened : Moment → Prop) (history : List Moment) : Prop :=
  ∃ earlier m later, history = earlier ++ m :: later ∧ happened m ∧ ∀ other ∈ later, quiet other

/-- Nothing happened in an empty history. -/
theorem not_since_nil {quiet happened : Moment → Prop} :
  ¬ Since quiet happened []
  := by
  rintro ⟨earlier, m, later, h, -⟩
  exact forall_moment_nil (P := fun _ _ => False) earlier m later h

/-- What happened either happens at the last moment, or it did so before and the last moment is
quiet. -/
theorem since_snoc {quiet happened : Moment → Prop} {history : List Moment} {m : Moment} :
  Since quiet happened (history ++ [m]) ↔ happened m ∨ quiet m ∧ Since quiet happened history
  := by
  constructor
  · rintro ⟨earlier, first, later, h, hh, hq⟩
    rcases snoc_eq_append_cons_iff.mp h with ⟨-, rfl, -⟩ | ⟨init, rfl, rfl⟩
    · left
      apply hh
    · obtain ⟨hi, hl⟩ := List.forall_mem_append.mp hq
      right
      exact ⟨List.forall_mem_singleton.mp hl, earlier, first, init, rfl, hh, hi⟩
  · rintro (hh | ⟨hq, earlier, first, later, rfl, hh, hl⟩)
    · exact ⟨history, m, [], rfl, hh, List.forall_mem_nil _⟩
    · refine ⟨earlier, first, later ++ [m], List.append_assoc _ _ _, hh, ?_⟩
      exact List.forall_mem_append.mpr ⟨hl, List.forall_mem_singleton.mpr hq⟩

theorem Since.mono {quiet happened happened' : Moment → Prop} {past : List Moment}
    (h : Since quiet happened past) (hi : ∀ m, happened m → happened' m) :
  Since quiet happened' past
  := by
  obtain ⟨earlier, m, later, hp, hm, hq⟩ := h
  exact ⟨earlier, m, later, hp, hi m hm, hq⟩

/-- Since all was quiet one of two things happened exactly if the one did or the other. -/
theorem since_or {quiet happened happened' : Moment → Prop} {past : List Moment} :
  Since quiet (fun m => happened m ∨ happened' m) past
    ↔ Since quiet happened past ∨ Since quiet happened' past
  := by
  constructor
  · rintro ⟨earlier, m, later, hp, hm | hm, hq⟩
    · exact .inl ⟨earlier, m, later, hp, hm, hq⟩
    · exact .inr ⟨earlier, m, later, hp, hm, hq⟩
  · rintro (h | h)
    · exact h.mono fun _ => .inl
    · exact h.mono fun _ => .inr

/-! ### Runs -/

/-- After the moments an iteration over the node is going on, in so many visits. -/
def Iterating (past : List Moment) (depth : Nat) (node : Location) : Prop :=
  Since (fun m => depth < m.depth) (fun m => ∃ before, m = .iterate depth node before) past

/-- The moment can be the next of the session after those moments: a call and an iteration find
the session as it is, and a visit belongs to an iteration that is going on. -/
def Moment.Follows (past : List Moment) (s : Session) : Moment → Prop
  | call _ _ before => before = s
  | iterate _ _ before => before = s
  | visit depth child after => after = s.moveTo child
    ∧ ∃ outer node, depth = outer + 1 ∧ Iterating past outer node ∧ child ∈ node.children

/-- After the past moments, these moments lead from one session to another. -/
def Leads (past : List Moment) : Session → List Moment → Session → Prop
  | s, [], t => s = t
  | s, m :: rest, t => m.Follows past s ∧ Leads (past ++ [m]) m.after rest t

/-- Moments that lead on from where others have led make one history with those. -/
theorem Leads.append {past first second : List Moment} {s t u : Session}
    (hf : Leads past s first t) (hs : Leads (past ++ first) t second u) :
  Leads past s (first ++ second) u
  := by
  induction first generalizing past s with
  | nil =>
    cases hf
    rw [List.append_nil] at hs
    apply hs
  | cons m rest ih =>
    obtain ⟨hm, hr⟩ := hf
    refine ⟨hm, ih hr ?_⟩
    rw [List.append_assoc]
    apply hs

/-- The session after the moments, the first of which finds this session. -/
def Session.afterAll (s : Session) (moments : List Moment) : Session :=
  moments.foldl (fun _ m => m.after) s

/-- A history leads to the session after all its moments. -/
theorem Leads.afterAll_eq {past history : List Moment} {s t : Session}
    (h : Leads past s history t) :
  s.afterAll history = t
  := by
  induction history generalizing past s with
  | nil => apply h
  | cons m rest ih => apply ih h.2

/-- What every moment keeps holds in every state of a run. -/
theorem Leads.invariant {P : List Moment → Session → Prop}
    (hp : ∀ {past s m}, P past s → m.Follows past s → P (past ++ [m]) m.after)
    {past earlier later : List Moment} {s t : Session} (h : P past s)
    (hl : Leads past s (earlier ++ later) t) :
  P (past ++ earlier) (s.afterAll earlier)
  := by
  induction earlier generalizing past s with
  | nil =>
    rw [List.append_nil]
    apply h
  | cons m rest ih =>
    obtain ⟨hf, hr⟩ := hl
    have hn := ih (hp h hf) hr
    rw [List.append_assoc] at hn
    apply hn

/-- A moment of a run follows the moments before it. -/
theorem Leads.follows {past earlier later : List Moment} {m : Moment} {s t : Session}
    (h : Leads past s (earlier ++ m :: later) t) :
  m.Follows (past ++ earlier) (s.afterAll earlier)
  := by
  induction earlier generalizing past s with
  | nil =>
    rw [List.append_nil]
    apply h.1
  | cons first rest ih =>
    have hn := ih h.2
    rw [List.append_assoc] at hn
    apply hn

namespace Session

universe u

variable {σ : Type u} {visitor : Visitor σ} {P : σ → Session → Prop}

/-- What every visit keeps holds after all of them. -/
theorem visitEach_invariant {locations : List Location}
    (hv : ∀ state s, ∀ child ∈ locations, P state s →
      P (visitor state (s.moveTo child) child).1 (visitor state (s.moveTo child) child).2.session)
    {state : σ} {s : Session} (h : P state s) :
  P (visitEach visitor state s locations).1 (visitEach visitor state s locations).2.session
  := by
  induction locations generalizing state s with
  | nil => apply h
  | cons child rest ih =>
    have hc := hv state s child List.mem_cons_self h
    have hr := fun state s other hm => hv state s other (List.mem_cons_of_mem child hm)
    rw [visitEach]
    generalize visitor state (s.moveTo child) child = visit at hc
    obtain ⟨next, reply⟩ := visit
    dsimp only at hc ⊢
    split
    · apply hc
    · apply ih hr hc

/-- What every visit to a child keeps holds after the iteration. -/
theorem iterate_invariant {node : Location}
    (hv : ∀ state s, ∀ child ∈ node.children, P state s →
      P (visitor state (s.moveTo child) child).1 (visitor state (s.moveTo child) child).2.session)
    {state : σ} {s : Session} (h : P state s) :
  P (s.iterate node visitor state).1 (s.iterate node visitor state).2.session
  := by
  rw [iterate]
  split
  · apply visitEach_invariant hv h
  · apply h

end Session

/-- The visits of an iteration lead on if the runs on them do. -/
theorem leads_visits {σ : Type} {run : σ → Location → Session → Run (σ × Except Error Unit)}
    {depth : Nat}
    (hr : ∀ state child past s, Leads past s (run state child s).history (run state child s).session
      ∧ ∀ m ∈ (run state child s).history, depth + 1 ≤ m.depth)
    (past : List Moment) (s : Session) (node : Location) (state : σ) :
  Leads (past ++ [.iterate depth node s]) s
      (s.iterate node (Visitor.ofRuns (depth + 1) run) (state, [])).1.2
      (s.iterate node (Visitor.ofRuns (depth + 1) run) (state, [])).2.session
    ∧ ∀ m ∈ (s.iterate node (Visitor.ofRuns (depth + 1) run) (state, [])).1.2, depth < m.depth
  := by
  let P (visits : σ × List Moment) (t : Session) : Prop :=
    Leads (past ++ [.iterate depth node s]) s visits.2 t ∧ ∀ m ∈ visits.2, depth < m.depth
  have hs : P (state, []) s := ⟨rfl, List.forall_mem_nil _⟩
  refine Session.iterate_invariant ?_ hs
  rintro ⟨state, visits⟩ t child hc ⟨hl, hd⟩
  let entry : Moment := .visit (depth + 1) child (t.moveTo child)
  obtain ⟨hlv, hdv⟩ := hr state child (past ++ [.iterate depth node s] ++ visits ++ [entry])
    (t.moveTo child)
  have hi : Iterating (past ++ [.iterate depth node s] ++ visits) depth node :=
    ⟨past, _, visits, List.append_assoc _ _ _, ⟨s, rfl⟩, hd⟩
  have he : entry.Follows (past ++ [.iterate depth node s] ++ visits) t :=
    ⟨rfl, depth, node, rfl, hi, hc⟩
  have hn : Leads (past ++ [.iterate depth node s] ++ visits) t
      (entry :: (run state child (t.moveTo child)).history)
      (run state child (t.moveTo child)).session := ⟨he, hlv⟩
  have hdn : ∀ m ∈ entry :: (run state child (t.moveTo child)).history, depth < m.depth :=
    List.forall_mem_cons.mpr ⟨Nat.lt_succ_self depth, hdv⟩
  exact ⟨hl.append hn, List.forall_mem_append.mpr ⟨hd, hdn⟩⟩

/-- The history of a run leads from the session before it to the session after it, and every
moment of it is within the visits that were going on. -/
theorem Script.run_leads {β : Type} (script : Script β) (depth : Nat) (past : List Moment)
    (s : Session) :
  Leads past s (script.run depth s).history (script.run depth s).session
    ∧ ∀ m ∈ (script.run depth s).history, depth ≤ m.depth
  := by
  induction script generalizing depth past s with
  | done result => exact ⟨rfl, List.forall_mem_nil _⟩
  | call op next ih =>
    obtain ⟨hl, hd⟩ := ih (op.run s).answer depth (past ++ [.call depth op s]) (op.run s).session
    exact ⟨⟨rfl, hl⟩, List.forall_mem_cons.mpr ⟨Nat.le_refl depth, hd⟩⟩
  | iterate node visitor state next ihv ihn =>
    obtain ⟨hv, hd⟩ := leads_visits
      (fun state child past s => ihv state child (depth + 1) past s) past s node state
    rw [run]
    generalize s.iterate node _ _ = visits at hv hd ⊢
    obtain ⟨⟨last, inner⟩, reply⟩ := visits
    obtain ⟨hn, hdn⟩ := ihn last reply.answer depth (past ++ [.iterate depth node s] ++ inner)
      reply.session
    have hdi : ∀ m ∈ inner, depth ≤ m.depth := fun m hm => Nat.le_of_lt (hd m hm)
    constructor
    · exact ⟨rfl, hv.append hn⟩
    · exact List.forall_mem_cons.mpr
        ⟨Nat.le_refl depth, List.forall_mem_append.mpr ⟨hdi, hdn⟩⟩

/-! ### Events -/

/-- The events of visits are those of the moments that they note. -/
theorem events_visitEach {σ : Type} {run : σ → Location → Session → Run (σ × Except Error Unit)}
    (hr : ∀ state child s, (run state child s).events
      = (run state child s).history.flatMap Moment.events)
    (depth : Nat) (locations : List Location) (visits : σ × List Moment) (s : Session) :
  (s.visitEach (Visitor.ofRuns depth run) visits locations).1.2.flatMap Moment.events
    = visits.2.flatMap Moment.events
      ++ (s.visitEach (Visitor.ofRuns depth run) visits locations).2.events
  := by
  induction locations generalizing visits s with
  | nil =>
    symm
    apply List.append_nil
  | cons child rest ih =>
    have he := hr visits.1 child (s.moveTo child)
    rw [Session.visitEach, Visitor.ofRuns]
    generalize run visits.1 child (s.moveTo child) = visit at he ⊢
    obtain ⟨⟨state, answer⟩, t, events, history⟩ := visit
    cases answer with
    | error e =>
      rw [List.flatMap_append, he]
      rfl
    | ok =>
      rw [ih, he, List.flatMap_append, ← List.append_assoc]
      rfl

/-- The events of an iteration are those of the moments that its visits note. -/
theorem events_iterate {σ : Type} {run : σ → Location → Session → Run (σ × Except Error Unit)}
    (hr : ∀ state child s, (run state child s).events
      = (run state child s).history.flatMap Moment.events)
    (depth : Nat) (node : Location) (state : σ) (s : Session) :
  (s.iterate node (Visitor.ofRuns depth run) (state, [])).1.2.flatMap Moment.events
    = (s.iterate node (Visitor.ofRuns depth run) (state, [])).2.events
  := by
  rw [Session.iterate]
  split
  · apply events_visitEach hr
  · rfl

/-- The events of a run are those of its moments, in their order. -/
theorem Script.events_run {β : Type} (script : Script β) (depth : Nat) (s : Session) :
  (script.run depth s).events = (script.run depth s).history.flatMap Moment.events
  := by
  induction script generalizing depth s with
  | done result => rfl
  | call op next ih =>
    rw [run, List.flatMap_cons, ← ih]
    rfl
  | iterate node visitor state next ihv ihn =>
    have hv := events_iterate (fun state child s => ihv state child (depth + 1) s) (depth + 1)
      node state s
    rw [run, List.cons_append, List.flatMap_cons, List.flatMap_append, hv, ← ihn]
    rfl

end JsonAudit
