import JsonAudit.Conversion.Types
import JsonAudit.Proofs.Keyed
import JsonAudit.Proofs.Session.Correspondence
import JsonAudit.Proofs.Session.Phases

/-!
# What the settings decide

The settings of a session decide how outcomes are presented and nothing else: the messages of
records that compare two values, and whether outcomes are told.  Two runs of a script from sessions
with different settings, by which the script does not go, correspond step by step (`presentation`):
they have the same answers, contexts, keys, statuses and summaries.  This is
`Script.settings_present`; it holds of every script that looks neither at the settings nor into
tables (`Script.Blind.disregardsSettings`).
-/

namespace JsonAudit

/-! ### Records and tables -/

/-- The records have one status, and one message unless they compare two values. -/
structure Record.Alike (r r' : Record) : Prop where
  status : r.status = r'.status
  message : r.status = .unresolved → r.message = r'.message

theorem Record.Alike.refl (r : Record) :
  r.Alike r
  := ⟨rfl, fun _ => rfl⟩

/-- The tables have the same keys, with records that are alike. -/
def Table.Alike (t t' : Table) : Prop :=
  List.Forall₂ (fun entry entry' => entry.1 = entry'.1 ∧ entry.2.Alike entry'.2)
    t.entries t'.entries

namespace Table.Alike

variable {t t' : Table}

theorem refl (t : Table) :
  t.Alike t
  := List.forall₂_same.mpr fun _ _ => ⟨rfl, .refl _⟩

/-- Tables stay alike if alike records are entered under one key. -/
theorem insert (h : t.Alike t') (key : String) {record record' : Record}
    (hr : record.Alike record') :
  (t.insert key record).Alike (t'.insert key record')
  := Keyed.forall₂_insert hr h

/-- Alike tables have alike records under a key, or none. -/
theorem find? (h : t.Alike t') (key : String) :
  Option.Rel Record.Alike (t.find? key) (t'.find? key)
  := Keyed.forall₂_find? h key

theorem size_eq (h : t.Alike t') :
  t.size = t'.size
  := List.Forall₂.length_eq h

/-- Alike tables have the same number of records with a status. -/
theorem count_eq (h : t.Alike t') (status : Status) :
  t.count status = t'.count status
  := by
  rw [count, count]
  revert h
  rw [Alike]
  generalize t.entries = entries
  generalize t'.entries = entries'
  intro h
  induction h with
  | nil => rfl
  | cons he _ ih => rw [List.countP_cons, List.countP_cons, ih, he.2.status]

/-- Alike tables have the same summary. -/
theorem summary_eq (h : t.Alike t') :
  Summary.ofTable t = Summary.ofTable t'
  := by
  rw [Summary.ofTable, Summary.ofTable, h.count_eq, h.count_eq, h.count_eq]

end Table.Alike

/-- However many components of its keys are shown, a comparison has the same key and records that
are alike. -/
theorem Comparison.outcome_alike {α : Type} [Comparable α] (c : Comparison α) (n m : Nat) :
  (c.outcome n).1 = (c.outcome m).1 ∧ (c.outcome n).2.Alike (c.outcome m).2
  := by
  rw [outcome, outcome]
  split
  · exact ⟨rfl, .refl _⟩
  · exact ⟨rfl, .refl _⟩
  · refine ⟨rfl, rfl, ?_⟩
    dsimp only
    split <;> nofun

/-! ### Sessions and replies -/

/-- The tables are alike, and they are the same if the settings show as many components. -/
structure Table.Presents (a b : Settings) (t t' : Table) : Prop where
  alike : t.Alike t'
  equal : a.displayComponents = b.displayComponents → t = t'

/-- A table presents the same as itself under any settings. -/
theorem Table.Presents.refl (a b : Settings) (t : Table) :
  t.Presents a b t
  := ⟨.refl t, fun _ => rfl⟩

/-- Tables present the same if alike records are entered that are equal where as many components are
displayed. -/
theorem Table.Presents.insert {a b : Settings} {t t' : Table} (h : t.Presents a b t')
    (key : String) {record record' : Record} (hr : record.Alike record')
    (he : a.displayComponents = b.displayComponents → record = record') :
  (t.insert key record).Presents a b (t'.insert key record')
  := by
  constructor
  · apply h.alike.insert key hr
  · intro hd
    rw [h.equal hd, he hd]

/-- The sessions have the settings, the same document and context, and tables that are alike. -/
structure Session.Presents (a b : Settings) (s t : Session) : Prop where
  left : s.settings = a
  right : t.settings = b
  root : s.root = t.root
  current : s.current = t.current
  table : s.table.Presents a b t.table

/-- The answers are the same, but for tables, which are alike, and for the settings. -/
def Op.Presents (a b : Settings) : {α : Type} → Op α → α → α → Prop
  | _, .settings => fun _ _ => True
  | _, @record _ _ _ => Table.Presents a b
  | _, .table => Table.Presents a b
  | _, .takeTable => Table.Presents a b
  | _, _ => Eq

/-- Both are answers, which are related, or both are the same error. -/
inductive Answered {α : Type} (R : α → α → Prop) : Except Error α → Except Error α → Prop where
  | ok {value value' : α} : R value value' → Answered R (.ok value) (.ok value')
  | error (e : Error) : Answered R (.error e) (.error e)

/-- Equal answers have equal values, or one error. -/
theorem Answered.of_eq {α : Type} {answer answer' : Except Error α} (h : answer = answer') :
  Answered Eq answer answer'
  := by
  subst h
  cases answer with
  | ok value => exact .ok rfl
  | error e => exact .error e

/-- The event tells of an outcome. -/
def Event.isOutcome : Event → Bool
  | recorded _ _ _ => true
  | unresolved _ _ => true
  | _ => false

/-- What runs under two settings have in common: the answers up to messages, the errors, the
documents and contexts, and the events that do not tell of outcomes. -/
def presentation (a b : Settings) : Correspondence where
  sessions := Session.Presents a b
  answers op := Answered (op.Presents a b)
  events events events' :=
    events.filter (fun event => !event.isOutcome) = events'.filter fun event => !event.isOutcome

/-- Outcomes are told by nothing but outcome events. -/
theorem Session.filter_outcomeEvents (s : Session) (key : String) (record : Record) :
  (s.outcomeEvents key record).filter (fun event => !event.isOutcome) = []
  := by
  obtain ⟨status, message⟩ := record
  rw [outcomeEvents]
  split
  · cases status <;> rfl
  · rfl

namespace Session.Presents

variable {a b : Settings} {s t : Session}

/-- Sessions that present the same do so after the context is moved in both. -/
theorem moveTo (l : Location) (h : s.Presents a b t) :
  (s.moveTo l).Presents a b (t.moveTo l)
  := ⟨h.left, h.right, h.root, rfl, h.table⟩

/-- New sessions present the same, whatever their settings are. -/
theorem new (a b : Settings) :
  (new a).Presents a b (new b)
  := ⟨rfl, rfl, rfl, rfl, .refl a b .empty⟩

/-- Sessions that present the same do so after both adopt one document. -/
theorem adopt (h : s.Presents a b t) (value : Json) :
  (s.adopt value).session.Presents a b (t.adopt value).session
  := ⟨h.left, h.right, rfl, rfl, .refl a b .empty⟩

/-- Sessions that present the same answer a text to adopt in the same way. -/
theorem adoptText (h : s.Presents a b t) (text : String) :
  (presentation a b).Replies (.adoptText text) (s.adoptText text) (t.adoptText text)
  := by
  rcases adoptText_cases text with ⟨value, -, -, hr⟩ | ⟨e, hr⟩
  · rw [hr, hr]
    exact ⟨.ok rfl, h.adopt value, rfl⟩
  · rw [hr, hr]
    exact ⟨.error e, h, rfl⟩

/-- Sessions that present the same navigate in the same way. -/
theorem navigate (h : s.Presents a b t) (node : Location) (path : String) :
  (presentation a b).Replies (.navigate node path) (s.navigate node path) (t.navigate node path)
  := by
  rw [Session.navigate, Session.navigate, whenRooted, whenRooted, ← h.root]
  split
  · dsimp only
    split
    · exact ⟨.ok rfl, h.moveTo _, rfl⟩
    · exact ⟨.error _, h, rfl⟩
  · exact ⟨.error _, h, rfl⟩

/-- Sessions that present the same record a comparison under one key with one status, and with one
message where as many components are displayed. -/
theorem record {α : Type} [Comparable α] (h : s.Presents a b t) (c : Comparison α) :
  (presentation a b).Replies (.record c) (s.record c) (t.record c)
  := by
  rw [Session.record, Session.record, whenRooted, whenRooted, ← h.root]
  split
  · have ho := c.outcome_alike s.settings.displayComponents t.settings.displayComponents
    have he : a.displayComponents = b.displayComponents →
        c.outcome s.settings.displayComponents = c.outcome t.settings.displayComponents := by
      intro hd
      rw [h.left, h.right, hd]
    generalize c.outcome s.settings.displayComponents = outcome at ho he ⊢
    generalize c.outcome t.settings.displayComponents = outcome' at ho he ⊢
    obtain ⟨key, record⟩ := outcome
    obtain ⟨key', record'⟩ := outcome'
    obtain ⟨hk, hr⟩ := ho
    obtain rfl : key = key' := hk
    have ht := h.table.insert key hr fun hd => (Prod.mk.inj (he hd)).2
    have hf := (s.filter_outcomeEvents key record).trans (t.filter_outcomeEvents key record').symm
    exact ⟨.ok ht, ⟨h.left, h.right, rfl, h.current, ht⟩, hf⟩
  · exact ⟨.error _, h, rfl⟩

/-- Sessions that present the same reply to every operation so that they present the same again. -/
theorem reply (h : s.Presents a b t) {α : Type} (op : Op α) :
  (presentation a b).Replies op (op.run s) (op.run t)
  := by
  obtain ⟨root, current, table, settings⟩ := s
  obtain ⟨root', current', table', settings'⟩ := t
  obtain ⟨rfl, rfl, hroot, hcurrent, ht⟩ := h
  obtain rfl : root = root' := hroot
  obtain rfl : current = current' := hcurrent
  have hs : Presents settings settings' ⟨root, current, table, settings⟩
      ⟨root, current, table', settings'⟩ := ⟨rfl, rfl, rfl, rfl, ht⟩
  cases op with
  | root => exact ⟨.of_eq rfl, hs, rfl⟩
  | current => exact ⟨.of_eq rfl, hs, rfl⟩
  | isInitialized => exact ⟨.of_eq rfl, hs, rfl⟩
  | get => exact ⟨.of_eq rfl, hs, rfl⟩
  | expect => exact ⟨.of_eq rfl, hs, rfl⟩
  | pairWith => exact ⟨.of_eq rfl, hs, rfl⟩
  | settings => exact ⟨.ok trivial, hs, rfl⟩
  | table => exact ⟨.ok ht, hs, rfl⟩
  | summary => exact ⟨.ok ht.alike.summary_eq, hs, rfl⟩
  | adopt value distinct => exact ⟨.ok rfl, hs.adopt value, rfl⟩
  | adoptText text => apply hs.adoptText
  | navigate node path => apply hs.navigate
  | record c => apply hs.record
  | reset =>
    refine ⟨.ok rfl, new _ _, ?_⟩
    show [Event.reset table.size] = [Event.reset table'.size]
    rw [ht.alike.size_eq]
  | takeTable => exact ⟨.ok ht, new _ _, rfl⟩

end Session.Presents

/-! ### Runs -/

/-- Presenting the same is kept by operations and by moving the context. -/
theorem kept_presentation (a b : Settings) :
  (presentation a b).Kept
  where
  rooted h := by rw [Session.isInitialized, h.root, Session.isInitialized]
  moveTo := Session.Presents.moveTo
  reply op h := h.reply op

/-- The script does not go by the settings: where answers are the same but for the settings and
for messages of outcomes, it goes on in the same way, to results that are related. -/
def Script.DisregardsSettings {β : Type} (script : Script β) (a b : Settings)
    (R : β → β → Prop) : Prop :=
  (presentation a b).Scripts R script script

/-- The answer holds the settings, or records with their messages. -/
def Op.showsSettings : {α : Type} → Op α → Bool
  | _, .settings => true
  | _, @record _ _ _ => true
  | _, .table => true
  | _, .takeTable => true
  | _, _ => false

/-- Answers that show neither settings nor messages are equal if they present the same. -/
theorem Op.Presents.eq {a b : Settings} {α : Type} {op : Op α} {value value' : α}
    (h : op.Presents a b value value') (hs : op.showsSettings = false) :
  value = value'
  := by
  cases op with
  | settings => cases hs
  | record c => cases hs
  | table => cases hs
  | takeTable => cases hs
  | _ => exact h

/-- The script goes on in the same way after all answers that show the settings. -/
def Script.Blind : {β : Type} → Script β → Prop
  | _, .done _ => True
  | _, .call op next =>
    (op.showsSettings = true → ∀ value value', next (.ok value) = next (.ok value'))
      ∧ ∀ answer, (next answer).Blind
  | _, .iterate _ visitor _ next =>
    (∀ state child, (visitor state child).Blind) ∧ ∀ state answer, (next state answer).Blind

/-- A script that looks neither at the settings nor into tables does not go by the settings,
whatever these are. -/
theorem Script.Blind.disregardsSettings {β : Type} {script : Script β} (h : script.Blind)
    (a b : Settings) {R : β → β → Prop} (hr : ∀ result, R result result) :
  script.DisregardsSettings a b R
  := by
  induction script with
  | done result => apply Correspondence.Scripts.done (hr result)
  | call op next ih =>
    obtain ⟨hshown, hnext⟩ := h
    apply Correspondence.Scripts.call
    intro answer answer' ha
    have he : next answer = next answer' := by
      cases ha with
      | error e => rfl
      | ok hv =>
        cases hs : op.showsSettings with
        | false => rw [hv.eq hs]
        | true => apply hshown hs
    rw [← he]
    apply ih answer (hnext answer) hr
  | iterate node visitor state next ihv ihn =>
    obtain ⟨hvisitor, hnext⟩ := h
    apply Correspondence.scripts_iterate_refl
    · intro q child
      apply ihv q child (hvisitor q child)
      exact fun _ => ⟨rfl, rfl⟩
    · intro q answer
      apply ihn q answer (hnext q answer) hr

/-- A script that does not go by the settings runs on new sessions with different settings in the
same way: each step has the same answer or the same error, up to messages of outcomes, and leaves
the same document and context, and tables that are alike.  So are the tables in the end, with the
same summary; and they are the same if as many components are shown. -/
theorem Script.settings_present {β : Type} {a b : Settings} {s t : Session}
    (hs : Session.withSettings a = .ok s) (ht : Session.withSettings b = .ok t)
    {R : β → β → Prop} {script : Script β} (hr : script.DisregardsSettings a b R) :
  (presentation a b).Runs R (script.run 0 s) (script.run 0 t)
    ∧ (∀ key, Option.Rel Record.Alike ((script.run 0 s).session.table.find? key)
      ((script.run 0 t).session.table.find? key))
    ∧ (script.run 0 s).session.summary = (script.run 0 t).session.summary
    ∧ (a.displayComponents = b.displayComponents →
      (script.run 0 s).session.table = (script.run 0 t).session.table)
  := by
  obtain ⟨rfl, -⟩ := Session.of_withSettings hs
  obtain ⟨rfl, -⟩ := Session.of_withSettings ht
  have hruns := (kept_presentation a b).run hr 0 (.new a b)
  have htable := hruns.session.table
  exact ⟨hruns, htable.alike.find?, htable.alike.summary_eq, htable.equal⟩

/-- Records a comparison on the visits to the elements of an array, and reads the table. -/
def recordOnVisits : Script (Except Error Table) :=
  .call (.adopt (.array [.bool true, .bool true]) distinctNames_pair) fun
    | .error e => .done (.error e)
    | .ok root =>
      .iterate root
        (fun _ _ =>
          .call (.record (⟨⟨"a.b.c", some true⟩, ⟨"a.b.d", some true⟩⟩ : Comparison Bool))
            fun answer => .done ((), answer.map fun _ => ()))
        () fun _ _ => .call .table .done

/-- The script goes on in the same way after every record, so that it disregards settings. -/
theorem recordOnVisits_disregardsSettings (a b : Settings) :
  recordOnVisits.DisregardsSettings a b (Answered (Table.Presents a b))
  := by
  apply Correspondence.Scripts.call
  rintro _ _ (⟨rfl⟩ | e)
  · apply Correspondence.scripts_iterate_refl
    · intro _ _
      apply Script.Blind.disregardsSettings
      · exact ⟨fun _ _ _ => rfl, fun _ => trivial⟩
      · exact fun _ => ⟨rfl, rfl⟩
    · intro _ _
      apply Correspondence.Scripts.call
      intro _ _ h
      apply Correspondence.Scripts.done h
  · apply Correspondence.Scripts.done (.error e)

/-- The messages differ, and nothing else. -/
theorem settings_present_recordOnVisits :
  Session.withSettings {} = .ok (.new {})
    ∧ Session.withSettings ⟨3, false⟩ = .ok (.new ⟨3, false⟩)
    ∧ recordOnVisits.DisregardsSettings {} ⟨3, false⟩ (Answered (Table.Presents {} ⟨3, false⟩))
    ∧ (recordOnVisits.run 0 (.new {})).session.table.find? "a.b.c"
      = some ⟨.pass, "Expected b.c (true) is equal to b.d (true)"⟩
    ∧ (recordOnVisits.run 0 (.new ⟨3, false⟩)).session.table.find? "a.b.c"
      = some ⟨.pass, "Expected a.b.c (true) is equal to a.b.d (true)"⟩
    ∧ (recordOnVisits.run 0 (.new {})).session.summary
      = (recordOnVisits.run 0 (.new ⟨3, false⟩)).session.summary
  := by
  have hr := recordOnVisits_disregardsSettings {} ⟨3, false⟩
  have hp := Script.settings_present (a := {}) (b := ⟨3, false⟩) rfl rfl hr
  exact ⟨rfl, rfl, hr, by decide +kernel, by decide +kernel, hp.2.2.1⟩

end JsonAudit
