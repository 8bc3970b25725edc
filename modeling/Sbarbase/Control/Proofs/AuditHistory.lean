import Sbarbase.Control.AuditLog
import Sbarbase.Control.Proofs.Frames
import Mathlib.Data.List.Range
/-!
# The history behind the log

Projects are created, moved between organizations and deleted while events are
recorded. A project id is never used twice. What the log says of the latest arrival
of a project is compared with where the project was, in every state since.
-/

set_option synthInstance.maxSize 5000

namespace Sbarbase.Control.Proofs.AuditHistory

open Lib Lib.Call Control Control.AuditLog Control.Proofs.Frames

/-! ## The machine -/

/-- The catalog, and every project id so far. -/
structure Past where
  catalog : Catalog
  used : List String

inductive HistoryEvent
  | transfer (ctx : Context) (actor project destination : String)
      (revokeRuntime : String → Except String Unit)
  /-- Any other operation records under another action. -/
  | record (ctx : Context) (actor action subject : String) (detail : Detail)
  /-- Any other operation may change every other table, and moves no project. -/
  | change (next : Catalog)

/-- A project of the next catalog is in its organization already, or new. -/
def Settled (s : Past) (next : Catalog) : Prop :=
  ∀ row ∈ next.projects.rows, row.id ∉ s.used ∨
    ∃ old ∈ s.catalog.projects.rows, old.id = row.id ∧ old.organization = row.organization

instance (s : Past) (next : Catalog) : Decidable (Settled s next) := by
  unfold Settled
  infer_instance

def Past.step (s : Past) : HistoryEvent → Past
  | .transfer ctx actor project destination revokeRuntime =>
    { s with catalog := (transferProject ctx actor project destination revokeRuntime).after s.catalog }
  | .record ctx actor action subject detail =>
    if action = movedAction then s
    else { s with catalog := (Access.record ctx actor action subject detail).after s.catalog }
  | .change next =>
    if Settled s next then
      ⟨{ next with audit := s.catalog.audit }, s.used ++ next.projects.rows.map Project.id⟩
    else s

def historyMachine : Machine Past HistoryEvent := ⟨⟨.empty, []⟩, Past.step⟩

/-! ## The log -/

/-- The sequence numbers count from one. -/
def Numbered (log : List AuditEvent) : Prop :=
  log.map AuditEvent.sequence = List.range' 1 log.length

theorem numbered_concat {log : List AuditEvent} (h : Numbered log) {event : AuditEvent}
    (hevent : event.sequence = log.length + 1) : Numbered (log ++ [event]) := by
  rw [Numbered, List.map_append, h, List.length_append, List.length_singleton,
    List.range'_concat, List.map_singleton, hevent]
  simp [Nat.add_comm]

/-- Later events have larger numbers. -/
theorem sequence_lt {log rest : List AuditEvent} (h : Numbered (log ++ rest)) {old new : AuditEvent}
    (hold : old ∈ log) (hnew : new ∈ rest) : old.sequence < new.sequence := by
  have hsorted : ((log ++ rest).map AuditEvent.sequence).Pairwise (· < ·) := by
    rw [h]
    exact List.pairwise_lt_range'
  rw [List.map_append, List.pairwise_append] at hsorted
  exact hsorted.2.2 _ (List.mem_map_of_mem hold) _ (List.mem_map_of_mem hnew)

/-- The log goes on from `log` with events of other actions, the projects staying. -/
def Logged (projects : Table Project.id) (log : List AuditEvent) (c : Catalog) : Prop :=
  c.projects = projects ∧ Numbered c.audit ∧
    ∃ rest, c.audit = log ++ rest ∧ ∀ event ∈ rest, event.action ≠ movedAction

theorem Logged.refl {c : Catalog} (h : Numbered c.audit) : Logged c.projects c.audit c :=
  ⟨rfl, h, [], by simp, by simp⟩

abbrev logged (c : Catalog) := (c.projects, c.audit)

instance : Quiet logged := ⟨fun _ _ _ => rfl⟩

section

variable {projects : Table Project.id} {log : List AuditEvent}

theorem logged_of_leaves {α : Type} (call : CatalogCall α) [Leaves logged call] :
    Keeps (Logged projects log) call := by
  apply keeps_of_leaves (p := logged)
  intro c c' hsame hc
  obtain ⟨hprojects, haudit⟩ := Prod.mk.inj hsame
  rwa [Logged, hprojects, haudit]

theorem logged_record (ctx : Context) {action : String} (haction : action ≠ movedAction)
    (actor subject : String) (detail : Detail) :
    Keeps (Logged projects log) (Access.record ctx actor action subject detail) := by
  rintro c ⟨hprojects, hnumbered, rest, haudit, hrest⟩
  rw [Access.record, ensures_write]
  refine ⟨hprojects, numbered_concat hnumbered rfl,
    rest ++ [⟨c.audit.length + 1, actor, action, subject, detail, ctx.now⟩], ?_, ?_⟩
  · rw [← List.append_assoc, ← haudit]
  · intro event hevent
    rcases List.mem_append.mp hevent with hold | hnew
    · exact hrest event hold
    · rw [List.mem_singleton.mp hnew]
      exact haction

end

/-! ## A transfer -/

/-- The project moved, which the first new event says. -/
structure Transfers (c c' : Catalog) (project destination : String) : Prop where
  found : ∃ row ∈ c.projects.rows, row.id = project ∧ row.organization ≠ destination
  projects : c'.projects.rows = c.projects.rows.map fun row =>
    if decide (row.id = project) = true then { row with organization := destination } else row
  log : ∃ first rest, c'.audit = c.audit ++ first :: rest ∧ Numbered c'.audit ∧
    first.action = movedAction ∧ first.subject = project ∧
    first.detail.lookup "to" = some (.text destination) ∧
    ∀ event ∈ rest, event.action ≠ movedAction

instance (p : ProvisionJob → Bool) (f : ProvisionJob → ProvisionJob)
    (hf : ∀ job, (f job).environment = job.environment) : Leaves logged (updateJob p f hf) := by
  unfold updateJob
  infer_instance

theorem logged_cancelQueued {projects : Table Project.id} {log : List AuditEvent} (ctx : Context)
    (job : ProvisionJob) : Keeps (Logged projects log) (cancelQueued ctx job) := by
  unfold cancelQueued
  apply (logged_of_leaves _).bind
  intro _
  exact logged_record ctx (by decide) _ _ _

theorem transferProject_transfers (ctx : Context) (actor project destination : String)
    (revokeRuntime : String → Except String Unit) {c : Catalog} (hc : Numbered c.audit) :
    (transferProject ctx actor project destination revokeRuntime).Ensures c fun _ c' =>
      c' = c ∨ Transfers c c' project destination := by
  unfold transferProject
  rw [ensures_transaction]
  apply ensures_check
  intro source hsource
  have hfound : c.projects.get project = some source := by
    simp only [Access.project, returns_bind, returns_read, returns_found, returns_pure] at hsource
    obtain ⟨_, _, ⟨rfl, rfl⟩, _, _, ⟨hget, rfl⟩, _, _, _, rfl, _⟩ := hsource
    exact hget
  obtain ⟨hmem, hid⟩ := Table.get_eq_some.mp hfound
  apply ensures_check
  intro _ _
  rw [ensures_bind, ensures_read, ensures_bind, ensures_require]
  intro _
  rw [ensures_ite]
  constructor
  · intro _
    rw [ensures_pure]
    exact .inl rfl
  · intro hmoves
    apply ensures_check
    intro _ _
    apply ensures_check
    intro _ _
    rw [ensures_bind, ensures_write, ensures_bind, Access.record, ensures_write, ensures_bind]
    refine (ensures_forEach _ (fun job _ => logged_cancelQueued ctx job)
      (Logged.refl (numbered_concat hc rfl))).mono ?_
    intro _ c₂ hc₂
    refine Ensures.of_keeps (logged_of_leaves _) hc₂ ?_
    rintro _ c' ⟨hprojects, hnumbered, rest, haudit, hrest⟩
    refine .inr ⟨⟨source, hmem, hid, hmoves⟩, ?_,
      ⟨c.audit.length + 1, actor, movedAction, project,
        [("from", .text source.organization), ("to", .text destination)], ctx.now⟩,
      rest, ?_, hnumbered, rfl, rfl, ?_, hrest⟩
    · rw [hprojects]
      rfl
    · rw [haudit, List.append_assoc]
      rfl
    · rfl

/-! ## One event -/

/-- A project stays where it was or is new, or it moved and the first new event
says so. No later new event says that a project moved. -/
structure Step (s s' : Past) : Prop where
  numbered : Numbered s'.catalog.audit
  used : ∀ id ∈ s.used, id ∈ s'.used
  rows : ∀ row ∈ s'.catalog.projects.rows, row.id ∈ s'.used
  log : ∃ rest, s'.catalog.audit = s.catalog.audit ++ rest ∧
    (∀ event ∈ rest, event.action = movedAction → event.subject ∈ s.used) ∧
    ∀ row ∈ s'.catalog.projects.rows,
      ((row.id ∉ s.used ∨
          ∃ old ∈ s.catalog.projects.rows, old.id = row.id ∧ old.organization = row.organization) ∧
        ∀ event ∈ rest, arrives row.organization row.id event = false) ∨
      ∃ old ∈ s.catalog.projects.rows, old.id = row.id ∧ old.organization ≠ row.organization ∧
        ∃ first later, rest = first :: later ∧ arrives row.organization row.id first = true ∧
          ∀ event ∈ later, arrives row.organization row.id event = false

/-- The log is numbered, and the ids of the projects and of the moves are used. -/
structure Kept (s : Past) : Prop where
  numbered : Numbered s.catalog.audit
  rows : ∀ row ∈ s.catalog.projects.rows, row.id ∈ s.used
  moves : ∀ event ∈ s.catalog.audit, event.action = movedAction → event.subject ∈ s.used

theorem not_arrives_of_action {organization project : String} {event : AuditEvent}
    (h : event.action ≠ movedAction) : arrives organization project event = false := by
  simp [arrives, h]

/-- Nothing that the log says of projects changed. -/
theorem step_quiet {s : Past} {c' : Catalog} (hs : Kept s)
    (h : Logged s.catalog.projects s.catalog.audit c') : Step s { s with catalog := c' } := by
  obtain ⟨hprojects, hnumbered, rest, haudit, hrest⟩ := h
  refine ⟨hnumbered, fun id hid => hid, ?_, rest, haudit, ?_, ?_⟩
  · intro row hrow
    apply hs.rows
    rwa [← hprojects]
  · exact fun event hevent haction => absurd haction (hrest event hevent)
  · intro row hrow
    left
    refine ⟨.inr ⟨row, ?_, rfl, rfl⟩, fun event hevent => not_arrives_of_action (hrest event hevent)⟩
    rwa [← hprojects]

theorem step_transfer {s : Past} {c' : Catalog} {project destination : String} (hs : Kept s)
    (h : Transfers s.catalog c' project destination) : Step s { s with catalog := c' } := by
  obtain ⟨source, hsource, rfl, hmoves⟩ := h.found
  obtain ⟨first, later, haudit, hnumbered, haction, hsubject, hto, hlater⟩ := h.log
  have hrows : ∀ row ∈ c'.projects.rows, ∃ old ∈ s.catalog.projects.rows,
      old.id = row.id ∧ (old.id = source.id ∧ row.organization = destination ∨
        old.id ≠ source.id ∧ old.organization = row.organization) := by
    intro row hrow
    rw [h.projects] at hrow
    obtain ⟨old, hold, rfl⟩ := List.mem_map.mp hrow
    by_cases hsame : old.id = source.id
    · exact ⟨old, hold, by simp [hsame], .inl ⟨hsame, by simp [hsame]⟩⟩
    · exact ⟨old, hold, by simp [hsame], .inr ⟨hsame, by simp [hsame]⟩⟩
  refine ⟨hnumbered, fun id hid => hid, ?_, first :: later, haudit, ?_, ?_⟩
  · intro row hrow
    obtain ⟨old, hold, hid, -⟩ := hrows row hrow
    rw [← hid]
    exact hs.rows old hold
  · intro event hevent hmoved
    rcases List.mem_cons.mp hevent with rfl | hrest
    · rw [hsubject]
      exact hs.rows source hsource
    · exact absurd hmoved (hlater event hrest)
  · intro row hrow
    obtain ⟨old, hold, hid, ⟨hsame, horganization⟩ | ⟨hother, horganization⟩⟩ := hrows row hrow
    · right
      obtain rfl := s.catalog.projects.eq_of_key hold hsource hsame
      refine ⟨old, hold, hid, ?_, first, later, rfl, ?_, ?_⟩
      · rwa [horganization]
      · simp [arrives, haction, hsubject, hid, hto, horganization]
      · exact fun event hevent => not_arrives_of_action (hlater event hevent)
    · left
      refine ⟨.inr ⟨old, hold, hid, horganization⟩, ?_⟩
      intro event hevent
      rcases List.mem_cons.mp hevent with rfl | hrest
      · have hne : source.id ≠ row.id := fun heq => hother (hid.trans heq.symm)
        simp [arrives, hsubject, hne]
      · exact not_arrives_of_action (hlater event hrest)

theorem step_change {s : Past} {next : Catalog} (hs : Kept s) (h : Settled s next) :
    Step s ⟨{ next with audit := s.catalog.audit },
      s.used ++ next.projects.rows.map Project.id⟩ := by
  refine ⟨hs.numbered, fun id hid => List.mem_append_left _ hid, ?_, [], by simp, by simp, ?_⟩
  · exact fun row hrow => List.mem_append_right _ (List.mem_map_of_mem hrow)
  · exact fun row hrow => .inl ⟨h row hrow, by simp⟩

theorem step_spec {s : Past} (hs : Kept s) (event : HistoryEvent) :
    Step s (historyMachine.step s event) := by
  have hrefl : Step s s := step_quiet hs (Logged.refl hs.numbered)
  cases event with
  | transfer ctx actor project destination revokeRuntime =>
      have hatomic : Atomic (transferProject ctx actor project destination revokeRuntime) := by
        unfold transferProject
        infer_instance
      show Step s { s with catalog :=
        (transferProject ctx actor project destination revokeRuntime).after s.catalog }
      rcases hatomic.after_cases s.catalog with hsame | ⟨result, hr⟩
      · rwa [hsame]
      · rcases transferProject_transfers ctx actor project destination revokeRuntime hs.numbered
          result _ hr with hsame | htransfers
        · rwa [hsame]
        · exact step_transfer hs htransfers
  | record ctx actor action subject detail =>
      show Step s (s.step (.record ctx actor action subject detail))
      rw [Past.step]
      split_ifs with haction
      · exact hrefl
      · have hlogged := logged_record ctx haction actor subject detail s.catalog
          (Logged.refl hs.numbered) () _ rfl
        exact step_quiet hs hlogged
  | change next =>
      show Step s (s.step (.change next))
      rw [Past.step]
      split_ifs with hsettled
      · exact step_change hs hsettled
      · exact hrefl

theorem Step.kept {s s' : Past} (hs : Kept s) (h : Step s s') : Kept s' := by
  obtain ⟨rest, haudit, hmoves, -⟩ := h.log
  refine ⟨h.numbered, h.rows, ?_⟩
  intro event hevent haction
  rw [haudit] at hevent
  rcases List.mem_append.mp hevent with hold | hnew
  · exact h.used _ (hs.moves event hold haction)
  · exact h.used _ (hmoves event hnew haction)

theorem kept_run (events : List HistoryEvent) : Kept (historyMachine.run events) := by
  apply historyMachine.run_invariant (I := Kept) ?_ fun s event hs => (step_spec hs event).kept hs
  exact ⟨rfl, fun row hrow => absurd hrow List.not_mem_nil,
    fun event hevent => absurd hevent List.not_mem_nil⟩

end Sbarbase.Control.Proofs.AuditHistory
