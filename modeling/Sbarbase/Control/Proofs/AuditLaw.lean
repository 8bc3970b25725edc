import Sbarbase.Control.Proofs.AuditHistory
import Mathlib.Data.List.Infix
/-!
# What an organization sees

The filter on the latest arrival keeps exactly the events since which the project
was nowhere else. The rows are cut before they are filtered, so the answer is
complete as long as enough of the newest rows are visible.
-/

namespace Sbarbase.Control.Proofs.AuditLaw

open Lib Lib.Call Control Control.AuditLog Control.Proofs.AuditHistory

/-! ## Arrivals -/

/-- In every state since the event, the project was in no other organization. -/
def Belonged (events : List HistoryEvent) (organization project : String) (event : AuditEvent) :
    Prop :=
  ∀ before, before <+: events → event ∈ (historyMachine.run before).catalog.audit →
    ∀ row ∈ (historyMachine.run before).catalog.projects.rows,
      row.id = project → row.organization = organization

theorem audit_mono {before events : List HistoryEvent} (h : before <+: events) {event : AuditEvent}
    (hevent : event ∈ (historyMachine.run before).catalog.audit) :
    event ∈ (historyMachine.run events).catalog.audit := by
  obtain ⟨after, rfl⟩ := h
  induction after using List.reverseRecOn with
  | nil => rwa [List.append_nil]
  | append_singleton after last ih =>
      rw [← List.append_assoc, historyMachine.run_snoc]
      obtain ⟨rest, haudit, -⟩ := (step_spec (kept_run (before ++ after)) last).log
      rw [haudit]
      exact List.mem_append_left _ ih

theorem used_mono {before events : List HistoryEvent} (h : before <+: events) {id : String}
    (hid : id ∈ (historyMachine.run before).used) : id ∈ (historyMachine.run events).used := by
  obtain ⟨after, rfl⟩ := h
  induction after using List.reverseRecOn with
  | nil => rwa [List.append_nil]
  | append_singleton after last ih =>
      rw [← List.append_assoc, historyMachine.run_snoc]
      exact (step_spec (kept_run (before ++ after)) last).used id ih

section

variable {c c' : Catalog} {organization project : String} {rest : List AuditEvent}

/-- Without a new arrival the latest one stays. -/
theorem since_quiet (haudit : c'.audit = c.audit ++ rest)
    (hrest : ∀ event ∈ rest, arrives organization project event = false) :
    since c' organization project = since c organization project := by
  have hnone : rest.reverse.find? (arrives organization project) = none := by
    rw [List.find?_eq_none]
    intro event hevent
    rw [hrest event (List.mem_reverse.mp hevent)]
    exact Bool.false_ne_true
  rw [since, since, haudit, List.reverse_append, List.find?_append, hnone, Option.none_or]

theorem since_first {first : AuditEvent} (haudit : c'.audit = c.audit ++ first :: rest)
    (hfirst : arrives organization project first = true)
    (hrest : ∀ event ∈ rest, arrives organization project event = false) :
    since c' organization project = first.sequence := by
  have hnone : rest.reverse.find? (arrives organization project) = none := by
    rw [List.find?_eq_none]
    intro event hevent
    rw [hrest event (List.mem_reverse.mp hevent)]
    exact Bool.false_ne_true
  rw [since, haudit, List.reverse_append, List.reverse_cons, List.append_assoc, List.find?_append,
    hnone, Option.none_or, List.singleton_append, List.find?_cons, hfirst]
  rfl

theorem since_eq_zero (h : ∀ event ∈ c.audit, arrives organization project event = false) :
    since c organization project = 0 := by
  have hnone : c.audit.reverse.find? (arrives organization project) = none := by
    rw [List.find?_eq_none]
    intro event hevent
    rw [h event (List.mem_reverse.mp hevent)]
    exact Bool.false_ne_true
  rw [since, hnone]
  rfl

/-- A later event is later than the latest arrival. -/
theorem since_le_new (hnumbered : Numbered (c.audit ++ rest)) {event : AuditEvent}
    (hevent : event ∈ rest) : since c organization project ≤ event.sequence := by
  rw [since]
  cases hfind : c.audit.reverse.find? (arrives organization project) with
  | none => exact Nat.zero_le _
  | some arrival =>
      have hmem := List.mem_reverse.mp (List.mem_of_find?_eq_some hfind)
      exact (sequence_lt hnumbered hmem hevent).le

end

/-- An event of the last step was in no state before. -/
theorem belonged_new {events : List HistoryEvent} {last : HistoryEvent} {rest : List AuditEvent}
    (haudit : (historyMachine.run (events ++ [last])).catalog.audit =
      (historyMachine.run events).catalog.audit ++ rest)
    (hnumbered : Numbered (historyMachine.run (events ++ [last])).catalog.audit)
    {row : Project}
    (hrow : row ∈ (historyMachine.run (events ++ [last])).catalog.projects.rows)
    {event : AuditEvent} (hevent : event ∈ rest) :
    Belonged (events ++ [last]) row.organization row.id event := by
  intro before hbefore hmem other hother hid
  rcases List.prefix_concat_iff.mp hbefore with rfl | hprefix
  · rw [Table.eq_of_key _ hother hrow hid]
  · rw [haudit] at hnumbered
    exact absurd (sequence_lt hnumbered (audit_mono hprefix hmem) hevent) (lt_irrefl _)

/-- An older event is seen in the state before the last step. -/
theorem belonged_old {events : List HistoryEvent} {last : HistoryEvent} {row : Project}
    (hrow : row ∈ (historyMachine.run (events ++ [last])).catalog.projects.rows)
    {event : AuditEvent} :
    Belonged (events ++ [last]) row.organization row.id event ↔
      Belonged events row.organization row.id event := by
  constructor
  · exact fun h before hbefore => h before (hbefore.trans (List.prefix_append _ _))
  · intro h before hbefore hmem other hother hid
    rcases List.prefix_concat_iff.mp hbefore with rfl | hprefix
    · rw [Table.eq_of_key _ hother hrow hid]
    · exact h before hprefix hmem other hother hid

/-- The filter of the code is what the history says. -/
theorem since_le_iff (events : List HistoryEvent) :
    ∀ row ∈ (historyMachine.run events).catalog.projects.rows,
      ∀ event ∈ (historyMachine.run events).catalog.audit,
        since (historyMachine.run events).catalog row.organization row.id ≤ event.sequence ↔
          Belonged events row.organization row.id event := by
  induction events using List.reverseRecOn with
  | nil => exact fun row hrow => absurd hrow List.not_mem_nil
  | append_singleton events last ih =>
      intro row hrow event hevent
      have hkept := kept_run events
      have hspec := step_spec hkept last
      rw [← historyMachine.run_snoc] at hspec
      obtain ⟨rest, haudit, -, hrows⟩ := hspec.log
      have hnumbered := hspec.numbered
      have hnew : ∀ new ∈ rest, Belonged (events ++ [last]) row.organization row.id new :=
        fun new => belonged_new haudit hnumbered hrow
      rw [haudit] at hevent
      rcases hrows row hrow with ⟨hplace, hquiet⟩ | ⟨old, hold, hid, hne, first, later, rfl,
        hfirst, hlater⟩
      · rw [since_quiet haudit hquiet]
        rcases List.mem_append.mp hevent with hbefore | hafter
        · rw [belonged_old hrow]
          rcases hplace with hunused | ⟨old, hold, hid, horganization⟩
          · -- A new project has no arrivals and was nowhere before.
            rw [since_eq_zero]
            · refine iff_of_true (Nat.zero_le _) ?_
              intro before hprefix _ other hother hsame
              refine absurd (used_mono hprefix ((kept_run before).rows other hother)) ?_
              rwa [hsame]
            · intro arrival harrival
              by_contra h
              rw [Bool.not_eq_false, arrives, Bool.and_eq_true, Bool.and_eq_true,
                decide_eq_true_eq, decide_eq_true_eq] at h
              apply hunused
              rw [← h.1.2]
              exact hkept.moves arrival harrival h.1.1
          · rw [← horganization, ← hid]
            exact ih old hold event hbefore
        · refine iff_of_true ?_ (hnew event hafter)
          rw [haudit] at hnumbered
          exact since_le_new hnumbered hafter
      · rw [since_first haudit hfirst hlater]
        rw [haudit] at hnumbered
        rcases List.mem_append.mp hevent with hbefore | hafter
        · -- The project was elsewhere just before it arrived.
          have hlt := sequence_lt hnumbered hbefore List.mem_cons_self
          refine iff_of_false (by omega) ?_
          intro hbelonged
          exact hne (hbelonged events (List.prefix_append _ _) hbefore old hold hid)
        · refine iff_of_true ?_ (hnew event hafter)
          rcases List.mem_cons.mp hafter with rfl | hmem
          · exact le_refl _
          · rw [List.append_cons] at hnumbered
            exact (sequence_lt hnumbered (List.mem_append_right _ List.mem_cons_self) hmem).le

/-! ## The loop -/

section

variable (c : Catalog) (organization : String)

/-- The loop shows the event. -/
def passes (event : AuditEvent) : Bool :=
  (subjectOf c organization event.subject).any fun subject => !hidden c organization event subject

/-- What is shown of an event that passes. -/
def entry (event : AuditEvent) : AuditEntry :=
  shown c organization event
    ((subjectOf c organization event.subject).getD ⟨.organization, "", none⟩)

/-- The loop stops at the limit, with what passed so far. -/
theorem collect_eq (limit : ℤ) (rows : List AuditEvent) (out : List AuditEntry)
    (hout : (out.length : ℤ) < limit) :
    collect c organization limit rows out =
      out ++ ((rows.filter (passes c organization)).take (limit.toNat - out.length)).map
        (entry c organization) := by
  induction rows generalizing out with
  | nil => simp [collect]
  | cons event rows ih =>
      rw [collect]
      cases hsubject : subjectOf c organization event.subject with
      | none =>
          have hskip : passes c organization event = false := by simp [passes, hsubject]
          rw [List.filter_cons_of_neg (by simp [hskip])]
          exact ih out hout
      | some subject =>
          cases hhidden : hidden c organization event subject with
          | true =>
              have hskip : passes c organization event = false := by
                simp [passes, hsubject, hhidden]
              rw [List.filter_cons_of_neg (by simp [hskip])]
              simp only [hhidden, if_true]
              exact ih out hout
          | false =>
              have htake : passes c organization event = true := by
                simp [passes, hsubject, hhidden]
              have hentry : entry c organization event = shown c organization event subject := by
                simp [entry, hsubject]
              obtain ⟨room, hroom⟩ : ∃ room, limit.toNat - out.length = room + 1 :=
                ⟨limit.toNat - out.length - 1, by omega⟩
              rw [List.filter_cons_of_pos htake, hroom, List.take_succ_cons, List.map_cons, hentry]
              have hlength : (out ++ [shown c organization event subject]).length =
                  out.length + 1 := by
                rw [List.length_append, List.length_singleton]
              simp only [hhidden, Bool.false_eq_true, if_false, hlength]
              split_ifs with hfull
              · have hzero : room = 0 := by omega
                rw [hzero]
                simp
              · have hrest : limit.toNat - (out.length + 1) = room := by omega
                rw [ih _ (by rw [hlength]; omega), hlength, hrest, List.append_assoc,
                  List.singleton_append]

end

/-! ## The law -/

/-- The subject of the event belongs to the organization now, and its project was
nowhere else since. -/
def Visible (events : List HistoryEvent) (organization : String) (event : AuditEvent) : Prop :=
  ∃ subject, subjectOf (historyMachine.run events).catalog organization event.subject =
    some subject ∧ ∀ project, subject.project = some project →
      Belonged events organization project event

noncomputable instance (events : List HistoryEvent) (organization : String) (event : AuditEvent) :
    Decidable (Visible events organization event) := Classical.propDecidable _

/-- The visible events, newest first. -/
noncomputable def visibleEvents (events : List HistoryEvent) (organization : String) :
    List AuditEvent :=
  (historyMachine.run events).catalog.audit.reverse.filter fun event =>
    decide (Visible events organization event)

/-- The newest events about the organization, as many as the statement reads. -/
def scanned (c : Catalog) (organization : String) : List AuditEvent :=
  (rows c organization).take scanLimit

/-- Enough of the scanned events are visible, or no visible event is older. -/
def Enough (events : List HistoryEvent) (organization : String) (limit : ℤ) : Prop :=
  let newest := scanned (historyMachine.run events).catalog organization
  limit ≤ newest.countP (fun event => decide (Visible events organization event)) ∨
    ∀ event ∈ visibleEvents events organization, event ∈ newest

/-- A project that a subject names is one of the organization's. -/
theorem subject_project {c : Catalog} {organization name project : String} {subject : AuditSubject}
    (h : subjectOf c organization name = some subject) (hproject : subject.project = some project) :
    ∃ row ∈ c.projects.rows, row.id = project ∧ row.organization = organization := by
  obtain ⟨before, after, hsubjects, -⟩ := List.lookup_eq_some_iff.mp h
  have hmem : (name, subject) ∈ subjects c organization := by
    rw [← List.mem_reverse, hsubjects]
    exact List.mem_append_right _ List.mem_cons_self
  have hfound : ∀ row ∈ projects c organization,
      row ∈ c.projects.rows ∧ row.organization = organization := by
    intro row hrow
    obtain ⟨hrow, horganization⟩ := List.mem_filter.mp hrow
    exact ⟨hrow, of_decide_eq_true horganization⟩
  rw [subjects, List.mem_append, List.mem_cons, List.mem_map] at hmem
  rcases hmem with (heq | ⟨row, hrow, heq⟩) | henvironment
  · obtain ⟨-, rfl⟩ := Prod.mk.inj heq
    cases hproject
  · obtain ⟨-, rfl⟩ := Prod.mk.inj heq
    obtain ⟨hrow, horganization⟩ := hfound row hrow
    exact ⟨row, hrow, Option.some.inj hproject, horganization⟩
  · obtain ⟨_, hlist, hentry⟩ := List.mem_flatten.mp henvironment
    obtain ⟨⟨row, environment⟩, hplace, rfl⟩ := List.mem_map.mp hlist
    obtain ⟨_, -, hplace⟩ := List.mem_filterMap.mp hplace
    obtain ⟨found, hfind, heq⟩ := Option.map_eq_some_iff.mp hplace
    obtain ⟨rfl, rfl⟩ := Prod.mk.inj heq
    obtain ⟨hrow, horganization⟩ := hfound found (List.mem_of_find?_eq_some hfind)
    refine ⟨found, hrow, ?_, horganization⟩
    have hsubject : subject.project = some found.id := by
      simp only [environmentSubjects, List.mem_cons] at hentry
      rcases hentry with heq | hruntime
      · rw [(Prod.mk.inj heq).2]
      · obtain ⟨job, -, heq⟩ := Option.map_eq_some_iff.mp (Option.mem_toList.mp hruntime)
        rw [← (Prod.mk.inj heq).2]
    exact Option.some.inj (hsubject.symm.trans hproject)

theorem passes_iff (events : List HistoryEvent) (organization : String) {event : AuditEvent}
    (hevent : event ∈ (historyMachine.run events).catalog.audit) :
    passes (historyMachine.run events).catalog organization event = true ↔
      Visible events organization event := by
  set c := (historyMachine.run events).catalog with hc
  rw [passes, Visible, ← hc]
  cases hsubject : subjectOf c organization event.subject with
  | none => simp
  | some subject =>
      simp only [Option.any_some, Bool.not_eq_true', Option.some.injEq, exists_eq_left']
      rw [AuditLog.hidden]
      cases hproject : subject.project with
      | none => simp
      | some project =>
          obtain ⟨row, hrow, rfl, rfl⟩ := subject_project hsubject hproject
          have hsince := since_le_iff events row hrow event hevent
          simp only [Option.any_some, decide_eq_false_iff_not, not_lt, Option.some.injEq,
            forall_eq']
          exact hsince

theorem nodup_audit (events : List HistoryEvent) :
    (historyMachine.run events).catalog.audit.Nodup := by
  have hnumbered := (kept_run events).numbered
  have hsequences : ((historyMachine.run events).catalog.audit.map AuditEvent.sequence).Nodup := by
    rw [hnumbered]
    exact List.nodup_range'
  exact hsequences.of_map _

/-- The visible events are those of the rows that pass the loop. -/
theorem visibleEvents_eq (events : List HistoryEvent) (organization : String) :
    visibleEvents events organization =
      (rows (historyMachine.run events).catalog organization).filter
        (passes (historyMachine.run events).catalog organization) := by
  rw [visibleEvents, rows, List.filter_filter]
  apply List.filter_congr
  intro event hevent
  have hpasses := passes_iff events organization (List.mem_reverse.mp hevent)
  rw [Bool.eq_iff_iff, decide_eq_true_eq, ← hpasses, Bool.and_eq_true]
  constructor
  · intro h
    refine ⟨h, ?_⟩
    obtain ⟨subject, hsubject, -⟩ := hpasses.mp h
    rw [hsubject]
    rfl
  · exact fun h => h.1

/-- Cutting first and filtering after leaves enough, or nothing else. -/
theorem take_filter_iff {α β : Type} {l : List α} (hl : l.Nodup) (p : α → Bool) (f : α → β)
    (m n : ℕ) :
    (((l.take m).filter p).take n).map f = ((l.filter p).take n).map f ↔
      n ≤ ((l.take m).filter p).length ∨ ∀ a ∈ l.filter p, a ∈ l.take m := by
  have hsplit : l.filter p = (l.take m).filter p ++ (l.drop m).filter p := by
    rw [← List.filter_append, List.take_append_drop]
  constructor
  · intro h
    have hlengths := congrArg List.length h
    rw [List.length_map, List.length_map, hsplit, List.length_take, List.length_take,
      List.length_append] at hlengths
    by_cases hfull : n ≤ ((l.take m).filter p).length
    · exact .inl hfull
    · right
      have hnil : ((l.drop m).filter p).length = 0 := by omega
      rw [hsplit, List.length_eq_zero_iff.mp hnil, List.append_nil]
      exact fun a ha => List.mem_of_mem_filter ha
  · rintro (hfull | hmem)
    · rw [hsplit, List.take_append_of_le_length hfull]
    · have hnil : (l.drop m).filter p = [] := by
        rw [List.filter_eq_nil_iff]
        intro a ha hp
        have htaken := hmem a (List.mem_filter.mpr ⟨List.mem_of_mem_drop ha, hp⟩)
        exact List.disjoint_take_drop hl (le_refl m) htaken ha
      rw [hsplit, hnil, List.append_nil]

/-- The answer never shows more than the newest visible events, and it shows all of
them up to the limit exactly when enough of the scanned ones are visible. -/
theorem auditEvents_law (events : List HistoryEvent) (ctx : Context) (actor organization : String)
    (limit : ℤ) :
    (auditEvents ctx actor organization limit).Ensures (historyMachine.run events).catalog
      fun out c' => c' = (historyMachine.run events).catalog ∧
        (∃ kept, kept <+: (visibleEvents events organization).take limit.toNat ∧
          out = kept.map (entry c' organization)) ∧
        (out = ((visibleEvents events organization).take limit.toNat).map
          (entry c' organization) ↔ Enough events organization limit) := by
  set c := (historyMachine.run events).catalog with hc
  unfold auditEvents
  apply ensures_check
  intro _ _
  rw [ensures_bind, ensures_require]
  rintro ⟨-, hpositive, -⟩
  rw [ensures_bind, ensures_read, ensures_pure]
  have hout := collect_eq c organization limit (scanned c organization) [] (by simp; omega)
  simp only [List.nil_append, List.length_nil, Nat.sub_zero] at hout
  have hvisible := visibleEvents_eq events organization
  rw [← hc] at hvisible
  have hnodup : (rows c organization).Nodup :=
    (List.nodup_reverse.mpr (nodup_audit events)).filter _
  have hiff := take_filter_iff hnodup (passes c organization) (entry c organization) scanLimit
    limit.toNat
  rw [← hvisible] at hiff
  have hcount : (scanned c organization).countP
      (fun event => decide (Visible events organization event)) =
        ((scanned c organization).filter (passes c organization)).length := by
    rw [List.countP_eq_length_filter]
    congr 1
    apply List.filter_congr
    intro event hevent
    have haudit : event ∈ c.audit :=
      List.mem_reverse.mp (List.mem_of_mem_filter (List.mem_of_mem_take hevent))
    rw [Bool.eq_iff_iff, decide_eq_true_eq]
    exact (passes_iff events organization haudit).symm
  refine ⟨rfl, ⟨_, ?_, hout⟩, ?_⟩
  · rw [hvisible]
    exact List.IsPrefix.take ((List.take_prefix _ _).filter _) _
  · have hcollected : collect (id c) organization limit
        ((rows (id c) organization).take scanLimit) [] = _ := hout
    rw [hcollected]
    refine hiff.trans ?_
    rw [Enough, ← hc]
    refine or_congr ?_ Iff.rfl
    rw [hcount, scanned]
    omega

/-! ### A busy project arrives -/

def auditContext : Context where
  now := 0
  current := fun _ => true
  event := "n"
  channels := []
  authorizationStore := false
  authority := none
  lifecycleAdmission := none
  parseUrl := fun _ => none
  toLowerCase := id
  digest := id
  placementDigest := fun _ => ""

/-- Two organizations with one owner, and a project in the first. -/
def twoOrganizations (log : List AuditEvent) : Catalog :=
  { Catalog.empty with
    organizations := ⟨[⟨"a", "a"⟩, ⟨"b", "b"⟩], by decide⟩
    memberships := ⟨[⟨"a", "alice", .owner⟩, ⟨"b", "alice", .owner⟩], by decide⟩
    projects := ⟨[⟨"p", "a", "shop"⟩], by decide⟩
    audit := log }

def arrival (sequence : ℕ) : AuditEvent :=
  ⟨sequence, "alice", movedAction, "p", [("from", .text "a"), ("to", .text "b")], 0⟩

/-- The project moves to the second organization. -/
theorem project_moves (log : List AuditEvent) : ∃ result c',
    (transferProject auditContext "alice" "p" "b" fun _ => .ok ()).Returns (twoOrganizations log)
      result c' ∧ c'.projects.rows = [⟨"p", "b", "shop"⟩] ∧
        c'.audit = log ++ [arrival (log.length + 1)] ∧ c'.environments.rows = [] ∧
        c'.memberships = (twoOrganizations log).memberships := by
  unfold transferProject
  refine ⟨([], []), ?_⟩
  simp only [returns_transaction]
  refine ⟨?_, ?_, ?_, ?_, ?_, ?_⟩
  rotate_left
  · refine returns_bind.mpr ⟨⟨"p", "a", "shop"⟩, twoOrganizations log, rfl, ?_⟩
    refine returns_bind.mpr ⟨.owner, twoOrganizations log, rfl, ?_⟩
    refine returns_bind.mpr ⟨twoOrganizations log, twoOrganizations log, rfl, ?_⟩
    refine returns_bind.mpr ⟨(), twoOrganizations log, rfl, ?_⟩
    rw [if_neg (by decide)]
    refine returns_bind.mpr ⟨(), twoOrganizations log, rfl, ?_⟩
    refine returns_bind.mpr ⟨(), twoOrganizations log, rfl, ?_⟩
    refine returns_bind.mpr ⟨(), _, rfl, ?_⟩
    refine returns_bind.mpr ⟨(), _, rfl, ?_⟩
    refine returns_bind.mpr ⟨(), _, rfl, ?_⟩
    refine returns_bind.mpr ⟨(), _, rfl, ?_⟩
    refine returns_bind.mpr ⟨"n", _, rfl, ?_⟩
    rw [show (twoOrganizations log).jobs.rows = [] from rfl]
    simp only [List.filter_nil, List.map_nil, List.mergeSort_nil]
    rfl
  all_goals rfl

def recorded (subject : String) : HistoryEvent :=
  .record auditContext "alice" "project.renamed" subject []

/-- Records add as many events about their subject, and nothing else. -/
theorem run_recorded (subject : String) (n : ℕ) (s : Past) : ∃ new : List AuditEvent,
    historyMachine.runFrom s (List.replicate n (recorded subject)) =
        { s with catalog := { s.catalog with audit := s.catalog.audit ++ new } } ∧
      new.length = n ∧ ∀ event ∈ new, event.subject = subject := by
  induction n generalizing s with
  | zero => exact ⟨[], by simp, rfl, by simp⟩
  | succ n ih =>
      rw [List.replicate_succ, Machine.runFrom_cons]
      obtain ⟨new, hrun, hlength, hsubject⟩ := ih (historyMachine.step s (recorded subject))
      refine ⟨⟨s.catalog.audit.length + 1, "alice", "project.renamed", subject, [], 0⟩ :: new,
        ?_, ?_, ?_⟩
      · rw [hrun, List.append_cons]
        rfl
      · rw [List.length_cons, hlength]
      · intro event hevent
        rcases List.mem_cons.mp hevent with rfl | hold
        · rfl
        · exact hsubject event hold

theorem step_returns {s : Past} {ctx : Context} {actor project destination : String}
    {revokeRuntime : String → Except String Unit} {result : List String × List String}
    {c' : Catalog}
    (h : (transferProject ctx actor project destination revokeRuntime).Returns s.catalog result c') :
    (historyMachine.step s (.transfer ctx actor project destination revokeRuntime)).catalog = c' :=
  h.after_eq

/-- The second organization has an event, then the project of the first is busy and
arrives. -/
def busyArrival : List HistoryEvent :=
  [.change (twoOrganizations []), recorded "b"] ++ List.replicate scanLimit (recorded "p") ++
    [.transfer auditContext "alice" "p" "b" fun _ => .ok ()]

def olderEvent : AuditEvent := ⟨1, "alice", "project.renamed", "b", [], 0⟩

theorem busyArrival_state : ∃ new : List AuditEvent, new.length = scanLimit ∧
    (∀ event ∈ new, event.subject = "p") ∧
    let c := (historyMachine.run busyArrival).catalog
    c.audit = (olderEvent :: new) ++ [arrival (scanLimit + 2)] ∧
      c.projects.rows = [⟨"p", "b", "shop"⟩] ∧ c.environments.rows = [] ∧
      c.memberships = (twoOrganizations []).memberships := by
  obtain ⟨new, hrun, hlength, hsubject⟩ := run_recorded "p" scanLimit
    (historyMachine.run [.change (twoOrganizations []), recorded "b"])
  refine ⟨new, hlength, hsubject, ?_⟩
  have hbefore : (historyMachine.run ([.change (twoOrganizations []), recorded "b"] ++
      List.replicate scanLimit (recorded "p"))).catalog = twoOrganizations (olderEvent :: new) := by
    rw [historyMachine.run_append, hrun]
    rfl
  obtain ⟨result, c', hr, hprojects, haudit, henvironments, hmemberships⟩ :=
    project_moves (olderEvent :: new)
  have hafter : (historyMachine.run busyArrival).catalog = c' := by
    rw [busyArrival, historyMachine.run_snoc]
    exact step_returns (by rw [hbefore]; exact hr)
  rw [hafter]
  refine ⟨?_, hprojects, henvironments, hmemberships⟩
  rw [haudit, List.length_cons, hlength]

section

variable {c : Catalog} {new : List AuditEvent}
  (haudit : c.audit = (olderEvent :: new) ++ [arrival (scanLimit + 2)])
  (hprojects : c.projects.rows = [⟨"p", "b", "shop"⟩]) (henvironments : c.environments.rows = [])

include hprojects henvironments in
theorem busy_subjects : subjects c "b" =
    [("b", ⟨.organization, "", none⟩), ("p", ⟨.project, "shop", some "p"⟩)] := by
  simp [subjects, projects, environments, hprojects, henvironments]

include haudit in
theorem busy_since : since c "b" "p" = scanLimit + 2 := by
  rw [since_first (c := { c with audit := olderEvent :: new }) haudit rfl (by simp)]
  rfl

include haudit hprojects henvironments in
theorem busy_hidden (hnumbered : Numbered c.audit) {event : AuditEvent} (hevent : event ∈ new)
    (hsubject : event.subject = "p") : passes c "b" event = false := by
  have hlt : event.sequence < scanLimit + 2 := by
    rw [haudit] at hnumbered
    exact sequence_lt hnumbered (List.mem_cons_of_mem _ hevent) (List.mem_singleton_self _)
  have hname : subjectOf c "b" "p" = some ⟨.project, "shop", some "p"⟩ := by
    rw [subjectOf, busy_subjects hprojects henvironments]
    rfl
  rw [passes, hsubject, hname]
  simpa [AuditLog.hidden, busy_since haudit] using hlt

include hprojects henvironments in
theorem busy_older : passes c "b" olderEvent = true := by
  have hname : subjectOf c "b" "b" = some ⟨.organization, "", none⟩ := by
    rw [subjectOf, busy_subjects hprojects henvironments]
    rfl
  rw [passes, show olderEvent.subject = "b" from rfl, hname]
  rfl

include haudit hprojects henvironments in
theorem busy_rows (hsubject : ∀ event ∈ new, event.subject = "p") :
    rows c "b" = (arrival (scanLimit + 2) :: new.reverse) ++ [olderEvent] := by
  have hsome : ∀ subject, subject = "b" ∨ subject = "p" →
      (subjectOf c "b" subject).isSome = true := by
    rintro subject (rfl | rfl) <;>
      rw [subjectOf, busy_subjects hprojects henvironments] <;> rfl
  have hall : rows c "b" = c.audit.reverse := by
    rw [rows, List.filter_eq_self]
    intro event hevent
    apply hsome
    rw [List.mem_reverse, haudit, List.mem_append, List.mem_cons, List.mem_singleton] at hevent
    rcases hevent with (rfl | hnew) | rfl
    · exact .inl rfl
    · exact .inr (hsubject event hnew)
    · exact .inr rfl
  rw [hall, haudit]
  simp

end

/-- The older event is visible, but the answer has one event for a limit of two. -/
theorem busyArrival_incomplete : ¬ ∀ events ctx actor organization limit,
    (auditEvents ctx actor organization limit).Ensures (historyMachine.run events).catalog
      fun out c' => out = ((visibleEvents events organization).take limit.toNat).map
        (entry c' organization) := by
  intro hall
  obtain ⟨new, hlength, hsubject, haudit, hprojects, henvironments, hmemberships⟩ :=
    busyArrival_state
  have hnumbered := (kept_run busyArrival).numbered
  have hvisible := visibleEvents_eq busyArrival "b"
  have hlaw := auditEvents_law busyArrival auditContext "alice" "b" 2
  have hclaim := hall busyArrival auditContext "alice" "b" 2
  have hpasses := fun event => @passes_iff busyArrival "b" event
  set c := (historyMachine.run busyArrival).catalog with hc
  obtain ⟨out, hreturns⟩ : ∃ out, (auditEvents auditContext "alice" "b" 2).Returns c out c := by
    have hrole : c.roleOf "b" "alice" = some .owner := by
      rw [Catalog.roleOf, hmemberships]
      rfl
    unfold auditEvents Access.requireRole
    refine ⟨_, returns_bind.mpr ⟨.owner, c, ?_, rfl⟩⟩
    refine returns_bind.mpr ⟨(), c, rfl, returns_bind.mpr ⟨c, c, rfl, ?_⟩⟩
    exact returns_bind.mpr ⟨.owner, c, returns_found.mpr ⟨hrole, rfl⟩, rfl⟩
  have hrows := busy_rows haudit hprojects henvironments hsubject
  have hscanned : scanned c "b" = (arrival (scanLimit + 2) :: new.reverse).take scanLimit := by
    rw [scanned, hrows, List.take_append_of_le_length]
    rw [List.length_cons, List.length_reverse, hlength]
    exact Nat.le_succ _
  rcases (hlaw out c hreturns).2.2.mp (hclaim out c hreturns) with hcount | hmem
  · have hle : (scanned c "b").countP (fun event => decide (Visible busyArrival "b" event)) ≤ 1 := by
      rw [hscanned]
      refine ((List.take_sublist _ _).countP_le).trans ?_
      rw [List.countP_cons, List.countP_eq_zero.mpr]
      · split_ifs <;> simp
      · intro event hevent
        have hnew : event ∈ new := List.mem_reverse.mp hevent
        have hin : event ∈ c.audit := by
          rw [haudit]
          exact List.mem_append_left _ (List.mem_cons_of_mem _ hnew)
        rw [decide_eq_true_eq, ← hpasses event hin,
          busy_hidden haudit hprojects henvironments hnumbered hnew (hsubject event hnew)]
        exact Bool.false_ne_true
    have htwo : (2 : ℤ) ≤
        (scanned c "b").countP fun event => decide (Visible busyArrival "b" event) := hcount
    omega
  · have holder : olderEvent ∈ scanned c "b" := by
      apply hmem
      rw [hvisible, List.mem_filter, hrows]
      exact ⟨List.mem_append_right _ (List.mem_singleton_self _),
        busy_older hprojects henvironments⟩
    rw [hscanned] at holder
    rcases List.mem_cons.mp (List.mem_of_mem_take holder) with heq | hnew
    · have hsequence : (1 : ℕ) = scanLimit + 2 := congrArg AuditEvent.sequence heq
      rw [scanLimit] at hsequence
      omega
    · have hname := hsubject olderEvent (List.mem_reverse.mp hnew)
      exact absurd hname (by decide)

end Sbarbase.Control.Proofs.AuditLaw
