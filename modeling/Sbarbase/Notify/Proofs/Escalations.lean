import Sbarbase.Notify.Proofs.Effects
/-!
# Escalations

In every run two escalations of one channel are a window apart. Their number is
bounded in the runs that echo finitely many of them. Two channels of which one
fails at once and the other runs through its eight attempts echo each other for
ever: the waits between the attempts add up to more than the window.
-/

namespace Sbarbase.Notify.Proofs.Escalations

open Lib Lib.Call Control Shifts Deliveries Effects

variable {uuid : ℕ → String}

/-! ## The law -/

/-- The first events of a pattern. -/
def upTo (pattern : ℕ → DrainEvent) (n : ℕ) : List DrainEvent := (List.range n).map pattern

/-- The producers are quiet, and every channel delivers, fails at once or fails
for now. -/
def Channels : DrainEvent → Prop
  | .notify _ _ _ | .emit _ | .item _ _ .refused _ => False
  | _ => True

/-- The echoes of a run. -/
def echoes (uuid : ℕ → String) (s : Drain) (events : List DrainEvent) : ℕ :=
  (drainMachine uuid).total (fun s e => if isEcho s e then 1 else 0) s events

/-- Two escalations of one channel are a window apart. -/
def WindowsApart (s : Drain) : Prop :=
  s.created.Pairwise fun a b => isEscalation a = true → isEscalation b = true →
    a.dedupeKey = b.dedupeKey → a.time + escalationWindowSeconds * 1000 ≤ b.time

/-- Only finitely many escalations are ever written. -/
def OnlyFinitely (uuid : ℕ → String) (before : List DrainEvent) (pattern : ℕ → DrainEvent) :
    Prop :=
  ∃ bound, ∀ n, escalations ((drainMachine uuid).run (before ++ upTo pattern n)) ≤ bound

theorem operator_of_channels {e : DrainEvent} (h : Channels e) : Operator e := by
  cases e with
  | emit => exact absurd h id
  | _ => trivial

theorem allowance_of_channels {e : DrainEvent} (h : Channels e) : allowance e = 0 := by
  cases e with
  | notify | emit => exact absurd h id
  | item produced channels answer millis =>
      cases answer with
      | refused => exact absurd h id
      | _ => rfl
  | _ => rfl

theorem windowsApart_of_steady {s : Drain} (hs : Steady s) : WindowsApart s := by
  unfold WindowsApart
  refine List.Pairwise.imp_of_mem ?_ hs.ordered
  intro a b ha _ hordered hkind _ hkey
  have hwindow := (hs.windows a ha).2 (of_decide_eq_true hkind)
  have hle := hordered hkey
  omega

/-- Two escalations of one channel are a window apart in every run. If finitely
many deliveries of escalations fail for good out of the window of their channel,
only finitely many escalations are written. -/
theorem escalations_law (huuid : Function.Injective uuid) (before : List DrainEvent)
    (hbefore : ∀ e ∈ before, Operator e) (pattern : ℕ → DrainEvent)
    (hpattern : ∀ n, Channels (pattern n)) :
    (∀ n, WindowsApart ((drainMachine uuid).run (before ++ upTo pattern n))) ∧
      ((∃ bound, ∀ n, echoes uuid ((drainMachine uuid).run before) (upTo pattern n) ≤ bound) →
        OnlyFinitely uuid before pattern) := by
  have hchannels : ∀ n, ∀ e ∈ upTo pattern n, Channels e := by
    intro n e he
    obtain ⟨i, -, rfl⟩ := List.mem_map.mp he
    exact hpattern i
  constructor
  · intro n
    apply windowsApart_of_steady
    apply steady_run huuid
    intro e he
    rcases List.mem_append.mp he with hmem | hmem
    · exact hbefore e hmem
    · exact operator_of_channels (hchannels n e hmem)
  · rintro ⟨bound, hbound⟩
    refine ⟨escalations ((drainMachine uuid).run before) +
      originals ((drainMachine uuid).run before).store + bound, fun n => ?_⟩
    have hle := escalations_le_total huuid (steady_run huuid before hbefore).owned
      (upTo pattern n) fun e he => operator_of_channels (hchannels n e he)
    have htotal : (drainMachine uuid).total credit ((drainMachine uuid).run before)
        (upTo pattern n) = echoes uuid ((drainMachine uuid).run before) (upTo pattern n) := by
      apply Machine.total_congr
      intro s e he
      unfold credit
      rw [allowance_of_channels (hchannels n e he), Nat.zero_add]
    rw [htotal] at hle
    rw [Machine.run_append]
    exact hle.trans (Nat.add_le_add_left (hbound n) _)

/-! ## One open delivery

What each step of the drain makes of tables with one open delivery, as the two
channels below leave them.
-/

/-- The only open delivery, and its event. -/
structure Alone (uuid : ℕ → String) (s : Notifications) (row : Delivery) : Prop where
  mem : row ∈ s.deliveries.rows
  opened : row.stage.isOpen = true
  only : ∀ other ∈ s.deliveries.rows, other.stage.isOpen = true → other = row
  owned : AllOwned s
  issued : ∀ event ∈ s.outbox.rows, Issued uuid s event.id

/-- The windows of the condition are closed after `time`. -/
def ClosedAfter (s : Notifications) (channel : NotificationChannel) (time : ℤ) : Prop :=
  ∀ event ∈ s.outbox.rows, event.dedupeKey = escalationKey channel → event.windowUntil ≤ time

theorem dueRows_alone {s : Notifications} {row : Delivery} (h : Alone uuid s row) {now leaseMs : ℤ}
    (hdue : row.due now leaseMs = true) :
    ∃ event, dueRows s now 20 leaseMs = [(row, event)] := by
  obtain ⟨event, hevent, hid⟩ := h.owned row h.mem
  have hget : s.outbox.get row.event = some event := Table.get_eq_some.mpr ⟨hevent, hid⟩
  obtain ⟨before, after, hrows⟩ := List.append_of_mem h.mem
  have hdistinct := s.deliveries.distinct
  have honly := h.only
  rw [hrows, List.map_append, List.map_cons, List.nodup_append] at hdistinct
  obtain ⟨-, hcons, hdisjoint⟩ := hdistinct
  rw [hrows] at honly
  have hnone : ∀ other ∈ before ++ row :: after, other.key ≠ row.key →
      (if other.due now leaseMs then (s.outbox.get other.event).map (other, ·) else none) =
        none := by
    intro other hother hne
    rw [if_neg]
    intro hotherDue
    exact hne (congrArg Delivery.key (honly other hother (open_of_due hotherDue)))
  have hbefore : before.filterMap (fun row =>
      if row.due now leaseMs then (s.outbox.get row.event).map (row, ·) else none) = [] := by
    rw [List.filterMap_eq_nil_iff]
    intro other hother
    apply hnone other (List.mem_append_left _ hother)
    exact hdisjoint _ (List.mem_map_of_mem hother) _ List.mem_cons_self
  have hafter : after.filterMap (fun row =>
      if row.due now leaseMs then (s.outbox.get row.event).map (row, ·) else none) = [] := by
    rw [List.filterMap_eq_nil_iff]
    intro other hother
    apply hnone other (List.mem_append_right _ (List.mem_cons_of_mem _ hother))
    intro heq
    apply (List.nodup_cons.mp hcons).1
    rw [← heq]
    exact List.mem_map_of_mem hother
  refine ⟨event, ?_⟩
  unfold dueRows limited
  rw [hrows, List.filterMap_append, List.filterMap_cons, hbefore, hafter, hdue, hget]
  rfl

/-- Only the row of one key is changed. -/
theorem alone_of_map {s s' : Notifications} {row row' : Delivery} (h : Alone uuid s row)
    (hkey : row'.key = row.key) (hopen : row'.stage.isOpen = true)
    (hrows : s'.deliveries.rows =
      s.deliveries.rows.map fun old => if old.key = row.key then row' else old)
    (houtbox : s'.outbox = s.outbox) (hdrawn : s.drawn ≤ s'.drawn) : Alone uuid s' row' where
  mem := by
    rw [hrows]
    exact List.mem_map.mpr ⟨row, h.mem, if_pos rfl⟩
  opened := hopen
  only := by
    intro other hother hotherOpen
    rw [hrows] at hother
    obtain ⟨old, hold, rfl⟩ := List.mem_map.mp hother
    split_ifs at hotherOpen ⊢ with heq
    · rfl
    · exact absurd (congrArg Delivery.key (h.only old hold hotherOpen)) heq
  owned := by
    intro other hother
    rw [hrows] at hother
    obtain ⟨old, hold, rfl⟩ := List.mem_map.mp hother
    unfold Owned
    rw [houtbox]
    split_ifs with heq
    · obtain ⟨event, hevent, hid⟩ := h.owned row h.mem
      exact ⟨event, hevent, hid.trans (congrArg Prod.fst hkey).symm⟩
    · exact h.owned old hold
  issued := by
    rw [houtbox]
    exact fun event hevent => issued_mono hdrawn (h.issued event hevent)

/-- A claim hands the delivery out. -/
theorem claim_alone {s : Notifications} {row : Delivery} (h : Alone uuid s row) {now : ℤ}
    (hdue : row.due now leaseMillis = true) :
    ∃ item s', (claim uuid now 20 leaseMillis).Returns s [item] s' ∧
      item.key = row.key ∧ s'.outbox = s.outbox ∧
      Alone uuid s' { row with stage := .claimed item.claim now, attempts := row.attempts + 1 } := by
  obtain ⟨event, hrows⟩ := dueRows_alone h hdue
  let item : Claimed := ⟨row.event, row.channel, uuid s.drawn, row.attempts + 1, event⟩
  let next : Notifications :=
    { s with
      drawn := s.drawn + 1
      deliveries := s.deliveries.modify (fun old => old.key = row.key && old.stage.isOpen)
        (fun old => { old with
          stage := .claimed item.claim now, attempts := old.attempts + 1 }) fun _ => rfl }
  have hcount : s.deliveries.rows.countP (fun old => old.key = row.key && old.stage.isOpen) = 1 := by
    apply Table.countP_eq_one _ h.mem
    · simp [h.opened]
    · intro old _ hp
      simp only [Bool.and_eq_true, decide_eq_true_eq] at hp
      exact hp.1
  refine ⟨item, next, ?_, rfl, rfl, ?_⟩
  · unfold claim
    rw [returns_bind]
    refine ⟨s, s, rfl, ?_⟩
    rw [if_pos (List.any_eq_true.mpr ⟨row, h.mem, hdue⟩)]
    unfold claimDue
    rw [returns_transaction, returns_bind]
    refine ⟨s, s, rfl, ?_⟩
    rw [hrows]
    unfold claimRows randomUUID update
    simp only [returns_bind, returns_read, returns_write, returns_pure, id]
    refine ⟨_, _, ⟨_, _, ⟨rfl, rfl⟩, (), _, rfl, rfl, rfl⟩, _, _,
      ⟨_, _, ⟨rfl, rfl⟩, (), _, rfl, rfl, rfl⟩, ?_⟩
    rw [if_pos hcount]
    simp only [returns_bind, returns_pure, claimRows]
    exact ⟨[], next, ⟨rfl, rfl⟩, rfl, rfl⟩
  · apply alone_of_map h
    · rfl
    · rfl
    · apply List.map_congr_left
      intro old hold
      by_cases hkey : old.key = row.key
      · obtain rfl := s.deliveries.eq_of_key hold h.mem hkey
        simp [h.opened, item]
      · simp [hkey]
    · rfl
    · exact Nat.le_succ _

/-- No delivery is open. -/
structure Calm (uuid : ℕ → String) (s : Notifications) : Prop where
  closed : ∀ row ∈ s.deliveries.rows, row.stage.isOpen = false
  owned : AllOwned s
  issued : ∀ event ∈ s.outbox.rows, Issued uuid s event.id

theorem alone_restamped {s s' : Notifications} {row : Delivery} (h : Alone uuid s row)
    (hs : Restamped s s') : Alone uuid s' row := by
  have howned := (hs.shift : Shift uuid _ _).owned h.owned
  obtain ⟨hrows, hdrawn, f, hf, houtbox⟩ := hs
  refine ⟨hrows ▸ h.mem, h.opened, hrows ▸ h.only, howned, ?_⟩
  intro event hevent
  rw [houtbox] at hevent
  obtain ⟨old, hold, rfl⟩ := List.mem_map.mp hevent
  have hid : (f old).id = old.id := congrArg Prod.fst (hf old)
  rw [hid]
  exact issued_mono hdrawn.ge (h.issued old hold)

theorem closedAfter_restamped {s s' : Notifications} {channel : NotificationChannel} {time : ℤ}
    (h : ClosedAfter s channel time) (hs : Restamped s s') : ClosedAfter s' channel time := by
  obtain ⟨-, -, f, hf, houtbox⟩ := hs
  intro event hevent hkey
  rw [houtbox] at hevent
  obtain ⟨old, hold, rfl⟩ := List.mem_map.mp hevent
  have hsame := hf old
  simp only [stamp, Prod.mk.injEq] at hsame
  have hle := h old hold (hsame.2.2.2.2.1.symm.trans hkey)
  omega

section

variable {s : Notifications} {row : Delivery} {claim error : String} {claimAt : ℤ} (now : ℤ)

/-- What a failed attempt makes of the row. -/
def failedRow (now : ℤ) (outcome : Outcome) (error : String) (row : Delivery) : Delivery :=
  { row with
    stage := if isPermanent outcome row.attempts then .failed else .pending
    lastError := some error
    nextAttemptAt := if isPermanent outcome row.attempts then now else now + backoffMs row.attempts }

theorem settle_alone (h : Alone uuid s row) (hstage : row.stage = .claimed claim claimAt)
    {outcome : Outcome} (houtcome : outcome ≠ .delivered) (herror : isErrorToken error = true) :
    ∃ s', (settle now row.event row.channel claim outcome (some error)).Returns s
        (if isPermanent outcome row.attempts then .failed else .pending) s' ∧
      s'.outbox = s.outbox ∧ s'.drawn = s.drawn ∧
      s'.deliveries.rows = s.deliveries.rows.map fun old =>
        if old.key = row.key then failedRow now outcome error row else old := by
  have hheld : row.heldBy row.event row.channel claim = true := by
    unfold Delivery.heldBy
    rw [hstage]
    simp
  have hcount : s.deliveries.rows.countP (Delivery.heldBy row.event row.channel claim) = 1 := by
    apply Table.countP_eq_one _ h.mem hheld
    intro old _ hp
    exact (key_of_heldBy hp).1
  have hget : s.deliveries.get (row.event, row.channel) = some row :=
    Table.get_eq_some.mpr ⟨h.mem, rfl⟩
  let settled : Delivery → Delivery := fun old => { old with
    stage := if isPermanent outcome row.attempts then .failed else .pending
    lastError := some error
    nextAttemptAt := if isPermanent outcome row.attempts then now else now + backoffMs row.attempts }
  refine ⟨{ s with
    deliveries := s.deliveries.modify (Delivery.heldBy row.event row.channel claim) settled
      fun _ => rfl }, ?_, rfl, rfl, ?_⟩
  · unfold settle settleClaim update
    simp only [returns_bind, returns_require, returns_transaction, Option.all_some]
    refine ⟨(), s, ⟨herror, rfl⟩, ?_⟩
    rw [if_neg houtcome]
    simp only [returns_bind, returns_read, returns_found, returns_write, returns_pure,
      returns_require, id]
    exact ⟨s, s, ⟨rfl, rfl⟩, row, s, ⟨hget, rfl⟩, _, _, ⟨_, _, ⟨rfl, rfl⟩, (), _, rfl, rfl, rfl⟩,
      (), _, ⟨hcount, rfl⟩, rfl, rfl⟩
  · apply List.map_congr_left
    intro old hold
    by_cases hkey : old.key = row.key
    · obtain rfl := s.deliveries.eq_of_key hold h.mem hkey
      rw [if_pos hheld, if_pos rfl]
      rfl
    · rw [if_neg hkey, if_neg]
      intro hp
      exact hkey (key_of_heldBy hp).1

end

/-- What `enqueue` asks of an escalation. -/
structure Accepted (channel : NotificationChannel) (error : String) : Prop where
  reason : failureReason (some error) ∈ notificationReasons
  short : (channelText channel).length ≤ 200 ∧ error.length ≤ 200
  clean : (credentialShape (escalationKey channel) || credentialShape (dumps
    [("channel", .text (channelText channel)), ("last_error", .text error)])) = false

/-- Out of the window of its channel an escalation is a new event. -/
theorem escalate_calm (huuid : Function.Injective uuid) {s : Notifications}
    (h : Calm uuid s) {now : ℤ} {item : Claimed} {channels : List NotificationChannel}
    {other : NotificationChannel} {error : String}
    (haccepted : Accepted item.channel error) (hclosed : ClosedAfter s item.channel now)
    (hothers : channels.filter (· ≠ item.channel) = [other]) :
    ∃ s' row, (escalate uuid now item channels (some error)).Returns s true s' ∧
      Alone uuid s' ⟨row.id, other, .pending, 0, now, none⟩ ∧
      s'.outbox.rows = s.outbox.rows ++ [row] ∧ (∀ old ∈ s.outbox.rows, old.id ≠ row.id) ∧
      row.kind = channelFailed ∧ row.dedupeKey = escalationKey item.channel ∧
      row.windowUntil = now + escalationWindowSeconds * 1000 := by
  let row : OutboxRow :=
    { id := uuid s.drawn, time := now, lastAt := now
      windowUntil := now + escalationWindowSeconds * 1000
      occurrences := 1, kind := channelFailed, severity := .critical
      dedupeKey := escalationKey item.channel, organization := none, project := none
      environment := item.row.environment, runtime := item.row.runtime, actor := "system"
      reason := failureReason (some error)
      detail := [("channel", .text (channelText item.channel)), ("last_error", .text error)]
      expiresAt := now + Outbox.notificationRetentionMs }
  have hfresh : ∀ old ∈ s.outbox.rows, old.id ≠ row.id := by
    intro old hold heq
    apply not_issued_next huuid s
    rw [← show row.id = uuid s.drawn from rfl, ← heq]
    exact h.issued old hold
  have hinsert : ∃ outbox, s.outbox.insert row = some outbox := by
    cases hcase : s.outbox.insert row with
    | some outbox => exact ⟨outbox, rfl⟩
    | none =>
        obtain ⟨old, hold, heq⟩ := Table.insert_eq_none.mp hcase
        exact absurd heq (hfresh old hold)
  obtain ⟨outbox, hinsert⟩ := hinsert
  let delivery : Delivery := ⟨row.id, other, .pending, 0, now, none⟩
  have hnew : ∀ old ∈ s.deliveries.rows, old.event ≠ row.id := by
    intro old hold heq
    obtain ⟨event, hevent, hid⟩ := h.owned old hold
    exact hfresh event hevent (hid.trans heq)
  have hdelivery : ∃ deliveries, s.deliveries.insert delivery = some deliveries := by
    cases hcase : s.deliveries.insert delivery with
    | some deliveries => exact ⟨deliveries, rfl⟩
    | none =>
        obtain ⟨old, hold, heq⟩ := Table.insert_eq_none.mp hcase
        exact absurd (congrArg Prod.fst heq) (hnew old hold)
  obtain ⟨deliveries, hdelivery⟩ := hdelivery
  have hopen : openEvent s (escalationKey item.channel) now = none := by
    unfold openEvent
    rcases latest_cases (s.outbox.rows.filter fun row =>
        row.dedupeKey = escalationKey item.channel && row.windowUntil > now) with
      ⟨-, hnone⟩ | ⟨event, hmem, -⟩
    · exact hnone
    · obtain ⟨hevent, hp⟩ := List.mem_filter.mp hmem
      simp only [Bool.and_eq_true, decide_eq_true_eq] at hp
      have hle := hclosed event hevent hp.1
      omega
  obtain ⟨hrows, -⟩ := Table.insert_eq_some hinsert
  obtain ⟨hrows', -⟩ := Table.insert_eq_some hdelivery
  refine ⟨⟨outbox, deliveries, s.drawn + 1⟩, row, ?_, ?_, hrows, hfresh, rfl, rfl, rfl⟩
  · unfold escalate
    rw [hothers, if_neg (List.cons_ne_nil _ _), returns_bind]
    refine ⟨row.id, ⟨outbox, deliveries, s.drawn + 1⟩, ?_, rfl⟩
    rw [returns_transaction]
    unfold enqueue
    rw [returns_bind]
    refine ⟨["channel", "last_error"], s, returns_found.mpr ⟨rfl, rfl⟩, ?_⟩
    rw [returns_bind]
    refine ⟨(), s, returns_require.mpr ⟨haccepted.reason, rfl⟩, ?_⟩
    dsimp only [Option.getD_some]
    rw [returns_bind]
    refine ⟨(), s, returns_require.mpr ⟨by decide, rfl⟩, ?_⟩
    rw [returns_bind]
    have hfield : ∀ field text, field ∈ ["channel", "last_error"] → text.length ≤ 200 →
        (checkField ["channel", "last_error"] (field, .text text)).Returns s () s := by
      intro field text hfield hlength
      unfold checkField
      rw [returns_bind]
      exact ⟨(), s, returns_require.mpr ⟨hfield, rfl⟩, returns_require.mpr ⟨hlength, rfl⟩⟩
    refine ⟨(), s, ?_, ?_⟩
    · exact returns_bind.mpr ⟨(), s, hfield _ _ (by decide) haccepted.short.1,
        returns_bind.mpr ⟨(), s, hfield _ _ (by decide) haccepted.short.2, rfl⟩⟩
    rw [returns_bind]
    refine ⟨(), s, returns_require.mpr ⟨by rfl, rfl⟩, ?_⟩
    rw [returns_bind]
    refine ⟨(), s, returns_require.mpr ⟨haccepted.clean, rfl⟩, ?_⟩
    unfold publish
    rw [returns_bind]
    refine ⟨s, s, rfl, ?_⟩
    dsimp only [id]
    rw [hopen]
    unfold insertEvent
    rw [returns_bind]
    refine ⟨uuid s.drawn, { s with drawn := s.drawn + 1 }, rfl, ?_⟩
    rw [returns_bind]
    refine ⟨_, _, rfl, ?_⟩
    rw [returns_bind]
    refine ⟨outbox, _, returns_found.mpr ⟨hinsert, rfl⟩, ?_⟩
    rw [returns_bind]
    refine ⟨(), ⟨outbox, s.deliveries, s.drawn + 1⟩, rfl, ?_⟩
    rw [returns_bind]
    refine ⟨(), ⟨outbox, deliveries, s.drawn + 1⟩, ?_, rfl⟩
    refine returns_bind.mpr ⟨(), ⟨outbox, deliveries, s.drawn + 1⟩, ?_, rfl⟩
    unfold insertDelivery
    rw [returns_bind]
    refine ⟨_, _, rfl, ?_⟩
    rw [returns_bind]
    exact ⟨deliveries, _, returns_found.mpr ⟨hdelivery, rfl⟩, rfl⟩
  · refine ⟨?_, rfl, ?_, ?_, ?_⟩
    · rw [hrows']
      simp [delivery]
    · intro old hold hold'
      rw [hrows', List.mem_append] at hold
      rcases hold with hmem | hmem
      · rw [h.closed old hmem] at hold'
        cases hold'
      · exact List.mem_singleton.mp hmem
    · intro old hold
      unfold Owned
      rw [hrows]
      rw [hrows', List.mem_append] at hold
      rcases hold with hmem | hmem
      · obtain ⟨event, hevent, hid⟩ := h.owned old hmem
        exact ⟨event, List.mem_append_left _ hevent, hid⟩
      · rw [List.mem_singleton.mp hmem]
        exact ⟨row, by simp, rfl⟩
    · intro event hevent
      rw [hrows, List.mem_append] at hevent
      rcases hevent with hmem | hmem
      · exact issued_mono (Nat.le_succ _) (h.issued event hmem)
      · rw [List.mem_singleton.mp hmem]
        exact ⟨s.drawn, Nat.lt_succ_self _, rfl⟩

/-! ## One round of the drain -/

section

variable {s : Notifications} {row : Delivery} {item : Claimed} {claimAt : ℤ} (now : ℤ)
  {channels : List NotificationChannel} {outcome : Outcome} {error : String}

/-- The settlement of an item that the channel refused. -/
theorem item_alone (h : Alone uuid s row) (hkey : item.key = row.key)
    (hstage : row.stage = .claimed item.claim claimAt) (hchannel : item.channel ∈ channels)
    (houtcome : outcome ≠ .delivered) (herror : isErrorToken error = true) (produced : String) :
    ∃ s₁ s₂, Restamped s s₁ ∧ Alone uuid s₁ row ∧ s₂.outbox = s₁.outbox ∧ s₂.drawn = s₁.drawn ∧
      (s₂.deliveries.rows = s₁.deliveries.rows.map fun old =>
        if old.key = row.key then failedRow now outcome error row else old) ∧
      (drainItem uuid now now item produced channels (.sent outcome (some error))).after s =
        after (when (isPermanent outcome row.attempts = true ∧
          some error ≠ some "channel_disabled")
          (escalate uuid now item channels (some error)).discard) s₂ := by
  obtain ⟨_, s₁, hrecord⟩ := Total.returns (c := recordRefusalReason item produced) s
  have hrestamped := recordRefusalReason_effect item produced s _ _ hrecord
  have halone := alone_restamped h hrestamped
  obtain ⟨s₂, hreturns, houtbox, hdrawn, hrows⟩ :=
    settle_alone now halone hstage houtcome herror
  have hevent : item.event = row.event := congrArg Prod.fst hkey
  have hitemChannel : item.channel = row.channel := congrArg Prod.snd hkey
  rw [← hevent, ← hitemChannel] at hreturns
  refine ⟨s₁, s₂, hrestamped, halone, houtbox, hdrawn, hrows, ?_⟩
  unfold drainItem
  rw [after_bind_of_returns hrecord,
    after_bind_of_returns (a := ()) (returns_require.mpr ⟨by simp, rfl⟩),
    if_neg (not_not.mpr hchannel)]
  change after (settle now item.event item.channel item.claim outcome (some error) >>= _) s₁ = _
  rw [after_bind_of_returns hreturns]
  by_cases hpermanent : isPermanent outcome row.attempts = true
  · rw [if_pos hpermanent]
    unfold when
    simp [hpermanent]
  · rw [if_neg hpermanent]
    unfold when
    rw [if_neg (by simp), if_neg (by simp [hpermanent])]

theorem item_retry (h : Alone uuid s row) (hkey : item.key = row.key)
    (hstage : row.stage = .claimed item.claim claimAt) (hchannel : item.channel ∈ channels)
    (houtcome : outcome ≠ .delivered) (herror : isErrorToken error = true) (produced : String)
    (hretry : isPermanent outcome row.attempts = false) {s' : Notifications}
    (hs' : (drainItem uuid now now item produced channels (.sent outcome (some error))).after s = s') :
    Alone uuid s' (failedRow now outcome error row) ∧
      ∀ channel time, ClosedAfter s channel time → ClosedAfter s' channel time := by
  obtain ⟨s₁, s₂, hrestamped, halone, houtbox, hdrawn, hrows, hafter⟩ :=
    item_alone now h hkey hstage hchannel houtcome herror produced
  have hsame : s' = s₂ := by
    rw [← hs', hafter]
    unfold when
    rw [if_neg (by simp [hretry])]
    rfl
  rw [hsame]
  constructor
  · apply alone_of_map halone _ _ hrows houtbox hdrawn.ge
    · rfl
    · unfold failedRow
      rw [hretry]
      rfl
  · intro channel time hclosed
    have hrestampedClosed := closedAfter_restamped hclosed hrestamped
    unfold ClosedAfter at hrestampedClosed ⊢
    rwa [houtbox]

theorem item_failed (huuid : Function.Injective uuid) (h : Alone uuid s row)
    (hkey : item.key = row.key) (hstage : row.stage = .claimed item.claim claimAt)
    (hchannel : item.channel ∈ channels) (houtcome : outcome ≠ .delivered)
    (herror : isErrorToken error = true) (produced : String)
    (hpermanent : isPermanent outcome row.attempts = true)
    (hdisabled : error ≠ "channel_disabled") (haccepted : Accepted item.channel error)
    (hclosed : ClosedAfter s item.channel now) {other : NotificationChannel}
    (hothers : channels.filter (· ≠ item.channel) = [other]) {s' : Notifications}
    (hs' : (drainItem uuid now now item produced channels (.sent outcome (some error))).after s = s') :
    ∃ f event, (∀ row, stamp (f row) = stamp row) ∧
      s'.outbox.rows = s.outbox.rows.map f ++ [event] ∧
      (∀ old ∈ s.outbox.rows, old.id ≠ event.id) ∧ event.kind = channelFailed ∧
      event.dedupeKey = escalationKey item.channel ∧
      event.windowUntil = now + escalationWindowSeconds * 1000 ∧
      Alone uuid s' ⟨event.id, other, .pending, 0, now, none⟩ := by
  obtain ⟨s₁, s₂, hrestamped, halone, houtbox, hdrawn, hrows, hafter⟩ :=
    item_alone now h hkey hstage hchannel houtcome herror produced
  have hcalm : Calm uuid s₂ := by
    refine ⟨?_, ?_, ?_⟩
    · intro old hold
      rw [hrows] at hold
      obtain ⟨older, holder, rfl⟩ := List.mem_map.mp hold
      split_ifs with heq
      · unfold failedRow
        rw [hpermanent]
        rfl
      · cases hopen : older.stage.isOpen with
        | false => rfl
        | true => exact absurd (congrArg Delivery.key (halone.only older holder hopen)) heq
    · intro old hold
      rw [hrows] at hold
      obtain ⟨older, holder, rfl⟩ := List.mem_map.mp hold
      unfold Owned
      rw [houtbox]
      split_ifs
      · exact halone.owned row halone.mem
      · exact halone.owned older holder
    · rw [houtbox]
      exact fun event hevent => issued_mono hdrawn.ge (halone.issued event hevent)
  have hclosed₂ : ClosedAfter s₂ item.channel now := by
    have hclosed₁ := closedAfter_restamped hclosed hrestamped
    unfold ClosedAfter at hclosed₁ ⊢
    rwa [houtbox]
  obtain ⟨s₃, event, hreturns, halone₃, hrows₃, hfresh, hkind, heventKey, hwindow⟩ :=
    escalate_calm huuid hcalm haccepted hclosed₂ hothers
  have hsame : s' = s₃ := by
    rw [← hs', hafter]
    unfold when Call.discard
    rw [if_pos ⟨hpermanent, by simpa using hdisabled⟩, after_bind_of_returns hreturns]
    rfl
  obtain ⟨-, -, f, hf, hrows₁⟩ := hrestamped
  rw [hsame]
  refine ⟨f, event, hf, ?_, ?_, hkind, heventKey, hwindow, halone₃⟩
  · rw [hrows₃, houtbox, hrows₁]
  · intro old hold
    have hid : (f old).id = old.id := congrArg Prod.fst (hf old)
    rw [← hid]
    apply hfresh
    rw [houtbox, hrows₁]
    exact List.mem_map_of_mem hold

end

/-- One drain that finds one delivery, whose attempt fails. -/
def round (channels : List NotificationChannel) (outcome : Outcome) (error : String) :
    List DrainEvent :=
  [.claim 20 leaseMillis, .item "unrecorded" channels (.sent outcome (some error)) 0, .prune 500]

/-- The drain is idle and one delivery waits for its time. -/
structure Waiting (uuid : ℕ → String) (s : Drain) (channel : NotificationChannel) (attempts : ℕ)
    (due : ℤ) : Prop where
  work : s.work = []
  row : ∃ row, Alone uuid s.store row ∧ row.channel = channel ∧ row.stage = .pending ∧
    row.attempts = attempts ∧ row.nextAttemptAt = due

theorem prune_step {s : Drain} (hwork : s.work = []) {row : Delivery} (h : Alone uuid s.store row)
    (limit : ℤ) :
    let s' := (drainMachine uuid).step s (.prune limit)
    s'.work = [] ∧ s'.clock = s.clock ∧ s'.created = s.created ∧ Alone uuid s'.store row ∧
      ∀ channel time, ClosedAfter s.store channel time → ClosedAfter s'.store channel time := by
  intro s'
  have hatomic : Atomic (prune s.clock limit) := by
    unfold prune
    infer_instance
  have hstep : s' = s.call (prune s.clock limit) := by
    change (if s.work = [] then _ else s) = _
    rw [if_pos hwork]
  have hcreated := (effect_prune uuid h.owned limit).created
  rw [List.append_nil] at hcreated
  have hpruned : ∃ drop, Pruned s.store ((prune s.clock limit).after s.store) s.clock drop := by
    rcases hatomic.outcome s.store with ⟨message, hthrows⟩ | ⟨count, store, hreturns⟩
    · rw [after, hthrows]
      exact ⟨_, Pruned.refl s.store s.clock⟩
    · rw [hreturns.after_eq]
      exact prune_effect s.clock limit s.store _ _ hreturns
  obtain ⟨drop, hpruned⟩ := hpruned
  have hstore : s'.store = (prune s.clock limit).after s.store := by
    rw [hstep]
    rfl
  rw [← hstore] at hpruned
  have hsub : ∀ event ∈ s'.store.outbox.rows, event ∈ s.store.outbox.rows := by
    intro event hevent
    rw [hpruned.outbox] at hevent
    exact (List.mem_filter.mp hevent).1
  refine ⟨?_, ?_, hcreated, ⟨hpruned.mem_of_open h.mem h.opened, h.opened, ?_, ?_, ?_⟩, ?_⟩
  · rw [hstep]
    exact hwork
  · rw [hstep]
    rfl
  · intro other hother
    rw [hpruned.deliveries] at hother
    exact h.only other (List.mem_filter.mp hother).1
  · exact (hpruned.shift : Shift uuid _ _).owned h.owned
  · exact fun event hevent => issued_mono hpruned.drawn.ge (h.issued event (hsub event hevent))
  · exact fun channel time hclosed event hevent => hclosed event (hsub event hevent)

section

variable {s : Drain} {channel other : NotificationChannel} {attempts : ℕ}
  {channels : List NotificationChannel} {outcome : Outcome} {error : String}

/-- The first event of a round: the delivery is in the hands of the drain. -/
theorem claim_step (h : Waiting uuid s channel attempts s.clock) :
    ∃ item row, (drainMachine uuid).step s (.claim 20 leaseMillis) =
        { s with
          store := ((drainMachine uuid).step s (.claim 20 leaseMillis)).store
          work := [item] } ∧
      ((drainMachine uuid).step s (.claim 20 leaseMillis)).store.outbox = s.store.outbox ∧
      Alone uuid ((drainMachine uuid).step s (.claim 20 leaseMillis)).store row ∧
      item.key = row.key ∧ item.channel = channel ∧ row.attempts = attempts + 1 ∧
      row.stage = .claimed item.claim s.clock := by
  obtain ⟨row, halone, hchannel, hstage, hattempts, hdue⟩ := h.row
  have hrowDue : row.due s.clock leaseMillis = true := by
    unfold Delivery.due
    rw [hstage]
    exact decide_eq_true hdue.le
  obtain ⟨item, store, hreturns, hkey, houtbox, hafter⟩ := claim_alone halone hrowDue
  have hstep : (drainMachine uuid).step s (.claim 20 leaseMillis) =
      { s with store, work := [item] } := by
    change (if s.work = [] then _ else s) = _
    rw [if_pos h.work]
    change ({ s with
      store := (Notify.claim uuid s.clock 20 leaseMillis s.store).2
      work := handedBy (Notify.claim uuid s.clock 20 leaseMillis s.store).1 } : Drain) = _
    rw [hreturns]
    rfl
  rw [hstep]
  refine ⟨item, _, rfl, houtbox, hafter, hkey, ?_, ?_, rfl⟩
  · exact (congrArg Prod.snd hkey).trans hchannel
  · exact congrArg (· + 1) hattempts

theorem item_step {item : Claimed} (hwork : s.work = [item]) :
    (drainMachine uuid).step s (.item "unrecorded" channels (.sent outcome (some error)) 0) =
      { s.call (drainItem uuid s.clock s.clock item "unrecorded" channels
          (.sent outcome (some error))) with work := [] } := by
  simp only [drainMachine, hwork]
  simp [Drain.call]

/-- A round whose attempt fails for now. -/
theorem round_retry (h : Waiting uuid s channel attempts s.clock) (hchannel : channel ∈ channels)
    (houtcome : outcome ≠ .delivered) (herror : isErrorToken error = true)
    (hretry : isPermanent outcome (attempts + 1) = false) {s' : Drain}
    (hs' : (drainMachine uuid).runFrom s (round channels outcome error) = s') :
    Waiting uuid s' channel (attempts + 1) (s.clock + backoffMs (attempts + 1)) ∧
      s'.clock = s.clock ∧ escalations s ≤ escalations s' ∧
      ∀ channel time, ClosedAfter s.store channel time → ClosedAfter s'.store channel time := by
  obtain ⟨item, row, hclaim, houtbox, halone, hkey, hitem, hattempts, hstage⟩ := claim_step h
  unfold round at hs'
  rw [Machine.runFrom_cons, Machine.runFrom_cons, Machine.runFrom_cons, Machine.runFrom_nil] at hs'
  generalize (drainMachine uuid).step s (.claim 20 leaseMillis) = t at hclaim houtbox halone hs'
  have htwork : t.work = [item] := by rw [hclaim]
  have htclock : t.clock = s.clock := by rw [hclaim]
  have htcreated : t.created = s.created := by rw [hclaim]
  rw [item_step htwork, htclock] at hs'
  obtain ⟨hafter, hclosed⟩ := item_retry s.clock halone hkey hstage
    (hitem.symm ▸ hchannel) houtcome herror "unrecorded" (hattempts.symm ▸ hretry) rfl
  obtain ⟨hwork, hclock, hcreated, halone', hclosed'⟩ := prune_step (s := { t.call (drainItem uuid
    s.clock s.clock item "unrecorded" channels (.sent outcome (some error))) with work := [] })
    rfl hafter 500
  rw [hs'] at hwork hclock hcreated halone' hclosed'
  refine ⟨⟨hwork, _, halone', ?_, ?_, ?_, ?_⟩, hclock.trans htclock, ?_, ?_⟩
  · exact (congrArg Prod.snd hkey).symm.trans hitem
  · unfold failedRow
    rw [hattempts, hretry]
    rfl
  · exact hattempts
  · unfold failedRow
    rw [hattempts, hretry]
    rfl
  · unfold escalations
    rw [hcreated]
    change _ ≤ (t.created ++ _).countP isEscalation
    rw [htcreated, List.countP_append]
    omega
  · intro channel time hc
    apply hclosed'
    apply hclosed
    unfold ClosedAfter at hc ⊢
    rwa [houtbox]

theorem escalationKey_injective : Function.Injective escalationKey := by
  intro a b h
  revert h
  cases a <;> cases b <;> decide

/-- A round whose attempt fails for good, out of the window of its channel. -/
theorem round_failed (huuid : Function.Injective uuid) (h : Waiting uuid s channel attempts s.clock)
    (hchannel : channel ∈ channels) (houtcome : outcome ≠ .delivered)
    (herror : isErrorToken error = true)
    (hpermanent : isPermanent outcome (attempts + 1) = true)
    (hdisabled : error ≠ "channel_disabled") (haccepted : Accepted channel error)
    (hothers : channels.filter (· ≠ channel) = [other])
    (hwindow : ClosedAfter s.store channel s.clock) {s' : Drain}
    (hs' : (drainMachine uuid).runFrom s (round channels outcome error) = s') :
    Waiting uuid s' other 0 s.clock ∧ s'.clock = s.clock ∧ escalations s + 1 ≤ escalations s' ∧
      ClosedAfter s'.store channel (s.clock + escalationWindowSeconds * 1000) ∧
      ∀ another time, another ≠ channel → ClosedAfter s.store another time →
        ClosedAfter s'.store another time := by
  obtain ⟨item, row, hclaim, houtbox, halone, hkey, hitem, hattempts, hstage⟩ := claim_step h
  unfold round at hs'
  rw [Machine.runFrom_cons, Machine.runFrom_cons, Machine.runFrom_cons, Machine.runFrom_nil] at hs'
  generalize (drainMachine uuid).step s (.claim 20 leaseMillis) = t at hclaim houtbox halone hs'
  have htwork : t.work = [item] := by rw [hclaim]
  have htclock : t.clock = s.clock := by rw [hclaim]
  have htcreated : t.created = s.created := by rw [hclaim]
  have htwindow : ClosedAfter t.store item.channel s.clock := by
    unfold ClosedAfter at hwindow ⊢
    rwa [houtbox, hitem]
  rw [item_step htwork, htclock] at hs'
  obtain ⟨f, event, hf, hrows, hfresh, hkind, heventKey, hwindowUntil, hafter⟩ :=
    item_failed s.clock huuid halone hkey hstage (hitem.symm ▸ hchannel) houtcome herror
      "unrecorded" (hattempts.symm ▸ hpermanent) hdisabled (hitem.symm ▸ haccepted) htwindow
      (hitem.symm ▸ hothers) rfl
  obtain ⟨hwork, hclock, hcreated, halone', hclosed'⟩ := prune_step (s := { t.call (drainItem uuid
    s.clock s.clock item "unrecorded" channels (.sent outcome (some error))) with work := [] })
    rfl hafter 500
  rw [hs'] at hwork hclock hcreated halone' hclosed'
  have hold : ∀ old ∈ t.store.outbox.rows, (f old).dedupeKey = old.dedupeKey ∧
      (f old).windowUntil = old.windowUntil := by
    intro old _
    have hsame := hf old
    simp only [stamp, Prod.mk.injEq] at hsame
    exact ⟨hsame.2.2.2.2.1, hsame.2.2.1⟩
  refine ⟨⟨hwork, _, halone', rfl, rfl, rfl, rfl⟩, hclock.trans htclock, ?_, ?_, ?_⟩
  · have hnew := newEvents_of_map hf hrows (by simpa using hfresh)
    unfold escalations
    rw [hcreated]
    change _ ≤ (t.created ++ newEvents t.store _).countP isEscalation
    rw [hnew, htcreated, List.countP_append, List.countP_singleton, if_pos]
    unfold isEscalation
    rw [hkind]
    rfl
  · apply hclosed'
    intro old hmem hsame
    change old ∈ ((drainItem uuid s.clock s.clock item "unrecorded" channels
      (.sent outcome (some error))).after t.store).outbox.rows at hmem
    rw [hrows, List.mem_append] at hmem
    rcases hmem with hmem | hmem
    · obtain ⟨older, holder, rfl⟩ := List.mem_map.mp hmem
      obtain ⟨hkeySame, huntil⟩ := hold older holder
      have hle := htwindow older holder (by rw [hitem, ← hkeySame, hsame])
      have hpositive : (0 : ℤ) ≤ escalationWindowSeconds * 1000 := by decide
      omega
    · rw [List.mem_singleton.mp hmem]
      omega
  · intro another time hne hc
    apply hclosed'
    intro old hmem hsame
    change old ∈ ((drainItem uuid s.clock s.clock item "unrecorded" channels
      (.sent outcome (some error))).after t.store).outbox.rows at hmem
    rw [hrows, List.mem_append] at hmem
    rcases hmem with hmem | hmem
    · obtain ⟨older, holder, rfl⟩ := List.mem_map.mp hmem
      obtain ⟨hkeySame, huntil⟩ := hold older holder
      rw [huntil]
      exact hc older (houtbox ▸ holder) (hkeySame.symm.trans hsame)
    · rw [List.mem_singleton.mp hmem, heventKey, hitem] at hsame
      exact absurd (escalationKey_injective hsame).symm hne

end

/-! ## Two broken channels -/

/-- The drain never waits while a delivery is due, and a message takes no time. -/
def Prompt (s : Drain) : DrainEvent → Prop
  | .wait millis => s.work = [] ∧ ∀ row ∈ s.store.deliveries.rows, row.stage.isOpen = true →
      row.stage = .pending ∧ s.clock + millis ≤ row.nextAttemptAt
  | .item _ _ _ millis => millis = 0
  | _ => True

theorem along_round (uuid : ℕ → String) (s : Drain) (channels : List NotificationChannel) (outcome : Outcome)
    (error : String) :
    (drainMachine uuid).Along Prompt s (round channels outcome error) := by
  unfold round
  exact ⟨trivial, rfl, trivial, trivial⟩

/-- The wait for the next attempt. -/
def pause (attempts : ℕ) : DrainEvent := .wait (backoffMs attempts).toNat

theorem pause_step {s : Drain} {channel : NotificationChannel} {attempts : ℕ}
    (h : Waiting uuid s channel attempts (s.clock + backoffMs attempts)) :
    Prompt s (pause attempts) ∧
      Waiting uuid ((drainMachine uuid).step s (pause attempts)) channel attempts
        ((drainMachine uuid).step s (pause attempts)).clock ∧
      ((drainMachine uuid).step s (pause attempts)).clock = s.clock + backoffMs attempts ∧
      ((drainMachine uuid).step s (pause attempts)).store = s.store ∧
      ((drainMachine uuid).step s (pause attempts)).created = s.created := by
  have hpositive : 0 ≤ backoffMs attempts := by
    unfold backoffMs backoffSeconds
    rcases attempts with _ | _ | _ | _ | _ | attempts <;> simp
  have hcast : ((backoffMs attempts).toNat : ℤ) = backoffMs attempts := Int.toNat_of_nonneg hpositive
  have hclock : ((drainMachine uuid).step s (pause attempts)).clock =
      s.clock + backoffMs attempts := by
    change s.clock + ((backoffMs attempts).toNat : ℤ) = _
    rw [hcast]
  obtain ⟨row, halone, hchannel, hstage, hattempts, hdue⟩ := h.row
  refine ⟨⟨h.work, ?_⟩, ⟨h.work, row, halone, hchannel, hstage, hattempts, ?_⟩, hclock, rfl, rfl⟩
  · intro other hother hopen
    rw [halone.only other hother hopen, hcast]
    exact ⟨hstage, hdue.ge⟩
  · rw [hclock]
    exact hdue

/-- The channels of the configuration. -/
def broken : List NotificationChannel := [.email, .webhook]

def emailRound : List DrainEvent := round broken .failed "smtp_refused"

def webhookRound : List DrainEvent := round broken .transient "webhook_timeout"

/-- The attempts on the webhook that are followed by a wait. -/
def retries (n : ℕ) : List DrainEvent :=
  (List.range n).flatMap fun i => webhookRound ++ [pause (i + 1)]

/-- The mail server refuses, and the webhook times out eight times. -/
def cycle : List DrainEvent := emailRound ++ (retries 7 ++ webhookRound)

/-- The waits between the first attempts. -/
def waited (n : ℕ) : ℤ := ((List.range n).map fun i => backoffMs (i + 1)).sum

theorem waited_succ (n : ℕ) : waited (n + 1) = waited n + backoffMs (n + 1) := by
  unfold waited
  rw [List.range_succ, List.map_append, List.sum_append]
  simp

theorem retries_run (n : ℕ) (hn : n ≤ 7) {s : Drain} (h : Waiting uuid s .webhook 0 s.clock) :
    (drainMachine uuid).Along Prompt s (retries n) ∧
      Waiting uuid ((drainMachine uuid).runFrom s (retries n)) .webhook n
        ((drainMachine uuid).runFrom s (retries n)).clock ∧
      ((drainMachine uuid).runFrom s (retries n)).clock = s.clock + waited n ∧
      escalations s ≤ escalations ((drainMachine uuid).runFrom s (retries n)) ∧
      ∀ channel time, ClosedAfter s.store channel time →
        ClosedAfter ((drainMachine uuid).runFrom s (retries n)).store channel time := by
  induction n with
  | zero => exact ⟨trivial, h, (Int.add_zero _).symm, le_refl _, fun _ _ hc => hc⟩
  | succ n ih =>
      obtain ⟨halong, hwaiting, hclock, hcount, hclosed⟩ := ih (by omega)
      have hsplit : retries (n + 1) = retries n ++ (webhookRound ++ [pause (n + 1)]) := by
        unfold retries
        rw [List.range_succ, List.flatMap_append]
        simp
      rw [hsplit, Machine.along_append, Machine.runFrom_append, Machine.runFrom_append,
        Machine.along_append]
      generalize (drainMachine uuid).runFrom s (retries n) = t at *
      have hretry : isPermanent .transient (n + 1) = false := by
        unfold isPermanent maxAttempts
        simp
        omega
      obtain ⟨hwaiting', hclock', hcount', hclosed'⟩ := round_retry hwaiting (by decide)
        (by decide) (by decide) hretry
        (rfl : (drainMachine uuid).runFrom t webhookRound = (drainMachine uuid).runFrom t webhookRound)
      have hround : (drainMachine uuid).Along Prompt t webhookRound := along_round uuid t _ _ _
      generalize (drainMachine uuid).runFrom t webhookRound = u at *
      rw [← hclock'] at hwaiting'
      obtain ⟨hprompt, hwaiting'', hclock'', hstore, hcreated⟩ := pause_step hwaiting'
      rw [Machine.runFrom_cons, Machine.runFrom_nil]
      refine ⟨⟨halong, hround, hprompt, trivial⟩, hwaiting'', ?_, ?_, ?_⟩
      · rw [hclock'', hclock', hclock, waited_succ]
        omega
      · unfold escalations at hcount hcount' ⊢
        rw [hcreated]
        omega
      · intro channel time hc
        rw [hstore]
        exact hclosed' channel time (hclosed channel time hc)

/-- A cycle begins with a delivery for the mail server. -/
structure Broken (uuid : ℕ → String) (s : Drain) : Prop where
  waiting : ∃ attempts, Waiting uuid s .email attempts s.clock
  email : ClosedAfter s.store .email s.clock
  webhook : ClosedAfter s.store .webhook (s.clock + escalationWindowSeconds * 1000)

theorem accepted_email : Accepted .email "smtp_refused" :=
  ⟨by decide, by decide, by decide⟩

theorem accepted_webhook : Accepted .webhook "webhook_timeout" :=
  ⟨by decide, by decide, by decide⟩

theorem others_email : broken.filter (· ≠ .email) = [.webhook] := by decide

theorem others_webhook : broken.filter (· ≠ .webhook) = [.email] := by decide

/-- After a cycle the next one begins, and both channels were escalated once more. -/
theorem cycle_run (huuid : Function.Injective uuid) {s : Drain} (h : Broken uuid s) :
    (drainMachine uuid).Along Prompt s cycle ∧ Broken uuid ((drainMachine uuid).runFrom s cycle) ∧
      escalations s + 2 ≤ escalations ((drainMachine uuid).runFrom s cycle) := by
  obtain ⟨attempts, hwaiting⟩ := h.waiting
  have hwindow : escalationWindowSeconds * 1000 ≤ waited 7 := by decide
  unfold cycle
  rw [Machine.along_append, Machine.along_append, Machine.runFrom_append, Machine.runFrom_append]
  have hround : (drainMachine uuid).Along Prompt s emailRound := along_round uuid s _ _ _
  obtain ⟨hwaiting₁, hclock₁, hcount₁, hemail₁, hother₁⟩ := round_failed huuid
    hwaiting (by decide) (by decide) (by decide) (by simp [isPermanent]) (by decide)
    accepted_email others_email h.email
    (rfl : (drainMachine uuid).runFrom s emailRound = (drainMachine uuid).runFrom s emailRound)
  have hwebhook₁ := hother₁ .webhook _ (by decide) h.webhook
  generalize (drainMachine uuid).runFrom s emailRound = t at *
  rw [← hclock₁] at hwaiting₁ hemail₁ hwebhook₁
  obtain ⟨hretries, hwaiting₂, hclock₂, hcount₂, hclosed₂⟩ := retries_run 7 (le_refl _) hwaiting₁
  have hemail₂ := hclosed₂ .email _ hemail₁
  have hwebhook₂ : ClosedAfter ((drainMachine uuid).runFrom t (retries 7)).store .webhook
      ((drainMachine uuid).runFrom t (retries 7)).clock := by
    intro event hevent hkey
    have hle := hclosed₂ .webhook _ hwebhook₁ event hevent hkey
    omega
  generalize (drainMachine uuid).runFrom t (retries 7) = u at *
  have hlast : (drainMachine uuid).Along Prompt u webhookRound := along_round uuid u _ _ _
  obtain ⟨hwaiting₃, hclock₃, hcount₃, hwebhook₃, hother₃⟩ := round_failed huuid
    hwaiting₂ (by decide) (by decide) (by decide) (by decide) (by decide)
    accepted_webhook others_webhook hwebhook₂
    (rfl : (drainMachine uuid).runFrom u webhookRound = (drainMachine uuid).runFrom u webhookRound)
  have hemail₃ := hother₃ .email _ (by decide) hemail₂
  generalize (drainMachine uuid).runFrom u webhookRound = v at *
  refine ⟨⟨hround, hretries, hlast⟩, ⟨⟨0, ?_⟩, ?_, ?_⟩, ?_⟩
  · rw [hclock₃]
    exact hwaiting₃
  · intro event hevent hkey
    have hle := hemail₃ event hevent hkey
    omega
  · rw [hclock₃]
    exact hwebhook₃
  · omega

/-- The cycle over and over. -/
def breaking (n : ℕ) : DrainEvent := cycle[n % cycle.length]?.getD (.wait 0)

/-- A start of the installation, told to the webhook while the mail server times out. -/
def beforeBreaking : List DrainEvent :=
  [.emit started, .claim 20 leaseMillis,
    .item "unrecorded" broken (.sent .transient (some "smtp_timeout")) 0,
    .item "unrecorded" broken (.sent .delivered none) 0,
    .item "unrecorded" broken (.sent .delivered none) 0, .prune 500, pause 1]

theorem upTo_breaking (k : ℕ) :
    upTo breaking (cycle.length * k) = (List.replicate k cycle).flatten := by
  induction k with
  | zero => rfl
  | succ k ih =>
      have hone : (List.range cycle.length).map (fun i => breaking (cycle.length * k + i)) =
          cycle := by
        apply List.ext_getElem
        · simp
        · intro i hi hi'
          rw [List.getElem_map, List.getElem_range]
          unfold breaking
          rw [Nat.mul_add_mod, Nat.mod_eq_of_lt hi', List.getElem?_eq_getElem hi', Option.getD_some]
      unfold upTo at ih ⊢
      rw [Nat.mul_succ, List.range_add, List.map_append, ih, List.map_map, List.replicate_succ',
        List.flatten_append]
      simp only [List.flatten_cons, List.flatten_nil, List.append_nil]
      exact congrArg _ hone

theorem cycles_run (huuid : Function.Injective uuid) {s : Drain} (h : Broken uuid s) (k : ℕ) :
    (drainMachine uuid).Along Prompt s (upTo breaking (cycle.length * k)) ∧
      Broken uuid ((drainMachine uuid).runFrom s (upTo breaking (cycle.length * k))) ∧
      escalations s + 2 * k ≤
        escalations ((drainMachine uuid).runFrom s (upTo breaking (cycle.length * k))) := by
  rw [upTo_breaking]
  induction k with
  | zero => exact ⟨trivial, h, le_refl _⟩
  | succ k ih =>
      obtain ⟨halong, hbroken, hcount⟩ := ih
      obtain ⟨halong', hbroken', hcount'⟩ := cycle_run huuid hbroken
      rw [List.replicate_succ', List.flatten_append, Machine.along_append, Machine.runFrom_append]
      simp only [List.flatten_cons, List.flatten_nil, List.append_nil]
      exact ⟨⟨halong, halong'⟩, hbroken', by omega⟩

/-- The deliveries of the start when the pattern begins. -/
def startDeliveries : List Delivery :=
  [⟨"x", .email, .pending, 1, 15000, some "smtp_timeout"⟩, ⟨"x", .webhook, .delivered 0, 1, 0, none⟩,
    ⟨"x", .telegram, .failed, 1, 0, some "channel_disabled"⟩]

theorem beforeBreaking_run : let s := (drainMachine identifiers).run beforeBreaking
    s.store.deliveries.rows = startDeliveries ∧ s.work = [] ∧ s.clock = 15000 ∧
      s.store.outbox.rows.map (fun event => (event.id, event.dedupeKey)) =
        [("x", "installation.started")] ∧ 0 < s.store.drawn := by
  decide

theorem broken_before : Broken identifiers ((drainMachine identifiers).run beforeBreaking) := by
  have hrun := beforeBreaking_run
  generalize (drainMachine identifiers).run beforeBreaking = s at hrun
  obtain ⟨hrows, hwork, hclock, houtbox, hdrawn⟩ := hrun
  have hids : ∀ event ∈ s.store.outbox.rows,
      event.id = "x" ∧ event.dedupeKey = "installation.started" := by
    intro event hevent
    have hmem := List.mem_map_of_mem (f := fun event => (event.id, event.dedupeKey)) hevent
    rw [houtbox, List.mem_singleton] at hmem
    exact ⟨congrArg Prod.fst hmem, congrArg Prod.snd hmem⟩
  have hevent : ∃ event ∈ s.store.outbox.rows, event.id = "x" := by
    have hmem : ("x", "installation.started") ∈
        s.store.outbox.rows.map fun event => (event.id, event.dedupeKey) := by
      rw [houtbox]
      exact List.mem_singleton_self _
    obtain ⟨event, hevent, heq⟩ := List.mem_map.mp hmem
    exact ⟨event, hevent, congrArg Prod.fst heq⟩
  have hclosed : ∀ channel time, ClosedAfter s.store channel time := by
    intro channel time event hevent hkey
    rw [(hids event hevent).2] at hkey
    cases channel <;> exact absurd hkey (by decide)
  let row : Delivery := ⟨"x", .email, .pending, 1, 15000, some "smtp_timeout"⟩
  have halone : Alone identifiers s.store row := by
    refine ⟨?_, rfl, ?_, ?_, ?_⟩
    · rw [hrows]
      exact List.mem_cons_self
    · rw [hrows]
      unfold startDeliveries
      simp [Stage.isOpen, row]
    · unfold AllOwned Owned
      rw [hrows]
      unfold startDeliveries
      simpa using hevent
    · intro event hevent
      exact ⟨0, hdrawn, (hids event hevent).1⟩
  exact ⟨⟨1, hwork, row, halone, rfl, rfl, rfl, hclock.symm⟩, hclosed _ _, hclosed _ _⟩

theorem operator_beforeBreaking : ∀ e ∈ beforeBreaking, Operator e := by
  intro e he
  unfold beforeBreaking pause at he
  simp only [List.mem_cons, List.not_mem_nil, or_false] at he
  rcases he with rfl | rfl | rfl | rfl | rfl | rfl | rfl
  · exact (by decide : started.kind ≠ channelFailed)
  all_goals exact trivial

theorem channels_breaking (n : ℕ) : Channels (breaking n) := by
  have hcycle : ∀ e ∈ cycle, Channels e := by
    intro e he
    unfold cycle emailRound retries webhookRound round pause at he
    simp only [List.mem_append, List.mem_flatMap, List.mem_range, List.mem_cons, List.not_mem_nil,
      or_false] at he
    rcases he with (rfl | rfl | rfl) | ⟨i, -, (rfl | rfl | rfl) | rfl⟩ | (rfl | rfl | rfl) <;>
      exact trivial
  have hlt : n % cycle.length < cycle.length := Nat.mod_lt _ (by decide)
  unfold breaking
  rw [List.getElem?_eq_getElem hlt, Option.getD_some]
  exact hcycle _ (List.getElem_mem hlt)

theorem prompt_breaking (n : ℕ) :
    Prompt ((drainMachine identifiers).run (beforeBreaking ++ upTo breaking n)) (breaking n) := by
  obtain ⟨halong, -, -⟩ := cycles_run identifiers_injective broken_before (n + 1)
  rw [Machine.along_iff] at halong
  rw [Machine.run_append]
  apply halong
  have hlength : 0 < cycle.length := by decide
  have hle : n + 1 ≤ cycle.length * (n + 1) := Nat.le_mul_of_pos_left _ hlength
  obtain ⟨rest, hrest⟩ := Nat.exists_eq_add_of_le hle
  unfold upTo
  rw [hrest, List.range_add, List.range_succ, List.map_append, List.map_append]
  exact List.prefix_append _ _

/-- The drain is prompt, one channel refuses, the other times out, and every
bound on the escalations is passed. -/
theorem breaking_unbounded : (∀ e ∈ beforeBreaking, Operator e) ∧ (∀ n, Channels (breaking n)) ∧
      (∀ n, Prompt ((drainMachine identifiers).run (beforeBreaking ++ upTo breaking n))
        (breaking n)) ∧
      ¬ OnlyFinitely identifiers beforeBreaking breaking := by
  refine ⟨operator_beforeBreaking, channels_breaking, prompt_breaking, ?_⟩
  rintro ⟨bound, hbound⟩
  obtain ⟨-, -, hcount⟩ := cycles_run identifiers_injective broken_before (bound + 1)
  have hle := hbound (cycle.length * (bound + 1))
  rw [Machine.run_append] at hle
  omega

theorem escalations_law_breaking :
    (∀ n, WindowsApart ((drainMachine identifiers).run (beforeBreaking ++ upTo breaking n))) ∧
      ((∃ bound, ∀ n, echoes identifiers ((drainMachine identifiers).run beforeBreaking)
        (upTo breaking n) ≤ bound) → OnlyFinitely identifiers beforeBreaking breaking) :=
  escalations_law identifiers_injective beforeBreaking operator_beforeBreaking breaking
    channels_breaking

end Sbarbase.Notify.Proofs.Escalations
