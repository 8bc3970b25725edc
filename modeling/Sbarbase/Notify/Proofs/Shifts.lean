import Sbarbase.Notify.Drain
/-!
# What the transactions do to the tables

A claim is a sequence of hand-outs, and every other transaction is a shift: it
settles or closes deliveries, adds those of a new event and removes closed ones.
-/

namespace Sbarbase.Notify.Proofs.Shifts

open Lib Lib.Call Control

variable (uuid : ℕ → String)

/-- The identifier was drawn already. -/
def Issued (s : Notifications) (identifier : String) : Prop :=
  ∃ i < s.drawn, identifier = uuid i

instance (s : Notifications) (identifier : String) : Decidable (Issued uuid s identifier) :=
  inferInstanceAs (Decidable (∃ i < s.drawn, identifier = uuid i))

variable {uuid}

theorem issued_mono {s s' : Notifications} (h : s.drawn ≤ s'.drawn) {identifier : String}
    (hi : Issued uuid s identifier) : Issued uuid s' identifier := by
  obtain ⟨i, hlt, heq⟩ := hi
  exact ⟨i, hlt.trans_le h, heq⟩

theorem not_issued_next (huuid : Function.Injective uuid) (s : Notifications) :
    ¬ Issued uuid s (uuid s.drawn) := by
  rintro ⟨i, hlt, heq⟩
  have hsame := huuid heq
  omega

/-! ## What a transaction makes of the rows -/

/-- What a statement other than a claim makes of a delivery. -/
def Settles (row row' : Delivery) : Prop :=
  row' = row ∨ (row.stage.isOpen = true ∧ row'.attempts = row.attempts ∧
    (row'.stage.isOpen = false ∨
      (row'.stage = .pending ∧ row.stage ≠ .pending ∧ row.attempts < maxAttempts)))

/-- A delivery of an event that was not there. -/
def Fresh (uuid : ℕ → String) (s s' : Notifications) (row : Delivery) : Prop :=
  ¬ Issued uuid s row.event ∧ Issued uuid s' row.event ∧ row.stage = .pending ∧ row.attempts = 0

/-- The event of a delivery is in the outbox. -/
def Owned (s : Notifications) (row : Delivery) : Prop :=
  ∃ event ∈ s.outbox.rows, event.id = row.event

/-- What a transaction other than a claim makes of the tables. -/
structure Shift (uuid : ℕ → String) (s s' : Notifications) : Prop where
  drawn : s.drawn ≤ s'.drawn
  rows : ∀ row' ∈ s'.deliveries.rows,
    (∃ row ∈ s.deliveries.rows, row'.key = row.key ∧ Settles row row') ∨ Fresh uuid s s' row'
  keeps : ∀ row ∈ s.deliveries.rows, row.stage.isOpen = true →
    ∃ row' ∈ s'.deliveries.rows, row'.key = row.key
  owned : (∀ row ∈ s.deliveries.rows, Owned s row) → ∀ row' ∈ s'.deliveries.rows, Owned s' row'

theorem Shift.refl (s : Notifications) : Shift uuid s s where
  drawn := le_refl _
  rows row hrow := .inl ⟨row, hrow, rfl, .inl rfl⟩
  keeps row hrow _ := ⟨row, hrow, rfl⟩
  owned h := h

/-- One delivery is handed out. -/
structure HandOut (uuid : ℕ → String) (strict : Prop) (s : Notifications) (item : Claimed)
    (s' : Notifications) (row : Delivery) : Prop where
  mem : row ∈ s.deliveries.rows
  key : item.key = row.key
  opened : row.stage.isOpen = true
  strict : strict → row.stage = .pending ∨ row.attempts < maxAttempts
  claim : item.claim = uuid s.drawn
  drawn : s'.drawn = s.drawn + 1
  outbox : s'.outbox = s.outbox
  rows : ∃ now, s'.deliveries.rows = s.deliveries.rows.map fun old =>
    if old.key = row.key then
      { old with stage := .claimed item.claim now, attempts := old.attempts + 1 }
    else old

/-- A dispatcher gets one delivery. -/
def Hand (uuid : ℕ → String) (strict : Prop) (s s' : Dispatch) : Prop :=
  ∃ item row, HandOut uuid strict s.store item s'.store row ∧ s'.handed = item :: s.handed

/-! ## Statements -/

theorem ensures_update {p : Delivery → Bool} {f : Delivery → Delivery}
    {hf : ∀ row, (f row).key = row.key} {s : Notifications} {Q : ℕ → Notifications → Prop} :
    (update p f hf).Ensures s Q ↔
      Q (s.deliveries.rows.countP p) { s with deliveries := s.deliveries.modify p f hf } := by
  unfold update
  simp only [ensures_bind, ensures_read, ensures_write, ensures_pure, id]

instance {p : Delivery → Bool} {f : Delivery → Delivery} {hf : ∀ row, (f row).key = row.key} :
    Total (update p f hf) := by
  unfold update
  infer_instance

/-- A change of the deliveries that settles them or leaves them alone. -/
theorem shift_map {s s' : Notifications} {f : Delivery → Delivery} (houtbox : s'.outbox = s.outbox)
    (hdrawn : s'.drawn = s.drawn) (hrows : s'.deliveries.rows = s.deliveries.rows.map f)
    (h : ∀ row ∈ s.deliveries.rows, (f row).key = row.key ∧ Settles row (f row)) :
    Shift uuid s s' where
  drawn := hdrawn.ge
  rows row' hrow' := by
    rw [hrows] at hrow'
    obtain ⟨row, hrow, rfl⟩ := List.mem_map.mp hrow'
    exact .inl ⟨row, hrow, h row hrow⟩
  keeps row hrow _ := by
    rw [hrows]
    exact ⟨f row, List.mem_map_of_mem hrow, (h row hrow).1⟩
  owned howned row' hrow' := by
    rw [hrows] at hrow'
    obtain ⟨row, hrow, rfl⟩ := List.mem_map.mp hrow'
    obtain ⟨event, hevent, hid⟩ := howned row hrow
    unfold Owned
    rw [houtbox]
    exact ⟨event, hevent, hid.trans (congrArg Prod.fst (h row hrow).1).symm⟩

/-! ## Settlement -/

theorem key_of_heldBy {event : String} {channel : NotificationChannel} {claim : String}
    {row : Delivery} (h : row.heldBy event channel claim = true) :
    row.key = (event, channel) ∧ ∃ claimAt, row.stage = .claimed claim claimAt := by
  unfold Delivery.heldBy at h
  rw [Bool.and_eq_true, Bool.and_eq_true] at h
  obtain ⟨⟨hevent, hchannel⟩, hclaim⟩ := h
  refine ⟨Prod.ext (of_decide_eq_true hevent) (of_decide_eq_true hchannel), ?_⟩
  cases hstage : row.stage with
  | claimed token claimAt =>
      rw [hstage] at hclaim
      have htoken : token = claim := of_decide_eq_true hclaim
      exact ⟨claimAt, by rw [htoken]⟩
  | pending | delivered _ | failed =>
      rw [hstage] at hclaim
      cases hclaim

/-- What a settlement does to the row whose current claim it presents. -/
structure Settled (s s' : Notifications) (event : String) (channel : NotificationChannel)
    (claim : String) (outcome : Outcome) (result : Settlement) (row : Delivery) : Prop where
  mem : row ∈ s.deliveries.rows
  held : row.heldBy event channel claim = true
  outbox : s'.outbox = s.outbox
  drawn : s'.drawn = s.drawn
  rows : ∃ f : Delivery → Delivery, (f row).key = row.key ∧ Settles row (f row) ∧
    (result = .failed → (f row).stage = .failed) ∧
    s'.deliveries.rows = s.deliveries.rows.map fun old =>
      if old.key = row.key then f old else old
  failed : result = .failed → outcome ≠ .delivered ∧ isPermanent outcome row.attempts = true

theorem map_heldBy {s : Notifications} {event : String} {channel : NotificationChannel}
    {claim : String} {row : Delivery} (hrow : row ∈ s.deliveries.rows)
    (hheld : row.heldBy event channel claim = true) (f : Delivery → Delivery) :
    (s.deliveries.rows.map fun old =>
      if old.heldBy event channel claim = true then f old else old) =
    s.deliveries.rows.map fun old => if old.key = row.key then f old else old := by
  apply List.map_congr_left
  intro old hold
  by_cases hkey : old.key = row.key
  · have hsame := s.deliveries.eq_of_key hold hrow hkey
    subst hsame
    rw [if_pos hheld, if_pos rfl]
  · rw [if_neg hkey, if_neg]
    intro hp
    exact hkey ((key_of_heldBy hp).1.trans (key_of_heldBy hheld).1.symm)

/-- A settlement that returns presented the current claim of a row. -/
theorem settleClaim_effect (now : ℤ) (event : String) (channel : NotificationChannel)
    (claim : String) (outcome : Outcome) (error : Option String) (s : Notifications) :
    (settleClaim now event channel claim outcome error).Ensures s fun result s' =>
      ∃ row, Settled s s' event channel claim outcome result row := by
  have hheld : s.deliveries.rows.countP (Delivery.heldBy event channel claim) = 1 →
      ∃ row ∈ s.deliveries.rows, row.heldBy event channel claim = true := by
    intro hcount
    apply List.countP_pos_iff.mp
    omega
  unfold settleClaim
  rw [ensures_transaction, ensures_ite]
  constructor
  · intro _
    refine ensures_bind.mpr (ensures_update.mpr ?_)
    rw [ensures_bind, ensures_require]
    intro hcount
    rw [ensures_pure]
    obtain ⟨row, hrow, hp⟩ := hheld hcount
    obtain ⟨-, claimAt, hstage⟩ := key_of_heldBy hp
    refine ⟨row, ⟨hrow, hp, rfl, rfl, ⟨_, rfl, ?_, ?_, map_heldBy hrow hp _⟩, ?_⟩⟩
    · right
      simp [hstage, Stage.isOpen]
    · rintro ⟨⟩
    · rintro ⟨⟩
  · intro hnot
    rw [ensures_bind, ensures_read, ensures_bind, ensures_found]
    intro current hcurrent
    dsimp only [id] at hcurrent
    refine ensures_bind.mpr (ensures_update.mpr ?_)
    rw [ensures_bind, ensures_require]
    intro hcount
    rw [ensures_pure]
    obtain ⟨row, hrow, hp⟩ := hheld hcount
    obtain ⟨hkey, claimAt, hstage⟩ := key_of_heldBy hp
    obtain ⟨hmem, hcurrentKey⟩ := Table.get_eq_some.mp hcurrent
    have hsame : row = current := s.deliveries.eq_of_key hrow hmem (hkey.trans hcurrentKey.symm)
    subst hsame
    refine ⟨row, ⟨hrow, hp, rfl, rfl, ⟨_, rfl, ?_, ?_, map_heldBy hrow hp _⟩, ?_⟩⟩
    · right
      refine ⟨by simp [hstage, Stage.isOpen], rfl, ?_⟩
      by_cases hpermanent : isPermanent outcome row.attempts = true
      · left
        simp [hpermanent, Stage.isOpen]
      · right
        refine ⟨by simp [hpermanent], by simp [hstage], ?_⟩
        simp only [isPermanent, Bool.or_eq_true, decide_eq_true_eq, not_or] at hpermanent
        omega
    · intro hresult
      split_ifs at hresult with hpermanent
      simp [hpermanent]
    · intro hresult
      split_ifs at hresult with hpermanent
      exact ⟨hnot, hpermanent⟩

theorem Settled.shift {s s' : Notifications} {event : String} {channel : NotificationChannel}
    {claim : String} {outcome : Outcome} {result : Settlement} {row : Delivery}
    (h : Settled s s' event channel claim outcome result row) : Shift uuid s s' := by
  obtain ⟨f, hkey, hsettles, -, hrows⟩ := h.rows
  refine shift_map (f := fun old => if old.key = row.key then f old else old)
    h.outbox h.drawn hrows ?_
  intro old hold
  split_ifs with heq
  · obtain rfl := s.deliveries.eq_of_key hold h.mem heq
    exact ⟨hkey, hsettles⟩
  · exact ⟨rfl, .inl rfl⟩

theorem settle_effect (now : ℤ) (event : String) (channel : NotificationChannel)
    (claim : String) (outcome : Outcome) (error : Option String) (s : Notifications) :
    (settle now event channel claim outcome error).Ensures s fun result s' =>
      ∃ row, Settled s s' event channel claim outcome result row := by
  unfold settle
  rw [ensures_bind, ensures_require]
  exact fun _ => settleClaim_effect now event channel claim outcome error s

theorem settleNotification_effect (now : ℤ) (event : String) (channel : NotificationChannel)
    (claim : String) (outcome : Outcome) (error : Option String) (s : Notifications) :
    (settleNotification now event channel claim outcome error).Ensures s fun _ s' =>
      ∃ result row, Settled s s' event channel claim outcome result row := by
  unfold settleNotification
  rw [ensures_bind, ensures_require]
  intro _
  refine Ensures.discard (I := fun s' => ∃ result row,
    Settled s s' event channel claim outcome result row) ?_
  exact (settleClaim_effect now event channel claim outcome error s).mono fun result _ h =>
    ⟨result, h⟩

theorem discardNotificationBacklog_spec (channel : NotificationChannel) (before : ℤ)
    (s : Notifications) :
    (discardNotificationBacklog channel before).Ensures s fun _ s' => Shift uuid s s' := by
  unfold discardNotificationBacklog
  rw [ensures_bind, ensures_read]
  refine ensures_update.mpr (shift_map rfl rfl rfl ?_)
  intro row _
  split_ifs with hp
  · simp only [Bool.and_eq_true, decide_eq_true_eq] at hp
    refine ⟨rfl, .inr ?_⟩
    simp [hp.1.2, Stage.isOpen]
  · exact ⟨rfl, .inl rfl⟩

/-! ## Retention -/

/-- Some expired events are deleted, none of which has an open delivery. -/
structure Pruned (s s' : Notifications) (now : ℤ) (drop : String → Bool) : Prop where
  drawn : s'.drawn = s.drawn
  outbox : s'.outbox.rows = s.outbox.rows.filter fun event => !drop event.id
  deliveries : s'.deliveries.rows = s.deliveries.rows.filter fun row => !drop row.event
  expired : ∀ identifier, drop identifier = true → ∃ event ∈ s.outbox.rows,
    event.id = identifier ∧ event.expiresAt < now ∧
      ∀ row ∈ s.deliveries.rows, row.event = identifier → row.stage.isOpen = false

theorem Pruned.refl (s : Notifications) (now : ℤ) : Pruned s s now fun _ => false where
  drawn := rfl
  outbox := by simp
  deliveries := by simp
  expired _ h := by cases h

theorem mem_expiredRows {s : Notifications} {now limit : ℤ} {event : OutboxRow}
    (h : event ∈ expiredRows s now limit) :
    event ∈ s.outbox.rows ∧ event.expiresAt < now ∧
      ∀ row ∈ s.deliveries.rows, row.event = event.id → row.stage.isOpen = false := by
  have hmem : event ∈ s.outbox.rows.filter fun event => event.expiresAt < now &&
      !s.deliveries.rows.any fun row => row.event = event.id && row.stage.isOpen := by
    unfold expiredRows limited at h
    split_ifs at h
    · exact (List.mem_insertionSort _).mp h
    · exact (List.mem_insertionSort _).mp (List.mem_of_mem_take h)
  obtain ⟨hmem, hexpired⟩ := List.mem_filter.mp hmem
  simp only [Bool.and_eq_true, decide_eq_true_eq, Bool.not_eq_true', List.any_eq_false,
    not_and, Bool.not_eq_true] at hexpired
  exact ⟨hmem, hexpired.1, hexpired.2⟩

theorem deleteEvents_effect (events : List OutboxRow) (s : Notifications) :
    (forEach events deleteEvent).Ensures s fun _ s' => s'.drawn = s.drawn ∧
      s'.outbox.rows = (s.outbox.rows.filter fun row => !events.any fun event => row.id = event.id) ∧
      s'.deliveries.rows =
        s.deliveries.rows.filter fun row => !events.any fun event => row.event = event.id := by
  induction events generalizing s with
  | nil =>
      refine ensures_pure.mpr ⟨rfl, ?_, ?_⟩ <;> simp
  | cons event events ih =>
      refine ensures_bind.mpr ?_
      unfold deleteEvent
      rw [ensures_bind, ensures_write, ensures_write]
      refine (ih _).mono ?_
      rintro _ s' ⟨hdrawn, houtbox, hdeliveries⟩
      refine ⟨hdrawn, ?_, ?_⟩
      · rw [houtbox]
        change List.filter _ (List.filter _ _) = _
        rw [List.filter_filter]
        apply List.filter_congr
        intro row _
        simp only [List.any_cons, Bool.not_or, decide_not, Bool.and_comm]
      · rw [hdeliveries]
        change List.filter _ (List.filter _ _) = _
        rw [List.filter_filter]
        apply List.filter_congr
        intro row _
        simp only [List.any_cons, Bool.not_or, decide_not, Bool.and_comm]

theorem pruneExpired_effect (now limit : ℤ) (s : Notifications) :
    (pruneExpired now limit).Ensures s fun _ s' => ∃ drop, Pruned s s' now drop := by
  unfold pruneExpired
  rw [ensures_transaction, ensures_bind, ensures_read, ensures_bind]
  refine (deleteEvents_effect (expiredRows s now limit) s).mono ?_
  rintro _ s' ⟨hdrawn, houtbox, hdeliveries⟩
  rw [ensures_pure]
  refine ⟨fun identifier => (expiredRows s now limit).any fun event => identifier = event.id,
    hdrawn, houtbox, hdeliveries, ?_⟩
  intro identifier hdrop
  obtain ⟨event, hevent, hid⟩ := List.any_eq_true.mp hdrop
  have hsame : identifier = event.id := of_decide_eq_true hid
  subst hsame
  obtain ⟨hmem, hexpired, hclosed⟩ := mem_expiredRows hevent
  exact ⟨event, hmem, rfl, hexpired, hclosed⟩

theorem prune_effect (now limit : ℤ) (s : Notifications) :
    (prune now limit).Ensures s fun _ s' => ∃ drop, Pruned s s' now drop := by
  unfold prune
  rw [ensures_bind, ensures_read, ensures_ite]
  constructor
  · exact fun _ => pruneExpired_effect now limit s
  · intro _
    rw [ensures_pure]
    exact ⟨_, Pruned.refl s now⟩

theorem pruneNotifications_effect (now limit : ℤ) (s : Notifications) :
    (pruneNotifications now limit).Ensures s fun _ s' => ∃ drop, Pruned s s' now drop := by
  unfold pruneNotifications
  rw [ensures_bind, ensures_require]
  exact fun _ => pruneExpired_effect now limit s

theorem Pruned.mem_of_open {s s' : Notifications} {now : ℤ} {drop : String → Bool}
    (h : Pruned s s' now drop) {row : Delivery} (hrow : row ∈ s.deliveries.rows)
    (hopen : row.stage.isOpen = true) : row ∈ s'.deliveries.rows := by
  rw [h.deliveries, List.mem_filter]
  refine ⟨hrow, ?_⟩
  cases hdrop : drop row.event with
  | false => rfl
  | true =>
      obtain ⟨event, -, -, -, hclosed⟩ := h.expired _ hdrop
      rw [hclosed row hrow rfl] at hopen
      cases hopen

theorem Pruned.shift {s s' : Notifications} {now : ℤ} {drop : String → Bool}
    (h : Pruned s s' now drop) : Shift uuid s s' where
  drawn := h.drawn.ge
  rows row hrow := by
    rw [h.deliveries] at hrow
    exact .inl ⟨row, (List.mem_filter.mp hrow).1, rfl, .inl rfl⟩
  keeps row hrow hopen := ⟨row, h.mem_of_open hrow hopen, rfl⟩
  owned howned row hrow := by
    rw [h.deliveries, List.mem_filter] at hrow
    obtain ⟨event, hevent, hid⟩ := howned row hrow.1
    refine ⟨event, ?_, hid⟩
    rw [h.outbox, List.mem_filter, hid]
    exact ⟨hevent, hrow.2⟩

/-! ## New events -/

/-- A new event with its deliveries. -/
structure Inserted (uuid : ℕ → String) (s s' : Notifications) (row : OutboxRow)
    (channels : List NotificationChannel) (now : ℤ) : Prop where
  id : row.id = uuid s.drawn
  drawn : s'.drawn = s.drawn + 1
  fresh : ∀ old ∈ s.outbox.rows, old.id ≠ row.id
  outbox : s'.outbox.rows = s.outbox.rows ++ [row]
  deliveries : s'.deliveries.rows = s.deliveries.rows ++
    channels.map fun channel => ⟨row.id, channel, .pending, 0, now, none⟩

theorem insertDeliveries_effect (event : String) (now : ℤ) (channels : List NotificationChannel)
    (s : Notifications) :
    (forEach channels (insertDelivery event now)).Ensures s fun _ s' =>
      s'.drawn = s.drawn ∧ s'.outbox = s.outbox ∧ s'.deliveries.rows = s.deliveries.rows ++
        channels.map fun channel => ⟨event, channel, .pending, 0, now, none⟩ := by
  induction channels generalizing s with
  | nil => exact ensures_pure.mpr ⟨rfl, rfl, (List.append_nil _).symm⟩
  | cons channel channels ih =>
      refine ensures_bind.mpr ?_
      unfold insertDelivery
      rw [ensures_bind, ensures_read, ensures_bind, ensures_found]
      intro deliveries hinsert
      rw [ensures_write]
      obtain ⟨hrows, -⟩ := Table.insert_eq_some hinsert
      refine (ih _).mono ?_
      rintro _ s' ⟨hdrawn, houtbox, hdeliveries⟩
      refine ⟨hdrawn, houtbox, ?_⟩
      rw [hdeliveries, List.map_cons, List.append_cons]
      exact congrArg (· ++ _) hrows

theorem Inserted.shift (huuid : Function.Injective uuid) {s s' : Notifications} {row : OutboxRow}
    {channels : List NotificationChannel} {now : ℤ} (h : Inserted uuid s s' row channels now) :
    Shift uuid s s' where
  drawn := by
    have hdrawn := h.drawn
    omega
  rows new hnew := by
    have hdrawn := h.drawn
    rw [h.deliveries, List.mem_append] at hnew
    rcases hnew with hold | hnew
    · exact .inl ⟨new, hold, rfl, .inl rfl⟩
    · obtain ⟨channel, -, rfl⟩ := List.mem_map.mp hnew
      right
      refine ⟨?_, ⟨s.drawn, by omega, h.id⟩, rfl, rfl⟩
      rw [show (⟨row.id, channel, .pending, 0, now, none⟩ : Delivery).event = row.id from rfl, h.id]
      exact not_issued_next huuid s
  keeps old hold _ := by
    refine ⟨old, ?_, rfl⟩
    rw [h.deliveries]
    exact List.mem_append_left _ hold
  owned howned new hnew := by
    unfold Owned
    rw [h.outbox]
    rw [h.deliveries, List.mem_append] at hnew
    rcases hnew with hold | hnew
    · obtain ⟨event, hmem, heq⟩ := howned new hold
      exact ⟨event, List.mem_append_left _ hmem, heq⟩
    · obtain ⟨channel, -, rfl⟩ := List.mem_map.mp hnew
      exact ⟨row, by simp, rfl⟩

/-- The fields of an event that never change. -/
def stamp (row : OutboxRow) : String × ℤ × ℤ × String × String × ℤ :=
  (row.id, row.time, row.windowUntil, row.kind, row.dedupeKey, row.expiresAt)

/-- The events are changed outside their stamps only. -/
def Restamped (s s' : Notifications) : Prop :=
  s'.deliveries = s.deliveries ∧ s'.drawn = s.drawn ∧
    ∃ f : OutboxRow → OutboxRow, (∀ row, stamp (f row) = stamp row) ∧
      s'.outbox.rows = s.outbox.rows.map f

/-- What `publish` does: it counts an occurrence, or it adds one event. -/
def Published (uuid : ℕ → String) (s s' : Notifications) (now window : ℤ) (content : Content)
    (channels : List NotificationChannel) : Prop :=
  Restamped s s' ∨
  ((∀ event ∈ s.outbox.rows, event.dedupeKey = content.dedupeKey → event.windowUntil ≤ now) ∧
    ∃ row, Inserted uuid s s' row channels now ∧ stamp row =
      (uuid s.drawn, now, now + window * 1000, content.kind, content.dedupeKey,
        now + Outbox.notificationRetentionMs))

theorem Restamped.shift {s s' : Notifications} (h : Restamped s s') : Shift uuid s s' := by
  obtain ⟨hdeliveries, hdrawn, f, hf, houtbox⟩ := h
  exact
    { drawn := hdrawn.ge
      rows := fun row hrow => by
        rw [hdeliveries] at hrow
        exact .inl ⟨row, hrow, rfl, .inl rfl⟩
      keeps := fun row hrow _ => by
        rw [hdeliveries]
        exact ⟨row, hrow, rfl⟩
      owned := fun howned row hrow => by
        rw [hdeliveries] at hrow
        obtain ⟨event, hevent, hid⟩ := howned row hrow
        refine ⟨f event, ?_, (congrArg Prod.fst (hf event)).trans hid⟩
        rw [houtbox]
        exact List.mem_map_of_mem hevent }

theorem Published.shift (huuid : Function.Injective uuid) {s s' : Notifications} {now window : ℤ}
    {content : Content} {channels : List NotificationChannel}
    (h : Published uuid s s' now window content channels) : Shift uuid s s' := by
  rcases h with hrestamped | ⟨-, row, hinserted, -⟩
  · exact hrestamped.shift
  · exact hinserted.shift huuid

theorem restamped_modify (s : Notifications) (p : OutboxRow → Bool) (f : OutboxRow → OutboxRow)
    (hf : ∀ row, (f row).id = row.id) (hstamp : ∀ row, stamp (f row) = stamp row) :
    Restamped s { s with outbox := s.outbox.modify p f hf } := by
  refine ⟨rfl, rfl, fun row => if p row then f row else row, ?_, rfl⟩
  intro row
  dsimp only
  split_ifs
  · exact hstamp row
  · rfl

theorem latest_cases (rows : List OutboxRow) :
    (rows = [] ∧ Outbox.latest rows = none) ∨ ∃ row ∈ rows, Outbox.latest rows = some row := by
  induction rows using List.reverseRecOn with
  | nil => exact .inl ⟨rfl, rfl⟩
  | append_singleton rows last ih =>
      right
      unfold Outbox.latest at ih ⊢
      rw [List.foldl_append, List.foldl_cons, List.foldl_nil]
      rcases ih with ⟨-, hnone⟩ | ⟨row, hrow, hsome⟩
      · rw [hnone]
        exact ⟨last, by simp, rfl⟩
      · rw [hsome]
        dsimp only
        split_ifs
        · exact ⟨last, by simp, rfl⟩
        · exact ⟨row, by simp [hrow], rfl⟩

theorem publish_effect (now window : ℤ) (content : Content)
    (channels : List NotificationChannel) (s : Notifications) :
    (publish uuid now window content channels).Ensures s fun _ s' =>
      Published uuid s s' now window content channels := by
  unfold publish
  rw [ensures_bind, ensures_read]
  dsimp only [id]
  rcases latest_cases (s.outbox.rows.filter fun row =>
      row.dedupeKey = content.dedupeKey && row.windowUntil > now) with
    ⟨hempty, hnone⟩ | ⟨event, -, hsome⟩
  · unfold openEvent
    rw [hnone]
    dsimp only
    unfold insertEvent randomUUID
    simp only [ensures_bind, ensures_read, ensures_write, ensures_pure, ensures_found, id]
    intro outbox hinsert
    obtain ⟨hrows, hfresh⟩ := Table.insert_eq_some hinsert
    refine (insertDeliveries_effect _ now channels ⟨outbox, s.deliveries, s.drawn + 1⟩).mono ?_
    rintro _ s' ⟨hdrawn, houtbox, hdeliveries⟩
    refine .inr ⟨?_, _, ⟨rfl, hdrawn, hfresh, ?_, hdeliveries⟩, rfl⟩
    · intro event hevent hkey
      have hnot := List.filter_eq_nil_iff.mp hempty event hevent
      simp only [hkey, decide_true, Bool.true_and, decide_eq_true_eq] at hnot
      omega
    · rw [houtbox]
      exact hrows
  · unfold openEvent
    rw [hsome]
    dsimp only
    rw [ensures_bind, ensures_write, ensures_pure]
    exact .inl (restamped_modify s _ _ _ fun _ => rfl)

instance (allowed : List String) (entry : String × DetailValue) :
    Leaves id (checkField allowed entry) := by
  unfold checkField
  rcases entry with ⟨field, value⟩
  cases value <;> infer_instance

/-- `enqueue` publishes the content, in a window of its own or of the severity. -/
theorem enqueue_effect (now : ℤ) (content : Content) (channels : List NotificationChannel)
    (windowSeconds : Option ℤ) (s : Notifications) :
    (enqueue uuid now content channels windowSeconds).Ensures s fun _ s' =>
      Published uuid s s' now (windowSeconds.getD (Outbox.windowSeconds content.severity))
        content channels := by
  unfold enqueue
  apply ensures_check
  intro keys _
  apply ensures_check
  intro _ _
  apply ensures_check
  intro _ _
  apply ensures_check
  intro _ _
  apply ensures_check
  intro _ _
  apply ensures_check
  intro _ _
  exact publish_effect now _ content channels s

theorem emit_effect (now : ℤ) (content : Content) (s : Notifications) :
    (emit uuid now content).Ensures s fun _ s' =>
      Published uuid s s' now (Outbox.windowSeconds content.severity) content allChannels := by
  unfold emit
  apply ensures_check
  intro keys _
  apply ensures_check
  intro _ _
  apply ensures_check
  intro _ _
  apply ensures_check
  intro _ _
  apply ensures_check
  intro _ _
  apply ensures_check
  intro _ _
  rw [ensures_transaction]
  exact enqueue_effect now content allChannels none s

theorem notify_effect (ctx : Context) (kind : NotificationKind) (content : Content)
    (s : Notifications) :
    (notify uuid ctx kind content).Ensures s fun _ s' =>
      Published uuid s s' ctx.now (Outbox.windowSeconds content.severity)
        { content with kind := kind.text } ctx.channels := by
  unfold notify
  rw [ensures_transaction]
  apply ensures_check
  intro _ _
  exact publish_effect ctx.now _ _ ctx.channels s

theorem recordRefusalReason_effect (item : Claimed) (produced : String) (s : Notifications) :
    (recordRefusalReason item produced).Ensures s fun _ s' => Restamped s s' := by
  unfold recordRefusalReason
  rw [ensures_when]
  constructor
  · intro _
    rw [ensures_write]
    exact restamped_modify s _ _ _ fun _ => rfl
  · exact fun _ => ⟨rfl, rfl, fun row => row, fun _ => rfl, (List.map_id _).symm⟩

/-- A refused message becomes an event of its own. -/
theorem enqueueRedactionRefused_effect (now : ℤ) (item : Claimed)
    (channels : List NotificationChannel) (s : Notifications) :
    (enqueueRedactionRefused uuid now item channels).Ensures s fun _ s' =>
      ∃ content, content.kind = "notifier.redaction_refused" ∧
        Published uuid s s' now (Outbox.windowSeconds .critical) content channels := by
  unfold enqueueRedactionRefused
  rw [ensures_bind, ensures_transaction]
  refine (enqueue_effect now _ channels none s).mono ?_
  intro _ s' h
  rw [ensures_pure]
  exact ⟨_, rfl, h⟩

/-- An escalation is an event about the failed channel, in a window of six hours. -/
theorem escalate_effect (now : ℤ) (item : Claimed) (channels : List NotificationChannel)
    (error : Option String) (s : Notifications) :
    (escalate uuid now item channels error).Ensures s fun _ s' => s' = s ∨
      ∃ content, content.kind = channelFailed ∧
        content.dedupeKey = escalationKey item.channel ∧
        Published uuid s s' now escalationWindowSeconds content
          (channels.filter (· ≠ item.channel)) := by
  unfold escalate
  rw [ensures_ite]
  constructor
  · intro _
    rw [ensures_pure]
    exact .inl rfl
  · intro _
    rw [ensures_bind, ensures_transaction]
    refine (enqueue_effect now _ _ _ s).mono ?_
    intro _ s' h
    rw [ensures_pure]
    exact .inr ⟨_, rfl, rfl, h⟩

/-! ## Events -/

/-- An event that hands deliveries out. -/
def IsClaim : Event → Prop
  | .claim _ _ _ | .claimNotifications _ _ _ => True
  | _ => False

instance (now : ℤ) (event : String) (channel : NotificationChannel) (claim : String)
    (outcome : Outcome) (error : Option String) :
    Atomic (settleClaim now event channel claim outcome error) := by
  unfold settleClaim
  infer_instance

instance (now limit : ℤ) : Atomic (pruneExpired now limit) := by
  unfold pruneExpired
  infer_instance

instance (now limit leaseMs : ℤ) : Atomic (claimDue uuid now limit leaseMs) := by
  unfold claimDue
  infer_instance

instance (channel : NotificationChannel) (before : ℤ) :
    Total (discardNotificationBacklog channel before) :=
  ⟨fun _ => ⟨_, _, rfl⟩⟩

/-- A transaction that throws leaves the tables as they were. -/
theorem perform_atomic (uuid : ℕ → String) (e : Event) : Atomic (perform uuid e) := by
  cases e with
  | notify => unfold perform Notify.notify; infer_instance
  | emit => unfold perform Notify.emit; infer_instance
  | claim => unfold perform Notify.claim; infer_instance
  | claimNotifications => unfold perform Notify.claimNotifications; infer_instance
  | settle => unfold perform Notify.settle; infer_instance
  | settleNotification => unfold perform Notify.settleNotification; infer_instance
  | discardNotificationBacklog => unfold perform; infer_instance
  | prune => unfold perform Notify.prune; infer_instance
  | pruneNotifications => unfold perform Notify.pruneNotifications; infer_instance
  | recordRefusalReason => unfold perform Notify.recordRefusalReason; infer_instance
  | escalate => unfold perform Notify.escalate; infer_instance
  | enqueueRedactionRefused => unfold perform Notify.enqueueRedactionRefused; infer_instance

/-- Every event but a claim hands out nothing and shifts the tables. -/
theorem perform_shift (huuid : Function.Injective uuid) {e : Event} (he : ¬ IsClaim e)
    (s : Notifications) :
    (perform uuid e).Ensures s fun claims s' => claims = [] ∧ Shift uuid s s' := by
  have hdone : ∀ {α : Type} {c : NotifyCall α},
      (c.Ensures s fun _ s' => Shift uuid s s') →
      (c >>= fun _ => (pure [] : NotifyCall (List Claimed))).Ensures s fun claims s' =>
        claims = [] ∧ Shift uuid s s' := by
    intro α c hc
    rw [ensures_bind]
    refine hc.mono fun _ s' hshift => ?_
    rw [ensures_pure]
    exact ⟨rfl, hshift⟩
  cases e with
  | claim | claimNotifications => exact absurd trivial he
  | notify ctx kind content =>
      exact hdone ((notify_effect ctx kind content s).mono fun _ _ h => h.shift huuid)
  | emit now content => exact hdone ((emit_effect now content s).mono fun _ _ h => h.shift huuid)
  | settle now event channel claim outcome error =>
      apply hdone
      refine (settle_effect now event channel claim outcome error s).mono ?_
      rintro _ _ ⟨row, h⟩
      exact h.shift
  | settleNotification now event channel claim outcome error =>
      apply hdone
      refine (settleNotification_effect now event channel claim outcome error s).mono ?_
      rintro _ _ ⟨result, row, h⟩
      exact h.shift
  | discardNotificationBacklog channel before =>
      exact hdone (discardNotificationBacklog_spec channel before s)
  | prune now limit =>
      exact hdone ((prune_effect now limit s).mono fun _ _ ⟨_, h⟩ => h.shift)
  | pruneNotifications now limit =>
      exact hdone ((pruneNotifications_effect now limit s).mono fun _ _ ⟨_, h⟩ => h.shift)
  | recordRefusalReason item produced =>
      exact hdone ((recordRefusalReason_effect item produced s).mono fun _ _ h => h.shift)
  | escalate now item channels error =>
      apply hdone
      refine (escalate_effect now item channels error s).mono ?_
      rintro _ _ (rfl | ⟨content, -, -, h⟩)
      · exact Shift.refl _
      · exact h.shift huuid
  | enqueueRedactionRefused now item channels =>
      apply hdone
      refine (enqueueRedactionRefused_effect now item channels s).mono ?_
      rintro _ _ ⟨content, -, h⟩
      exact h.shift huuid

end Sbarbase.Notify.Proofs.Shifts
