import Sbarbase.Notify.Proofs.Deliveries
/-!
# Steps of the drain

What each step of the drain adds to the events, and what pays for it. A new
escalation is paid for with a delivery of another event that is settled for
good, unless it echoes an escalation: a delivery of an escalation fails for good
when the window of the channel it failed on has closed.
-/

namespace Sbarbase.Notify.Proofs.Effects

open Lib Lib.Call Control Shifts Deliveries

/-! ## What is counted -/

def isEscalation (row : OutboxRow) : Bool := row.kind = channelFailed

/-- The escalations written so far. -/
def escalations (s : Drain) : ℕ := s.created.countP isEscalation

/-- The event of the delivery is an escalation. -/
def ofEscalation (s : Notifications) (event : String) : Bool :=
  s.outbox.rows.any fun row => row.id = event && isEscalation row

/-- An open delivery of an event that is not an escalation. -/
def original (s : Notifications) (row : Delivery) : Bool :=
  row.stage.isOpen && !ofEscalation s row.event

def originals (s : Notifications) : ℕ := s.deliveries.rows.countP (original s)

/-- A delivery of an escalation fails for good, and the last escalation of its
channel is out of its window. -/
def isEcho (s : Drain) : DrainEvent → Bool
  | .item _ channels (.sent outcome _) millis =>
    match s.work with
    | [] => false
    | item :: _ =>
      item.channel ∈ channels && ofEscalation s.store item.event &&
      s.store.deliveries.rows.any (fun row =>
        row.heldBy item.event item.channel item.claim && outcome ≠ .delivered &&
          isPermanent outcome row.attempts) &&
      s.store.outbox.rows.all fun event =>
        event.dedupeKey ≠ escalationKey item.channel || event.windowUntil ≤ s.clock + millis
  | _ => false

/-- The deliveries an event may add besides those of escalations. -/
def allowance : DrainEvent → ℕ
  | .notify ctx _ _ => ctx.channels.length
  | .emit _ => allChannels.length
  | .item _ channels .refused _ => channels.length
  | _ => 0

def credit (s : Drain) (e : DrainEvent) : ℕ := allowance e + if isEcho s e then 1 else 0

/-- A producer does not write the drain's own escalations. -/
def Operator : DrainEvent → Prop
  | .emit content => content.kind ≠ channelFailed
  | _ => True

variable {uuid : ℕ → String} {s s' : Notifications}

/-! ## Effects on the outbox -/

theorem newEvents_of_map {new : List OutboxRow} {f : OutboxRow → OutboxRow}
    (hf : ∀ row, stamp (f row) = stamp row) (hrows : s'.outbox.rows = s.outbox.rows.map f ++ new)
    (hfresh : ∀ row ∈ new, ∀ old ∈ s.outbox.rows, old.id ≠ row.id) : newEvents s s' = new := by
  unfold newEvents
  rw [hrows, List.filter_append]
  have hold : (s.outbox.rows.map f).filter
      (fun row => s.outbox.rows.all fun old => old.id ≠ row.id) = [] := by
    rw [List.filter_eq_nil_iff]
    intro row hrow
    obtain ⟨old, hmem, rfl⟩ := List.mem_map.mp hrow
    have hid : (f old).id = old.id := congrArg Prod.fst (hf old)
    simp only [List.all_eq_true, decide_eq_true_eq, not_forall, not_not]
    exact ⟨old, hmem, hid.symm⟩
  have hnew : new.filter (fun row => s.outbox.rows.all fun old => old.id ≠ row.id) = new := by
    rw [List.filter_eq_self]
    intro row hrow
    simpa using hfresh row hrow
  rw [hold, hnew, List.nil_append]

/-- What an event of the drain does to the outbox, and the events it adds. -/
inductive Outboxes (uuid : ℕ → String) (now : ℤ) (s s' : Notifications) : List OutboxRow → Prop
  | same (f : OutboxRow → OutboxRow) (hf : ∀ row, stamp (f row) = stamp row)
      (hrows : s'.outbox.rows = s.outbox.rows.map f) : Outboxes uuid now s s' []
  | prune (drop : String → Bool) (h : Pruned s s' now drop) : Outboxes uuid now s s' []
  | add (f : OutboxRow → OutboxRow) (hf : ∀ row, stamp (f row) = stamp row) (row : OutboxRow)
      (window : ℤ) (hrows : s'.outbox.rows = s.outbox.rows.map f ++ [row])
      (hfresh : ∀ old ∈ s.outbox.rows, old.id ≠ row.id)
      (hopen : ∀ event ∈ s.outbox.rows, event.dedupeKey = row.dedupeKey →
        event.windowUntil ≤ row.time)
      (htime : now ≤ row.time) (hwindow : row.windowUntil = row.time + window * 1000)
      (hexpires : row.expiresAt = row.time + Outbox.notificationRetentionMs)
      (hshort : window ≤ escalationWindowSeconds)
      (hkind : row.kind = channelFailed → window = escalationWindowSeconds) :
      Outboxes uuid now s s' [row]

theorem Outboxes.newEvents_eq {now : ℤ} {new : List OutboxRow} (h : Outboxes uuid now s s' new) :
    newEvents s s' = new := by
  cases h with
  | same f hf hrows =>
      apply newEvents_of_map hf
      · rw [hrows, List.append_nil]
      · simp
  | prune drop h =>
      unfold newEvents
      rw [List.filter_eq_nil_iff]
      intro row hrow
      rw [h.outbox] at hrow
      simp only [List.all_eq_true, decide_eq_true_eq, not_forall, not_not]
      exact ⟨row, (List.mem_filter.mp hrow).1, rfl⟩
  | add f hf row window hrows hfresh =>
      apply newEvents_of_map hf hrows
      intro new hnew
      rw [List.mem_singleton.mp hnew]
      exact hfresh

theorem published_outboxes {t : Notifications} {before now window : ℤ} {content : Content}
    {channels : List NotificationChannel} {f : OutboxRow → OutboxRow}
    (hf : ∀ row, stamp (f row) = stamp row) (hrows : t.outbox.rows = s.outbox.rows.map f)
    (h : Published uuid t s' now window content channels) (hnow : before ≤ now)
    (hshort : window ≤ escalationWindowSeconds)
    (hkind : content.kind = channelFailed → window = escalationWindowSeconds) :
    ∃ new, Outboxes uuid before s s' new ∧ new.length ≤ 1 ∧ ∀ row ∈ new,
      row.kind = content.kind ∧ row.dedupeKey = content.dedupeKey ∧ row.time = now := by
  rcases h with ⟨-, -, g, hg, hrows'⟩ | ⟨hclosed, row, hinserted, hstamp⟩
  · refine ⟨[], .same (fun row => g (f row)) (fun row => (hg _).trans (hf row)) ?_,
      by simp, by simp⟩
    rw [hrows', hrows, List.map_map]
    rfl
  · simp only [stamp, Prod.mk.injEq] at hstamp
    obtain ⟨-, htime, hwindow, hrowKind, hkey, hexpires⟩ := hstamp
    have hold : ∀ event ∈ s.outbox.rows, ∃ event' ∈ t.outbox.rows, stamp event' = stamp event := by
      intro event hevent
      rw [hrows]
      exact ⟨f event, List.mem_map_of_mem hevent, hf event⟩
    refine ⟨[row], .add f hf row window ?_ ?_ ?_ ?_ ?_ ?_ hshort ?_, le_refl _,
      by simpa using ⟨hrowKind, hkey, htime⟩⟩
    · rw [hinserted.outbox, hrows]
    · intro event hevent
      obtain ⟨event', hevent', hsame⟩ := hold event hevent
      have hid : event'.id = event.id := congrArg Prod.fst hsame
      rw [← hid]
      exact hinserted.fresh event' hevent'
    · intro event hevent hsameKey
      obtain ⟨event', hevent', hsame⟩ := hold event hevent
      simp only [stamp, Prod.mk.injEq] at hsame
      have hle := hclosed event' hevent' (by rw [hsame.2.2.2.2.1, hsameKey, hkey])
      omega
    · omega
    · omega
    · omega
    · rw [hrowKind]
      exact hkind

/-! ## Effects on the open deliveries -/

theorem ofEscalation_of_stamps {f : OutboxRow → OutboxRow}
    (hf : ∀ row, stamp (f row) = stamp row) (hrows : s'.outbox.rows = s.outbox.rows.map f)
    (event : String) : ofEscalation s' event = ofEscalation s event := by
  unfold ofEscalation
  rw [hrows, List.any_map]
  congr 1
  funext row
  have hsame := hf row
  simp only [stamp, Prod.mk.injEq] at hsame
  simp only [Function.comp_apply, isEscalation, hsame.1, hsame.2.2.2.1]

theorem originals_restamped (h : Restamped s s') : originals s' = originals s := by
  obtain ⟨hrows, -, f, hf, houtbox⟩ := h
  unfold originals
  rw [hrows]
  apply List.countP_congr
  intro row _
  unfold original
  rw [ofEscalation_of_stamps hf houtbox]

/-- A list in which some element stops to count counts at least one less. -/
theorem countP_lt {α : Type} {l : List α} {p q : α → Bool} {a : α} (ha : a ∈ l) (hp : p a = true)
    (hq : q a = false) (h : ∀ b ∈ l, q b = true → p b = true) : l.countP q + 1 ≤ l.countP p := by
  induction l with
  | nil => cases ha
  | cons b l ih =>
      rw [List.countP_cons, List.countP_cons]
      rcases List.mem_cons.mp ha with rfl | hmem
      · have hle : l.countP q ≤ l.countP p :=
          List.countP_mono_left fun c hc => h c (List.mem_cons_of_mem _ hc)
        rw [if_pos hp, if_neg (by simp [hq])]
        omega
      · have hrest := ih hmem fun c hc => h c (List.mem_cons_of_mem _ hc)
        have hhead := h b List.mem_cons_self
        by_cases hqb : q b = true
        · rw [if_pos hqb, if_pos (hhead hqb)]
          omega
        · rw [if_neg hqb]
          omega

theorem originals_settled {event : String} {channel : NotificationChannel} {claim : String}
    {outcome : Outcome} {result : Settlement} {row : Delivery}
    (h : Settled s s' event channel claim outcome result row) :
    originals s' ≤ originals s ∧
      (result = .failed → ofEscalation s event = false → originals s' + 1 ≤ originals s) := by
  obtain ⟨f, hkey, hsettles, hfailed, hrows⟩ := h.rows
  have hevent : (f row).event = row.event := congrArg Prod.fst hkey
  have hsame : ∀ old, ofEscalation s' old = ofEscalation s old := by
    intro old
    unfold ofEscalation
    rw [h.outbox]
  have hopened : row.stage.isOpen = true := by
    obtain ⟨-, claimAt, hstage⟩ := key_of_heldBy h.held
    rw [hstage]
    rfl
  -- A row that counts afterwards is the same row, or the settled one, which was open.
  have hmono : ∀ old ∈ s.deliveries.rows,
      original s' (if old.key = row.key then f old else old) = true → original s old = true := by
    intro old hold hcounts
    split_ifs at hcounts with heq
    · obtain rfl := s.deliveries.eq_of_key hold h.mem heq
      unfold original at hcounts ⊢
      rw [hsame, hevent, Bool.and_eq_true] at hcounts
      rw [hopened, hcounts.2]
      rfl
    · unfold original at hcounts ⊢
      rw [hsame] at hcounts
      exact hcounts
  unfold originals
  rw [hrows, List.countP_map]
  refine ⟨List.countP_mono_left hmono, fun hresult hnot => ?_⟩
  have hrowEvent : row.event = event := congrArg Prod.fst (key_of_heldBy h.held).1
  refine countP_lt h.mem ?_ ?_ hmono
  · unfold original
    rw [hopened, hrowEvent, hnot]
    rfl
  · simp only [Function.comp_apply, if_true]
    unfold original
    rw [hfailed hresult]
    rfl

theorem originals_inserted (howned : ∀ row ∈ s.deliveries.rows, Owned s row) {row : OutboxRow}
    {channels : List NotificationChannel} {now : ℤ}
    (h : Inserted uuid s s' row channels now) :
    originals s' ≤ originals s + channels.length ∧
      (isEscalation row = true → originals s' ≤ originals s) := by
  have hold : s.deliveries.rows.countP (original s') = originals s := by
    apply List.countP_congr
    intro old hmem
    obtain ⟨event, hevent, hid⟩ := howned old hmem
    have hne : row.id ≠ old.event := by
      rw [← hid]
      exact (h.fresh event hevent).symm
    unfold original ofEscalation
    rw [h.outbox, List.any_append]
    simp [hne]
  unfold originals at hold ⊢
  rw [h.deliveries, List.countP_append, hold, List.countP_map]
  constructor
  · have hle := List.countP_le_length (p := original s' ∘ fun channel =>
      (⟨row.id, channel, .pending, 0, now, none⟩ : Delivery)) (l := channels)
    omega
  · intro hkind
    have hnone : channels.countP (original s' ∘ fun channel =>
        (⟨row.id, channel, .pending, 0, now, none⟩ : Delivery)) = 0 := by
      rw [List.countP_eq_zero]
      intro channel _
      unfold original ofEscalation
      simp [h.outbox, hkind, Stage.isOpen]
    omega

theorem originals_pruned {now : ℤ} {drop : String → Bool} (h : Pruned s s' now drop) :
    originals s' ≤ originals s := by
  unfold originals
  rw [h.deliveries, List.countP_filter]
  apply List.countP_mono_left
  intro row hrow hcounts
  rw [Bool.and_eq_true] at hcounts
  obtain ⟨hcounts, hkept⟩ := hcounts
  unfold original at hcounts ⊢
  rw [Bool.and_eq_true] at hcounts ⊢
  refine ⟨hcounts.1, ?_⟩
  rw [Bool.not_eq_true'] at hkept
  have hnot := hcounts.2
  unfold ofEscalation at hnot ⊢
  rw [Bool.not_eq_true', List.any_eq_false] at hnot ⊢
  intro event hevent hboth
  refine hnot event ?_ hboth
  rw [h.outbox, List.mem_filter]
  refine ⟨hevent, ?_⟩
  rw [Bool.and_eq_true, decide_eq_true_eq] at hboth
  rw [hboth.1, hkept]
  rfl

theorem originals_hand {strict : Prop} {d d' : Dispatch} (h : Hand uuid strict d d') :
    originals d'.store = originals d.store ∧ d'.store.outbox = d.store.outbox := by
  obtain ⟨item, row, hout, -⟩ := h
  refine ⟨?_, hout.outbox⟩
  obtain ⟨now, hrows⟩ := hout.rows
  unfold originals
  rw [hrows, List.countP_map]
  apply List.countP_congr
  intro old hold
  simp only [Function.comp_apply]
  split_ifs with hkey
  · obtain rfl := d.store.deliveries.eq_of_key hold hout.mem hkey
    unfold original ofEscalation
    rw [hout.outbox, hout.opened]
    rfl
  · unfold original ofEscalation
    rw [hout.outbox]

theorem originals_hands {strict : Prop} {d d' : Dispatch}
    (h : Relation.ReflTransGen (Hand uuid strict) d d') :
    originals d'.store = originals d.store ∧ d'.store.outbox = d.store.outbox := by
  induction h with
  | refl => exact ⟨rfl, rfl⟩
  | tail _ hhand ih =>
      obtain ⟨hcount, houtbox⟩ := originals_hand hhand
      exact ⟨hcount.trans ih.1, houtbox.trans ih.2⟩

/-! ## One item -/

instance (item : Claimed) (produced : String) : Total (recordRefusalReason item produced) := by
  unfold recordRefusalReason
  infer_instance

instance (now : ℤ) (event : String) (channel : NotificationChannel) (claim : String)
    (outcome : Outcome) (error : Option String) :
    Atomic (settle now event channel claim outcome error) := by
  unfold settle
  infer_instance

instance (now : ℤ) (item : Claimed) (channels : List NotificationChannel) :
    Atomic (enqueueRedactionRefused uuid now item channels) := by
  unfold enqueueRedactionRefused
  infer_instance

instance (now : ℤ) (item : Claimed) (channels : List NotificationChannel)
    (error : Option String) : Atomic (escalate uuid now item channels error) := by
  unfold escalate
  infer_instance

/-- What the settlement of an item is followed by. -/
inductive Followed (uuid : ℕ → String) (item : Claimed) (later : ℤ)
    (channels : List NotificationChannel) (answer : Answer) (outcome : Outcome)
    (result : Settlement) (s s' : Notifications) : Prop
  | nothing (h : s' = s)
  | refusal (content : Content) (hanswer : answer = .refused)
      (hkind : content.kind = "notifier.redaction_refused")
      (h : Published uuid s s' later (Outbox.windowSeconds .critical) content channels)
  | escalation (content : Content) (error : Option String) (hanswer : answer = .sent outcome error)
      (hchannel : item.channel ∈ channels) (hresult : result = .failed)
      (hkind : content.kind = channelFailed) (hkey : content.dedupeKey = escalationKey item.channel)
      (h : Published uuid s s' later escalationWindowSeconds content
        (channels.filter (· ≠ item.channel)))

/-- An item is settled or not, and a settlement may be followed by a new event. -/
theorem drainItem_effect (uuid : ℕ → String) (now later : ℤ) (item : Claimed) (produced : String)
    (channels : List NotificationChannel) (answer : Answer) (s : Notifications) :
    ∃ s₁, Restamped s s₁ ∧
      ((drainItem uuid now later item produced channels answer).after s = s₁ ∨
        ∃ outcome result row s₂,
          Settled s₁ s₂ item.event item.channel item.claim outcome result row ∧
          Followed uuid item later channels answer outcome result s₂
            ((drainItem uuid now later item produced channels answer).after s)) := by
  obtain ⟨_, s₁, hrecord⟩ := Total.returns (c := recordRefusalReason item produced) s
  refine ⟨s₁, recordRefusalReason_effect item produced s _ _ hrecord, ?_⟩
  unfold drainItem
  rw [after_bind_of_returns hrecord]
  by_cases hrendered : answer ≠ .unrendered
  swap
  · left
    apply after_bind_of_throws (e := "ValueError")
    rw [require_apply, if_neg hrendered]
  rw [after_bind_of_returns (a := ()) (returns_require.mpr ⟨hrendered, rfl⟩)]
  have hsettle : ∀ outcome error,
      (∃ e, settle now item.event item.channel item.claim outcome error s₁ = (.error e, s₁)) ∨
      ∃ result s₂, (settle now item.event item.channel item.claim outcome error).Returns
        s₁ result s₂ ∧ ∃ row, Settled s₁ s₂ item.event item.channel item.claim outcome result row := by
    intro outcome error
    rcases Atomic.outcome (c := settle now item.event item.channel item.claim outcome error)
      inferInstance s₁ with hthrows | ⟨result, s₂, hreturns⟩
    · exact .inl hthrows
    · exact .inr ⟨result, s₂, hreturns, settle_effect _ _ _ _ _ _ _ _ _ hreturns⟩
  by_cases hchannel : item.channel ∉ channels
  · rw [if_pos hchannel]
    unfold Call.discard
    rcases hsettle .failed (some "channel_disabled") with
      ⟨e, hthrows⟩ | ⟨result, s₂, hreturns, row, hsettled⟩
    · exact .inl (after_bind_of_throws hthrows)
    · rw [after_bind_of_returns hreturns]
      exact .inr ⟨.failed, result, row, s₂, hsettled, .nothing rfl⟩
  · rw [if_neg hchannel]
    cases answer with
    | unrendered | threw => exact .inl rfl
    | refused =>
        rcases hsettle .failed (some "redaction_refused") with
          ⟨e, hthrows⟩ | ⟨result, s₂, hreturns, row, hsettled⟩
        · exact .inl (after_bind_of_throws hthrows)
        · right
          refine ⟨.failed, result, row, s₂, hsettled, ?_⟩
          change Followed uuid item later channels .refused .failed result s₂
            (after (settle now item.event item.channel item.claim .failed
              (some "redaction_refused") >>= fun _ =>
                enqueueRedactionRefused uuid later item channels) s₁)
          rw [after_bind_of_returns hreturns]
          rcases Atomic.after_cases (c := enqueueRedactionRefused uuid later item channels)
            inferInstance s₂ with hsame | ⟨_, hdone⟩
          · exact .nothing hsame
          · obtain ⟨content, hkind, hpublished⟩ :=
              enqueueRedactionRefused_effect later item channels s₂ _ _ hdone
            exact .refusal content rfl hkind hpublished
    | sent outcome error =>
        rcases hsettle outcome error with ⟨e, hthrows⟩ | ⟨result, s₂, hreturns, row, hsettled⟩
        · exact .inl (after_bind_of_throws hthrows)
        · right
          refine ⟨outcome, result, row, s₂, hsettled, ?_⟩
          change Followed uuid item later channels (.sent outcome error) outcome result s₂
            (after (settle now item.event item.channel item.claim outcome error >>= fun state =>
              when (state = .failed ∧ error ≠ some "channel_disabled")
                (escalate uuid later item channels error).discard) s₁)
          rw [after_bind_of_returns hreturns]
          unfold when Call.discard
          split_ifs with hfailed
          · rcases Atomic.outcome (c := escalate uuid later item channels error) inferInstance s₂
              with ⟨e, hthrows⟩ | ⟨_, s₃, hdone⟩
            · exact .nothing (after_bind_of_throws hthrows)
            · rw [after_bind_of_returns hdone]
              rcases escalate_effect later item channels error s₂ _ _ hdone with
                hsame | ⟨content, hkind, hkey, hpublished⟩
              · exact .nothing hsame
              · exact .escalation content error rfl (not_not.mp hchannel) hfailed.1 hkind hkey
                  hpublished
          · exact .nothing rfl

/-! ## One step -/

def AllOwned (s : Notifications) : Prop := ∀ row ∈ s.deliveries.rows, Owned s row

/-- What a step of the drain adds to the events, and what pays for it. -/
structure Effect (uuid : ℕ → String) (s s' : Drain) (e : DrainEvent) (new : List OutboxRow) :
    Prop where
  outboxes : Outboxes uuid s.clock s.store s'.store new
  created : s'.created = s.created ++ new
  clock : s.clock ≤ s'.clock
  owned : AllOwned s'.store
  paid : new.countP isEscalation + originals s'.store ≤ originals s.store + credit s e

theorem published_originals (howned : AllOwned s) {now window : ℤ} {content : Content}
    {channels : List NotificationChannel}
    (h : Published uuid s s' now window content channels) :
    originals s' ≤ originals s + channels.length ∧
      (content.kind = channelFailed → originals s' ≤ originals s) := by
  rcases h with hrestamped | ⟨-, row, hinserted, hstamp⟩
  · rw [originals_restamped hrestamped]
    exact ⟨Nat.le_add_right _ _, fun _ => le_refl _⟩
  · simp only [stamp, Prod.mk.injEq] at hstamp
    obtain ⟨hle, hkind⟩ := originals_inserted howned hinserted
    refine ⟨hle, fun heq => hkind ?_⟩
    unfold isEscalation
    rw [hstamp.2.2.2.1, heq]
    rfl

theorem effect_of {s s' : Drain} {e : DrainEvent} {store : Notifications} {new : List OutboxRow}
    (hstore : s'.store = store) (hcreated : s'.created = s.created ++ newEvents s.store store)
    (hclock : s.clock ≤ s'.clock) (houtboxes : Outboxes uuid s.clock s.store store new)
    (howned : AllOwned store)
    (hpaid : new.countP isEscalation + originals store ≤ originals s.store + credit s e) :
    Effect uuid s s' e new where
  outboxes := by rwa [hstore]
  created := by rw [hcreated, houtboxes.newEvents_eq]
  clock := hclock
  owned := by rwa [hstore]
  paid := by rwa [hstore]

/-- A step that adds no event and leaves the outbox alone. -/
theorem effect_quiet {s s' : Drain} (houtbox : s'.store.outbox = s.store.outbox)
    (hcount : originals s'.store = originals s.store) (hcreated : s'.created = s.created)
    (hclock : s.clock ≤ s'.clock) (howned : AllOwned s'.store) (e : DrainEvent) :
    Effect uuid s s' e [] where
  outboxes := .same (fun row => row) (fun _ => rfl) (by rw [houtbox, List.map_id'])
  created := by rw [hcreated, List.append_nil]
  clock := hclock
  owned := howned
  paid := by
    rw [hcount]
    simp

/-- A call that throws adds nothing. -/
theorem effect_throws {s : Drain} (howned : AllOwned s.store) {α : Type} {c : NotifyCall α}
    {message : String} (h : c s.store = (.error message, s.store)) (e : DrainEvent) :
    Effect uuid s (s.call c) e [] := by
  have hafter : c.after s.store = s.store := by rw [after, h]
  apply effect_of hafter
  · exact congrArg (fun store => s.created ++ newEvents s.store store) hafter
  · exact le_refl s.clock
  · exact .same (fun row => row) (fun _ => rfl) (List.map_id' _).symm
  · exact howned
  · simp

/-- A producer's event is paid for by its allowance. -/
theorem effect_producer (huuid : Function.Injective uuid) {s : Drain} (howned : AllOwned s.store)
    {α : Type} {c : NotifyCall α} (hatomic : Atomic c) {content : Content}
    {channels : List NotificationChannel}
    (hc : c.Ensures s.store fun _ s' =>
      Published uuid s.store s' s.clock (Outbox.windowSeconds content.severity) content channels)
    (hkind : content.kind ≠ channelFailed) {e : DrainEvent} (he : channels.length ≤ allowance e) :
    ∃ new, Effect uuid s (s.call c) e new := by
  rcases hatomic.outcome s.store with ⟨message, hthrows⟩ | ⟨a, store, hreturns⟩
  · exact ⟨[], effect_throws howned hthrows e⟩
  · have hafter : c.after s.store = store := hreturns.after_eq
    have hpublished := hc a store hreturns
    obtain ⟨new, houtboxes, -, hkinds⟩ := published_outboxes (f := fun row => row)
      (fun _ => rfl) (List.map_id' _).symm hpublished (le_refl _)
      (by cases content.severity <;> decide) (fun h => absurd h hkind)
    have hnone : new.countP isEscalation = 0 := by
      rw [List.countP_eq_zero]
      intro row hrow
      unfold isEscalation
      rw [(hkinds row hrow).1, decide_eq_true_eq]
      exact hkind
    have hle := (published_originals howned hpublished).1
    refine ⟨new, effect_of hafter ?_ (le_refl s.clock) houtboxes
      ((hpublished.shift huuid).owned howned) ?_⟩
    · exact congrArg (fun store => s.created ++ newEvents s.store store) hafter
    · unfold credit
      omega

theorem hands_owned {strict : Prop} {d d' : Dispatch} (howned : AllOwned d.store)
    (h : Relation.ReflTransGen (Hand uuid strict) d d') : AllOwned d'.store := by
  induction h with
  | refl => exact howned
  | tail _ hhand ih =>
      obtain ⟨item, row, hout, -⟩ := hhand
      intro row' hrow'
      unfold Owned
      rw [hout.outbox]
      rcases handOut_row hout hrow' with ⟨-, hevent, -⟩ | ⟨-, hold⟩
      · rw [hevent]
        exact ih row hout.mem
      · exact ih row' hold

/-- A claim adds nothing. -/
theorem effect_claim {s : Drain} (howned : AllOwned s.store) (limit leaseMs : ℤ) :
    Effect uuid s ((drainMachine uuid).step s (.claim limit leaseMs)) (.claim limit leaseMs) [] := by
  by_cases hwork : s.work = []
  · have hhands := claim_hands uuid ⟨s.store, []⟩ (e := .claim s.clock limit leaseMs)
      trivial
    obtain ⟨hcount, houtbox⟩ := originals_hands hhands
    have hafter := hands_owned howned hhands
    have hstore : ((drainMachine uuid).step s (.claim limit leaseMs)).store =
        ((machine uuid).step ⟨s.store, []⟩ (.claim s.clock limit leaseMs)).store := by
      change (if s.work = [] then _ else s).store = _
      rw [if_pos hwork]
      rfl
    have hrest : ((drainMachine uuid).step s (.claim limit leaseMs)).created = s.created ∧
        ((drainMachine uuid).step s (.claim limit leaseMs)).clock = s.clock := by
      change (if s.work = [] then _ else s).created = _ ∧ (if s.work = [] then _ else s).clock = _
      rw [if_pos hwork]
      exact ⟨rfl, rfl⟩
    rw [← hstore] at hcount houtbox hafter
    exact effect_quiet houtbox hcount hrest.1 hrest.2.ge hafter _
  · have hstep : (drainMachine uuid).step s (.claim limit leaseMs) = s := by
      change (if s.work = [] then _ else s) = _
      rw [if_neg hwork]
    rw [hstep]
    exact effect_quiet rfl rfl rfl (le_refl _) howned _

theorem effect_prune (uuid : ℕ → String) {s : Drain} (howned : AllOwned s.store) (limit : ℤ) :
    Effect uuid s ((drainMachine uuid).step s (.prune limit)) (.prune limit) [] := by
  by_cases hwork : s.work = []
  · have hstep : (drainMachine uuid).step s (.prune limit) = s.call (prune s.clock limit) := by
      change (if s.work = [] then _ else s) = _
      rw [if_pos hwork]
    rw [hstep]
    have hatomic : Atomic (prune s.clock limit) := by
      unfold prune
      infer_instance
    rcases hatomic.outcome s.store with ⟨message, hthrows⟩ | ⟨count, store, hreturns⟩
    · exact effect_throws howned hthrows _
    · have hafter : (prune s.clock limit).after s.store = store := hreturns.after_eq
      obtain ⟨drop, hpruned⟩ := prune_effect s.clock limit s.store _ _ hreturns
      apply effect_of hafter
      · exact congrArg (fun store => s.created ++ newEvents s.store store) hafter
      · exact le_refl s.clock
      · exact .prune drop hpruned
      · exact (hpruned.shift : Shift uuid _ _).owned howned
      · have hle := originals_pruned hpruned
        simp only [List.countP_nil]
        omega
  · have hstep : (drainMachine uuid).step s (.prune limit) = s := by
      change (if s.work = [] then _ else s) = _
      rw [if_neg hwork]
    rw [hstep]
    exact effect_quiet rfl rfl rfl (le_refl _) howned _

/-- An item adds an event when its delivery is settled for good, and not otherwise. -/
theorem effect_item (huuid : Function.Injective uuid) {s : Drain} (howned : AllOwned s.store)
    (produced : String) (channels : List NotificationChannel) (answer : Answer) (millis : ℕ) :
    ∃ new, Effect uuid s ((drainMachine uuid).step s (.item produced channels answer millis))
      (.item produced channels answer millis) new := by
  cases hwork : s.work with
  | nil =>
      have hstep : (drainMachine uuid).step s (.item produced channels answer millis) = s := by
        simp only [drainMachine, hwork]
      rw [hstep]
      exact ⟨[], effect_quiet rfl rfl rfl (le_refl _) howned _⟩
  | cons item work =>
      have hstep : (drainMachine uuid).step s (.item produced channels answer millis) =
          { s.call (drainItem uuid s.clock (s.clock + millis) item produced channels answer) with
            work, clock := s.clock + millis } := by
        simp only [drainMachine, hwork]
      rw [hstep]
      have hclock : s.clock ≤ s.clock + millis := by omega
      obtain ⟨s₁, hrestamped, heffect⟩ :=
        drainItem_effect uuid s.clock (s.clock + millis) item produced channels answer
          s.store
      have hdone : ∀ store new,
          (drainItem uuid s.clock (s.clock + millis) item produced channels answer).after s.store =
            store →
          Outboxes uuid s.clock s.store store new → AllOwned store →
          new.countP isEscalation + originals store ≤ originals s.store +
            credit s (.item produced channels answer millis) →
          ∃ new, Effect uuid s
            { s.call (drainItem uuid s.clock (s.clock + millis) item produced channels answer) with
              work, clock := s.clock + millis } (.item produced channels answer millis) new := by
        intro store new hafter houtboxes howned' hpaid
        refine ⟨new, effect_of hafter ?_ hclock houtboxes howned' hpaid⟩
        exact congrArg (fun store => s.created ++ newEvents s.store store) hafter
      have hcount := originals_restamped hrestamped
      have howned₁ : AllOwned s₁ := (hrestamped.shift : Shift uuid _ _).owned howned
      obtain ⟨hdeliveries, -, f, hf, hrows⟩ := hrestamped
      rcases heffect with hafter | ⟨outcome, result, row, s₂, hsettled, hfollowed⟩
      · apply hdone s₁ [] hafter (.same f hf hrows) howned₁
        rw [hcount]
        simp
      obtain ⟨hle, hfailed⟩ := originals_settled hsettled
      have howned₂ : AllOwned s₂ := (hsettled.shift : Shift uuid _ _).owned howned₁
      have hrows₂ : s₂.outbox.rows = s.store.outbox.rows.map f := by rw [hsettled.outbox, hrows]
      rcases hfollowed with hafter | ⟨content, hanswer, hkind, hpublished⟩ |
        ⟨content, error, hanswer, hchannel, hresult, hkind, hkey, hpublished⟩
      · apply hdone s₂ [] hafter (.same f hf hrows₂) howned₂
        simp only [List.countP_nil]
        omega
      · obtain ⟨new, houtboxes, -, hkinds⟩ := published_outboxes hf hrows₂ hpublished hclock
          (by decide) (fun h => by rw [hkind] at h; exact absurd h (by decide))
        apply hdone _ new rfl houtboxes ((hpublished.shift huuid).owned howned₂)
        have hnone : new.countP isEscalation = 0 := by
          rw [List.countP_eq_zero]
          intro event hevent
          unfold isEscalation
          rw [(hkinds event hevent).1, hkind]
          decide
        have hle' := (published_originals howned₂ hpublished).1
        subst hanswer
        have hallowance : allowance (.item produced channels .refused millis) = channels.length :=
          rfl
        unfold credit
        omega
      · obtain ⟨new, houtboxes, hlength, hkinds⟩ := published_outboxes hf hrows₂ hpublished hclock
          (le_refl _) (fun _ => rfl)
        apply hdone _ new rfl houtboxes ((hpublished.shift huuid).owned howned₂)
        have hone : new.countP isEscalation ≤ 1 := List.countP_le_length.trans hlength
        have hle' := (published_originals howned₂ hpublished).2 hkind
        cases hof : ofEscalation s₁ item.event with
        | false =>
            -- The delivery that failed for good pays for its escalation.
            have hpays := hfailed hresult hof
            omega
        | true =>
            cases houtboxes with
            | same | prune =>
                simp only [List.countP_nil]
                omega
            | add g hg event window hrows' hfresh hopen =>
                -- A new escalation of an escalation is an echo.
                obtain ⟨-, heventKey, htime⟩ := hkinds event (List.mem_singleton_self event)
                have hecho : isEcho s (.item produced channels answer millis) = true := by
                  subst hanswer
                  unfold isEcho
                  rw [hwork]
                  dsimp only
                  have hescalation : ofEscalation s.store item.event = true := by
                    rw [← ofEscalation_of_stamps hf hrows]
                    exact hof
                  have hgood : s.store.deliveries.rows.any (fun row =>
                      row.heldBy item.event item.channel item.claim && outcome ≠ .delivered &&
                        isPermanent outcome row.attempts) = true := by
                    rw [List.any_eq_true]
                    refine ⟨row, hdeliveries ▸ hsettled.mem, ?_⟩
                    obtain ⟨houtcome, hpermanent⟩ := hsettled.failed hresult
                    rw [hsettled.held, hpermanent, decide_eq_true houtcome]
                    rfl
                  have hclosed : s.store.outbox.rows.all (fun event =>
                      event.dedupeKey ≠ escalationKey item.channel ||
                        event.windowUntil ≤ s.clock + millis) = true := by
                    rw [List.all_eq_true]
                    intro old hold
                    by_cases hsame : old.dedupeKey = escalationKey item.channel
                    · have hle := hopen old hold (by rw [hsame, heventKey, hkey])
                      rw [htime] at hle
                      rw [decide_eq_true hle, Bool.or_true]
                    · rw [decide_eq_true hsame, Bool.true_or]
                  rw [hescalation, hgood, hclosed, decide_eq_true hchannel]
                  rfl
                unfold credit
                rw [if_pos hecho]
                omega

theorem step_effect (huuid : Function.Injective uuid) {s : Drain} (howned : AllOwned s.store)
    {e : DrainEvent} (he : Operator e) :
    ∃ new, Effect uuid s ((drainMachine uuid).step s e) e new := by
  cases e with
  | wait millis =>
      have hclock : s.clock ≤ s.clock + millis := by omega
      refine ⟨[], ?_⟩
      apply effect_quiet
      · rfl
      · rfl
      · rfl
      · exact hclock
      · exact howned
  | notify ctx kind content =>
      have hkind : kind.text ≠ channelFailed := by cases kind <;> decide
      refine effect_producer huuid howned ?_
        (notify_effect { ctx with now := s.clock } kind content s.store) hkind (le_refl _)
      unfold Notify.notify
      infer_instance
  | emit content =>
      refine effect_producer huuid howned ?_ (emit_effect s.clock content s.store) he (le_refl _)
      unfold Notify.emit
      infer_instance
  | claim limit leaseMs => exact ⟨[], effect_claim howned limit leaseMs⟩
  | item produced channels answer millis =>
      exact effect_item huuid howned produced channels answer millis
  | prune limit => exact ⟨[], effect_prune uuid howned limit⟩

/-! ## Runs -/

/-- The events of one condition follow each other out of their windows. -/
structure Steady (s : Drain) : Prop where
  owned : AllOwned s.store
  live : ∀ a ∈ s.created, s.clock < a.windowUntil → ∃ row ∈ s.store.outbox.rows, stamp row = stamp a
  ordered : s.created.Pairwise fun a b => a.dedupeKey = b.dedupeKey → a.windowUntil ≤ b.time
  windows : ∀ a ∈ s.created, a.windowUntil ≤ a.expiresAt ∧
    (a.kind = channelFailed → a.windowUntil = a.time + escalationWindowSeconds * 1000)

/-- What an event of an outbox looks like after a step, unless it expired. -/
theorem outboxes_persists {now : ℤ} {new : List OutboxRow} (h : Outboxes uuid now s s' new)
    {row : OutboxRow} (hrow : row ∈ s.outbox.rows) (hexpires : now ≤ row.expiresAt) :
    ∃ row' ∈ s'.outbox.rows, stamp row' = stamp row := by
  cases h with
  | same f hf hrows =>
      refine ⟨f row, ?_, hf row⟩
      rw [hrows]
      exact List.mem_map_of_mem hrow
  | add f hf event window hrows =>
      refine ⟨f row, ?_, hf row⟩
      rw [hrows]
      exact List.mem_append_left _ (List.mem_map_of_mem hrow)
  | prune drop hpruned =>
      refine ⟨row, ?_, rfl⟩
      rw [hpruned.outbox, List.mem_filter]
      refine ⟨hrow, ?_⟩
      cases hdrop : drop row.id with
      | false => rfl
      | true =>
          obtain ⟨event, hevent, hid, hexpired, -⟩ := hpruned.expired _ hdrop
          obtain rfl := s.outbox.eq_of_key hevent hrow hid
          omega

theorem steady_of_effect {s s' : Drain} {e : DrainEvent} {new : List OutboxRow} (hs : Steady s)
    (h : Effect uuid s s' e new) : Steady s' := by
  have hclock := h.clock
  have hold : ∀ a ∈ s.created, s'.clock < a.windowUntil →
      ∃ row ∈ s'.store.outbox.rows, stamp row = stamp a := by
    intro a ha hlt
    obtain ⟨row, hrow, hsame⟩ := hs.live a ha (by omega)
    have hwindow := (hs.windows a ha).1
    have hexpires : row.expiresAt = a.expiresAt := by
      simp only [stamp, Prod.mk.injEq] at hsame
      exact hsame.2.2.2.2.2
    obtain ⟨row', hrow', hsame'⟩ := outboxes_persists h.outboxes hrow (by omega)
    exact ⟨row', hrow', hsame'.trans hsame⟩
  have hcreated := h.created
  cases h.outboxes with
  | same | prune =>
      rw [List.append_nil] at hcreated
      exact
        { owned := h.owned
          live := by rwa [hcreated]
          ordered := by
            rw [hcreated]
            exact hs.ordered
          windows := by
            rw [hcreated]
            exact hs.windows }
  | add f hf row window hrows hfresh hopen htime hwindow hexpires hshort hkind =>
      refine ⟨h.owned, ?_, ?_, ?_⟩
      · intro a ha hlt
        rw [hcreated, List.mem_append] at ha
        rcases ha with ha | ha
        · exact hold a ha hlt
        · rw [List.mem_singleton.mp ha]
          exact ⟨row, by rw [hrows]; simp, rfl⟩
      · rw [hcreated, List.pairwise_append]
        refine ⟨hs.ordered, List.pairwise_singleton _ _, ?_⟩
        intro a ha b hb hkey
        rw [List.mem_singleton.mp hb] at hkey ⊢
        by_contra hlt
        obtain ⟨event, hevent, hsame⟩ := hs.live a ha (by omega)
        simp only [stamp, Prod.mk.injEq] at hsame
        have hle := hopen event hevent (hsame.2.2.2.2.1.trans hkey)
        omega
      · intro a ha
        rw [hcreated, List.mem_append] at ha
        rcases ha with ha | ha
        · exact hs.windows a ha
        · rw [List.mem_singleton.mp ha]
          have hretention : escalationWindowSeconds * 1000 ≤ Outbox.notificationRetentionMs := by
            decide
          refine ⟨by omega, fun heq => ?_⟩
          rw [hwindow, hkind heq]

theorem steady_run (huuid : Function.Injective uuid) (events : List DrainEvent)
    (hevents : ∀ e ∈ events, Operator e) : Steady ((drainMachine uuid).run events) := by
  apply (drainMachine uuid).run_invariant_of (A := Operator) _ _ events hevents
  · exact
      { owned := by
          intro row hrow
          cases hrow
        live := by
          intro a ha
          cases ha
        ordered := List.Pairwise.nil
        windows := by
          intro a ha
          cases ha }
  · intro s e he hs
    obtain ⟨new, heffect⟩ := step_effect huuid hs.owned he
    exact steady_of_effect hs heffect

/-- Every escalation is paid for by the allowances and the echoes. -/
theorem escalations_le_total (huuid : Function.Injective uuid) {s : Drain}
    (howned : AllOwned s.store) (events : List DrainEvent) (hevents : ∀ e ∈ events, Operator e) :
    escalations ((drainMachine uuid).runFrom s events) ≤
      escalations s + originals s.store + (drainMachine uuid).total credit s events := by
  have hle := (drainMachine uuid).runFrom_le_total (I := fun s => AllOwned s.store) (A := Operator)
    (q := fun s => escalations s + originals s.store) (w := credit)
    (fun s e he hs => by
      obtain ⟨new, heffect⟩ := step_effect huuid hs he
      exact heffect.owned)
    (fun s e he hs => by
      obtain ⟨new, heffect⟩ := step_effect huuid hs he
      have hpaid := heffect.paid
      unfold escalations
      rw [heffect.created, List.countP_append]
      omega)
    howned events hevents
  omega

end Sbarbase.Notify.Proofs.Effects
