import Sbarbase.Lib.Lease
import Sbarbase.Notify.Proofs.Shifts
/-!
# Deliveries under several dispatchers

A delivery is a leased job. Every transaction makes at most one move of every
delivery, so what the moves of a job keep holds of every delivery in every run.
The hand-outs are counted when a delivery is claimed, and the limit is applied
when one is settled: it holds of the runs that take no exhausted delivery back
from an expired lease, and of no other.
-/

namespace Sbarbase.Notify.Proofs.Deliveries

open Lib Lib.Call Control Shifts

variable (uuid : ℕ → String)

/-! ## The job of a delivery -/

def stageState : Stage → LeaseState String
  | .pending => .waiting
  | .claimed claim _ => .held claim
  | .delivered _ | .failed => .closed

def leaseState (s : Notifications) (key : String × NotificationChannel) : LeaseState String :=
  match s.deliveries.get key with
  | some row => stageState row.stage
  | none => if Issued uuid s key.1 then .gone else .absent

/-- The hand-outs of a delivery, the latest first. -/
def handouts (s : Dispatch) (key : String × NotificationChannel) : List Claimed :=
  s.handed.filter fun item => item.key = key

def lease (s : Dispatch) (key : String × NotificationChannel) : Lease String :=
  ⟨leaseState uuid s.store key, (handouts s key).map Claimed.claim⟩

/-- What holds of the tables and the hand-outs in every run. -/
structure Coupled (s : Dispatch) : Prop where
  attempts : ∀ row ∈ s.store.deliveries.rows, row.attempts = (handouts s row.key).length
  issued : ∀ row ∈ s.store.deliveries.rows, Issued uuid s.store row.event
  owned : ∀ row ∈ s.store.deliveries.rows, Owned s.store row
  drawn : ∀ item ∈ s.handed, Issued uuid s.store item.claim
  distinct : (s.handed.map Claimed.claim).Nodup
  valid : ∀ key, (lease uuid s key).Valid maxAttempts

variable {uuid}

theorem leaseState_of_mem (uuid : ℕ → String) {s : Notifications} {row : Delivery} (hrow : row ∈ s.deliveries.rows) :
    leaseState uuid s row.key = stageState row.stage := by
  unfold leaseState
  rw [Table.get_eq_some.mpr ⟨hrow, rfl⟩]

theorem leaseState_of_not_issued {s : Notifications} {key : String × NotificationChannel}
    (hissued : ∀ row ∈ s.deliveries.rows, Issued uuid s row.event)
    (hkey : ¬ Issued uuid s key.1) : leaseState uuid s key = .absent := by
  have hnone : s.deliveries.get key = none := by
    rw [Table.get_eq_none]
    rintro row hrow rfl
    exact hkey (hissued row hrow)
  unfold leaseState
  rw [hnone]
  exact if_neg hkey

/-- A delivery that neither store has may be skipped by a new event. -/
theorem leaseState_of_none {s s' : Notifications} {key : String × NotificationChannel}
    (hget : s.deliveries.get key = none) (hget' : s'.deliveries.get key = none)
    (hdrawn : s.drawn ≤ s'.drawn) :
    leaseState uuid s key = leaseState uuid s' key ∨
      (leaseState uuid s key = .absent ∧ leaseState uuid s' key = .gone) := by
  unfold leaseState
  rw [hget, hget']
  by_cases hold : Issued uuid s key.1
  · left
    rw [if_pos hold, if_pos (issued_mono hdrawn hold)]
  · by_cases hnew : Issued uuid s' key.1
    · right
      exact ⟨if_neg hold, if_pos hnew⟩
    · left
      rw [if_neg hold, if_neg hnew]

theorem stageState_of_closed {stage : Stage} (h : stage.isOpen = false) :
    stageState stage = .closed := by
  cases stage with
  | pending | claimed => simp [Stage.isOpen] at h
  | delivered | failed => rfl

/-! ## Shifts -/

/-- A shift makes at most one move of every delivery. -/
theorem shift_move {s : Dispatch} {store : Notifications} (hs : Coupled uuid s)
    (h : Shift uuid s.store store) (strict : Prop) (key : String × NotificationChannel) :
    Relation.ReflTransGen (Lease.Move maxAttempts strict) (lease uuid s key)
      (lease uuid ⟨store, s.handed⟩ key) := by
  have hsingle : ∀ {a b : LeaseState String},
      leaseState uuid s.store key = a → leaseState uuid store key = b →
      Lease.Move maxAttempts strict ⟨a, (handouts s key).map Claimed.claim⟩
        ⟨b, (handouts s key).map Claimed.claim⟩ →
      Relation.ReflTransGen (Lease.Move maxAttempts strict) (lease uuid s key)
        (lease uuid ⟨store, s.handed⟩ key) := by
    intro a b ha hb hmove
    apply Relation.ReflTransGen.single
    unfold lease
    rw [ha, hb]
    exact hmove
  have hsame : leaseState uuid s.store key = leaseState uuid store key →
      Relation.ReflTransGen (Lease.Move maxAttempts strict) (lease uuid s key)
        (lease uuid ⟨store, s.handed⟩ key) := by
    intro heq
    unfold lease
    rw [heq]
    exact .refl
  cases hget' : store.deliveries.get key with
  | some row' =>
      obtain ⟨hrow', rfl⟩ := Table.get_eq_some.mp hget'
      have hafter := leaseState_of_mem uuid hrow'
      rcases h.rows row' hrow' with ⟨row, hrow, hkey, hsettles⟩ | hfresh
      · have hbefore := leaseState_of_mem uuid hrow
        rw [← hkey] at hbefore
        rcases hsettles with rfl | ⟨hopen, -, hclosed | ⟨hpending, hheld, hlt⟩⟩
        · exact hsame (hbefore.trans hafter.symm)
        · rw [stageState_of_closed hclosed] at hafter
          cases hstage : row.stage with
          | pending =>
              rw [hstage] at hbefore
              exact hsingle hbefore hafter (.discard _)
          | claimed claim claimAt =>
              rw [hstage] at hbefore
              exact hsingle hbefore hafter (.settle claim _)
          | delivered _ | failed =>
              rw [hstage] at hopen
              cases hopen
        · rw [hpending] at hafter
          cases hstage : row.stage with
          | pending => exact absurd hstage hheld
          | claimed claim claimAt =>
              rw [hstage] at hbefore
              apply hsingle hbefore hafter
              apply Lease.Move.retry
              rw [List.length_map, hkey, ← hs.attempts row hrow]
              exact hlt
          | delivered _ | failed =>
              rw [hstage] at hopen
              cases hopen
      · obtain ⟨hbefore, -, hstage, -⟩ := hfresh
        rw [hstage] at hafter
        exact hsingle (leaseState_of_not_issued hs.issued hbefore) hafter (.open _)
  | none =>
      cases hget : s.store.deliveries.get key with
      | some row =>
          obtain ⟨hrow, rfl⟩ := Table.get_eq_some.mp hget
          have hbefore := leaseState_of_mem uuid hrow
          have hissued : Issued uuid store row.key.1 := issued_mono h.drawn (hs.issued row hrow)
          have hafter : leaseState uuid store row.key = .gone := by
            unfold leaseState
            rw [hget']
            exact if_pos hissued
          cases hopen : row.stage.isOpen with
          | true =>
              obtain ⟨row', hrow', hkey⟩ := h.keeps row hrow hopen
              exact absurd hkey (Table.get_eq_none.mp hget' row' hrow')
          | false =>
              rw [stageState_of_closed hopen] at hbefore
              exact hsingle hbefore hafter (.remove _)
      | none =>
          rcases leaseState_of_none hget hget' h.drawn with heq | ⟨hbefore, hafter⟩
          · exact hsame heq
          · exact hsingle hbefore hafter (.skip _)

/-- A shift keeps what couples the tables and the hand-outs. -/
theorem shift_coupled {s : Dispatch} {store : Notifications} (hs : Coupled uuid s)
    (h : Shift uuid s.store store) : Coupled uuid ⟨store, s.handed⟩ where
  attempts row' hrow' := by
    rcases h.rows row' hrow' with ⟨row, hrow, hkey, hsettles⟩ | ⟨hnot, -, -, hattempts⟩
    · rw [hkey]
      rcases hsettles with rfl | ⟨-, hattempts, -⟩
      · exact hs.attempts _ hrow
      · exact hattempts.trans (hs.attempts row hrow)
    · -- A delivery that was absent was never handed out.
      have hvalid := hs.valid row'.key
      unfold Lease.Valid lease at hvalid
      rw [leaseState_of_not_issued hs.issued hnot] at hvalid
      have hnil : handouts s row'.key = [] := List.map_eq_nil_iff.mp hvalid
      change row'.attempts = (handouts s row'.key).length
      rw [hnil, hattempts]
      rfl
  issued row' hrow' := by
    rcases h.rows row' hrow' with ⟨row, hrow, hkey, -⟩ | ⟨-, hissued, -⟩
    · have hevent : row'.event = row.event := congrArg Prod.fst hkey
      rw [hevent]
      exact issued_mono h.drawn (hs.issued row hrow)
    · exact hissued
  owned := h.owned hs.owned
  drawn item hitem := issued_mono h.drawn (hs.drawn item hitem)
  distinct := hs.distinct
  valid key := Lease.moves_valid (by decide) (shift_move hs h False key) (hs.valid key)

/-! ## Hand-outs -/

section

variable {strict : Prop} {s s' : Dispatch} {item : Claimed} {row : Delivery}

/-- What a row of the tables after a hand-out was before. -/
theorem handOut_row (h : HandOut uuid strict s.store item s'.store row) {row' : Delivery}
    (hrow' : row' ∈ s'.store.deliveries.rows) :
    (row'.key = row.key ∧ row'.event = row.event ∧ row'.attempts = row.attempts + 1 ∧
      ∃ now, row'.stage = .claimed item.claim now) ∨
    (row'.key ≠ row.key ∧ row' ∈ s.store.deliveries.rows) := by
  obtain ⟨now, hrows⟩ := h.rows
  rw [hrows] at hrow'
  obtain ⟨old, hold, rfl⟩ := List.mem_map.mp hrow'
  split_ifs with hkey
  · have hsame : old = row := s.store.deliveries.eq_of_key hold h.mem hkey
    subst hsame
    exact .inl ⟨rfl, rfl, rfl, now, rfl⟩
  · exact .inr ⟨hkey, hold⟩

/-- The rows with other keys stay. -/
theorem handOut_persists (h : HandOut uuid strict s.store item s'.store row) {old : Delivery}
    (hold : old ∈ s.store.deliveries.rows) :
    ∃ row' ∈ s'.store.deliveries.rows, row'.key = old.key ∧
      (old.key ≠ row.key → row' = old) := by
  obtain ⟨now, hrows⟩ := h.rows
  rw [hrows]
  refine ⟨_, List.mem_map_of_mem hold, ?_, ?_⟩
  · split_ifs <;> rfl
  · exact fun hne => if_neg hne

theorem handOut_other (h : HandOut uuid strict s.store item s'.store row)
    {key : String × NotificationChannel} (hkey : key ≠ row.key) :
    leaseState uuid s.store key = leaseState uuid s'.store key ∨
      (leaseState uuid s.store key = .absent ∧ leaseState uuid s'.store key = .gone) := by
  cases hget : s.store.deliveries.get key with
  | some old =>
      obtain ⟨hold, rfl⟩ := Table.get_eq_some.mp hget
      obtain ⟨row', hrow', -, hsame⟩ := handOut_persists h hold
      obtain rfl := hsame hkey
      left
      rw [leaseState_of_mem uuid hrow', leaseState_of_mem uuid hold]
  | none =>
      have hget' : s'.store.deliveries.get key = none := by
        rw [Table.get_eq_none] at hget ⊢
        intro row' hrow' heq
        rcases handOut_row h hrow' with ⟨hsame, -⟩ | ⟨-, hold⟩
        · exact hkey (heq.symm.trans hsame)
        · exact hget row' hold heq
      have hdrawn := h.drawn
      exact leaseState_of_none hget hget' (by omega)

theorem handouts_cons (hhanded : s'.handed = item :: s.handed)
    (key : String × NotificationChannel) :
    handouts s' key = if item.key = key then item :: handouts s key else handouts s key := by
  unfold handouts
  rw [hhanded, List.filter_cons]
  simp only [decide_eq_true_eq]

/-- A hand-out makes at most one move of every delivery. -/
theorem handOut_move (hs : Coupled uuid s) (h : HandOut uuid strict s.store item s'.store row)
    (hhanded : s'.handed = item :: s.handed) (key : String × NotificationChannel) :
    Relation.ReflTransGen (Lease.Move maxAttempts strict) (lease uuid s key)
      (lease uuid s' key) := by
  by_cases hkey : key = row.key
  · subst hkey
    apply Relation.ReflTransGen.single
    obtain ⟨now, hrows⟩ := h.rows
    have hafter : leaseState uuid s'.store row.key = .held item.claim := by
      obtain ⟨row', hrow', hsame, -⟩ := handOut_persists h h.mem
      rcases handOut_row h hrow' with ⟨-, -, -, now', hstage⟩ | ⟨hne, -⟩
      · rw [← hsame, leaseState_of_mem uuid hrow', hstage]
        rfl
      · exact absurd hsame hne
    have htokens : (handouts s' row.key).map Claimed.claim =
        item.claim :: (handouts s row.key).map Claimed.claim := by
      rw [handouts_cons hhanded, if_pos h.key]
      rfl
    unfold lease
    rw [hafter, htokens, leaseState_of_mem uuid h.mem]
    cases hstage : row.stage with
    | pending => exact .hand _ _
    | claimed claim claimAt =>
        apply Lease.Move.reclaim
        intro hstrict
        rw [List.length_map, ← hs.attempts row h.mem]
        rcases h.strict hstrict with hpending | hlt
        · rw [hstage] at hpending
          cases hpending
        · exact hlt
    | delivered _ | failed =>
        have hopen := h.opened
        rw [hstage] at hopen
        cases hopen
  · have htokens : handouts s' key = handouts s key := by
      rw [handouts_cons hhanded, if_neg]
      intro heq
      exact hkey (heq.symm.trans h.key)
    unfold lease
    rw [htokens]
    rcases handOut_other h hkey with heq | ⟨hbefore, hafter⟩
    · rw [heq]
    · rw [hbefore, hafter]
      exact .single (.skip _)

theorem handOut_coupled (huuid : Function.Injective uuid) (hs : Coupled uuid s)
    (h : HandOut uuid strict s.store item s'.store row)
    (hhanded : s'.handed = item :: s.handed) : Coupled uuid s' where
  attempts row' hrow' := by
    rw [handouts_cons hhanded]
    rcases handOut_row h hrow' with ⟨hkey, -, hattempts, -⟩ | ⟨hkey, hold⟩
    · rw [hkey, if_pos h.key, List.length_cons, ← hs.attempts row h.mem, hattempts]
    · rw [if_neg (fun heq => hkey (heq.symm.trans h.key)), ← hs.attempts row' hold]
  issued row' hrow' := by
    have hdrawn : s.store.drawn ≤ s'.store.drawn := by
      rw [h.drawn]
      omega
    apply issued_mono hdrawn
    rcases handOut_row h hrow' with ⟨-, hevent, -⟩ | ⟨-, hold⟩
    · rw [hevent]
      exact hs.issued row h.mem
    · exact hs.issued row' hold
  owned row' hrow' := by
    unfold Owned
    rw [h.outbox]
    rcases handOut_row h hrow' with ⟨-, hevent, -⟩ | ⟨-, hold⟩
    · rw [hevent]
      exact hs.owned row h.mem
    · exact hs.owned row' hold
  drawn other hother := by
    have hdrawn := h.drawn
    rw [hhanded] at hother
    rcases List.mem_cons.mp hother with rfl | hmem
    · exact ⟨s.store.drawn, by omega, h.claim⟩
    · exact issued_mono (by omega) (hs.drawn other hmem)
  distinct := by
    rw [hhanded, List.map_cons, List.nodup_cons]
    refine ⟨?_, hs.distinct⟩
    rintro hmem
    obtain ⟨other, hother, hclaim⟩ := List.mem_map.mp hmem
    apply not_issued_next huuid s.store
    rw [← h.claim, ← hclaim]
    exact hs.drawn other hother
  valid key := Lease.moves_valid (by decide) (handOut_move hs h hhanded key) (hs.valid key)

end

/-! ## Claims -/

/-- The rows a claim selects. -/
theorem mem_dueRows {s : Notifications} {now limit leaseMs : ℤ} {pair : Delivery × OutboxRow}
    (h : pair ∈ dueRows s now limit leaseMs) :
    pair.1 ∈ s.deliveries.rows ∧ pair.1.due now leaseMs = true := by
  have hmem : pair ∈ s.deliveries.rows.filterMap fun row =>
      if row.due now leaseMs then (s.outbox.get row.event).map (row, ·) else none := by
    unfold dueRows limited at h
    split_ifs at h
    · exact (List.mem_insertionSort _).mp h
    · exact (List.mem_insertionSort _).mp (List.mem_of_mem_take h)
  obtain ⟨row, hrow, hpair⟩ := List.mem_filterMap.mp hmem
  split_ifs at hpair with hdue
  obtain ⟨event, -, rfl⟩ := Option.map_eq_some_iff.mp hpair
  exact ⟨hrow, hdue⟩

theorem dueRows_nodup (s : Notifications) (now limit leaseMs : ℤ) :
    ((dueRows s now limit leaseMs).map fun pair => pair.1.key).Nodup := by
  have hdistinct : s.deliveries.rows.Pairwise fun a b => a.key ≠ b.key :=
    List.pairwise_map.mp s.deliveries.distinct
  have hall : ((s.deliveries.rows.filterMap fun row =>
      if row.due now leaseMs then (s.outbox.get row.event).map (row, ·)
      else none).map fun pair => pair.1.key).Nodup := by
    apply List.pairwise_map.mpr
    apply List.pairwise_filterMap.mpr
    refine hdistinct.imp ?_
    intro a b hne pair hpair pair' hpair'
    split_ifs at hpair hpair'
    obtain ⟨event, -, rfl⟩ := Option.map_eq_some_iff.mp hpair
    obtain ⟨event', -, rfl⟩ := Option.map_eq_some_iff.mp hpair'
    exact hne
  have hsorted := (((List.perm_insertionSort (fun a b : Delivery × OutboxRow =>
    a.2.time ≤ b.2.time) _).map fun pair => pair.1.key).nodup_iff).mpr hall
  unfold dueRows limited
  split_ifs
  · exact hsorted
  · exact hsorted.sublist ((List.take_sublist _ _).map _)

theorem open_of_due {row : Delivery} {now leaseMs : ℤ} (h : row.due now leaseMs = true) :
    row.stage.isOpen = true := by
  unfold Delivery.due at h
  cases hstage : row.stage with
  | pending | claimed => rfl
  | delivered | failed => simp [hstage] at h

/-- The dispatcher gets every row it asks for. -/
theorem claimRows_spec (uuid : ℕ → String) (strict : Prop) (now : ℤ) (rows : List (Delivery × OutboxRow))
    (s : Dispatch)
    (hrows : ∀ pair ∈ rows, pair.1 ∈ s.store.deliveries.rows ∧ pair.1.stage.isOpen = true ∧
      (strict → pair.1.stage = .pending ∨ pair.1.attempts < maxAttempts))
    (hdistinct : (rows.map fun pair => pair.1.key).Nodup) :
    ∃ claims store, (claimRows uuid now rows).Returns s.store claims store ∧
      claims.map Claimed.key = rows.map (fun pair => pair.1.key) ∧
      Relation.ReflTransGen (Hand uuid strict) s ⟨store, claims.reverse ++ s.handed⟩ := by
  induction rows generalizing s with
  | nil => exact ⟨[], s.store, rfl, rfl, .refl⟩
  | cons pair rows ih =>
      obtain ⟨delivery, event⟩ := pair
      obtain ⟨hmem, hopen, hstrict⟩ := hrows _ List.mem_cons_self
      obtain ⟨hnew, hdistinct⟩ := List.nodup_cons.mp hdistinct
      let item : Claimed :=
        ⟨delivery.event, delivery.channel, uuid s.store.drawn, delivery.attempts + 1, event⟩
      let next : Notifications :=
        { s.store with
          drawn := s.store.drawn + 1
          deliveries := s.store.deliveries.modify
            (fun row => row.key = delivery.key && row.stage.isOpen)
            (fun row => { row with
              stage := .claimed item.claim now, attempts := row.attempts + 1 }) fun _ => rfl }
      have hcount : s.store.deliveries.rows.countP
          (fun row => row.key = delivery.key && row.stage.isOpen) = 1 := by
        apply Table.countP_eq_one _ hmem
        · simp [hopen]
        · intro old _ hp
          simp only [Bool.and_eq_true, decide_eq_true_eq] at hp
          exact hp.1
      have hhand : HandOut uuid strict s.store item next delivery :=
        { mem := hmem, key := rfl, opened := hopen, strict := hstrict, claim := rfl
          drawn := rfl, outbox := rfl
          rows := by
            refine ⟨now, List.map_congr_left fun old hold => ?_⟩
            by_cases hkey : old.key = delivery.key
            · have hsame := s.store.deliveries.eq_of_key hold hmem hkey
              subst hsame
              simp [hopen]
            · simp [hkey] }
      have hhand' : HandOut uuid strict s.store item (Dispatch.mk next (item :: s.handed)).store
          delivery := hhand
      obtain ⟨claims, store, hreturns, hkeys, hturns⟩ :=
        ih ⟨next, item :: s.handed⟩ (by
          intro pair hpair
          obtain ⟨hrow, hrest⟩ := hrows pair (List.mem_cons_of_mem _ hpair)
          obtain ⟨row', hrow', hkey, hsame⟩ :=
            handOut_persists hhand' hrow
          have hne : pair.1.key ≠ delivery.key := by
            intro heq
            exact hnew (List.mem_map.mpr ⟨pair, hpair, heq⟩)
          rw [hsame hne] at hrow'
          exact ⟨hrow', hrest⟩) hdistinct
      refine ⟨item :: claims, store, ?_, ?_, ?_⟩
      · unfold claimRows randomUUID update
        simp only [returns_bind, returns_read, returns_write, returns_pure, id]
        refine ⟨_, _, ⟨_, _, ⟨rfl, rfl⟩, (), _, rfl, rfl, rfl⟩, _, _,
          ⟨_, _, ⟨rfl, rfl⟩, (), _, rfl, rfl, rfl⟩, ?_⟩
        rw [if_pos hcount]
        simp only [returns_bind, returns_pure]
        exact ⟨claims, store, hreturns, rfl, rfl⟩
      · rw [List.map_cons, List.map_cons, hkeys]
        rfl
      · rw [List.reverse_cons, List.append_assoc]
        exact .head ⟨item, delivery, hhand, rfl⟩ hturns

/-- The claim selects a delivery whose lease ran out in its last attempt. -/
def SelectsExhausted (s : Dispatch) (now limit leaseMs : ℤ) : Prop :=
  ∃ pair ∈ dueRows s.store now limit leaseMs,
    pair.1.stage ≠ .pending ∧ maxAttempts ≤ pair.1.attempts

/-- The event takes such a delivery back and hands it out once more. -/
def TakesExhausted (s : Dispatch) : Event → Prop
  | .claim now limit leaseMs => SelectsExhausted s now limit leaseMs
  | .claimNotifications now limit leaseMs =>
    (1 ≤ limit ∧ limit ≤ 200 ∧ 1000 ≤ leaseMs) ∧ SelectsExhausted s now limit leaseMs
  | _ => False

/-- A claim that is not refused hands out every row it selects. -/
theorem claimDue_spec (uuid : ℕ → String) (s : Dispatch) (now limit leaseMs : ℤ) :
    ∃ claims store, (claimDue uuid now limit leaseMs).Returns s.store claims store ∧
      claims.map Claimed.key = (dueRows s.store now limit leaseMs).map (fun pair => pair.1.key) ∧
      Relation.ReflTransGen (Hand uuid (¬ SelectsExhausted s now limit leaseMs)) s
        ⟨store, claims.reverse ++ s.handed⟩ := by
  obtain ⟨claims, store, hreturns, hkeys, hhands⟩ :=
    claimRows_spec uuid (¬ SelectsExhausted s now limit leaseMs) now
      (dueRows s.store now limit leaseMs) s (by
        intro pair hpair
        obtain ⟨hmem, hdue⟩ := mem_dueRows hpair
        refine ⟨hmem, open_of_due hdue, fun hnone => ?_⟩
        by_contra hcontra
        rw [not_or, not_lt] at hcontra
        exact hnone ⟨pair, hpair, hcontra⟩) (dueRows_nodup _ _ _ _)
  refine ⟨claims, store, ?_, hkeys, hhands⟩
  unfold claimDue
  rw [returns_transaction, returns_bind]
  exact ⟨s.store, s.store, rfl, hreturns⟩

theorem step_eq (s : Dispatch) (e : Event) : (machine uuid).step s e =
    ⟨(perform uuid e s.store).2, (handedBy (perform uuid e s.store).1).reverse ++ s.handed⟩ :=
  rfl

theorem step_of_returns {s : Dispatch} {e : Event} {claims : List Claimed}
    {store : Notifications} (h : (perform uuid e).Returns s.store claims store) :
    (machine uuid).step s e = ⟨store, claims.reverse ++ s.handed⟩ := by
  rw [step_eq, h]
  rfl

theorem step_of_throws {s : Dispatch} {e : Event} {message : String}
    (h : perform uuid e s.store = (.error message, s.store)) :
    (machine uuid).step s e = s := by
  rw [step_eq, h]
  rfl

/-- What a claim does: nothing, or the transaction. -/
theorem step_claim (uuid : ℕ → String) (s : Dispatch) {e : Event} (he : IsClaim e) :
    ((machine uuid).step s e = s ∧ ¬ TakesExhausted s e) ∨
    ∃ now limit leaseMs claims store,
      (claimDue uuid now limit leaseMs).Returns s.store claims store ∧
      (machine uuid).step s e = ⟨store, claims.reverse ++ s.handed⟩ ∧
      (TakesExhausted s e ↔ SelectsExhausted s now limit leaseMs) := by
  cases e with
  | claim now limit leaseMs =>
      by_cases hdue : s.store.deliveries.rows.any (Delivery.due now leaseMs) = true
      · right
        obtain ⟨claims, store, hreturns, -⟩ := claimDue_spec uuid s now limit leaseMs
        refine ⟨now, limit, leaseMs, claims, store, hreturns, step_of_returns ?_, Iff.rfl⟩
        change (Notify.claim uuid now limit leaseMs).Returns s.store claims store
        unfold Notify.claim
        rw [returns_bind]
        refine ⟨s.store, s.store, rfl, ?_⟩
        rw [if_pos hdue]
        exact hreturns
      · left
        constructor
        · have hreturns : (Notify.claim uuid now limit leaseMs).Returns s.store [] s.store := by
            unfold Notify.claim
            rw [returns_bind]
            refine ⟨s.store, s.store, rfl, ?_⟩
            rw [if_neg hdue]
            rfl
          exact step_of_returns (e := .claim now limit leaseMs) hreturns
        · rintro ⟨pair, hpair, -⟩
          obtain ⟨hmem, hpairDue⟩ := mem_dueRows hpair
          exact hdue (List.any_eq_true.mpr ⟨pair.1, hmem, hpairDue⟩)
  | claimNotifications now limit leaseMs =>
      by_cases hvalid : 1 ≤ limit ∧ limit ≤ 200 ∧ 1000 ≤ leaseMs
      · right
        obtain ⟨claims, store, hreturns, -⟩ := claimDue_spec uuid s now limit leaseMs
        refine ⟨now, limit, leaseMs, claims, store, hreturns, step_of_returns ?_, ?_⟩
        · change (Notify.claimNotifications uuid now limit leaseMs).Returns s.store claims store
          unfold Notify.claimNotifications
          rw [returns_bind]
          refine ⟨(), s.store, returns_require.mpr ⟨⟨hvalid.1, hvalid.2.1⟩, rfl⟩, ?_⟩
          rw [returns_bind]
          exact ⟨(), s.store, returns_require.mpr ⟨hvalid.2.2, rfl⟩, hreturns⟩
        · exact and_iff_right hvalid
      · left
        refine ⟨?_, fun h => hvalid h.1⟩
        have hthrows : ∃ message, Notify.claimNotifications uuid now limit leaseMs s.store =
            (.error message, s.store) := by
          unfold Notify.claimNotifications
          rw [bind_apply, require_apply]
          by_cases hlimit : 1 ≤ limit ∧ limit ≤ 200
          · rw [if_pos hlimit]
            dsimp only
            rw [bind_apply, require_apply, if_neg (fun h => hvalid ⟨hlimit.1, hlimit.2, h⟩)]
            exact ⟨_, rfl⟩
          · rw [if_neg hlimit]
            exact ⟨_, rfl⟩
        obtain ⟨message, hthrows⟩ := hthrows
        exact step_of_throws (e := .claimNotifications now limit leaseMs) hthrows
  | _ => exact absurd he id

/-! ## Steps -/

theorem claim_hands (uuid : ℕ → String) (s : Dispatch) {e : Event} (he : IsClaim e) :
    Relation.ReflTransGen (Hand uuid (¬ TakesExhausted s e)) s ((machine uuid).step s e) := by
  rcases step_claim uuid s he with ⟨hsame, -⟩ | ⟨now, limit, leaseMs, claims, store, hreturns, hstep, hiff⟩
  · rw [hsame]
  · obtain ⟨claims', store', hreturns', -, hhands⟩ :=
      claimDue_spec uuid s now limit leaseMs
    rw [hstep, hiff]
    have hsame := hreturns.symm.trans hreturns'
    simp only [Prod.mk.injEq, Except.ok.injEq] at hsame
    rw [hsame.1, hsame.2]
    exact hhands

/-- A step shifts the tables, or it is a sequence of hand-outs. -/
theorem step_turns (huuid : Function.Injective uuid) (s : Dispatch) (e : Event) :
    (Shift uuid s.store ((machine uuid).step s e).store ∧
      ((machine uuid).step s e).handed = s.handed) ∨
    Relation.ReflTransGen (Hand uuid (¬ TakesExhausted s e)) s ((machine uuid).step s e) := by
  by_cases he : IsClaim e
  · exact .inr (claim_hands uuid s he)
  · left
    rcases (perform_atomic uuid e).outcome s.store with ⟨message, hthrows⟩ | ⟨claims, store, hreturns⟩
    · rw [step_of_throws hthrows]
      exact ⟨Shift.refl s.store, rfl⟩
    · obtain ⟨rfl, hshift⟩ := perform_shift huuid he s.store _ _ hreturns
      rw [step_of_returns hreturns]
      exact ⟨hshift, rfl⟩

theorem hands_coupled (huuid : Function.Injective uuid) {strict : Prop} {s s' : Dispatch}
    (hs : Coupled uuid s) (h : Relation.ReflTransGen (Hand uuid strict) s s') :
    Coupled uuid s' ∧ ∀ key, Relation.ReflTransGen (Lease.Move maxAttempts strict)
      (lease uuid s key) (lease uuid s' key) := by
  induction h with
  | refl => exact ⟨hs, fun _ => .refl⟩
  | tail _ hhand ih =>
      obtain ⟨hcoupled, hmoves⟩ := ih
      obtain ⟨item, row, hout, hhanded⟩ := hhand
      exact ⟨handOut_coupled huuid hcoupled hout hhanded,
        fun key => (hmoves key).trans (handOut_move hcoupled hout hhanded key)⟩

/-- What a step makes of the job of a delivery. -/
theorem step_coupled (huuid : Function.Injective uuid) {s : Dispatch} (hs : Coupled uuid s)
    (e : Event) :
    Coupled uuid ((machine uuid).step s e) ∧
      ∀ key, Relation.ReflTransGen (Lease.Move maxAttempts (¬ TakesExhausted s e))
        (lease uuid s key) (lease uuid ((machine uuid).step s e) key) := by
  rcases step_turns huuid s e with ⟨hshift, hhanded⟩ | hhands
  · have heq : (machine uuid).step s e = ⟨((machine uuid).step s e).store, s.handed⟩ := by
      rw [← hhanded]
    rw [heq]
    exact ⟨shift_coupled hs hshift, shift_move hs hshift _⟩
  · exact hands_coupled huuid hs hhands

theorem run_coupled (huuid : Function.Injective uuid) (events : List Event) :
    Coupled uuid ((machine uuid).run events) := by
  apply (machine uuid).run_invariant
  · exact
      { attempts := by simp [machine, Notifications.empty, Table.empty]
        issued := by simp [machine, Notifications.empty, Table.empty]
        owned := by simp [machine, Notifications.empty, Table.empty]
        drawn := by simp [machine]
        distinct := List.nodup_nil
        valid := fun key => by
          have habsent : leaseState uuid (machine uuid).initial.store key = .absent := by
            apply leaseState_of_not_issued
            · simp [machine, Notifications.empty, Table.empty]
            · rintro ⟨i, hlt, -⟩
              exact absurd hlt (Nat.not_lt_zero i)
          unfold Lease.Valid lease
          rw [habsent]
          rfl }
  · exact fun s e hs => (step_coupled huuid hs e).1

/-! ## Settled deliveries -/

/-- The later tables keep a settled row as it is, as long as they keep it. -/
def Follows (uuid : ℕ → String) (s s' : Notifications) : Prop :=
  s.drawn ≤ s'.drawn ∧ ∀ row' ∈ s'.deliveries.rows,
    (∃ row ∈ s.deliveries.rows, row'.key = row.key ∧
      (row.stage.isOpen = false → row' = row)) ∨ ¬ Issued uuid s row'.event

theorem Follows.refl (s : Notifications) : Follows uuid s s :=
  ⟨le_refl _, fun row hrow => .inl ⟨row, hrow, rfl, fun _ => rfl⟩⟩

theorem Follows.trans {s s' s'' : Notifications} (h : Follows uuid s s')
    (h' : Follows uuid s' s'') : Follows uuid s s'' := by
  refine ⟨h.1.trans h'.1, fun row'' hrow'' => ?_⟩
  rcases h'.2 row'' hrow'' with ⟨row', hrow', hkey', hsame'⟩ | hnot
  · rcases h.2 row' hrow' with ⟨row, hrow, hkey, hsame⟩ | hnot
    · refine .inl ⟨row, hrow, hkey'.trans hkey, fun hclosed => ?_⟩
      obtain rfl := hsame hclosed
      exact hsame' hclosed
    · right
      have hevent : row''.event = row'.event := congrArg Prod.fst hkey'
      rw [hevent]
      exact hnot
  · exact .inr fun hissued => hnot (issued_mono h.1 hissued)

theorem shift_follows {s s' : Notifications} (h : Shift uuid s s') : Follows uuid s s' := by
  refine ⟨h.drawn, fun row' hrow' => ?_⟩
  rcases h.rows row' hrow' with ⟨row, hrow, hkey, hsettles⟩ | ⟨hnot, -⟩
  · refine .inl ⟨row, hrow, hkey, fun hclosed => ?_⟩
    rcases hsettles with hsame | ⟨hopen, -⟩
    · exact hsame
    · rw [hclosed] at hopen
      cases hopen
  · exact .inr hnot

theorem hand_follows {strict : Prop} {s s' : Dispatch} (h : Hand uuid strict s s') :
    Follows uuid s.store s'.store := by
  obtain ⟨item, row, hout, -⟩ := h
  have hdrawn := hout.drawn
  refine ⟨by omega, fun row' hrow' => ?_⟩
  rcases handOut_row hout hrow' with ⟨hkey, -⟩ | ⟨-, hold⟩
  · refine .inl ⟨row, hout.mem, hkey, fun hclosed => ?_⟩
    have hopen := hout.opened
    rw [hclosed] at hopen
    cases hopen
  · exact .inl ⟨row', hold, rfl, fun _ => rfl⟩

theorem step_follows (huuid : Function.Injective uuid) (s : Dispatch) (e : Event) :
    Follows uuid s.store ((machine uuid).step s e).store := by
  rcases step_turns huuid s e with ⟨hshift, -⟩ | hhands
  · exact shift_follows hshift
  · generalize (machine uuid).step s e = s' at hhands ⊢
    induction hhands with
    | refl => exact Follows.refl _
    | tail _ hhand ih => exact ih.trans (hand_follows hhand)

/-- An open delivery is still there after a step. -/
theorem step_keeps (huuid : Function.Injective uuid) (s : Dispatch) (e : Event) {row : Delivery}
    (hrow : row ∈ s.store.deliveries.rows) (hopen : row.stage.isOpen = true) :
    ∃ row' ∈ ((machine uuid).step s e).store.deliveries.rows, row'.key = row.key := by
  rcases step_turns huuid s e with ⟨hshift, -⟩ | hhands
  · exact hshift.keeps row hrow hopen
  · generalize (machine uuid).step s e = s' at hhands ⊢
    induction hhands with
    | refl => exact ⟨row, hrow, rfl⟩
    | tail _ hhand ih =>
        obtain ⟨row', hrow', hkey⟩ := ih
        obtain ⟨item, handed, hout, -⟩ := hhand
        obtain ⟨row'', hrow'', hkey', -⟩ := handOut_persists hout hrow'
        exact ⟨row'', hrow'', hkey'.trans hkey⟩

/-! ## The law -/

/-- The delivery an event settles, and the token it presents. -/
def settlement : Event → Option ((String × NotificationChannel) × String)
  | .settle _ event channel claim _ _ | .settleNotification _ event channel claim _ _ =>
    some ((event, channel), claim)
  | _ => none

/-- The delivery is out, and the token is that of its last hand-out and of no other. -/
def HeldWith (s : Dispatch) (key : String × NotificationChannel) (claim : String) : Prop :=
  (∃ row ∈ s.store.deliveries.rows, row.key = key ∧
    ∃ claimAt, row.stage = .claimed claim claimAt) ∧
  ∃ item, (handouts s key).head? = some item ∧ item.claim = claim ∧
    ∀ other ∈ s.handed, other.claim = claim → other = item

variable (uuid) (events : List Event)

/-- A settlement throws and changes nothing, or it presents the current claim. -/
def OnlyHolderSettles : Prop :=
  ∀ before e key claim, before ++ [e] <+: events → settlement e = some (key, claim) →
    (∃ message, perform uuid e ((machine uuid).run before).store =
      (.error message, ((machine uuid).run before).store)) ∨
    HeldWith ((machine uuid).run before) key claim

/-- A row that is delivered or failed is the same row in every later state. -/
def SettledStays : Prop :=
  ∀ before after, before ++ after <+: events →
    ∀ row ∈ ((machine uuid).run before).store.deliveries.rows, row.stage.isOpen = false →
      ∀ row' ∈ ((machine uuid).run (before ++ after)).store.deliveries.rows,
        row'.key = row.key → row' = row

/-- An event outlives every step at which one of its deliveries is open. -/
def OpenIsKept : Prop :=
  ∀ before e, before ++ [e] <+: events →
    ∀ row ∈ ((machine uuid).run before).store.deliveries.rows, row.stage.isOpen = true →
      (∃ row' ∈ ((machine uuid).run (before ++ [e])).store.deliveries.rows,
        row'.key = row.key) ∧
      ∃ event ∈ ((machine uuid).run (before ++ [e])).store.outbox.rows, event.id = row.event

/-- No delivery is handed out more often than the limit. -/
def WithinLimit : Prop :=
  ∀ before, before <+: events → ∀ key,
    (handouts ((machine uuid).run before) key).length ≤ maxAttempts

variable {uuid} {events}

theorem onlyHolderSettles (huuid : Function.Injective uuid) : OnlyHolderSettles uuid events := by
  intro before e key claim _ hsettlement
  have hs := run_coupled huuid before
  generalize (machine uuid).run before = s at hs ⊢
  have hheld : ∀ row ∈ s.store.deliveries.rows, row.heldBy key.1 key.2 claim = true →
      HeldWith s key claim := by
    intro row hrow hp
    obtain ⟨hkey, claimAt, hstage⟩ := key_of_heldBy hp
    refine ⟨⟨row, hrow, hkey, claimAt, hstage⟩, ?_⟩
    have hvalid := hs.valid row.key
    unfold Lease.Valid lease at hvalid
    rw [leaseState_of_mem uuid hrow, hstage] at hvalid
    change ((handouts s row.key).map Claimed.claim).head? = some claim at hvalid
    rw [List.head?_map, hkey] at hvalid
    obtain ⟨item, hitem, hclaim⟩ := Option.map_eq_some_iff.mp hvalid
    refine ⟨item, hitem, hclaim, fun other hother heq => ?_⟩
    have hmem : item ∈ s.handed := (List.mem_filter.mp (List.mem_of_mem_head? hitem)).1
    exact List.inj_on_of_nodup_map hs.distinct hother hmem (heq.trans hclaim.symm)
  cases hresult : perform uuid e s.store with
  | mk outcome store =>
      cases outcome with
      | error message =>
          left
          rw [(perform_atomic uuid e).unchanged s.store message store hresult]
          exact ⟨message, rfl⟩
      | ok claims =>
          right
          cases e with
          | settle now event channel token outcome error =>
              obtain ⟨rfl, rfl⟩ := Prod.mk.inj (Option.some.inj hsettlement)
              obtain ⟨_, _, hreturns, -⟩ := returns_bind.mp hresult
              obtain ⟨row, hsettled⟩ :=
                settle_effect now event channel token outcome error s.store _ _ hreturns
              exact hheld row hsettled.mem hsettled.held
          | settleNotification now event channel token outcome error =>
              obtain ⟨rfl, rfl⟩ := Prod.mk.inj (Option.some.inj hsettlement)
              obtain ⟨_, _, hreturns, -⟩ := returns_bind.mp hresult
              obtain ⟨result, row, hsettled⟩ :=
                settleNotification_effect now event channel token outcome error s.store _ _
                  hreturns
              exact hheld row hsettled.mem hsettled.held
          | _ => cases hsettlement

theorem settledStays (huuid : Function.Injective uuid) : SettledStays uuid events := by
  intro before after _ row hrow hclosed row' hrow' hkey
  have hfollows := (machine uuid).runFrom_rel
    (R := fun s s' => Follows uuid s.store s'.store)
    (fun s => Follows.refl s.store) (fun _ _ _ => Follows.trans) (step_follows huuid)
    ((machine uuid).run before) after
  rw [← Machine.run_append] at hfollows
  rcases hfollows.2 row' hrow' with ⟨old, hold, hsame, hstays⟩ | hnot
  · have hrow : old = row := Table.eq_of_key _ hold hrow (hsame.symm.trans hkey)
    subst hrow
    exact hstays hclosed
  · have hevent : row'.event = row.event := congrArg Prod.fst hkey
    rw [hevent] at hnot
    exact absurd ((run_coupled huuid before).issued row hrow) hnot

theorem openIsKept (huuid : Function.Injective uuid) : OpenIsKept uuid events := by
  intro before e _ row hrow hopen
  have hafter := run_coupled huuid (before ++ [e])
  rw [Machine.run_snoc] at hafter ⊢
  obtain ⟨row', hrow', hkey⟩ := step_keeps huuid _ e hrow hopen
  obtain ⟨event, hevent, hid⟩ := hafter.owned row' hrow'
  exact ⟨⟨row', hrow', hkey⟩, event, hevent, hid.trans (congrArg Prod.fst hkey)⟩

/-- A claim that takes an exhausted delivery hands it out above the limit. -/
theorem takesExhausted_exceeds {s : Dispatch} (hs : Coupled uuid s) {e : Event}
    (h : TakesExhausted s e) :
    ∃ key, maxAttempts < (handouts ((machine uuid).step s e) key).length := by
  have he : IsClaim e := by
    cases e with
    | claim | claimNotifications => trivial
    | _ => exact absurd h id
  rcases step_claim uuid s he with
    ⟨-, hnot⟩ | ⟨now, limit, leaseMs, claims, store, hreturns, hstep, hiff⟩
  · exact absurd h hnot
  obtain ⟨pair, hpair, -, hattempts⟩ := hiff.mp h
  obtain ⟨claims', store', hreturns', hkeys, -⟩ :=
    claimDue_spec uuid s now limit leaseMs
  have hsame := hreturns.symm.trans hreturns'
  simp only [Prod.mk.injEq, Except.ok.injEq] at hsame
  rw [← hsame.1] at hkeys
  have hkey : pair.1.key ∈ claims.map Claimed.key := by
    rw [hkeys]
    exact List.mem_map_of_mem hpair
  obtain ⟨item, hitem, hitemKey⟩ := List.mem_map.mp hkey
  refine ⟨pair.1.key, ?_⟩
  have hcount : 0 < (claims.reverse.filter fun item => item.key = pair.1.key).length := by
    apply List.length_pos_of_mem (a := item)
    simpa [hitemKey] using hitem
  rw [hstep]
  unfold handouts
  rw [List.filter_append, List.length_append]
  have hbefore := hs.attempts pair.1 (mem_dueRows hpair).1
  unfold handouts at hbefore
  omega

theorem withinLimit_iff (huuid : Function.Injective uuid) : WithinLimit uuid events ↔
      (machine uuid).Along (fun s e => ¬ TakesExhausted s e) (machine uuid).initial events := by
  constructor
  · intro h
    rw [Machine.along_iff]
    intro before e hprefix htakes
    obtain ⟨key, hlt⟩ := takesExhausted_exceeds (run_coupled huuid before) htakes
    have hle := h (before ++ [e]) hprefix key
    rw [Machine.run_snoc] at hle
    exact absurd hlt (not_lt.mpr hle)
  · rintro halong before ⟨after, rfl⟩ key
    obtain ⟨hbefore, -⟩ := ((machine uuid).along_append _ _ _).mp halong
    have hboth := (machine uuid).run_invariant_along
      (I := fun s => Coupled uuid s ∧ ∀ key, (lease uuid s key).tokens.length ≤ maxAttempts)
      (P := fun s e => ¬ TakesExhausted s e)
      ⟨run_coupled huuid [], fun key => Nat.zero_le _⟩ ?_ before hbefore
    · have hle := hboth.2 key
      unfold lease at hle
      rwa [List.length_map] at hle
    · rintro s e hnot ⟨hs, hle⟩
      obtain ⟨hcoupled, hmoves⟩ := step_coupled huuid hs e
      refine ⟨hcoupled, fun key => ?_⟩
      have hmove := hmoves key
      rw [eq_true hnot] at hmove
      exact Lease.moves_tokens_le (by decide) hmove (hs.valid key) (hle key)

/-- In every run only the holder of the current claim settles a delivery, settled
rows never change and open ones keep their event. The limit holds of the runs
that never take a delivery back from the lease of its last attempt. -/
theorem deliveries_law (huuid : Function.Injective uuid) (events : List Event) :
    OnlyHolderSettles uuid events ∧ SettledStays uuid events ∧ OpenIsKept uuid events ∧
      (WithinLimit uuid events ↔
        (machine uuid).Along (fun s e => ¬ TakesExhausted s e) (machine uuid).initial events) :=
  ⟨onlyHolderSettles huuid, settledStays huuid, openIsKept huuid, withinLimit_iff huuid⟩

/-! ## A dispatcher that never settles -/

/-- An identifier for every draw. -/
def identifiers (n : ℕ) : String := String.ofList (List.replicate (n + 1) 'x')

theorem identifiers_injective : Function.Injective identifiers := by
  intro m n h
  have hlist := congrArg (fun text => text.toList.length) h
  simpa [identifiers] using hlist

/-- A start of the installation. -/
def started : Content where
  kind := "installation.started"
  severity := .info
  dedupeKey := "installation.started"
  subject := ⟨none, none, none, none⟩
  actor := "system"
  reason := "operator_request"
  detail := [("stage", .text "running")]

/-- An event, and nine claims of which each finds the lease of the one before run out. -/
def neverSettled : List Event :=
  .emit 0 started :: (List.range 9).map fun n => .claim (n * leaseMillis) 20 leaseMillis

theorem neverSettled_exceeds : ¬ WithinLimit identifiers neverSettled := by
  intro h
  have hle := h neverSettled (List.prefix_refl _) ("x", .email)
  have hnine : (handouts ((machine identifiers).run neverSettled) ("x", .email)).length = 9 := by
    decide +kernel
  rw [hnine] at hle
  exact absurd hle (by decide)

theorem deliveries_law_neverSettled :
    OnlyHolderSettles identifiers neverSettled ∧ SettledStays identifiers neverSettled ∧
      OpenIsKept identifiers neverSettled ∧ (WithinLimit identifiers neverSettled ↔
        (machine identifiers).Along (fun s e => ¬ TakesExhausted s e)
          (machine identifiers).initial neverSettled) :=
  deliveries_law identifiers_injective neverSettled

end Sbarbase.Notify.Proofs.Deliveries
