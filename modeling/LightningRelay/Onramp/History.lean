import LightningRelay.Async.Onward
import LightningRelay.Onramp.Fulfilment

/-!
# The history of a swap

What two readings of the same row may show, however far apart they are in a run.  The last writes of
`fulfill_swap`, of the monitor and of the recovery are unguarded, so a swap that has ended may still
change its status.  It never changes sides: a swap that was ever marked Completed is never marked
Expired, before or after, and the other way round.

Two things keep the sides apart that the onramp protocol does not follow: `fulfill_swap` marks a swap
Completed only after it has called `fulfill_invoice`, and the startup takes its snapshot before it
starts the monitor.  `Course` follows these.

* `verdict_sound`: the sides are kept apart in every state of every run.
* `swap_history`: any stretch of any run.
-/

set_option autoImplicit false

namespace LightningRelay

open Async

/-- The operations on which the side of a swap depends. -/
def Op.charted : Op → Bool
  | .db (.updateStatus _ .completed _) | .db (.getByStatus _)
  | .operator (.swap _) (.fulfillInvoice _ _) | .spawn .monitorExpiredSwaps
  | .spawn .startLdk => true
  | _ => false

namespace Entry

/-- The swap that was marked Completed. -/
def completes? : Entry → Option String
  | ⟨_, _, .db (.updateStatus h .completed _), _⟩ => some h
  | _ => none

/-- The swap that was marked Expired. -/
def expires? : Entry → Option String
  | ⟨_, _, .db (.updateStatus h .expired _), _⟩ => some h
  | _ => none

end Entry

namespace World

/-- The swap was marked Completed at some time. -/
def MarkedCompleted (w : World) (h : String) : Prop := ∃ e ∈ w.log, e.completes? = some h

/-- The swap was marked Expired at some time. -/
def MarkedExpired (w : World) (h : String) : Prop := ∃ e ∈ w.log, e.expires? = some h

end World

/-- What a swap may become, as two readings of its row may show it. -/
def SwapStatus.mayBecome : SwapStatus → SwapStatus → Bool
  | .pending, _ => true
  | .fulfilling, st => st ≠ .pending
  | .failed, st => st = .failed || st = .completed || st = .expired
  | .completed, st => st = .completed || st = .failed
  | .expired, st => st = .expired || st = .failed

namespace Onramp

/-! ## The course of the tasks -/

/-- How far a task has got on its course: `fulfill_swap` has called `fulfill_invoice`, or the startup
has taken its snapshot. -/
inductive Course where
  | early
  | called
  | scanned

inductive Course.Move : Call → Course → (o : Op) → o.Resp → Course → Prop where
  | quiet {c : Call} {l : Course} {o : Op} {r : o.Resp} : o.charted = false → Move c l o r l
  -- fulfill_swap
  | call {h address : String} {l : Course} {invoice : Invoice} {r : Except CardanoError String} :
      Move (.fulfillSwap h) l (.operator (.swap h) (.fulfillInvoice invoice address)) r .called
  | complete {h : String} {tx : Option String} :
      Move (.fulfillSwap h) .called (.db (.updateStatus h .completed tx)) () .called
  -- start_ldk
  | scan {rows : List SwapMapping} :
      Move .startLdk .early (.db (.getByStatus .fulfilling)) rows .scanned
  | retry {h address : String} {invoice : Invoice} {r : Except CardanoError String} :
      Move .startLdk .scanned (.operator (.swap h) (.fulfillInvoice invoice address)) r .scanned
  | finish {h : String} {tx : Option String} :
      Move .startLdk .scanned (.db (.updateStatus h .completed tx)) () .scanned
  | watch : Move .startLdk .scanned (.spawn .monitorExpiredSwaps) () .scanned
  -- monitor_expired_swaps
  | again {l : Course} : Move .monitorExpiredSwaps l (.spawn .monitorExpiredSwaps) () l

/-- The course of the tasks as a protocol. -/
def course : Protocol Op Op.Resp Call Course where
  start _ := .early
  Move := Course.Move
  Final _ _ := True

section

variable {cfg : Config} {c : Call} {l : Course} {α : Type}

theorem charts_of_only {p : Relay α} (h : p.Only fun o => o.charted = false) :
    Follows (Course.Move c) (fun _ l' => l' = l) p l :=
  Prog.Only.follows h fun _ _ => .quiet

theorem charts_of_within {ops : Op → Bool} {p : Relay α} (h : Footprint.Within ops p)
    (hops : ∀ {o : Op}, ops o = true → o.charted = false) :
    Follows (Course.Move c) (fun _ l' => l' = l) p l :=
  charts_of_only (h.imp fun _ => hops)

theorem charts_query {h : String} {n d : ℕ} {ctx : String} {find : ContractState → Option α} :
    Follows (Course.Move c) (fun _ l' => l' = l)
      (queryStateWithRetry (.swap h) n d ctx find) l :=
  charts_of_only (only_queryStateWithRetry (fun _ => rfl) rfl)

/-- A swap is marked Completed only after a call of `fulfill_invoice`. -/
theorem charts_fulfillSwap (h : String) :
    Follows (Course.Move (.fulfillSwap h)) (fun _ _ => True) (fulfillSwap h) .early := by
  have hfail : ∀ l tx, Follows (Course.Move (.fulfillSwap h)) (fun _ _ => True)
      (db (.updateStatus h .failed tx)) l := fun _ _ => follows_last fun _ => ⟨_, .quiet rfl, trivial⟩
  refine follows_stay (fun _ => .quiet rfl) ?_
  rintro (_ | m)
  · trivial
  refine follows_stay (fun _ => .quiet rfl) ?_
  rintro (_ | _)
  · trivial
  refine follows_stay (fun _ => .quiet rfl) fun now => ?_
  dsimp only
  split_ifs
  · exact hfail _ _
  refine charts_query.bind ?_
  rintro (e | invoice) _ rfl
  · exact hfail _ _
  refine (follows_submitContractTxWithRetry' (Q := fun _ l => l = .called) (I := fun _ => True) ?_ ?_
    trivial).bind ?_
  · exact fun l n r _ => ⟨l, .quiet rfl, trivial⟩
  · intro l _
    refine follows_perform fun r => ⟨_, .call, ?_⟩
    refine (charts_of_only (only_thenSubmit r fun _ => rfl)).mono ?_
    rintro (e | tx) _ rfl
    · trivial
    · exact rfl
  · rintro (e | txHash) l hl
    · exact hfail _ _
    · obtain rfl : l = .called := hl
      exact follows_last fun _ => ⟨_, .complete, trivial⟩

theorem charts_recoverSwap (m : SwapMapping) :
    Follows (Course.Move .startLdk) (fun _ l => l = .scanned) (recoverSwap m) .scanned := by
  refine charts_query.bind ?_
  rintro (e | invoice) _ rfl
  · exact follows_last fun _ => ⟨_, .finish, rfl⟩
  refine follows_perform ?_
  rintro (e | hex)
  · exact ⟨_, .retry, rfl⟩
  refine ⟨_, .retry, follows_stay (fun _ => .quiet rfl) ?_⟩
  rintro (e | txHash)
  · exact rfl
  · exact follows_last fun _ => ⟨_, .finish, rfl⟩

section

variable {o : Op}

theorem charted_of_recoversOfframps (h : o.recoversOfframps = true) : o.charted = false := by
  unfold Op.recoversOfframps at h
  split at h <;> first | rfl | cases h

theorem charted_of_cancelsExpired (h : o.cancelsExpired = true) : o.charted = false := by
  unfold Op.cancelsExpired at h
  split at h <;> first | rfl | cases h

theorem charted_of_sendsPayment (h : o.sendsPayment = true) : o.charted = false := by
  unfold Op.sendsPayment at h
  split at h <;> first | rfl | cases h

theorem charted_of_cancelsOfframp (h : o.cancelsOfframp = true) : o.charted = false := by
  unfold Op.cancelsOfframp at h
  split at h <;> first | rfl | cases h

/-- The tasks whose course is not followed. -/
theorem charted_of_performs (hc : c ≠ .startLdk) (hc' : c ≠ .monitorExpiredSwaps)
    (hc'' : ∀ h, c ≠ .fulfillSwap h) (h : c.performs o = true) : o.charted = false := by
  cases c with
  | startLdk => exact absurd rfl hc
  | monitorExpiredSwaps => exact absurd rfl hc'
  | fulfillSwap k => exact absurd rfl (hc'' k)
  | monitorExpiredOfframps =>
    change o.monitorsOfframps = true at h
    unfold Op.monitorsOfframps at h
    split at h <;> first | rfl | exact charted_of_cancelsOfframp h
  | handleSwapRequest =>
    change o.requestsSwap = true at h
    unfold Op.requestsSwap at h
    split at h <;> first | rfl | cases h
  | handleOfframpRequest =>
    change o.requestsOfframp = true at h
    unfold Op.requestsOfframp at h
    split at h <;> first | rfl | cases h
  | handleOfframpDeposit =>
    change o.deposits = true at h
    unfold Op.deposits at h
    split at h <;> first | rfl | exact charted_of_sendsPayment h
  | handleLdkEvents =>
    change o.handlesEvent = true at h
    unfold Op.handlesEvent at h
    split at h <;> first | rfl | cases h
  | completeOfframp =>
    change o.completesOfframp = true at h
    unfold Op.completesOfframp at h
    split at h <;> first | rfl | cases h
  | handleOfframpPaymentFailed =>
    change o.refunds = true at h
    unfold Op.refunds at h
    split at h <;> first | rfl | exact charted_of_cancelsOfframp h
  | sendpayment => exact charted_of_sendsPayment h
  | cancelExpired | cancelExpiredOfframps => exact charted_of_cancelsExpired h

end

/-- The monitor is started after the snapshot of the recovery. -/
theorem charts_startLdk :
    Follows (Course.Move .startLdk) (fun _ _ => True) (startLdk cfg) .early := by
  have hspawn : Follows (Course.Move .startLdk) (fun _ _ => True) (do
      spawn .monitorExpiredSwaps
      spawn .monitorExpiredOfframps
      serve) .scanned :=
    follows_stay (fun _ => .watch) fun _ => follows_stay (fun _ => .quiet rfl) fun _ =>
      follows_last fun _ => ⟨_, .quiet rfl, trivial⟩
  refine follows_perform fun stuck => ⟨_, .scan, ?_⟩
  refine (follows_forEach stuck fun m _ => charts_recoverSwap m).bind ?_
  rintro _ _ rfl
  refine (charts_of_within Footprint.recoverDepositingOfframps charted_of_recoversOfframps).bind ?_
  rintro _ _ rfl
  split_ifs
  · refine (charts_of_within Footprint.cancelExpired charted_of_cancelsExpired).bind ?_
    rintro _ _ rfl
    refine (charts_of_within Footprint.cancelExpiredOfframps charted_of_cancelsExpired).bind ?_
    rintro _ _ rfl
    exact hspawn
  · exact hspawn

theorem charts_monitorExpiredSwaps :
    Follows (Course.Move .monitorExpiredSwaps) (fun _ _ => True) monitorExpiredSwaps .early := by
  refine follows_stay (fun _ => .quiet rfl) fun _ => follows_stay (fun _ => .quiet rfl) fun now => ?_
  refine follows_stay (fun _ => .quiet rfl) fun expired => ?_
  refine (follows_forEach expired fun m _ => ?_).bind ?_
  · refine follows_stay (fun _ => .quiet rfl) ?_
    rintro (e | hex)
    · exact rfl
    refine follows_stay (fun _ => .quiet rfl) ?_
    rintro (e | txHash)
    · exact rfl
    · exact follows_last fun _ => ⟨_, .quiet rfl, rfl⟩
  · rintro _ _ rfl
    exact follows_last fun _ => ⟨_, .again, trivial⟩

/-- Every program of the relay keeps to its course. -/
theorem body_charts (cfg : Config) (c : Call) :
    Follows (course.Move c) (fun _ => course.Final c) (body cfg c) (course.start c) := by
  have hother : c ≠ .startLdk → c ≠ .monitorExpiredSwaps → (∀ h, c ≠ .fulfillSwap h) →
      Follows (Course.Move c) (fun _ _ => True) (body cfg c) .early := fun h₁ h₂ h₃ =>
    (charts_of_within (Footprint.body_performs cfg c) (charted_of_performs h₁ h₂ h₃)).mono
      fun _ _ _ => trivial
  cases c with
  | startLdk => exact charts_startLdk
  | monitorExpiredSwaps => exact charts_monitorExpiredSwaps
  | fulfillSwap h => exact charts_fulfillSwap h
  | _ => exact hother nofun nofun nofun

end

/-! ## Sides -/

/-- What holds of each swap: it is on one side at most, and its row shows which. -/
structure Verdict (w : World) (h : String) : Prop where
  exclusive : w.MarkedExpired h → ¬ w.MarkedCompleted h
  fulfilling : ∀ r, w.swap h = some r → r.status = .fulfilling → w.wins h ≠ 0
  completed : w.MarkedCompleted h → w.wins h ≠ 0
  completedRow : w.MarkedCompleted h → ∀ r, w.swap h = some r →
    r.status = .completed ∨ r.status = .failed
  expired : w.MarkedExpired h → w.Lapsed h
  expiredRow : w.MarkedExpired h → ∀ r, w.swap h = some r →
    r.status = .expired ∨ r.status = .failed
  ofCompleted : ∀ r, w.swap h = some r → r.status = .completed → w.MarkedCompleted h
  ofExpired : ∀ r, w.swap h = some r → r.status = .expired → w.MarkedExpired h

/-- What a task sees on its course. -/
structure Sees (w : World) (c : Call) (l : Stage × Option Course) : Prop where
  called : ∀ h, c = .fulfillSwap h → l.2 = some .called → w.fulfils h ≠ 0
  checked : ∀ h m, c = .fulfillSwap h → l.1 = .checked m → ¬ w.MarkedExpired h
  expired : ∀ m ∈ l.1.expired, ¬ w.MarkedCompleted m.paymentHash
  stuck : ∀ m ∈ l.1.stuck, w.wins m.paymentHash ≠ 0 ∧ ¬ w.MarkedExpired m.paymentHash
  monitor : ∀ m ∈ l.1.expired, c = .monitorExpiredSwaps

/-- The monitor selects no swap that the recovery goes through, there is one startup, and no monitor
before its snapshot. -/
structure Ahead (c : Call) (l : Stage × Option Course) (c' : Call) (l' : Stage × Option Course) :
    Prop where
  rows : ∀ m ∈ l.1.stuck, ∀ m' ∈ l'.1.expired, m.paymentHash ≠ m'.paymentHash
  once : c = .startLdk → c' ≠ .startLdk
  first : c = .startLdk → l.2 = some .early → c' ≠ .monitorExpiredSwaps

/-- The sides of the swaps. -/
def verdict : Discipline Op Op.Resp World Call (Stage × Option Course) :=
  (onramp.refine course).extend (fun w => ∀ h, Verdict w h) (fun w _ c l => Sees w c l)
    fun c l c' l' => Ahead c l c' l' ∧ Ahead c' l' c l

/-! ### Which move writes which mark -/

section

variable {tid : ℕ} {c : Call} {l l' : Stage} {a b : Option Course} {o : Op} {r : o.Resp} {k : String}
  {w w' : World} {sp : Option Call}

theorem completes?_eq_some (h : (⟨tid, c, o, r⟩ : Entry).completes? = some k) :
    ∃ tx, o = .db (.updateStatus k .completed tx) := by
  unfold Entry.completes? at h
  split at h
  next he =>
    obtain ⟨-, -, rfl, -⟩ := Entry.mk.inj he
    obtain rfl := Option.some.inj h
    exact ⟨_, rfl⟩
  next => cases h

theorem expires?_eq_some (h : (⟨tid, c, o, r⟩ : Entry).expires? = some k) :
    ∃ tx, o = .db (.updateStatus k .expired tx) := by
  unfold Entry.expires? at h
  split at h
  next he =>
    obtain ⟨-, -, rfl, -⟩ := Entry.mk.inj he
    obtain rfl := Option.some.inj h
    exact ⟨_, rfl⟩
  next => cases h

/-- Who marks a swap Completed: the `fulfill_swap` that has won it and called `fulfill_invoice`, or
the recovery. -/
theorem completer (hm : Move c l o r l') (hC : course.Step c a o r b)
    (h : (⟨tid, c, o, r⟩ : Entry).completes? = some k) :
    (c = .fulfillSwap k ∧ a = some .called ∧ ∃ m, l.prize? = some m) ∨
      ∃ m ∈ l.stuck, m.paymentHash = k := by
  obtain ⟨tx, rfl⟩ := completes?_eq_some h
  obtain ⟨x, y, rfl, hC, -⟩ := hC.move
  cases hm with
  | quiet hq => cases hq
  | settle hl =>
    left
    cases hC with
    | quiet hq => cases hq
    | complete => rcases hl with rfl | rfl <;> exact ⟨rfl, rfl, _, rfl⟩
  | finish hmem => exact Or.inr ⟨_, hmem, rfl⟩

/-- Who marks a swap Expired: the monitor. -/
theorem expirer (hm : Move c l o r l') (h : (⟨tid, c, o, r⟩ : Entry).expires? = some k) :
    ∃ m ∈ l.expired, m.paymentHash = k := by
  obtain ⟨tx, rfl⟩ := expires?_eq_some h
  cases hm with
  | quiet hq => cases hq
  | settle _ hst => rcases hst with hst | hst <;> cases hst
  | expire hmem => exact ⟨_, hmem, rfl⟩

theorem markedCompleted_iff (he : Effect tid c o r w w' sp) : w'.MarkedCompleted k ↔
    (⟨tid, c, o, r⟩ : Entry).completes? = some k ∨ w.MarkedCompleted k := by
  simp only [World.MarkedCompleted, he.log, List.exists_mem_cons_iff]

theorem markedExpired_iff (he : Effect tid c o r w w' sp) : w'.MarkedExpired k ↔
    (⟨tid, c, o, r⟩ : Entry).expires? = some k ∨ w.MarkedExpired k := by
  simp only [World.MarkedExpired, he.log, List.exists_mem_cons_iff]

/-- How the status of swap `k` changes by the operation of the entry `e`. -/
inductive StatusMove (k : String) (e : Entry) : SwapStatus → SwapStatus → Prop where
  | same {st : SwapStatus} : e.completes? ≠ some k → e.expires? ≠ some k → StatusMove k e st st
  | win : e.wins? = some k → e.completes? ≠ some k → e.expires? ≠ some k →
      StatusMove k e .pending .fulfilling
  | fail {st : SwapStatus} : e.completes? ≠ some k → e.expires? ≠ some k → StatusMove k e st .failed
  | complete {st : SwapStatus} : e.completes? = some k → StatusMove k e st .completed
  | expire {st : SwapStatus} : e.expires? = some k → StatusMove k e st .expired

/-- Every move is one of the status's moves, and leaves the columns of the request alone. -/
theorem statusMove (he : Effect tid c o r w w' sp) (hm : Move c l o r l') {x : SwapMapping}
    (hx : w.swap k = some x) : ∃ y, w'.swap k = some y ∧
      y = { x with status := y.status, cardanoTxHash := y.cardanoTxHash } ∧
      StatusMove k ⟨tid, c, o, r⟩ x.status y.status := by
  by_cases hc : (⟨tid, c, o, r⟩ : Entry).completes? = some k
  · obtain ⟨tx, rfl⟩ := completes?_eq_some hc
    refine ⟨{ x with status := .completed, cardanoTxHash := tx }, ?_, rfl, .complete hc⟩
    rw [he.swap k, hx]
    simp [Op.onSwap, DbCall.onSwap]
  by_cases hex : (⟨tid, c, o, r⟩ : Entry).expires? = some k
  · obtain ⟨tx, rfl⟩ := expires?_eq_some hex
    refine ⟨{ x with status := .expired, cardanoTxHash := tx }, ?_, rfl, .expire hex⟩
    rw [he.swap k, hx]
    simp [Op.onSwap, DbCall.onSwap]
  obtain ⟨y, hy, rfl | ⟨st, tx, rfl, rfl⟩ | ⟨n, tx, rfl, rfl⟩⟩ := he.swap_cases hx
  · exact ⟨y, hy, rfl, .same hc hex⟩
  · refine ⟨_, hy, rfl, ?_⟩
    cases hm with
    | quiet hq => cases hq
    | settle _ hst =>
      rcases hst with rfl | rfl
      · exact absurd rfl hc
      · exact .fail hc hex
    | expire => exact absurd rfl hex
    | finish => exact absurd rfl hc
  · refine ⟨_, hy, rfl, ?_⟩
    -- only `fulfill_swap` makes a guarded change, and the answer says that it was made
    have hwon : HEq r true := by
      have htrue : (w.db.transitionStatus k x.status n tx).1 = true :=
        SwapDb.transitionStatus_fst_iff.2 ⟨x, hx, rfl⟩
      exact heq_of_eq (he.answered.trans htrue)
    generalize hst : x.status = st at *
    cases hm with
    | quiet hq => cases hq
    | win => exact .win rfl hc hex
    | lose => cases hwon

/-! ### One move -/

variable (he : Effect tid c o r w w' sp) (hm : Move c l o r l') (hC : course.Step c a o r b)
  (hL : Ledger w k) (hK : Knows w tid c l) (hV : Verdict w k) (hS : Sees w c (l, a))

include he

theorem wins_mono (h : w.wins k ≠ 0) : w'.wins k ≠ 0 := by
  rw [wins_eq he]
  omega

theorem fulfils_mono (h : w.fulfils k ≠ 0) : w'.fulfils k ≠ 0 := by
  rw [fulfils_eq he]
  omega

include hm in
/-- The row of a swap was there before the move, or it is new and Pending. -/
theorem row_origin {y : SwapMapping} (hy : w'.swap k = some y) :
    (∃ x, w.swap k = some x ∧ StatusMove k ⟨tid, c, o, r⟩ x.status y.status) ∨
      w.swap k = none ∧ y.status = .pending := by
  rcases hx : w.swap k with _ | x
  · refine Or.inr ⟨rfl, ?_⟩
    have hrow := rowMove he hm k
    rw [hx, hy] at hrow
    cases hrow with
    | insert hst => exact hst
  · obtain ⟨z, hz, -, hst⟩ := statusMove he hm hx
    rw [hy] at hz
    exact Or.inl ⟨x, rfl, Option.some.inj hz ▸ hst⟩

omit he in
include hm hC hK hS in
/-- Whoever marks a swap Completed knows that it was won and that nobody marks it Expired. -/
theorem won_of_completes (hV : Verdict w k) (h : (⟨tid, c, o, r⟩ : Entry).completes? = some k) :
    w.wins k ≠ 0 ∧ ¬ w.MarkedExpired k := by
  rcases completer hm hC h with ⟨rfl, rfl, m, hl⟩ | ⟨m, hmem, rfl⟩
  · refine ⟨wins_of_wonBy ((hK.fulfil k rfl).prize m hl).2, fun hex => ?_⟩
    exact hS.called k rfl rfl (hV.expired hex).2
  · exact hS.stuck m hmem

omit he in
include hm hK hS in
/-- Whoever marks a swap Expired knows that it lapsed and that nobody marks it Completed. -/
theorem lapsed_of_expires (h : (⟨tid, c, o, r⟩ : Entry).expires? = some k) :
    w.Lapsed k ∧ ¬ w.MarkedCompleted k := by
  obtain ⟨m, hmem, rfl⟩ := expirer hm h
  exact ⟨hK.expired m hmem, hS.expired m hmem⟩

omit he in
/-- An entry marks a swap with one status. -/
theorem expires?_of_completes (h : (⟨tid, c, o, r⟩ : Entry).completes? = some k) :
    (⟨tid, c, o, r⟩ : Entry).expires? ≠ some k := by
  obtain ⟨tx, rfl⟩ := completes?_eq_some h
  exact nofun

include hm hC hL hK hV hS in
theorem verdict_move : Verdict w' k where
  exclusive hex hcom := by
    rw [markedExpired_iff he] at hex
    rw [markedCompleted_iff he] at hcom
    rcases hex with hex | hex <;> rcases hcom with hcom | hcom
    · exact expires?_of_completes hcom hex
    · exact (lapsed_of_expires hm hK hS hex).2 hcom
    · exact (won_of_completes hm hC hK hS hV hcom).2 hex
    · exact hV.exclusive hex hcom
  fulfilling y hy hst := by
    rcases row_origin he hm hy with ⟨x, hx, hmove⟩ | ⟨-, hpending⟩
    · generalize hxst : x.status = st at hmove
      rw [hst] at hmove
      cases hmove with
      | same => exact wins_mono he (hV.fulfilling x hx hxst)
      | win hwin =>
        rw [wins_eq he, if_pos hwin]
        omega
    · rw [hpending] at hst
      cases hst
  completed hcom := by
    rw [markedCompleted_iff he] at hcom
    rcases hcom with hcom | hcom
    · exact wins_mono he (won_of_completes hm hC hK hS hV hcom).1
    · exact wins_mono he (hV.completed hcom)
  completedRow hcom y hy := by
    rw [markedCompleted_iff he] at hcom
    have hwon : w.wins k ≠ 0 := by
      rcases hcom with hcom | hcom
      · exact (won_of_completes hm hC hK hS hV hcom).1
      · exact hV.completed hcom
    obtain ⟨x, hx, -⟩ := hL.won hwon
    rcases row_origin he hm hy with ⟨x', hx', hmove⟩ | ⟨hnone, -⟩
    · generalize hxst : x'.status = st at hmove
      generalize hyst : y.status = st' at hmove ⊢
      cases hmove with
      | same hnot | win _ hnot =>
        have hrow := hV.completedRow (hcom.resolve_left hnot) x' hx'
        rw [hxst] at hrow
        first | exact hrow | simp at hrow
      | fail => exact Or.inr rfl
      | complete => exact Or.inl rfl
      | expire hex =>
        exact absurd hcom (not_or.2 ⟨fun h => expires?_of_completes h hex,
          (lapsed_of_expires hm hK hS hex).2⟩)
    · rw [hnone] at hx
      cases hx
  expired hex := by
    rw [markedExpired_iff he] at hex
    have hlapsed : w.Lapsed k := by
      rcases hex with hex | hex
      · exact (lapsed_of_expires hm hK hS hex).1
      · exact hV.expired hex
    refine lapsed_move he hm hlapsed fun m hc hl => ?_
    rcases hex with hex | hex
    · obtain ⟨m', hmem, -⟩ := expirer hm hex
      rw [hl] at hmem
      cases hmem
    · exact hS.checked k m hc hl hex
  expiredRow hex y hy := by
    rw [markedExpired_iff he] at hex
    have hlapsed : w.Lapsed k := by
      rcases hex with hex | hex
      · exact (lapsed_of_expires hm hK hS hex).1
      · exact hV.expired hex
    obtain ⟨⟨x, hx, -⟩, -⟩ := hlapsed
    rcases row_origin he hm hy with ⟨x', hx', hmove⟩ | ⟨hnone, -⟩
    · generalize hxst : x'.status = st at hmove
      generalize hyst : y.status = st' at hmove ⊢
      cases hmove with
      | same _ hnot | win _ _ hnot =>
        have hrow := hV.expiredRow (hex.resolve_left hnot) x' hx'
        rw [hxst] at hrow
        first | exact hrow | simp at hrow
      | fail => exact Or.inr rfl
      | expire => exact Or.inl rfl
      | complete hcom =>
        exact absurd hex (not_or.2 ⟨expires?_of_completes hcom,
          (won_of_completes hm hC hK hS hV hcom).2⟩)
    · rw [hnone] at hx
      cases hx
  ofCompleted y hy hst := by
    rw [markedCompleted_iff he]
    rcases row_origin he hm hy with ⟨x, hx, hmove⟩ | ⟨-, hpending⟩
    · generalize hxst : x.status = st at hmove
      rw [hst] at hmove
      cases hmove with
      | same => exact Or.inr (hV.ofCompleted x hx hxst)
      | complete hcom => exact Or.inl hcom
    · rw [hpending] at hst
      cases hst
  ofExpired y hy hst := by
    rw [markedExpired_iff he]
    rcases row_origin he hm hy with ⟨x, hx, hmove⟩ | ⟨-, hpending⟩
    · generalize hxst : x.status = st at hmove
      rw [hst] at hmove
      cases hmove with
      | same => exact Or.inr (hV.ofExpired x hx hxst)
      | expire hex => exact Or.inl hex
    · rw [hpending] at hst
      cases hst

/-! ### What the tasks see -/

omit he in
/-- A monitor with a snapshot neither fulfils nor recovers. -/
theorem idle_of_expired {m : SwapMapping} (h : m ∈ l.expired) : l.prize? = none ∧ l.stuck = [] := by
  cases l <;> first | exact ⟨rfl, rfl⟩ | cases h

omit he in
theorem idle_of_stuck {m : SwapMapping} (h : m ∈ l.stuck) : l.expired = [] := by
  cases l <;> first | rfl | cases h

omit he in
include hm hC in
/-- A monitor with a snapshot marks nothing Completed. -/
theorem not_completes_of_expired {m : SwapMapping} (h : m ∈ l.expired) :
    (⟨tid, c, o, r⟩ : Entry).completes? ≠ some k := by
  obtain ⟨hprize, hstuck⟩ := idle_of_expired h
  intro hcom
  rcases completer hm hC hcom with ⟨-, -, m', hl⟩ | ⟨m', hmem, -⟩
  · rw [hprize] at hl
    cases hl
  · rw [hstuck] at hmem
    cases hmem

omit he in
include hm in
/-- Only a monitor with a snapshot marks a swap Expired. -/
theorem not_expires_of_empty (h : l.expired = []) :
    (⟨tid, c, o, r⟩ : Entry).expires? ≠ some k := by
  intro hex
  obtain ⟨m, hmem, -⟩ := expirer hm hex
  rw [h] at hmem
  cases hmem

section

variable {tid' : ℕ} {c' : Call} {l₀ : Stage} {x : Option Course}

include hm hC hS in
/-- A move leaves alone what another task sees. -/
theorem Sees.mono (hK' : Knows w tid' c' l₀) (hS' : Sees w c' (l₀, x))
    (hsep : Separate c l c' l₀) (hA : Ahead c (l, a) c' (l₀, x)) (hA' : Ahead c' (l₀, x) c (l, a)) :
    Sees w' c' (l₀, x) where
  called h hc hx := fulfils_mono he (hS'.called h hc hx)
  checked h m hc hl hex := by
    rw [markedExpired_iff he] at hex
    rcases hex with hex | hex
    · obtain ⟨m', hmem, hk⟩ := expirer hm hex
      exact hsep.2 h m hc hl m' hmem hk
    · exact hS'.checked h m hc hl hex
  expired m hmem hcom := by
    rw [markedCompleted_iff he] at hcom
    rcases hcom with hcom | hcom
    · rcases completer hm hC hcom with ⟨rfl, rfl, -⟩ | ⟨m', hmem', hk⟩
      · exact hS.called _ rfl rfl (hK'.expired m hmem).2
      · exact hA.rows m' hmem' m hmem hk
    · exact hS'.expired m hmem hcom
  stuck m hmem := by
    refine ⟨wins_mono he (hS'.stuck m hmem).1, fun hex => ?_⟩
    rw [markedExpired_iff he] at hex
    rcases hex with hex | hex
    · obtain ⟨m', hmem', hk⟩ := expirer hm hex
      exact hA'.rows m hmem m' hmem' hk.symm
    · exact (hS'.stuck m hmem).2 hex
  monitor := hS'.monitor

end

include hm hC hK hS in
/-- What a task sees after its own move. -/
theorem sees_move (hL : ∀ k, Ledger w k) (hV : ∀ k, Verdict w k) : Sees w' c (l', b) where
  called h hc hb := by
    subst hc
    obtain ⟨x, y, rfl, hmove, hy⟩ := hC.move
    obtain rfl := hy _ hb
    cases hmove with
    | quiet => exact fulfils_mono he (hS.called h rfl rfl)
    | call => simp [fulfils_eq he, Entry.fulfils?]
    | complete => exact fulfils_mono he (hS.called h rfl rfl)
  checked h m hc hl hex := by
    dsimp only at hl
    subst hc hl
    rw [markedExpired_iff he] at hex
    cases hm with
    | quiet hq =>
      exact hS.checked h m rfl rfl (hex.resolve_left (not_expires_of_empty (l := .checked m) (.quiet hq) rfl))
    | fulfill => exact hS.checked h m rfl rfl (hex.resolve_left nofun)
    | @check _ _ t ht =>
      have hclock : t = w.clock := he.answered
      exact not_expired_of_check (hK.fulfil h rfl) (hclock ▸ ht) ((hV h).expired (hex.resolve_left nofun)).1
  expired m hmem hcom := by
    rw [markedCompleted_iff he] at hcom
    have hm' := hm
    cases hm with
    | quiet | request | look | spawn | cancel | expire =>
      exact hS.expired m hmem (hcom.resolve_left (not_completes_of_expired hm' hC hmem))
    | @snapshot t rows =>
      have hrows : rows = w.db.getExpiredPending t := he.answered
      obtain ⟨hrow, hst, -⟩ := SwapDb.mem_getExpiredPending.1 (hrows ▸ hmem)
      exact (hV _).completed (hcom.resolve_left nofun) (wins_of_pending (hL _) hrow hst)
    | _ => cases hmem
  stuck m hmem := by
    have hm' := hm
    cases hm with
    | quiet | request | look | spawn | recover | finish =>
      refine ⟨wins_mono he (hS.stuck m hmem).1, fun hex => (hS.stuck m hmem).2 ?_⟩
      rw [markedExpired_iff he] at hex
      exact hex.resolve_left (not_expires_of_empty hm' (idle_of_stuck hmem))
    | @scan rows =>
      have hrows : rows = w.db.getByStatus .fulfilling := he.answered
      obtain ⟨hrow, hst⟩ := SwapDb.mem_getByStatus.1 (hrows ▸ hmem)
      refine ⟨wins_mono he ((hV _).fulfilling m hrow hst), fun hex => ?_⟩
      rw [markedExpired_iff he] at hex
      have hside := (hV _).expiredRow (hex.resolve_left nofun) m hrow
      simp [hst] at hside
    | _ => cases hmem
  monitor m hmem := by
    cases hm with
    | quiet | request | look | spawn => exact hS.monitor m hmem
    | cancel | expire | snapshot => rfl
    | _ => cases hmem

/-! ### Two tasks -/

section

variable {c' : Call} {l₀ : Stage} {x : Option Course}

omit he in
include hm hC in
/-- The task that moves and another one. -/
theorem ahead_move (hS' : Sees w c' (l₀, x)) (hA : Ahead c (l, a) c' (l₀, x)) :
    Ahead c (l', b) c' (l₀, x) where
  rows m hmem m' hmem' := by
    cases hm with
    | quiet | request | look | spawn | recover | finish => exact hA.rows m hmem m' hmem'
    | scan =>
      -- no monitor runs before the snapshot of the recovery
      obtain ⟨y, z, rfl, hmove, -⟩ := hC.move
      cases hmove with
      | quiet hq => cases hq
      | scan => exact absurd (hS'.monitor m' hmem') (hA.first rfl rfl)
    | _ => cases hmem
  once := hA.once
  first hc hb := by
    obtain ⟨y, z, rfl, hmove, hz⟩ := hC.move
    obtain rfl := hz _ hb
    subst hc
    cases hmove with
    | quiet => exact hA.first rfl rfl

include hm in
/-- Another task and the one that moves. -/
theorem ahead_others (hL : ∀ k, Ledger w k) (hS' : Sees w c' (l₀, x))
    (hA : Ahead c' (l₀, x) c (l, a)) : Ahead c' (l₀, x) c (l', b) where
  rows m hmem m' hmem' hk := by
    cases hm with
    | quiet | request | look | spawn | cancel | expire => exact hA.rows m hmem m' hmem' hk
    | @snapshot t rows =>
      have hrows : rows = w.db.getExpiredPending t := he.answered
      obtain ⟨hrow, hst, -⟩ := SwapDb.mem_getExpiredPending.1 (hrows ▸ hmem')
      exact (hS'.stuck m hmem).1 (hk ▸ wins_of_pending (hL _) hrow hst)
    | _ => cases hmem'
  once := hA.once
  first := hA.first

omit he in
theorem start_empty (c : Call) : (start c).expired = [] ∧ (start c).stuck = [] := by
  rcases start_eq c with hl | hl <;> rw [hl] <;> exact ⟨rfl, rfl⟩

omit he in
theorem sees_start (w : World) (c : Call) : Sees w c (start c, some .early) := by
  obtain ⟨hexpired, hstuck⟩ := start_empty c
  refine ⟨fun h _ hx => ?_, fun h m _ hl => ?_, fun m hmem => ?_, fun m hmem => ?_, fun m hmem => ?_⟩
  · cases hx
  · rcases start_eq c with hl' | hl' <;> cases hl'.symm.trans hl
  · exact absurd (hexpired ▸ hmem) List.not_mem_nil
  · exact absurd (hstuck ▸ hmem) List.not_mem_nil
  · exact absurd (hexpired ▸ hmem) List.not_mem_nil

omit he in
/-- A new task that is neither a startup nor, before the snapshot of the recovery, a monitor. -/
theorem ahead_start {y : Stage × Option Course} (hstart : c ≠ .startLdk)
    (hfirst : c' = .startLdk → y.2 = some .early → c ≠ .monitorExpiredSwaps) :
    Ahead c' y c (start c, some .early) ∧ Ahead c (start c, some .early) c' y := by
  obtain ⟨hexpired, hstuck⟩ := start_empty c
  refine ⟨⟨fun _ _ m' hmem' => ?_, fun _ => hstart, hfirst⟩,
    ⟨fun m hmem => ?_, fun h => absurd h hstart, fun h => absurd h hstart⟩⟩
  · rw [hexpired] at hmem'
    cases hmem'
  · rw [hstuck] at hmem
    cases hmem

include hC in
/-- What a task may start: no startup, and a monitor only after the snapshot or from a monitor. -/
theorem spawned_charted (hsp : sp = some c') : c' ≠ .startLdk ∧
    (c' = .monitorExpiredSwaps → c = .startLdk ∧ a = some .scanned ∧ b ≠ some .early ∨
      c = .monitorExpiredSwaps) := by
  have hop : o = .spawn c' := by
    have h := hsp.symm.trans he.spawned
    unfold Op.spawns at h
    split at h
    · exact congrArg Op.spawn (Option.some.inj h).symm
    · cases h
  subst hop
  obtain ⟨y, z, rfl, hmove, hz⟩ := hC.move
  cases hmove with
  | quiet hq =>
    refine ⟨?_, ?_⟩ <;>
    · rintro rfl
      cases hq
  | watch =>
    refine ⟨nofun, fun _ => Or.inl ⟨rfl, rfl, fun hb => ?_⟩⟩
    cases hz _ hb
  | again => exact ⟨nofun, fun _ => Or.inr rfl⟩

end

end

/-! ## All runs -/

section

variable {w w' : World} {k : String} {c : Call} {l : Stage × Option Course}

theorem Verdict.calm (hc : Calm w w') (hV : Verdict w k) : Verdict w' k := by
  have hcom : w'.MarkedCompleted k ↔ w.MarkedCompleted k := by
    rw [World.MarkedCompleted, World.MarkedCompleted, hc.log]
  have hex : w'.MarkedExpired k ↔ w.MarkedExpired k := by
    rw [World.MarkedExpired, World.MarkedExpired, hc.log]
  have hwins : w'.wins k = w.wins k := by rw [World.wins, World.wins, hc.log]
  constructor <;> simp only [hcom, hex, hwins, hc.swap k]
  · exact hV.exclusive
  · exact hV.fulfilling
  · exact hV.completed
  · exact hV.completedRow
  · exact fun h => lapsed_calm hc (hV.expired h)
  · exact hV.expiredRow
  · exact hV.ofCompleted
  · exact hV.ofExpired

theorem Sees.calm (hc : Calm w w') (hS : Sees w c l) : Sees w' c l := by
  refine ⟨?_, ?_, ?_, ?_, hS.monitor⟩ <;>
    simp only [World.fulfils, World.MarkedExpired, World.MarkedCompleted, World.wins, hc.log]
  · exact hS.called
  · exact hS.checked
  · exact hS.expired
  · exact hS.stuck

theorem verdict_fresh (cfg : Config) (now : ℤ) (k : String) : Verdict (World.fresh cfg now) k := by
  have hrow : (World.fresh cfg now).swap k = none := rfl
  have hlog : (World.fresh cfg now).log = [] := rfl
  constructor <;> simp [hrow, hlog, World.MarkedCompleted, World.MarkedExpired]

/-- The sides of the swaps are kept apart through every run. -/
theorem verdict_sound (cfg : Config) (now : ℤ) :
    verdict.Sound (relay cfg) (fun _ _ => True) (World.fresh cfg now) := by
  refine ((onramp_sound cfg now).refine (body_charts cfg)).extend (fun _ _ _ => trivial) ?_
  exact {
    symm := fun h => ⟨h.2, h.1⟩
    init := ⟨verdict_fresh cfg now, sees_start _ _⟩
    move := fun turn hp hm => by
      have he := effect_of_perform hp
      exact ⟨fun k => verdict_move he hm.1 hm.2 (turn.shared.1 k) turn.owned.1 (turn.shared.2 k)
        turn.owned.2, sees_move he hm.1 hm.2 turn.owned.1 turn.owned.2 turn.shared.1 turn.shared.2⟩
    others := fun turn hp hm _ _ _ howned hap => by
      have he := effect_of_perform hp
      exact ⟨Sees.mono he hm.1 hm.2 turn.owned.2 howned.1 howned.2 hap.1 hap.2.1 hap.2.2, ahead_move hm.1 hm.2 howned.2 hap.2.1,
        ahead_others he hm.1 turn.shared.1 howned.2 hap.2.2⟩
    spawned := fun turn hp hm => by
      obtain ⟨hstart, hmonitor⟩ := spawned_charted (effect_of_perform hp) hm.2 rfl
      refine ⟨sees_start _ _, ahead_start hstart fun hc hb hc' => ?_, ?_⟩
      · rcases hmonitor hc' with ⟨-, -, hb'⟩ | hc''
        · exact hb' hb
        · rw [hc] at hc''
          cases hc''
      · intro tid' t m _ _ _ _ hap
        refine ahead_start hstart fun hc hb hc' => ?_
        rcases hmonitor hc' with ⟨hc'', -⟩ | hc''
        · exact hap.2.1.once hc'' hc
        · exact hap.2.2.first hc hb hc''
    abort := fun turn hp => by
      obtain rfl := abort_of_perform hp
      exact ⟨fun k => (turn.shared.2 k).calm (calm_restarted _), sees_start _ _⟩
    react := fun next hr k => (next.shared.2 k).calm (reaction_of_react hr).calm
    reactOthers := fun _ hr _ _ _ howned => howned.2.calm (reaction_of_react hr).calm
    reactSpawn := fun _ hr => by
      refine ⟨sees_start _ _, fun _ _ _ => ahead_start ?_ fun _ _ => ?_⟩ <;>
      · rintro rfl
        rcases (reaction_of_react hr).spawn with ⟨-, hc⟩ | ⟨event, -, hc, -⟩ <;> cases hc
    reactRestart := fun _ _ => sees_start _ _ }

end

/-! ## What follows -/

section

variable {cfg : Config} {now : ℤ} {s s' : Sys} {h : String} {x : SwapMapping}

/-- The columns of the request stay, and a swap never goes back to Pending or to Fulfilling. -/
structure Forward (x y : SwapMapping) : Prop where
  request : y = { x with status := y.status, cardanoTxHash := y.cardanoTxHash }
  pending : y.status = .pending → x.status = .pending
  fulfilling : y.status = .fulfilling → x.status = .pending ∨ x.status = .fulfilling

theorem Forward.refl (x : SwapMapping) : Forward x x := ⟨rfl, id, Or.inr⟩

theorem Forward.trans {x y z : SwapMapping} (h : Forward x y) (h' : Forward y z) : Forward x z where
  request := by
    rw [h'.request, h.request]
  pending hz := h.pending (h'.pending hz)
  fulfilling hz := by
    rcases h'.fulfilling hz with hy | hy
    · exact Or.inl (h.pending hy)
    · exact h.fulfilling hy

/-- One step of a run. -/
theorem forward_step {a : Act} (hs : Reachable cfg now s) (hstep : (relay cfg).step s a = some s')
    (hx : s.world.swap h = some x) : ∃ y, s'.world.swap h = some y ∧ Forward x y := by
  obtain ⟨L, hL⟩ := (onramp_sound cfg now).holds hs
  rcases world_of_step hstep with ⟨tid, c, o, k, a, r, sp, -, ht, hp⟩ | hcalm
  · obtain ⟨l', hm, -⟩ := (hL.keeps ht).move r
    obtain ⟨y, hy, hrequest, hst⟩ := statusMove (effect_of_perform hp) hm hx
    refine ⟨y, hy, hrequest, fun hyst => ?_, fun hyst => ?_⟩ <;> rw [hyst] at hst <;>
      generalize x.status = st at hst ⊢
    · cases hst
      exact rfl
    · cases hst with
      | same => exact Or.inr rfl
      | win => exact Or.inl rfl
  · exact ⟨x, (hcalm.swap h).trans hx, .refl x⟩

/-- A mark stays in the log. -/
theorem log_suffix_of_onward (hs : Reachable cfg now s)
    (hon : (relay cfg).Onward (fun _ _ => True) s s') : s.world.log <:+ s'.world.log := by
  refine hon.along (fun s => s.world.log) (T := fun l l' => l <:+ l') List.suffix_refl
    (fun h h' => h.trans h') hs ?_
  intro s₁ s₂ a _ _ hstep
  rcases world_of_step hstep with ⟨tid, c, o, k, a, r, sp, -, -, hp⟩ | hcalm
  · rw [(effect_of_perform hp).log]
    exact List.suffix_cons _ _
  · exact hcalm.log ▸ List.suffix_refl _

/-- Any stretch of a run. -/
theorem forward_of_onward (hs : Reachable cfg now s)
    (hon : (relay cfg).Onward (fun _ _ => True) s s') (hx : s.world.swap h = some x) :
    ∃ y, s'.world.swap h = some y ∧ Forward x y := by
  refine hon.keep (P := fun s => ∃ y, s.world.swap h = some y ∧ Forward x y) hs
    ⟨x, hx, .refl x⟩ ?_
  rintro s₁ s₂ a hs₁ - hstep ⟨y, hy, hxy⟩
  obtain ⟨z, hz, hyz⟩ := forward_step hs₁ hstep hy
  exact ⟨z, hz, hxy.trans hyz⟩

/-- In any stretch of any run, through crashes and recovery: a swap keeps the columns of its request,
never goes back to Pending or Fulfilling, and never changes sides between Completed and Expired. -/
theorem swap_history (hs : Reachable cfg now s) (hon : (relay cfg).Onward (fun _ _ => True) s s')
    (hx : s.world.swap h = some x) : ∃ y, s'.world.swap h = some y ∧
      y = { x with status := y.status, cardanoTxHash := y.cardanoTxHash } ∧
      x.status.mayBecome y.status = true := by
  obtain ⟨L, hL⟩ := (verdict_sound cfg now).holds hs
  obtain ⟨L', hL'⟩ := (verdict_sound cfg now).holds (hs.onward hon)
  have hV := hL.shared.2 h
  have hV' := hL'.shared.2 h
  have hlog := log_suffix_of_onward hs hon
  obtain ⟨y, hy, hxy⟩ := forward_of_onward hs hon hx
  refine ⟨y, hy, hxy.request, ?_⟩
  have hpending := hxy.pending
  have hfulfilling := hxy.fulfilling
  have hcompleted : x.status = .completed → y.status = .completed ∨ y.status = .failed := by
    intro hst
    obtain ⟨e, he, hcom⟩ := hV.ofCompleted x hx hst
    exact hV'.completedRow ⟨e, hlog.mem he, hcom⟩ y hy
  have hexpired : x.status = .expired → y.status = .expired ∨ y.status = .failed := by
    intro hst
    obtain ⟨e, he, hex⟩ := hV.ofExpired x hx hst
    exact hV'.expiredRow ⟨e, hlog.mem he, hex⟩ y hy
  generalize x.status = st at *
  generalize y.status = st' at *
  cases st <;> cases st' <;> simp_all [SwapStatus.mayBecome]

end

set_option maxRecDepth 100000 in
/-- The first swap of the devnet, read before its fulfilment and after it. -/
theorem swap_history_fulfilled : ∃ s s' x y, Reachable Devnet.config Devnet.startTime s ∧
    (relay Devnet.config).Onward (fun _ _ => True) s s' ∧
    s.world.swap Devnet.invoice1.paymentHash = some x ∧ x.status = .pending ∧
    s'.world.swap Devnet.invoice1.paymentHash = some y ∧ y.status = .completed ∧
    y = { x with status := y.status, cardanoTxHash := y.cardanoTxHash } := by
  obtain ⟨s, s', hs, hon, hp⟩ := Devnet.onward_of_after Devnet.claimedRun
    (Devnet.fulfilledRun.drop Devnet.claimedRun.length) (fun s s' =>
      ((s.world.swap Devnet.invoice1.paymentHash).any fun x => x.status = .pending) &&
      (s'.world.swap Devnet.invoice1.paymentHash).any fun y => y.status = .completed)
    (by decide +kernel)
  simp only [Bool.and_eq_true, Option.any_eq_true, decide_eq_true_eq] at hp
  obtain ⟨⟨x, hx, hxst⟩, y, hy, hyst⟩ := hp
  obtain ⟨z, hz, hrequest, -⟩ := swap_history hs hon hx
  obtain rfl : z = y := Option.some.inj (hz.symm.trans hy)
  exact ⟨s, s', x, z, hs, hon, hx, hxst, hy, hyst, hrequest⟩

end Onramp

end LightningRelay
