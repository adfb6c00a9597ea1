import LightningRelay.Devnet
import LightningRelay.Value

/-!
# Deposits that strand their offramp

`process_offramp_deposit` moves its row to PendingVerification and to PayingLightning before it waits,
and moves it on after it has waited.  A row in PendingVerification, or in PayingLightning without a
payment that LDK has accepted, is `stranded` when no such call works on it any more.

* `devnet_offramp_stranded`: the client disconnects while its deposit is verified.
* `deposit_never_strands`: where no handler is dropped that works on a row in such a status
  (`patient`), no offramp is stranded once the startup recovery is over.
-/

set_option autoImplicit false

namespace LightningRelay

open Async

/-- The statuses in which a row waits for the deposit that put it there. -/
def OfframpStatus.tied : OfframpStatus → Bool
  | .pendingVerification | .payingLightning => true
  | _ => false

namespace Entry

/-- LDK has accepted a payment. -/
def hands : Entry → Bool
  | ⟨_, _, .ldk (.payForBolt11Invoice _ _), .ok _⟩ => true
  | _ => false

/-- The entry is the third query of `recover_depositing_offramps`, after which it looks for neither of
the two statuses. -/
def scans (e : Entry) : Bool := e.op = .db (.getOfframpsByStatus .depositingToPool)

end Entry

namespace World

/-- A payment of the offramp was handed to LDK by its deposit. -/
def handedOver (w : World) (r : OfframpMapping) : Bool :=
  w.attempts.any fun a => Payout.depositFor r.offrampId a.payer && a.paymentHash = r.paymentHash

/-- The row is in PendingVerification, or in PayingLightning while its payment was not handed to LDK. -/
def waits (w : World) (id : ℤ) : Bool :=
  (w.offramp id).any fun r =>
    r.status = .pendingVerification || r.status = .payingLightning && !w.handedOver r

end World

/-- The task is in `process_offramp_deposit`, which begins with reading the row and has nothing left to
do when LDK has accepted the payment. -/
def inProcess (s : Sys) (id : ℤ) (tid : ℕ) : Bool :=
  (s.tasks tid).any (fun t => Payout.depositFor id t.call && !t.rest.ended) &&
    s.world.log.any (fun e => e.tid = tid && e.op = .db (.getOfframpById id)) &&
    s.world.log.all fun e => e.tid != tid || !e.hands

/-- Some call of `process_offramp_deposit` for the offramp is active. -/
def processing (s : Sys) (id : ℤ) : Bool := (List.range s.next).any (inProcess s id)

/-- The startup recovery of the running process has come past PendingVerification and
PayingLightning. -/
def recovered (s : Sys) : Bool :=
  (List.range s.next).any fun tid => (s.tasks tid).any (fun t => t.call = .startLdk) &&
    s.world.log.any fun e => e.tid = tid && e.scans

/-- No handler is dropped in `process_offramp_deposit` while its row waits for it. -/
def patient (s : Sys) : Act → Bool
  | .env (.disconnect tid) => (s.tasks tid).all fun t =>
    match t.call with
    | .handleOfframpDeposit _ req =>
      !(inProcess s req.offrampId tid && s.world.waits req.offrampId)
    | _ => true
  | _ => true

namespace Strand

open Payout (invoiceOf fits)
open Value (Ready)

/-! ## The protocol -/

/-- How far a task has got. -/
inductive Stage where
  | idle
  /-- A deposit that has done nothing; that has read its row; that has won it; that has moved it to
  PayingLightning. -/
  | fresh
  | read (m : OfframpMapping)
  | verifying (m : OfframpMapping)
  | paying (m : OfframpMapping)
  /-- A deposit has moved a row that it cannot pay. -/
  | stuck
  /-- The startup before its recovery of offramps; with the rows to reset; with the rows to fail; past
  them. -/
  | booting
  | resetting (rows : List OfframpMapping)
  | failing (rows : List OfframpMapping)
  | cleared

namespace Stage

/-- Stages in which a task may end. -/
def done : Stage → Bool
  | .idle | .fresh | .read _ => true
  | _ => false

/-- The row that a deposit works on. -/
def row? : Stage → Option OfframpMapping
  | .read m | .verifying m | .paying m => some m
  | _ => none

/-- Stages of a deposit that has not handed a payment to LDK. -/
def unpaid : Stage → Bool
  | .fresh | .read _ | .verifying _ | .paying _ => true
  | _ => false

/-- Stages of the startup. -/
def boots : Stage → Bool
  | .booting | .resetting _ | .failing _ | .cleared => true
  | _ => false

/-- What the startup has achieved. -/
def Achieved (w : World) : Stage → Prop
  | .resetting rows => ∀ k r, w.offramp k = some r → r.status = .pendingVerification →
      k ∈ rows.map (·.offrampId)
  | .failing rows => ∀ k r, w.offramp k = some r → r.status ≠ .pendingVerification ∧
      (r.status = .payingLightning → k ∈ rows.map (·.offrampId))
  | .cleared => ∀ k r, w.offramp k = some r → r.status.tied = false
  | .stuck => False
  | _ => True

end Stage

/-- Operations that put no row into one of the two statuses. -/
def quiet : Op → Bool
  | .db (.insertOfframp m) => !m.status.tied
  | .db (.updateOfframpStatus _ st _ _ _) => !st.tied
  | .db (.transitionOfframpStatus _ _ n) => !n.tied
  | .db (.transitionOfframpWithCbtcTx _ _ _ n) => !n.tied
  | .db (.getOfframpsByStatus _) | .ldk (.payForBolt11Invoice _ _) | .serve => false
  | .spawn c => !c.isHttp && c ≠ .startLdk
  | _ => true

/-- The operations of the tasks on rows in the two statuses. -/
inductive Move (cfg : Config) : Call → Stage → (o : Op) → o.Resp → Stage → Prop where
  | quiet {c : Call} {l : Stage} {o : Op} {r : o.Resp} : quiet o = true → Move cfg c l o r l
  | list {c : Call} {l : Stage} {st : OfframpStatus} {rows : List OfframpMapping} : c ≠ .startLdk →
      Move cfg c l (.db (.getOfframpsByStatus st)) rows l
  | cli {i : String} {amt amt' : Option ℕ} {invoice : Bolt11Invoice} {r : Except String Unit} :
      Move cfg (.sendpayment i amt) .idle (.ldk (.payForBolt11Invoice invoice amt')) r .idle
  -- process_offramp_deposit
  | read {ip tx : String} {id : ℤ} {m : OfframpMapping} :
      Move cfg (.handleOfframpDeposit ip ⟨id, tx⟩) .fresh (.db (.getOfframpById id)) (some m) (.read m)
  | claim {ip tx : String} {id : ℤ} {m : OfframpMapping} :
      Move cfg (.handleOfframpDeposit ip ⟨id, tx⟩) (.read m)
        (.db (.transitionOfframpStatus id .awaitingDeposit .pendingVerification)) true (.verifying m)
  | missed {ip tx : String} {id : ℤ} {m : OfframpMapping} :
      Move cfg (.handleOfframpDeposit ip ⟨id, tx⟩) (.read m)
        (.db (.transitionOfframpStatus id .awaitingDeposit .pendingVerification)) false .idle
  | revert {ip tx : String} {id : ℤ} {m : OfframpMapping} {e : Option String} :
      Move cfg (.handleOfframpDeposit ip ⟨id, tx⟩) (.verifying m)
        (.db (.updateOfframpStatus id .awaitingDeposit none none e)) () .idle
  | move {ip tx : String} {id : ℤ} {m : OfframpMapping} : Ready cfg m →
      Move cfg (.handleOfframpDeposit ip ⟨id, tx⟩) (.verifying m)
        (.db (.transitionOfframpWithCbtcTx id tx .pendingVerification .payingLightning)) true
        (.paying m)
  | strand {ip tx : String} {id : ℤ} {m : OfframpMapping} : ¬ Ready cfg m →
      Move cfg (.handleOfframpDeposit ip ⟨id, tx⟩) (.verifying m)
        (.db (.transitionOfframpWithCbtcTx id tx .pendingVerification .payingLightning)) true .stuck
  | overtaken {ip tx : String} {id : ℤ} {m : OfframpMapping} :
      Move cfg (.handleOfframpDeposit ip ⟨id, tx⟩) (.verifying m)
        (.db (.transitionOfframpWithCbtcTx id tx .pendingVerification .payingLightning)) false .idle
  | pay {ip tx : String} {id : ℤ} {m : OfframpMapping} {invoice : Bolt11Invoice} {amt : ℕ} {u : Unit} :
      invoiceOf cfg m = some (invoice, amt) →
      Move cfg (.handleOfframpDeposit ip ⟨id, tx⟩) (.paying m)
        (.ldk (.payForBolt11Invoice invoice (some amt))) (.ok u) .idle
  | refuse {ip tx : String} {id : ℤ} {m : OfframpMapping} {invoice : Bolt11Invoice} {amt : ℕ}
      {e : String} :
      Move cfg (.handleOfframpDeposit ip ⟨id, tx⟩) (.paying m)
        (.ldk (.payForBolt11Invoice invoice (some amt))) (.error e) (.paying m)
  | giveUp {ip tx : String} {id : ℤ} {m : OfframpMapping} {e : Option String} :
      Move cfg (.handleOfframpDeposit ip ⟨id, tx⟩) (.paying m)
        (.db (.updateOfframpStatus id .failed none none e)) () .idle
  | hopeless {c : Call} {o : Op} {r : o.Resp} : Move cfg c .stuck o r .stuck
  -- recover_depositing_offramps
  | listVerifying {rows : List OfframpMapping} :
      Move cfg .startLdk .booting (.db (.getOfframpsByStatus .pendingVerification)) rows
        (.resetting rows)
  | reset {m : OfframpMapping} {rows : List OfframpMapping} {b : Bool} :
      Move cfg .startLdk (.resetting (m :: rows))
        (.db (.transitionOfframpStatus m.offrampId .pendingVerification .awaitingDeposit)) b
        (.resetting rows)
  | listPaying {rows : List OfframpMapping} :
      Move cfg .startLdk (.resetting []) (.db (.getOfframpsByStatus .payingLightning)) rows
        (.failing rows)
  | fail {m : OfframpMapping} {rows : List OfframpMapping} {b : Bool} :
      Move cfg .startLdk (.failing (m :: rows))
        (.db (.transitionOfframpStatus m.offrampId .payingLightning .failed)) b (.failing rows)
  | scan {rows : List OfframpMapping} :
      Move cfg .startLdk (.failing []) (.db (.getOfframpsByStatus .depositingToPool)) rows .cleared
  | serve : Move cfg .startLdk .cleared .serve () .idle

/-- Where a task starts. -/
def start : Call → Stage
  | .startLdk => .booting
  | .handleOfframpDeposit _ _ => .fresh
  | _ => .idle

/-! ## The programs keep to it -/

section

variable {cfg : Config} {ip tx : String} {id : ℤ}

theorem follows_sendPayment {m : OfframpMapping} {invoice : Bolt11Invoice} {amt : ℕ}
    (hinv : invoiceOf cfg m = some (invoice, amt)) (hfit : fits invoice amt = true) :
    Follows (Move cfg (.handleOfframpDeposit ip ⟨id, tx⟩))
      (fun r l => (∀ u, r = .ok u → l = .idle) ∧ ∀ e, r = .error e → l = .paying m)
      (sendPayment invoice (some amt)) (.paying m) := by
  refine follows_stay (fun _ => .quiet rfl) fun _ => ?_
  rcases hamt : paymentAmount invoice.amountMilliSatoshis (some amt) with e | amtMsat
  · simp [fits, hamt] at hfit
  refine follows_stay (fun _ => .quiet rfl) fun _ => follows_stay (fun _ => .quiet rfl) fun _ => ?_
  refine follows_perform ?_
  rintro (e | u)
  · refine ⟨_, .refuse, follows_stay (fun _ => .quiet rfl) ?_⟩
    rintro (_ | _)
    · intro r
      cases r
    · refine follows_stay (fun _ => .quiet rfl) fun _ => ⟨?_, fun _ _ => rfl⟩
      intro u hu
      cases hu
  · refine ⟨_, .pay hinv, fun _ _ => rfl, ?_⟩
    intro e he
    cases he

theorem follows_payOfframp {m : OfframpMapping} (hready : Ready cfg m) :
    Follows (Move cfg (.handleOfframpDeposit ip ⟨id, tx⟩)) (fun _ l => l = .idle)
      (payOfframp cfg id m) (.paying m) := by
  obtain ⟨invoice, amt, hinv, hfit⟩ := hready
  obtain ⟨hparse, hamt⟩ := Value.invoiceOf_eq_some.1 hinv
  unfold payOfframp
  simp only [hparse, hamt]
  refine (follows_sendPayment hinv hfit).bind ?_
  rintro (e | u) l ⟨hok, herr⟩
  · obtain rfl := herr e rfl
    exact follows_perform fun _ => ⟨_, .giveUp, rfl⟩
  · exact hok u rfl

theorem follows_processOfframpDeposit :
    Follows (Move cfg (.handleOfframpDeposit ip ⟨id, tx⟩)) (fun _ l => l.done = true ∨ l = .stuck)
      (processOfframpDeposit cfg id tx) .fresh := by
  refine follows_perform ?_
  rintro (_ | m)
  · exact ⟨_, .quiet rfl, Or.inl rfl⟩
  refine ⟨_, .read, follows_stay (fun _ => .quiet rfl) fun existing => ?_⟩
  rcases usedByOther id existing with _ | other
  swap
  · exact Or.inl rfl
  refine follows_perform ?_
  rintro (_ | _)
  · exact ⟨_, .missed, Or.inl rfl⟩
  refine ⟨_, .claim, follows_stay (fun _ => .quiet rfl) ?_⟩
  rintro (e | _ | _)
  · exact follows_perform fun _ => ⟨_, .revert, Or.inl rfl⟩
  · exact follows_perform fun _ => ⟨_, .revert, Or.inl rfl⟩
  refine follows_perform ?_
  rintro (_ | _)
  · exact ⟨_, .overtaken, Or.inl rfl⟩
  by_cases hready : Ready cfg m
  · refine ⟨_, .move hready, (follows_payOfframp hready).mono ?_⟩
    rintro _ _ rfl
    exact Or.inl rfl
  · refine ⟨_, .strand hready, ?_⟩
    exact (Prog.Only.follows (Footprint.payOfframp cfg id m) fun _ _ _ => .hopeless).mono
      fun _ _ hl => Or.inr hl

theorem follows_handleOfframpDeposit :
    Follows (Move cfg (.handleOfframpDeposit ip ⟨id, tx⟩)) (fun _ l => l.done = true ∨ l = .stuck)
      (handleOfframpDeposit cfg ip ⟨id, tx⟩) .fresh := by
  refine follows_stay (fun _ => .quiet rfl) fun allowed => ?_
  split_ifs
  · exact Or.inl rfl
  · exact Or.inl rfl
  · exact Or.inl rfl
  refine follows_processOfframpDeposit.bind ?_
  rintro (e | _) l hl
  · exact hl
  refine follows_stay (fun _ => .quiet rfl) ?_
  rintro (_ | m) <;> exact hl

theorem quiet_of_recoversSwaps {o : Op} (h : o.recoversSwaps = true) : quiet o = true := by
  unfold Op.recoversSwaps at h
  split at h <;> first | rfl | cases h

theorem quiet_of_cancelsExpired {o : Op} (h : o.cancelsExpired = true) : quiet o = true := by
  unfold Op.cancelsExpired at h
  split at h <;> first | rfl | cases h

theorem only_recoverDepositing (m : OfframpMapping) :
    (recoverDepositing m).Only fun o => quiet o = true := by
  refine (only_queryStateWithRetry (P := fun o => quiet o = true) (fun _ => rfl) rfl).bind ?_
  rintro (e | offramp)
  · exact only_last rfl
  refine only_perform rfl ?_
  rintro (e | hex)
  · trivial
  refine only_perform rfl ?_
  rintro (e | txHash)
  · trivial
  · exact only_last rfl

theorem follows_recoverDepositingOfframps :
    Follows (Move cfg .startLdk) (fun _ l => l = .cleared) recoverDepositingOfframps .booting := by
  refine follows_perform fun verifying => ⟨_, .listVerifying, ?_⟩
  refine (follows_forEach_todo verifying fun m rows => ?_).bind ?_
  · exact follows_perform fun _ => ⟨_, .reset, rfl⟩
  rintro _ _ rfl
  refine follows_perform fun paying => ⟨_, .listPaying, ?_⟩
  refine (follows_forEach_todo paying fun m rows => ?_).bind ?_
  · refine follows_perform ?_
    rintro (_ | _)
    · exact ⟨_, .fail, rfl⟩
    · exact ⟨_, .fail, follows_last fun _ => ⟨_, .quiet rfl, rfl⟩⟩
  rintro _ _ rfl
  refine follows_perform fun stuck => ⟨_, .scan, follows_forEach stuck fun m _ => ?_⟩
  exact (only_recoverDepositing m).follows fun _ _ ho => .quiet ho

theorem follows_startLdk :
    Follows (Move cfg .startLdk) (fun _ l => l = .idle) (startLdk cfg) .booting := by
  have hrest : Follows (Move cfg .startLdk) (fun _ l => l = .idle) (do
      spawn .monitorExpiredSwaps
      spawn .monitorExpiredOfframps
      serve) .cleared :=
    follows_stay (fun _ => .quiet rfl) fun _ => follows_stay (fun _ => .quiet rfl) fun _ =>
      follows_last fun _ => ⟨_, .serve, rfl⟩
  refine (Prog.Only.follows Footprint.recoverFulfillingSwaps
    fun _ _ ho => .quiet (quiet_of_recoversSwaps ho)).bind ?_
  rintro _ _ rfl
  refine follows_recoverDepositingOfframps.bind ?_
  rintro _ _ rfl
  split_ifs
  · refine (Prog.Only.follows Footprint.cancelExpired
      fun _ _ ho => .quiet (quiet_of_cancelsExpired ho)).bind ?_
    rintro _ _ rfl
    refine (Prog.Only.follows Footprint.cancelExpiredOfframps
      fun _ _ ho => .quiet (quiet_of_cancelsExpired ho)).bind ?_
    rintro _ _ rfl
    exact hrest
  · exact hrest

/-- The other tasks put no row into one of the two statuses. -/
theorem move_of_payout {c : Call} {o : Op} {r : o.Resp} {l l' : Payout.Stage}
    (hboot : c ≠ .startLdk) (hdeposit : ∀ ip req, c ≠ .handleOfframpDeposit ip req)
    (hm : Payout.Move cfg c l o r l') : Move cfg c .idle o r .idle := by
  cases hm with
  | quiet ho =>
    cases o with
    | db call =>
      cases call with
      | getOfframpsByStatus st => exact .list hboot
      | _ => first | exact .quiet rfl | cases ho
    | ldk call => cases call <;> first | exact .quiet rfl | cases ho
    | serve | spawn => cases ho
    | _ => exact .quiet rfl
  | @spawn _ c' _ hplain => exact .quiet (by cases c' <;> first | rfl | cases hplain)
  | @request _ _ _ m _ hreq => exact .quiet (by simp [quiet, hreq.status, OfframpStatus.tied])
  | payCli => exact .cli
  | advance hst =>
    rcases hst with rfl | rfl
    · exact .quiet rfl
    · exact .quiet rfl
  | read | unused | used | claim | missed | verified | rejected | revert | record | unpayable
  | overtaken | enter | misfit | pay => exact absurd rfl (hdeposit _ _)
  | reset | failPaying | scan | recover | finish | serve => exact absurd rfl hboot
  | _ => exact .quiet rfl

theorem body_follows (c : Call) :
    Follows (Move cfg c) (fun _ l => l.done = true ∨ l = .stuck) (body cfg c) (start c) := by
  by_cases hboot : c = .startLdk
  · subst hboot
    exact follows_startLdk.mono fun _ _ hl => Or.inl (hl ▸ rfl)
  by_cases hdeposit : ∃ ip req, c = .handleOfframpDeposit ip req
  · obtain ⟨ip, ⟨id, tx⟩, rfl⟩ := hdeposit
    exact follows_handleOfframpDeposit.bind fun _ _ hl => hl
  have hidle : start c = .idle := by
    cases c with
    | startLdk => exact absurd rfl hboot
    | handleOfframpDeposit ip req => exact absurd ⟨ip, req, rfl⟩ hdeposit
    | _ => rfl
  rw [hidle]
  refine (Payout.body_follows cfg c).map (fun _ => Stage.idle) (fun hm => ?_) fun _ => Or.inl rfl
  exact move_of_payout hboot (fun ip req heq => hdeposit ⟨ip, req, heq⟩) hm

end

/-! ## Where the two statuses come from -/

section

variable {cfg : Config} {tid : ℕ} {c : Call} {l l' n : Stage} {o : Op} {r : o.Resp} {w w' : World}
  {sp : Option Call} {k : ℤ} {x y : OfframpMapping}

/-- The row that a deposit has put into one of the two statuses. -/
inductive Puts (cfg : Config) (k : ℤ) : Call → Stage → Stage → OfframpStatus → Prop where
  | claim {ip tx : String} {m : OfframpMapping} :
      Puts cfg k (.handleOfframpDeposit ip ⟨k, tx⟩) (.read m) (.verifying m) .pendingVerification
  | move {ip tx : String} {m : OfframpMapping} : Ready cfg m →
      Puts cfg k (.handleOfframpDeposit ip ⟨k, tx⟩) (.verifying m) (.paying m) .payingLightning
  | strand {ip tx : String} {m : OfframpMapping} : ¬ Ready cfg m →
      Puts cfg k (.handleOfframpDeposit ip ⟨k, tx⟩) (.verifying m) .stuck .payingLightning

/-- A quiet write does not put a row into one of the two statuses. -/
theorem false_of_tied {st : OfframpStatus} (hquiet : (!st.tied) = true) (ht : st.tied = true) :
    False := by
  rw [ht] at hquiet
  cases hquiet

/-- A row is in one of the two statuses as before, or because a deposit has put it there. -/
theorem tied_origin (he : Effect tid c o r w w' sp) (hm : Move cfg c l o r l') (hl : l ≠ .stuck)
    (hy : w'.offramp k = some y) (ht : y.status.tied = true) :
    (∃ x, w.offramp k = some x ∧ x.status = y.status) ∨ Puts cfg k c l l' y.status := by
  rcases hx : w.offramp k with _ | x
  · -- a new row
    obtain ⟨m, rfl, rfl⟩ := he.offramp_of_none hx hy
    cases hm with
    | quiet ho => exact (false_of_tied ho ht).elim
    | hopeless => exact absurd rfl hl
  obtain ⟨y', hy', hcase⟩ := he.offramp_cases hx
  obtain rfl := Option.some.inj (hy.symm.trans hy')
  rcases hcase with rfl | ⟨st, p, d, e, rfl, rfl⟩ | ⟨new, ho, rfl⟩ | ⟨tx, new, ho, rfl⟩
  · exact Or.inl ⟨y, rfl, rfl⟩
  · cases hm with
    | quiet ho => exact (false_of_tied ho ht).elim
    | revert | giveUp => cases ht
    | hopeless => exact absurd rfl hl
  · generalize hst : x.status = st at ho
    subst ho
    cases hm with
    | quiet ho => exact (false_of_tied ho ht).elim
    | claim => exact Or.inr .claim
    | missed =>
      have hlost : false = true :=
        he.answered.trans (SwapDb.transitionOfframpStatus_fst_iff.2 ⟨x, hx, hst⟩)
      cases hlost
    | reset | fail => cases ht
    | hopeless => exact absurd rfl hl
  · generalize hst : x.status = st at ho
    subst ho
    cases hm with
    | quiet ho => exact (false_of_tied ho ht).elim
    | move hready => exact Or.inr (.move hready)
    | strand hnot => exact Or.inr (.strand hnot)
    | overtaken =>
      have hlost : false = true :=
        he.answered.trans (SwapDb.transitionOfframpWithCbtcTx_fst_iff.2 ⟨x, hx, hst⟩)
      cases hlost
    | hopeless => exact absurd rfl hl

/-- No row gets into one of the two statuses. -/
def NoneTied (w w' : World) : Prop :=
  ∀ k y, w'.offramp k = some y → y.status.tied = true → ∃ x, w.offramp k = some x ∧ x.status = y.status

theorem NoneTied.status (h : NoneTied w w') {st : OfframpStatus} (hy : w'.offramp k = some y)
    (hst : y.status = st) (ht : st.tied = true) : ∃ x, w.offramp k = some x ∧ x.status = st := by
  subst hst
  exact h k y hy ht

/-- Outside a deposit no row gets into one of the two statuses. -/
theorem noneTied_of_not_http (he : Effect tid c o r w w' sp) (hm : Move cfg c l o r l')
    (hl : l ≠ .stuck) (hc : c.isHttp = false) : NoneTied w w' := by
  intro k y hy ht
  rcases tied_origin he hm hl hy ht with h | h
  · exact h
  · generalize y.status = st at h
    cases h <;> cases hc

/-! ## What a task knows -/

/-- What holds of a task in its stage. -/
structure Knows (w : World) (tid : ℕ) (c : Call) (l : Stage) : Prop where
  http : c.isHttp = true → w.serving = true
  boot : c = .startLdk → l.boots = true ∨ l = .idle ∧ w.serving = true
  boots : l.boots = true → c = .startLdk ∧ w.serving = false
  row : ∀ m, l.row? = some m → ∃ ip id tx, c = .handleOfframpDeposit ip ⟨id, tx⟩ ∧ w.Matches id m ∧
    ∃ e ∈ w.log, e.tid = tid ∧ e.op = .db (.getOfframpById id)
  unpaid : l.unpaid = true → ∀ e ∈ w.log, e.tid = tid → e.hands = false
  early : l.boots = true → l ≠ .cleared → ∀ e ∈ w.log, e.tid = tid → e.scans = false
  achieved : l.Achieved w

/-- The startup's rows, when no row gets into one of the two statuses. -/
theorem achieved_mono (hold : NoneTied w w') (h : l.Achieved w) : l.Achieved w' := by
  cases l with
  | resetting rows =>
    intro k y hy hst
    obtain ⟨x, hx, hxst⟩ := hold.status hy hst rfl
    exact h k x hx hxst
  | failing rows =>
    intro k y hy
    constructor
    · intro hst
      obtain ⟨x, hx, hxst⟩ := hold.status hy hst rfl
      exact (h k x hx).1 hxst
    · intro hst
      obtain ⟨x, hx, hxst⟩ := hold.status hy hst rfl
      exact (h k x hx).2 hxst
  | cleared =>
    intro k y hy
    by_contra ht
    rw [Bool.not_eq_false] at ht
    obtain ⟨x, hx, hxst⟩ := hold k y hy ht
    have hfree := h k x hx
    rw [hxst, ht] at hfree
    cases hfree
  | stuck => exact h
  | _ => trivial

/-- Outside the startup and off the dead end there is nothing to achieve. -/
theorem achieved_of_not_boots (hb : ¬ l.boots = true) (h : l.Achieved w) : l.Achieved w' := by
  cases l with
  | booting | resetting | failing | cleared => exact absurd rfl hb
  | stuck => exact h
  | _ => trivial

/-- A row in the old status is moved by a guarded transition. -/
theorem moved_of_transition {e' n' : OfframpStatus} (he : Effect tid c o r w w' sp)
    (ho : o = .db (.transitionOfframpStatus k e' n')) (hy : w'.offramp k = some y)
    (hne : n' ≠ e') : y.status ≠ e' := by
  subst ho
  have hrow := he.offramp k
  rw [hy] at hrow
  simp only [Op.onOfframp, DbCall.onOfframp, if_true] at hrow
  obtain ⟨x, hx, hmoved⟩ := Option.map_eq_some_iff.1 hrow.symm
  rw [← hmoved, OfframpMapping.moved]
  split_ifs with hst
  · exact hne
  · exact hst

/-- A row in a status is in the answer to a query for it. -/
theorem mem_listed {st : OfframpStatus} (hx : w.offramp k = some x) (hst : x.status = st) :
    k ∈ (w.db.getOfframpsByStatus st).map (·.offrampId) := by
  have hid : x.offrampId = k := SwapDb.offrampId_of_getOfframpById hx
  refine List.mem_map.2 ⟨x, SwapDb.mem_getOfframpsByStatus.2 ⟨?_, hst⟩, hid⟩
  rw [hid]
  exact hx

/-- The row that a deposit works on can be paid, and its payment has the hash of the row. -/
theorem Knows.payable (hK : Knows w tid c l)
    (hP : ∀ k x, w.offramp k = some x → Payout.Payable cfg x) {m : OfframpMapping}
    (hl : l.row? = some m) : Payout.Payable cfg m := by
  obtain ⟨ip, id, tx, -, ⟨x, hx, hs⟩, -⟩ := hK.row m hl
  exact (hP _ x hx).congr ⟨hs.1.symm, hs.2.symm, hs.3.symm, hs.4.symm, hs.5.symm, hs.6.symm⟩

theorem ne_stuck (hK : Knows w tid c l) : l ≠ .stuck := by
  rintro rfl
  exact hK.achieved

/-- A task in the startup is no handler of a request. -/
theorem not_http_of_boots (hK : Knows w tid c l) (hl : l.boots = true) : c.isHttp = false := by
  rw [(hK.boots hl).1]
  rfl

theorem scans_of_quiet (ho : quiet o = true) : (⟨tid, c, o, r⟩ : Entry).scans = false := by
  refine decide_eq_false ?_
  rintro rfl
  cases ho

theorem hands_of_quiet (ho : quiet o = true) : (⟨tid, c, o, r⟩ : Entry).hands = false := by
  unfold Entry.hands
  split
  next he =>
    obtain ⟨-, -, rfl, -⟩ := Entry.mk.inj he
    cases ho
  next => rfl

/-- Only the startup lets the API serve. -/
theorem serving_of_move (he : Effect tid c o r w w' sp) (hm : Move cfg c l o r l') (hl : l ≠ .stuck) :
    w'.serving = w.serving ∨ c = .startLdk ∧ l = .cleared ∧ l' = .idle ∧ w'.serving = true := by
  by_cases ho : o = .serve
  · subst ho
    cases hm with
    | quiet ho => cases ho
    | serve => exact Or.inr ⟨rfl, rfl, rfl, by simp [he.serving]⟩
    | hopeless => exact absurd rfl hl
  · exact Or.inl (by simp [he.serving, ho])

theorem serving_mono (he : Effect tid c o r w w' sp) (h : w.serving = true) : w'.serving = true := by
  simp [he.serving, h]

/-- What other tasks leave to a task. -/
theorem knows_other (he : Effect tid c o r w w' sp) (hm : Move cfg c l o r l') (hK : Knows w tid c l)
    {i : ℕ} (hi : i ≠ tid) {d : Call} (hN : Knows w i d n) (hap : c = .startLdk → d ≠ .startLdk) :
    Knows w' i d n := by
  have hold : ∀ e ∈ w'.log, e.tid = i → e ∈ w.log := by
    intro e hmem htid
    rw [he.log] at hmem
    rcases List.mem_cons.1 hmem with rfl | hmem
    · exact absurd htid.symm hi
    · exact hmem
  refine ⟨fun h => serving_mono he (hN.http h), ?_, ?_, ?_, ?_, ?_, ?_⟩
  · intro hd
    exact (hN.boot hd).imp_right fun ⟨hidle, hs⟩ => ⟨hidle, serving_mono he hs⟩
  · intro hb
    obtain ⟨hd, hs⟩ := hN.boots hb
    rcases serving_of_move he hm (ne_stuck hK) with hsame | ⟨hc, -⟩
    · exact ⟨hd, hsame.trans hs⟩
    · exact absurd hd (hap hc)
  · intro m hrow
    obtain ⟨ip, id, tx, hd, hmatch, e, hmem, hread⟩ := hN.row m hrow
    refine ⟨ip, id, tx, hd, Value.matches_mono he hmatch, e, ?_, hread⟩
    rw [he.log]
    exact List.mem_cons_of_mem _ hmem
  · exact fun hu e hmem htid => hN.unpaid hu e (hold e hmem htid) htid
  · exact fun hb hne e hmem htid => hN.early hb hne e (hold e hmem htid) htid
  · by_cases hb : n.boots = true
    · -- deposits come when the startup is over
      have hc : c.isHttp = false := by
        by_contra hc
        rw [Bool.not_eq_false] at hc
        have hserving := hK.http hc
        rw [(hN.boots hb).2] at hserving
        cases hserving
      exact achieved_mono (noneTied_of_not_http he hm (ne_stuck hK) hc) hN.achieved
    · exact achieved_of_not_boots hb hN.achieved

/-- What no entry of the task was, if the new one is not either. -/
theorem entries_move {p : Entry → Bool} (he : Effect tid c o r w w' sp)
    (hnew : p ⟨tid, c, o, r⟩ = false) (hold : ∀ e ∈ w.log, e.tid = tid → p e = false) :
    ∀ e ∈ w'.log, e.tid = tid → p e = false := by
  intro e hmem htid
  rw [he.log] at hmem
  rcases List.mem_cons.1 hmem with rfl | hmem
  · exact hnew
  · exact hold e hmem htid

/-- The row that a task has read, after an operation. -/
theorem row_kept (he : Effect tid c o r w w' sp) (hK : Knows w tid c l) {m : OfframpMapping}
    (hl : l.row? = some m) : ∃ ip id tx, c = .handleOfframpDeposit ip ⟨id, tx⟩ ∧ w'.Matches id m ∧
      ∃ e ∈ w'.log, e.tid = tid ∧ e.op = .db (.getOfframpById id) := by
  obtain ⟨ip, id, tx, hc, hmatch, e, hmem, hread⟩ := hK.row m hl
  exact ⟨ip, id, tx, hc, Value.matches_mono he hmatch, e, he.log ▸ List.mem_cons_of_mem _ hmem, hread⟩

/-- While the startup goes on, the API does not serve. -/
theorem boots_kept (he : Effect tid c o r w w' sp) (hm : Move cfg c l o r l') (hK : Knows w tid c l)
    (hb : l.boots = true) (hb' : l'.boots = true) : c = .startLdk ∧ w'.serving = false := by
  obtain ⟨hc, hs⟩ := hK.boots hb
  rcases serving_of_move he hm (ne_stuck hK) with hsame | ⟨-, -, rfl, -⟩
  · exact ⟨hc, hsame.trans hs⟩
  · cases hb'

/-- What the startup achieves by an operation. -/
theorem achieved_move (he : Effect tid c o r w w' sp) (hm : Move cfg c l o r l')
    (hK : Knows w tid c l) (hP : ∀ k x, w.offramp k = some x → Payout.Payable cfg x) :
    l'.Achieved w' := by
  have hold : c.isHttp = false → NoneTied w w' := noneTied_of_not_http he hm (ne_stuck hK)
  cases hm with
  | quiet | list =>
    by_cases hb : l.boots = true
    · exact achieved_mono (hold (not_http_of_boots hK hb)) hK.achieved
    · exact achieved_of_not_boots hb hK.achieved
  | strand hnot => exact absurd (Value.ready_of_payable (hK.payable hP rfl)) hnot
  | hopeless => exact absurd rfl (ne_stuck hK)
  | listVerifying =>
    intro k y hy hst
    obtain ⟨x, hx, hxst⟩ := (hold rfl).status hy hst rfl
    rw [show _ = w.db.getOfframpsByStatus .pendingVerification from he.answered]
    exact mem_listed hx hxst
  | reset =>
    intro k y hy hst
    obtain ⟨x, hx, hxst⟩ := (hold rfl).status hy hst rfl
    rcases List.mem_cons.1 (hK.achieved k x hx hxst) with rfl | hin
    · exact absurd hst (moved_of_transition he rfl hy nofun)
    · exact hin
  | listPaying =>
    intro k y hy
    constructor
    · intro hst
      obtain ⟨x, hx, hxst⟩ := (hold rfl).status hy hst rfl
      exact List.not_mem_nil (hK.achieved k x hx hxst)
    · intro hst
      obtain ⟨x, hx, hxst⟩ := (hold rfl).status hy hst rfl
      rw [show _ = w.db.getOfframpsByStatus .payingLightning from he.answered]
      exact mem_listed hx hxst
  | fail =>
    intro k y hy
    constructor
    · intro hst
      obtain ⟨x, hx, hxst⟩ := (hold rfl).status hy hst rfl
      exact (hK.achieved k x hx).1 hxst
    · intro hst
      obtain ⟨x, hx, hxst⟩ := (hold rfl).status hy hst rfl
      rcases List.mem_cons.1 ((hK.achieved k x hx).2 hxst) with rfl | hin
      · exact absurd hst (moved_of_transition he rfl hy nofun)
      · exact hin
  | scan =>
    intro k y hy
    by_contra ht
    rw [Bool.not_eq_false] at ht
    obtain ⟨x, hx, hxst⟩ := hold rfl k y hy ht
    obtain ⟨hver, hpay⟩ := hK.achieved k x hx
    rw [← hxst] at ht
    rcases hst : x.status with _ | _ | _ | _ | _ | _ <;> rw [hst] at ht <;>
      first | exact hver hst | exact List.not_mem_nil (hpay hst) | cases ht
  | _ => trivial

/-- What a task knows after its own operation. -/
theorem knows_move (he : Effect tid c o r w w' sp) (hm : Move cfg c l o r l') (hK : Knows w tid c l)
    (hP : ∀ k x, w.offramp k = some x → Payout.Payable cfg x) : Knows w' tid c l' := by
  refine ⟨fun h => serving_mono he (hK.http h), ?_, ?_, ?_, ?_, ?_, achieved_move he hm hK hP⟩
  · intro hc
    subst hc
    cases hm with
    | quiet => exact (hK.boot rfl).imp_right fun ⟨hidle, hs⟩ => ⟨hidle, serving_mono he hs⟩
    | list hne => exact absurd rfl hne
    | hopeless => exact absurd rfl (ne_stuck hK)
    | serve => exact Or.inr ⟨rfl, by simp [he.serving]⟩
    | _ => exact Or.inl rfl
  · intro hb'
    have hboot : l.boots = true → c = .startLdk ∧ w'.serving = false :=
      fun hb => boots_kept he hm hK hb hb'
    cases hm with
    | quiet | list => exact hboot hb'
    | listVerifying | reset | listPaying | fail | scan => exact hboot rfl
    | _ => cases hb'
  · intro m hl'
    cases hm with
    | quiet | list => exact row_kept he hK hl'
    | @read ip tx id m =>
      have hfound : w.offramp id = some m := he.answered.symm
      obtain rfl := Option.some.inj hl'
      exact ⟨ip, id, tx, rfl, Value.matches_mono he ⟨_, hfound, .refl _⟩, _,
        he.log ▸ List.mem_cons_self, rfl, rfl⟩
    | claim | move | refuse => exact row_kept he hK hl'
    | _ => cases hl'
  · intro hu
    cases hm with
    | quiet ho => exact entries_move he (hands_of_quiet ho) (hK.unpaid hu)
    | list => exact entries_move he rfl (hK.unpaid hu)
    | read | claim | move | refuse => exact entries_move he rfl (hK.unpaid rfl)
    | _ => cases hu
  · intro hb' hne
    cases hm with
    | quiet ho => exact entries_move he (scans_of_quiet ho) (hK.early hb' hne)
    | list hc => exact absurd (hK.boots hb').1 hc
    | listVerifying | reset | listPaying | fail =>
      exact entries_move he (by simp [Entry.scans]) (hK.early rfl nofun)
    | scan => exact absurd rfl hne
    | _ => cases hb'

theorem knows_calm (hc : Calm w w') (hs : w'.serving = w.serving) (hK : Knows w tid c l) :
    Knows w' tid c l := by
  have hlog := hc.log
  refine ⟨fun h => hs.trans (hK.http h), ?_, fun h => ⟨(hK.boots h).1, hs.trans (hK.boots h).2⟩, ?_,
    ?_, ?_, achieved_mono (fun k y hy _ => ⟨y, (hc.offramp k).symm.trans hy, rfl⟩) hK.achieved⟩
  · exact fun h => (hK.boot h).imp_right fun ⟨hidle, h⟩ => ⟨hidle, hs.trans h⟩
  · intro m hm
    obtain ⟨ip, id, tx, hcall, ⟨x, hx, hsame⟩, hread⟩ := hK.row m hm
    rw [hlog]
    exact ⟨ip, id, tx, hcall, ⟨x, (hc.offramp id).trans hx, hsame⟩, hread⟩
  · rw [hlog]
    exact hK.unpaid
  · rw [hlog]
    exact hK.early

theorem knows_start (hnew : ∀ e ∈ w.log, e.tid < tid) (hboot : c ≠ .startLdk)
    (hhttp : c.isHttp = true → w.serving = true) : Knows w tid c (start c) := by
  have hown : ∀ e ∈ w.log, e.tid ≠ tid := fun e hmem => Nat.ne_of_lt (hnew e hmem)
  have hfirst : start c = .idle ∨ start c = .fresh := by
    cases c with
    | startLdk => exact absurd rfl hboot
    | handleOfframpDeposit => exact Or.inr rfl
    | _ => exact Or.inl rfl
  refine ⟨hhttp, fun h => absurd h hboot, ?_, ?_, fun _ e hmem htid => absurd htid (hown e hmem),
    fun _ _ e hmem htid => absurd htid (hown e hmem), ?_⟩
  · intro h
    rcases hfirst with hl | hl <;> rw [hl] at h <;> cases h
  · intro m h
    rcases hfirst with hl | hl <;> rw [hl] at h <;> cases h
  · rcases hfirst with hl | hl <;> rw [hl] <;> trivial

theorem knows_boot (hnew : ∀ e ∈ w.log, e.tid < tid) (hs : w.serving = false) :
    Knows w tid .startLdk .booting := by
  refine ⟨nofun, fun _ => Or.inl rfl, fun _ => ⟨rfl, hs⟩, ?_, ?_, ?_, trivial⟩
  · intro m h
    cases h
  · intro h
    cases h
  · exact fun _ _ e hmem htid => absurd htid (Nat.ne_of_lt (hnew e hmem))

end

/-! ## All runs -/

section

variable {cfg : Config} {now : ℤ} {ok : Sys → Act → Prop} {s : Sys} {tid : ℕ} {c c' : Call}
  {l l' : Stage} {o : Op} {r : o.Resp} {w w' : World} {sp : Option Call} {id : ℤ}
  {x : ℤ × OfframpStatus}

/-- The deposits at work, and the one startup. -/
def deposits (cfg : Config) : Discipline Op Op.Resp World Call Stage where
  start := start
  Move := Move cfg
  Final _ l := l.done = true ∨ l = .stuck
  Shared _ := True
  Owned := Knows
  Apart c _ c' _ := c = .startLdk → c' ≠ .startLdk

/-- A task that is started by another is neither the startup nor a handler of a request. -/
theorem spawned_of_move (he : Effect tid c o r w w' (some c')) (hm : Move cfg c l o r l')
    (hl : l ≠ .stuck) : c' ≠ .startLdk ∧ c'.isHttp = false := by
  have hsp := he.spawned
  cases o with
  | spawn d =>
    obtain rfl := Option.some.inj hsp
    cases hm with
    | quiet ho => simpa [quiet, and_comm] using ho
    | hopeless => exact absurd rfl hl
  | _ => cases hsp

theorem deposits_sound (cfg : Config) (now : ℤ) (ok : Sys → Act → Prop) :
    (deposits cfg).Sound (relay cfg) ok (World.fresh cfg now) where
  body := body_follows
  symm h hc' hc := h hc hc'
  init := ⟨trivial, knows_boot (fun _ h => absurd h List.not_mem_nil) rfl⟩
  move turn hp hm := ⟨trivial, knows_move (effect_of_perform hp) hm turn.owned
    (Value.payable_of_reachable (turn.reach.mono fun _ _ _ => trivial))⟩
  others turn hp hm hne _ _ howned hap :=
    ⟨knows_other (effect_of_perform hp) hm turn.owned hne howned hap, hap⟩
  spawned turn hp hm := by
    obtain ⟨k, ht⟩ := turn.task
    obtain ⟨hboot, hhttp⟩ := spawned_of_move (effect_of_perform hp) hm (ne_stuck turn.owned)
    refine ⟨knows_start (tid_lt_next_of_perform turn.reach ht hp) hboot ?_, fun _ => hboot,
      fun _ _ _ _ _ _ => hboot⟩
    rw [hhttp]
    exact nofun
  abort turn hp := by
    obtain rfl := abort_of_perform hp
    exact ⟨trivial, knows_boot (tid_lt_next_of_calm turn.reach (calm_restarted _)) rfl⟩
  react _ _ := trivial
  reactOthers _ hr hch _ _ howned :=
    knows_calm (reaction_of_react hr).calm ((reaction_of_react hr).serving hch) howned
  reactSpawn next hr := by
    have hre := reaction_of_react hr
    have hlog := tid_lt_next_of_calm next.reach hre.calm
    rcases hre.spawn with ⟨hs, hc⟩ | ⟨event, -, rfl, -⟩
    · have hboot : ∀ {d : Call}, (d.isHttp || d.isCli) = true → d ≠ .startLdk := by
        rintro d hd rfl
        cases hd
      exact ⟨knows_start hlog (hboot hc) fun _ => (hre.serving nofun).trans hs,
        fun _ _ _ _ => hboot hc⟩
    · exact ⟨knows_start hlog nofun nofun, fun _ _ _ _ => nofun⟩
  reactRestart next hr := by
    have hre := reaction_of_react hr
    have hlog := tid_lt_next_of_calm next.reach hre.calm
    cases hre
    exact knows_boot hlog rfl

/-! ### The duty to move the row on -/

/-- The status that a deposit in this stage has to move its row out of. -/
def Stage.tie? : Stage → Option OfframpStatus
  | .verifying _ => some .pendingVerification
  | .paying _ => some .payingLightning
  | _ => none

/-- While the API serves, a row that waits has a deposit that will move it on. -/
def duty : Discipline.Duty World Call Stage (ℤ × OfframpStatus) where
  Owed w x := w.serving = true ∧ ∃ r, w.offramp x.1 = some r ∧ r.status = x.2 ∧
    r.status.tied = true ∧ (r.status = .payingLightning → w.handedOver r = false)
  Carries c l x := Payout.depositFor x.1 c = true ∧ l.tie? = some x.2

theorem waits_iff_owed (hs : w.serving = true) :
    w.waits id = true ↔ ∃ st, duty.Owed w (id, st) := by
  constructor
  · intro h
    obtain ⟨r, hr, hst⟩ := (Option.any_eq_true _ _).1 h
    refine ⟨r.status, hs, r, hr, rfl, ?_⟩
    cases hst' : r.status <;> simp_all [OfframpStatus.tied]
  · rintro ⟨st, -, r, hr, -, htied, hnot⟩
    refine (Option.any_eq_true _ _).2 ⟨r, hr, ?_⟩
    cases hst' : r.status <;> simp_all [OfframpStatus.tied]

/-- A row that is owed after an operation was owed before it, or a deposit has just put it there. -/
theorem owed_origin (he : Effect tid c o r w w' sp) (hm : Move cfg c l o r l') (hK : Knows w tid c l)
    (hK' : Knows w' tid c l') (hx : duty.Owed w' x) : duty.Owed w x ∨ duty.Carries c l' x := by
  obtain ⟨id, st⟩ := x
  obtain ⟨hs, y, hy, rfl, htied, hnot⟩ := hx
  rcases tied_origin he hm (ne_stuck hK) hy htied with ⟨x, hx, hst⟩ | hputs
  · rw [← hst] at htied hnot
    refine Or.inl ⟨?_, x, hx, hst, htied, fun hpay => ?_⟩
    · -- the API starts to serve when no row is in one of the two statuses
      rcases serving_of_move he hm (ne_stuck hK) with hsame | ⟨-, rfl, -, -⟩
      · exact hsame.symm.trans hs
      · have hfree := hK.achieved id x hx
        rw [htied] at hfree
        cases hfree
    · obtain ⟨y', hy', hsame⟩ := Payout.offramp_same he hx
      obtain rfl := Option.some.inj (hy.symm.trans hy')
      have hno := hnot hpay
      rw [World.handedOver, List.any_eq_false] at hno ⊢
      intro a ha
      rw [← hsame.offrampId, ← hsame.paymentHash]
      exact hno a (he.mem_attempts ha)
  · refine Or.inr ?_
    generalize y.status = st at hputs
    cases hputs with
    | claim | move => exact ⟨decide_eq_true rfl, rfl⟩
    | strand => exact absurd rfl (ne_stuck hK')

/-- After the payment of its deposit the row has been handed over. -/
theorem handedOver_of_pay {ip tx : String} {m y : OfframpMapping} {invoice : Bolt11Invoice} {amt : ℕ}
    (he : Effect tid (.handleOfframpDeposit ip ⟨id, tx⟩) (.ldk (.payForBolt11Invoice invoice (some amt)))
      (.ok ()) w w' sp) (hinv : invoiceOf cfg m = some (invoice, amt)) (hpay : Payout.Payable cfg m)
    (hm : w.Matches id m) (hy : w'.offramp id = some y) : w'.handedOver y = true := by
  obtain ⟨x, hx, hs⟩ := Value.matches_mono he hm
  rw [hy] at hx
  obtain rfl := Option.some.inj hx
  obtain ⟨invoice', amt', hinv', hhash, -⟩ := hpay.invoice
  rw [hinv] at hinv'
  obtain ⟨rfl, rfl⟩ := Prod.mk.inj (Option.some.inj hinv')
  have hid : y.offrampId = id := SwapDb.offrampId_of_getOfframpById hy
  refine List.any_eq_true.2
    ⟨⟨invoice.paymentHash, .handleOfframpDeposit ip ⟨id, tx⟩, none⟩, ?_, ?_⟩
  · rw [he.attempts]
    exact List.mem_append_right _ List.mem_cons_self
  · simp [Payout.depositFor, hid, hhash, hs.paymentHash]

/-- The deposit that carries a row goes on, or the row is not owed any more. -/
theorem carries_move (he : Effect tid c o r w w' sp) (hm : Move cfg c l o r l') (hK : Knows w tid c l)
    (hP : ∀ k x, w.offramp k = some x → Payout.Payable cfg x) (hx₀ : duty.Owed w x)
    (hx : duty.Owed w' x) (hc : duty.Carries c l x) : duty.Carries c l' x := by
  obtain ⟨id, st⟩ := x
  obtain ⟨hdep, htie⟩ := hc
  obtain ⟨-, x₀, hx₀, hst₀, -⟩ := hx₀
  obtain ⟨-, y, hy, hst, -, hnot⟩ := hx
  -- what the deposit's own operation does to its row
  have hrow := he.offramp id
  rw [hx₀, hy] at hrow
  cases hm with
  | quiet | list | refuse => exact ⟨hdep, htie⟩
  | revert | giveUp =>
    obtain rfl := of_decide_eq_true hdep
    simp only [Op.onOfframp, DbCall.onOfframp, if_true, Option.map_some] at hrow
    obtain rfl := Option.some.inj hrow
    cases htie.trans (congrArg some hst.symm)
  | move | strand | overtaken =>
    obtain rfl := of_decide_eq_true hdep
    obtain rfl := Option.some.inj htie
    simp only [Op.onOfframp, DbCall.onOfframp, if_true, Option.map_some, OfframpMapping.recorded,
      hst₀] at hrow
    obtain rfl := Option.some.inj hrow
    cases hst
  | @pay ip tx id' m invoice amt u hinv =>
    obtain rfl := of_decide_eq_true hdep
    obtain rfl := Option.some.inj htie
    obtain ⟨_, _, _, ⟨⟩, hmatch, -⟩ := hK.row m rfl
    have hpaid := handedOver_of_pay he hinv (hK.payable hP rfl) hmatch hy
    rw [hnot hst] at hpaid
    cases hpaid
  | _ => cases htie

/-- A deposit that carries a row is in `process_offramp_deposit`. -/
theorem inProcess_of_carries {t : Task Op Op.Resp Call} (ht : s.tasks tid = some t)
    (hk : (deposits cfg).Keeps t l) (hK : Knows s.world tid t.call l)
    (hc : duty.Carries t.call l x) : inProcess s x.1 tid = true := by
  obtain ⟨call, rest⟩ := t
  obtain ⟨hdep, htie⟩ := hc
  have hstage : (∃ m, l.row? = some m) ∧ l.unpaid = true ∧ ¬ (l.done = true ∨ l = .stuck) := by
    cases l with
    | verifying m | paying m => exact ⟨⟨m, rfl⟩, rfl, by simp [Stage.done]⟩
    | _ => cases htie
  obtain ⟨⟨m, hrow⟩, hunpaid, hfinal⟩ := hstage
  obtain ⟨ip, id, tx, rfl, -, e, hmem, htid, hread⟩ := hK.row m hrow
  obtain rfl : id = x.1 := of_decide_eq_true hdep
  have hrun : rest.ended = false := by
    rcases rest with u | ⟨o, k⟩
    · exact absurd hk hfinal
    · rfl
  rw [inProcess, Bool.and_eq_true, Bool.and_eq_true]
  refine ⟨⟨?_, ?_⟩, ?_⟩
  · simp [ht, hdep, hrun]
  · exact List.any_eq_true.2 ⟨e, hmem, by simp [htid, hread]⟩
  · refine List.all_eq_true.2 fun e' hmem' => ?_
    by_cases htid' : e'.tid = tid
    · simp [hK.unpaid hunpaid e' hmem' htid']
    · simp [htid']

theorem owed_react {e : Env} {ch : Change Call} (hr : Reaction w e w' ch) (hch : ch ≠ .restart)
    (hx : duty.Owed w' x) : duty.Owed w x := by
  obtain ⟨hs, r, hrow, hst, htied, hnot⟩ := hx
  have hpaid : ∀ u : World, u.handedOver r = (u.attempts.map fun a => (a.payer, a.paymentHash)).any
      fun p => Payout.depositFor r.offrampId p.1 && p.2 = r.paymentHash := by
    intro u
    rw [World.handedOver, List.any_map]
    rfl
  rw [hpaid, hr.map_attempts fun _ _ => rfl, ← hpaid] at hnot
  exact ⟨(hr.serving hch).symm.trans hs, r, (hr.calm.offramp _).symm.trans hrow, hst, htied, hnot⟩

theorem not_owed_restarted (w : World) : ¬ duty.Owed w.restarted x := by
  rintro ⟨hs, -⟩
  cases hs

/-- A patient run drops no deposit that carries a row. -/
theorem not_owed_of_disconnect {t : Task Op Op.Resp Call}
    (hok : patient s (.env (.disconnect tid)) = true) (ht : s.tasks tid = some t)
    (hk : (deposits cfg).Keeps t l) (hK : Knows s.world tid t.call l)
    (hc : duty.Carries t.call l x) : ¬ duty.Owed s.world x := by
  intro hx
  have hproc := inProcess_of_carries ht hk hK hc
  have hwaits : s.world.waits x.1 = true := (waits_iff_owed hx.1).2 ⟨x.2, hx⟩
  obtain ⟨call, rest⟩ := t
  cases call with
  | handleOfframpDeposit ip req =>
    have hid : req.offrampId = x.1 := of_decide_eq_true hc.1
    simp [patient, ht, hid, hproc, hwaits] at hok
  | _ => cases hc.1

theorem duty_upheld (cfg : Config) (now : ℤ) :
    (deposits cfg).Upheld (relay cfg) (fun s a => patient s a = true) (World.fresh cfg now) duty where
  init x hx := nomatch hx.1
  move turn hp hm hx := by
    have he := effect_of_perform hp
    have hP := Value.payable_of_reachable (turn.reach.mono fun _ _ _ => trivial)
    rcases owed_origin he hm turn.owned (knows_move he hm turn.owned hP) hx with hx₀ | hc
    · rcases Classical.em (duty.Carries _ _ _) with hc₀ | hc₀
      · exact Or.inl (carries_move he hm turn.owned hP hx₀ hx hc₀)
      · exact Or.inr (Or.inr ⟨hx₀, hc₀⟩)
    · exact Or.inl hc
  abort _ hp := by
    obtain rfl := abort_of_perform hp
    exact not_owed_restarted _
  react _ hr hch hx := Or.inl (owed_react (reaction_of_react hr) hch hx)
  drop next hr ht hk hK hx hc := by
    have hre := reaction_of_react hr
    obtain ⟨rfl, -⟩ := isHttp_of_drop hr
    cases hre
    exact not_owed_of_disconnect next.ok ht hk hK hc hx
  restart _ hr := by
    cases reaction_of_react hr
    exact not_owed_restarted _

end

end Strand

section

variable {cfg : Config} {now : ℤ} {s : Sys}

/-- In every patient run, once the startup recovery is over: when no `process_offramp_deposit` call
for an offramp is active, its row is neither in PendingVerification nor, unless its payment was handed
to LDK, in PayingLightning. -/
theorem deposit_never_strands (hs : ReachableBy cfg now (fun s a => patient s a = true) s)
    (hrec : recovered s = true) (id : ℤ) (hidle : processing s id = false) :
    s.world.waits id = false := by
  by_contra hwaits
  rw [Bool.not_eq_false] at hwaits
  obtain ⟨L, hL, hC⟩ := (Strand.deposits_sound cfg now _).upholds (Strand.duty_upheld cfg now) hs
  obtain ⟨tid, -, htid⟩ := List.any_eq_true.1 hrec
  rw [Bool.and_eq_true] at htid
  obtain ⟨t, ht, hboot⟩ := (Option.any_eq_true _ _).1 htid.1
  have hK : Strand.Knows _ _ _ _ := hL.owned ht
  rcases hK.boot (of_decide_eq_true hboot) with hb | ⟨-, hserving⟩
  · -- the recovery has left no row in one of the two statuses
    obtain ⟨e, hmem, hscan⟩ := List.any_eq_true.1 htid.2
    rw [Bool.and_eq_true] at hscan
    have hcleared : L tid = .cleared := by
      by_contra hne
      have hno := hK.early hb hne e hmem (of_decide_eq_true hscan.1)
      rw [hscan.2] at hno
      cases hno
    have hfree := hK.achieved
    rw [hcleared] at hfree
    obtain ⟨r, hr, hst⟩ := (Option.any_eq_true _ _).1 hwaits
    have htied := hfree id r hr
    cases hst' : r.status <;> simp [hst', OfframpStatus.tied] at hst htied
  · -- the deposit that carries the row is active
    obtain ⟨st, hx⟩ := (Strand.waits_iff_owed hserving).1 hwaits
    obtain ⟨tid', t', ht', hc⟩ := hC _ hx
    have hproc := Strand.inProcess_of_carries ht' (hL.keeps ht') (hL.owned ht') hc
    have hactive : processing s id = true :=
      List.any_eq_true.2 ⟨tid', List.mem_range.2 (hs.fresh.lt_next ht'), hproc⟩
    rw [hidle] at hactive
    cases hactive

/-! ## Runs -/

/-- Whether a run of the relay that meets a condition ends in a state with some property. -/
def devnetEnds (ok : Sys → Act → Bool) (as : List Act) (p : Sys → Bool) : Bool :=
  ((relay Devnet.shortConfig).run ok ((relay Devnet.shortConfig).initial
    (World.fresh Devnet.shortConfig Devnet.startTime)) as).any p

/-- The first offramp is requested and its deposit is notified, as task `tid`, which makes `n`
operations. -/
def devnetNotified (tid n : ℕ) : List Act := Devnet.deposit 1 "db9a16aa" :: Devnet.steps tid n Devnet.ok

def devnetRequested : List Act := Devnet.boot ++ Devnet.offrampRequest 3 1 Devnet.shortInvoice

set_option maxRecDepth 100000 in
/-- The client disconnects before its deposit has won the row, and notifies it again. -/
theorem deposit_never_strands_devnet :
    ∃ s, ReachableBy Devnet.shortConfig Devnet.startTime (fun s a => patient s a = true) s ∧
      recovered s = true ∧ processing s 1 = false ∧
      (s.world.offramp 1).map (·.status) = some .payingLightning ∧ s.world.waits 1 = false := by
  have hrun : devnetEnds patient (devnetRequested ++ devnetNotified 4 3 ++
      .env (.disconnect 4) :: devnetNotified 5 11) (fun s => recovered s && !processing s 1 &&
        (s.world.offramp 1).map (·.status) = some .payingLightning) = true := by decide +kernel
  obtain ⟨s, hs, hp⟩ := Runtime.exists_reach_of_run hrun
  simp only [Bool.and_eq_true, Bool.not_eq_true', decide_eq_true_eq] at hp
  exact ⟨s, hs, hp.1.1, hp.1.2, hp.2, deposit_never_strands hs hp.1.1 1 hp.1.2⟩

set_option maxRecDepth 100000 in
/-- The client disconnects while its deposit is verified: the offramp stays in PendingVerification.
Or it disconnects while the payment is recorded: it stays in PayingLightning, and LDK has got no
payment. -/
theorem devnet_offramp_stranded :
    (∃ s, Reachable Devnet.shortConfig Devnet.startTime s ∧ recovered s = true ∧
      processing s 1 = false ∧ (s.world.offramp 1).map (·.status) = some .pendingVerification ∧
      s.world.waits 1 = true) ∧
    ∃ s, Reachable Devnet.shortConfig Devnet.startTime s ∧ recovered s = true ∧
      processing s 1 = false ∧ (s.world.offramp 1).map (·.status) = some .payingLightning ∧
      s.world.attempts = [] ∧ s.world.waits 1 = true := by
  constructor
  · have hrun : devnetEnds (fun _ _ => true) (devnetRequested ++ devnetNotified 4 4 ++
        [.env (.disconnect 4)]) (fun s => recovered s && !processing s 1 &&
          (s.world.offramp 1).map (·.status) = some .pendingVerification && s.world.waits 1) = true := by
      decide +kernel
    obtain ⟨s, hs, hp⟩ := Runtime.exists_reach_of_run hrun
    simp only [Bool.and_eq_true, Bool.not_eq_true', decide_eq_true_eq] at hp
    exact ⟨s, hs.mono fun _ _ _ => trivial, hp.1.1.1, hp.1.1.2, hp.1.2, hp.2⟩
  · have hrun : devnetEnds (fun _ _ => true) (devnetRequested ++ devnetNotified 4 8 ++
        [.env (.disconnect 4)]) (fun s => recovered s && !processing s 1 &&
          (s.world.offramp 1).map (·.status) = some .payingLightning && s.world.attempts = [] &&
          s.world.waits 1) = true := by
      decide +kernel
    obtain ⟨s, hs, hp⟩ := Runtime.exists_reach_of_run hrun
    simp only [Bool.and_eq_true, Bool.not_eq_true', decide_eq_true_eq] at hp
    exact ⟨s, hs.mono fun _ _ _ => trivial, hp.1.1.1.1, hp.1.1.1.2, hp.1.1.2, hp.1.2, hp.2⟩

end

end LightningRelay
