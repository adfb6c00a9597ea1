import LightningRelay.Exclusive
import LightningRelay.Payout.Hashes

/-!
# Who works on an offramp

The offramp protocol says which writes a task may make; `Work` follows more closely what a task still
has to write: the row that a deposit or a `complete_offramp` has won, the row that the handler of a
failed payment has read, and the rest of a snapshot.  `body_works` is the main result: every program
of the relay keeps to this second protocol.
-/

set_option autoImplicit false

namespace LightningRelay

open Async

/-- The operations that write to offramps, the cancellations of rows, and the hand-over of sent
payments. -/
def Op.offrampWork : Op → Bool
  | .db (.insertOfframp _) | .db (.updateOfframpStatus _ _ _ _ _)
  | .db (.transitionOfframpStatus _ _ _) | .db (.transitionOfframpWithCbtcTx _ _ _ _)
  | .operator (.offramp _) (.submitTx ⟨.cancelOfframp _, _⟩) | .spawn (.completeOfframp _ _) => true
  | _ => false

/-- The offramps of a snapshot that have not failed. -/
def unfailed (rows : List OfframpMapping) : List ℤ :=
  (rows.filter fun m => m.status ≠ .failed).map (·.offrampId)

/-- The offramps that an operation takes up: the one that a deposit or a `complete_offramp` wins, the
one that the handler of a failed payment reads, the ones that the monitor selects and that have not
failed, and the snapshot of the recovery. -/
def Entry.offrampsTaken : Entry → List ℤ
  | ⟨_, .handleOfframpDeposit _ _,
      .db (.transitionOfframpStatus id .awaitingDeposit .pendingVerification), true⟩ => [id]
  | ⟨_, .completeOfframp _ _,
      .db (.transitionOfframpStatus id .payingLightning .depositingToPool), true⟩ => [id]
  | ⟨_, .handleOfframpPaymentFailed _, .db (.getOfframpByPaymentHash _), some m⟩ => [m.offrampId]
  | ⟨_, .monitorExpiredOfframps, .db (.getExpiredOfframps _), rows⟩ => unfailed rows
  | ⟨_, .startLdk, .db (.getOfframpsByStatus .depositingToPool), rows⟩ =>
    (rows : List OfframpMapping).map (·.offrampId)
  | _ => []

namespace Payout

/-- What a task is at work on. -/
inductive Work where
  | idle
  /-- A request that has found no offramp with its payment hash. -/
  | requesting (paymentHash : String)
  /-- A deposit that has won its row. -/
  | holding (id : ℤ)
  /-- `complete_offramp` that has found no row; that has read its row; that has lost it; that has won
  it; that has stored the preimage; that has written the outcome. -/
  | unknown
  | found (m : OfframpMapping)
  | beaten (m : OfframpMapping)
  | took (m : OfframpMapping)
  | stored (m : OfframpMapping)
  | concluded (m : OfframpMapping)
  /-- The handler of a failed payment that has read its row; that has failed it. -/
  | failing (id : ℤ)
  | failed (id : ℤ)
  /-- The rest of the monitor's snapshot, and the row whose entry has just been cancelled. -/
  | cancelling (todo : List OfframpMapping)
  | cancelled (m : OfframpMapping) (todo : List OfframpMapping)
  /-- The startup that has failed a row whose payment was cut off; the rest of its last snapshot. -/
  | clearing (id : ℤ)
  | recovering (todo : List OfframpMapping)

/-- Where a task may end. -/
def Work.ends : Call → Work → Bool
  | .completeOfframp _ _, .unknown | .completeOfframp _ _, .beaten _
  | .completeOfframp _ _, .concluded _ => true
  | .completeOfframp _ _, _ => false
  | _, .cancelled _ _ | _, .clearing _ => false
  | _, _ => true

/-- The operations of the tasks at work. -/
inductive Work.Move : Call → Work → (o : Op) → o.Resp → Work → Prop where
  | quiet {c : Call} {l : Work} {o : Op} {r : o.Resp} : o.offrampWork = false → Move c l o r l
  -- request_offramp
  | check {ip h : String} {req : OfframpRequest} :
      Move (.handleOfframpRequest ip req) .idle (.db (.getOfframpByPaymentHash h)) none
        (.requesting h)
  | insert {ip h : String} {req : OfframpRequest} {m : OfframpMapping} {b : Bool} :
      m.paymentHash = h →
      Move (.handleOfframpRequest ip req) (.requesting h) (.db (.insertOfframp m)) b .idle
  -- process_offramp_deposit
  | claim {ip tx : String} {id : ℤ} :
      Move (.handleOfframpDeposit ip ⟨id, tx⟩) .idle
        (.db (.transitionOfframpStatus id .awaitingDeposit .pendingVerification)) true (.holding id)
  | missed {ip tx : String} {id : ℤ} :
      Move (.handleOfframpDeposit ip ⟨id, tx⟩) .idle
        (.db (.transitionOfframpStatus id .awaitingDeposit .pendingVerification)) false .idle
  | revert {ip tx : String} {id : ℤ} {e : Option String} :
      Move (.handleOfframpDeposit ip ⟨id, tx⟩) (.holding id)
        (.db (.updateOfframpStatus id .awaitingDeposit none none e)) () .idle
  | record {ip tx : String} {id : ℤ} {b : Bool} :
      Move (.handleOfframpDeposit ip ⟨id, tx⟩) (.holding id)
        (.db (.transitionOfframpWithCbtcTx id tx .pendingVerification .payingLightning)) b
        (.holding id)
  | unpaid {ip tx : String} {id : ℤ} {e : Option String} :
      Move (.handleOfframpDeposit ip ⟨id, tx⟩) (.holding id)
        (.db (.updateOfframpStatus id .failed none none e)) () .idle
  -- complete_offramp
  | handed {i : Option String} {h p : String} {l : Work} :
      Move (.handleLdkEvents (.paymentSent i h p)) l (.spawn (.completeOfframp h p)) () l
  | missing {h p : String} :
      Move (.completeOfframp h p) .idle (.db (.getOfframpByPaymentHash h)) none .unknown
  | find {h p : String} {m : OfframpMapping} :
      Move (.completeOfframp h p) .idle (.db (.getOfframpByPaymentHash h)) (some m) (.found m)
  | take {h p : String} {m : OfframpMapping} :
      Move (.completeOfframp h p) (.found m)
        (.db (.transitionOfframpStatus m.offrampId .payingLightning .depositingToPool)) true (.took m)
  | lose {h p : String} {m : OfframpMapping} :
      Move (.completeOfframp h p) (.found m)
        (.db (.transitionOfframpStatus m.offrampId .payingLightning .depositingToPool)) false
        (.beaten m)
  | store {h p : String} {m : OfframpMapping} :
      Move (.completeOfframp h p) (.took m)
        (.db (.updateOfframpStatus m.offrampId .depositingToPool (some p) none none)) () (.stored m)
  | conclude {h p : String} {m : OfframpMapping} {st : OfframpStatus} {d e : Option String} :
      st = .completed ∨ st = .failed →
      Move (.completeOfframp h p) (.stored m)
        (.db (.updateOfframpStatus m.offrampId st none d e)) () (.concluded m)
  -- handle_offramp_payment_failed
  | alarm {h : String} {m : OfframpMapping} :
      Move (.handleOfframpPaymentFailed h) .idle (.db (.getOfframpByPaymentHash h)) (some m)
        (.failing m.offrampId)
  | fail {h : String} {id : ℤ} {e : Option String} :
      Move (.handleOfframpPaymentFailed h) (.failing id)
        (.db (.updateOfframpStatus id .failed none none e)) () (.failed id)
  | withdraw {h hex : String} {id : ℤ} {r : Except CardanoError String} :
      Move (.handleOfframpPaymentFailed h) (.failed id)
        (.operator (.offramp id) (.submitTx ⟨.cancelOfframp id, hex⟩)) r (.failed id)
  | withdrawn {h : String} {id : ℤ} {e : Option String} :
      Move (.handleOfframpPaymentFailed h) (.failed id)
        (.db (.updateOfframpStatus id .failed none none e)) () (.failed id)
  -- monitor_expired_offramps
  | select {t : ℤ} {rows : List OfframpMapping} :
      Move .monitorExpiredOfframps .idle (.db (.getExpiredOfframps t)) rows (.cancelling rows)
  | unbuilt {m : OfframpMapping} {todo : List OfframpMapping} {o : Op} {r : o.Resp} :
      o.offrampWork = false →
      Move .monitorExpiredOfframps (.cancelling (m :: todo)) o r (.cancelling todo)
  | accepted {m : OfframpMapping} {todo : List OfframpMapping} {hex tx : String} :
      Move .monitorExpiredOfframps (.cancelling (m :: todo))
        (.operator (.offramp m.offrampId) (.submitTx ⟨.cancelOfframp m.offrampId, hex⟩)) (.ok tx)
        (.cancelled m todo)
  | refused {m : OfframpMapping} {todo : List OfframpMapping} {hex e : String} :
      Move .monitorExpiredOfframps (.cancelling (m :: todo))
        (.operator (.offramp m.offrampId) (.submitTx ⟨.cancelOfframp m.offrampId, hex⟩)) (.error e)
        (.cancelling todo)
  | expire {m : OfframpMapping} {todo : List OfframpMapping} {e : Option String} :
      Move .monitorExpiredOfframps (.cancelled m todo)
        (.db (.updateOfframpStatus m.offrampId .failed none none e)) () (.cancelling todo)
  -- recover_depositing_offramps
  | reset {id : ℤ} {b : Bool} :
      Move .startLdk .idle
        (.db (.transitionOfframpStatus id .pendingVerification .awaitingDeposit)) b .idle
  | cut {id : ℤ} :
      Move .startLdk .idle (.db (.transitionOfframpStatus id .payingLightning .failed)) true
        (.clearing id)
  | uncut {id : ℤ} :
      Move .startLdk .idle (.db (.transitionOfframpStatus id .payingLightning .failed)) false .idle
  | clear {id : ℤ} {e : Option String} :
      Move .startLdk (.clearing id) (.db (.updateOfframpStatus id .failed none none e)) () .idle
  | scan {rows : List OfframpMapping} :
      Move .startLdk .idle (.db (.getOfframpsByStatus .depositingToPool)) rows (.recovering rows)
  | given {m : OfframpMapping} {todo : List OfframpMapping} {o : Op} {r : o.Resp} :
      o.offrampWork = false → Move .startLdk (.recovering (m :: todo)) o r (.recovering todo)
  | finish {m : OfframpMapping} {todo : List OfframpMapping} :
      Move .startLdk (.recovering (m :: todo))
        (.db (.updateOfframpStatus m.offrampId .completed none none none)) () (.recovering todo)

/-- The work on offramps as a protocol. -/
def work : Protocol Op Op.Resp Call Work where
  start _ := .idle
  Move := Work.Move
  Final c l := Work.ends c l = true

/-! ## The programs -/

section

variable {cfg : Config} {c : Call} {l : Work} {α : Type}

theorem offrampWork_of_not_regulated {o : Op} (h : o.regulated = false) : o.offrampWork = false := by
  unfold Op.offrampWork
  split <;> first | cases h | rfl

theorem works_of_free {p : Relay α} (h : Free p) : Follows (Work.Move c) (fun _ l' => l' = l) p l :=
  Prog.Only.follows h fun _ _ ho => .quiet (offrampWork_of_not_regulated ho)

/-- `send_payment` writes to no offramp. -/
theorem works_sendPayment (invoice : Bolt11Invoice) (amt : Option ℕ) :
    Follows (Work.Move c) (fun _ l' => l' = l) (sendPayment invoice amt) l := by
  refine follows_stay (fun _ => .quiet rfl) fun _ => ?_
  rcases paymentAmount invoice.amountMilliSatoshis amt with e | amtMsat
  · exact rfl
  refine follows_stay (fun _ => .quiet rfl) fun _ => follows_stay (fun _ => .quiet rfl) fun _ => ?_
  refine follows_stay (fun _ => .quiet rfl) ?_
  rintro (e | _)
  · refine follows_stay (fun _ => .quiet rfl) ?_
    rintro (_ | _)
    · exact nofun
    · exact follows_stay (fun _ => .quiet rfl) fun _ => rfl
  · exact rfl

theorem works_requestOfframp {ip : String} {req : OfframpRequest} (bolt11 : String) (amount : ℤ)
    (address : String) (expiryMs : ℤ) :
    Follows (Work.Move (.handleOfframpRequest ip req)) (fun _ => work.Final (.handleOfframpRequest ip req))
      (requestOfframp cfg bolt11 amount address expiryMs) .idle := by
  unfold requestOfframp
  rcases cfg.bolt11FromStr bolt11 with e | invoice
  · exact rfl
  refine follows_perform ?_
  rintro (_ | existing)
  swap
  · exact ⟨_, .quiet rfl, rfl⟩
  refine ⟨_, .check, ?_⟩
  dsimp only
  split_ifs
  · exact rfl
  rcases cbtcToMsat amount with _ | amt
  · exact rfl
  dsimp only
  rcases mismatch? invoice amt with _ | invAmt
  swap
  · exact rfl
  dsimp only
  rcases addressToPkh cfg address with e | pkh
  · exact rfl
  refine follows_stay (fun _ => .quiet rfl) fun now => ?_
  refine (works_of_free (free_submit ?_)).bind ?_
  · refine only_perform rfl ?_
    rintro (e | ⟨id, tx⟩)
    · trivial
    refine only_perform rfl ?_
    rintro (e | hash) <;> trivial
  rintro (e | ⟨id, hash⟩) _ rfl
  · exact rfl
  refine follows_perform fun b => ⟨_, .insert rfl, ?_⟩
  rcases b with _ | _
  · exact nofun
  · exact rfl

theorem works_handleOfframpRequest (ip : String) (req : OfframpRequest) :
    Follows (Work.Move (.handleOfframpRequest ip req)) (fun _ => work.Final (.handleOfframpRequest ip req))
      (handleOfframpRequest cfg ip req) .idle := by
  refine follows_stay (fun _ => .quiet rfl) fun allowed => ?_
  split_ifs
  · exact rfl
  · exact rfl
  · exact rfl
  · exact rfl
  refine follows_stay (fun _ => .quiet rfl) fun active => ?_
  split_ifs
  · exact rfl
  refine (works_requestOfframp ..).bind ?_
  rintro (e | ⟨id, address, hash⟩) _ hl <;> exact hl

theorem works_payOfframp {ip tx : String} {id : ℤ} (m : OfframpMapping) :
    Follows (Work.Move (.handleOfframpDeposit ip ⟨id, tx⟩)) (fun _ => work.Final (.handleOfframpDeposit ip ⟨id, tx⟩))
      (payOfframp cfg id m) (.holding id) := by
  unfold payOfframp
  rcases cfg.bolt11FromStr m.bolt11 with e | invoice
  · exact rfl
  rcases cbtcToMsat m.amountCbtc with _ | amt
  · exact rfl
  refine (works_sendPayment _ _).bind ?_
  rintro (e | _) _ rfl
  · exact follows_perform fun _ => ⟨_, .unpaid, rfl⟩
  · exact rfl

theorem works_processOfframpDeposit {ip tx : String} {id : ℤ} :
    Follows (Work.Move (.handleOfframpDeposit ip ⟨id, tx⟩)) (fun _ => work.Final (.handleOfframpDeposit ip ⟨id, tx⟩))
      (processOfframpDeposit cfg id tx) .idle := by
  refine follows_stay (fun _ => .quiet rfl) ?_
  rintro (_ | m)
  · exact rfl
  refine follows_stay (fun _ => .quiet rfl) fun existing => ?_
  rcases usedByOther id existing with _ | other
  swap
  · exact rfl
  refine follows_perform ?_
  rintro (_ | _)
  · exact ⟨_, .missed, rfl⟩
  refine ⟨_, .claim, follows_stay (fun _ => .quiet rfl) ?_⟩
  rintro (e | _ | _)
  · exact follows_perform fun _ => ⟨_, .revert, rfl⟩
  · exact follows_perform fun _ => ⟨_, .revert, rfl⟩
  refine follows_perform fun b => ⟨_, .record, ?_⟩
  rcases b with _ | _
  · exact rfl
  · exact works_payOfframp m

theorem works_handleOfframpDeposit (ip : String) (req : OfframpDepositRequest) :
    Follows (Work.Move (.handleOfframpDeposit ip req)) (fun _ => work.Final (.handleOfframpDeposit ip req))
      (handleOfframpDeposit cfg ip req) .idle := by
  refine follows_stay (fun _ => .quiet rfl) fun allowed => ?_
  split_ifs
  · exact rfl
  · exact rfl
  · exact rfl
  refine works_processOfframpDeposit.bind ?_
  rintro (e | _) _ hl
  · exact hl
  refine follows_stay (fun _ => .quiet rfl) ?_
  rintro (_ | m) <;> exact hl

theorem works_completeOfframp (h p : String) :
    Follows (Work.Move (.completeOfframp h p)) (fun _ => work.Final (.completeOfframp h p)) (completeOfframp h p)
      .idle := by
  refine follows_perform ?_
  rintro (_ | m)
  · exact ⟨_, .missing, rfl⟩
  refine ⟨_, .find, follows_perform ?_⟩
  rintro (_ | _)
  · exact ⟨_, .lose, rfl⟩
  refine ⟨_, .take, follows_perform fun _ => ⟨_, .store, ?_⟩⟩
  refine (works_of_free free_query).bind ?_
  rintro (e | offramp) _ rfl
  · exact follows_last fun _ => ⟨_, .conclude (Or.inr rfl), rfl⟩
  refine (follows_submitContractTxWithRetry (fun _ _ => .quiet rfl) ?_).bind ?_
  · refine follows_stay (fun _ => .quiet rfl) ?_
    rintro (e | hex)
    · exact rfl
    · exact follows_last fun _ => ⟨_, .quiet rfl, rfl⟩
  rintro (e | txHash) _ rfl
  · exact follows_last fun _ => ⟨_, .conclude (Or.inr rfl), rfl⟩
  · exact follows_last fun _ => ⟨_, .conclude (Or.inl rfl), rfl⟩

theorem works_handleOfframpPaymentFailed (h : String) :
    Follows (Work.Move (.handleOfframpPaymentFailed h)) (fun _ => work.Final (.handleOfframpPaymentFailed h))
      (handleOfframpPaymentFailed h) .idle := by
  have hcancel : ∀ m : OfframpMapping, Follows (Work.Move (.handleOfframpPaymentFailed h))
      (fun _ => work.Final (.handleOfframpPaymentFailed h)) (cancelOfframpOnChain m) (.failed m.offrampId) := by
    intro m
    refine follows_stay (fun _ => .quiet rfl) ?_
    rintro (e | hex)
    · exact rfl
    refine follows_stay (fun _ => .withdraw) ?_
    rintro (e | txHash)
    · exact rfl
    · exact follows_stay (fun _ => .quiet rfl) fun _ => follows_last fun _ => ⟨_, .withdrawn, rfl⟩
  have hrefund : ∀ m : OfframpMapping, Follows (Work.Move (.handleOfframpPaymentFailed h))
      (fun _ l' => l' = .failing m.offrampId) (refundOfframp m) (.failing m.offrampId) := by
    intro m
    refine follows_stay (fun _ => .quiet rfl) ?_
    rintro (e | hex)
    · exact rfl
    refine follows_stay (fun _ => .quiet rfl) ?_
    rintro (e | txHash) <;> exact rfl
  refine follows_perform ?_
  rintro (_ | m)
  · exact ⟨_, .quiet rfl, rfl⟩
  refine ⟨_, .alarm, ?_⟩
  dsimp only
  split_ifs
  · refine (hrefund m).bind ?_
    rintro msg _ rfl
    exact follows_perform fun _ => ⟨_, .fail, hcancel m⟩
  · exact follows_perform fun _ => ⟨_, .fail, hcancel m⟩

theorem works_handleLdkEvents (event : LdkEvent) :
    Follows (Work.Move (.handleLdkEvents event)) (fun _ l' => l' = .idle) (handleLdkEvents event)
      .idle := by
  cases event with
  | paymentClaimable h preimage =>
    rcases preimage with _ | preimage
    · exact rfl
    · exact follows_last fun _ => ⟨_, .quiet rfl, rfl⟩
  | paymentClaimed h preimage secret amt =>
    refine follows_stay (fun _ => .quiet rfl) fun _ => follows_stay (fun _ => .quiet rfl) fun _ => ?_
    refine follows_stay (fun _ => .quiet rfl) ?_
    rintro (_ | m)
    · exact rfl
    · exact follows_last fun _ => ⟨_, .quiet rfl, rfl⟩
  | paymentSent id h preimage =>
    rcases id with _ | id
    · exact rfl
    refine follows_stay (fun _ => .quiet rfl) fun _ => follows_stay (fun _ => .quiet rfl) fun _ => ?_
    refine follows_stay (fun _ => .quiet rfl) ?_
    rintro (_ | m)
    · exact rfl
    · exact follows_last fun _ => ⟨_, .handed, rfl⟩
  | paymentFailed id h =>
    refine follows_stay (fun _ => .quiet rfl) fun _ => follows_stay (fun _ => .quiet rfl) fun _ => ?_
    rcases h with _ | h
    · exact rfl
    · exact follows_last fun _ => ⟨_, .quiet rfl, rfl⟩

theorem works_cancelOfframpOnChain (m : OfframpMapping) (todo : List OfframpMapping) :
    Follows (Work.Move .monitorExpiredOfframps) (fun _ l' => l' = .cancelling todo)
      (cancelOfframpOnChain m) (.cancelling (m :: todo)) := by
  refine follows_perform ?_
  rintro (e | hex)
  · exact ⟨_, .unbuilt rfl, rfl⟩
  refine ⟨_, .quiet rfl, follows_perform ?_⟩
  rintro (e | txHash)
  · exact ⟨_, .refused, rfl⟩
  refine ⟨_, .accepted, follows_stay (fun _ => .quiet rfl) fun _ => ?_⟩
  exact follows_last fun _ => ⟨_, .expire, rfl⟩

theorem works_monitorExpiredOfframps :
    Follows (Work.Move .monitorExpiredOfframps) (fun _ => work.Final .monitorExpiredOfframps) monitorExpiredOfframps
      .idle := by
  refine follows_stay (fun _ => .quiet rfl) fun _ => follows_stay (fun _ => .quiet rfl) fun now => ?_
  refine follows_perform fun expired => ⟨_, .select, ?_⟩
  refine (follows_forEach_todo expired works_cancelOfframpOnChain).bind ?_
  rintro _ _ rfl
  exact follows_last fun _ => ⟨_, .quiet rfl, rfl⟩

theorem works_monitorExpiredSwaps :
    Follows (Work.Move c) (fun _ l' => l' = l) monitorExpiredSwaps l := by
  refine follows_stay (fun _ => .quiet rfl) fun _ => follows_stay (fun _ => .quiet rfl) fun now => ?_
  refine follows_stay (fun _ => .quiet rfl) fun expired => ?_
  refine (follows_forEach expired fun m _ => ?_).bind ?_
  · refine follows_stay (fun _ => .quiet rfl) ?_
    rintro (e | hex)
    · exact rfl
    refine follows_stay (fun _ => .quiet rfl) ?_
    rintro (e | txHash)
    · exact rfl
    · exact follows_last fun _ => ⟨_, .quiet rfl, rfl⟩
  · rintro _ _ rfl
    exact follows_last fun _ => ⟨_, .quiet rfl, rfl⟩

theorem works_recoverDepositing (m : OfframpMapping) (todo : List OfframpMapping) :
    Follows (Work.Move .startLdk) (fun _ l' => l' = .recovering todo) (recoverDepositing m)
      (.recovering (m :: todo)) := by
  refine (works_of_free free_query).bind ?_
  rintro (e | offramp) _ rfl
  · exact follows_last fun _ => ⟨_, .finish, rfl⟩
  refine follows_perform ?_
  rintro (e | hex)
  · exact ⟨_, .given rfl, rfl⟩
  refine ⟨_, .quiet rfl, follows_perform ?_⟩
  rintro (e | txHash)
  · exact ⟨_, .given rfl, rfl⟩
  · exact ⟨_, .quiet rfl, follows_last fun _ => ⟨_, .finish, rfl⟩⟩

theorem works_recoverDepositingOfframps :
    Follows (Work.Move .startLdk) (fun _ l' => l' = .recovering []) recoverDepositingOfframps
      .idle := by
  refine follows_stay (fun _ => .quiet rfl) fun verifying => ?_
  refine (follows_forEach verifying fun m _ => ?_).bind ?_
  · exact follows_stay (fun _ => .reset) fun _ => rfl
  rintro _ _ rfl
  refine follows_stay (fun _ => .quiet rfl) fun paying => ?_
  refine (follows_forEach paying fun m _ => ?_).bind ?_
  · refine follows_perform ?_
    rintro (_ | _)
    · exact ⟨_, .uncut, rfl⟩
    · exact ⟨_, .cut, follows_last fun _ => ⟨_, .clear, rfl⟩⟩
  rintro _ _ rfl
  exact follows_perform fun stuck => ⟨_, .scan, follows_forEach_todo stuck works_recoverDepositing⟩

theorem works_startLdk :
    Follows (Work.Move .startLdk) (fun _ => work.Final .startLdk) (startLdk cfg) .idle := by
  have hspawn : Follows (Work.Move .startLdk) (fun _ => work.Final .startLdk) (do
      spawn .monitorExpiredSwaps
      spawn .monitorExpiredOfframps
      serve) (.recovering []) :=
    follows_stay (fun _ => .quiet rfl) fun _ => follows_stay (fun _ => .quiet rfl) fun _ =>
      follows_last fun _ => ⟨_, .quiet rfl, rfl⟩
  refine (works_of_free free_recoverFulfillingSwaps).bind ?_
  rintro _ _ rfl
  refine works_recoverDepositingOfframps.bind ?_
  rintro _ _ rfl
  split_ifs
  · refine (works_of_free free_cancelExpired).bind ?_
    rintro _ _ rfl
    refine (works_of_free free_cancelExpiredOfframps).bind ?_
    rintro _ _ rfl
    exact hspawn
  · exact hspawn

/-- Every program of the relay keeps to the second protocol. -/
theorem body_works (cfg : Config) (c : Call) :
    Follows (work.Move c) (fun _ => work.Final c) (body cfg c) (work.start c) := by
  have hfree : Work.ends c .idle = true → ∀ {p : Relay Unit}, Follows (Work.Move c) (fun _ l' => l' = .idle) p .idle →
      Follows (Work.Move c) (fun _ => work.Final c) p .idle := fun hc _ h =>
    h.mono fun _ _ hl => hl ▸ hc
  cases c with
  | startLdk => exact works_startLdk
  | monitorExpiredSwaps => exact hfree rfl works_monitorExpiredSwaps
  | monitorExpiredOfframps => exact works_monitorExpiredOfframps
  | handleSwapRequest ip req =>
    exact hfree rfl ((works_of_free (free_handleSwapRequest ip req)).bind fun _ _ hl => hl)
  | handleOfframpRequest ip req => exact (works_handleOfframpRequest ip req).bind fun _ _ hl => hl
  | handleOfframpDeposit ip req => exact (works_handleOfframpDeposit ip req).bind fun _ _ hl => hl
  | handleLdkEvents event => exact hfree rfl (works_handleLdkEvents event)
  | fulfillSwap h => exact hfree rfl (works_of_free (free_fulfillSwap h))
  | completeOfframp h p => exact works_completeOfframp h p
  | handleOfframpPaymentFailed h => exact works_handleOfframpPaymentFailed h
  | sendpayment i amt =>
    refine hfree rfl ?_
    change Follows _ _ (LightningRelay.sendpayment cfg i amt) _
    unfold LightningRelay.sendpayment
    rcases cfg.bolt11FromStr i with e | invoice
    · exact rfl
    · exact (works_sendPayment _ _).bind fun _ _ hl => hl
  | cancelExpired => exact hfree rfl (works_of_free free_cancelExpired)
  | cancelExpiredOfframps => exact hfree rfl (works_of_free free_cancelExpiredOfframps)

end

end Payout

end LightningRelay
