import LightningRelay.Async.Permit
import LightningRelay.Onramp.Claim

/-!
# What backs a payout of cBTC

The relay pays out cBTC for a swap only after it has claimed the Lightning payment of the swap.  The
evidence passes from hand to hand: `claim_funds` is called, LDK reports the payment as claimed, the
handler of that event starts `fulfill_swap`, which marks the row, and after a crash the row is what
the recovery acts on.  A permit for a swap stands for this evidence.

* `backing_valid`: every task has the permits for what it does.
* `payout_backed`: every FulfillInvoice transaction that is built or submitted comes after the call of
  `claim_funds` for its swap, and so do the statuses Fulfilling, Completed and Failed.
-/

set_option autoImplicit false

namespace LightningRelay

open Async

/-- The swap for which an operation builds or submits a FulfillInvoice transaction. -/
def Op.paysOut? : Op → Option String
  | .operator (.swap h) (.fulfillInvoice _ _)
  | .operator (.swap h) (.submitTx ⟨.fulfillInvoice _, _⟩) => some h
  | _ => none

/-- The statuses of a swap whose Lightning payment was received. -/
def SwapStatus.received : SwapStatus → Bool
  | .fulfilling | .completed | .failed => true
  | .pending | .expired => false

/-- The log has a call of `claim_funds` for the payment. -/
def ClaimedIn (log : List Entry) (h : String) : Prop :=
  ∃ e ∈ log, ∃ preimage, e.op = .ldk (.claimFunds h preimage)

/-- The payment of the swap was claimed, and LDK has reported this. -/
def World.Backed (w : World) (h : String) : Prop := w.claimReported h = true ∧ ClaimedIn w.log h

namespace Onramp

/-- The calls that are made because a payment was claimed. -/
def backedBy : Call → List String
  | .fulfillSwap h | .handleLdkEvents (.paymentClaimed h _ _ _) => [h]
  | _ => []

/-- The swap that an operation pays out or marks as received. -/
def draws : Op → List String
  | .db (.insert m) => if m.status.received then [m.paymentHash] else []
  | .db (.updateStatus h st _) => if st.received then [h] else []
  | .db (.transitionStatus h _ st _) => if st.received then [h] else []
  | .spawn c => backedBy c
  | o => o.paysOut?.toList

/-- What the world remembers of the claimed payments. -/
structure Remembers (w : World) : Prop where
  claimed : ∀ h ∈ w.claimed, ClaimedIn w.log h
  rows : ∀ h r, w.swap h = some r → r.status.received = true → w.Backed h
  payouts : ∀ newer e older, w.log = newer ++ e :: older → ∀ h, e.op.paysOut? = some h →
    ClaimedIn older h

/-- The swaps whose payment was received, as the recovery finds them. -/
def finds : (o : Op) → o.Resp → List String
  | .db (.getByStatus .fulfilling), rows => (rows : List SwapMapping).map (·.paymentHash)
  | _, _ => []

/-- The permits to pay out. -/
def backing : Permits Op Op.Resp World Call String where
  start := backedBy
  needs _ := draws
  gives _ := finds
  Good := World.Backed
  Shared := Remembers

/-! ## Every task has its permits -/

section

variable {cfg : Config} {c : Call} {o : Op} {l : List String} {α : Type}

theorem needs_none (h : draws o = []) : ∀ k ∈ backing.needs c o, k ∈ l := by
  change ∀ k ∈ draws o, k ∈ l
  rw [h]
  exact fun _ hk => absurd hk List.not_mem_nil

theorem needs_one {k : String} (h : draws o = [k]) (hl : k ∈ l) :
    ∀ k ∈ backing.needs c o, k ∈ l := by
  change ∀ k ∈ draws o, k ∈ l
  rw [h]
  exact fun _ hk => List.mem_singleton.1 hk ▸ hl

/-- A program without payouts and without marks. -/
theorem permitted_of_within {ops : Op → Bool} {p : Relay α} (h : Footprint.Within ops p)
    (hops : ∀ {o : Op}, ops o = true → draws o = []) : backing.Permitted c p l :=
  Permits.permitted_of_only (h.imp fun _ ho => needs_none (hops ho))

theorem draws_of_recoversOfframps (h : o.recoversOfframps = true) : draws o = [] := by
  unfold Op.recoversOfframps at h
  split at h <;> first | rfl | cases h

theorem draws_of_cancelsExpired (h : o.cancelsExpired = true) : draws o = [] := by
  unfold Op.cancelsExpired at h
  split at h <;> first | rfl | cases h

theorem draws_of_monitorsSwaps (h : o.monitorsSwaps = true) : draws o = [] := by
  unfold Op.monitorsSwaps at h
  split at h <;> first | rfl | cases h

theorem draws_of_cancelsOfframp (h : o.cancelsOfframp = true) : draws o = [] := by
  unfold Op.cancelsOfframp at h
  split at h <;> first | rfl | cases h

theorem draws_of_monitorsOfframps (h : o.monitorsOfframps = true) : draws o = [] := by
  unfold Op.monitorsOfframps at h
  split at h <;> first | rfl | exact draws_of_cancelsOfframp h

theorem draws_of_refunds (h : o.refunds = true) : draws o = [] := by
  unfold Op.refunds at h
  split at h <;> first | rfl | exact draws_of_cancelsOfframp h

theorem draws_of_requestsOfframp (h : o.requestsOfframp = true) : draws o = [] := by
  unfold Op.requestsOfframp at h
  split at h <;> first | rfl | cases h

theorem draws_of_sendsPayment (h : o.sendsPayment = true) : draws o = [] := by
  unfold Op.sendsPayment at h
  split at h <;> first | rfl | cases h

theorem draws_of_deposits (h : o.deposits = true) : draws o = [] := by
  unfold Op.deposits at h
  split at h <;> first | rfl | exact draws_of_sendsPayment h

theorem draws_of_completesOfframp (h : o.completesOfframp = true) : draws o = [] := by
  unfold Op.completesOfframp at h
  split at h <;> first | rfl | cases h

/-- `fulfill_swap` touches its own swap only. -/
theorem permitted_fulfillSwap (h : String) : backing.Permitted c (fulfillSwap h) [h] := by
  have hown : h ∈ [h] := List.mem_singleton_self h
  refine Permits.permitted_of_only (only_fulfillSwap ?_ ?_ ?_ ?_ ?_ ?_ ?_ ?_ ?_)
  · exact needs_none rfl
  · exact fun _ => needs_none rfl
  · exact needs_none rfl
  · exact needs_one rfl hown
  · exact needs_none rfl
  · exact fun _ _ => needs_one rfl hown
  · exact fun _ _ => needs_one rfl hown
  · exact needs_one rfl hown
  · exact fun _ => needs_one rfl hown

/-- The recovery touches the swaps that it has found. -/
theorem permitted_recoverSwap (m : SwapMapping) (h : m.paymentHash ∈ l) :
    backing.Permitted c (recoverSwap m) l := by
  have hdone : ∀ tx, (db (.updateStatus m.paymentHash .completed tx)).Only
      fun o => ∀ k ∈ backing.needs c o, k ∈ l := fun tx => only_last (needs_one rfl h)
  refine Permits.permitted_of_only ((only_queryStateWithRetry ?_ ?_).bind ?_)
  · exact fun _ => needs_none rfl
  · exact needs_none rfl
  rintro (e | invoice)
  · exact hdone none
  refine only_perform (needs_one rfl h) ?_
  rintro (e | hex)
  · trivial
  refine only_perform (needs_one rfl h) ?_
  rintro (e | txHash)
  · trivial
  · exact hdone (some txHash)

theorem permitted_startLdk : backing.Permitted c (startLdk cfg) [] := by
  have hspawn : ∀ l, backing.Permitted c (do
      spawn .monitorExpiredSwaps
      spawn .monitorExpiredOfframps
      serve) l := fun l =>
    Permits.permitted_of_only (only_perform (needs_none rfl) fun _ =>
      only_perform (needs_none rfl) fun _ => only_last (needs_none rfl))
  refine Permits.permitted_perform (needs_none rfl) fun stuck => ?_
  refine (Permits.permitted_forEach stuck fun m hm => permitted_recoverSwap m ?_).bind fun _ => ?_
  · exact List.mem_append_left _ (List.mem_map_of_mem hm)
  refine (permitted_of_within Footprint.recoverDepositingOfframps draws_of_recoversOfframps).bind
    fun _ => ?_
  split_ifs
  · exact (permitted_of_within Footprint.cancelExpired draws_of_cancelsExpired).bind fun _ =>
      (permitted_of_within Footprint.cancelExpiredOfframps draws_of_cancelsExpired).bind fun _ =>
        hspawn _
  · exact hspawn _

/-- A new swap is Pending. -/
theorem permitted_handleSwapRequest (ip : String) (req : SwapRequest) :
    backing.Permitted c (handleSwapRequest cfg ip req) l := by
  refine Permits.permitted_of_only (only_perform (needs_none rfl) fun allowed => ?_)
  split_ifs
  · trivial
  · trivial
  · trivial
  refine only_perform (needs_none rfl) fun active => ?_
  dsimp only
  split_ifs
  · trivial
  refine only_perform (needs_none rfl) fun answer => ?_
  rcases insufficient req.amountCbtc answer with _ | available
  swap
  · trivial
  refine (only_requestSwap (fun _ _ _ => needs_none rfl) (fun _ => needs_none rfl) (needs_none rfl)
    (fun _ => needs_none rfl) _ _ _).bind ?_
  rintro (e | ⟨invoiceId, description, createTxHash⟩)
  · trivial
  refine (only_createInvoiceForSwap (fun _ _ _ _ => needs_none rfl) (fun _ _ _ _ => needs_none rfl) _ _).bind ?_
  rintro (_ | ⟨bolt11, paymentHash⟩)
  · trivial
  refine only_perform (needs_none rfl) fun now => Prog.Only.bind ?_ fun _ => trivial
  refine only_perform (needs_none rfl) fun created => only_perform (needs_none rfl) ?_
  rintro (_ | _)
  · exact nofun
  · trivial

/-- The handler of PaymentClaimed starts the fulfilment of the payment that it was told of. -/
theorem permitted_handleLdkEvents (event : LdkEvent) :
    backing.Permitted (.handleLdkEvents event) (handleLdkEvents event)
      (backedBy (.handleLdkEvents event)) := by
  refine Permits.permitted_of_only ?_
  cases event with
  | paymentClaimable h preimage =>
    rcases preimage with _ | preimage
    · trivial
    · exact only_last (needs_none rfl)
  | paymentClaimed h preimage secret amt =>
    refine only_perform (needs_none rfl) fun _ => only_perform (needs_none rfl) fun _ =>
      only_perform (needs_none rfl) ?_
    rintro (_ | m)
    · trivial
    · exact only_last (needs_one rfl (List.mem_singleton_self h))
  | paymentSent id h preimage =>
    rcases id with _ | id
    · trivial
    refine only_perform (needs_none rfl) fun _ => only_perform (needs_none rfl) fun _ =>
      only_perform (needs_none rfl) ?_
    rintro (_ | m)
    · trivial
    · exact only_last (needs_none rfl)
  | paymentFailed id h =>
    refine only_perform (needs_none rfl) fun _ => only_perform (needs_none rfl) fun _ => ?_
    rcases h with _ | h
    · trivial
    · exact only_last (needs_none rfl)

theorem body_permitted (cfg : Config) (c : Call) : backing.Permitted c (body cfg c) (backedBy c) := by
  have hperf := Footprint.body_performs cfg c
  cases c with
  | startLdk => exact permitted_startLdk
  | monitorExpiredSwaps => exact permitted_of_within hperf draws_of_monitorsSwaps
  | monitorExpiredOfframps => exact permitted_of_within hperf draws_of_monitorsOfframps
  | handleSwapRequest ip req =>
    exact (permitted_handleSwapRequest ip req).bind fun _ => Permits.permitted_pure ()
  | handleOfframpRequest => exact permitted_of_within hperf draws_of_requestsOfframp
  | handleOfframpDeposit => exact permitted_of_within hperf draws_of_deposits
  | handleLdkEvents event => exact permitted_handleLdkEvents event
  | fulfillSwap h => exact permitted_fulfillSwap h
  | completeOfframp => exact permitted_of_within hperf draws_of_completesOfframp
  | handleOfframpPaymentFailed => exact permitted_of_within hperf draws_of_refunds
  | sendpayment => exact permitted_of_within hperf draws_of_sendsPayment
  | cancelExpired | cancelExpiredOfframps =>
    exact permitted_of_within hperf draws_of_cancelsExpired

end

/-! ## One step -/

section

variable {tid : ℕ} {c : Call} {o : Op} {a : Answers} {r : o.Resp} {w w' : World} {sp : Option Call}
  {h : String}

/-- `claim_funds` is what makes a payment claimed. -/
theorem claimed_of_perform (hp : World.perform tid c o a w = .resume r w' sp) (hc : h ∈ w'.claimed) :
    h ∈ w.claimed ∨ ∃ preimage, o = .ldk (.claimFunds h preimage) := by
  cases o with
  | ldk call =>
    obtain ⟨rfl, rfl, rfl⟩ := Outcome.resume.inj hp
    cases call with
    | payForBolt11Invoice invoice amount =>
      left
      rcases hans : a.ldk (.payForBolt11Invoice invoice amount) with e | u <;> rw [hans] at hc <;>
        exact hc
    | createBolt11Invoice => exact Or.inl hc
    | claimFunds h' preimage =>
      rcases List.mem_cons.1 hc with rfl | hc
      · exact Or.inr ⟨preimage, rfl⟩
      · exact Or.inl hc
  | store call =>
    obtain ⟨rfl, rfl, rfl⟩ := Outcome.resume.inj hp
    left
    cases call <;> exact hc
  | panic => cases hp
  | _ =>
    obtain ⟨rfl, rfl, rfl⟩ := Outcome.resume.inj hp
    exact Or.inl hc

theorem claimedIn_mono {log log' : List Entry} (hc : ClaimedIn log h) (hlog : log <:+ log') :
    ClaimedIn log' h := by
  obtain ⟨e, hmem, hop⟩ := hc
  exact ⟨e, hlog.mem hmem, hop⟩

theorem backed_mono (he : Effect tid c o r w w' sp) (hb : w.Backed h) : w'.Backed h := by
  refine ⟨?_, claimedIn_mono hb.2 ?_⟩
  · rw [claimReported_eq he.delivered]
    exact hb.1
  · rw [he.log]
    exact List.suffix_cons _ _

/-- A row that is marked as received was so before, or this operation has marked it. -/
theorem received_cases (he : Effect tid c o r w w' sp) {y : SwapMapping} (hy : w'.swap h = some y)
    (hst : y.status.received = true) :
    (∃ x, w.swap h = some x ∧ x.status.received = true) ∨ h ∈ draws o := by
  rcases hx : w.swap h with _ | x
  · right
    obtain ⟨m, rfl, rfl⟩ := he.swap_of_none hx hy
    have hk : _ = h := SwapDb.paymentHash_of_getByPaymentHash hy
    have hk : m.paymentHash = h := hk
    have hst : m.status.received = true := hst
    simp [draws, hst, hk]
  · obtain ⟨z, hz, hcases⟩ := he.swap_cases hx
    rw [hy] at hz
    obtain rfl := Option.some.inj hz
    rcases hcases with rfl | ⟨st, tx, rfl, rfl⟩ | ⟨n, tx, rfl, rfl⟩
    · exact Or.inl ⟨y, rfl, hst⟩
    · have hst : st.received = true := hst
      exact Or.inr (by simp [draws, hst])
    · have hst : n.received = true := hst
      exact Or.inr (by simp [draws, hst])

theorem remembers_move (hp : World.perform tid c o a w = .resume r w' sp) (hR : Remembers w)
    (hgood : ∀ k ∈ draws o, w.Backed k) : Remembers w' := by
  have he := effect_of_perform hp
  have hlog : w.log <:+ w'.log := by
    rw [he.log]
    exact List.suffix_cons _ _
  refine ⟨fun h hc => ?_, fun h y hy hst => ?_, fun newer e older heq h hpays => ?_⟩
  · rcases claimed_of_perform hp hc with hc | ⟨preimage, rfl⟩
    · exact claimedIn_mono (hR.claimed h hc) hlog
    · exact ⟨_, he.log ▸ List.mem_cons_self, preimage, rfl⟩
  · rcases received_cases he hy hst with ⟨x, hx, hst⟩ | hdraws
    · exact backed_mono he (hR.rows h x hx hst)
    · exact backed_mono he (hgood h hdraws)
  · rw [he.log] at heq
    cases newer with
    | nil =>
      -- the operation that has just been performed
      obtain ⟨rfl, rfl⟩ := List.cons.inj heq
      refine (hgood h ?_).2
      change o.paysOut? = some h at hpays
      unfold Op.paysOut? at hpays
      split at hpays
      · obtain rfl := Option.some.inj hpays
        exact List.mem_singleton_self _
      · obtain rfl := Option.some.inj hpays
        exact List.mem_singleton_self _
      · cases hpays
    | cons e' newer => exact hR.payouts newer e older (List.cons.inj heq).2 h hpays

/-- What the recovery finds was received. -/
theorem finds_backed (hp : World.perform tid c o a w = .resume r w' sp) (hR : Remembers w) :
    ∀ k ∈ finds o r, w'.Backed k := by
  have he := effect_of_perform hp
  intro k hk
  unfold finds at hk
  split at hk
  · obtain ⟨m, hm, rfl⟩ := List.mem_map.1 hk
    have hans : _ = w.db.getByStatus .fulfilling := he.answered
    have hrows : m ∈ w.db.getByStatus .fulfilling := hans ▸ hm
    obtain ⟨hrow, hst⟩ := SwapDb.mem_getByStatus.1 hrows
    exact backed_mono he (hR.rows _ m hrow (by rw [hst]; rfl))
  · cases hk

theorem remembers_calm (hc : Calm w w') (hclaimed : w'.claimed = w.claimed)
    (hrep : ∀ h, w.claimReported h = true → w'.claimReported h = true) (hR : Remembers w) :
    Remembers w' := by
  refine ⟨?_, fun h r hr hst => ?_, ?_⟩
  · rw [hclaimed, hc.log]
    exact hR.claimed
  · rw [hc.swap] at hr
    obtain ⟨hb, hlog⟩ := hR.rows h r hr hst
    exact ⟨hrep h hb, hc.log ▸ hlog⟩
  · rw [hc.log]
    exact hR.payouts

/-- LDK reports a payment as claimed after the relay has claimed it. -/
theorem remembers_react {e : Env} {ch : Change Call} (hr : Reaction w e w' ch) (hR : Remembers w) :
    Remembers w' ∧ (∀ k, w.Backed k → w'.Backed k) ∧
      ∀ c, ch = .spawn c → ∀ k ∈ backedBy c, w'.Backed k := by
  have hrep : ∀ h, w.claimReported h = true → w'.claimReported h = true := by
    intro h hb
    cases hr with
    | deliver => rw [claimReported_deliver, hb, Bool.or_true]
    | _ => exact hb
  have hclaimed : w'.claimed = w.claimed := by
    cases hr <;> rfl
  refine ⟨remembers_calm hr.calm hclaimed hrep hR, ?_, ?_⟩
  · exact fun k hb => ⟨hrep k hb.1, hr.calm.log ▸ hb.2⟩
  · rintro c rfl k hk
    rcases hr.spawn with ⟨-, hc⟩ | ⟨event, rfl, rfl, hcan⟩
    · cases c <;> first | exact absurd hc Bool.false_ne_true | exact absurd hk List.not_mem_nil
    · cases event with
      | paymentClaimed h preimage secret amt =>
        obtain rfl := List.mem_singleton.1 hk
        cases hr with
        | deliver =>
          refine ⟨?_, hR.claimed k (by simpa [World.canDeliver] using hcan)⟩
          rw [claimReported_deliver]
          simp [LdkEvent.claimed?]
      | _ => cases hk

end

/-! ## All runs -/

theorem backing_valid (cfg : Config) (now : ℤ) :
    backing.Valid (relay cfg) (fun _ _ => True) (World.fresh cfg now) where
  body c := (body_permitted cfg c).mono fun _ _ _ => trivial
  boot := rfl
  init := by
    refine ⟨fun _ h => absurd h List.not_mem_nil, fun h r hr => ?_, fun newer e older h => ?_⟩
    · cases hr
    · exact absurd h (by simp [World.fresh])
  lasting hp hb := backed_mono (effect_of_perform hp) hb
  kept hp hR hgood := ⟨remembers_move hp hR hgood, finds_backed hp hR⟩
  spawned {tid c o a w r w' c'} hp k hk := by
    have hsp := (effect_of_perform hp).spawned
    unfold Op.spawns at hsp
    split at hsp
    · obtain rfl := Option.some.inj hsp
      exact hk
    · cases hsp
  abort hp hR := by
    obtain rfl := abort_of_perform hp
    exact remembers_calm (calm_restarted _) rfl (fun _ h => h) hR
  react hr hR := remembers_react (reaction_of_react hr) hR

/-- In every run: when a FulfillInvoice transaction is built or submitted for a swap, by `fulfill_swap`
or by the recovery after a crash, the relay has called `claim_funds` for its Lightning payment before;
and a swap that is Fulfilling, Completed or Failed has had its payment claimed and reported. -/
theorem payout_backed {cfg : Config} {now : ℤ} {s : Sys} (hs : Reachable cfg now s) :
    (∀ newer e older, s.world.log = newer ++ e :: older → ∀ h, e.op.paysOut? = some h →
      ClaimedIn older h) ∧
    ∀ h r, s.world.swap h = some r → r.status.received = true →
      s.world.claimReported h = true ∧ ClaimedIn s.world.log h := by
  have hR : Remembers s.world := (backing_valid cfg now).shared hs
  exact ⟨hR.payouts, hR.rows⟩

set_option maxRecDepth 100000 in
/-- The first swap of the devnet is paid out, after its payment was claimed. -/
theorem payout_backed_fulfilled : ∃ s newer e older, Reachable Devnet.config Devnet.startTime s ∧
    s.world.log = newer ++ e :: older ∧ e.op.paysOut? = some Devnet.invoice1.paymentHash ∧
    ClaimedIn older Devnet.invoice1.paymentHash := by
  obtain ⟨s, hs, hp⟩ := Devnet.reachable_of_after Devnet.fulfilledRun (fun s =>
    s.world.log.any fun e => e.op.paysOut? = some Devnet.invoice1.paymentHash) (by decide +kernel)
  simp only [List.any_eq_true, decide_eq_true_eq] at hp
  obtain ⟨e, hmem, hpays⟩ := hp
  obtain ⟨newer, older, hlog⟩ := List.append_of_mem hmem
  exact ⟨s, newer, e, older, hs, hlog, hpays, (payout_backed hs).1 newer e older hlog _ hpays⟩

end Onramp

end LightningRelay
