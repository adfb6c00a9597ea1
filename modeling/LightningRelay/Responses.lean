import LightningRelay.Async.Replay
import LightningRelay.Onramp.History
import LightningRelay.Payout.History
import LightningRelay.Reports

/-!
# What the responses of the API stand for

A handler returns its response when its last operation is done; from then on other tasks, crashes and
the recovery go on changing the database.  What the client was told still holds.

* `swap_response`: a swap request that is answered with an invoice has stored its swap, once, and the
  status endpoint reports it in every later state; one that is answered with an error has stored none.
* `offramp_response`: the same of an offramp request.
* `deposit_response`: a notification that is answered well has had the deposit verified and stored for
  good, and LDK has accepted the payment of the invoice; one that is answered with an error has
  started no payment.
-/

set_option autoImplicit false

namespace LightningRelay

open Async

/-! ## What a task has done -/

/-- The log as a record of the tasks. -/
def World.record (w : World) : List (Recorded Op Op.Resp Call) :=
  w.log.map fun e => ⟨e.tid, e.call, e.op, e.resp⟩

/-- The operations of a task with their answers, oldest first. -/
def World.trace (w : World) (tid : ℕ) : List (Sigma Op.Resp) := ownRecord tid w.record

/-- What the program of a task has returned. -/
def World.response {α : Type} (w : World) (tid : ℕ) (p : Relay α) : Option α := p.replay (w.trace tid)

theorem relay_records (cfg : Config) : (relay cfg).Records World.record where
  resume hp := by
    rw [World.record, (effect_of_perform hp).log]
    rfl
  abort hp := by
    obtain rfl := abort_of_perform hp
    rfl
  react hr := by rw [World.record, (reaction_of_react hr).calm.log, World.record]

section

variable {cfg : Config} {now : ℤ} {s s' : Sys} {tid : ℕ} {c : Call} {α : Type} {p : Relay α}

/-- A handler that has ended has a response, and what is proved of its operations holds of them. -/
theorem exists_response {Q : α → List (Sigma Op.Resp) → Prop} (hs : Reachable cfg now s)
    (ht : s.tasks tid = some ⟨c, .pure ()⟩) (hc : body cfg c = discard p)
    (hQ : Follows Recording Q p []) : ∃ r, s.world.response tid p = some r ∧
      Q r (s.world.trace tid).reverse := by
  have hrep := Runtime.Reach.replays (relay_records cfg) rfl hs ht
  change (body cfg c).Replays (s.world.trace tid) (.pure ()) at hrep
  rw [hc] at hrep
  obtain ⟨r, hr⟩ := Prog.Replays.of_discard hrep
  have hend := hQ.replays hr
  rw [List.append_nil] at hend
  exact ⟨r, hr.replay_eq, hend⟩

/-- An operation of a task was performed in a state of the run, after what the task did before. -/
theorem turn_of_trace (hs : Reachable cfg now s) {pre post : List (Sigma Op.Resp)} {o : Op}
    {r : o.Resp} (h : s.world.trace tid = pre ++ ⟨o, r⟩ :: post) :
    ∃ s₁ s₂ c sp, Reachable cfg now s₁ ∧ Reachable cfg now s₂ ∧
      Effect tid c o r s₁.world s₂.world sp ∧ s₁.world.trace tid = pre ∧
      (relay cfg).Onward (fun _ _ => True) s₂ s := by
  obtain ⟨newer, x, older, hsplit, htid, hx, hpre⟩ := exists_split_of_ownRecord h
  obtain ⟨s₁, s₂, a, k, sp, hs₁, hok, -, hstep, hp, hbelow, hon⟩ :=
    Runtime.Reach.exists_turn (relay_records cfg) rfl hs hsplit
  obtain ⟨i, c, o', r'⟩ := x
  obtain rfl : i = tid := htid
  obtain ⟨rfl, hr⟩ := Sigma.mk.inj hx
  obtain rfl := eq_of_heq hr
  refine ⟨s₁, s₂, c, sp, hs₁, .step hs₁ hok hstep, effect_of_perform hp, ?_, hon⟩
  rw [World.trace, hbelow, hpre]

end

/-- A task whose program has ended. -/
theorem task_of_ended {s : Sys} {tid : ℕ} {c : Call}
    (h : ((s.tasks tid).any fun t => t.call = c && t.rest.ended) = true) :
    s.tasks tid = some ⟨c, .pure ()⟩ := by
  obtain ⟨⟨c', rest⟩, ht, hend⟩ := (Option.any_eq_true _ _).1 h
  simp only [Bool.and_eq_true, decide_eq_true_eq] at hend
  obtain ⟨rfl, hrest⟩ := hend
  cases rest with
  | pure a => exact ht
  | op o k => cases hrest

/-- No operation of the list satisfies `p`. -/
def Without (p : Sigma Op.Resp → Bool) (l : List (Sigma Op.Resp)) : Prop := ∀ x ∈ l, p x = false

theorem Without.cons {p : Sigma Op.Resp → Bool} {l : List (Sigma Op.Resp)} {x : Sigma Op.Resp}
    (h : Without p l) (hx : p x = false) : Without p (x :: l) :=
  List.forall_mem_cons.2 ⟨hx, h⟩

theorem without_nil {p : Sigma Op.Resp → Bool} : Without p [] := fun _ hx => nomatch hx

theorem Without.reverse {p : Sigma Op.Resp → Bool} {l : List (Sigma Op.Resp)}
    (h : Without p l.reverse) : Without p l := fun x hx => h x (List.mem_reverse.2 hx)

theorem Without.countP_cons {p : Sigma Op.Resp → Bool} {l : List (Sigma Op.Resp)} {x : Sigma Op.Resp}
    (h : Without p l) (hx : p x = true) : (x :: l).countP p = 1 := by
  rw [List.countP_cons_of_pos hx, List.countP_eq_zero.2 fun y hy => by rw [h y hy]; exact nofun]

/-- An operation that stores a new row. -/
def storesRow : Sigma Op.Resp → Bool
  | ⟨.db c, _⟩ => c.inserts
  | _ => false

/-- A call of LDK that starts a Lightning payment. -/
def startsPayment : Sigma Op.Resp → Bool
  | ⟨.ldk (.payForBolt11Invoice _ _), .ok _⟩ => true
  | _ => false

/-! ## Swap requests -/

namespace Responses

/-- The LM invoice `id` for `req` was built for the key of the user's address, and its transaction was
accepted as `hash`. -/
def LmInvoice (cfg : Config) (req : SwapRequest) (id : ℤ) (hash : String)
    (l : List (Sigma Op.Resp)) : Prop :=
  ∃ pre pkh t hex, validateAddress cfg req.cardanoAddress pre = .ok pkh ∧
    ⟨.operator .pool (.createInvoice req.amountCbtc pkh t (wrapI64 (t + cfg.swapExpiryMs))),
      .ok (id, hex)⟩ ∈ l ∧
    ⟨.operator .pool (.submitTx ⟨.createInvoice, hex⟩), .ok hash⟩ ∈ l

/-- LDK issued the invoice of the response, over the amount of the request. -/
def Bolt11Issued (cfg : Config) (req : SwapRequest) (resp : SwapResponse)
    (l : List (Sigma Op.Resp)) : Prop :=
  ∃ amtMsat invoice, cbtcToMsat req.amountCbtc = some amtMsat ∧
    ⟨.ldk (.createBolt11Invoice amtMsat (swapPrefix ++ req.cardanoAddress)
      (cfg.swapExpiryMs.tdiv 1000 % 2 ^ 32).toNat), .ok invoice⟩ ∈ l ∧
    invoice.text = resp.bolt11 ∧ invoice.paymentHash = resp.paymentHash

/-- The row of the swap that the response speaks of. -/
structure SwapRow (cfg : Config) (req : SwapRequest) (resp : SwapResponse) (m : SwapMapping)
    (l : List (Sigma Op.Resp)) : Prop where
  paymentHash : m.paymentHash = resp.paymentHash
  invoiceId : m.invoiceId = resp.invoiceId
  amountCbtc : m.amountCbtc = req.amountCbtc
  cardanoAddress : m.cardanoAddress = req.cardanoAddress
  lmInvoice : ∃ hash, m.createTxHash = some hash ∧ LmInvoice cfg req resp.invoiceId hash l
  bolt11 : Bolt11Issued cfg req resp l

/-- The operations of a swap request, newest first, by its response. -/
def SwapAnswered (cfg : Config) (req : SwapRequest) :
    Except ApiError SwapResponse → List (Sigma Op.Resp) → Prop
  | .error _, l => Without storesRow l
  | .ok resp, l => ∃ m rest, l = ⟨.db (.insert m), true⟩ :: rest ∧ Without storesRow rest ∧
      SwapRow cfg req resp m rest

section

variable {cfg : Config} {l : List (Sigma Op.Resp)}

theorem records_requestSwap (req : SwapRequest) (hl : Without storesRow l) :
    Follows Recording (Attempted (fun x l' => Without storesRow l' ∧
        LmInvoice cfg req x.1 x.2.2 l' ∧ x.2.1 = swapPrefix ++ req.cardanoAddress)
      (Without storesRow))
      (requestSwap cfg req.amountCbtc req.cardanoAddress cfg.swapExpiryMs) l := by
  unfold requestSwap
  dsimp only
  rcases hpkh : validateAddress cfg req.cardanoAddress _ with e | pkh
  · exact hl
  refine follows_perform fun (now : ℤ) => ⟨_, rfl, ?_⟩
  refine (follows_submitContractTxWithRetry' (Q := fun x l' => Without storesRow l' ∧
    LmInvoice cfg req x.1 x.2 l') (I := Without storesRow) ?_ ?_ (hl.cons rfl)).bind ?_
  · exact fun l n r hl => ⟨_, rfl, hl.cons rfl⟩
  · intro l hl
    refine follows_perform ?_
    rintro (e | ⟨id, hex⟩)
    · exact ⟨_, rfl, hl.cons rfl⟩
    refine ⟨_, rfl, follows_perform ?_⟩
    rintro (e | hash)
    · exact ⟨_, rfl, (hl.cons rfl).cons rfl⟩
    · exact ⟨_, rfl, (hl.cons rfl).cons rfl, _, pkh, now, hex, hpkh,
        List.mem_cons_of_mem _ List.mem_cons_self, List.mem_cons_self⟩
  · rintro (e | ⟨id, hash⟩) l hl
    · exact hl
    · exact ⟨hl.1, hl.2, rfl⟩

theorem LmInvoice.cons {req : SwapRequest} {id : ℤ} {hash : String} {x : Sigma Op.Resp}
    (h : LmInvoice cfg req id hash l) : LmInvoice cfg req id hash (x :: l) := by
  obtain ⟨pre, pkh, t, hex, hpkh, hbuild, hsubmit⟩ := h
  exact ⟨pre, pkh, t, hex, hpkh, List.mem_cons_of_mem _ hbuild, List.mem_cons_of_mem _ hsubmit⟩

theorem records_handleSwapRequest (ip : String) (req : SwapRequest) :
    Follows Recording (SwapAnswered cfg req) (handleSwapRequest cfg ip req) [] := by
  refine follows_perform fun allowed => ⟨_, rfl, ?_⟩
  have h₁ : Without storesRow [⟨.rateLimit ip, allowed⟩] := without_nil.cons rfl
  split_ifs
  · exact h₁
  · exact h₁
  · exact h₁
  refine follows_perform fun active => ⟨_, rfl, ?_⟩
  have h₂ := h₁.cons (x := ⟨.db .countActiveSwaps, active⟩) rfl
  split_ifs
  · exact h₂
  refine follows_perform fun pool => ⟨_, rfl, ?_⟩
  have h₃ := h₂.cons (x := ⟨.operator .pool .queryState, pool⟩) rfl
  rcases insufficient req.amountCbtc pool with _ | available
  swap
  · exact h₃
  refine (records_requestSwap req h₃).bind ?_
  rintro (e | ⟨id, description, hash⟩) l hl
  · exact hl
  obtain ⟨hl, hlm, rfl⟩ := hl
  unfold createInvoiceForSwap
  rcases hamt : cbtcToMsat req.amountCbtc with _ | amtMsat
  · exact hl
  dsimp only
  split_ifs
  · exact nofun
  refine follows_perform ?_
  rintro (e | invoice)
  · exact ⟨_, rfl, hl.cons rfl⟩
  refine ⟨_, rfl, follows_perform fun _ => ⟨_, rfl, ?_⟩⟩
  refine follows_perform fun (now : ℤ) => ⟨_, rfl, follows_perform fun (createdAt : ℤ) => ⟨_, rfl, ?_⟩⟩
  refine follows_perform ?_
  rintro (_ | _)
  · exact ⟨_, rfl, nofun⟩
  refine ⟨_, rfl, _, _, rfl, (((hl.cons rfl).cons rfl).cons rfl).cons rfl, rfl, rfl, rfl, rfl,
    ⟨hash, rfl, hlm.cons.cons.cons.cons⟩, amtMsat, invoice, hamt, ?_, rfl, rfl⟩
  simp only [List.mem_cons, true_or, or_true]

end

/-- What a response to a swap request stands for, given the operations of the request and a database
at any later time. -/
def SwapKept (cfg : Config) (req : SwapRequest) (trace : List (Sigma Op.Resp)) (db : SwapDb) :
    Except ApiError SwapResponse → Prop
  | .error _ => Without storesRow trace
  | .ok resp => trace.countP storesRow = 1 ∧ ∃ row, SwapRow cfg req resp row trace ∧
      handleSwapStatus db resp.paymentHash = .ok row.report ∧
      (row.report ∈ handleSwapHistory db ∨
        20 ≤ db.swaps.count fun r => row.createdAt ≤ r.createdAt)

theorem SwapRow.mono {cfg : Config} {req : SwapRequest} {resp : SwapResponse} {m m' : SwapMapping}
    {l l' : List (Sigma Op.Resp)} (h : SwapRow cfg req resp m l) (hl : ∀ x ∈ l, x ∈ l')
    (hm : m' = { m with status := m'.status, cardanoTxHash := m'.cardanoTxHash }) :
    SwapRow cfg req resp m' l' := by
  obtain ⟨hash, hhash, pre, pkh, t, hex, hpkh, hbuild, hsubmit⟩ := h.lmInvoice
  obtain ⟨amtMsat, invoice, hamt, hinvoice, htext⟩ := h.bolt11
  rw [hm]
  exact ⟨h.paymentHash, h.invoiceId, h.amountCbtc, h.cardanoAddress,
    ⟨hash, hhash, pre, pkh, t, hex, hpkh, hl _ hbuild, hl _ hsubmit⟩,
    amtMsat, invoice, hamt, hl _ hinvoice, htext⟩

section

variable {cfg : Config} {now : ℤ} {s s' : Sys} {tid : ℕ} {m : SwapMapping}
  {pre : List (Sigma Op.Resp)}

/-- A swap that a task has stored is there in every later state. -/
theorem swap_of_stored (hs : Reachable cfg now s)
    (hon : (relay cfg).Onward (fun _ _ => True) s s')
    (h : s.world.trace tid = pre ++ [⟨.db (.insert m), true⟩]) :
    ∃ row, s'.world.swap m.paymentHash = some row ∧
      row = { m with status := row.status, cardanoTxHash := row.cardanoTxHash } := by
  obtain ⟨s₁, s₂, c, sp, -, hs₂, he, -, hon₂⟩ := turn_of_trace hs h
  have hnone := SwapDb.insert_fst_iff.1 (show _ = true from he.answered.symm)
  have hrow : s₂.world.swap m.paymentHash = some { m with cardanoTxHash := none } := by
    rw [he.swap, show s₁.world.swap m.paymentHash = none from hnone]
    simp [Op.onSwap, DbCall.onSwap]
  obtain ⟨row, hget, hrow'⟩ := Onramp.forward_of_onward hs₂ (hon₂.trans hon) hrow
  exact ⟨row, hget, hrow'.request⟩

end

end Responses

section

variable {cfg : Config} {now : ℤ} {s s' : Sys} {tid : ℕ} {ip : String}

/-- A swap request that has ended has a response.  An invoice in it stands for one stored swap, with
the amount and the address of the request, whose LM invoice was accepted on Cardano and whose BOLT11
invoice LDK issued, and which is reported in every later state of the run; an error means that no swap
was stored. -/
theorem swap_response {req : SwapRequest} (hs : Reachable cfg now s)
    (ht : s.tasks tid = some ⟨.handleSwapRequest ip req, .pure ()⟩)
    (hon : (relay cfg).Onward (fun _ _ => True) s s') :
    ∃ r, s.world.response tid (handleSwapRequest cfg ip req) = some r ∧
      Responses.SwapKept cfg req (s.world.trace tid) s'.world.db r := by
  obtain ⟨r, hr, hans⟩ := exists_response hs ht rfl (Responses.records_handleSwapRequest ip req)
  refine ⟨r, hr, ?_⟩
  rcases r with e | resp
  · exact hans.reverse
  obtain ⟨m, rest, hl, hrest, hm⟩ := hans
  have htrace : s.world.trace tid = rest.reverse ++ [⟨.db (.insert m), true⟩] := by
    rw [← List.reverse_reverse (s.world.trace tid), hl, List.reverse_cons]
  have honce : (s.world.trace tid).countP storesRow = 1 := by
    rw [← List.countP_reverse, hl]
    exact hrest.countP_cons rfl
  obtain ⟨row, hget, hrow⟩ := Responses.swap_of_stored hs hon htrace
  rw [hm.paymentHash] at hget
  refine ⟨honce, row, hm.mono (fun x hx => ?_) hrow, ?_, report_mem_handleSwapHistory hget⟩
  · rw [htrace]
    exact List.mem_append_left _ (List.mem_reverse.2 hx)
  · rw [handleSwapStatus, show s'.world.db.getByPaymentHash resp.paymentHash = some row from hget]

end

set_option maxRecDepth 100000 in
/-- The first swap of the devnet is requested, and then fulfilled. -/
theorem swap_response_fulfilled : ∃ s s' resp,
    Reachable Devnet.config Devnet.startTime s ∧
    (relay Devnet.config).Onward (fun _ _ => True) s s' ∧
    s.world.response 3 (handleSwapRequest Devnet.config "127.0.0.1" ⟨50, Devnet.userAddress⟩) = some (.ok resp) ∧
    Responses.SwapKept Devnet.config ⟨50, Devnet.userAddress⟩ (s.world.trace 3) s'.world.db (.ok resp) := by
  obtain ⟨s, s', hs, hon, hp⟩ := Devnet.onward_of_after (Devnet.boot ++ Devnet.swapRequest 3 1) (Devnet.fulfilledRun.drop 19) (fun s _ =>
      ((s.tasks 3).any fun t => t.call = .handleSwapRequest "127.0.0.1" ⟨50, Devnet.userAddress⟩ &&
        t.rest.ended) &&
      (s.world.response 3 (handleSwapRequest Devnet.config "127.0.0.1" ⟨50, Devnet.userAddress⟩)).any
        fun r => r.toBool) (by decide +kernel)
  rw [Bool.and_eq_true] at hp
  obtain ⟨r, hr, hkept⟩ := swap_response hs (task_of_ended hp.1) hon
  rw [hr, Option.any_some] at hp
  rcases r with e | resp
  · cases hp.2
  · exact ⟨s, s', resp, hs, hon, hr, hkept⟩

/-! ## Offramp requests -/

namespace Responses

/-- The row of the offramp that the response speaks of: its invoice is the one of the request, its
refund goes to the key of the user's address, and its entry on Cardano was accepted. -/
structure OfframpRow (cfg : Config) (req : OfframpRequest) (resp : OfframpResponse)
    (m : OfframpMapping) (l : List (Sigma Op.Resp)) : Prop where
  offrampId : m.offrampId = resp.offrampId
  bolt11 : m.bolt11 = req.bolt11
  amountCbtc : m.amountCbtc = req.amountCbtc
  paymentHash : m.paymentHash = resp.paymentHash
  invoice : ∃ invoice, cfg.bolt11FromStr req.bolt11 = .ok invoice ∧
    invoice.paymentHash = resp.paymentHash
  refundAddress : addressToPkh cfg req.cardanoAddress = .ok m.refundAddress
  operatorAddress : resp.operatorAddress = cfg.operatorAddress
  entry : ∃ hash hex, m.cardanoOfframpTxHash = some hash ∧
    ⟨.operator .pool (.createOfframp req.amountCbtc resp.paymentHash m.refundAddress m.expiresAt),
      .ok (resp.offrampId, hex)⟩ ∈ l ∧
    ⟨.operator .pool (.submitTx ⟨.createOfframp, hex⟩), .ok hash⟩ ∈ l

/-- The operations of an offramp request, newest first, by its response. -/
def OfframpAnswered (cfg : Config) (req : OfframpRequest) :
    Except ApiError OfframpResponse → List (Sigma Op.Resp) → Prop
  | .error _, l => Without storesRow l
  | .ok resp, l => ∃ m rest, l = ⟨.db (.insertOfframp m), true⟩ :: rest ∧ Without storesRow rest ∧
      OfframpRow cfg req resp m rest

section

variable {cfg : Config} {l : List (Sigma Op.Resp)}

theorem records_createOfframpTx (amount : ℤ) (h pkh : String) (expiresAt : ℤ)
    (hl : Without storesRow l) :
    Follows Recording (Attempted (fun x l' => Without storesRow l' ∧ ∃ hex,
        ⟨.operator .pool (.createOfframp amount h pkh expiresAt), .ok (x.1, hex)⟩ ∈ l' ∧
        ⟨.operator .pool (.submitTx ⟨.createOfframp, hex⟩), .ok x.2⟩ ∈ l') (Without storesRow))
      (createOfframpTx amount h pkh expiresAt) l := by
  refine follows_submitContractTxWithRetry' (fun l n r hl => ⟨_, rfl, hl.cons rfl⟩) ?_ hl
  intro l hl
  refine follows_perform ?_
  rintro (e | ⟨id, hex⟩)
  · exact ⟨_, rfl, hl.cons rfl⟩
  refine ⟨_, rfl, follows_perform ?_⟩
  rintro (e | hash)
  · exact ⟨_, rfl, (hl.cons rfl).cons rfl⟩
  · exact ⟨_, rfl, (hl.cons rfl).cons rfl, hex, List.mem_cons_of_mem _ List.mem_cons_self,
      List.mem_cons_self⟩

theorem records_requestOfframp (req : OfframpRequest) (hl : Without storesRow l) :
    Follows Recording (fun r l' => match r with
        | .error _ => Without storesRow l'
        | .ok x => OfframpAnswered cfg req (.ok ⟨x.1, x.2.1, x.2.2, "AwaitingDeposit"⟩) l')
      (requestOfframp cfg req.bolt11 req.amountCbtc req.cardanoAddress cfg.swapExpiryMs) l := by
  unfold requestOfframp
  rcases hinv : cfg.bolt11FromStr req.bolt11 with e | invoice
  · exact hl
  refine follows_perform ?_
  rintro (_ | existing)
  swap
  · exact ⟨_, rfl, hl.cons rfl⟩
  refine ⟨_, rfl, ?_⟩
  have h₁ := hl.cons (x := ⟨.db (.getOfframpByPaymentHash invoice.paymentHash), none⟩) rfl
  dsimp only
  split_ifs
  · exact h₁
  rcases cbtcToMsat req.amountCbtc with _ | requiredMsat
  · exact h₁
  dsimp only
  rcases mismatch? invoice requiredMsat with _ | invAmt
  swap
  · exact h₁
  dsimp only
  rcases hpkh : addressToPkh cfg req.cardanoAddress with e | refundPkh
  · exact h₁
  refine follows_perform fun (nowMs : ℤ) => ⟨_, rfl, ?_⟩
  refine (records_createOfframpTx _ _ _ _ (h₁.cons rfl)).bind ?_
  rintro (e | ⟨offrampId, createTxHash⟩) l hl
  · exact hl
  obtain ⟨hl, hex, hbuild, hsubmit⟩ := hl
  refine follows_perform fun inserted => ⟨_, rfl, ?_⟩
  rcases inserted with _ | _
  · exact nofun
  · exact ⟨_, _, rfl, hl, rfl, rfl, rfl, rfl, ⟨invoice, hinv, rfl⟩, hpkh, rfl, createTxHash, hex, rfl,
      hbuild, hsubmit⟩

theorem records_handleOfframpRequest (ip : String) (req : OfframpRequest) :
    Follows Recording (OfframpAnswered cfg req) (handleOfframpRequest cfg ip req) [] := by
  refine follows_perform fun allowed => ⟨_, rfl, ?_⟩
  have h₁ : Without storesRow [⟨.rateLimit ip, allowed⟩] := without_nil.cons rfl
  split_ifs
  · exact h₁
  · exact h₁
  · exact h₁
  · exact h₁
  refine follows_perform fun active => ⟨_, rfl, ?_⟩
  have h₂ := h₁.cons (x := ⟨.db .countActiveOfframps, active⟩) rfl
  split_ifs
  · exact h₂
  refine (records_requestOfframp req h₂).bind ?_
  rintro (e | ⟨offrampId, operatorAddress, paymentHash⟩) l hl <;> exact hl

end

/-- What a response to an offramp request stands for, given the operations of the request and a
database at any later time. -/
def OfframpKept (cfg : Config) (req : OfframpRequest) (trace : List (Sigma Op.Resp)) (db : SwapDb) :
    Except ApiError OfframpResponse → Prop
  | .error _ => Without storesRow trace
  | .ok resp => trace.countP storesRow = 1 ∧ ∃ row, OfframpRow cfg req resp row trace ∧
      handleOfframpStatus db resp.offrampId = .ok row.report ∧
      (row.report ∈ handleOfframpHistory db ∨
        20 ≤ db.offramps.count fun r => row.createdAt ≤ r.createdAt)

theorem OfframpRow.mono {cfg : Config} {req : OfframpRequest} {resp : OfframpResponse}
    {m m' : OfframpMapping} {l l' : List (Sigma Op.Resp)} (h : OfframpRow cfg req resp m l)
    (hl : ∀ x ∈ l, x ∈ l')
    (hm : m' = { m with
      cbtcTxHash := m'.cbtcTxHash, status := m'.status, lightningPreimage := m'.lightningPreimage,
      depositTxHash := m'.depositTxHash, errorMessage := m'.errorMessage }) :
    OfframpRow cfg req resp m' l' := by
  obtain ⟨hash, hex, hhash, hbuild, hsubmit⟩ := h.entry
  rw [hm]
  exact ⟨h.offrampId, h.bolt11, h.amountCbtc, h.paymentHash, h.invoice, h.refundAddress,
    h.operatorAddress, hash, hex, hhash, hl _ hbuild, hl _ hsubmit⟩

section

variable {cfg : Config} {now : ℤ} {s s' : Sys} {tid : ℕ} {m : OfframpMapping}
  {pre : List (Sigma Op.Resp)}

/-- An offramp that a task has stored is there in every later state. -/
theorem offramp_of_stored (hs : Reachable cfg now s)
    (hon : (relay cfg).Onward (fun _ _ => True) s s')
    (h : s.world.trace tid = pre ++ [⟨.db (.insertOfframp m), true⟩]) :
    ∃ row, s'.world.offramp m.offrampId = some row ∧ row = { m with
      cbtcTxHash := row.cbtcTxHash, status := row.status
      lightningPreimage := row.lightningPreimage
      depositTxHash := row.depositTxHash, errorMessage := row.errorMessage } := by
  obtain ⟨s₁, s₂, c, sp, -, hs₂, he, -, hon₂⟩ := turn_of_trace hs h
  have hnone := SwapDb.insertOfframp_fst_iff.1 (show _ = true from he.answered.symm)
  have hrow : s₂.world.offramp m.offrampId = some { m with
      lightningPreimage := none, depositTxHash := none, errorMessage := none } := by
    rw [he.offramp, show s₁.world.offramp m.offrampId = none from hnone]
    simp [Op.onOfframp, DbCall.onOfframp]
  obtain ⟨row, hget, hrow'⟩ := Payout.becomes_of_onward hs₂ (hon₂.trans hon) hrow
  exact ⟨row, hget, hrow'.request⟩

end

end Responses

section

variable {cfg : Config} {now : ℤ} {s s' : Sys} {tid : ℕ} {ip : String}

/-- An offramp request that has ended has a response.  An offramp in it stands for one stored row, with
the amount and the invoice of the request, whose entry was accepted on Cardano and whose refund goes to
the key of the user's address, and which is reported in every later state of the run; an error means
that no offramp was stored. -/
theorem offramp_response {req : OfframpRequest} (hs : Reachable cfg now s)
    (ht : s.tasks tid = some ⟨.handleOfframpRequest ip req, .pure ()⟩)
    (hon : (relay cfg).Onward (fun _ _ => True) s s') :
    ∃ r, s.world.response tid (handleOfframpRequest cfg ip req) = some r ∧
      Responses.OfframpKept cfg req (s.world.trace tid) s'.world.db r := by
  obtain ⟨r, hr, hans⟩ := exists_response hs ht rfl (Responses.records_handleOfframpRequest ip req)
  refine ⟨r, hr, ?_⟩
  rcases r with e | resp
  · exact hans.reverse
  obtain ⟨m, rest, hl, hrest, hm⟩ := hans
  have htrace : s.world.trace tid = rest.reverse ++ [⟨.db (.insertOfframp m), true⟩] := by
    rw [← List.reverse_reverse (s.world.trace tid), hl, List.reverse_cons]
  have honce : (s.world.trace tid).countP storesRow = 1 := by
    rw [← List.countP_reverse, hl]
    exact hrest.countP_cons rfl
  obtain ⟨row, hget, hrow⟩ := Responses.offramp_of_stored hs hon htrace
  rw [hm.offrampId] at hget
  refine ⟨honce, row, hm.mono (fun x hx => ?_) hrow, ?_, report_mem_handleOfframpHistory hget⟩
  · rw [htrace]
    exact List.mem_append_left _ (List.mem_reverse.2 hx)
  · rw [handleOfframpStatus, show s'.world.db.getOfframpById resp.offrampId = some row from hget]

end

set_option maxRecDepth 100000 in
/-- The first offramp of the devnet is requested, and then completed. -/
theorem offramp_response_completed : ∃ s s' resp,
    Reachable Devnet.config Devnet.startTime s ∧
    (relay Devnet.config).Onward (fun _ _ => True) s s' ∧
    s.world.response 3 (handleOfframpRequest Devnet.config "127.0.0.1" ⟨Devnet.invoice1.text, 50, Devnet.userAddress⟩) = some (.ok resp) ∧
    Responses.OfframpKept Devnet.config ⟨Devnet.invoice1.text, 50, Devnet.userAddress⟩ (s.world.trace 3) s'.world.db (.ok resp) := by
  obtain ⟨s, s', hs, hon, hp⟩ := Devnet.onward_of_after (Devnet.boot ++ Devnet.offrampRequest 3 1 Devnet.invoice1) (Devnet.completedRun.drop 15) (fun s _ =>
      ((s.tasks 3).any fun t => t.call = .handleOfframpRequest "127.0.0.1" ⟨Devnet.invoice1.text, 50, Devnet.userAddress⟩ &&
        t.rest.ended) &&
      (s.world.response 3 (handleOfframpRequest Devnet.config "127.0.0.1" ⟨Devnet.invoice1.text, 50, Devnet.userAddress⟩)).any
        fun r => r.toBool) (by decide +kernel)
  rw [Bool.and_eq_true] at hp
  obtain ⟨r, hr, hkept⟩ := offramp_response hs (task_of_ended hp.1) hon
  rw [hr, Option.any_some] at hp
  rcases r with e | resp
  · cases hp.2
  · exact ⟨s, s', resp, hs, hon, hr, hkept⟩

/-! ## Deposits -/

namespace Responses

/-- A deposit was verified and stored for the offramp that was read as `mapping`, and then LDK accepted
the payment of its invoice, over its amount. -/
structure DepositPaid (cfg : Config) (req : OfframpDepositRequest) (mapping : OfframpMapping)
    (l : List (Sigma Op.Resp)) : Prop where
  given : req.cbtcTxHash ≠ ""
  read : ⟨.db (.getOfframpById req.offrampId), some mapping⟩ ∈ l
  verified : ⟨.operator (.offramp req.offrampId)
    (.verifyCbtcReceived req.cbtcTxHash mapping.amountCbtc), .ok true⟩ ∈ l
  stored : ⟨.db (.transitionOfframpWithCbtcTx req.offrampId req.cbtcTxHash .pendingVerification
    .payingLightning), true⟩ ∈ l
  payment : ∃ invoice requiredMsat, cfg.bolt11FromStr mapping.bolt11 = .ok invoice ∧
    cbtcToMsat mapping.amountCbtc = some requiredMsat ∧
    ⟨.ldk (.payForBolt11Invoice invoice (some requiredMsat)), .ok ()⟩ ∈ l
  once : l.countP startsPayment = 1

/-- The operations of a deposit notification, newest first, by its response. -/
def DepositAnswered (cfg : Config) (req : OfframpDepositRequest) :
    Except ApiError OfframpResponse → List (Sigma Op.Resp) → Prop
  | .error _, l => Without startsPayment l ∨
      ∃ mapping rest, l = ⟨.db (.getOfframpById req.offrampId), none⟩ :: rest ∧
        ⟨.db (.getOfframpById req.offrampId), some mapping⟩ ∈ rest
  | .ok resp, l => ∃ mapping mapping' rest,
      l = ⟨.db (.getOfframpById req.offrampId), some mapping'⟩ :: rest ∧
      resp = ⟨req.offrampId, cfg.operatorAddress, mapping'.paymentHash, mapping'.status.asStr⟩ ∧
      DepositPaid cfg req mapping rest

section

variable {cfg : Config} {l : List (Sigma Op.Resp)}

theorem records_sendPayment (invoice : Bolt11Invoice) (amtMsat : ℕ) (hl : Without startsPayment l) :
    Follows Recording (fun r l' => match r with
        | .error _ => Without startsPayment l'
        | .ok _ => ∃ rest, l' = ⟨.ldk (.payForBolt11Invoice invoice (some amtMsat)), .ok ()⟩ :: rest ∧
          Without startsPayment rest ∧ l <:+ rest)
      (sendPayment invoice (some amtMsat)) l := by
  refine follows_perform fun _ => ⟨_, rfl, ?_⟩
  rcases paymentAmount invoice.amountMilliSatoshis (some amtMsat) with e | amt
  · exact hl.cons rfl
  refine follows_perform fun _ => ⟨_, rfl, follows_perform fun _ => ⟨_, rfl, follows_perform ?_⟩⟩
  have h₃ := ((hl.cons (x := ⟨.enter (.sendPayment invoice.paymentHash), ()⟩) rfl).cons
    (x := ⟨.store (.insertOutbound invoice.paymentHash
      ⟨none, some invoice.paymentSecret, .pending, some amt⟩), ()⟩) rfl).cons
    (x := ⟨.persist outboundPaymentsFname, ()⟩) rfl
  rintro (e | _)
  · refine ⟨_, rfl, follows_perform fun known => ⟨_, rfl, ?_⟩⟩
    rcases known with _ | _
    · exact nofun
    · exact follows_perform fun _ => ⟨_, rfl, ((h₃.cons rfl).cons rfl).cons rfl⟩
  · exact ⟨_, rfl, _, rfl, h₃, ((List.suffix_cons _ _).trans (List.suffix_cons _ _)).trans
      (List.suffix_cons _ _)⟩

theorem records_processOfframpDeposit (req : OfframpDepositRequest) (hgiven : req.cbtcTxHash ≠ "")
    (hl : Without startsPayment l) :
    Follows Recording (fun r l' => match r with
        | .error _ => Without startsPayment l'
        | .ok _ => ∃ mapping, DepositPaid cfg req mapping l')
      (processOfframpDeposit cfg req.offrampId req.cbtcTxHash) l := by
  refine follows_perform ?_
  rintro (_ | mapping)
  · exact ⟨_, rfl, hl.cons rfl⟩
  refine ⟨_, rfl, follows_perform fun other => ⟨_, rfl, ?_⟩⟩
  have h₂ := (hl.cons (x := ⟨.db (.getOfframpById req.offrampId), some mapping⟩) rfl).cons
    (x := ⟨.db (.getOfframpByCbtcTx req.cbtcTxHash), other⟩) rfl
  rcases usedByOther req.offrampId other with _ | existing
  swap
  · exact h₂
  refine follows_perform ?_
  rintro (_ | _)
  · exact ⟨_, rfl, h₂.cons rfl⟩
  refine ⟨_, rfl, follows_perform ?_⟩
  rintro (e | _ | _)
  · exact ⟨_, rfl, follows_perform fun _ => ⟨_, rfl, ((h₂.cons rfl).cons rfl).cons rfl⟩⟩
  · exact ⟨_, rfl, follows_perform fun _ => ⟨_, rfl, ((h₂.cons rfl).cons rfl).cons rfl⟩⟩
  refine ⟨_, rfl, follows_perform ?_⟩
  rintro (_ | _)
  · exact ⟨_, rfl, ((h₂.cons rfl).cons rfl).cons rfl⟩
  refine ⟨_, rfl, ?_⟩
  have h₅ := ((h₂.cons (x := ⟨.db (.transitionOfframpStatus req.offrampId .awaitingDeposit
      .pendingVerification), true⟩) rfl).cons
    (x := ⟨.operator (.offramp req.offrampId)
      (.verifyCbtcReceived req.cbtcTxHash mapping.amountCbtc), .ok true⟩) rfl).cons
    (x := ⟨.db (.transitionOfframpWithCbtcTx req.offrampId req.cbtcTxHash .pendingVerification
      .payingLightning), true⟩) rfl
  unfold payOfframp
  rcases hinv : cfg.bolt11FromStr mapping.bolt11 with e | invoice
  · exact h₅
  dsimp only
  rcases hamt : cbtcToMsat mapping.amountCbtc with _ | requiredMsat
  · exact h₅
  refine (records_sendPayment invoice requiredMsat h₅).bind ?_
  rintro (e | _) l hl
  · exact follows_perform fun _ => ⟨_, rfl, hl.cons rfl⟩
  obtain ⟨rest, rfl, hrest, hsuffix⟩ := hl
  refine ⟨mapping, hgiven, ?_, ?_, ?_, ⟨invoice, requiredMsat, hinv, hamt, List.mem_cons_self⟩,
    hrest.countP_cons rfl⟩ <;>
  · refine List.mem_cons_of_mem _ (hsuffix.mem ?_)
    simp only [List.mem_cons, true_or, or_true]

theorem DepositPaid.cons {req : OfframpDepositRequest} {mapping : OfframpMapping} {x : Sigma Op.Resp}
    (h : DepositPaid cfg req mapping l) (hx : startsPayment x = false) :
    DepositPaid cfg req mapping (x :: l) where
  given := h.given
  read := List.mem_cons_of_mem _ h.read
  verified := List.mem_cons_of_mem _ h.verified
  stored := List.mem_cons_of_mem _ h.stored
  payment := by
    obtain ⟨invoice, requiredMsat, hinv, hamt, hpay⟩ := h.payment
    exact ⟨invoice, requiredMsat, hinv, hamt, List.mem_cons_of_mem _ hpay⟩
  once := by
    rw [List.countP_cons_of_neg (by rw [hx]; exact nofun)]
    exact h.once

theorem records_handleOfframpDeposit (ip : String) (req : OfframpDepositRequest) :
    Follows Recording (DepositAnswered cfg req) (handleOfframpDeposit cfg ip req) [] := by
  refine follows_perform fun allowed => ⟨_, rfl, ?_⟩
  have h₁ : Without startsPayment [⟨.rateLimit ip, allowed⟩] := without_nil.cons rfl
  split_ifs with _ _ hgiven
  · exact Or.inl h₁
  · exact Or.inl h₁
  · exact Or.inl h₁
  have hne : req.cbtcTxHash ≠ "" := by
    rintro hempty
    simp [hempty] at hgiven
  refine (records_processOfframpDeposit req hne h₁).bind ?_
  rintro (e | _) l hl
  · exact Or.inl hl
  obtain ⟨mapping, hpaid⟩ := hl
  refine follows_perform ?_
  rintro (_ | mapping')
  · exact ⟨_, rfl, Or.inr ⟨mapping, l, rfl, hpaid.read⟩⟩
  · exact ⟨_, rfl, mapping, mapping', l, rfl, rfl, hpaid⟩

end

/-- The row of an offramp whose deposit was announced with success: the deposit is stored for it, it was
verified for its amount, and LDK accepted the payment of its invoice over its amount. -/
structure DepositRow (cfg : Config) (req : OfframpDepositRequest) (resp : OfframpResponse)
    (row : OfframpMapping) (l : List (Sigma Op.Resp)) : Prop where
  offrampId : resp.offrampId = req.offrampId
  paymentHash : resp.paymentHash = row.paymentHash
  cbtcTxHash : row.cbtcTxHash = req.cbtcTxHash
  status : row.status ∈ [.payingLightning, .depositingToPool, .completed, .failed]
  verified : ⟨.operator (.offramp req.offrampId)
    (.verifyCbtcReceived req.cbtcTxHash row.amountCbtc), .ok true⟩ ∈ l
  payment : ∃ invoice requiredMsat, cfg.bolt11FromStr row.bolt11 = .ok invoice ∧
    cbtcToMsat row.amountCbtc = some requiredMsat ∧
    ⟨.ldk (.payForBolt11Invoice invoice (some requiredMsat)), .ok ()⟩ ∈ l

/-- What a response to a deposit notification stands for, given its operations and a database at any
later time. -/
def DepositKept (cfg : Config) (req : OfframpDepositRequest) (trace : List (Sigma Op.Resp))
    (db : SwapDb) : Except ApiError OfframpResponse → Prop
  | .error _ => Without startsPayment trace
  | .ok resp => trace.countP startsPayment = 1 ∧ ∃ row,
      db.getOfframpById req.offrampId = some row ∧ DepositRow cfg req resp row trace

section

variable {cfg : Config} {now : ℤ} {s s' : Sys} {tid : ℕ} {id : ℤ} {m : OfframpMapping}
  {l : List (Sigma Op.Resp)}

/-- An offramp that a task has read is there in every later state. -/
theorem becomes_of_read (hs : Reachable cfg now s) (hon : (relay cfg).Onward (fun _ _ => True) s s')
    (h : ⟨.db (.getOfframpById id), some m⟩ ∈ s.world.trace tid) :
    ∃ row, s'.world.offramp id = some row ∧ Payout.Becomes m row := by
  obtain ⟨pre, post, hsplit⟩ := List.append_of_mem h
  obtain ⟨s₁, s₂, c, sp, -, hs₂, he, -, hon₂⟩ := turn_of_trace hs hsplit
  have hread : s₁.world.offramp id = some m := he.answered.symm
  exact Payout.becomes_of_onward hs₂ (hon₂.trans hon) (by rw [he.offramp, hread]; rfl)

/-- A deposit that a task has stored is there in every later state. -/
theorem cbtcTxHash_of_stored {tx : String} {row : OfframpMapping} (htx : tx ≠ "")
    (hs : Reachable cfg now s) (hon : (relay cfg).Onward (fun _ _ => True) s s')
    (h : ⟨.db (.transitionOfframpWithCbtcTx id tx .pendingVerification .payingLightning), true⟩ ∈
      s.world.trace tid) (hrow : s'.world.offramp id = some row) : row.cbtcTxHash = tx := by
  obtain ⟨pre, post, hsplit⟩ := List.append_of_mem h
  obtain ⟨s₁, s₂, c, sp, -, hs₂, he, -, hon₂⟩ := turn_of_trace hs hsplit
  obtain ⟨x, hx, hst⟩ := SwapDb.transitionOfframpWithCbtcTx_fst_iff.1
    (show _ = true from he.answered.symm)
  have hstored : s₂.world.offramp id =
      some { x with cbtcTxHash := tx, status := .payingLightning } := by
    rw [he.offramp, show s₁.world.offramp id = some x from hx]
    simp [Op.onOfframp, DbCall.onOfframp, OfframpMapping.recorded, hst]
  obtain ⟨row', hget, hbecomes⟩ := Payout.becomes_of_onward hs₂ (hon₂.trans hon) hstored
  obtain rfl : row' = row := Option.some.inj (hget.symm.trans hrow)
  exact hbecomes.deposit htx

/-- A task does not miss an offramp that it has read before. -/
theorem not_missed (hs : Reachable cfg now s)
    (h : (s.world.trace tid).reverse = ⟨.db (.getOfframpById id), none⟩ :: l)
    (hread : ⟨.db (.getOfframpById id), some m⟩ ∈ l) : False := by
  have hsplit : s.world.trace tid = l.reverse ++ [⟨.db (.getOfframpById id), none⟩] := by
    rw [← List.reverse_reverse (s.world.trace tid), h, List.reverse_cons]
  obtain ⟨s₁, s₂, c, sp, hs₁, -, he, hpre, -⟩ := turn_of_trace hs hsplit
  have hnone : s₁.world.offramp id = none := he.answered.symm
  obtain ⟨row, hrow, -⟩ := becomes_of_read hs₁ .refl (by
    rw [hpre]
    exact List.mem_reverse.2 hread)
  rw [hnone] at hrow
  cases hrow

/-- An offramp with a deposit has left the first two statuses for good. -/
theorem status_of_deposit {row : OfframpMapping} (hs : Reachable cfg now s)
    (hrow : s.world.offramp id = some row) (hne : row.cbtcTxHash ≠ "") :
    row.status ∈ [.payingLightning, .depositingToPool, .completed, .failed] := by
  have hst := Payout.status_of_phase hs hrow
  unfold OfframpMapping.phase at hst
  rw [if_neg hne] at hst
  split_ifs at hst with hpaying
  · simp [hpaying]
  · exact List.mem_cons_of_mem _ hst

end

end Responses

section

variable {cfg : Config} {now : ℤ} {s s' : Sys} {tid : ℕ} {ip : String}

/-- A deposit notification that has ended has a response.  If it is not an error, the deposit was
verified for the amount of the offramp, LDK accepted one payment of the offramp's invoice over that
amount, and the deposit is stored for the offramp in every later state of the run; an error means that
the notification started no payment. -/
theorem deposit_response {req : OfframpDepositRequest} (hs : Reachable cfg now s)
    (ht : s.tasks tid = some ⟨.handleOfframpDeposit ip req, .pure ()⟩)
    (hon : (relay cfg).Onward (fun _ _ => True) s s') :
    ∃ r, s.world.response tid (handleOfframpDeposit cfg ip req) = some r ∧
      Responses.DepositKept cfg req (s.world.trace tid) s'.world.db r := by
  obtain ⟨r, hr, hans⟩ := exists_response hs ht rfl (Responses.records_handleOfframpDeposit ip req)
  refine ⟨r, hr, ?_⟩
  rcases r with e | resp
  · rcases hans with hnone | ⟨mapping, rest, hl, hread⟩
    · exact hnone.reverse
    · exact (Responses.not_missed hs hl hread).elim
  obtain ⟨mapping, mapping', rest, hl, rfl, hpaid⟩ := hans
  have hpaid := hpaid.cons (x := ⟨.db (.getOfframpById req.offrampId), some mapping'⟩) rfl
  rw [← hl] at hpaid
  have hmem : ∀ {x}, x ∈ (s.world.trace tid).reverse → x ∈ s.world.trace tid :=
    fun h => List.mem_reverse.1 h
  -- both readings are of the row as it is in the later state
  obtain ⟨row, hrow, hbecomes⟩ := Responses.becomes_of_read hs hon (hmem hpaid.read)
  obtain ⟨row', hrow', hbecomes'⟩ := Responses.becomes_of_read (m := mapping') hs hon
    (hmem (hl ▸ List.mem_cons_self))
  obtain rfl : row' = row := Option.some.inj (hrow'.symm.trans hrow)
  have htx := Responses.cbtcTxHash_of_stored hpaid.given hs hon (hmem hpaid.stored) hrow
  obtain ⟨invoice, requiredMsat, hinv, hamt, hpay⟩ := hpaid.payment
  have hbolt11 : row'.bolt11 = mapping.bolt11 := by rw [hbecomes.request]
  have hamount : row'.amountCbtc = mapping.amountCbtc := by rw [hbecomes.request]
  have hhash : row'.paymentHash = mapping'.paymentHash := by rw [hbecomes'.request]
  refine ⟨List.countP_reverse ▸ hpaid.once, row', hrow, rfl, hhash.symm, htx, ?_, ?_, ?_⟩
  · exact Responses.status_of_deposit (hs.onward hon) hrow (htx ▸ hpaid.given)
  · rw [hamount]
    exact hmem hpaid.verified
  · exact ⟨invoice, requiredMsat, hbolt11 ▸ hinv, hamount ▸ hamt, hmem hpay⟩

end

set_option maxRecDepth 100000 in
/-- The deposit of the first offramp of the devnet is announced, and the offramp is completed. -/
theorem deposit_response_completed : ∃ s s' resp,
    Reachable Devnet.config Devnet.startTime s ∧
    (relay Devnet.config).Onward (fun _ _ => True) s s' ∧
    s.world.response 4 (handleOfframpDeposit Devnet.config "127.0.0.1" ⟨1, Devnet.depositTx⟩) = some (.ok resp) ∧
    Responses.DepositKept Devnet.config ⟨1, Devnet.depositTx⟩ (s.world.trace 4) s'.world.db (.ok resp) := by
  obtain ⟨s, s', hs, hon, hp⟩ := Devnet.onward_of_after Devnet.paidRun (Devnet.completedRun.drop Devnet.paidRun.length) (fun s _ =>
      ((s.tasks 4).any fun t => t.call = .handleOfframpDeposit "127.0.0.1" ⟨1, Devnet.depositTx⟩ &&
        t.rest.ended) &&
      (s.world.response 4 (handleOfframpDeposit Devnet.config "127.0.0.1" ⟨1, Devnet.depositTx⟩)).any
        fun r => r.toBool) (by decide +kernel)
  rw [Bool.and_eq_true] at hp
  obtain ⟨r, hr, hkept⟩ := deposit_response hs (task_of_ended hp.1) hon
  rw [hr, Option.any_some] at hp
  rcases r with e | resp
  · cases hp.2
  · exact ⟨s, s', resp, hs, hon, hr, hkept⟩

end LightningRelay
