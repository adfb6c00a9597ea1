import LightningRelay.Visit
import LightningRelay.Devnet

/-!
# An offramp request is atomic

`request_offramp` checks the invoice, the amount and the address, creates the entry on Cardano in up
to three attempts, and stores the row.

* `requestOfframp_atomic`: a request that returns an error has stored nothing and had nothing
  accepted, and has built nothing if a check fails; one that succeeds has added one row, whose id and
  transaction hash come from one and the same attempt.
-/

set_option autoImplicit false

namespace LightningRelay

open Async

namespace Moment

/-- A call of `create_offramp`. -/
def creates (m : Moment) : Bool :=
  match m.op with
  | .operator _ (.createOfframp _ _ _ _) => true
  | _ => false

/-- A submission that was answered with the hash of its transaction. -/
def submitted : Moment → Bool
  | ⟨_, _, .operator _ (.submitTx _), .ok _⟩ => true
  | _ => false

end Moment

/-- The checks that an offramp request has to pass. -/
def Acceptable (cfg : Config) (db : SwapDb) (bolt11 : String) (amountCbtc : ℤ) (address : String) :
    Prop :=
  ∃ invoice msat pkh, cfg.bolt11FromStr bolt11 = .ok invoice ∧
    db.getOfframpByPaymentHash invoice.paymentHash = none ∧
    networkOk (startsWith cfg.operatorAddress "addr_test") invoice.currency = true ∧
    cbtcToMsat amountCbtc = some msat ∧ mismatch? invoice msat = none ∧
    addressToPkh cfg address = .ok pkh

/-- An attempt, newest operation first, that built the entry `id` and was accepted with the hash
`tx`. -/
def CreatedBy (id : ℤ) (tx : String) (attempt : List Moment) : Prop :=
  ∃ t t' landed landed' amount h pkh expiresAt hex, attempt =
    [⟨t', landed', .operator .pool (.submitTx ⟨.createOfframp, hex⟩), .ok tx⟩,
      ⟨t, landed, .operator .pool (.createOfframp amount h pkh expiresAt), .ok (id, hex)⟩]

/-- The request that began in `w` has added the row `m` and nothing else. -/
structure Recorded (w : World) (m : OfframpMapping) (v : Visit) : Prop where
  new : w.offramp m.offrampId = none
  row : v.world.offramp m.offrampId = some m
  others : ∀ k, k ≠ m.offrampId → v.world.offramp k = w.offramp k
  swaps : v.world.db.swaps = w.db.swaps
  created : ∃ tx newer attempt older, m.cardanoOfframpTxHash = some tx ∧
    CreatedBy m.offrampId tx attempt ∧ v.trace = newer ++ attempt ++ older ∧
    ∀ e ∈ newer ++ older, e.submitted = false

/-- What a request that began in `w` has done by the time it returns. -/
def Atomic (cfg : Config) (w : World) (bolt11 : String) (amountCbtc : ℤ) (address : String)
    (v : Visit) : Except String (ℤ × String × String) → Prop
  | .error _ => v.world.db = w.db ∧ (∀ m ∈ v.trace, m.submitted = false) ∧
      (¬ Acceptable cfg w.db bolt11 amountCbtc address → ∀ m ∈ v.trace, m.creates = false)
  | .ok (id, _, h) => ∃ m, Recorded w m v ∧ m.offrampId = id ∧ m.paymentHash = h ∧
      m.status = .awaitingDeposit ∧ m.cbtcTxHash = "" ∧ m.amountCbtc = amountCbtc

/-! ## The attempts -/

namespace Request

/-- So far the request has stored nothing, and nothing of it was accepted. -/
structure Untouched (w : World) (inputs : ℕ → Input) (v : Visit) : Prop where
  db : v.world.db = w.db
  inputs : ∃ n, v.inputs = fun i => inputs (i + n)
  refused : ∀ m ∈ v.trace, m.submitted = false

/-- The last attempt of the request was accepted. -/
structure Entered (w : World) (inputs : ℕ → Input) (x : ℤ × String) (v : Visit) : Prop where
  db : v.world.db = w.db
  answered : ∃ i about amount h pkh expiresAt hex,
    (inputs i).answers.operator about (.createOfframp amount h pkh expiresAt) = .ok (x.1, hex)
  trace : ∃ attempt older, v.trace = attempt ++ older ∧ CreatedBy x.1 x.2 attempt ∧
    ∀ m ∈ older, m.submitted = false

section

variable {w : World} {inputs : ℕ → Input} {v v' : Visit} {tid : ℕ} {c : Call}

theorem untouched_start : Untouched w inputs (.start w inputs) where
  db := rfl
  inputs := ⟨0, rfl⟩
  refused _ hm := absurd hm List.not_mem_nil

/-- One more operation that neither writes nor is an accepted submission. -/
theorem Untouched.after (h : Untouched w inputs v) {o : Op} {r : o.Resp} {w' : World}
    (hdb : w'.db = v.world.db)
    (hm : (⟨v.world.clock, (v.inputs 0).landed, o, r⟩ : Moment).submitted = false) :
    Untouched w inputs (v.after o r w') where
  db := hdb.trans h.db
  inputs := by
    obtain ⟨n, hn⟩ := h.inputs
    refine ⟨n + 1, funext fun i => ?_⟩
    show v.inputs (i + 1) = inputs (i + (n + 1))
    rw [congrFun hn (i + 1), Nat.add_assoc, Nat.add_comm 1]
  refused := List.forall_mem_cons.2 ⟨hm, h.refused⟩

variable (tid c) in
theorem exec_createOfframpTx (amount : ℤ) (h pkh : String) (expiresAt : ℤ)
    (hv : Untouched w inputs v) :
    ∃ r v', (createOfframpTx amount h pkh expiresAt).exec (Visit.act tid c) v = (some r, v') ∧
      Attempted (Entered w inputs) (Untouched w inputs) r v' := by
  refine exec_submitContractTxWithRetry ?_ ?_ hv
  · intro n v hv
    exact ⟨_, _, rfl, hv.after rfl rfl⟩
  · intro v hv
    rw [Visit.exec_operator]
    rcases hb : (v.inputs 0).answers.operator .pool (.createOfframp amount h pkh expiresAt) with
      e | ⟨id, hex⟩
    · exact ⟨_, _, rfl, hv.after rfl (by rw [hb]; rfl)⟩
    have hbuilt : Untouched w inputs
        (v.told tid c .pool (.createOfframp amount h pkh expiresAt)) :=
      hv.after rfl rfl
    rw [Visit.exec_operator]
    rcases hs : ((v.told tid c .pool (.createOfframp amount h pkh expiresAt)).inputs 0).answers.operator
      .pool (.submitTx ⟨.createOfframp, hex⟩) with e | tx
    · exact ⟨_, _, rfl, hbuilt.after rfl (by rw [hs]; rfl)⟩
    refine ⟨_, _, rfl, hbuilt.db, ?_, ?_⟩
    · obtain ⟨n, hn⟩ := hv.inputs
      rw [hn] at hb
      exact ⟨_, _, _, _, _, _, _, hb⟩
    · have htrace := Visit.trace_told tid c hs
      rw [Visit.trace_told tid c hb] at htrace
      exact ⟨[_, _], v.trace, htrace, ⟨_, _, _, _, _, _, _, _, _, rfl⟩, hv.refused⟩

/-- The row of an entry that was created is added, if the id is new. -/
theorem recorded_stored {m : OfframpMapping} {tx : String} (h : Entered w inputs (m.offrampId, tx) v)
    (hm : { m with lightningPreimage := none, depositTxHash := none, errorMessage := none } = m)
    (htx : m.cardanoOfframpTxHash = some tx) (hnew : w.offramp m.offrampId = none) :
    Recorded w m (v.stored tid c (.insertOfframp m)) := by
  have hrow : ∀ k, (v.stored tid c (.insertOfframp m)).world.offramp k =
      if k = m.offrampId then (w.offramp k).or (some m) else w.offramp k := by
    intro k
    show ((v.world.db.call (.insertOfframp m)).2).getOfframpById k = _
    rw [SwapDb.getOfframpById_call, h.db, DbCall.onOfframp, hm]
    rfl
  refine ⟨hnew, ?_, ?_, ?_, ?_⟩
  · rw [hrow, if_pos rfl, hnew, Option.none_or]
  · intro k hk
    rw [hrow, if_neg hk]
  · show ((v.world.db.call (.insertOfframp m)).2).swaps = _
    rw [h.db, SwapDb.call, SwapDb.insertOfframp]
    rcases w.db.offramps.insert? _ _ with _ | t <;> rfl
  · obtain ⟨attempt, older, htrace, hatt, hold⟩ := h.trace
    refine ⟨tx, [_], attempt, older, htx, hatt, congrArg (List.cons _) htrace, ?_⟩
    exact List.forall_mem_cons.2 ⟨rfl, hold⟩

end

end Request

section

variable {cfg : Config} {w : World} {bolt11 address : String} {amountCbtc : ℤ} {inputs : ℕ → Input}
  {v : Visit}

/-- A request that has only looked up the invoice and returns an error. -/
theorem atomic_of_rejected {e : String} (h : Request.Untouched w inputs v)
    (hq : ∀ m ∈ v.trace, m.creates = false) : Atomic cfg w bolt11 amountCbtc address v (.error e) :=
  ⟨h.db, h.refused, fun _ => hq⟩

/-- The insertion that ends a request succeeds. -/
theorem atomic_of_insertOfframp {m : OfframpMapping} {id : ℤ} {tx addr e : String} {tid : ℕ} {c : Call}
    (h : Request.Entered w inputs (id, tx) v) (hnew : w.offramp id = none) (hid : m.offrampId = id)
    (hm : { m with lightningPreimage := none, depositTxHash := none, errorMessage := none } = m)
    (htx : m.cardanoOfframpTxHash = some tx) (hstatus : m.status = .awaitingDeposit)
    (hcbtc : m.cbtcTxHash = "") (hamount : m.amountCbtc = amountCbtc) :
    ∃ r v', (db (.insertOfframp m) >>= fun b : Bool =>
      if b then pure (.ok (id, addr, m.paymentHash)) else panic e :
        Relay (Except String _)).exec (Visit.act tid c) v = (some r, v') ∧
      Atomic cfg w bolt11 amountCbtc address v' r := by
  subst hid
  have hstored : (v.world.db.call (.insertOfframp m)).1 = true := by
    rw [SwapDb.insertOfframp_fst_iff, h.db]
    exact hnew
  rw [Visit.exec_db, hstored]
  exact ⟨_, _, rfl, m, Request.recorded_stored h hm htx hnew, rfl, rfl, hstatus, hcbtc, hamount⟩

end

/-- An offramp request that is run without other writers and whose entries get new ids returns, and it
is atomic. -/
theorem requestOfframp_atomic (cfg : Config) (bolt11 : String) (amountCbtc : ℤ) (address : String)
    (expiryMs : ℤ) (tid : ℕ) (c : Call) (w : World) (inputs : ℕ → Input)
    (hnew : ∀ i about amount h pkh expiresAt id hex,
      (inputs i).answers.operator about (.createOfframp amount h pkh expiresAt) = .ok (id, hex) →
      w.offramp id = none) :
    ∃ r v, (requestOfframp cfg bolt11 amountCbtc address expiryMs).exec (Visit.act tid c)
      (.start w inputs) = (some r, v) ∧ Atomic cfg w bolt11 amountCbtc address v r := by
  have hstart : Request.Untouched w inputs (.start w inputs) := Request.untouched_start
  have hidle : ∀ m ∈ (Visit.start w inputs).trace, m.creates = false :=
    fun _ hm => absurd hm List.not_mem_nil
  unfold requestOfframp
  rcases hparse : cfg.bolt11FromStr bolt11 with e | invoice
  · exact ⟨_, _, rfl, atomic_of_rejected hstart hidle⟩
  dsimp only
  rw [Visit.exec_db]
  have hread : Request.Untouched w inputs
      ((Visit.start w inputs).stored tid c (.getOfframpByPaymentHash invoice.paymentHash)) :=
    hstart.after rfl rfl
  have hquiet : ∀ m ∈ ((Visit.start w inputs).stored tid c
      (.getOfframpByPaymentHash invoice.paymentHash)).trace, m.creates = false :=
    List.forall_mem_cons.2 ⟨rfl, hidle⟩
  -- from here on only what the lookup has returned matters
  have hlookup : ((Visit.start w inputs).world.db.call
    (.getOfframpByPaymentHash invoice.paymentHash)).1 =
      w.db.getOfframpByPaymentHash invoice.paymentHash := rfl
  rw [hlookup]
  generalize (Visit.start w inputs).stored tid c (.getOfframpByPaymentHash invoice.paymentHash) = v
    at hread hquiet
  rcases hfree : w.db.getOfframpByPaymentHash invoice.paymentHash with _ | existing
  swap
  · exact ⟨_, _, rfl, atomic_of_rejected hread hquiet⟩
  dsimp only
  split_ifs with hnet
  · exact ⟨_, _, rfl, atomic_of_rejected hread hquiet⟩
  rcases hmsat : cbtcToMsat amountCbtc with _ | msat
  · exact ⟨_, _, rfl, atomic_of_rejected hread hquiet⟩
  dsimp only
  rcases hmis : mismatch? invoice msat with _ | invAmt
  swap
  · exact ⟨_, _, rfl, atomic_of_rejected hread hquiet⟩
  dsimp only
  rcases hpkh : addressToPkh cfg address with e | pkh
  · exact ⟨_, _, rfl, atomic_of_rejected hread hquiet⟩
  have hacc : Acceptable cfg w.db bolt11 amountCbtc address :=
    ⟨invoice, msat, pkh, hparse, hfree, by simpa using hnet, hmsat, hmis, hpkh⟩
  dsimp only
  rw [Visit.exec_currentTimestampMs]
  have htimed : Request.Untouched w inputs (v.timed tid c) := hread.after rfl rfl
  obtain ⟨r, v', he, hr⟩ := Request.exec_createOfframpTx tid c amountCbtc
    invoice.paymentHash pkh (wrapI64 (v.world.clock + expiryMs)) htimed
  rw [Prog.exec_bind _ he]
  rcases r with e | ⟨id, tx⟩
  · exact ⟨_, v', rfl, hr.db, hr.refused, fun h => absurd hacc h⟩
  dsimp only
  have hid : w.offramp id = none := by
    obtain ⟨i, about, amount, h, pkh, expiresAt, hex, hans⟩ := hr.answered
    exact hnew i about amount h pkh expiresAt id hex hans
  exact atomic_of_insertOfframp hr hid rfl rfl rfl rfl rfl rfl

/-- The request of the first offramp of the devnet, answered well. -/
def devnetOfframpRequest : Option (Except String (ℤ × String × String)) × Visit :=
  (requestOfframp Devnet.config Devnet.invoice1.text 50 Devnet.userAddress 3600000).exec
    (Visit.act 3 (.handleOfframpRequest "127.0.0.1" ⟨Devnet.invoice1.text, 50, Devnet.userAddress⟩))
    (.start Devnet.fresh fun _ => ⟨Devnet.ok, 0, false⟩)

set_option maxRecDepth 100000 in
/-- The request of the first offramp of the devnet succeeds and adds its row. -/
theorem requestOfframp_atomic_answered :
    devnetOfframpRequest.1 =
      some (.ok (1, Devnet.operatorAddress, Devnet.invoice1.paymentHash)) ∧
    Atomic Devnet.config Devnet.fresh Devnet.invoice1.text 50 Devnet.userAddress
      devnetOfframpRequest.2 (.ok (1, Devnet.operatorAddress, Devnet.invoice1.paymentHash)) := by
  have hok : devnetOfframpRequest.1 =
      some (.ok (1, Devnet.operatorAddress, Devnet.invoice1.paymentHash)) := by decide +kernel
  obtain ⟨r, v, he, hr⟩ := requestOfframp_atomic Devnet.config Devnet.invoice1.text 50
    Devnet.userAddress 3600000 3 _ Devnet.fresh (fun _ => ⟨Devnet.ok, 0, false⟩)
    fun _ _ _ _ _ _ _ _ _ => rfl
  have he : devnetOfframpRequest = (some r, v) := he
  rw [he] at hok ⊢
  obtain rfl := Option.some.inj hok
  exact ⟨rfl, hr⟩

end LightningRelay
