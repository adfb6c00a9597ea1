import LightningRelay.Async.History
import LightningRelay.Codec.Json
import LightningRelay.Esplora
import LightningRelay.HexUtils

/-!
# The bitcoind client

`bitcoind_client.rs` with the decoders of `convert.rs`, what it uses of `bdk_wallet.rs`, and the event
`FundingGenerationReady` of `events.rs`.  A decoder that meets a value of another shape unwraps a `None`; with `panic = "abort"` this
ends the process, and so does a failed call whose result is unwrapped.

* `fee_poll`: what the fee table shows while the loop that polls bitcoind for estimates goes on, and that
  the first call that fails ends the process.  The loop goes on when Esplora is used in place of its table.
-/

set_option autoImplicit false

namespace LightningRelay

open Async Codec

namespace Bitcoind

open Esplora (ConfirmationTarget Fees minFeerate initialFees)

/-- The functions of other crates that the client uses, and the conversions of JSON numbers. -/
structure Crates where
  Num : Type
  Script : Type
  Tx : Type
  Psbt : Type
  /-- What a scan of the BDK wallet has found. -/
  Update : Type
  ofNat : ℕ → Num
  asU64 : Num → Option ℕ
  asI64 : Num → Option ℤ
  /-- `(x * 100_000_000.0 / 4.0).round() as u32`: BTC per thousand vbytes in sat per thousand weight
  units. -/
  satPerKw : Num → ℕ
  satPerKw_lt : ∀ x, satPerKw x < 2 ^ 32
  /-- `sats as f64 / 100_000_000.0`. -/
  btc : ℕ → Num
  /-- `satPerKw as f64 / 250.0`. -/
  satPerVb : ℕ → Num
  addressFromScript : Script → Except String String
  deserialize : List UInt8 → Except String Tx
  extractTx : Psbt → Except String Tx
  /-- `Amount` as it is printed. -/
  amount : ℕ → String

variable (C : Crates)

/-- An operation of the client or of a handler that uses it. -/
inductive Op where
  /-- `RpcClient::call_method`. -/
  | rpc (method : String) (params : List (Json C.Num))
  | storeFee (target : ConfirmationTarget) (feerate : ℕ)
  /-- The table of the client, or that of Esplora where it is used. -/
  | loadFee (target : ConfirmationTarget)
  | sleep (secs : ℕ)
  | bdkFullScan (stopGap concurrency : ℕ)
  | bdkApplyUpdate (update : C.Update)
  /-- The confirmed and the trusted pending balance of the BDK wallet. -/
  | bdkBalance
  | logInfo (line : String)
  /-- `build_tx` with one recipient and a fee rate, and `finish`. -/
  | bdkBuildTx (outputScript : C.Script) (valueSats feeRateSatPerKwu : ℕ)
  /-- Signing changes the PSBT, and tells whether it is final. -/
  | bdkSign (psbt : C.Psbt)
  | fundingTransactionGenerated (temporaryChannelId counterpartyNodeId : String) (tx : C.Tx)
  | println (line : String)
  | panic (msg : String)

@[reducible] def Op.Resp : Op C → Type
  | .rpc _ _ => Except String (Json C.Num)
  | .loadFee _ => ℕ
  | .bdkFullScan _ _ => Except String C.Update
  | .bdkBalance => ℕ × ℕ
  | .bdkBuildTx _ _ _ => Except String C.Psbt
  | .bdkSign _ => Except String (Bool × C.Psbt)
  | .bdkApplyUpdate _ | .fundingTransactionGenerated _ _ _ => Except String Unit
  | .storeFee _ _ | .sleep _ | .logInfo _ | .println _ => Unit
  | .panic _ => Empty

/-- A program of the client. -/
abbrev Client := Prog (Op C) (Op.Resp C)

section

variable {C} {α : Type}

abbrev perform (o : Op C) : Client C (o.Resp C) := Prog.perform o

def panic (msg : String) : Client C α := .op (.panic msg) fun e => nomatch e

/-- Call a method and decode its answer, which has to have the right shape. -/
def callMethod (decode : Json C.Num → Option α) (method : String) (params : List (Json C.Num)) :
    Client C (Except String α) := do
  match ← perform (.rpc method params) with
  | .error e => pure (.error e)
  | .ok json =>
    match decode json with
    | some a => pure (.ok a)
    | none => panic "called `Option::unwrap()` on a `None` value"

/-- `Result::unwrap`. -/
def unwrap : Except String α → Client C α
  | .ok a => pure a
  | .error e => panic s!"called `Result::unwrap()` on an `Err` value: {e}"

/-! ## The answers -/

/-- `FeeResponse`: the feerate, if bitcoind has one. -/
def feeResponse (json : Json C.Num) : Option (Option ℕ) :=
  some ((json.get "feerate").asNum.map C.satPerKw)

/-- `MempoolMinFeeResponse`, which asserts that the mempool has its default size. -/
def mempoolMinFeeResponse (json : Json C.Num) : Option (Option ℕ) :=
  if (json.get "maxmempool").asNum.bind C.asU64 = some 300000000 then
    some ((json.get "mempoolminfee").asNum.map C.satPerKw)
  else none

/-- `RawTx`. -/
def rawTx (json : Json C.Num) : Option String := json.asStr

/-- `FundedTx`: the position of the change and the transaction. -/
def fundedTx (json : Json C.Num) : Option (ℤ × String) := do
  let changepos ← (json.get "changepos").asNum.bind C.asI64
  let hex ← (json.get "hex").asStr
  pure (changepos, hex)

/-- `SignedTx`: the transaction and whether it is complete. -/
def signedTx (json : Json C.Num) : Option (String × Bool) := do
  let hex ← (json.get "hex").asStr
  let complete ← (json.get "complete").asBool
  pure (hex, complete)

/-! ## Fee estimates -/

/-- The feerate of an answer, at least the minimum of LDK. -/
def estimateOr (default : ℕ) : Option ℕ → ℕ
  | some feerate => max feerate minFeerate
  | none => default

/-- The estimate for a number of blocks. -/
def estimatesmartfee (default blocks : ℕ) (mode : String) : Client C ℕ := do
  let resp ← callMethod feeResponse "estimatesmartfee" [.num (C.ofNat blocks), .str mode]
  pure (estimateOr default (← unwrap resp))

/-- The minimum of the mempool. -/
def mempoolmin : Client C ℕ := do
  let resp ← callMethod mempoolMinFeeResponse "getmempoolinfo" []
  pure (estimateOr minFeerate (← unwrap resp))

/-- The subtraction of `u32` values in a release build. -/
def subU32 (x y : ℕ) : ℕ := (x + 2 ^ 32 - y) % 2 ^ 32

/-- One turn of the loop. -/
def pollOnce : Client C Unit := do
  let mempoolminEstimate ← mempoolmin
  let backgroundEstimate ← estimatesmartfee minFeerate 144 "ECONOMICAL"
  let normalEstimate ← estimatesmartfee 2000 18 "ECONOMICAL"
  let highPrioEstimate ← estimatesmartfee 5000 6 "CONSERVATIVE"
  let veryHighPrioEstimate ← estimatesmartfee 50000 2 "CONSERVATIVE"
  perform (.storeFee .maximumFeeEstimate veryHighPrioEstimate)
  perform (.storeFee .urgentOnChainSweep highPrioEstimate)
  perform (.storeFee .minAllowedAnchorChannelRemoteFee mempoolminEstimate)
  perform (.storeFee .minAllowedNonAnchorChannelRemoteFee (subU32 backgroundEstimate 250))
  perform (.storeFee .anchorChannelFee backgroundEstimate)
  perform (.storeFee .nonAnchorChannelFee normalEstimate)
  perform (.storeFee .channelCloseMinimum backgroundEstimate)
  perform (.storeFee .outputSpendingFee backgroundEstimate)
  perform (.sleep 60)

/-- The first turns of the endless loop. -/
def pollForFeeEstimates : ℕ → Client C Unit
  | 0 => pure ()
  | turns + 1 => do
    pollOnce
    pollForFeeEstimates turns

/-! ## Funding a channel -/

/-- A history of the client, newest first. -/
abbrev History (C : Crates) := List (Sigma (Op.Resp C))

/-- No answer of a history is one of these. -/
def Without (Bad : Sigma (Op.Resp C) → Prop) (l : History C) : Prop := ∀ x ∈ l, ¬ Bad x

theorem Without.cons {Bad : Sigma (Op.Resp C) → Prop} {x : Sigma (Op.Resp C)} {l : History C}
    (h : Without Bad l) (hx : ¬ Bad x) : Without Bad (x :: l) := List.forall_mem_cons.2 ⟨hx, h⟩

/-- What a call was answered: an error, or a value of the right shape. -/
inductive Answered (decode : Json C.Num → Option α) (method : String) (params : List (Json C.Num))
    (l : History C) : Except String α → History C → Prop where
  | error {e : String} : Answered decode method params l (.error e) (⟨.rpc method params, .error e⟩ :: l)
  | ok {json : Json C.Num} {a : α} : decode json = some a →
      Answered decode method params l (.ok a) (⟨.rpc method params, .ok json⟩ :: l)

variable {β : Type} {A : History C → Op C → Prop} {l : History C}

theorem obeys_panic {Q : α → History C → Prop} {msg : String} (h : A l (.panic msg)) :
    (panic msg : Client C α).Obeys A Q l := by
  refine ⟨h, ?_⟩
  intro r
  cases r

theorem obeys_unwrap_error {Q : β → History C → Prop} {f : α → Client C β} {e : String}
    (h : ∀ msg, A l (.panic msg)) : (unwrap (.error e) >>= f).Obeys A Q l :=
  Prog.Obeys.bind (Q := fun _ _ => False) (obeys_panic (h _)) fun _ _ hf => hf.elim

/-- A call whose answer has another shape ends the process. -/
theorem obeys_callMethod {decode : Json C.Num → Option α} {method : String} {params : List (Json C.Num)}
    (h : A l (.rpc method params))
    (hbad : ∀ json msg, decode json = none → A (⟨.rpc method params, .ok json⟩ :: l) (.panic msg)) :
    (callMethod decode method params).Obeys A (Answered decode method params l) l := by
  refine obeys_perform h fun r => ?_
  cases r with
  | error e => exact obeys_pure .error
  | ok json =>
    cases hd : decode json with
    | none =>
      simp only [hd]
      exact obeys_panic (hbad json _ hd)
    | some a =>
      simp only [hd]
      exact obeys_pure (.ok hd)

def Op.panics : Op C → Bool
  | .panic _ => true
  | _ => false

/-- Where a rule lets a program end the process after a bad answer and go on only without one, the program
is at that end just if there was one. -/
theorem panic_iff {Bad : Sigma (Op.Resp C) → Prop} {Q : α → History C → Prop} {q : Client C α}
    (hA : ∀ o, A l o → (o.panics = true ↔ ∃ x ∈ l, Bad x)) (hQ : ∀ a, Q a l → Without Bad l)
    (hq : q.Obeys A Q l) : (∃ msg k, q = .op (.panic msg) k) ↔ ∃ x ∈ l, Bad x := by
  cases q with
  | pure a =>
    constructor
    · rintro ⟨msg, k, h⟩
      cases h
    · rintro ⟨x, hx, hbad⟩
      exact absurd hbad (hQ a hq x hx)
  | op o k =>
    rw [← hA o hq.1]
    cases o with
    | panic msg => exact ⟨fun _ => rfl, fun _ => ⟨msg, k, rfl⟩⟩
    | _ =>
      constructor
      · rintro ⟨msg, k', h⟩
        cases h
      · intro h
        cases h

theorem Without.goesOn {Bad : Sigma (Op.Resp C) → Prop} (h : Without Bad l) :
    false = true ↔ ∃ x ∈ l, Bad x := by
  constructor
  · intro hf
    cases hf
  · rintro ⟨x, hx, hbad⟩
    exact absurd hbad (h x hx)

/-! ## The table -/

/-- The table after a history. -/
def table : History C → Fees
  | [] => initialFees
  | ⟨.storeFee target feerate, _⟩ :: l => Function.update (table l) target feerate
  | _ :: l => table l

/-- What a target is never below. -/
def floor : ConfirmationTarget → ℕ
  | .minAllowedNonAnchorChannelRemoteFee => 3
  | _ => minFeerate

/-- A feerate that the table may show for a target. -/
def Bounded (target : ConfirmationTarget) (feerate : ℕ) : Prop :=
  floor target ≤ feerate ∧ feerate < 2 ^ 32

theorem bounded_initialFees (target : ConfirmationTarget) : Bounded target (initialFees target) := by
  cases target <;> exact ⟨by decide, by decide⟩

theorem bounded_table (h : ∀ target feerate r, (⟨.storeFee target feerate, r⟩ : Sigma (Op.Resp C)) ∈ l →
    Bounded target feerate) (target : ConfirmationTarget) : Bounded target (table l target) := by
  induction l with
  | nil => exact bounded_initialFees target
  | cons x l ih =>
    have hl := ih fun t f r hx => h t f r (List.mem_cons_of_mem _ hx)
    obtain ⟨o, r⟩ := x
    cases o with
    | storeFee t f =>
      rw [table, Function.update_apply]
      split
      · next heq => exact heq ▸ h t f r List.mem_cons_self
      · exact hl
    | _ => exact hl

/-- The targets that follow the estimate for 144 blocks agree. -/
def Settled (fees : Fees) : Prop :=
  fees .channelCloseMinimum = fees .anchorChannelFee ∧
    fees .outputSpendingFee = fees .anchorChannelFee ∧
    fees .minAllowedNonAnchorChannelRemoteFee + 250 = fees .anchorChannelFee

/-- An answer that the poll does not survive: an error, or a mempool of another size. -/
def Refused : Sigma (Op.Resp C) → Prop
  | ⟨.rpc _ _, .error _⟩ => True
  | ⟨.rpc method _, .ok json⟩ => method = "getmempoolinfo" ∧ mempoolMinFeeResponse json = none
  | _ => False

/-- What the poll does: it ends the process after an answer that it does not survive, and goes on only
without one. -/
def Polls (l : History C) : Op C → Prop
  | .panic _ => ∃ x ∈ l, Refused x
  | .storeFee target feerate => Bounded target feerate ∧ Without Refused l
  | .sleep _ => Settled (table l) ∧ Without Refused l
  | _ => Without Refused l

theorem Polls.panics_iff {o : Op C} (h : Polls l o) : o.panics = true ↔ ∃ x ∈ l, Refused x := by
  cases o with
  | panic msg => exact ⟨fun _ => h, fun _ => rfl⟩
  | storeFee target feerate => exact h.2.goesOn
  | sleep secs => exact h.2.goesOn
  | _ => exact Without.goesOn h

/-- An estimate that has arrived. -/
def Estimated (n : ℕ) (l : History C) : Prop :=
  Without Refused l ∧ minFeerate ≤ n ∧ n < 2 ^ 32

theorem estimateOr_bounds {default : ℕ} (hd : minFeerate ≤ default ∧ default < 2 ^ 32)
    (x : Option C.Num) : minFeerate ≤ estimateOr default (x.map C.satPerKw) ∧
      estimateOr default (x.map C.satPerKw) < 2 ^ 32 := by
  cases x with
  | none => exact hd
  | some x => exact ⟨le_max_right _ _, max_lt (C.satPerKw_lt x) (by decide)⟩

theorem estimatesmartfee_polls {default blocks : ℕ} {mode : String}
    (hd : minFeerate ≤ default ∧ default < 2 ^ 32) (hl : Without Refused l) :
    (estimatesmartfee default blocks mode).Obeys Polls Estimated l := by
  refine (obeys_callMethod hl ?_).bind ?_
  · intro json msg h
    cases h
  · rintro res _ (_ | ⟨hfee⟩)
    · exact obeys_unwrap_error fun msg => ⟨_, List.mem_cons_self, trivial⟩
    · cases hfee
      exact ⟨hl.cons fun h => absurd h.1 (by decide), estimateOr_bounds hd _⟩

theorem mempoolmin_polls (hl : Without Refused l) : (mempoolmin (C := C)).Obeys Polls Estimated l := by
  refine (obeys_callMethod hl ?_).bind ?_
  · exact fun json msg h => ⟨_, List.mem_cons_self, rfl, h⟩
  · rintro res _ (_ | ⟨hfee⟩)
    · exact obeys_unwrap_error fun msg => ⟨_, List.mem_cons_self, trivial⟩
    · have hsome := hfee
      rw [mempoolMinFeeResponse] at hfee
      split at hfee
      · cases hfee
        exact ⟨hl.cons fun h => (Option.some_ne_none _ (hsome.symm.trans h.2)).elim,
          estimateOr_bounds ⟨le_rfl, by decide⟩ _⟩
      · cases hfee

theorem subU32_add {n : ℕ} (h : minFeerate ≤ n ∧ n < 2 ^ 32) : subU32 n 250 + 250 = n := by
  rw [subU32]
  have hmin : 253 ≤ n := h.1
  omega

theorem bounded_of_estimate {n : ℕ} (h : minFeerate ≤ n ∧ n < 2 ^ 32) (target : ConfirmationTarget) :
    Bounded target n := by
  refine ⟨le_trans ?_ h.1, h.2⟩
  cases target <;> decide

theorem bounded_subU32 {n : ℕ} (h : minFeerate ≤ n ∧ n < 2 ^ 32) :
    Bounded .minAllowedNonAnchorChannelRemoteFee (subU32 n 250) := by
  have hsub := subU32_add h
  have hmin : 253 ≤ n := h.1
  have hlt := h.2
  constructor
  · rw [floor]
    omega
  · omega

theorem polls_store {Q : α → History C → Prop} {target : ConfirmationTarget} {feerate : ℕ}
    {f : Unit → Client C α} (hb : Bounded target feerate) (hl : Without Refused l)
    (hf : ∀ r, Without Refused (⟨.storeFee target feerate, r⟩ :: l) →
      (f r).Obeys Polls Q (⟨.storeFee target feerate, r⟩ :: l)) :
    (perform (.storeFee target feerate) >>= f).Obeys Polls Q l :=
  obeys_perform ⟨hb, hl⟩ fun r => hf r (hl.cons id)

/-- The table after the last five stores of a turn. -/
theorem settled_stores {background normal : ℕ} {r₁ r₂ r₃ r₄ r₅ : Unit}
    (h : minFeerate ≤ background ∧ background < 2 ^ 32) :
    Settled (table (C := C) (⟨.storeFee .outputSpendingFee background, r₁⟩ ::
      ⟨.storeFee .channelCloseMinimum background, r₂⟩ :: ⟨.storeFee .nonAnchorChannelFee normal, r₃⟩ ::
      ⟨.storeFee .anchorChannelFee background, r₄⟩ ::
      ⟨.storeFee .minAllowedNonAnchorChannelRemoteFee (subU32 background 250), r₅⟩ :: l)) := by
  simp [Settled, table, subU32_add h]

theorem pollOnce_polls (hl : Without Refused l) :
    (pollOnce (C := C)).Obeys Polls (fun _ l => Without Refused l) l := by
  refine (mempoolmin_polls hl).bind fun mempoolmin l₁ h₁ => ?_
  refine (estimatesmartfee_polls (by decide) h₁.1).bind fun background l₂ h₂ => ?_
  refine (estimatesmartfee_polls (by decide) h₂.1).bind fun normal l₃ h₃ => ?_
  refine (estimatesmartfee_polls (by decide) h₃.1).bind fun high l₄ h₄ => ?_
  refine (estimatesmartfee_polls (by decide) h₄.1).bind fun veryHigh l₅ h₅ => ?_
  refine polls_store (bounded_of_estimate h₅.2 _) h₅.1 fun _ h => ?_
  refine polls_store (bounded_of_estimate h₄.2 _) h fun _ h => ?_
  refine polls_store (bounded_of_estimate h₁.2 _) h fun _ h => ?_
  refine polls_store (bounded_subU32 h₂.2) h fun _ h => ?_
  refine polls_store (bounded_of_estimate h₂.2 _) h fun _ h => ?_
  refine polls_store (bounded_of_estimate h₃.2 _) h fun _ h => ?_
  refine polls_store (bounded_of_estimate h₂.2 _) h fun _ h => ?_
  refine polls_store (bounded_of_estimate h₂.2 _) h fun _ h => ?_
  exact obeys_last ⟨settled_stores h₂.2, h⟩ fun _ => h.cons id

theorem pollForFeeEstimates_polls (turns : ℕ) (hl : Without Refused l) :
    (pollForFeeEstimates (C := C) turns).Obeys Polls (fun _ l => Without Refused l) l := by
  induction turns generalizing l with
  | zero => exact obeys_pure hl
  | succ turns ih => exact (pollOnce_polls hl).bind fun _ _ hl' => ih hl'

/-- Whatever bitcoind answers, at every moment of the poll the table shows at least LDK's minimum for
every target, or 3 for what non-anchor channels may use, and while the poll sleeps the targets that follow
one estimate agree.  The poll ends the process as soon as a call fails or the mempool has not its default
size, and never else. -/
theorem fee_poll {turns : ℕ} {tr : List (Sigma (Op.Resp C))} {q : Client C Unit}
    (h : (pollForFeeEstimates turns).Replays tr q) :
    (∀ target, Bounded target (table tr.reverse target)) ∧
      (∀ secs k, q = .op (.sleep secs) k → Settled (table tr.reverse)) ∧
      ((∃ msg k, q = .op (.panic msg) k) ↔ ∃ x ∈ tr, Refused x) := by
  have hpolls := pollForFeeEstimates_polls (C := C) turns (l := []) (List.forall_mem_nil _)
  have hq := hpolls.replays h
  rw [List.append_nil] at hq
  have hpanic := panic_iff (fun o h => Polls.panics_iff h) (fun _ h => h) hq
  simp only [List.mem_reverse] at hpanic
  refine ⟨bounded_table ?_, ?_, hpanic⟩
  · intro target feerate r hx
    obtain ⟨pre, post, htr⟩ := List.append_of_mem (List.mem_reverse.1 hx)
    exact (hpolls.of_mem h htr).1
  · rintro secs k rfl
    exact hq.1.1

end

/-- A transaction with one output. -/
structure PlainTx where
  complete : Bool
  sats : ℕ
  script : String
  deriving DecidableEq, Repr

/-- A transaction of bytes: a flag, the amount, big endian, and the script. -/
def PlainTx.deserialize : List UInt8 → Except String PlainTx
  | flag :: a :: b :: c :: script =>
    .ok ⟨flag == 1, a.toNat * 65536 + b.toNat * 256 + c.toNat,
      String.ofList (script.map fun b => Char.ofNat b.toNat)⟩
  | _ => .error "unexpected end of file"

/-- Crates whose numbers are whole and whose scripts are addresses. -/
def plainCrates : Crates where
  Num := ℕ
  Script := String
  Tx := PlainTx
  Psbt := PlainTx
  Update := Unit
  ofNat := id
  asU64 := some
  asI64 n := some n
  satPerKw n := n % 2 ^ 32
  satPerKw_lt n := Nat.mod_lt n (by decide)
  btc := id
  satPerVb n := n / 250
  addressFromScript := .ok
  deserialize := PlainTx.deserialize
  extractTx := .ok
  amount := toString

/-- The answers of a turn of the poll: the mempool asks for 1000, and the estimates are 500 for 144 blocks,
none for 18, 6000 for 6 and 70000 for 2. -/
def plainTurn : List (Sigma (Op.Resp plainCrates)) :=
  [⟨.rpc "getmempoolinfo" [], .ok (.obj [("maxmempool", .num (300000000 : ℕ)),
      ("mempoolminfee", .num (1000 : ℕ))])⟩,
    ⟨.rpc "estimatesmartfee" [.num (144 : ℕ), .str "ECONOMICAL"], .ok (.obj [("feerate", .num (500 : ℕ))])⟩,
    ⟨.rpc "estimatesmartfee" [.num (18 : ℕ), .str "ECONOMICAL"], .ok (.obj [])⟩,
    ⟨.rpc "estimatesmartfee" [.num (6 : ℕ), .str "CONSERVATIVE"], .ok (.obj [("feerate", .num (6000 : ℕ))])⟩,
    ⟨.rpc "estimatesmartfee" [.num (2 : ℕ), .str "CONSERVATIVE"],
      .ok (.obj [("feerate", .num (70000 : ℕ))])⟩,
    ⟨.storeFee .maximumFeeEstimate 70000, ()⟩,
    ⟨.storeFee .urgentOnChainSweep 6000, ()⟩,
    ⟨.storeFee .minAllowedAnchorChannelRemoteFee 1000, ()⟩,
    ⟨.storeFee .minAllowedNonAnchorChannelRemoteFee 250, ()⟩,
    ⟨.storeFee .anchorChannelFee 500, ()⟩,
    ⟨.storeFee .nonAnchorChannelFee 2000, ()⟩,
    ⟨.storeFee .channelCloseMinimum 500, ()⟩,
    ⟨.storeFee .outputSpendingFee 500, ()⟩]

/-- A whole turn comes to its sleep with the new estimates in the table, and a call that fails in the next
turn ends the process. -/
theorem fee_poll_refused :
    (∃ q : Client plainCrates Unit, (pollForFeeEstimates 2).Replays plainTurn q ∧
      (∃ k, q = .op (.sleep 60) k) ∧ Settled (table plainTurn.reverse) ∧
      table plainTurn.reverse .channelCloseMinimum = 500) ∧
    ∃ q : Client plainCrates Unit, (pollForFeeEstimates 2).Replays (plainTurn ++
        [⟨.sleep 60, ()⟩, ⟨.rpc "getmempoolinfo" [], .error "connection refused"⟩]) q ∧
      ∃ msg k, q = .op (.panic msg) k := by
  have hturn : (pollForFeeEstimates 2).Replays plainTurn _ :=
    .step (.step (.step (.step (.step (.step (.step (.step (.step (.step (.step (.step (.step
      .refl))))))))))))
  have hrefused := (hturn.snoc ()).snoc (.error "connection refused")
  rw [List.append_assoc] at hrefused
  refine ⟨⟨_, hturn, ⟨_, rfl⟩, (fee_poll hturn).2.1 _ _ rfl, rfl⟩, _, hrefused, ?_⟩
  exact (fee_poll hrefused).2.2.2 ⟨_, List.mem_append_right _ (.tail _ List.mem_cons_self), trivial⟩

end Bitcoind

end LightningRelay
