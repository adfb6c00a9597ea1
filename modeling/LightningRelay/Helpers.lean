import LightningRelay.Ops
import Mathlib.Algebra.Group.Int.Defs
import Mathlib.Algebra.Group.Nat.Defs

/-!
# Helpers

The retry loops of `helpers.rs`, the amounts of `amounts.rs`, and the configuration of a relay.
Parsing of BOLT11 invoices and of bech32 text is done by third-party crates; the configuration
holds these functions as parameters.
-/

set_option autoImplicit false

namespace LightningRelay

open Async

/-- What a running relay has fixed: the functions of the crates `lightning-invoice` and `bech32`
that it calls, its operator address, and the settings read from the environment. -/
structure Config where
  bolt11FromStr : String → Except String Bolt11Invoice
  bech32Decode : String → Except String (String × List ℕ)
  fromBase32 : List ℕ → Except String (List ℕ)
  operatorAddress : String
  swapExpiryMs : ℤ
  maxActiveSwaps : ℤ
  maxActiveOfframps : ℤ
  rateLimitMax : ℕ
  rateLimitWindow : ℤ
  reconcileOnStartup : Bool

/-! ## Strings and integers -/

/-- Whether `s` begins with `pat` (`str::starts_with`). -/
def startsWith (s pat : String) : Bool := pat.toList.isPrefixOf s.toList

/-- Whether `s` has `pat` in it (`str::contains`). -/
def contains (s pat : String) : Bool := s.toList.tails.any fun t => pat.toList.isPrefixOf t

/-- The value of an `i64` computation in a release build. -/
def wrapI64 (x : ℤ) : ℤ := x.bmod (2 ^ 64)

theorem wrapI64_of_bounds {x : ℤ} (hl : -2 ^ 63 ≤ x) (hu : x < 2 ^ 63) : wrapI64 x = x := by
  apply Int.bmod_eq_of_le <;> omega

theorem wrapI64_lt (x : ℤ) : wrapI64 x < 2 ^ 63 := by
  have h : x.bmod (2 ^ 64) < _ := Int.bmod_lt (by decide)
  rw [wrapI64]
  omega

def msatsPerCbtcBaseUnit : ℕ := 1000

/-- The Lightning amount of an amount of cBTC, `none` where it does not fit a `u64`. -/
def cbtcToMsat (amountCbtc : ℤ) : Option ℕ :=
  if amountCbtc ≤ 0 then none
  else if amountCbtc.toNat * msatsPerCbtcBaseUnit < 2 ^ 64 then
    some (amountCbtc.toNat * msatsPerCbtcBaseUnit)
  else none

/-- A digit of `hex::encode`. -/
def hexDigit (n : ℕ) : Char := "0123456789abcdef".toList.getD n '0'

/-- Lowercase hex text of bytes (`hex::encode`). -/
def hexEncode (bytes : List ℕ) : String :=
  String.ofList (bytes.flatMap fun b => [hexDigit (b / 16), hexDigit (b % 16)])

/-! ## Retries -/

def isRetryableSubmitErr (errStr : String) : Bool :=
  contains errStr "BadInputs" || contains errStr "already been included" ||
    contains errStr "ConwayMempoolFailure"

/-- The attempts that are left of `submitContractTxWithRetry`. -/
def submitAttempts {α : Type} (context : String) (maxAttempts delay : ℕ)
    (buildAndSubmit : Relay (Except CardanoError α)) : ℕ → String → Relay (Except String α)
  | 0, lastErr => pure (.error s!"{context}: failed after {maxAttempts} attempts: {lastErr}")
  | left + 1, _ => do
    if left + 1 < maxAttempts then sleep delay
    match ← buildAndSubmit with
    | .ok result => pure (.ok result)
    | .error errStr =>
      if isRetryableSubmitErr errStr then
        submitAttempts context maxAttempts delay buildAndSubmit left errStr
      else pure (.error s!"{context}: non-retryable error: {errStr}")

/-- Build and submit a transaction, again after an error that the chain's indexing lag explains. -/
def submitContractTxWithRetry {α : Type} (context : String) (maxAttempts delay : ℕ)
    (buildAndSubmit : Relay (Except CardanoError α)) : Relay (Except String α) :=
  submitAttempts context maxAttempts delay buildAndSubmit maxAttempts ""

/-- Submit what a building call returned. -/
def thenSubmit (about : About) (kind : TxKind) :
    Except CardanoError String → Relay (Except CardanoError String)
  | .error e => pure (.error e)
  | .ok hex => operator about (.submitTx ⟨kind, hex⟩)

/-- The attempts that are left of `queryStateWithRetry`. -/
def queryAttempts {α : Type} (about : About) (maxAttempts delay : ℕ) (context : String)
    (findFn : ContractState → Option α) : ℕ → Relay (Except String α)
  | 0 => pure (.error s!"{context}: not found in on-chain state after {maxAttempts} attempts")
  | left + 1 => do
    match ← operator about .queryState with
    | .ok state =>
      match findFn state with
      | some item => pure (.ok item)
      | none => do
        if left > 0 then sleep delay
        queryAttempts about maxAttempts delay context findFn left
    | .error e =>
      if left > 0 then do
        sleep delay
        queryAttempts about maxAttempts delay context findFn left
      else pure (.error s!"state query failed after {maxAttempts} attempts: {e}")

/-- Query the on-chain state until `findFn` finds what it looks for. All queries failing and the
item never being found end in the same kind of error. -/
def queryStateWithRetry {α : Type} (about : About) (maxAttempts delay : ℕ) (context : String)
    (findFn : ContractState → Option α) : Relay (Except String α) :=
  queryAttempts about maxAttempts delay context findFn maxAttempts

section

variable {τ α : Type} {Move : τ → (o : Op) → o.Resp → τ → Prop} {l : τ}

/-- What an attempt leaves behind: `Q` where it succeeds, and `I` where it fails. -/
def Attempted (Q : α → τ → Prop) (I : τ → Prop) : Except String α → τ → Prop
  | .ok a, l => Q a l
  | .error _, l => I l

/-- The submission loop keeps to a protocol when its body does, with `I` between the attempts. -/
theorem follows_submitContractTxWithRetry' {context : String} {maxAttempts delay : ℕ}
    {buildAndSubmit : Relay (Except CardanoError α)} {Q : α → τ → Prop} {I : τ → Prop}
    (hs : ∀ l n r, I l → ∃ l', Move l (.sleep n) r l' ∧ I l')
    (hb : ∀ l, I l → Follows Move (Attempted Q I) buildAndSubmit l) (hl : I l) :
    Follows Move (Attempted Q I)
      (submitContractTxWithRetry context maxAttempts delay buildAndSubmit) l := by
  unfold submitContractTxWithRetry
  generalize "" = lastErr
  suffices h : ∀ left l, I l → Follows Move (Attempted Q I)
      (submitAttempts context maxAttempts delay buildAndSubmit left lastErr) l from
    h maxAttempts l hl
  intro left
  induction left generalizing lastErr with
  | zero => exact fun l hl => hl
  | succ left ih =>
    intro l hl
    have hbody : ∀ l, I l → Follows Move (Attempted Q I) (buildAndSubmit >>= fun x =>
        match x with
        | .ok result => pure (.ok result)
        | .error errStr =>
          if isRetryableSubmitErr errStr then
            submitAttempts context maxAttempts delay buildAndSubmit left errStr
          else pure (.error s!"{context}: non-retryable error: {errStr}")) l := by
      intro l hl
      refine (hb l hl).bind ?_
      rintro (e | a) l' hl'
      · dsimp only
        split_ifs
        · exact ih e l' hl'
        · exact hl'
      · exact hl'
    unfold submitAttempts
    split_ifs
    · refine follows_perform fun r => ?_
      obtain ⟨l', hm, hl'⟩ := hs l _ r hl
      exact ⟨l', hm, hbody l' hl'⟩
    · exact hbody l hl

/-- The submission loop, run alone, returns if its body does, with `I` between the attempts. -/
theorem exec_submitContractTxWithRetry {World : Type}
    {act : (o : Op) → World → Option (o.Resp × World)} {context : String} {maxAttempts delay : ℕ}
    {buildAndSubmit : Relay (Except CardanoError α)} {Q : α → World → Prop} {I : World → Prop}
    (hs : ∀ n w, I w → ∃ r w', act (.sleep n) w = some (r, w') ∧ I w')
    (hb : ∀ w, I w → ∃ r w', buildAndSubmit.exec act w = (some r, w') ∧ Attempted Q I r w')
    {w : World} (hw : I w) :
    ∃ r w', (submitContractTxWithRetry context maxAttempts delay buildAndSubmit).exec act w =
      (some r, w') ∧ Attempted Q I r w' := by
  unfold submitContractTxWithRetry
  generalize "" = lastErr
  suffices h : ∀ left w, I w → ∃ r w',
      (submitAttempts context maxAttempts delay buildAndSubmit left lastErr).exec act w =
        (some r, w') ∧ Attempted Q I r w' from h maxAttempts w hw
  intro left
  induction left generalizing lastErr with
  | zero => exact fun w hw => ⟨_, w, rfl, hw⟩
  | succ left ih =>
    intro w hw
    have hbody : ∀ w, I w → ∃ r w', (buildAndSubmit >>= fun x =>
        match x with
        | .ok result => pure (.ok result)
        | .error errStr =>
          if isRetryableSubmitErr errStr then
            submitAttempts context maxAttempts delay buildAndSubmit left errStr
          else pure (.error s!"{context}: non-retryable error: {errStr}")).exec act w =
        (some r, w') ∧ Attempted Q I r w' := by
      intro w hw
      obtain ⟨r, w', he, hr⟩ := hb w hw
      rw [Prog.exec_bind _ he]
      rcases r with e | a
      · dsimp only
        split_ifs
        · exact ih e w' hr
        · exact ⟨_, w', rfl, hr⟩
      · exact ⟨_, w', rfl, hr⟩
    unfold submitAttempts
    split_ifs
    · obtain ⟨r, w', he, hw'⟩ := hs delay w hw
      rw [sleep, Prog.exec_perform _ he]
      exact hbody w' hw'
    · exact hbody w hw

/-- A submission loop whose attempts all leave the local state as it is. -/
theorem follows_submitContractTxWithRetry {context : String} {maxAttempts delay : ℕ}
    {buildAndSubmit : Relay (Except CardanoError α)} (hs : ∀ n r, Move l (.sleep n) r l)
    (hb : Follows Move (fun _ l' => l' = l) buildAndSubmit l) :
    Follows Move (fun _ l' => l' = l)
      (submitContractTxWithRetry context maxAttempts delay buildAndSubmit) l := by
  have hloop : Follows Move (Attempted (fun _ l' => l' = l) (· = l))
      (submitContractTxWithRetry context maxAttempts delay buildAndSubmit) l := by
    refine follows_submitContractTxWithRetry' ?_ ?_ rfl
    · rintro _ n r rfl
      exact ⟨_, hs n r, rfl⟩
    · rintro _ rfl
      refine hb.mono ?_
      rintro (e | a) l' hl <;> exact hl
  refine hloop.mono ?_
  rintro (e | a) l' hl <;> exact hl

/-- The query loop only queries and sleeps. -/
theorem follows_queryStateWithRetry {about : About} {maxAttempts delay : ℕ} {context : String}
    {findFn : ContractState → Option α} (hs : ∀ n r, Move l (.sleep n) r l)
    (hq : ∀ r, Move l (.operator about .queryState) r l) :
    Follows Move (fun _ l' => l' = l)
      (queryStateWithRetry about maxAttempts delay context findFn) l := by
  unfold queryStateWithRetry
  suffices h : ∀ left, Follows Move (fun _ l' => l' = l)
      (queryAttempts about maxAttempts delay context findFn left) l from h maxAttempts
  intro left
  induction left with
  | zero => exact rfl
  | succ left ih =>
    unfold queryAttempts
    refine follows_stay hq ?_
    rintro (e | state)
    · dsimp only
      split_ifs
      · exact follows_stay (hs _) fun _ => ih
      · exact rfl
    · dsimp only
      rcases findFn state with _ | item
      · dsimp only
        split_ifs
        · exact follows_stay (hs _) fun _ => ih
        · exact ih
      · exact rfl

/-- The query loop, run alone, returns and keeps what queries and sleeps keep; an entry that it
returns was shown by an answer. -/
theorem exec_queryStateWithRetry_keep {World : Type}
    {act : (o : Op) → World → Option (o.Resp × World)} {about : About} {maxAttempts delay : ℕ}
    {context : String} {findFn : ContractState → Option α} {I : World → Prop}
    (hs : ∀ n w, I w → ∃ r w', act (.sleep n) w = some (r, w') ∧ I w')
    (hq : ∀ w, I w → ∃ r w', act (.operator about .queryState) w = some (r, w') ∧ I w')
    {w : World} (hw : I w) :
    ∃ r w', (queryStateWithRetry about maxAttempts delay context findFn).exec act w = (some r, w') ∧
      I w' ∧ ∀ x, r = .ok x → ∃ state, findFn state = some x := by
  unfold queryStateWithRetry
  suffices h : ∀ left w, I w → ∃ r w',
      (queryAttempts about maxAttempts delay context findFn left).exec act w = (some r, w') ∧
        I w' ∧ ∀ x, r = .ok x → ∃ state, findFn state = some x from h maxAttempts w hw
  intro left
  induction left with
  | zero => exact fun w hw => ⟨_, w, rfl, hw, nofun⟩
  | succ left ih =>
    intro w hw
    have hsleep : ∀ w, I w → ∃ r w', (sleep delay >>= fun _ =>
        queryAttempts about maxAttempts delay context findFn left).exec act w = (some r, w') ∧
          I w' ∧ ∀ x, r = .ok x → ∃ state, findFn state = some x := by
      intro w hw
      obtain ⟨r, w', he, hw'⟩ := hs delay w hw
      rw [sleep, Prog.exec_perform _ he]
      exact ih w' hw'
    obtain ⟨r, w', he, hw'⟩ := hq w hw
    unfold queryAttempts
    rw [operator, Prog.exec_perform _ he]
    rcases r with e | state
    · dsimp only
      split_ifs
      · exact hsleep w' hw'
      · exact ⟨_, w', rfl, hw', nofun⟩
    · dsimp only
      rcases hfind : findFn state with _ | item
      · dsimp only
        split_ifs
        · exact hsleep w' hw'
        · exact ih w' hw'
      · refine ⟨_, w', rfl, hw', fun x hx => ⟨state, ?_⟩⟩
        rw [hfind, Except.ok.inj hx]

variable {P : Op → Prop}

theorem only_queryStateWithRetry {about : About} {maxAttempts delay : ℕ} {context : String}
    {findFn : ContractState → Option α} (hs : ∀ n, P (.sleep n))
    (hq : P (.operator about .queryState)) :
    (queryStateWithRetry about maxAttempts delay context findFn).Only P :=
  (follows_queryStateWithRetry (fun n _ => hs n) fun _ => hq).mono fun _ _ _ => trivial

theorem only_submitContractTxWithRetry {context : String} {maxAttempts delay : ℕ}
    {buildAndSubmit : Relay (Except CardanoError α)} (hs : ∀ n, P (.sleep n))
    (hb : buildAndSubmit.Only P) :
    (submitContractTxWithRetry context maxAttempts delay buildAndSubmit).Only P :=
  (follows_submitContractTxWithRetry (fun n _ => hs n) (hb.mono fun _ _ _ => rfl)).mono
    fun _ _ _ => trivial

theorem only_thenSubmit {about : About} {kind : TxKind} (r : Except CardanoError String)
    (h : ∀ hex, P (.operator about (.submitTx ⟨kind, hex⟩))) : (thenSubmit about kind r).Only P := by
  rcases r with e | hex
  · trivial
  · exact only_last (h hex)

end

/-- The entry of an invoice in an on-chain state. -/
def findInvoice (invoiceId : ℤ) (state : ContractState) : Option Invoice :=
  state.invoices.find? fun i => i.invoiceId = invoiceId

/-- The entry of an offramp in an on-chain state. -/
def findOfframp (offrampId : ℤ) (state : ContractState) : Option Offramp :=
  state.offramps.find? fun o => o.offrampId = offrampId

end LightningRelay
