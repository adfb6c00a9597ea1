import LightningRelay.Helpers
import Mathlib.Order.Bounds.Basic

/-!
# The submission loop

`submit_contract_tx_with_retry` against a closure whose outcomes are an arbitrary infinite sequence.
The closure is any program; `Scripted` says that its invocations, counted by `calls`, have these
outcomes one after the other, and that sleeping is not one of them.

* `submit_first_decisive`: the loop stops at the first outcome that is a success or an error that is not
  retried, or when its attempts are used up, and returns what that outcome says.
-/

set_option autoImplicit false

namespace LightningRelay

open Async

variable {α World : Type}

/-- Outcomes after which the loop does not try again. -/
def decisive : Except CardanoError α → Bool
  | .ok _ => true
  | .error e => !isRetryableSubmitErr e

/-- The error of the loop, from the error of its last attempt. -/
def submitError (context : String) (maxAttempts : ℕ) (e : CardanoError) : String :=
  if isRetryableSubmitErr e then s!"{context}: failed after {maxAttempts} attempts: {e}"
  else s!"{context}: non-retryable error: {e}"

/-- The invocations of a closure, counted by `calls`, have the given outcomes. -/
structure Scripted (act : (o : Op) → World → Option (o.Resp × World)) (calls : World → ℕ)
    (buildAndSubmit : Relay (Except CardanoError α)) (outcomes : ℕ → Except CardanoError α) :
    Prop where
  invoke : ∀ w, ∃ w', buildAndSubmit.exec act w = (some (outcomes (calls w)), w') ∧
    calls w' = calls w + 1
  sleep : ∀ n w, ∃ r w', act (.sleep n) w = some (r, w') ∧ calls w' = calls w

/-- After `k` invocations the loop has returned `r`. -/
structure FirstDecisive (context : String) (maxAttempts : ℕ) (outcomes : ℕ → Except CardanoError α)
    (k : ℕ) (r : Except String α) : Prop where
  /-- `k` is the least of the number of attempts and the positions of the decisive outcomes. -/
  least : IsLeast ({maxAttempts} ∪ {n | 0 < n ∧ decisive (outcomes (n - 1)) = true}) k
  ok : ∀ v, r = .ok v ↔ 0 < k ∧ outcomes (k - 1) = .ok v ∧
    ∀ i < k - 1, ∃ e, outcomes i = .error e ∧ isRetryableSubmitErr e = true
  error : ∀ e, 0 < k → outcomes (k - 1) = .error e → r = .error (submitError context maxAttempts e)
  none : maxAttempts = 0 → k = 0 ∧ r = .error s!"{context}: failed after 0 attempts: "

namespace Retry

variable {act : (o : Op) → World → Option (o.Resp × World)} {calls : World → ℕ}
  {buildAndSubmit : Relay (Except CardanoError α)} {outcomes : ℕ → Except CardanoError α}
  {context lastErr : String} {maxAttempts k : ℕ}

/-- The first `k` outcomes are errors that are retried. -/
def Lagging (outcomes : ℕ → Except CardanoError α) (k : ℕ) : Prop :=
  ∀ i < k, ∃ e, outcomes i = .error e ∧ isRetryableSubmitErr e = true

theorem Lagging.succ {e : CardanoError} (h : Lagging outcomes k) (he : outcomes k = .error e)
    (hretry : isRetryableSubmitErr e = true) : Lagging outcomes (k + 1) := by
  intro i hi
  by_cases hik : i = k
  · rw [hik]
    exact ⟨e, he, hretry⟩
  · exact h i (by omega)

theorem Lagging.not_decisive (h : Lagging outcomes k) {i : ℕ} (hi : i < k) :
    decisive (outcomes i) = false := by
  obtain ⟨e, he, hretry⟩ := h i hi
  simp [decisive, he, hretry]

/-- An outcome that ends the loop. -/
theorem least_of_decisive (hlag : Lagging outcomes k) (hlt : k < maxAttempts)
    (hdec : decisive (outcomes k) = true) :
    IsLeast ({maxAttempts} ∪ {n | 0 < n ∧ decisive (outcomes (n - 1)) = true}) (k + 1) := by
  refine ⟨Or.inr ⟨Nat.succ_pos k, hdec⟩, ?_⟩
  rintro n (hn | ⟨hpos, hn⟩)
  · obtain rfl : n = maxAttempts := hn
    exact hlt
  · by_contra hle
    rw [hlag.not_decisive (by omega)] at hn
    cases hn

/-- No attempts are left. -/
theorem firstDecisive_exhausted (hlag : Lagging outcomes maxAttempts)
    (hlast : 0 < maxAttempts → outcomes (maxAttempts - 1) = .error lastErr)
    (hfirst : maxAttempts = 0 → lastErr = "") :
    FirstDecisive context maxAttempts outcomes maxAttempts
      (.error s!"{context}: failed after {maxAttempts} attempts: {lastErr}") where
  least := by
    refine ⟨Or.inl rfl, ?_⟩
    rintro n (hn | ⟨hpos, hn⟩)
    · obtain rfl : n = maxAttempts := hn
      exact Nat.le_refl _
    · by_contra hle
      rw [hlag.not_decisive (by omega)] at hn
      cases hn
  ok v := by
    refine ⟨nofun, fun ⟨hpos, hv, _⟩ => ?_⟩
    rw [hlast hpos] at hv
    cases hv
  error e hpos he := by
    rw [hlast hpos] at he
    obtain rfl := Except.error.inj he
    obtain ⟨e, he, hretry⟩ := hlag (maxAttempts - 1) (by omega)
    rw [hlast hpos] at he
    obtain rfl := Except.error.inj he
    rw [submitError, if_pos hretry]
  none h := by
    rw [hfirst h, h]
    refine ⟨rfl, congrArg Except.error ?_⟩
    have htext : ": failed after " ++ (toString 0 ++ (" attempts: " ++ "")) =
        ": failed after 0 attempts: " := by decide
    simp only [toString, String.append_assoc] at htext ⊢
    rw [htext]

/-- An attempt succeeds. -/
theorem firstDecisive_ok {v : α} (hlag : Lagging outcomes k) (hlt : k < maxAttempts)
    (hv : outcomes k = .ok v) : FirstDecisive context maxAttempts outcomes (k + 1) (.ok v) where
  least := least_of_decisive hlag hlt (by rw [hv]; rfl)
  ok v' := by
    rw [Nat.add_sub_cancel, hv]
    constructor
    · intro h
      obtain rfl := Except.ok.inj h
      exact ⟨Nat.succ_pos k, rfl, hlag⟩
    · exact fun h => h.2.1
  error e _ he := by
    rw [Nat.add_sub_cancel, hv] at he
    cases he
  none h := by omega

/-- An attempt fails with an error that is not retried. -/
theorem firstDecisive_error {e : CardanoError} (hlag : Lagging outcomes k) (hlt : k < maxAttempts)
    (he : outcomes k = .error e) (hretry : ¬ isRetryableSubmitErr e = true) :
    FirstDecisive context maxAttempts outcomes (k + 1)
      (.error s!"{context}: non-retryable error: {e}") where
  least := least_of_decisive hlag hlt (by simp [decisive, he, hretry])
  ok v := by
    rw [Nat.add_sub_cancel, he]
    exact ⟨nofun, fun h => nomatch h.2.1⟩
  error e' _ he' := by
    rw [Nat.add_sub_cancel, he] at he'
    obtain rfl := Except.error.inj he'
    rw [submitError, if_neg hretry]
  none h := by omega

/-- The loop with `left` attempts to go: all outcomes so far were retried, and `lastErr` is the last of
them. -/
theorem exec_submitAttempts (hS : Scripted act calls buildAndSubmit outcomes) (delay : ℕ) :
    ∀ (left : ℕ) (lastErr : String) (w : World), calls w + left = maxAttempts →
      Lagging outcomes (calls w) →
      (0 < calls w → outcomes (calls w - 1) = .error lastErr) → (calls w = 0 → lastErr = "") →
      ∃ r w', (submitAttempts context maxAttempts delay buildAndSubmit left lastErr).exec act w =
        (some r, w') ∧ FirstDecisive context maxAttempts outcomes (calls w') r := by
  intro left
  induction left with
  | zero =>
    intro lastErr w hleft hlag hlast hfirst
    obtain rfl : calls w = maxAttempts := hleft
    exact ⟨_, w, rfl, firstDecisive_exhausted hlag hlast hfirst⟩
  | succ left ih =>
    intro lastErr w hleft hlag hlast hfirst
    -- one invocation, after the sleep if there is one
    have hbody : ∀ w, calls w + (left + 1) = maxAttempts → Lagging outcomes (calls w) →
        ∃ r w', (buildAndSubmit >>= fun x =>
          match x with
          | .ok result => pure (.ok result)
          | .error errStr =>
            if isRetryableSubmitErr errStr then
              submitAttempts context maxAttempts delay buildAndSubmit left errStr
            else pure (.error s!"{context}: non-retryable error: {errStr}")).exec act w =
          (some r, w') ∧ FirstDecisive context maxAttempts outcomes (calls w') r := by
      intro w hleft hlag
      obtain ⟨w', hexec, hcalls⟩ := hS.invoke w
      rw [Prog.exec_bind _ hexec]
      rcases hout : outcomes (calls w) with e | v
      · dsimp only
        split_ifs with hretry
        · refine ih e w' (by omega) ?_ (fun _ => ?_) fun h => by omega
          · rw [hcalls]
            exact hlag.succ hout hretry
          · rw [hcalls, Nat.add_sub_cancel, hout]
        · refine ⟨_, w', rfl, ?_⟩
          rw [hcalls]
          exact firstDecisive_error hlag (by omega) hout hretry
      · refine ⟨_, w', rfl, ?_⟩
        rw [hcalls]
        exact firstDecisive_ok hlag (by omega) hout
    unfold submitAttempts
    split_ifs
    · obtain ⟨r, w', hsleep, hcalls⟩ := hS.sleep delay w
      rw [sleep, Prog.exec_perform _ hsleep]
      exact hbody w' (by omega) (by rw [hcalls]; exact hlag)
    · exact hbody w hleft hlag

/-- For every closure and every infinite sequence of outcomes, the loop invokes the closure up to the
first decisive outcome or until the attempts are used up, and returns what the last outcome says. -/
theorem submit_first_decisive (hS : Scripted act calls buildAndSubmit outcomes) (context : String)
    (maxAttempts delay : ℕ) (w : World) (hw : calls w = 0) :
    ∃ r w', (submitContractTxWithRetry context maxAttempts delay buildAndSubmit).exec act w =
      (some r, w') ∧ FirstDecisive context maxAttempts outcomes (calls w') r := by
  refine exec_submitAttempts hS delay maxAttempts "" w (by omega) ?_ (fun h => by omega) fun _ => rfl
  intro i hi
  omega

/-- A closure that submits a transaction, in a world that counts the submissions. -/
def counting (outcomes : ℕ → Except CardanoError String) :
    (o : Op) → ℕ → Option (o.Resp × ℕ)
  | .operator _ (.submitTx _), n => some (outcomes n, n + 1)
  | .sleep _, n => some ((), n)
  | _, _ => none

/-- Two lags of the indexer, then a success. -/
theorem submit_first_decisive_third :
    ∃ r w', (submitContractTxWithRetry "CreateInvoice" 3 15
        (operator .pool (.submitTx ⟨.createInvoice, "tx"⟩))).exec
        (counting fun n => if n < 2 then .error "BadInputs" else .ok "hash") 0 = (some r, w') ∧
      FirstDecisive "CreateInvoice" 3
        (fun n => if n < 2 then .error "BadInputs" else .ok "hash") w' r := by
  have hS : Scripted (counting fun n => if n < 2 then .error "BadInputs" else .ok "hash") id
      (operator .pool (.submitTx ⟨.createInvoice, "tx"⟩))
      (fun n => if n < 2 then .error "BadInputs" else .ok "hash") :=
    ⟨fun n => ⟨n + 1, rfl, rfl⟩, fun _ n => ⟨(), n, rfl, rfl⟩⟩
  exact submit_first_decisive hS "CreateInvoice" 3 15 0 rfl

end Retry

end LightningRelay
