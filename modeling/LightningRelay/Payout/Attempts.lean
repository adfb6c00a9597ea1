import LightningRelay.Payout.Custody

/-!
# The Lightning payments of the offramps

What holds of the payments that LDK has accepted, over all runs: a deposit makes at most one for its
offramp, under the payment hash of its row, and a PaymentFailed event was preceded by a payment that
failed.  Rows are as their requests made them in the columns that matter for paying and refunding.
-/

set_option autoImplicit false

namespace LightningRelay

open Async

namespace Payout

/-- The call is a deposit for offramp `k`. -/
def depositFor (k : ℤ) : Call → Bool
  | .handleOfframpDeposit _ req => req.offrampId = k
  | _ => false

/-- Every payment that a deposit made for the offramp has failed. -/
def paymentsFailed (w : World) (id : ℤ) : Bool :=
  w.attempts.all fun a => !depositFor id a.payer || a.outcome = some .failed

theorem failed_of_paymentsFailed {w : World} {id : ℤ} (h : paymentsFailed w id = true) {a : Attempt}
    (ha : a ∈ w.attempts) (hpay : depositFor id a.payer = true) : a.outcome = some .failed := by
  simpa [hpay] using List.all_eq_true.1 h a ha

/-- The invoice of a row can be paid, and there is an address to refund to. -/
structure Payable (cfg : Config) (r : OfframpMapping) : Prop where
  invoice : ∃ invoice requiredMsat, invoiceOf cfg r = some (invoice, requiredMsat) ∧
    invoice.paymentHash = r.paymentHash ∧ fits invoice requiredMsat = true
  refundAddress : r.refundAddress ≠ ""

theorem invoiceOf_congr {cfg : Config} {r r' : OfframpMapping} (h : Same r r') :
    invoiceOf cfg r = invoiceOf cfg r' := by
  simp only [invoiceOf, h.bolt11, h.amountCbtc]

theorem Payable.congr {cfg : Config} {r r' : OfframpMapping} (h : Payable cfg r) (hs : Same r' r) :
    Payable cfg r' := by
  obtain ⟨⟨invoice, amt, hinv, hhash, hfit⟩, haddr⟩ := h
  exact ⟨⟨invoice, amt, (invoiceOf_congr hs).trans hinv, hhash.trans hs.paymentHash.symm, hfit⟩,
    hs.refundAddress ▸ haddr⟩

/-- What holds of rows and payments. -/
structure Accounts (cfg : Config) (w : World) : Prop where
  payable : ∀ k r, w.offramp k = some r → Payable cfg r
  deposits : ∀ (j : ℕ) a k, w.attempts[j]? = some a → depositFor k a.payer = true →
    ∃ r, w.offramp k = some r ∧ r.cbtcTxHash ≠ "" ∧ a.paymentHash = r.paymentHash
  single : ∀ (j j' : ℕ) a a' k, w.attempts[j]? = some a → w.attempts[j']? = some a' →
    depositFor k a.payer = true → depositFor k a'.payer = true → j = j'
  failed : ∀ id h, LdkEvent.paymentFailed id (some h) ∈ w.delivered →
    ∃ (j : ℕ) (a : Attempt), w.attempts[j]? = some a ∧ a.paymentHash = h ∧
      a.outcome = some .failed

/-- A deposit that is about to hand its payment to LDK. -/
def hands : Call → Stage → Option ℤ
  | .handleOfframpDeposit _ req, .paying _ | .handleOfframpDeposit _ req, .sending _ =>
    some req.offrampId
  | _, _ => none

/-- No payment was made for the offramp of a deposit that is about to make it. -/
def Unpaid (w : World) (_ : ℕ) (c : Call) (l : Stage) : Prop :=
  ∀ k, hands c l = some k → ∀ (j : ℕ) a, w.attempts[j]? = some a → depositFor k a.payer = false

/-! ## How the payments change -/

theorem getElem?_append_singleton {α : Type} {xs : List α} {x a : α} {j : ℕ}
    (h : (xs ++ [x])[j]? = some a) : xs[j]? = some a ∨ j = xs.length ∧ a = x := by
  rcases Nat.lt_trichotomy j xs.length with hj | hj | hj
  · rw [List.getElem?_append_left hj] at h
    exact Or.inl h
  · subst hj
    rw [List.getElem?_concat_length] at h
    exact Or.inr ⟨rfl, (Option.some.inj h).symm⟩
  · rw [List.getElem?_eq_none (by simp; omega)] at h
    cases h

section

variable {cfg : Config} {tid : ℕ} {c : Call} {l l' : Stage} {o : Op} {r : o.Resp} {w w' : World}
  {sp : Option Call} {k : ℤ}

/-- A payment ends, and nothing else about the payments changes. -/
theorem settle_getElem? {i j : ℕ} {outcome : PayOutcome} {a' : Attempt}
    (h : (w.settle i outcome).attempts[j]? = some a') :
    ∃ a, w.attempts[j]? = some a ∧ a'.paymentHash = a.paymentHash ∧ a'.payer = a.payer ∧
      (a' = a ∨ j = i) := by
  simp only [World.settle, List.getElem?_modify] at h
  obtain ⟨a, ha, rfl⟩ := Option.map_eq_some_iff.1 h
  refine ⟨a, ha, ?_⟩
  split_ifs with hij
  · exact ⟨rfl, rfl, Or.inr hij.symm⟩
  · exact ⟨rfl, rfl, Or.inl rfl⟩

/-- LDK gets a payment from a deposit that is sending, or from the CLI. -/
theorem attempts_move (he : Effect tid c o r w w' sp) (hm : Move cfg c l o r l') :
    w'.attempts = w.attempts ∨
      ∃ invoice amt, o = .ldk (.payForBolt11Invoice invoice amt) ∧
        w'.attempts = w.attempts ++ [⟨invoice.paymentHash, c, none⟩] ∧
        ((∃ i a, c = .sendpayment i a) ∨ ∃ ip id tx m a, c = .handleOfframpDeposit ip ⟨id, tx⟩ ∧
          l = .sending m ∧ l' = .idle ∧ invoiceOf cfg m = some (invoice, a)) := by
  have hat := he.attempts
  cases hm with
  | quiet hq =>
    cases o with
    | ldk q =>
      cases q with
      | payForBolt11Invoice => cases hq
      | _ => exact Or.inl hat
    | _ => exact Or.inl hat
  | @pay _ _ _ _ _ _ r hinv =>
    rcases r with e | u
    · exact Or.inl hat
    · exact Or.inr ⟨_, _, rfl, hat, Or.inr ⟨_, _, _, _, _, rfl, rfl, rfl, hinv⟩⟩
  | @payCli _ _ _ _ _ r =>
    rcases r with e | u
    · exact Or.inl hat
    · exact Or.inr ⟨_, _, rfl, hat, Or.inl ⟨_, _, rfl⟩⟩
  | _ => exact Or.inl hat

/-- A payment that LDK knows after a move was known before, or the move made it. -/
theorem attempt_origin (he : Effect tid c o r w w' sp) (hm : Move cfg c l o r l') {j : ℕ}
    {a : Attempt} (h : w'.attempts[j]? = some a) :
    w.attempts[j]? = some a ∨ j = w.attempts.length ∧ a.payer = c ∧ a.outcome = none ∧
      ∃ invoice amt, o = .ldk (.payForBolt11Invoice invoice amt) ∧
        a.paymentHash = invoice.paymentHash ∧ ((∃ i a, c = .sendpayment i a) ∨
          ∃ ip id tx m a, c = .handleOfframpDeposit ip ⟨id, tx⟩ ∧ l = .sending m ∧ l' = .idle ∧
            invoiceOf cfg m = some (invoice, a)) := by
  rcases attempts_move he hm with hat | ⟨invoice, amt, ho, hat, hc⟩
  · exact Or.inl (hat ▸ h)
  · rw [hat] at h
    rcases getElem?_append_singleton h with h | ⟨hj, rfl⟩
    · exact Or.inl h
    · exact Or.inr ⟨hj, rfl, rfl, invoice, amt, ho, rfl, hc⟩

theorem attempt_mono (he : Effect tid c o r w w' sp) (hm : Move cfg c l o r l') {j : ℕ}
    {a : Attempt} (h : w.attempts[j]? = some a) : w'.attempts[j]? = some a := by
  rcases attempts_move he hm with hat | ⟨invoice, amt, ho, hat, hc⟩
  · exact hat ▸ h
  · rw [hat, List.getElem?_append_left (List.getElem?_eq_some_iff.1 h).1, h]

/-! ## One move -/

theorem holds_of_hands (h : hands c l = some k) : holds c l = some k := by
  cases c with
  | handleOfframpDeposit ip req =>
    cases l with
    | paying | sending => exact h
    | _ => cases h
  | _ => cases h

/-- The invoice of a row that was read can be paid. -/
theorem invoiceOf_of_matches {m : OfframpMapping} (hA : Accounts cfg w) (h : w.Matches k m) :
    ∃ invoice amt, invoiceOf cfg m = some (invoice, amt) ∧ invoice.paymentHash = m.paymentHash ∧
      fits invoice amt = true := by
  obtain ⟨x, hx, hs⟩ := h
  obtain ⟨invoice, amt, hinv, hhash, hfit⟩ := (hA.payable k x hx).invoice
  exact ⟨invoice, amt, (invoiceOf_congr hs).symm.trans hinv, hhash.trans hs.paymentHash, hfit⟩

/-- A deposit for `k` that is sending pays under the payment hash of its row. -/
theorem paymentHash_of_sending {ip tx : String} {m : OfframpMapping} {invoice : Bolt11Invoice}
    {amt : ℕ} (hK : Knows w tid (.handleOfframpDeposit ip ⟨k, tx⟩) (.sending m))
    (hA : Accounts cfg w) (hinv : invoiceOf cfg m = some (invoice, amt)) :
    ∃ x, w.offramp k = some x ∧ x.cbtcTxHash = tx ∧ tx ≠ "" ∧
      invoice.paymentHash = x.paymentHash := by
  obtain ⟨hmatch, x, hx, htx, hne⟩ := hK.deposit _ _ _ rfl
  obtain ⟨invoice', amt', hinv', hhash, -⟩ := invoiceOf_of_matches hA hmatch
  rw [hinv] at hinv'
  obtain ⟨rfl, -⟩ := Prod.mk.inj (Option.some.inj hinv')
  obtain ⟨y, hy, hs⟩ := hmatch
  rw [hx] at hy
  obtain rfl := Option.some.inj hy
  exact ⟨x, hx, htx, hne, hhash.trans hs.paymentHash.symm⟩

theorem payable_move (he : Effect tid c o r w w' sp) (hm : Move cfg c l o r l')
    (hA : Accounts cfg w) (y : OfframpMapping) (hy : w'.offramp k = some y) : Payable cfg y := by
  rcases offramp_origin he hm hy with ⟨x, hx, hs⟩ | ⟨-, -, hreq⟩
  · exact (hA.payable k x hx).congr hs
  · exact ⟨hreq.invoice, hreq.refundAddress⟩

theorem deposits_move (he : Effect tid c o r w w' sp) (hm : Move cfg c l o r l')
    (hK : Knows w tid c l) (hL : Ledger w k) (hA : Accounts cfg w) (j : ℕ) (a : Attempt)
    (h : w'.attempts[j]? = some a) (hk : depositFor k a.payer = true) :
    ∃ y, w'.offramp k = some y ∧ y.cbtcTxHash ≠ "" ∧ a.paymentHash = y.paymentHash := by
  have hold : ∃ x, w.offramp k = some x ∧ x.cbtcTxHash ≠ "" ∧ a.paymentHash = x.paymentHash := by
    rcases attempt_origin he hm h with h | ⟨-, hpayer, -, invoice, amt, -, hhash, hc⟩
    · exact hA.deposits j a k h hk
    · rw [hpayer] at hk
      rcases hc with ⟨i, b, rfl⟩ | ⟨ip, id, tx, m, b, rfl, rfl, -, hinv⟩
      · cases hk
      · obtain rfl : id = k := by simpa [depositFor] using hk
        obtain ⟨x, hx, rfl, hne, hhash'⟩ := paymentHash_of_sending hK hA hinv
        exact ⟨x, hx, hne, hhash.trans hhash'⟩
  obtain ⟨x, hx, hne, hhash⟩ := hold
  obtain ⟨y, hy, hs⟩ := offramp_mono he hm hx
  obtain ⟨z, hz, hzx, -⟩ := stored_mono he hm hL ⟨x, hx, rfl, hne⟩
  rw [hy] at hz
  obtain rfl := Option.some.inj hz
  exact ⟨y, hy, hzx ▸ hne, hhash.trans hs.paymentHash.symm⟩

theorem single_move (he : Effect tid c o r w w' sp) (hm : Move cfg c l o r l')
    (hA : Accounts cfg w) (hU : Unpaid w tid c l) (j j' : ℕ) (a a' : Attempt)
    (h : w'.attempts[j]? = some a) (h' : w'.attempts[j']? = some a')
    (hk : depositFor k a.payer = true) (hk' : depositFor k a'.payer = true) : j = j' := by
  -- a payment that the move made is the first one for its offramp
  have hnew : ∀ {b b' : Attempt} {i : ℕ}, w.attempts[i]? = some b → depositFor k b.payer = true →
      b'.payer = c → depositFor k b'.payer = true →
      ((∃ i a, c = .sendpayment i a) ∨ ∃ ip id tx m, c = .handleOfframpDeposit ip ⟨id, tx⟩ ∧
        l = .sending m) → False := by
    rintro b b' i hb hkb hb' hkb' (⟨x, y, rfl⟩ | ⟨ip, id, tx, m, rfl, rfl⟩)
    · rw [hb'] at hkb'
      cases hkb'
    · rw [hb'] at hkb'
      obtain rfl : id = k := by simpa [depositFor] using hkb'
      exact Bool.false_ne_true ((hU id rfl i b hb).symm.trans hkb)
  rcases attempt_origin he hm h with h | ⟨hj, hp, -, _, _, -, -, hc⟩ <;>
    rcases attempt_origin he hm h' with h' | ⟨hj', hp', -, _, _, -, -, hc'⟩
  · exact hA.single j j' a a' k h h' hk hk'
  · exact (hnew h hk hp' hk' (hc'.imp_right fun ⟨ip, id, tx, m, _, e, e', _⟩ =>
      ⟨ip, id, tx, m, e, e'⟩)).elim
  · exact (hnew h' hk' hp hk (hc.imp_right fun ⟨ip, id, tx, m, _, e, e', _⟩ =>
      ⟨ip, id, tx, m, e, e'⟩)).elim
  · exact hj.trans hj'.symm

theorem accounts_move (he : Effect tid c o r w w' sp) (hm : Move cfg c l o r l')
    (hK : Knows w tid c l) (hL : ∀ k, Ledger w k) (hA : Accounts cfg w) (hU : Unpaid w tid c l) :
    Accounts cfg w' where
  payable k := payable_move he hm hA
  deposits j a k := deposits_move he hm hK (hL k) hA j a
  single j j' a a' k := single_move he hm hA hU j j' a a'
  failed id h hdel := by
    rw [he.delivered] at hdel
    obtain ⟨j, a, ha, hf⟩ := hA.failed id h hdel
    exact ⟨j, a, attempt_mono he hm ha, hf⟩

theorem hands_of_move (hm : Move cfg c l o r l') (h : hands c l' = some k) :
    hands c l = some k ∧ (∀ invoice amt, o = .ldk (.payForBolt11Invoice invoice amt) → False) ∨
      ∃ ip tx m, c = .handleOfframpDeposit ip ⟨k, tx⟩ ∧ l = .verified m ∧
        o = .db (.transitionOfframpWithCbtcTx k tx .pendingVerification .payingLightning) ∧
        HEq r true := by
  cases hm with
  | quiet hq =>
    refine Or.inl ⟨h, ?_⟩
    rintro invoice amt rfl
    cases hq
  | record =>
    obtain rfl := Option.some.inj h
    exact Or.inr ⟨_, _, _, rfl, rfl, rfl, HEq.rfl⟩
  | fail | spawn | request | enter | enterCli | cancelFailed => exact Or.inl ⟨h, nofun⟩
  | _ => cases h

/-- A deposit that has just stored its transaction has not paid yet. -/
theorem unpaid_of_pending (hA : Accounts cfg w) (hp : w.Pending k) (j : ℕ) (a : Attempt)
    (h : w.attempts[j]? = some a) : depositFor k a.payer = false := by
  by_contra hk
  rw [Bool.not_eq_false] at hk
  obtain ⟨x, hx, hne, -⟩ := hA.deposits j a k h hk
  obtain ⟨y, hy, hhash, -⟩ := hp
  rw [hx] at hy
  exact hne (Option.some.inj hy ▸ hhash)

theorem unpaid_move (he : Effect tid c o r w w' sp) (hm : Move cfg c l o r l')
    (hK : Knows w tid c l) (hA : Accounts cfg w) (hU : Unpaid w tid c l) : Unpaid w' tid c l' := by
  intro k hk j a ha
  rcases hands_of_move hm hk with ⟨hk₀, hop⟩ | ⟨ip, tx, m, rfl, rfl, rfl, -⟩
  · rcases attempt_origin he hm ha with ha | ⟨-, -, -, invoice, amt, ho, -⟩
    · exact hU k hk₀ j a ha
    · exact (hop invoice amt ho).elim
  · obtain ⟨-, -, hp, -⟩ := hK.deposit _ _ _ rfl
    rcases attempt_origin he hm ha with ha | ⟨-, -, -, invoice, amt, ho, -⟩
    · exact unpaid_of_pending hA hp j a ha
    · cases ho

theorem unpaid_mono {tid' : ℕ} {d : Call} {l₀ : Stage} (he : Effect tid c o r w w' sp)
    (hm : Move cfg c l o r l') (hne : Separate d l₀ c l) (h : Unpaid w tid' d l₀) :
    Unpaid w' tid' d l₀ := by
  intro k hk j a ha
  rcases attempt_origin he hm ha with ha | ⟨-, hp, -, invoice, amt, -, -, hc⟩
  · exact h k hk j a ha
  · rw [hp]
    rcases hc with ⟨i, b, rfl⟩ | ⟨ip, id, tx, m, b, rfl, rfl, -, -⟩
    · rfl
    · have hid : id ≠ k := fun e => hne.1 k (holds_of_hands hk) (congrArg some e)
      simpa [depositFor] using hid

end

/-! ## All runs -/

section

variable {cfg : Config} {tid : ℕ} {c : Call} {l : Stage} {w w' : World}

/-- Custody together with the payments. -/
def accounts (cfg : Config) : Discipline Op Op.Resp World Call Stage :=
  (custody cfg).extend (Accounts cfg) Unpaid fun _ _ _ _ => True

theorem unpaid_start (c : Call) : Unpaid w tid c (start c) := by
  intro k hk
  have h := holds_of_hands hk
  rw [holds_start] at h
  cases h

/-- The environment makes no payment; it only ends payments. -/
theorem reaction_attempts {e : Env} {ch : Change Call} (hr : Reaction w e w' ch) {j : ℕ}
    {a' : Attempt} (h : w'.attempts[j]? = some a') :
    ∃ a, w.attempts[j]? = some a ∧ a'.paymentHash = a.paymentHash ∧ a'.payer = a.payer := by
  cases hr with
  | settle =>
    obtain ⟨a, ha, hhash, hpayer, -⟩ := settle_getElem? h
    exact ⟨a, ha, hhash, hpayer⟩
  | _ => exact ⟨a', h, rfl, rfl⟩

/-- A payment that has ended stays as it is. -/
theorem reaction_ended {e : Env} {ch : Change Call} (hr : Reaction w e w' ch) {j : ℕ}
    {a : Attempt} (h : w.attempts[j]? = some a) (ho : a.outcome ≠ none) :
    w'.attempts[j]? = some a := by
  cases hr with
  | @settle i b outcome hb hnone =>
    have hij : i ≠ j := by
      rintro rfl
      rw [h] at hb
      exact ho (Option.some.inj hb ▸ hnone)
    simp only [World.settle, List.getElem?_modify, if_neg hij, h]
    rfl
  | _ => exact h

theorem delivered_failed {e : Env} {ch : Change Call} (hr : Reaction w e w' ch) {id h : String}
    (hd : LdkEvent.paymentFailed id (some h) ∈ w'.delivered) :
    LdkEvent.paymentFailed id (some h) ∈ w.delivered ∨
      ∃ (j : ℕ) (a : Attempt), w.attempts[j]? = some a ∧ a.paymentHash = h ∧
        a.outcome = some .failed := by
  cases hr with
  | deliver hcan =>
    rcases List.mem_cons.1 hd with rfl | hd
    · simp only [World.canDeliver, Bool.and_eq_true, List.any_eq_true, decide_eq_true_eq] at hcan
      obtain ⟨-, a, hmem, hhash, hout⟩ := hcan
      obtain ⟨j, hj⟩ := List.mem_iff_getElem?.1 hmem
      exact Or.inr ⟨j, a, hj, hhash, hout⟩
    · exact Or.inl hd
  | _ => exact Or.inl hd

theorem accounts_react {e : Env} {ch : Change Call} (hA : Accounts cfg w)
    (hr : Reaction w e w' ch) : Accounts cfg w' where
  payable k r hrow := hA.payable k r (hr.calm.offramp k ▸ hrow)
  deposits j a' k h hk := by
    obtain ⟨a, ha, hhash, hpayer⟩ := reaction_attempts hr h
    rw [hr.calm.offramp k, hhash]
    exact hA.deposits j a k ha (hpayer ▸ hk)
  single j j' a a' k h h' hk hk' := by
    obtain ⟨b, hb, -, hpayer⟩ := reaction_attempts hr h
    obtain ⟨b', hb', -, hpayer'⟩ := reaction_attempts hr h'
    exact hA.single j j' b b' k hb hb' (hpayer ▸ hk) (hpayer' ▸ hk')
  failed id h hd := by
    have hold : ∃ (j : ℕ) (a : Attempt), w.attempts[j]? = some a ∧ a.paymentHash = h ∧
        a.outcome = some .failed := (delivered_failed hr hd).elim (hA.failed id h) fun h => h
    obtain ⟨j, a, ha, hhash, hout⟩ := hold
    exact ⟨j, a, reaction_ended hr ha (by simp [hout]), hhash, hout⟩

theorem unpaid_react {e : Env} {ch : Change Call} (hr : Reaction w e w' ch)
    (h : Unpaid w tid c l) : Unpaid w' tid c l := by
  intro k hk j a' ha'
  obtain ⟨a, ha, -, hpayer⟩ := reaction_attempts hr ha'
  rw [hpayer]
  exact h k hk j a ha

theorem accounts_fresh (cfg : Config) (now : ℤ) : Accounts cfg (World.fresh cfg now) where
  payable _ _ h := nomatch h
  deposits _ _ _ h := nomatch h
  single _ _ _ _ _ h := nomatch h
  failed _ _ h := nomatch h

theorem accounts_sound (cfg : Config) (now : ℤ) :
    (accounts cfg).Sound (relay cfg) (fun _ _ => True) (World.fresh cfg now) := by
  refine (custody_sound cfg now).extend (fun _ _ _ => trivial) ?_
  exact {
    symm := fun _ => trivial
    init := ⟨accounts_fresh cfg now, unpaid_start _⟩
    move := fun turn hp hm => by
      have he := effect_of_perform hp
      exact ⟨accounts_move he hm turn.owned.1 turn.shared.1 turn.shared.2 turn.owned.2,
        unpaid_move he hm turn.owned.1 turn.shared.2 turn.owned.2⟩
    others := fun _ hp hm _ _ _ howned hap =>
      ⟨unpaid_mono (effect_of_perform hp) hm hap.1.symm howned.2, trivial⟩
    spawned := fun _ _ _ => ⟨unpaid_start _, trivial, fun _ _ _ _ _ => trivial⟩
    abort := fun turn hp => by
      obtain rfl := abort_of_perform hp
      exact ⟨accounts_react turn.shared.2 .crash, unpaid_start _⟩
    react := fun next hr => accounts_react next.shared.2 (reaction_of_react hr)
    reactOthers := fun _ hr _ _ _ howned => unpaid_react (reaction_of_react hr) howned.2
    reactSpawn := fun _ _ => ⟨unpaid_start _, fun _ _ _ => trivial⟩
    reactRestart := fun _ _ => unpaid_start _ }

end

end Payout

end LightningRelay
