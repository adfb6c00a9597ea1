import LightningRelay.Creation
import LightningRelay.Devnet
import Mathlib.Data.List.Infix

/-!
# Transactions that are submitted again

`submit_contract_tx_with_retry` builds a fresh transaction after every error that it takes for a lag
of the indexer, and one of these errors says that the transaction is on the chain already.

`Trial` is what the outside makes of one attempt, and `attempts` reads those of a call off what the
outside is going to do.

* `devnet_created_twice`: such an error is true, the second attempt succeeds, and there are two LM
  invoices.
* `submitted_once_iff`: a call takes effect at most once, and then returns and stores the right id,
  unless one of its attempts takes effect behind an error, the errors up to a later attempt are all
  taken for lags, and that one takes effect too.
-/

set_option autoImplicit false

namespace LightningRelay

open Async

/-! ## Attempts -/

/-- What the outside makes of one attempt: it builds no transaction, or it answers the submission of
one, which may have been accepted even if the answer is an error. -/
inductive Trial where
  | unbuilt (e : CardanoError)
  | submitted (answer : Except CardanoError String) (landed : Bool)

namespace Trial

def error? : Trial → Option CardanoError
  | .unbuilt e | .submitted (.error e) _ => some e
  | .submitted (.ok _) _ => none

/-- The number of operations. -/
def operations : Trial → ℕ
  | .unbuilt _ => 1
  | .submitted _ _ => 2

/-- The texts by which an error is taken for a lag of the indexer. -/
def lagTexts : List String := ["BadInputs", "already been included", "ConwayMempoolFailure"]

/-- The attempt fails with an error after which another one is made. -/
def lagging (a : Trial) : Bool :=
  a.error?.any fun e => lagTexts.any fun text => text.toList <:+: e.toList

/-- The submission is accepted behind the error that the transaction has already been included. -/
def hidden : Trial → Bool
  | .submitted (.error e) landed => "already been included".toList <:+: e.toList && landed
  | _ => false

/-- The transaction of the attempt takes effect. -/
def effective : Trial → Bool
  | .submitted (.ok _) _ => true
  | a => a.hidden

end Trial

/-- Two of the attempts take effect: one behind an error, and one that is made since all errors before
it are taken for lags. -/
def Repeats (as : List Trial) : Prop :=
  ∃ before a between b after, as = before ++ a :: (between ++ b :: after) ∧
    (∀ x ∈ before ++ a :: between, x.lagging = true) ∧ a.hidden = true ∧ b.effective = true

/-- The transaction that a call builds in each of its attempts. -/
inductive Building where
  | createInvoice (amount : ℤ) (ownerPkh : String) (createdAt expiresAt : ℤ)
  | createOfframp (amount : ℤ) (paymentHash refundPkh : String) (expiresAt : ℤ)
  | withdraw (amount : ℤ)

namespace Building

/-- The transaction that the operator builds. -/
def answer (a : Answers) : Building → Except CardanoError SignedTx
  | .createInvoice amount ownerPkh createdAt expiresAt =>
    (a.operator .pool (.createInvoice amount ownerPkh createdAt expiresAt)).map fun x =>
      ⟨.createInvoice, x.2⟩
  | .createOfframp amount paymentHash refundPkh expiresAt =>
    (a.operator .pool (.createOfframp amount paymentHash refundPkh expiresAt)).map fun x =>
      ⟨.createOfframp, x.2⟩
  | .withdraw amount => (a.operator .pool (.withdraw amount)).map fun hex => ⟨.withdraw, hex⟩

/-- What the outside is going to make of an attempt. -/
def attempt (b : Building) (inputs : ℕ → Input) : Trial :=
  match b.answer (inputs 0).answers with
  | .error e => .unbuilt e
  | .ok tx => .submitted ((inputs 1).answers.operator .pool (.submitTx tx)) (inputs 1).landed

/-- What the outside is going to make of `n` attempts, with a sleep between them. -/
def attempts (b : Building) : ℕ → (ℕ → Input) → List Trial
  | 0, _ => []
  | n + 1, inputs =>
    b.attempt inputs :: b.attempts n fun i => inputs (i + 1 + (b.attempt inputs).operations)

end Building

/-- The attempts of `request_swap`, which reads the time first. -/
def swapAttempts (cfg : Config) (amountCbtc : ℤ) (cardanoAddress : String) (expiryMs : ℤ) (w : World)
    (inputs : ℕ → Input) : List Trial :=
  let expectedPrefix := if startsWith cfg.operatorAddress "addr_test" then "addr_test" else "addr"
  match validateAddress cfg cardanoAddress (some expectedPrefix) with
  | .error _ => []
  | .ok ownerPkh =>
    (Building.createInvoice amountCbtc ownerPkh w.clock (wrapI64 (w.clock + expiryMs))).attempts 3
      fun n => inputs (n + 1)

/-- The transaction of `request_offramp` at the time `now`, for a request that it does not refuse. -/
def offrampBuilding? (cfg : Config) (bolt11Str : String) (amountCbtc : ℤ) (cardanoAddress : String)
    (expiryMs : ℤ) (db : SwapDb) (now : ℤ) : Option Building :=
  match cfg.bolt11FromStr bolt11Str with
  | .error _ => none
  | .ok invoice =>
    if (db.call (.getOfframpByPaymentHash invoice.paymentHash)).1.isSome then none
    else if !networkOk (startsWith cfg.operatorAddress "addr_test") invoice.currency then none
    else
      (cbtcToMsat amountCbtc).bind fun requiredMsat =>
        if (mismatch? invoice requiredMsat).isSome then none
        else
          (addressToPkh cfg cardanoAddress).toOption.map fun refundPkh =>
            .createOfframp amountCbtc invoice.paymentHash refundPkh (wrapI64 (now + expiryMs))

/-- The attempts of `request_offramp`, which asks the database and reads the time first. -/
def offrampAttempts (cfg : Config) (bolt11Str : String) (amountCbtc : ℤ) (cardanoAddress : String)
    (expiryMs : ℤ) (w : World) (inputs : ℕ → Input) : List Trial :=
  match offrampBuilding? cfg bolt11Str amountCbtc cardanoAddress expiryMs w.db
    (w.clock + (inputs 0).elapsed) with
  | none => []
  | some b => b.attempts 3 fun n => inputs (n + 2)

/-- The attempts of `cardano_withdraw`. -/
def withdrawAttempts (amount : ℤ) (_ : World) (inputs : ℕ → Input) : List Trial :=
  (Building.withdraw amount).attempts 3 inputs

/-! ## How many attempts take effect -/

namespace Trial

variable {a : Trial} {as before : List Trial}

theorem contains_iff {s pat : String} : contains s pat = true ↔ pat.toList <:+: s.toList := by
  simp only [contains, List.any_eq_true, List.mem_tails, List.isPrefixOf_iff_prefix,
    List.infix_iff_prefix_suffix]
  exact exists_congr fun _ => and_comm

/-- The errors that are retried are those with one of the texts. -/
theorem isRetryableSubmitErr_eq (e : CardanoError) :
    isRetryableSubmitErr e = lagTexts.any fun text => text.toList <:+: e.toList := by
  rw [Bool.eq_iff_iff]
  simp only [isRetryableSubmitErr, lagTexts, Bool.or_eq_true, contains_iff, List.any_cons,
    List.any_nil, Bool.or_false, decide_eq_true_eq, or_assoc]

theorem effective_of_hidden (h : a.hidden = true) : a.effective = true := by
  unfold effective
  split
  · rfl
  · exact h

/-- An attempt that takes effect and is followed by another one took effect behind an error. -/
theorem hidden_of_effective (h : a.effective = true) (hlag : a.lagging = true) : a.hidden = true := by
  unfold effective at h
  split at h
  · cases hlag
  · exact h

/-- The number of attempts that take effect, up to the first one that is not followed by another. -/
def effects : List Trial → ℕ
  | [] => 0
  | a :: as => (if a.effective then 1 else 0) + if a.lagging then effects as else 0

theorem effects_le_append (h : ∀ x ∈ before, x.lagging = true) :
    effects as ≤ effects (before ++ as) := by
  induction before with
  | nil => exact Nat.le_refl _
  | cons x before ih =>
    obtain ⟨hx, hbefore⟩ := List.forall_mem_cons.1 h
    rw [List.cons_append, effects, if_pos hx]
    exact Nat.le_trans (ih hbefore) (Nat.le_add_left _ _)

theorem exists_effective (h : 0 < effects as) : ∃ between b after, as = between ++ b :: after ∧
    (∀ x ∈ between, x.lagging = true) ∧ b.effective = true := by
  induction as with
  | nil => cases h
  | cons a as ih =>
    by_cases ha : a.effective = true
    · exact ⟨[], a, as, rfl, fun _ hx => absurd hx List.not_mem_nil, ha⟩
    · rw [effects, if_neg ha, Nat.zero_add] at h
      split_ifs at h with hlag
      · obtain ⟨between, b, after, rfl, hbetween, hb⟩ := ih h
        exact ⟨a :: between, b, after, rfl, List.forall_mem_cons.2 ⟨hlag, hbetween⟩, hb⟩
      · cases h

theorem repeats_of_one_lt (h : 1 < effects as) : Repeats as := by
  induction as with
  | nil => cases h
  | cons a as ih =>
    rw [effects] at h
    have hlag : a.lagging = true := by
      by_contra hlag
      rw [if_neg hlag] at h
      split_ifs at h <;> omega
    rw [if_pos hlag] at h
    by_cases ha : a.effective = true
    · rw [if_pos ha] at h
      obtain ⟨between, b, after, rfl, hbetween, hb⟩ := exists_effective (by omega : 0 < effects as)
      exact ⟨[], a, between, b, after, rfl, List.forall_mem_cons.2 ⟨hlag, hbetween⟩,
        hidden_of_effective ha hlag, hb⟩
    · rw [if_neg ha, Nat.zero_add] at h
      obtain ⟨before, x, between, b, after, rfl, hbefore, hx, hb⟩ := ih h
      exact ⟨a :: before, x, between, b, after, rfl, List.forall_mem_cons.2 ⟨hlag, hbefore⟩, hx, hb⟩

theorem effects_le_one_iff : effects as ≤ 1 ↔ ¬ Repeats as := by
  constructor
  · rintro hle ⟨before, a, between, b, after, rfl, hlag, ha, hb⟩
    obtain ⟨hbefore, hrest⟩ := List.forall_mem_append.1 hlag
    obtain ⟨halag, hbetween⟩ := List.forall_mem_cons.1 hrest
    have h₁ : effects (a :: (between ++ b :: after)) ≤ _ := effects_le_append hbefore
    have h₂ : effects (b :: after) ≤ _ := effects_le_append hbetween
    rw [effects, if_pos (effective_of_hidden ha), if_pos halag] at h₁
    rw [effects, if_pos hb] at h₂
    omega
  · intro hrep
    by_contra hgt
    exact hrep (repeats_of_one_lt (Nat.lt_of_not_le hgt))

end Trial

/-! ## The submissions of the loop -/

namespace Visit

/-- The number of submissions that took effect. -/
def took (v : Visit) : ℕ := v.trace.countP Moment.effective

/-- After a sleep. -/
def slept (tid : ℕ) (c : Call) (v : Visit) (secs : ℕ) : Visit :=
  v.after (.sleep secs) () (v.world.note tid c (.sleep secs) ())

variable {tid : ℕ} {c : Call} {α β : Type} {v : Visit} {n : ℕ}

theorem effective_of_not_submits {m : Moment} (h : m.submits = false) : m.effective = false := by
  rw [Moment.effective, Creation.accepted_of_not_submits h, Creation.hidden_of_not_submits h,
    Bool.or_false]

theorem took_after {o : Op} {r : o.Resp} {w : World} : (v.after o r w).took =
    v.took + if (⟨v.world.clock, (v.inputs 0).landed, o, r⟩ : Moment).effective then 1 else 0 := by
  rw [took, after, List.countP_cons, took]

/-- An operation that submits nothing. -/
theorem took_after_of_not_enters {o : Op} {r : o.Resp} {w : World} (h : o.enters = false) :
    (v.after o r w).took = v.took := by
  rw [took_after, effective_of_not_submits (Creation.submits_of_not_enters h)]
  rfl

/-- The program ends, with `n` more submissions that took effect. -/
def Submits (tid : ℕ) (c : Call) (p : Relay α) (v : Visit) (n : ℕ) (Q : α → Visit → Prop) : Prop :=
  ∃ a v', p.exec (act tid c) v = (some a, v') ∧ v'.took = v.took + n ∧ Q a v'

theorem Submits.took_bind {p : Relay α} {f : α → Relay β} {Q : α → Visit → Prop}
    (h : Submits tid c p v n Q)
    (hf : ∀ a v', Q a v' → ((f a).exec (act tid c) v').2.took = v'.took) :
    ((p >>= f).exec (act tid c) v).2.took = v.took + n := by
  obtain ⟨a, v', he, hn, hQ⟩ := h
  rw [Prog.exec_bind f he, hf a v' hQ, hn]

theorem Submits.of_slept {f : Unit → Relay α} {Q : α → Visit → Prop} {secs : ℕ}
    (h : Submits tid c (f ()) (v.slept tid c secs) n Q) : Submits tid c (sleep secs >>= f) v n Q := by
  obtain ⟨a, v', he, hn, hQ⟩ := h
  exact ⟨a, v', he, hn.trans (congrArg (· + n) (took_after_of_not_enters rfl)), hQ⟩

/-- One run of the closure that is retried: it makes the attempt that the outside has ready. -/
def Tries (tid : ℕ) (c : Call) (b : Building) (body : Relay (Except CardanoError α)) : Prop :=
  ∀ v, Submits tid c body v (if (b.attempt v.inputs).effective then 1 else 0) fun r v' =>
    (∀ e, r = .error e ↔ (b.attempt v.inputs).error? = some e) ∧
      v'.inputs = fun i => v.inputs (i + (b.attempt v.inputs).operations)

section

variable {b : Building} {body : Relay (Except CardanoError α)} {context : String} {maxAttempts : ℕ}

/-- One attempt of the loop, and what comes after it. -/
theorem submits_attempt (hbody : Tries tid c b body)
    {next : Except CardanoError α → Relay (Except String α)} {rest : String → Relay (Except String α)}
    (hok : ∀ a, ∃ x, next (.ok a) = pure x)
    (hnext : ∀ e, isRetryableSubmitErr e = true → next (.error e) = rest e)
    (hstop : ∀ e, isRetryableSubmitErr e = false → ∃ x, next (.error e) = pure x)
    (hrest : ∀ e v', (v'.inputs = fun i => v.inputs (i + (b.attempt v.inputs).operations)) →
      Submits tid c (rest e) v' n fun _ _ => True) :
    Submits tid c (body >>= next) v
      ((if (b.attempt v.inputs).effective then 1 else 0) +
        if (b.attempt v.inputs).lagging then n else 0) fun _ _ => True := by
  obtain ⟨r, v', he, hn, herr, hin⟩ := hbody v
  have hlag : ∀ e, r = .error e → (b.attempt v.inputs).lagging = isRetryableSubmitErr e := by
    intro e hr
    rw [Trial.lagging, (herr e).1 hr, Trial.isRetryableSubmitErr_eq]
    rfl
  have hlast : (∃ x, next r = pure x) → (b.attempt v.inputs).lagging = false →
      Submits tid c (body >>= next) v ((if (b.attempt v.inputs).effective then 1 else 0) +
        if (b.attempt v.inputs).lagging then n else 0) fun _ _ => True := by
    rintro ⟨x, hx⟩ hlag
    refine ⟨x, v', by rw [Prog.exec_bind _ he, hx]; rfl, ?_, trivial⟩
    rw [hn, hlag]
    rfl
  rcases r with e | a
  · rcases hretry : isRetryableSubmitErr e with _ | _
    · exact hlast (hstop e hretry) ((hlag e rfl).trans hretry)
    · obtain ⟨x, v'', he', hn', -⟩ := hrest e v' hin
      refine ⟨x, v'', by rw [Prog.exec_bind _ he, hnext e hretry, he'], ?_, trivial⟩
      rw [hn', hn, if_pos ((hlag e rfl).trans hretry), Nat.add_assoc]
  · refine hlast (hok a) ?_
    rw [Trial.lagging]
    rcases hsome : (b.attempt v.inputs).error? with _ | e
    · rfl
    · cases (herr e).2 hsome

/-- The attempts after the first one: each begins with a sleep. -/
theorem submits_submitAttempts (hbody : Tries tid c b body) (delay : ℕ) :
    ∀ (left : ℕ) (lastErr : String) (v : Visit), left < maxAttempts →
      Submits tid c (submitAttempts context maxAttempts delay body left lastErr) v
        (Trial.effects (b.attempts left fun i => v.inputs (i + 1))) fun _ _ => True := by
  intro left
  induction left with
  | zero => exact fun lastErr v _ => ⟨_, v, rfl, rfl, trivial⟩
  | succ left ih =>
    intro lastErr v hlt
    unfold submitAttempts
    rw [if_pos hlt]
    refine Submits.of_slept (submits_attempt hbody (fun a => ⟨_, rfl⟩) (fun e he => if_pos he)
      (fun e he => ⟨_, if_neg (ne_true_of_eq_false he)⟩) fun e v' hin => ?_)
    have h := ih e v' (Nat.lt_of_succ_lt hlt)
    rw [hin] at h
    exact h

/-- The loop makes the attempts that the outside has ready. -/
theorem submits_submitContractTxWithRetry (hbody : Tries tid c b body) (delay : ℕ) :
    Submits tid c (submitContractTxWithRetry context maxAttempts delay body) v
      (Trial.effects (b.attempts maxAttempts v.inputs)) fun _ _ => True := by
  rcases maxAttempts with _ | left
  · exact ⟨_, v, rfl, rfl, trivial⟩
  unfold submitContractTxWithRetry submitAttempts
  rw [if_neg (Nat.lt_irrefl _)]
  refine submits_attempt hbody (fun a => ⟨_, rfl⟩) (fun e he => if_pos he)
    (fun e he => ⟨_, if_neg (ne_true_of_eq_false he)⟩) fun e v' hin => ?_
  have h : Submits tid c (submitAttempts context (left + 1) delay body left e) v' _ _ :=
    submits_submitAttempts hbody delay left e v' (Nat.lt_succ_self left)
  rw [hin] at h
  exact h

/-- A submission takes effect as the attempt does that it is part of. -/
theorem effective_submitTx {tx : SignedTx} (hkind : tx.kind.enters = true) {t : ℤ} {landed : Bool}
    (r : Except CardanoError String) :
    (⟨t, landed, .operator .pool (.submitTx tx), r⟩ : Moment).effective =
      (Trial.submitted r landed).effective := by
  rcases r with e | hash
  · have hcontains : contains e "already been included" =
        decide ("already been included".toList <:+: e.toList) := by
      rw [Bool.eq_iff_iff, Trial.contains_iff, decide_eq_true_iff]
    change (tx.kind.enters && contains e "already been included" && landed) = _
    rw [hkind, hcontains]
    rfl
  · change (tx.kind.enters || false) = true
    rw [hkind]
    rfl

/-- A closure that has a transaction built and submits it. -/
theorem tries_of_submit {call : OperatorCall} {tx : call.Val → SignedTx}
    {f : Except CardanoError call.Val → Relay (Except CardanoError α)}
    (hanswer : ∀ a : Answers, b.answer a = (a.operator .pool call).map tx)
    (hbuild : ∀ t landed r, (⟨t, landed, .operator .pool call, r⟩ : Moment).effective = false)
    (hkind : ∀ x, (tx x).kind.enters = true) (hfail : ∀ e, f (.error e) = pure (.error e))
    (hsubmit : ∀ x, ∃ g, f (.ok x) = operator .pool (.submitTx (tx x)) >>= g ∧
      (∀ e, g (.error e) = pure (.error e)) ∧ ∀ hash, ∃ y, g (.ok hash) = pure (.ok y)) :
    Tries tid c b (operator .pool call >>= f) := by
  intro v
  have hbuilt : (v.told tid c .pool call).took = v.took := by
    rw [told, took_after, hbuild]
    rfl
  rw [Submits, exec_operator]
  rcases hans : (v.inputs 0).answers.operator .pool call with e | x
  · have hattempt : b.attempt v.inputs = .unbuilt e := by
      rw [Building.attempt, hanswer, hans]
      rfl
    rw [hfail, hattempt]
    refine ⟨_, _, rfl, hbuilt, fun e' => ?_, rfl⟩
    rw [Except.error.injEq, Trial.error?, Option.some.injEq]
  · obtain ⟨g, hg, hgfail, hgok⟩ := hsubmit x
    rw [hg, exec_operator]
    have hattempt : b.attempt v.inputs = .submitted
        ((v.inputs 1).answers.operator .pool (.submitTx (tx x))) (v.inputs 1).landed := by
      rw [Building.attempt, hanswer, hans]
      rfl
    have hin : ((v.told tid c .pool call).told tid c .pool (.submitTx (tx x))).inputs =
      fun i => v.inputs (i + 2) := rfl
    have htook : ((v.told tid c .pool call).told tid c .pool (.submitTx (tx x))).took = v.took +
        if (b.attempt v.inputs).effective then 1 else 0 := by
      rw [told, took_after, hbuilt, hattempt]
      exact congrArg (fun x => v.took + if x = true then 1 else 0) (effective_submitTx (hkind x) _)
    rw [hattempt] at htook ⊢
    rw [show ((v.told tid c .pool call).inputs 0) = v.inputs 1 from rfl]
    rcases hr : (v.inputs 1).answers.operator .pool (.submitTx (tx x)) with e | hash <;>
      rw [hr] at htook
    · rw [hgfail]
      refine ⟨_, _, rfl, htook, fun e' => ?_, hin⟩
      rw [Except.error.injEq, Trial.error?, Option.some.injEq]
    · obtain ⟨y, hy⟩ := hgok hash
      rw [hy]
      exact ⟨_, _, rfl, htook, fun e' => iff_of_false nofun nofun, hin⟩

end

end Visit

/-! ## The calls -/

/-- The call took effect at most once, and what it has returned or stored is the id of the entry that
it created. -/
structure TookEffectOnce (returned : Option ℤ) (trace : List Moment) : Prop where
  once : (entered Moment.effective trace).length ≤ 1
  returned : ∀ id, returned = some id → entered Moment.effective trace = [some id]
  stored : ∀ m ∈ trace, ∀ id, m.records? = some id → entered Moment.effective trace = [some id]

section

variable {k : TxKind} {l : Creation.Stage} {trace : List Moment} {id : Option ℤ}

/-- If the call took effect once, then by the submission that was answered well. -/
theorem entered_effective_eq (h : Creation.Shape k l trace) (hl : l.entered = [id])
    (hone : (entered Moment.effective trace).length ≤ 1) :
    entered Moment.effective trace = [id] := by
  have hsub : entered Moment.accepted trace ⊆ entered Moment.effective trace :=
    entered_subset (fun m hm => Bool.or_eq_true_iff.2 (Or.inl hm)) trace
  have hmem : id ∈ entered Moment.effective trace := by
    refine hsub ?_
    rw [h.entered, hl]
    exact List.mem_singleton_self _
  obtain ⟨x, hx⟩ := List.length_eq_one_iff.1
    (Nat.le_antisymm hone (List.length_pos_of_mem hmem))
  rw [hx] at hmem ⊢
  rw [List.mem_singleton.1 hmem]

theorem tookEffectOnce_iff {returned : Option ℤ} (h : Creation.Shape k l trace)
    (hret : ∀ id, returned = some id → l.entered = [some id]) :
    TookEffectOnce returned trace ↔ trace.countP Moment.effective ≤ 1 := by
  rw [← length_entered]
  refine ⟨TookEffectOnce.once, fun hone => ⟨hone, fun id hid => ?_, fun m hm id hid => ?_⟩⟩
  · exact entered_effective_eq h (hret id hid) hone
  · exact entered_effective_eq h (h.recorded m hm id hid) hone

end

section

variable {α : Type}

/-- The call takes effect at most once exactly where its attempts do not repeat, whatever the outside
does; `returns` is the id in what the call returns. -/
def OnceUnlessRepeats (p : Relay α) (returns : α → Option ℤ)
    (attempts : World → (ℕ → Input) → List Trial) : Prop :=
  ∀ tid c w inputs,
    TookEffectOnce ((p.exec (Visit.act tid c) (.start w inputs)).1.bind returns)
      (p.exec (Visit.act tid c) (.start w inputs)).2.trace ↔
    ¬ Repeats (attempts w inputs)

/-- The id in the result of a request. -/
def returnedId : Except String (ℤ × String × String) → Option ℤ
  | .ok (id, _) => some id
  | .error _ => none

theorem onceUnlessRepeats_of_follows {k : TxKind} (hk : k.enters = true) {p : Relay α}
    {returns : α → Option ℤ} {attempts : World → (ℕ → Input) → List Trial}
    {Q : α → Creation.Stage → Prop} (hp : Follows (Creation.Move k) Q p .idle)
    (hQ : ∀ a l id, Q a l → returns a = some id → l.entered = [some id])
    (htook : ∀ tid c w inputs, (p.exec (Visit.act tid c) (.start w inputs)).2.took =
      Trial.effects (attempts w inputs)) :
    OnceUnlessRepeats p returns attempts := by
  intro tid c w inputs
  have hsteps : ∀ {p' v'}, Prog.Steps (Visit.act tid c) p (.start w inputs) p' v' →
      ∃ l, Follows (Creation.Move k) Q p' l ∧ Creation.Shape k l v'.trace := by
    intro p' v' hs
    refine Visit.stage_of_steps (S := fun l v => Creation.Shape k l v.trace) hs hp
      Creation.shape_start ?_
    intro l o r l' v v' hl hm hv
    rw [hv.trace]
    exact Creation.shape_move hk hm hl
  rw [← Trial.effects_le_one_iff, ← htook tid c w inputs]
  rcases hres : (p.exec (Visit.act tid c) (.start w inputs)).1 with _ | a
  · obtain ⟨p', hs⟩ := Prog.exists_steps_exec p (Visit.start w inputs)
    obtain ⟨l, -, hshape⟩ := hsteps hs
    exact tookEffectOnce_iff hshape nofun
  · obtain ⟨l, hend, hshape⟩ := hsteps (Prog.steps_of_exec hres)
    exact tookEffectOnce_iff hshape fun id hid => hQ a l id hend hid

end

section

variable {cfg : Config} {tid : ℕ} {c : Call} {w : World} {inputs : ℕ → Input}

theorem took_requestSwap (amountCbtc : ℤ) (cardanoAddress : String) (expiryMs : ℤ) :
    ((requestSwap cfg amountCbtc cardanoAddress expiryMs).exec (Visit.act tid c)
      (.start w inputs)).2.took =
      Trial.effects (swapAttempts cfg amountCbtc cardanoAddress expiryMs w inputs) := by
  unfold requestSwap swapAttempts
  dsimp only
  rcases validateAddress cfg cardanoAddress _ with e | ownerPkh
  · rfl
  dsimp only
  rw [Visit.exec_currentTimestampMs]
  refine ((Visit.submits_submitContractTxWithRetry (b := .createInvoice amountCbtc ownerPkh w.clock
    (wrapI64 (w.clock + expiryMs))) ?_ 15).took_bind ?_).trans ?_
  · refine Visit.tries_of_submit (fun _ => rfl) (fun _ _ _ => rfl) (fun _ => rfl) (fun _ => rfl)
      fun x => ⟨_, rfl, fun _ => rfl, fun hash => ⟨_, rfl⟩⟩
  · rintro (e | ⟨id, hash⟩) v' - <;> rfl
  · exact Nat.zero_add _

theorem took_requestOfframp (bolt11Str : String) (amountCbtc : ℤ) (cardanoAddress : String)
    (expiryMs : ℤ) :
    ((requestOfframp cfg bolt11Str amountCbtc cardanoAddress expiryMs).exec (Visit.act tid c)
      (.start w inputs)).2.took =
      Trial.effects (offrampAttempts cfg bolt11Str amountCbtc cardanoAddress expiryMs w inputs) := by
  unfold requestOfframp offrampAttempts offrampBuilding?
  rcases cfg.bolt11FromStr bolt11Str with e | invoice
  · rfl
  dsimp only
  rw [Visit.exec_db]
  have hasked : ((Visit.start w inputs).stored tid c
    (.getOfframpByPaymentHash invoice.paymentHash)).took = 0 := Visit.took_after_of_not_enters rfl
  rcases hex : ((Visit.start w inputs).world.db.call
    (.getOfframpByPaymentHash invoice.paymentHash)).1 with _ | existing <;>
    rw [show (Visit.start w inputs).world = w from rfl] at hex <;> rw [hex]
  swap
  · exact hasked
  dsimp only [Option.isSome_none]
  rw [if_neg Bool.false_ne_true]
  split_ifs with hnet
  · exact hasked
  rcases cbtcToMsat amountCbtc with _ | requiredMsat
  · exact hasked
  dsimp only [Option.bind_some]
  rcases mismatch? invoice requiredMsat with _ | invAmt
  swap
  · exact hasked
  dsimp only [Option.isSome_none]
  rw [if_neg Bool.false_ne_true]
  rcases addressToPkh cfg cardanoAddress with e | refundPkh
  · exact hasked
  dsimp only [Except.toOption, Option.map_some]
  rw [Visit.exec_currentTimestampMs]
  refine ((Visit.submits_submitContractTxWithRetry (b := .createOfframp amountCbtc
    invoice.paymentHash refundPkh (wrapI64 (w.clock + (inputs 0).elapsed + expiryMs))) ?_
      15).took_bind ?_).trans ?_
  · exact Visit.tries_of_submit (fun _ => rfl) (fun _ _ _ => rfl) (fun _ => rfl) (fun _ => rfl)
      fun x => ⟨_, rfl, fun _ => rfl, fun hash => ⟨_, rfl⟩⟩
  · rintro (e | ⟨id, hash⟩) v' -
    · rfl
    · rw [Visit.exec_db]
      split_ifs
      · exact Visit.took_after
      · exact Visit.took_after
  · exact (congrArg (· + _) ((Visit.took_after_of_not_enters rfl).trans hasked)).trans
      (Nat.zero_add _)

theorem took_cardanoWithdraw (amount : ℤ) :
    ((cardanoWithdraw amount).exec (Visit.act tid c) (.start w inputs)).2.took =
      Trial.effects (withdrawAttempts amount w inputs) := by
  refine ((Visit.submits_submitContractTxWithRetry (b := .withdraw amount) ?_ retryDelay).took_bind
    ?_).trans (Nat.zero_add _)
  · refine Visit.tries_of_submit (fun _ => rfl) (fun _ _ _ => rfl) (fun _ => rfl) (fun _ => rfl)
      fun x => ⟨pure, rfl, fun _ => rfl, fun hash => ⟨_, rfl⟩⟩
  · rintro (e | hash) v' - <;> rfl

end

/-- One call of `request_swap`, `request_offramp` or `cardano_withdraw` makes at most one transaction
take effect, and returns and stores its id, exactly if its attempts do not repeat: none that takes
effect behind an error is followed, over errors that are taken for lags, by one that takes effect. -/
theorem submitted_once_iff (cfg : Config) :
    (∀ amount address expiryMs, OnceUnlessRepeats (requestSwap cfg amount address expiryMs) returnedId
      (swapAttempts cfg amount address expiryMs)) ∧
    (∀ bolt11 amount address expiryMs,
      OnceUnlessRepeats (requestOfframp cfg bolt11 amount address expiryMs) returnedId
        (offrampAttempts cfg bolt11 amount address expiryMs)) ∧
    ∀ amount, OnceUnlessRepeats (cardanoWithdraw amount) (fun _ => none)
      (withdrawAttempts amount) := by
  have hmade : ∀ (a : Except String (ℤ × String × String)) (l : Creation.Stage) (id : ℤ),
      Attempted (Creation.Made fun x => some x.1) (· = .idle) a l → returnedId a = some id →
      l.entered = [some id] := by
    rintro (e | ⟨id', x⟩) l id hl hid
    · cases hid
    · obtain rfl := Option.some.inj hid
      obtain rfl : l = .created (some id') := hl
      rfl
  refine ⟨fun _ _ _ => ?_, fun _ _ _ _ => ?_, fun _ => ?_⟩
  · exact onceUnlessRepeats_of_follows rfl (Creation.follows_requestSwap _ _ _) hmade
      fun _ _ _ _ => took_requestSwap _ _ _
  · exact onceUnlessRepeats_of_follows rfl (Creation.follows_requestOfframp _ _ _ _) hmade
      fun _ _ _ _ => took_requestOfframp _ _ _ _
  · exact onceUnlessRepeats_of_follows rfl (Creation.follows_cardanoWithdraw _) nofun
      fun _ _ _ _ => took_cardanoWithdraw _

/-- The first attempt builds LM invoice #1, and its submission is accepted and answered with the
error that the transaction has already been included; the second one builds LM invoice #2. -/
def laggingInputs (n : ℕ) : Input :=
  if n < 3 then
    { answers :=
        { operator := fun about c =>
            match c with
            | .submitTx _ => .error "All inputs are spent. Transaction has probably already been included"
            | c => (Devnet.answers 1 "h" Devnet.emptyPool).operator about c
          ldk := Devnet.ok.ldk }
      elapsed := 0
      landed := true }
  else ⟨Devnet.answers 2 "h" Devnet.emptyPool, 0, false⟩

/-- The call of `request_swap` with these answers. -/
def laggingRequest : Option (Except String (ℤ × String × String)) × Visit :=
  (requestSwap Devnet.config 50 Devnet.userAddress 3600000).exec
    (Visit.act 3 (.handleSwapRequest "127.0.0.1" ⟨50, Devnet.userAddress⟩))
    (.start Devnet.fresh laggingInputs)

set_option maxRecDepth 100000 in
/-- `request_swap` returns LM invoice #2, and both LM invoices exist. -/
theorem devnet_created_twice :
    laggingRequest.1.bind returnedId = some 2 ∧
    entered Moment.effective laggingRequest.2.trace = [some 2, some 1] := by
  decide +kernel

end LightningRelay
