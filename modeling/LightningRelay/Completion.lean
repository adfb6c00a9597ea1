import LightningRelay.Alone
import LightningRelay.Devnet

/-!
# What recovery completes

Recovery takes a row for completed when `query_state_with_retry` returns an error: the entry is not
on chain, so it must have been fulfilled.  But the loop returns an error as well when every query
failed, when the state lags behind, and when the entry was cancelled.

* `recovery_truthful_iff`: recovery writes Completed only for entries whose Fulfill transaction was
  accepted exactly if every stuck row whose entry is not shown had its transaction accepted before.
* `devnet_completion_invented`: a swap whose FulfillInvoice transaction was never submitted is
  Completed by a recovery that cannot reach the chain.
-/

set_option autoImplicit false

namespace LightningRelay

open Async Alone

/-- The kind of the transaction that an entry shows accepted. -/
def Entry.accepted? : Entry → Option TxKind
  | ⟨_, _, .operator _ (.submitTx tx), .ok _⟩ => some tx.kind
  | _ => none

/-- A transaction of this kind was accepted. -/
def Accepted (log : List Entry) (kind : TxKind) : Prop := ∃ e ∈ log, e.accepted? = some kind

/-- The transaction that stands behind a write of Completed; the rows of `w` say which invoice a
swap has. -/
def World.owes (w : World) (e : Entry) : Option TxKind :=
  match e.op with
  | .db (.updateStatus h .completed _) => (w.swap h).map fun m => .fulfillInvoice m.invoiceId
  | .db (.updateOfframpStatus id .completed _ _ _) => some (.fulfillOfframp id)
  | _ => none

/-- Every write of Completed since `w` came after its transaction was accepted. -/
def Truthful (w : World) (log : List Entry) : Prop :=
  ∀ newer e older kind, log = newer ++ e :: older → w.log.length ≤ older.length →
    w.owes e = some kind → Accepted older kind

/-- Entries that neither complete a row nor show an accepted transaction. -/
def Plain (w : World) (e : Entry) : Prop := w.owes e = none ∧ e.accepted? = none

/-- The log has grown by plain entries. -/
inductive Grown (w : World) (log : List Entry) : List Entry → Prop where
  | refl : Grown w log log
  | cons {e : Entry} {log' : List Entry} : Plain w e → Grown w log log' → Grown w log (e :: log')

section

variable {w : World} {log log' new : List Entry} {e : Entry} {kind : TxKind}

theorem accepted_cons : Accepted (e :: log) kind ↔ e.accepted? = some kind ∨ Accepted log kind := by
  simp [Accepted]

theorem truthful_self (w : World) : Truthful w w.log := by
  intro newer e older kind hlog hlen
  have := congrArg List.length hlog
  simp only [List.length_append, List.length_cons] at this
  omega

theorem truthful_cons (hlen : w.log.length ≤ log.length) : Truthful w (e :: log) ↔
    Truthful w log ∧ ∀ kind, w.owes e = some kind → Accepted log kind := by
  constructor
  · intro h
    refine ⟨fun newer x older kind hlog => ?_, fun kind => h [] e log kind rfl hlen⟩
    exact h (e :: newer) x older kind (by rw [hlog, List.cons_append])
  · rintro ⟨hlog, he⟩ newer x older kind hsplit hle howes
    cases newer with
    | nil =>
      obtain ⟨rfl, rfl⟩ := List.cons.inj hsplit
      exact he kind howes
    | cons y newer =>
      obtain ⟨-, hsplit⟩ := List.cons.inj hsplit
      exact hlog newer x older kind hsplit hle howes

theorem Grown.length_le (h : Grown w log log') : log.length ≤ log'.length := by
  induction h with
  | refl => exact Nat.le_refl _
  | cons _ _ ih =>
    rw [List.length_cons]
    omega

theorem Grown.accepted_iff (h : Grown w log log') : Accepted log' kind ↔ Accepted log kind := by
  induction h with
  | refl => rfl
  | cons hx _ ih =>
    rw [accepted_cons, hx.2, ih]
    simp

theorem Grown.truthful_iff (h : Grown w log log') (hlen : w.log.length ≤ log.length) :
    Truthful w log' ↔ Truthful w log := by
  induction h with
  | refl => rfl
  | cons hx h ih =>
    rw [truthful_cons (Nat.le_trans hlen h.length_le), ih, hx.1]
    simp

/-! ## The turn of a row -/

/-- What the turn of a stuck row adds to the log: without an answer that shows its entry the row is
completed at once; else it is completed after its transaction was accepted, or left. -/
inductive Turn (w : World) (kind : TxKind) (shown : Bool) (log : List Entry) : List Entry → Prop where
  | unseen {e : Entry} {log' : List Entry} : shown = false → w.owes e = some kind →
      Grown w log log' → Turn w kind shown log (e :: log')
  | left {log' : List Entry} : shown = true → Grown w log log' → Turn w kind shown log log'
  | fulfilled {e a : Entry} {log' : List Entry} : shown = true → w.owes e = some kind →
      w.owes a = none → a.accepted? = some kind → Grown w log log' →
      Turn w kind shown log (e :: a :: log')

variable {shown : Bool}

theorem Turn.length_le (h : Turn w kind shown log log') : log.length ≤ log'.length := by
  cases h with
  | unseen _ _ hg => exact Nat.le_succ_of_le hg.length_le
  | left _ hg => exact hg.length_le
  | fulfilled _ _ _ _ hg => exact Nat.le_succ_of_le (Nat.le_succ_of_le hg.length_le)

/-- A turn keeps the log truthful exactly if the entry is shown or its transaction was accepted
before. -/
theorem Turn.truthful_iff (h : Turn w kind shown log log') (hlen : w.log.length ≤ log.length) :
    Truthful w log' ↔ Truthful w log ∧ (shown = true ∨ Accepted log kind) := by
  cases h with
  | unseen hs howes hg =>
    rw [truthful_cons (Nat.le_trans hlen hg.length_le), hg.truthful_iff hlen, howes, hs]
    simp [hg.accepted_iff]
  | left hs hg =>
    rw [hg.truthful_iff hlen, hs]
    simp
  | @fulfilled e a log' hs howes ha hacc hg =>
    have hle := Nat.le_trans hlen hg.length_le
    have hle' : w.log.length ≤ (a :: log').length := Nat.le_succ_of_le hle
    rw [truthful_cons hle', truthful_cons hle, hg.truthful_iff hlen, howes, ha, hs]
    simp [accepted_cons, hacc]

end

section

variable {tid : ℕ} {c : Call} {w : World} {kind : TxKind} {σ : Alone}

theorem plain_of_waits {e : Entry} (h : e.waits = true) : Plain w e := by
  obtain ⟨tid, c, o, r⟩ := e
  cases o with
  | operator about call =>
    cases call with
    | queryState => exact ⟨rfl, rfl⟩
    | _ => cases h
  | sleep => exact ⟨rfl, rfl⟩
  | _ => cases h

theorem grown_of_waited {σ' : Alone} (h : Waited σ σ') : Grown w σ.world.log σ'.world.log := by
  obtain ⟨new, hlog, hwaits⟩ := h
  rw [hlog]
  clear hlog
  induction new with
  | nil => exact .refl
  | cons e new ih =>
    obtain ⟨he, hnew⟩ := List.forall_mem_cons.1 hwaits
    exact .cons (plain_of_waits he) (ih hnew)

theorem plain_of_operator {about : About} {call : OperatorCall} {r : Except CardanoError call.Val}
    (h : ∀ tx, call ≠ .submitTx tx) : Plain w ⟨tid, c, .operator about call, r⟩ := by
  cases call with
  | submitTx tx => exact absurd rfl (h tx)
  | _ => exact ⟨rfl, rfl⟩

/-- The turn of an entry, whatever it is completed with. -/
theorem turn_recoverEntry {α : Type} {about : About} {context : String}
    {find : ContractState → Option α} {build : α → OperatorCall}
    {sign : (x : α) → (build x).Val → SignedTx} {complete : Option String → Relay Unit}
    (hbuild : ∀ x tx, build x ≠ .submitTx tx)
    (hsign : ∀ state x v, find state = some x → (sign x v).kind = kind)
    (hcomplete : ∀ tx (σ : Alone), ∃ σ' e, (complete tx).exec (act tid c) σ = (some (), σ') ∧
      σ'.world.log = e :: σ.world.log ∧ w.owes e = some kind) (σ : Alone) :
    ∃ σ', (recoverEntry about context find build sign complete).exec (act tid c) σ = (some (), σ') ∧
      Turn w kind (shown about find 3 σ.answers) σ.world.log σ'.world.log := by
  obtain ⟨r, σ₁, hexec, hwaited, hq⟩ := exec_queryStateWithRetry tid c about find 3 5 context σ
  have hg₁ : Grown w σ.world.log σ₁.world.log := grown_of_waited hwaited
  unfold recoverEntry
  rw [Prog.exec_bind _ hexec]
  cases hq with
  | error hs =>
    obtain ⟨σ', e, hexec', hlog, howes⟩ := hcomplete none σ₁
    exact ⟨σ', hexec', hlog ▸ .unseen hs howes hg₁⟩
  | @ok x state hs hf =>
    have hg₂ : Grown w σ.world.log (σ₁.told tid c about (build x)).world.log :=
      .cons (plain_of_operator (hbuild x)) hg₁
    dsimp only
    rw [exec_operator]
    generalize σ₁.told tid c about (build x) = σ₂ at hg₂ ⊢
    rcases (σ₁.answers 0).operator about (build x) with err | v
    · exact ⟨σ₂, rfl, .left hs hg₂⟩
    · dsimp only
      rw [exec_operator]
      rcases hans : (σ₂.answers 0).operator about (.submitTx (sign x v)) with err | txHash
      · refine ⟨_, rfl, .left hs (.cons ⟨rfl, ?_⟩ hg₂)⟩
        rw [hans]
        rfl
      · obtain ⟨σ', e, hexec', hlog, howes⟩ :=
          hcomplete (some txHash) (σ₂.told tid c about (.submitTx (sign x v)))
        refine ⟨σ', hexec', ?_⟩
        rw [hlog]
        refine .fulfilled hs howes rfl ?_ hg₂
        rw [hans]
        exact congrArg some (hsign state x v hf)

/-! ## The recoveries -/

theorem turn_recoverSwap {m : SwapMapping} (hm : w.swap m.paymentHash = some m) (σ : Alone) :
    ∃ σ', (recoverSwap m).exec (act tid c) σ = (some (), σ') ∧
      Turn w (.fulfillInvoice m.invoiceId)
        (shown (.swap m.paymentHash) (findInvoice m.invoiceId) 3 σ.answers)
        σ.world.log σ'.world.log := by
  refine turn_recoverEntry ?_ (fun state invoice _ hfind => ?_) (fun tx σ => ?_) σ
  · exact fun _ _ => nofun
  · have hid : invoice.invoiceId = m.invoiceId := by simpa using List.find?_some hfind
    rw [hid]
  · refine ⟨σ.stored tid c (.updateStatus m.paymentHash .completed tx), _, rfl, rfl, ?_⟩
    simp [World.owes, hm]

theorem turn_recoverDepositing (m : OfframpMapping) (σ : Alone) :
    ∃ σ', (recoverDepositing m).exec (act tid c) σ = (some (), σ') ∧
      Turn w (.fulfillOfframp m.offrampId)
        (shown (.offramp m.offrampId) (findOfframp m.offrampId) 3 σ.answers)
        σ.world.log σ'.world.log := by
  refine turn_recoverEntry ?_ (fun state offramp _ hfind => ?_) (fun tx σ => ?_) σ
  · exact fun _ _ => nofun
  · have hid : offramp.offrampId = m.offrampId := by simpa using List.find?_some hfind
    rw [hid]
  · exact ⟨σ.stored tid c (.updateOfframpStatus m.offrampId .completed none none none), _, rfl, rfl, rfl⟩

end

/-- The stuck swaps in the order in which `recover_fulfilling_swaps` goes through them, each with
the world and the answers at the beginning of its turn. -/
def swapTurns (tid : ℕ) (c : Call) (σ : Alone) : List (SwapMapping × Alone) :=
  Prog.turns (act tid c) recoverSwap (σ.world.db.getByStatus .fulfilling)
    (σ.stored tid c (.getByStatus .fulfilling))

/-- `recover_depositing_offramps` up to its read of the offramps in DepositingToPool. -/
def clearInterrupted : Relay (List OfframpMapping) := do
  let verifying ← db (.getOfframpsByStatus .pendingVerification)
  Prog.forEach resetVerifying verifying
  let paying ← db (.getOfframpsByStatus .payingLightning)
  Prog.forEach failPaying paying
  db (.getOfframpsByStatus .depositingToPool)

/-- The stuck offramps in the order in which `recover_depositing_offramps` goes through them. -/
def offrampTurns (tid : ℕ) (c : Call) (σ : Alone) : List (OfframpMapping × Alone) :=
  match clearInterrupted.exec (act tid c) σ with
  | (some stuck, σ₁) => Prog.turns (act tid c) recoverDepositing stuck σ₁
  | (none, _) => []

section

variable {tid : ℕ} {c : Call} {w : World} {σ : Alone} {log : List Entry}

theorem grown_resetVerifying (m : OfframpMapping) (h : Grown w log σ.world.log) :
    ∃ σ', (resetVerifying m).exec (act tid c) σ = (some (), σ') ∧ Grown w log σ'.world.log :=
  ⟨_, rfl, .cons ⟨rfl, rfl⟩ h⟩

theorem grown_failPaying (m : OfframpMapping) (h : Grown w log σ.world.log) :
    ∃ σ', (failPaying m).exec (act tid c) σ = (some (), σ') ∧ Grown w log σ'.world.log := by
  unfold failPaying
  rw [exec_db]
  rcases (σ.world.db.call
    (.transitionOfframpStatus m.offrampId .payingLightning .failed)).1 with _ | _
  · exact ⟨_, rfl, .cons ⟨rfl, rfl⟩ h⟩
  · exact ⟨_, rfl, .cons ⟨rfl, rfl⟩ (.cons ⟨rfl, rfl⟩ h)⟩

/-- A loop of turns that add only plain entries adds only plain entries. -/
theorem grown_forEach {f : OfframpMapping → Relay Unit}
    (hf : ∀ m (σ : Alone), Grown w log σ.world.log →
      ∃ σ', (f m).exec (act tid c) σ = (some (), σ') ∧ Grown w log σ'.world.log)
    (rows : List OfframpMapping) (h : Grown w log σ.world.log) :
    ∃ σ', (Prog.forEach f rows).exec (act tid c) σ = (some (), σ') ∧ Grown w log σ'.world.log :=
  Prog.exec_forEach_keep (G := fun σ : Alone => Grown w log σ.world.log) rows (fun m _ => hf m) h

/-- The recovery of offramps completes nothing before it goes through the stuck ones. -/
theorem exec_clearInterrupted (tid : ℕ) (c : Call) (w : World) (σ : Alone) :
    ∃ stuck σ₁, clearInterrupted.exec (act tid c) σ = (some stuck, σ₁) ∧
      recoverDepositingOfframps.exec (act tid c) σ =
        (Prog.forEach recoverDepositing stuck).exec (act tid c) σ₁ ∧
      Grown w σ.world.log σ₁.world.log := by
  have hg₀ : Grown w σ.world.log
      (σ.stored tid c (.getOfframpsByStatus .pendingVerification)).world.log :=
    .cons ⟨rfl, rfl⟩ .refl
  obtain ⟨σ₁, he₁, hg₁⟩ := grown_forEach (fun m _ => grown_resetVerifying m)
    (σ.world.db.call (.getOfframpsByStatus .pendingVerification)).1 hg₀
  have hg₂ : Grown w σ.world.log (σ₁.stored tid c (.getOfframpsByStatus .payingLightning)).world.log :=
    .cons ⟨rfl, rfl⟩ hg₁
  obtain ⟨σ₂, he₂, hg₃⟩ := grown_forEach (fun m _ => grown_failPaying m)
    (σ₁.world.db.call (.getOfframpsByStatus .payingLightning)).1 hg₂
  refine ⟨(σ₂.world.db.call (.getOfframpsByStatus .depositingToPool)).1,
    σ₂.stored tid c (.getOfframpsByStatus .depositingToPool), ?_, ?_, .cons ⟨rfl, rfl⟩ hg₃⟩
  · unfold clearInterrupted
    rw [exec_db, Prog.exec_bind _ he₁, exec_db, Prog.exec_bind _ he₂]
    rfl
  · unfold recoverDepositingOfframps
    rw [exec_db, Prog.exec_bind _ he₁, exec_db, Prog.exec_bind _ he₂, exec_db]

/-- A loop over stuck rows, from a history to which nothing but plain entries was added. -/
theorem truthful_forEach {γ : Type} {f : γ → Relay Unit} {kind : γ → TxKind}
    {seen : γ → (ℕ → Answers) → Bool} {rows : List γ}
    (hturn : ∀ x ∈ rows, ∀ σ : Alone, ∃ σ', (f x).exec (act tid c) σ = (some (), σ') ∧
      Turn w (kind x) (seen x σ.answers) σ.world.log σ'.world.log)
    (hg : Grown w w.log σ.world.log) :
    ∃ σ', (Prog.forEach f rows).exec (act tid c) σ = (some (), σ') ∧
      (Truthful w σ'.world.log ↔ ∀ t ∈ Prog.turns (act tid c) f rows σ,
        seen t.1 t.2.answers = true ∨ Accepted t.2.world.log (kind t.1)) := by
  have hloop : ∃ σ', (Prog.forEach f rows).exec (act tid c) σ = (some (), σ') ∧
      (Truthful w σ'.world.log ↔ Truthful w σ.world.log ∧
        ∀ t ∈ Prog.turns (act tid c) f rows σ,
          seen t.1 t.2.answers = true ∨ Accepted t.2.world.log (kind t.1)) := by
    refine Prog.exec_forEach (I := fun σ : Alone => Truthful w σ.world.log)
      (C := fun x (σ : Alone) => seen x σ.answers = true ∨ Accepted σ.world.log (kind x))
      (G := fun σ : Alone => w.log.length ≤ σ.world.log.length) rows ?_ hg.length_le
    intro x hx σ hle
    obtain ⟨σ', he, ht⟩ := hturn x hx σ
    exact ⟨σ', he, Nat.le_trans hle ht.length_le, ht.truthful_iff hle⟩
  obtain ⟨σ', he, hiff⟩ := hloop
  refine ⟨σ', he, ?_⟩
  rw [hiff, hg.truthful_iff (Nat.le_refl _)]
  exact ⟨fun h => h.2, fun h => ⟨truthful_self w, h⟩⟩

end

/-! ## What follows -/

/-- For every database, every history and every sequence of answers, both recoveries return; and they
write Completed only after the row's Fulfill transaction was accepted exactly if, for every stuck row
in its turn, one of the next three answers to a state query shows its entry or its transaction was
accepted before. -/
theorem recovery_truthful_iff (tid : ℕ) (c : Call) (w : World) (answers : ℕ → Answers) :
    (∃ σ, recoverFulfillingSwaps.exec (act tid c) ⟨w, answers⟩ = (some (), σ) ∧
      (Truthful w σ.world.log ↔ ∀ t ∈ swapTurns tid c ⟨w, answers⟩,
        shown (.swap t.1.paymentHash) (findInvoice t.1.invoiceId) 3 t.2.answers = true ∨
          Accepted t.2.world.log (.fulfillInvoice t.1.invoiceId))) ∧
    ∃ σ, recoverDepositingOfframps.exec (act tid c) ⟨w, answers⟩ = (some (), σ) ∧
      (Truthful w σ.world.log ↔ ∀ t ∈ offrampTurns tid c ⟨w, answers⟩,
        shown (.offramp t.1.offrampId) (findOfframp t.1.offrampId) 3 t.2.answers = true ∨
          Accepted t.2.world.log (.fulfillOfframp t.1.offrampId)) := by
  constructor
  · have hg : Grown w w.log
        ((⟨w, answers⟩ : Alone).stored tid c (.getByStatus .fulfilling)).world.log :=
      .cons ⟨rfl, rfl⟩ .refl
    exact truthful_forEach (fun m hm σ => turn_recoverSwap (SwapDb.mem_getByStatus.1 hm).1 σ) hg
  · obtain ⟨stuck, σ₁, hclear, hrec, hg⟩ := exec_clearInterrupted tid c w ⟨w, answers⟩
    rw [hrec, offrampTurns, hclear]
    exact truthful_forEach (fun m _ σ => turn_recoverDepositing m σ) hg

/-- The relay goes down after `fulfill_swap` has won the first swap and before it submits anything. -/
def Devnet.stuckRun : List Act := Devnet.claimedRun ++ Devnet.steps 6 2 Devnet.ok ++ [.env .crash]

set_option maxRecDepth 100000 in
/-- A recovery that cannot reach the chain completes a swap whose transaction was never submitted. -/
theorem devnet_completion_invented : ∃ s, Reachable Devnet.config Devnet.startTime s ∧
    (s.world.swap Devnet.invoice1.paymentHash).map (·.status) = some .fulfilling ∧
    ∃ σ, recoverFulfillingSwaps.exec (act 7 .startLdk) ⟨s.world, fun _ => Devnet.unreachable⟩ =
        (some (), σ) ∧
      (σ.world.swap Devnet.invoice1.paymentHash).map (·.status) = some .completed ∧
      ∀ e ∈ σ.world.log, e.accepted? ≠ some (.fulfillInvoice 1) := by
  obtain ⟨s, hs, hp⟩ := Devnet.reachable_of_after Devnet.stuckRun (fun s =>
    let r := recoverFulfillingSwaps.exec (act 7 .startLdk) ⟨s.world, fun _ => Devnet.unreachable⟩
    decide ((s.world.swap Devnet.invoice1.paymentHash).map (·.status) = some .fulfilling ∧
      r.1 = some () ∧
      (r.2.world.swap Devnet.invoice1.paymentHash).map (·.status) = some .completed ∧
      ∀ e ∈ r.2.world.log, e.accepted? ≠ some (.fulfillInvoice 1))) (by decide +kernel)
  obtain ⟨hst, hret, hdone, hnone⟩ := of_decide_eq_true hp
  exact ⟨s, hs, hst, _, Prod.ext hret rfl, hdone, hnone⟩

end LightningRelay
