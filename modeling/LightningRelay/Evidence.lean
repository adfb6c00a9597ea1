import LightningRelay.Recovered
import LightningRelay.Devnet

/-!
# The evidence of a completion

Four functions end with the same step: a transaction that fulfills an entry is accepted, and the row
is completed with its hash.

* `evidence_iff`: `fulfill_swap`, `complete_offramp` and `recover_fulfilling_swaps` always record the
  hash; `recover_depositing_offramps` does exactly where the row had it before.
* `devnet_evidence_lost`: the recovery of an offramp completes the row without the hash.
-/

set_option autoImplicit false

namespace LightningRelay

open Async Alone

/-- The row is completed, with the hash `h` as its evidence. -/
def Row.completedWith (h : String) : Row → Bool
  | .swap m => m.status = .completed && m.cardanoTxHash = some h
  | .offramp m => m.status = .completed && m.depositTxHash = some h

/-- Every transaction that fulfills an entry and was accepted is recorded in the row. -/
def Evidenced (new : List Entry) (w : World) : Prop :=
  ∀ e ∈ new, ∀ a h, e.about? = some a → e.fulfills? = some h →
    ∃ r, w.row a = some r ∧ r.completedWith h = true

/-- The functions that fulfill entries. -/
inductive Completion where
  | fulfillSwap (paymentHash : String)
  | completeOfframp (paymentHash preimage : String)
  | recoverFulfillingSwaps
  | recoverDepositingOfframps

def Completion.program : Completion → Relay Unit
  | .fulfillSwap h => LightningRelay.fulfillSwap h
  | .completeOfframp h p => LightningRelay.completeOfframp h p
  | .recoverFulfillingSwaps => LightningRelay.recoverFulfillingSwaps
  | .recoverDepositingOfframps => LightningRelay.recoverDepositingOfframps

namespace Alone

variable {tid : ℕ} {c : Call} {a : About} {σ₀ σ : Alone}

/-! ## The submission -/

/-- The attempts so far have changed nothing, and no transaction was accepted. -/
def Tried (a : About) (σ₀ σ : Alone) : Prop :=
  ∃ new, Turned a id new σ₀ σ ∧ ∀ e ∈ new, e.fulfills? = none

/-- The attempts have changed nothing, and only the transaction `h` was accepted. -/
def Landed (a : About) (σ₀ : Alone) (h : String) (σ : Alone) : Prop :=
  ∃ new, Turned a id new σ₀ σ ∧ ∀ e ∈ new, ∀ h', e.fulfills? = some h' → h = h'

theorem exec_thenSubmit (kind : TxKind) (r : Except CardanoError String) (ht : Tried a σ₀ σ) :
    ∃ r' σ', (thenSubmit a kind r).exec (act tid c) σ = (some r', σ') ∧
      Attempted (Landed a σ₀) (Tried a σ₀) r' σ' := by
  rcases r with e | hex
  · exact ⟨_, σ, rfl, ht⟩
  obtain ⟨new, ht, hnew⟩ := ht
  have ht' := ht.trans (Turned.told tid c (.submitTx ⟨kind, hex⟩))
  refine ⟨_, σ.told tid c a (.submitTx ⟨kind, hex⟩), rfl, ?_⟩
  rcases hs : (σ.answers 0).operator a (.submitTx ⟨kind, hex⟩) with e | h
  · rw [hs] at ht'
    exact ⟨_, ht', List.forall_mem_cons.2 ⟨Entry.fulfills?_error, hnew⟩⟩
  · rw [hs] at ht'
    refine ⟨_, ht', List.forall_mem_cons.2 ⟨fun h' => Entry.eq_of_fulfills?, fun e he h' hh => ?_⟩⟩
    rw [hnew e he] at hh
    cases hh

theorem exec_fulfillInvoiceTx (h : String) (invoice : Invoice) (address : String)
    (ht : Tried (.swap h) σ₀ σ) :
    ∃ r σ', (fulfillInvoiceTx h invoice address).exec (act tid c) σ = (some r, σ') ∧
      Attempted (Landed (.swap h) σ₀) (Tried (.swap h) σ₀) r σ' := by
  obtain ⟨new, ht, hnew⟩ := ht
  refine exec_thenSubmit _ _ ⟨_, ht.trans (Turned.told tid c (.fulfillInvoice invoice address)), ?_⟩
  exact List.forall_mem_cons.2 ⟨rfl, hnew⟩

theorem exec_fulfillOfframpTx (id : ℤ) (offramp : Offramp) (ht : Tried (.offramp id) σ₀ σ) :
    ∃ r σ', (fulfillOfframpTx id offramp).exec (act tid c) σ = (some r, σ') ∧
      Attempted (Landed (.offramp id) σ₀) (Tried (.offramp id) σ₀) r σ' := by
  obtain ⟨new, ht, hnew⟩ := ht
  refine exec_thenSubmit _ _ ⟨_, ht.trans (Turned.told tid c (.fulfillOfframp offramp)), ?_⟩
  exact List.forall_mem_cons.2 ⟨rfl, hnew⟩

/-- Only the row `a` was worked on, and a transaction that was accepted for it is recorded in it. -/
def Finished (a : About) (σ σ' : Alone) : Prop :=
  ∃ f new, Turned a f new σ σ' ∧ ∀ e ∈ new, ∀ h, e.fulfills? = some h →
    ∃ r, f (σ.world.row a) = some r ∧ r.completedWith h = true

/-- The row was changed without a call of the operator. -/
theorem finished_of_turned {f : Option Row → Option Row} {σ' : Alone} (h : Turned a f [] σ σ') :
    Finished a σ σ' := ⟨f, [], h, fun _ he => absurd he List.not_mem_nil⟩

/-- A program that runs after the row was changed without a call of the operator. -/
theorem finished_after {f : Option Row → Option Row} {σ₁ : Alone} {p : Relay Unit}
    (h : Turned a f [] σ σ₁)
    (hp : ∃ σ', p.exec (act tid c) σ₁ = (some (), σ') ∧ Finished a σ₁ σ') :
    ∃ σ', p.exec (act tid c) σ₁ = (some (), σ') ∧ Finished a σ σ' := by
  obtain ⟨σ', he, g, new, ht, hnew⟩ := hp
  rw [h.row] at hnew
  refine ⟨σ', he, g ∘ f, new, ?_, hnew⟩
  simpa using h.trans ht

/-- The end of `fulfill_swap` and of `complete_offramp`: find the entry, submit its transaction, and
record the outcome. -/
theorem exec_finish {α : Type} {maxAttempts delay : ℕ} {context context' : String}
    {find : ContractState → Option α} {body : α → Relay (Except CardanoError String)}
    {found : Except String α → Relay Unit} {ended : α → Except String String → Relay Unit}
    {done : String → Option Row → Option Row}
    (hfound : ∀ x, found (.ok x) = submitContractTxWithRetry context' 3 15 (body x) >>= ended x)
    (hbody : ∀ x (σ₀ σ : Alone), Tried a σ₀ σ → ∃ r σ', (body x).exec (act tid c) σ = (some r, σ') ∧
      Attempted (Landed a σ₀) (Tried a σ₀) r σ')
    (hlost : ∀ e (σ : Alone), ∃ f σ', (found (.error e)).exec (act tid c) σ = (some (), σ') ∧
      Turned a f [] σ σ')
    (hok : ∀ x h (σ : Alone), ∃ σ', (ended x (.ok h)).exec (act tid c) σ = (some (), σ') ∧
      Turned a (done h) [] σ σ')
    (hfailed : ∀ x e (σ : Alone), ∃ f σ', (ended x (.error e)).exec (act tid c) σ = (some (), σ') ∧
      Turned a f [] σ σ')
    (hdone : ∀ h, ∃ r, done h (σ.world.row a) = some r ∧ r.completedWith h = true) :
    ∃ σ', (queryStateWithRetry a maxAttempts delay context find >>= found).exec (act tid c) σ =
      (some (), σ') ∧ Finished a σ σ' := by
  obtain ⟨r, σ₁, he₁, ⟨new₁, ht₁, hnew₁⟩, -⟩ := exec_search a maxAttempts delay context find σ
  rw [Prog.exec_bind _ he₁]
  rcases r with e | x
  · obtain ⟨f, σ', he, ht⟩ := hlost e σ₁
    refine ⟨σ', he, _, _, ht₁.trans ht, fun e he h hh => ?_⟩
    rw [(hnew₁ e he).2] at hh
    cases hh
  rw [hfound]
  have hloop : ∃ r σ₂, (submitContractTxWithRetry context' 3 15 (body x)).exec (act tid c) σ₁ =
      (some r, σ₂) ∧ Attempted (Landed a σ) (Tried a σ) r σ₂ := by
    refine exec_submitContractTxWithRetry ?_ (hbody x σ) ⟨new₁, ht₁, fun e he => (hnew₁ e he).2⟩
    rintro n σ' ⟨new, ht, hnew⟩
    exact ⟨(), σ'.slept tid c n, rfl, new, ht.trans (.slept n), hnew⟩
  obtain ⟨r, σ₂, he₂, hr⟩ := hloop
  rw [Prog.exec_bind _ he₂]
  rcases r with e | h
  · obtain ⟨new, ht, hnew⟩ := hr
    obtain ⟨f, σ', he, ht'⟩ := hfailed x e σ₂
    refine ⟨σ', he, _, _, ht.trans ht', fun e he h hh => ?_⟩
    rw [hnew e he] at hh
    cases hh
  · obtain ⟨new, ht, hnew⟩ := hr
    obtain ⟨σ', he, ht'⟩ := hok x h σ₂
    refine ⟨σ', he, _, _, ht.trans ht', fun e he h' hh => ?_⟩
    obtain rfl := hnew e he h' hh
    exact hdone h

variable (tid c) in
theorem finished_fulfillSwap (h : String) (σ : Alone) :
    ∃ σ', (fulfillSwap h).exec (act tid c) σ = (some (), σ') ∧ Finished (.swap h) σ σ' := by
  have hwrite : ∀ st tx (σ : Alone), Turned (.swap h)
      (Option.map (Row.onSwap fun r => { r with status := st, cardanoTxHash := tx })) [] σ
      (σ.stored tid c (.updateStatus h st tx)) :=
    fun _ _ _ => .storedSwap (fun _ _ => rfl) fun _ _ => rfl
  unfold fulfillSwap
  rw [exec_db]
  have hread : Turned (.swap h) id [] σ (σ.stored tid c (.getByPaymentHash h)) := .read rfl
  refine finished_after hread ?_
  rcases hm : (σ.world.db.call (.getByPaymentHash h)).1 with _ | m
  · exact ⟨_, rfl, finished_of_turned .refl⟩
  have hm : (σ.stored tid c (.getByPaymentHash h)).world.row (.swap h) = some (.swap m) :=
    congrArg (Option.map Row.swap) hm
  generalize σ.stored tid c (.getByPaymentHash h) = σ₁ at hm
  dsimp only
  rw [exec_db]
  have hmoved : Turned (.swap h) (Option.map (Row.onSwap (SwapMapping.moved .pending .fulfilling none)))
      [] σ₁ (σ₁.stored tid c (.transitionStatus h .pending .fulfilling none)) :=
    .storedSwap (fun _ _ => rfl) fun _ _ => rfl
  refine finished_after hmoved ?_
  have hrow : (σ₁.stored tid c (.transitionStatus h .pending .fulfilling none)).world.row (.swap h) =
      some (.swap (m.moved .pending .fulfilling none)) := by
    rw [hmoved.row, hm]
    rfl
  generalize σ₁.stored tid c (.transitionStatus h .pending .fulfilling none) = σ₂ at hrow
  rcases (σ₁.world.db.call (.transitionStatus h .pending .fulfilling none)).1 with _ | _
  · exact ⟨_, rfl, finished_of_turned .refl⟩
  rw [if_pos rfl, exec_currentTimestampMs]
  have htimed : Turned (.swap h) id [] σ₂ (σ₂.timed tid c) := .timed
  refine finished_after htimed ?_
  split_ifs
  · exact ⟨_, rfl, finished_of_turned (hwrite _ _ _)⟩
  · refine exec_finish (fun _ => rfl) (fun x _ _ => exec_fulfillInvoiceTx h x m.cardanoAddress)
      (fun _ σ => ⟨_, _, rfl, hwrite .failed none σ⟩)
      (fun _ tx σ => ⟨_, rfl, hwrite .completed (some tx) σ⟩)
      (fun _ _ σ => ⟨_, _, rfl, hwrite .failed none σ⟩) fun tx => ?_
    rw [htimed.row, id, hrow]
    exact ⟨_, rfl, by simp [Row.completedWith, Row.onSwap]⟩

variable (tid c) in
theorem finished_completeOfframp (h preimage : String) (σ : Alone) :
    ∃ σ' a, (completeOfframp h preimage).exec (act tid c) σ = (some (), σ') ∧ Finished a σ σ' := by
  unfold completeOfframp
  rw [exec_db]
  rcases hm : (σ.world.db.call (.getOfframpByPaymentHash h)).1 with _ | m
  · exact ⟨_, .pool, rfl, finished_of_turned (.read rfl)⟩
  obtain ⟨hm, -⟩ := SwapDb.getOfframpByPaymentHash_eq_some hm
  generalize hk : m.offrampId = k at hm
  have hwrite : ∀ st p d e (σ : Alone), Turned (.offramp k)
      (Option.map (Row.onOfframp (SwapDb.coalesce st p d e))) [] σ
      (σ.stored tid c (.updateOfframpStatus k st p d e)) :=
    fun _ _ _ _ _ => .storedOfframp (fun _ _ => rfl) fun _ _ => rfl
  suffices hrest : ∃ σ', _ ∧ Finished (.offramp k) σ σ' by
    obtain ⟨σ', he, hf⟩ := hrest
    exact ⟨σ', _, he, hf⟩
  have hread : Turned (.offramp k) id [] σ (σ.stored tid c (.getOfframpByPaymentHash h)) :=
    .read rfl
  refine finished_after hread ?_
  have hrow : (σ.stored tid c (.getOfframpByPaymentHash h)).world.row (.offramp k) =
      some (.offramp m) := congrArg (Option.map Row.offramp) hm
  generalize σ.stored tid c (.getOfframpByPaymentHash h) = σ₁ at hrow
  dsimp only
  rw [hk, exec_db]
  have hmoved : Turned (.offramp k)
      (Option.map (Row.onOfframp (OfframpMapping.moved .payingLightning .depositingToPool)))
      [] σ₁ (σ₁.stored tid c (.transitionOfframpStatus k .payingLightning .depositingToPool)) :=
    .storedOfframp (fun _ _ => rfl) fun _ _ => rfl
  refine finished_after hmoved ?_
  have hrow := hmoved.row.trans (congrArg _ hrow)
  generalize σ₁.stored tid c (.transitionOfframpStatus k .payingLightning .depositingToPool) = σ₂
    at hrow
  rcases (σ₁.world.db.call (.transitionOfframpStatus k .payingLightning .depositingToPool)).1 with _ | _
  · exact ⟨_, rfl, finished_of_turned .refl⟩
  rw [if_pos rfl, exec_db]
  have hpreimage := hwrite .depositingToPool (some preimage) none none σ₂
  refine finished_after hpreimage ?_
  refine exec_finish (fun _ => rfl) (fun x _ _ => exec_fulfillOfframpTx k x)
    (fun e σ => ⟨_, _, rfl, hwrite .failed none none _ σ⟩)
    (fun _ tx σ => ⟨_, rfl, hwrite .completed none (some tx) none σ⟩)
    (fun _ e σ => ⟨_, _, rfl, hwrite .failed none none (some e) σ⟩) fun tx => ?_
  rw [hpreimage.row, hrow]
  exact ⟨_, rfl, by simp [Row.completedWith, Row.onOfframp, SwapDb.coalesce]⟩

/-! ## The evidence -/

theorem evidenced_of_finished {σ' : Alone} {new : List Entry} (h : Finished a σ σ')
    (hlog : σ'.world.log = new ++ σ.world.log) : Evidenced new σ'.world := by
  obtain ⟨f, calls, ht, hcalls⟩ := h
  intro e he b tx hb htx
  by_cases hab : b = a
  · subst hab
    rw [ht.row]
    refine hcalls e ?_ tx htx
    rw [calls_of_log hlog ht.self]
    exact List.mem_filter.2 ⟨he, by simpa using hb⟩
  · -- nothing was done for the other rows
    have hview : σ'.view b = ⟨(σ.view b).row, [] ++ (σ.view b).calls⟩ := ht.others b hab
    have hmem : e ∈ ([] : List Entry) := by
      rw [calls_of_log hlog hview]
      exact List.mem_filter.2 ⟨he, by simpa using hb⟩
    cases hmem

theorem evidenced_of_passed {σ' : Alone} {new : List Entry}
    (h : ∀ b, Passed (Row.isSwap .fulfilling) (Settled Row.completeSwap) (σ.view b) (σ'.view b))
    (hlog : σ'.world.log = new ++ σ.world.log) : Evidenced new σ'.world := by
  intro e he b tx hb htx
  have hmem : e ∈ new.filter fun e => e.about? = some b := List.mem_filter.2 ⟨he, by simpa using hb⟩
  rcases hsel : (σ.view b).row.any (Row.isSwap .fulfilling) with _ | _
  · have hview : σ'.view b = ⟨(σ.view b).row, [] ++ (σ.view b).calls⟩ := (h b).apart hsel
    rw [← calls_of_log hlog hview] at hmem
    cases hmem
  · obtain ⟨f, calls, hview, hs⟩ := (h b).turned hsel
    rw [← calls_of_log hlog hview] at hmem
    obtain ⟨r, hr, hst⟩ := (Option.any_eq_true _ _).1 hsel
    have hrow : σ'.world.row b = f (σ.view b).row := congrArg View.row hview
    rw [hrow, hr]
    cases hs with
    | left hnone =>
      rw [hnone e hmem] at htx
      cases htx
    | done _ hdone =>
      obtain rfl := hdone e hmem tx htx
      cases r with
      | swap x => exact ⟨_, rfl, by simp [Row.completedWith, Row.onSwap]⟩
      | offramp x => cases hst

/-- Recovery completes the offramp whose transaction was accepted, and leaves its other columns. -/
theorem row_of_fulfills {σ₁ σ₂ σ' : Alone} {new : List Entry} {e : Entry} {b : About} {tx : String}
    (h : Stages (σ.view b) (σ₁.view b) (σ₂.view b) (σ'.view b))
    (hlog : σ'.world.log = new ++ σ.world.log) (he : e ∈ new) (hb : e.about? = some b)
    (htx : e.fulfills? = some tx) :
    ∃ id x, b = .offramp id ∧ σ.world.offramp id = some x ∧
      σ'.world.row b = some (.offramp (SwapDb.coalesce .completed none none none x)) := by
  have hmem : e ∈ new.filter fun e => e.about? = some b := List.mem_filter.2 ⟨he, by simpa using hb⟩
  have hcalled : (σ'.view b).calls ≠ (σ.view b).calls := by
    intro heq
    have hview : σ'.view b = ⟨(σ'.view b).row, [] ++ (σ.view b).calls⟩ := by
      rw [List.nil_append, ← heq]
    rw [← calls_of_log hlog hview] at hmem
    cases hmem
  have hseen : ∃ x, (σ.view b).row = some (.offramp x) := by
    rcases hrow : (σ.view b).row with _ | x | x
    · exact absurd (by rw [h.unseen fun st => by rw [hrow]; rfl]) hcalled
    · exact absurd (by rw [h.unseen fun st => by rw [hrow]; rfl]) hcalled
    · exact ⟨x, rfl⟩
  obtain ⟨x, hx⟩ := hseen
  have hst : x.status = .depositingToPool := by
    by_contra hdep
    by_cases hver : x.status = .pendingVerification
    · exact hcalled (by rw [h.of_pendingVerification hx hver])
    by_cases hpay : x.status = .payingLightning
    · exact hcalled (by rw [h.of_payingLightning hx hpay])
    · exact hcalled (by rw [h.of_ne hx hver hpay hdep])
  obtain ⟨f, calls, hview, hs⟩ := h.of_depositingToPool hx hst
  rw [← calls_of_log hlog hview] at hmem
  have hrow : σ'.world.row b = f (σ.view b).row := congrArg View.row hview
  rw [hrow, hx]
  cases hs with
  | left hnone =>
    rw [hnone e hmem] at htx
    cases htx
  | done =>
    cases b with
    | swap h =>
      obtain ⟨m, -, hm⟩ := Option.map_eq_some_iff.1 hx
      cases hm
    | offramp id =>
      obtain ⟨m, hm, hmx⟩ := Option.map_eq_some_iff.1 hx
      obtain rfl := Row.offramp.inj hmx
      exact ⟨id, m, rfl, hm, rfl⟩
    | pool => cases hx

end Alone

/-- The hash of every transaction that fulfills an entry is recorded, by each of the four functions
run without other writers, exactly if the function is not the recovery of offramps, or the rows whose
transactions it has had accepted had the hash before. -/
theorem evidence_iff (p : Completion) (tid : ℕ) (c : Call) (σ : Alone) :
    ∃ σ' new, p.program.exec (act tid c) σ = (some (), σ') ∧ σ'.world.log = new ++ σ.world.log ∧
      (Evidenced new σ'.world ↔ (p = .recoverDepositingOfframps →
        ∀ e ∈ new, ∀ id h, e.about? = some (.offramp id) → e.fulfills? = some h →
          ∃ m, σ.world.offramp id = some m ∧ m.depositTxHash = some h)) := by
  obtain ⟨new, hlog⟩ := log_exec tid c p.program σ
  cases p with
  | fulfillSwap h =>
    obtain ⟨σ', he, hf⟩ := finished_fulfillSwap tid c h σ
    have he : (Completion.fulfillSwap h).program.exec (act tid c) σ = (some (), σ') := he
    rw [he] at hlog
    exact ⟨σ', new, he, hlog, iff_of_true (evidenced_of_finished hf hlog) nofun⟩
  | completeOfframp h preimage =>
    obtain ⟨σ', a, he, hf⟩ := finished_completeOfframp tid c h preimage σ
    have he : (Completion.completeOfframp h preimage).program.exec (act tid c) σ = (some (), σ') := he
    rw [he] at hlog
    exact ⟨σ', new, he, hlog, iff_of_true (evidenced_of_finished hf hlog) nofun⟩
  | recoverFulfillingSwaps =>
    obtain ⟨σ', he, hp⟩ := passed_recoverFulfillingSwaps tid c σ
    have he : Completion.recoverFulfillingSwaps.program.exec (act tid c) σ = (some (), σ') := he
    rw [he] at hlog
    exact ⟨σ', new, he, hlog, iff_of_true (evidenced_of_passed hp hlog) nofun⟩
  | recoverDepositingOfframps =>
    obtain ⟨σ₁, σ₂, σ', he, hs⟩ := stages_recoverDepositingOfframps tid c σ
    have he : Completion.recoverDepositingOfframps.program.exec (act tid c) σ = (some (), σ') := he
    rw [he] at hlog
    refine ⟨σ', new, he, hlog, fun hev _ e hmem id h hid hh => ?_, fun hold e hmem a h ha hh => ?_⟩
    · obtain ⟨id', x, heq, hx, hrow⟩ := row_of_fulfills (hs _) hlog hmem hid hh
      obtain rfl := About.offramp.inj heq
      obtain ⟨r, hr, hwith⟩ := hev e hmem _ h hid hh
      rw [hrow] at hr
      obtain rfl := Option.some.inj hr
      simp only [Row.completedWith, Bool.and_eq_true] at hwith
      exact ⟨x, hx, of_decide_eq_true hwith.2⟩
    · obtain ⟨id, x, rfl, hx, hrow⟩ := row_of_fulfills (hs _) hlog hmem ha hh
      obtain ⟨m, hm, htx⟩ := hold rfl e hmem id h ha hh
      obtain rfl := Option.some.inj (hx.symm.trans hm)
      exact ⟨_, hrow, by simp [Row.completedWith, SwapDb.coalesce, htx]⟩

/-- The first offramp of the devnet, paid and left in DepositingToPool. -/
def devnetDepositing : OfframpMapping where
  offrampId := 1
  bolt11 := Devnet.invoice1.text
  paymentHash := Devnet.invoice1.paymentHash
  amountCbtc := 50
  cbtcTxHash := Devnet.depositTx
  status := .depositingToPool
  createdAt := Devnet.startTime
  lightningPreimage := some "preimage"
  depositTxHash := none
  errorMessage := none
  cardanoOfframpTxHash := some "h"
  refundAddress := "b06fd732855606d1de25ea12b901c0bfe12eb0ee51c3db0cf66fcd0a"
  expiresAt := Devnet.startTime + 3600000

/-- The world in which recovery finds it, its entry being on chain. -/
def devnetDeposited : Alone where
  world := { Devnet.fresh with db.offramps := ⟨[devnetDepositing], List.nodup_singleton _⟩ }
  answers _ := Devnet.answers 1 "fulfilled" Devnet.pool1

set_option maxRecDepth 100000 in
/-- Recovery has the FulfillOfframp transaction of the offramp accepted with the hash `fulfilled`, and
completes the row without it. -/
theorem devnet_evidence_lost :
    let σ' := (recoverDepositingOfframps.exec (Alone.act 1 .startLdk) devnetDeposited).2
    (σ'.world.log.any fun e => e.about? = some (.offramp 1) && e.fulfills? = some "fulfilled") = true ∧
    (σ'.world.offramp 1).map (fun m => (m.status, m.depositTxHash)) = some (.completed, none) := by
  decide +kernel

end LightningRelay
