import LightningRelay.Creation
import LightningRelay.Devnet

/-!
# What a swap request leaves behind

`handle_swap_request` creates the LM invoice first, then the BOLT11 invoice, then the row, and undoes
nothing.

* `devnet_invoice_without_row`: LDK refuses to create the BOLT11 invoice, and the LM invoice stays.
* `swapRequest_in_step_iff`: exactly the requests none of whose LM invoices took effect behind an error,
  and whose accepted one, if any, got its BOLT11 invoice, leave Cardano and the database in step.
-/

set_option autoImplicit false

namespace LightningRelay

open Async

namespace Creation

/-- The swaps after a call that began in `w` and is at the stage `l`. -/
def Rows (w : World) : Stage → World → Prop
  | .stored id h, w' => w.swap h = none ∧
      (∃ r, w'.swap h = some r ∧ r.status = .pending ∧ some r.invoiceId = id) ∧
      ∀ k, k ≠ h → w'.swap k = w.swap k
  | _, w' => ∀ k, w'.swap k = w.swap k

/-- The swap request that began in `w` is at the stage `l`. -/
structure Requesting (w : World) (l : Stage) (v : Visit) : Prop where
  shape : Shape .createInvoice l v.trace
  rows : Rows w l v.world

section

variable {w : World} {l l' : Stage} {o : Op} {r : o.Resp} {v v' : Visit}

theorem onSwap_of_not_enters (h : o.enters = false) (k : String) (row : Option SwapMapping) :
    o.onSwap k row = row := by
  cases o with
  | db c =>
    cases c with
    | insert | updateStatus | transitionStatus => cases h
    | _ => rfl
  | _ => rfl

/-- Operations that write to no swap. -/
theorem rows_stay {w' w'' : World} (h : Rows w l w') (hs : ∀ k, w''.swap k = w'.swap k) :
    Rows w l w'' := by
  cases l with
  | stored id h' => simpa only [Rows, hs] using h
  | _ => exact fun k => (hs k).trans (h k)

theorem rows_store {m : SwapMapping} {id : ℤ} {h : String}
    (hv : Visit.Acted (.db (.insert m)) true v v') (hst : m.status = .pending)
    (hid : m.invoiceId = id) (hh : m.paymentHash = h) (hR : Rows w (.invoiced (some id) h) v.world) :
    Rows w (.stored (some id) h) v'.world := by
  have hnone : v.world.swap h = none := hh ▸ SwapDb.insert_fst_iff.1 hv.answered.symm
  refine ⟨(hR h).symm.trans hnone, ⟨{ m with cardanoTxHash := none }, ?_, hst, by rw [← hid]⟩, ?_⟩
  · rw [hv.swap, hnone]
    simp [Op.onSwap, DbCall.onSwap, hh]
  · intro k hk
    rw [hv.swap]
    simpa [Op.onSwap, DbCall.onSwap, hh, hk] using hR k

theorem rows_duplicate {m : SwapMapping} {id : Option ℤ} {h : String}
    (hv : Visit.Acted (.db (.insert m)) false v v') (hR : Rows w (.invoiced id h) v.world) :
    Rows w (.invoiced id h) v'.world := by
  refine rows_stay hR fun k => ?_
  have hsome : v.world.swap m.paymentHash ≠ none := fun hnone => by
    have hans : false = _ := hv.answered
    rw [SwapDb.insert_fst_iff.2 hnone] at hans
    cases hans
  rw [hv.swap]
  simp only [Op.onSwap, DbCall.onSwap]
  split_ifs with hk
  · subst hk
    obtain ⟨x, hx⟩ := Option.ne_none_iff_exists'.1 hsome
    rw [hx, Option.some_or]
  · rfl

theorem requesting_move (h : Requesting w l v) (hm : Move .createInvoice l o r l')
    (hv : Visit.Acted o r v v') : Requesting w l' v' where
  shape := by
    rw [hv.trace]
    exact shape_move rfl hm h.shape
  rows := by
    have hR := h.rows
    cases hm with
    | quiet ho =>
      exact rows_stay hR fun k => (hv.swap k).trans (onSwap_of_not_enters ho k _)
    | store hst hid hh => exact rows_store hv hst hid hh hR
    | duplicate => exact rows_duplicate hv hR
    | _ => exact fun k => (hv.swap k).trans (hR k)

theorem requesting_start {inputs : ℕ → Input} : Requesting w .idle (.start w inputs) where
  shape := shape_start
  rows _ := rfl

/-- A request that waits is not between its BOLT11 invoice and its row. -/
theorem stored_of_awaited (hm : Move .createInvoice l o r l') (ho : o.awaited = true) :
    l.unstored = false ∧ l'.unstored = false := by
  cases hm with
  | @quiet _ l _ _ _ hw =>
    cases hl : l.unstored with
    | false => exact ⟨rfl, rfl⟩
    | true =>
      rw [hw hl] at ho
      cases ho
  | invoice | uninvoiced | store | duplicate => cases ho
  | _ => exact ⟨rfl, rfl⟩

end

end Creation

/-- A Pending swap that a request which began in `w` has left. -/
def LeftPending (w w' : World) (r : SwapMapping) : Prop :=
  ∃ h, w.swap h = none ∧ w'.swap h = some r ∧ r.status = .pending

/-- Cardano and the database are in step after a swap request that began in `w`: the LM invoices of the
request that took effect, also those behind an error, are one by one the invoices of the Pending swaps
that it has left. -/
def InStep (w : World) (v : Visit) : Prop :=
  ∃ rows : List SwapMapping, rows.Nodup ∧ (∀ r, r ∈ rows ↔ LeftPending w v.world r) ∧
    (entered Moment.effective v.trace).Perm (rows.map fun r => some r.invoiceId)

namespace Creation

variable {w : World} {l : Stage} {v : Visit}

/-- The swaps that a request leaves: one for its LM invoice if the BOLT11 invoice was created. -/
theorem exists_rows (hR : Rows w l v.world) (hl : l.unstored = false) :
    ∃ rows : List SwapMapping, rows.Nodup ∧ (∀ r, r ∈ rows ↔ LeftPending w v.world r) ∧
      (rows.map fun r => some r.invoiceId) = if l.hasInvoice then l.entered else [] := by
  -- a request that has stored nothing has left no new swap
  have hnone : (∀ k, v.world.swap k = w.swap k) → ∀ r, r ∈ [] ↔ LeftPending w v.world r := by
    refine fun hsame r => iff_of_false List.not_mem_nil ?_
    rintro ⟨h, hnone, hsome, -⟩
    rw [hsame, hnone] at hsome
    cases hsome
  cases l with
  | idle | built | created => exact ⟨[], List.nodup_nil, hnone hR, rfl⟩
  | invoiced => cases hl
  | stored id h =>
    obtain ⟨hfree, ⟨r, hr, hst, hid⟩, hsame⟩ := hR
    refine ⟨[r], List.nodup_singleton r, fun r' => ?_, congrArg (fun x => [x]) hid⟩
    rw [List.mem_singleton]
    constructor
    · rintro rfl
      exact ⟨h, hfree, hr, hst⟩
    · rintro ⟨h', hfree', hr', -⟩
      by_cases hh : h' = h
      · subst hh
        exact Option.some.inj (hr'.symm.trans hr)
      · rw [hsame h' hh, hfree'] at hr'
        cases hr'

/-- Which swaps a request leaves is settled by its stage, so it is in step just when these are the LM
invoices that took effect. -/
theorem inStep_iff_perm (hR : Rows w l v.world) (hl : l.unstored = false) :
    InStep w v ↔
      (entered Moment.effective v.trace).Perm (if l.hasInvoice then l.entered else []) := by
  obtain ⟨rows, hnodup, hmem, hids⟩ := exists_rows hR hl
  constructor
  · rintro ⟨rows', hnodup', hmem', hperm⟩
    have hrows : rows'.Perm rows :=
      (List.perm_ext_iff_of_nodup hnodup' hnodup).2 fun r => (hmem' r).trans (hmem r).symm
    exact hids ▸ hperm.trans (hrows.map _)
  · exact fun hperm => ⟨rows, hnodup, hmem, hids ▸ hperm⟩

end Creation

section

variable {cfg : Config} {tid : ℕ} {ip : String} {req : SwapRequest} {w : World}
  {inputs : ℕ → Input} {v : Visit}

/-- A swap request, however it ends, leaves Cardano and the database in step exactly if no
CreateInvoice transaction of it took effect behind an error, and none was accepted or LDK has created
its BOLT11 invoice. -/
theorem swapRequest_in_step_iff
    (h : Visit.Ends tid (.handleSwapRequest ip req) (handleSwapRequest cfg ip req)
      (.start w inputs) v) :
    InStep w v ↔ (∀ m ∈ v.trace, m.hidden = false) ∧
      (entered Moment.accepted v.trace = [] ∨ v.trace.any Moment.invoices = true) := by
  obtain ⟨l, hR, hl⟩ := h.stage (Creation.follows_handleSwapRequest ip req)
    Creation.requesting_start (fun _ _ _ _ _ _ hl hm hv => Creation.requesting_move hl hm hv)
    (fun _ _ hl => hl) fun _ _ _ _ hm ho => Creation.stored_of_awaited hm ho
  rw [Creation.inStep_iff_perm hR.rows hl, hR.shape.invoices]
  have haccepted := hR.shape.entered
  constructor
  · intro hperm
    -- there are as many effective submissions as rows, and at most one row for each accepted one
    have hlen := hperm.length_eq
    rw [length_entered, countP_effective, ← length_entered, haccepted] at hlen
    rw [← countP_hidden_eq_zero_iff, haccepted, ← List.length_eq_zero_iff]
    split_ifs at hlen with hinvoice
    · exact ⟨by omega, Or.inr hinvoice⟩
    · rw [List.length_nil] at hlen
      exact ⟨by omega, Or.inl (by omega)⟩
  · rintro ⟨hhidden, hcase⟩
    rw [entered_effective_of_not_hidden hhidden, haccepted]
    rw [haccepted] at hcase
    split_ifs with hinvoice
    · exact .refl _
    · rw [hcase.resolve_right hinvoice]

end

/-- The request of the first swap of the devnet, while the outside answers `a` to everything. -/
def devnetRequest (a : Answers) : Option (Except ApiError SwapResponse) × Visit :=
  (handleSwapRequest Devnet.config "127.0.0.1" ⟨50, Devnet.userAddress⟩).exec
    (Visit.act 3 (.handleSwapRequest "127.0.0.1" ⟨50, Devnet.userAddress⟩))
    (.start Devnet.fresh fun _ => ⟨a, 0, false⟩)

set_option maxRecDepth 100000 in
/-- A request that is answered well leaves the LM invoice and the row. -/
theorem swapRequest_in_step_iff_answered :
    entered Moment.effective (devnetRequest Devnet.ok).2.trace = [some 1] ∧
    InStep Devnet.fresh (devnetRequest Devnet.ok).2 := by
  have hends := Visit.ends_of_exec (p := handleSwapRequest Devnet.config _ _)
    (show (devnetRequest Devnet.ok).1.isSome = true by decide +kernel)
  refine ⟨by decide +kernel, (swapRequest_in_step_iff hends).2 ⟨?_, Or.inr ?_⟩⟩
  · show ∀ m ∈ (devnetRequest Devnet.ok).2.trace, m.hidden = false
    decide +kernel
  · show (devnetRequest Devnet.ok).2.trace.any Moment.invoices = true
    decide +kernel

/-- Answers under which LDK creates no invoice. -/
def withoutInvoice : Answers where
  operator := Devnet.ok.operator
  ldk c :=
    match c with
    | .createBolt11Invoice _ _ _ => .error "InvalidAmount"
    | c => Devnet.ok.ldk c

set_option maxRecDepth 100000 in
/-- The request ends with an error response when LDK creates no invoice; its LM invoice was accepted,
and there is no row. -/
theorem devnet_invoice_without_row : ∃ v, Visit.Ends 3
      (.handleSwapRequest "127.0.0.1" ⟨50, Devnet.userAddress⟩)
      (handleSwapRequest Devnet.config "127.0.0.1" ⟨50, Devnet.userAddress⟩)
      (.start Devnet.fresh fun _ => ⟨withoutInvoice, 0, false⟩) v ∧
    entered Moment.effective v.trace = [some 1] ∧ v.world.db.swaps.rows = [] := by
  refine ⟨(devnetRequest withoutInvoice).2, Visit.ends_of_exec ?_, ?_, ?_⟩
  · show (devnetRequest withoutInvoice).1.isSome = true
    decide +kernel
  · decide +kernel
  · decide +kernel

end LightningRelay
