import LightningRelay.Visit

/-!
# Calls that create an entry

`request_swap` and `request_offramp` create an entry on Cardano and `cardano_withdraw` moves cBTC out
of the pool, each by building and submitting a transaction up to three times.  `Stage` is how far
such a call has come and `Move` what it may do next; `Shape` is what the trace of the call looks like.
-/

set_option autoImplicit false

namespace LightningRelay

open Async

/-! ## What has happened -/

/-- Transactions that create an entry or pay cBTC out. -/
def TxKind.enters : TxKind → Bool
  | .createInvoice | .createOfframp | .withdraw => true
  | _ => false

/-- Calls of the database that write. -/
def DbCall.writes : DbCall → Bool
  | .insert _ | .updateStatus _ _ _ | .transitionStatus _ _ _ _ | .insertOfframp _
  | .updateOfframpStatus _ _ _ _ _ | .transitionOfframpStatus _ _ _
  | .transitionOfframpWithCbtcTx _ _ _ _ => true
  | _ => false

/-- The operations that the creation of an entry consists of. -/
def Op.enters : Op → Bool
  | .operator _ (.createInvoice _ _ _ _) | .operator _ (.createOfframp _ _ _ _)
  | .operator _ (.withdraw _) | .ldk (.createBolt11Invoice _ _ _) => true
  | .operator _ (.submitTx tx) => tx.kind.enters
  | .db c => c.writes
  | _ => false

namespace Moment

/-- The transaction that was built, by the id of the entry that it creates. -/
def builds? : Moment → Option (Option ℤ)
  | ⟨_, _, .operator _ (.createInvoice _ _ _ _), .ok (id, _)⟩
  | ⟨_, _, .operator _ (.createOfframp _ _ _ _), .ok (id, _)⟩ => some (some id)
  | ⟨_, _, .operator _ (.withdraw _), .ok _⟩ => some none
  | _ => none

/-- The submission of such a transaction. -/
def submits (m : Moment) : Bool :=
  match m.op with
  | .operator _ (.submitTx tx) => tx.kind.enters
  | _ => false

/-- A submission that was answered with the hash of the transaction. -/
def accepted : Moment → Bool
  | ⟨_, _, .operator _ (.submitTx tx), .ok _⟩ => tx.kind.enters
  | _ => false

/-- A submission that was answered with the error that its transaction is already there, and was
accepted indeed. -/
def hidden : Moment → Bool
  | ⟨_, landed, .operator _ (.submitTx tx), .error e⟩ =>
    tx.kind.enters && contains e "already been included" && landed
  | _ => false

/-- A submission that took effect. -/
def effective (m : Moment) : Bool := m.accepted || m.hidden

/-- LDK created a BOLT11 invoice. -/
def invoices : Moment → Bool
  | ⟨_, _, .ldk (.createBolt11Invoice _ _ _), .ok _⟩ => true
  | _ => false

/-- The offramp that was stored. -/
def records? : Moment → Option ℤ
  | ⟨_, _, .db (.insertOfframp m), true⟩ => some m.offrampId
  | _ => none

end Moment

/-- The transaction that was built last. -/
def builtId : List Moment → Option ℤ
  | [] => none
  | m :: trace => m.builds?.getD (builtId trace)

/-- The entries of the submissions that satisfy `p`. -/
def entered (p : Moment → Bool) : List Moment → List (Option ℤ)
  | [] => []
  | m :: trace => if p m then builtId trace :: entered p trace else entered p trace

theorem length_entered (p : Moment → Bool) (trace : List Moment) :
    (entered p trace).length = trace.countP p := by
  induction trace with
  | nil => rfl
  | cons m trace ih => by_cases h : p m <;> simp [entered, h, ih]

theorem entered_eq_nil_iff {p : Moment → Bool} {trace : List Moment} :
    entered p trace = [] ↔ ∀ m ∈ trace, p m = false := by
  rw [← List.length_eq_zero_iff, length_entered, List.countP_eq_zero]
  simp only [Bool.not_eq_true]

theorem entered_cons {p : Moment → Bool} {m : Moment} {trace : List Moment} (h : p m = false) :
    entered p (m :: trace) = entered p trace := by
  rw [entered, h]
  rfl

/-- Submissions that satisfy more are the fewer. -/
theorem entered_subset {p q : Moment → Bool} (h : ∀ m, p m = true → q m = true)
    (trace : List Moment) : entered p trace ⊆ entered q trace := by
  induction trace with
  | nil => exact List.Subset.refl _
  | cons m trace ih =>
    unfold entered
    split_ifs with hp hq hq
    · exact List.cons_subset_cons _ ih
    · exact absurd (h m hp) hq
    · exact List.subset_cons_of_subset _ ih
    · exact ih

theorem not_accepted_and_hidden (m : Moment) : (m.accepted && m.hidden) = false := by
  unfold Moment.accepted
  split
  · exact Bool.and_false _
  · rfl

theorem countP_effective (trace : List Moment) :
    trace.countP Moment.effective = trace.countP Moment.accepted + trace.countP Moment.hidden := by
  induction trace with
  | nil => rfl
  | cons m trace ih =>
    have hm := not_accepted_and_hidden m
    rw [List.countP_cons, List.countP_cons, List.countP_cons, ih, Moment.effective]
    cases ha : m.accepted <;> cases hh : m.hidden <;> simp_all <;> omega

theorem countP_hidden_eq_zero_iff {trace : List Moment} :
    trace.countP Moment.hidden = 0 ↔ ∀ m ∈ trace, m.hidden = false := by
  simp only [List.countP_eq_zero, Bool.not_eq_true]

/-- Where nothing took effect behind an error, what took effect was answered well. -/
theorem entered_effective_of_not_hidden {trace : List Moment} (h : ∀ m ∈ trace, m.hidden = false) :
    entered Moment.effective trace = entered Moment.accepted trace := by
  induction trace with
  | nil => rfl
  | cons m trace ih =>
    obtain ⟨hm, htrace⟩ := List.forall_mem_cons.1 h
    rw [entered, entered, ih htrace, Moment.effective, hm, Bool.or_false]

/-! ## The protocol -/

namespace Creation

/-- How far a call has come: no transaction is waiting to be submitted; one is; one was accepted; the
swap's BOLT11 invoice exists; the swap is stored. -/
inductive Stage where
  | idle
  | built (id : Option ℤ)
  | created (id : Option ℤ)
  | invoiced (id : Option ℤ) (paymentHash : String)
  | stored (id : Option ℤ) (paymentHash : String)

namespace Stage

/-- The entry of the transaction at hand. -/
def id? : Stage → Option (Option ℤ)
  | .idle => none
  | .built id | .created id | .invoiced id _ | .stored id _ => some id

/-- The entries that were created. -/
def entered : Stage → List (Option ℤ)
  | .idle | .built _ => []
  | .created id | .invoiced id _ | .stored id _ => [id]

/-- The swap's BOLT11 invoice exists. -/
def hasInvoice : Stage → Bool
  | .invoiced _ _ | .stored _ _ => true
  | _ => false

/-- The BOLT11 invoice exists and the swap is not stored. -/
def unstored : Stage → Bool
  | .invoiced _ _ => true
  | _ => false

end Stage

/-- The operations of a call that submits transactions of one kind. -/
inductive Move : TxKind → Stage → (o : Op) → o.Resp → Stage → Prop where
  | quiet {k : TxKind} {l : Stage} {o : Op} {r : o.Resp} : o.enters = false →
      (l.unstored = true → o.awaited = false) → Move k l o r l
  -- one attempt
  | buildInvoice {amount t e id : ℤ} {pkh hex : String} :
      Move .createInvoice .idle (.operator .pool (.createInvoice amount pkh t e)) (.ok (id, hex))
        (.built (some id))
  | buildOfframp {amount e id : ℤ} {h a hex : String} :
      Move .createOfframp .idle (.operator .pool (.createOfframp amount h a e)) (.ok (id, hex))
        (.built (some id))
  | buildWithdraw {amount : ℤ} {hex : String} :
      Move .withdraw .idle (.operator .pool (.withdraw amount)) (.ok hex) (.built none)
  | unbuilt {k : TxKind} {c : OperatorCall} {e : CardanoError} :
      Move k .idle (.operator .pool c) (.error e) .idle
  | accepted {k : TxKind} {id : Option ℤ} {hex tx : String} :
      Move k (.built id) (.operator .pool (.submitTx ⟨k, hex⟩)) (.ok tx) (.created id)
  | refused {k : TxKind} {id : Option ℤ} {hex : String} {e : CardanoError} :
      Move k (.built id) (.operator .pool (.submitTx ⟨k, hex⟩)) (.error e) .idle
  -- the rest of a swap request
  | invoice {id : Option ℤ} {amt n : ℕ} {d : String} {invoice : Bolt11Invoice} :
      Move .createInvoice (.created id) (.ldk (.createBolt11Invoice amt d n)) (.ok invoice)
        (.invoiced id invoice.paymentHash)
  | uninvoiced {id : Option ℤ} {amt n : ℕ} {d e : String} :
      Move .createInvoice (.created id) (.ldk (.createBolt11Invoice amt d n)) (.error e)
        (.created id)
  | store {m : SwapMapping} {id : ℤ} {h : String} : m.status = .pending → m.invoiceId = id →
      m.paymentHash = h →
      Move .createInvoice (.invoiced (some id) h) (.db (.insert m)) true (.stored (some id) h)
  | duplicate {m : SwapMapping} {id : Option ℤ} {h : String} :
      Move .createInvoice (.invoiced id h) (.db (.insert m)) false (.invoiced id h)
  -- the rest of an offramp request
  | record {m : OfframpMapping} {id : ℤ} {b : Bool} : m.offrampId = id →
      Move .createOfframp (.created (some id)) (.db (.insertOfframp m)) b (.created (some id))

section

variable {k : TxKind} {l : Stage} {cfg : Config}

/-- An entry was created, and it is the one that the call returns. -/
def Made {α : Type} (id : α → Option ℤ) (a : α) (l : Stage) : Prop := l = .created (id a)

theorem move_sleep (l : Stage) (n : ℕ) (r : (Op.sleep n).Resp) (hl : l = .idle) :
    ∃ l', Move k l (.sleep n) r l' ∧ l' = .idle :=
  ⟨l, .quiet rfl (by rw [hl]; exact nofun), hl⟩

theorem follows_requestSwap (amount : ℤ) (address : String) (expiryMs : ℤ) :
    Follows (Move .createInvoice) (Attempted (Made fun x => some x.1) (· = .idle))
      (requestSwap cfg amount address expiryMs) .idle := by
  unfold requestSwap
  dsimp only
  rcases validateAddress cfg address _ with e | pkh
  · exact rfl
  refine follows_stay (fun _ => .quiet rfl nofun) fun now => ?_
  refine (follows_submitContractTxWithRetry' (Q := Made fun x => some x.1) move_sleep ?_ rfl).bind ?_
  · rintro _ rfl
    refine follows_perform ?_
    rintro (e | ⟨id, tx⟩)
    · exact ⟨_, .unbuilt, rfl⟩
    refine ⟨_, .buildInvoice, follows_perform ?_⟩
    rintro (e | hash)
    · exact ⟨_, .refused, rfl⟩
    · exact ⟨_, .accepted, rfl⟩
  · rintro (e | ⟨id, hash⟩) l hl <;> exact hl

theorem follows_createOfframpTx (amount : ℤ) (h pkh : String) (expiresAt : ℤ) :
    Follows (Move .createOfframp) (Attempted (Made fun x => some x.1) (· = .idle))
      (createOfframpTx amount h pkh expiresAt) .idle := by
  refine follows_submitContractTxWithRetry' move_sleep ?_ rfl
  rintro _ rfl
  refine follows_perform ?_
  rintro (e | ⟨id, tx⟩)
  · exact ⟨_, .unbuilt, rfl⟩
  refine ⟨_, .buildOfframp, follows_perform ?_⟩
  rintro (e | hash)
  · exact ⟨_, .refused, rfl⟩
  · exact ⟨_, .accepted, rfl⟩

theorem follows_requestOfframp (bolt11 : String) (amount : ℤ) (address : String) (expiryMs : ℤ) :
    Follows (Move .createOfframp) (Attempted (Made fun x => some x.1) (· = .idle))
      (requestOfframp cfg bolt11 amount address expiryMs) .idle := by
  unfold requestOfframp
  rcases cfg.bolt11FromStr bolt11 with e | invoice
  · exact rfl
  refine follows_stay (fun _ => .quiet rfl nofun) ?_
  rintro (_ | existing)
  swap
  · exact rfl
  dsimp only
  split_ifs
  · exact rfl
  rcases cbtcToMsat amount with _ | amt
  · exact rfl
  dsimp only
  rcases mismatch? invoice amt with _ | invAmt
  swap
  · exact rfl
  dsimp only
  rcases addressToPkh cfg address with e | pkh
  · exact rfl
  refine follows_stay (fun _ => .quiet rfl nofun) fun now => ?_
  refine (follows_createOfframpTx _ _ _ _).bind ?_
  rintro (e | ⟨id, hash⟩) l hl
  · exact hl
  obtain rfl : l = .created (some id) := hl
  refine follows_perform fun b => ⟨_, .record rfl, ?_⟩
  rcases b with _ | _
  · exact nofun
  · exact rfl

theorem follows_cardanoWithdraw (amount : ℤ) :
    Follows (Move .withdraw) (fun _ l => l = .idle ∨ l = .created none) (cardanoWithdraw amount)
      .idle := by
  refine (follows_submitContractTxWithRetry' (Q := Made fun _ => none) move_sleep ?_ rfl).bind ?_
  · rintro _ rfl
    refine follows_perform ?_
    rintro (e | hex)
    · exact ⟨_, .unbuilt, rfl⟩
    refine ⟨_, .buildWithdraw, follows_last ?_⟩
    rintro (e | hash)
    · exact ⟨_, .refused, rfl⟩
    · exact ⟨_, .accepted, rfl⟩
  · rintro (e | hash) l hl
    · exact Or.inl hl
    · exact Or.inr hl

/-- A swap request does not end between the creation of its BOLT11 invoice and the insertion of its
row. -/
theorem follows_handleSwapRequest (ip : String) (req : SwapRequest) :
    Follows (Move .createInvoice) (fun _ l => l.unstored = false) (handleSwapRequest cfg ip req)
      .idle := by
  refine follows_stay (fun _ => .quiet rfl nofun) fun allowed => ?_
  split_ifs
  · exact rfl
  · exact rfl
  · exact rfl
  refine follows_stay (fun _ => .quiet rfl nofun) fun active => ?_
  split_ifs
  · exact rfl
  refine follows_stay (fun _ => .quiet rfl nofun) fun pool => ?_
  rcases insufficient req.amountCbtc pool with _ | available
  swap
  · exact rfl
  refine (follows_requestSwap _ _ _).bind ?_
  rintro (e | ⟨id, description, hash⟩) l hl
  · obtain rfl : l = .idle := hl
    exact rfl
  obtain rfl : l = .created (some id) := hl
  have hinvoice : Follows (Move .createInvoice) (fun r l => match r with
      | none => l = .created (some id)
      | some x => l = .invoiced (some id) x.2)
      (createInvoiceForSwap req.amountCbtc description
        (cfg.swapExpiryMs.tdiv 1000 % 2 ^ 32).toNat) (.created (some id)) := by
    unfold createInvoiceForSwap
    rcases cbtcToMsat req.amountCbtc with _ | amt
    · exact rfl
    dsimp only
    split_ifs
    · exact nofun
    refine follows_perform ?_
    rintro (e | invoice)
    · exact ⟨_, .uninvoiced, rfl⟩
    · exact ⟨_, .invoice, follows_stay (fun _ => .quiet rfl fun _ => rfl) fun _ => rfl⟩
  refine hinvoice.bind ?_
  rintro (_ | ⟨bolt11, h⟩) l hl
  · obtain rfl : l = .created (some id) := hl
    exact rfl
  obtain rfl : l = .invoiced (some id) h := hl
  refine follows_stay (fun _ => .quiet rfl fun _ => rfl) fun now => ?_
  refine follows_stay (fun _ => .quiet rfl fun _ => rfl) fun createdAt => follows_perform ?_
  rintro (_ | _)
  · exact ⟨_, .duplicate, nofun⟩
  · exact ⟨_, .store rfl rfl rfl, rfl⟩

end

/-! ## The trace -/

/-- What the trace of a call looks like: after an accepted submission there is no other one. -/
structure Shape (k : TxKind) (l : Stage) (trace : List Moment) : Prop where
  ordered : trace.Pairwise fun later earlier => earlier.accepted = true → later.submits = false
  entered : entered Moment.accepted trace = l.entered
  built : ∀ id, l = .built id → builtId trace = id
  invoices : trace.any Moment.invoices = l.hasInvoice
  numbered : k ≠ .withdraw → ∀ id, l.id? = some id → id ≠ none
  recorded : ∀ m ∈ trace, ∀ id, m.records? = some id → l.entered = [some id]

section

variable {k : TxKind} {l l' : Stage} {o : Op} {r : o.Resp} {t : ℤ} {landed : Bool}
  {trace : List Moment}

theorem submits_of_not_enters {m : Moment} (h : m.op.enters = false) : m.submits = false := by
  rcases m with ⟨t, landed, o, r⟩
  cases o with
  | operator about c =>
    cases c with
    | submitTx tx => exact h
    | _ => rfl
  | _ => rfl

theorem accepted_of_not_submits {m : Moment} (h : m.submits = false) : m.accepted = false := by
  unfold Moment.accepted
  split
  · exact h
  · rfl

theorem accepted_error {c : OperatorCall} {about : About} {e : CardanoError} :
    (⟨t, landed, .operator about c, .error e⟩ : Moment).accepted = false := by
  cases c <;> rfl

theorem hidden_of_not_submits {m : Moment} (h : m.submits = false) : m.hidden = false := by
  unfold Moment.hidden
  split
  next tx e =>
    have hkind : tx.kind.enters = false := h
    rw [hkind]
    rfl
  next => rfl

theorem builds?_of_not_enters {m : Moment} (h : m.op.enters = false) : m.builds? = none := by
  unfold Moment.builds?
  split <;> first | cases h | rfl

theorem records?_of_not_enters {m : Moment} (h : m.op.enters = false) : m.records? = none := by
  unfold Moment.records?
  split <;> first | cases h | rfl

theorem invoices_of_not_enters {m : Moment} (h : m.op.enters = false) : m.invoices = false := by
  unfold Moment.invoices
  split <;> first | cases h | rfl

/-- A moment that submits nothing leaves the entries as they are. -/
theorem Shape.cons {m : Moment} (h : Shape k l trace) (hs : m.submits = false)
    (hl : l'.entered = l.entered) (hb : ∀ id, l' = .built id → builtId (m :: trace) = id)
    (hi : (m.invoices || l.hasInvoice) = l'.hasInvoice)
    (hn : k ≠ .withdraw → ∀ id, l'.id? = some id → id ≠ none)
    (hr : ∀ id, m.records? = some id → l.entered = [some id]) : Shape k l' (m :: trace) where
  ordered := List.pairwise_cons.2 ⟨fun _ _ _ => hs, h.ordered⟩
  entered := by rw [entered_cons (accepted_of_not_submits hs), h.entered, hl]
  built := hb
  invoices := by rw [List.any_cons, h.invoices, hi]
  numbered := hn
  recorded := by
    rw [hl]
    exact List.forall_mem_cons.2 ⟨hr, h.recorded⟩

/-- An answer of the operator to a call that has created nothing yet. -/
theorem Shape.answer {c : OperatorCall} {about : About} {r : Except CardanoError c.Val}
    (h : Shape k l trace) (hl : l.entered = []) (hi : l.hasInvoice = l'.hasInvoice)
    (he : LightningRelay.entered Moment.accepted (⟨t, landed, .operator about c, r⟩ :: trace) =
      l'.entered) (hb : ∀ id, l' ≠ .built id)
    (hn : k ≠ .withdraw → ∀ id, l'.id? = some id → id ≠ none) :
    Shape k l' (⟨t, landed, .operator about c, r⟩ :: trace) where
  ordered := by
    refine List.pairwise_cons.2 ⟨fun e he hacc => ?_, h.ordered⟩
    rw [entered_eq_nil_iff.1 (h.entered.trans hl) e he] at hacc
    cases hacc
  entered := he
  built id hid := absurd hid (hb id)
  invoices := h.invoices.trans hi
  numbered := hn
  recorded := by
    refine List.forall_mem_cons.2 ⟨nofun, fun m hm id hid => ?_⟩
    have hnil := h.recorded m hm id hid
    rw [hl] at hnil
    cases hnil

theorem shape_move (hk : k.enters = true) (hm : Move k l o r l') (h : Shape k l trace) :
    Shape k l' (⟨t, landed, o, r⟩ :: trace) := by
  have hnum := h.numbered
  cases hm with
  | quiet ho _ =>
    refine h.cons (submits_of_not_enters ho) rfl (fun id hid => ?_) ?_ hnum fun id hid => ?_
    · rw [builtId, builds?_of_not_enters ho]
      exact h.built id hid
    · rw [invoices_of_not_enters ho, Bool.false_or]
    · rw [records?_of_not_enters ho] at hid
      cases hid
  | buildInvoice | buildOfframp =>
    refine h.cons rfl rfl (fun id hid => Stage.built.inj hid) rfl (fun _ id hid => ?_) nofun
    exact Option.some.inj hid ▸ nofun
  | buildWithdraw =>
    exact h.cons rfl rfl (fun id hid => Stage.built.inj hid) rfl (fun hne => absurd rfl hne) nofun
  | unbuilt | refused =>
    exact h.answer rfl rfl ((entered_cons accepted_error).trans h.entered) nofun fun _ _ => nofun
  | @accepted _ id hex tx =>
    have hacc : (⟨t, landed, .operator .pool (.submitTx ⟨k, hex⟩), .ok tx⟩ : Moment).accepted =
      true := hk
    refine h.answer rfl rfl ?_ nofun hnum
    rw [LightningRelay.entered, if_pos hacc, h.built id rfl, h.entered]
    rfl
  | invoice | uninvoiced | store | duplicate => exact h.cons rfl rfl nofun rfl hnum nofun
  | @record m id b hid =>
    refine h.cons rfl rfl nofun rfl hnum fun id' hid' => ?_
    rcases b with _ | _
    · cases hid'
    · rw [← Option.some.inj hid', hid]
      rfl

theorem shape_start : Shape k .idle [] :=
  ⟨List.Pairwise.nil, rfl, nofun, rfl, fun _ _ => nofun, fun _ hm => absurd hm List.not_mem_nil⟩

end

end Creation

end LightningRelay
