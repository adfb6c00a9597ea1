import LightningRelay.Payout.Protocol

/-!
# What a move does to a row

`RowMove` says how the row of one offramp may change when a task makes a move of the protocol:
which task, in which stage, writes which status over which.  `rowMove` derives it from the table's
statements once, and the invariants of the offramps are proved from it.
-/

set_option autoImplicit false

namespace LightningRelay

open Async

namespace Payout

/-- The columns that no statement changes after the row is inserted. -/
structure Same (r r' : OfframpMapping) : Prop where
  offrampId : r.offrampId = r'.offrampId
  bolt11 : r.bolt11 = r'.bolt11
  paymentHash : r.paymentHash = r'.paymentHash
  amountCbtc : r.amountCbtc = r'.amountCbtc
  refundAddress : r.refundAddress = r'.refundAddress
  expiresAt : r.expiresAt = r'.expiresAt

theorem Same.refl (r : OfframpMapping) : Same r r := ⟨rfl, rfl, rfl, rfl, rfl, rfl⟩

theorem Same.trans {r₁ r₂ r₃ : OfframpMapping} (h : Same r₁ r₂) (h' : Same r₂ r₃) : Same r₁ r₃ :=
  ⟨h.1.trans h'.1, h.2.trans h'.2, h.3.trans h'.3, h.4.trans h'.4, h.5.trans h'.5,
    h.6.trans h'.6⟩

/-- No operation deletes a row or changes these columns. -/
theorem offramp_same {tid : ℕ} {c : Call} {o : Op} {r : o.Resp} {w w' : World} {sp : Option Call}
    (he : Effect tid c o r w w' sp) {k : ℤ} {x : OfframpMapping} (hx : w.offramp k = some x) :
    ∃ y, w'.offramp k = some y ∧ Same y x := by
  obtain ⟨y, hy, rfl | ⟨st, p, d, e, -, rfl⟩ | ⟨n, -, rfl⟩ | ⟨tx, n, -, rfl⟩⟩ := he.offramp_cases hx
  · exact ⟨y, hy, .refl y⟩
  · exact ⟨_, hy, ⟨rfl, rfl, rfl, rfl, rfl, rfl⟩⟩
  · exact ⟨_, hy, ⟨rfl, rfl, rfl, rfl, rfl, rfl⟩⟩
  · exact ⟨_, hy, ⟨rfl, rfl, rfl, rfl, rfl, rfl⟩⟩

/-- The status writes on offramp `k` that keep the deposit's hash: by which task, in which stage and
with which stage after it, from which status to which. -/
inductive Writes (k : ℤ) : Call → Stage → Stage → OfframpStatus → OfframpStatus → Prop where
  | fail {c : Call} {l : Stage} {st : OfframpStatus} : Writes k c l l st .failed
  | claim {ip tx : String} {m : OfframpMapping} :
      Writes k (.handleOfframpDeposit ip ⟨k, tx⟩) (.free m) (.verifying m) .awaitingDeposit
        .pendingVerification
  | revert {ip tx : String} {m : OfframpMapping} {st : OfframpStatus} :
      Writes k (.handleOfframpDeposit ip ⟨k, tx⟩) (.verifying m) .idle st .awaitingDeposit
  | take {h p : String} {m : OfframpMapping} : m.offrampId = k →
      Writes k (.completeOfframp h p) (.found m) (.owns m) .payingLightning .depositingToPool
  | advance {h p : String} {m : OfframpMapping} {st st' : OfframpStatus} : m.offrampId = k →
      st' = .depositingToPool ∨ st' = .completed →
      Writes k (.completeOfframp h p) (.owns m) (.owns m) st st'
  | reset {rows : List OfframpMapping} :
      Writes k .startLdk (.booting rows) (.booting rows) .pendingVerification .awaitingDeposit
  | finish {rows : List OfframpMapping} {m : OfframpMapping} {st : OfframpStatus} : m ∈ rows →
      m.offrampId = k → Writes k .startLdk (.booting rows) (.booting rows) st .completed

/-- How the row of offramp `k` changes in one move, by the operation `o`. -/
inductive RowMove (cfg : Config) (k : ℤ) (o : Op) :
    Call → Stage → Stage → Option OfframpMapping → Option OfframpMapping → Prop where
  | same {c : Call} {l l' : Stage} {row : Option OfframpMapping} : RowMove cfg k o c l l' row row
  | insert {c : Call} {l l' : Stage} {m r : OfframpMapping} : o = .db (.insertOfframp m) →
      Same r m → Requested cfg r → RowMove cfg k o c l l' none (some r)
  | write {c : Call} {l l' : Stage} {r r' : OfframpMapping} : Same r' r →
      r'.cbtcTxHash = r.cbtcTxHash → Writes k c l l' r.status r'.status →
      RowMove cfg k o c l l' (some r) (some r')
  | record {ip tx : String} {m r r' : OfframpMapping} {l' : Stage} :
      l' = .paying m ∨ l' = .idle ∧ invoiceOf cfg m = none → Same r' r →
      r.status = .pendingVerification → r'.cbtcTxHash = tx → r'.status = .payingLightning →
      RowMove cfg k o (.handleOfframpDeposit ip ⟨k, tx⟩) (.verified m) l' (some r) (some r')

section

variable {cfg : Config} {k : ℤ} {o : Op} {c : Call} {l l' : Stage}

theorem rowMove_coalesce {id : ℤ} {st : OfframpStatus} {p d e : Option String}
    (h : ∀ st₀, k = id → Writes k c l l' st₀ st) (row : Option OfframpMapping) :
    RowMove cfg k o c l l' row ((DbCall.updateOfframpStatus id st p d e).onOfframp k row) := by
  simp only [DbCall.onOfframp]
  split_ifs with hk
  · cases row with
    | none => exact .same
    | some r => exact .write ⟨rfl, rfl, rfl, rfl, rfl, rfl⟩ rfl (h _ hk)
  · exact .same

theorem rowMove_moved {id : ℤ} {e n : OfframpStatus} (h : k = id → Writes k c l l' e n)
    (row : Option OfframpMapping) :
    RowMove cfg k o c l l' row ((DbCall.transitionOfframpStatus id e n).onOfframp k row) := by
  simp only [DbCall.onOfframp]
  split_ifs with hk
  · cases row with
    | none => exact .same
    | some r =>
      simp only [Option.map_some, OfframpMapping.moved]
      split_ifs with hst
      · refine .write ⟨rfl, rfl, rfl, rfl, rfl, rfl⟩ rfl ?_
        rw [hst]
        exact h hk
      · exact .same
  · exact .same

/-- A lost guarded update changes nothing. -/
theorem onOfframp_of_not_moved {id : ℤ} {e n : OfframpStatus} {row : Option OfframpMapping}
    (h : k = id → ∀ r, row = some r → r.status ≠ e) :
    (DbCall.transitionOfframpStatus id e n).onOfframp k row = row := by
  simp only [DbCall.onOfframp]
  split_ifs with hk
  · cases row with
    | none => rfl
    | some r => simp only [Option.map_some, OfframpMapping.moved, if_neg (h hk r rfl)]
  · rfl

theorem onOfframp_of_not_recorded {id : ℤ} {tx : String} {e n : OfframpStatus}
    {row : Option OfframpMapping} (h : k = id → ∀ r, row = some r → r.status ≠ e) :
    (DbCall.transitionOfframpWithCbtcTx id tx e n).onOfframp k row = row := by
  simp only [DbCall.onOfframp]
  split_ifs with hk
  · cases row with
    | none => rfl
    | some r => simp only [Option.map_some, OfframpMapping.recorded, if_neg (h hk r rfl)]
  · rfl

theorem rowMove_recorded {ip tx : String} {id : ℤ} {m : OfframpMapping}
    (h : l' = .paying m ∨ l' = .idle ∧ invoiceOf cfg m = none) (row : Option OfframpMapping) :
    RowMove cfg k o (.handleOfframpDeposit ip ⟨id, tx⟩) (.verified m) l' row
      ((DbCall.transitionOfframpWithCbtcTx id tx .pendingVerification .payingLightning).onOfframp k
        row) := by
  simp only [DbCall.onOfframp]
  split_ifs with hk
  · subst hk
    cases row with
    | none => exact .same
    | some r =>
      simp only [Option.map_some, OfframpMapping.recorded]
      split_ifs with hst
      · exact .record h ⟨rfl, rfl, rfl, rfl, rfl, rfl⟩ hst rfl rfl
      · exact .same
  · exact .same

/-- Operations that the protocol does not regulate leave the offramps alone. -/
theorem onOfframp_of_not_regulated (h : o.regulated = false)
    (row : Option OfframpMapping) : o.onOfframp k row = row := by
  cases o with
  | db c => cases c <;> first | rfl | cases h
  | _ => rfl

variable {tid : ℕ} {r : o.Resp} {w w' : World} {sp : Option Call}

/-- Every move is one of the row's moves. -/
theorem rowMove (he : Effect tid c o r w w' sp) (hm : Move cfg c l o r l') (k : ℤ) :
    RowMove cfg k o c l l' (w.offramp k) (w'.offramp k) := by
  have hans := he.answered
  rw [he.offramp k]
  cases hm with
  | quiet h =>
    rw [onOfframp_of_not_regulated h]
    exact .same
  | fail => exact rowMove_coalesce (fun _ _ => .fail) _
  | @request _ _ _ m _ h =>
    simp only [Op.onOfframp, DbCall.onOfframp]
    split_ifs with hk
    · rcases w.offramp k with _ | x
      · exact .insert rfl ⟨rfl, rfl, rfl, rfl, rfl, rfl⟩
          ⟨h.status, h.cbtcTxHash, h.invoice, h.refundAddress⟩
      · exact .same
    · exact .same
  | claim =>
    refine rowMove_moved (fun hk => ?_) _
    subst hk
    exact .claim
  | missed =>
    have hno : ¬ ∃ x, w.offramp _ = some x ∧ x.status = .awaitingDeposit := fun hx =>
      Bool.false_ne_true (hans.trans (SwapDb.transitionOfframpStatus_fst_iff.2 hx))
    rw [Op.onOfframp, onOfframp_of_not_moved]
    · exact .same
    · rintro rfl x hx hst
      exact hno ⟨x, hx, hst⟩
  | revert =>
    refine rowMove_coalesce (fun _ hk => ?_) _
    subst hk
    exact .revert
  | record => exact rowMove_recorded (Or.inl rfl) _
  | unpayable h => exact rowMove_recorded (Or.inr ⟨rfl, h⟩) _
  | overtaken =>
    have hno : ¬ ∃ x, w.offramp _ = some x ∧ x.status = .pendingVerification := fun hx =>
      Bool.false_ne_true (hans.trans (SwapDb.transitionOfframpWithCbtcTx_fst_iff.2 hx))
    rw [Op.onOfframp, onOfframp_of_not_recorded]
    · exact .same
    · rintro rfl x hx hst
      exact hno ⟨x, hx, hst⟩
  | take => exact rowMove_moved (fun hk => .take hk.symm) _
  | @notTaken _ _ m =>
    have hno : ¬ ∃ x, w.offramp m.offrampId = some x ∧ x.status = .payingLightning := fun hx =>
      Bool.false_ne_true (hans.trans (SwapDb.transitionOfframpStatus_fst_iff.2 hx))
    rw [Op.onOfframp, onOfframp_of_not_moved]
    · exact .same
    · rintro rfl x hx hst
      exact hno ⟨x, hx, hst⟩
  | advance hst => exact rowMove_coalesce (fun _ hk => .advance hk.symm hst) _
  | reset => exact rowMove_moved (fun _ => .reset) _
  | failPaying => exact rowMove_moved (fun _ => .fail) _
  | finish hmem => exact rowMove_coalesce (fun _ hk => .finish hmem hk.symm) _
  | _ => exact .same

/-- A row was there before, or it has just been requested. -/
theorem offramp_origin (he : Effect tid c o r w w' sp) (hm : Move cfg c l o r l')
    {y : OfframpMapping} (hy : w'.offramp k = some y) :
    (∃ x, w.offramp k = some x ∧ Same y x) ∨
      w.offramp k = none ∧ (∃ m, o = .db (.insertOfframp m) ∧ Same y m) ∧ Requested cfg y := by
  have hrow := rowMove he hm k
  rw [hy] at hrow
  generalize w.offramp k = x at hrow
  cases hrow with
  | same => exact Or.inl ⟨y, rfl, .refl y⟩
  | insert ho hs hreq => exact Or.inr ⟨rfl, ⟨_, ho, hs⟩, hreq⟩
  | write hs => exact Or.inl ⟨_, rfl, hs⟩
  | record _ hs => exact Or.inl ⟨_, rfl, hs⟩

end

end Payout

end LightningRelay
