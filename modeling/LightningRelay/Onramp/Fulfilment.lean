import LightningRelay.Devnet
import LightningRelay.Onramp.Protocol

/-!
# Fulfilling and cancelling swaps

A swap leaves Pending for good: `fulfill_swap` wins it by the guarded transition to Fulfilling, or
the monitor expires it.  The monitor selects only Pending swaps that have expired, and `fulfill_swap`
looks at the expiry after it has won its swap.

* `fulfilled_at_most_once`: a swap is won once, the calls of `fulfill_invoice` by `fulfill_swap` are
  all made by the winner, and the winner found the swap Pending when it started.
* `fulfilled_or_cancelled`: no swap has both a CancelInvoice transaction by the monitor and a call of
  `fulfill_invoice` by `fulfill_swap`, in any run.
-/

set_option autoImplicit false

namespace LightningRelay

open Async

namespace Entry

/-- The swap that was moved from Pending to Fulfilling. -/
def wins? : Entry → Option String
  | ⟨_, _, .db (.transitionStatus h .pending .fulfilling _), true⟩ => some h
  | _ => none

/-- The swap for which a `fulfill_swap` called `fulfill_invoice`. -/
def fulfils? : Entry → Option String
  | ⟨_, .fulfillSwap _, .operator (.swap h) (.fulfillInvoice _ _), _⟩ => some h
  | _ => none

/-- The row that a `fulfill_swap` started on. -/
def reads? : Entry → Option SwapMapping
  | ⟨_, .fulfillSwap _, .db (.getByPaymentHash _), some m⟩ => some m
  | _ => none

/-- The swap for which the monitor submitted a CancelInvoice transaction. -/
def withdraws? : Entry → Option String
  | ⟨_, .monitorExpiredSwaps, .operator (.swap h) (.submitTx ⟨.cancelInvoice _, _⟩), _⟩ => some h
  | _ => none

end Entry

namespace World

/-- How often a swap was moved from Pending to Fulfilling. -/
def wins (w : World) (h : String) : ℕ := w.log.countP fun e => e.wins? = some h

/-- How often `fulfill_swap` called `fulfill_invoice` for a swap. -/
def fulfils (w : World) (h : String) : ℕ := w.log.countP fun e => e.fulfils? = some h

/-- How often the monitor submitted a CancelInvoice transaction for a swap. -/
def withdrawals (w : World) (h : String) : ℕ := w.log.countP fun e => e.withdraws? = some h

/-- The swap is past its expiry. -/
def Expired (w : World) (h : String) : Prop := ∃ r, w.swap h = some r ∧ r.expiresAt < w.clock

/-- The swap was won or is past its expiry: it may have left Pending. -/
def Left (w : World) (h : String) : Prop := w.wins h ≠ 0 ∨ w.Expired h

/-- The swap is past its expiry and is not fulfilled. -/
def Lapsed (w : World) (h : String) : Prop := w.Expired h ∧ w.fulfils h = 0

/-- Task `tid` has won the swap. -/
def WonBy (w : World) (h : String) (tid : ℕ) : Prop := ∃ e ∈ w.log, e.wins? = some h ∧ e.tid = tid

/-- The `fulfill_swap` that runs as task `tid` started on the row `m`. -/
def StartedOn (w : World) (tid : ℕ) (m : SwapMapping) : Prop :=
  (∃ e ∈ w.log, e.tid = tid ∧ e.reads? = some m) ∧
    ∀ e ∈ w.log, e.tid = tid → ∀ m', e.reads? = some m' → m' = m

end World

namespace Onramp

/-- The row that a `fulfill_swap` has read. -/
def Stage.row? : Stage → Option SwapMapping
  | .read m | .won m | .checked m => some m
  | _ => none

/-- The row of a swap that a `fulfill_swap` has won. -/
def Stage.prize? : Stage → Option SwapMapping
  | .won m | .checked m => some m
  | _ => none

/-- The rows that the monitor goes through. -/
def Stage.expired : Stage → List SwapMapping
  | .cancelling rows => rows
  | _ => []

/-- The rows that the startup goes through. -/
def Stage.stuck : Stage → List SwapMapping
  | .recovering rows => rows
  | _ => []

/-- What holds of each swap. -/
structure Ledger (w : World) (h : String) : Prop where
  once : w.wins h ≤ 1
  won : w.wins h ≠ 0 → ∃ r, w.swap h = some r ∧ r.status ≠ .pending
  left : ∀ r, w.swap h = some r → r.status ≠ .pending → w.Left h
  unique : ∀ tid tid', w.WonBy h tid → w.WonBy h tid' → tid = tid'
  winner : ∀ e ∈ w.log, e.fulfils? = some h → w.WonBy h e.tid
  started : ∀ e ∈ w.log, e.fulfils? = some h →
    ∃ m, w.StartedOn e.tid m ∧ m.paymentHash = h ∧ m.status = .pending
  withdrawn : w.withdrawals h ≠ 0 → w.Lapsed h

/-- What a `fulfill_swap` of `h` knows. -/
structure FulfilKnows (w : World) (tid : ℕ) (h : String) (l : Stage) : Prop where
  idle : l = .idle → ∀ e ∈ w.log, e.tid = tid → e.reads? = none ∧ e.fulfils? = none
  row : ∀ m, l.row? = some m → w.StartedOn tid m ∧ m.paymentHash = h ∧
    ∃ r, w.swap h = some r ∧ r.expiresAt = m.expiresAt ∧ (m.status ≠ .pending → r.status ≠ .pending)
  prize : ∀ m, l.prize? = some m → m.status = .pending ∧ w.WonBy h tid
  checked : ∀ m, l = .checked m → w.withdrawals h = 0

/-- What a task knows in its stage. -/
structure Knows (w : World) (tid : ℕ) (c : Call) (l : Stage) : Prop where
  fulfil : ∀ h, c = .fulfillSwap h → FulfilKnows w tid h l
  timed : ∀ t, l = .timed t → t ≤ w.clock
  expired : ∀ m ∈ l.expired, w.Lapsed m.paymentHash
  stuck : ∀ m ∈ l.stuck, w.Left m.paymentHash

/-- The monitor does not cancel a swap that a `fulfill_swap` is about to fulfil. -/
def Clear (c : Call) (l l' : Stage) : Prop :=
  ∀ h m, c = .fulfillSwap h → l = .checked m → ∀ m' ∈ l'.expired, m'.paymentHash ≠ h

/-- Neither of two tasks cancels what the other is about to fulfil. -/
def Separate (c : Call) (l : Stage) (c' : Call) (l' : Stage) : Prop := Clear c l l' ∧ Clear c' l' l

/-- The discipline of the swaps. -/
def onramp : Discipline Op Op.Resp World Call Stage where
  start := start
  Move := Move
  Final _ l := l ≠ .claiming
  Shared w := ∀ h, Ledger w h
  Owned := Knows
  Apart := Separate

/-! ## Which move writes which entry -/

section

variable {tid : ℕ} {c : Call} {l l' : Stage} {o : Op} {r : o.Resp} {h : String}

theorem wins?_eq_some (hw : (⟨tid, c, o, r⟩ : Entry).wins? = some h) :
    ∃ tx, o = .db (.transitionStatus h .pending .fulfilling tx) ∧ HEq r true := by
  unfold Entry.wins? at hw
  split at hw
  next he =>
    obtain ⟨-, -, rfl, hr⟩ := Entry.mk.inj he
    obtain rfl := Option.some.inj hw
    exact ⟨_, rfl, hr⟩
  next => cases hw

theorem fulfils?_eq_some (hm : Move c l o r l') (hf : (⟨tid, c, o, r⟩ : Entry).fulfils? = some h) :
    ∃ m, c = .fulfillSwap h ∧ l = .checked m := by
  unfold Entry.fulfils? at hf
  split at hf
  next he =>
    obtain ⟨-, rfl, rfl, -⟩ := Entry.mk.inj he
    obtain rfl := Option.some.inj hf
    cases hm with
    | quiet hq => cases hq
    | fulfill => exact ⟨_, rfl, rfl⟩
  next => cases hf

theorem reads?_eq_some (hm : Move c l o r l') {m : SwapMapping}
    (hr : (⟨tid, c, o, r⟩ : Entry).reads? = some m) :
    ∃ h, c = .fulfillSwap h ∧ l = .idle ∧ l' = .read m ∧ o = .db (.getByPaymentHash h) ∧
      HEq r (some m) := by
  unfold Entry.reads? at hr
  split at hr
  next he =>
    obtain ⟨-, rfl, rfl, hr'⟩ := Entry.mk.inj he
    obtain rfl := Option.some.inj hr
    cases hm with
    | quiet hq => cases hq
    | read =>
      obtain rfl := Option.some.inj (eq_of_heq hr')
      exact ⟨_, rfl, rfl, rfl, rfl, HEq.rfl⟩
    | unknown => cases hr'
  next => cases hr

theorem withdraws?_eq_some (hm : Move c l o r l')
    (hw : (⟨tid, c, o, r⟩ : Entry).withdraws? = some h) :
    c = .monitorExpiredSwaps ∧ ∃ m ∈ l.expired, m.paymentHash = h := by
  unfold Entry.withdraws? at hw
  split at hw
  next he =>
    obtain ⟨-, rfl, rfl, -⟩ := Entry.mk.inj he
    obtain rfl := Option.some.inj hw
    refine ⟨rfl, ?_⟩
    cases hm with
    | quiet hq => cases hq
    | cancel hmem => exact ⟨_, hmem, rfl⟩
  next => cases hw

/-! ## What a move does to a row -/

/-- The writes that take a swap out of Pending: winning it, settling a swap that was won, and going
through the rows of a snapshot. -/
inductive Writes (k : String) (tid : ℕ) (c : Call) (l : Stage) (o : Op) (r : o.Resp) : Prop where
  | win : (⟨tid, c, o, r⟩ : Entry).wins? = some k → Writes k tid c l o r
  | settle {m : SwapMapping} : c = .fulfillSwap k → l.prize? = some m → Writes k tid c l o r
  | expire {m : SwapMapping} : m ∈ l.expired → m.paymentHash = k → Writes k tid c l o r
  | finish {m : SwapMapping} : m ∈ l.stuck → m.paymentHash = k → Writes k tid c l o r

/-- How the row of swap `k` changes in one move. -/
inductive RowMove (k : String) (tid : ℕ) (c : Call) (l : Stage) (o : Op) (r : o.Resp) :
    Option SwapMapping → Option SwapMapping → Prop where
  | same {row : Option SwapMapping} : RowMove k tid c l o r row row
  | insert {m : SwapMapping} : m.status = .pending → RowMove k tid c l o r none (some m)
  | write {x y : SwapMapping} : y.expiresAt = x.expiresAt → y.status ≠ .pending →
      (y.status = .fulfilling → (⟨tid, c, o, r⟩ : Entry).wins? = some k) →
      Writes k tid c l o r → RowMove k tid c l o r (some x) (some y)

variable {w w' : World} {sp : Option Call} {k : String}

/-- Operations that the protocol does not regulate leave the swaps alone. -/
theorem onSwap_of_not_onramp (h : o.onramp = false) (row : Option SwapMapping) :
    o.onSwap k row = row := by
  cases o with
  | db c => cases c <;> first | rfl | cases h
  | _ => rfl

theorem rowMove_update {st : SwapStatus} {tx : Option String} (hst : st ≠ .pending)
    (hst' : st ≠ .fulfilling) (hw : k = h → Writes k tid c l o r) (row : Option SwapMapping) :
    RowMove k tid c l o r row ((DbCall.updateStatus h st tx).onSwap k row) := by
  simp only [DbCall.onSwap]
  split_ifs with hk
  · cases row with
    | none => exact .same
    | some x => exact .write rfl hst (fun h => absurd h hst') (hw hk)
  · exact .same

/-- Every move is one of the row's moves. -/
theorem rowMove (he : Effect tid c o r w w' sp) (hm : Move c l o r l') (k : String) :
    RowMove k tid c l o r (w.swap k) (w'.swap k) := by
  have hans := he.answered
  rw [he.swap k]
  cases hm with
  | quiet h =>
    rw [onSwap_of_not_onramp h]
    exact .same
  | @request _ _ _ m _ hst =>
    simp only [Op.onSwap, DbCall.onSwap]
    split_ifs with hk
    · cases w.swap k with
      | none => exact .insert hst
      | some x => exact .same
    · exact .same
  | @win h m =>
    simp only [Op.onSwap, DbCall.onSwap]
    split_ifs with hk
    · cases hx : w.swap k with
      | none => exact .same
      | some x =>
        subst hk
        simp only [Option.map_some, SwapMapping.moved]
        split_ifs with hst
        · refine .write rfl ?_ (fun _ => rfl) (.win rfl)
          intro hpending
          cases hpending
        · exact .same
    · exact .same
  | @lose h m =>
    have hno : ¬ ∃ x, w.swap h = some x ∧ x.status = .pending := fun hx =>
      Bool.false_ne_true (hans.trans (SwapDb.transitionStatus_fst_iff.2 hx))
    simp only [Op.onSwap, DbCall.onSwap]
    split_ifs with hk
    · cases hx : w.swap k with
      | none => exact .same
      | some x =>
        have hst : x.status ≠ .pending := fun hst => hno ⟨x, hk ▸ hx, hst⟩
        simp only [Option.map_some, SwapMapping.moved, if_neg hst]
        exact .same
    · exact .same
  | settle hl hst =>
    refine rowMove_update ?_ ?_ (fun hk => ?_) _
    · rcases hst with rfl | rfl <;> decide
    · rcases hst with rfl | rfl <;> decide
    · subst hk
      rcases hl with rfl | rfl
      · exact .settle rfl rfl
      · exact .settle rfl rfl
  | expire hmem =>
    refine rowMove_update ?_ ?_ (fun hk => ?_) _
    · decide
    · decide
    · exact .expire hmem hk.symm
  | finish hmem =>
    refine rowMove_update ?_ ?_ (fun hk => ?_) _
    · decide
    · decide
    · exact .finish hmem hk.symm
  | _ => exact .same

/-- A row is never deleted, its expiry stays, and it never goes back to Pending. -/
theorem swap_mono (he : Effect tid c o r w w' sp) (hm : Move c l o r l') {x : SwapMapping}
    (hx : w.swap k = some x) : ∃ y, w'.swap k = some y ∧ y.expiresAt = x.expiresAt ∧
      (x.status ≠ .pending → y.status ≠ .pending) := by
  have hrow := rowMove he hm k
  rw [hx] at hrow
  generalize w'.swap k = y at hrow
  cases hrow with
  | same => exact ⟨x, rfl, rfl, fun h => h⟩
  | write hexp hst => exact ⟨_, rfl, hexp, fun _ => hst⟩

theorem wins_eq (he : Effect tid c o r w w' sp) (k : String) :
    w'.wins k = w.wins k + if (⟨tid, c, o, r⟩ : Entry).wins? = some k then 1 else 0 := by
  simp only [World.wins, he.log, List.countP_cons, decide_eq_true_eq]

theorem fulfils_eq (he : Effect tid c o r w w' sp) (k : String) :
    w'.fulfils k = w.fulfils k + if (⟨tid, c, o, r⟩ : Entry).fulfils? = some k then 1 else 0 := by
  simp only [World.fulfils, he.log, List.countP_cons, decide_eq_true_eq]

theorem withdrawals_eq (he : Effect tid c o r w w' sp) (k : String) :
    w'.withdrawals k = w.withdrawals k +
      if (⟨tid, c, o, r⟩ : Entry).withdraws? = some k then 1 else 0 := by
  simp only [World.withdrawals, he.log, List.countP_cons, decide_eq_true_eq]

theorem expired_mono (he : Effect tid c o r w w' sp) (hm : Move c l o r l') (hx : w.Expired k) :
    w'.Expired k := by
  obtain ⟨x, hx, hlt⟩ := hx
  obtain ⟨y, hy, hexp, -⟩ := swap_mono he hm hx
  exact ⟨y, hy, by rw [hexp, he.clock]; exact hlt⟩

theorem left_mono (he : Effect tid c o r w w' sp) (hm : Move c l o r l') (hx : w.Left k) :
    w'.Left k := by
  rcases hx with hwin | hexp
  · left
    rw [wins_eq he]
    omega
  · exact Or.inr (expired_mono he hm hexp)

theorem wonBy_mono {tid' : ℕ} (he : Effect tid c o r w w' sp) (hw : w.WonBy k tid') :
    w'.WonBy k tid' := by
  obtain ⟨e, hmem, hwin⟩ := hw
  exact ⟨e, he.log ▸ List.mem_cons_of_mem _ hmem, hwin⟩

theorem wins_of_wonBy {tid' : ℕ} (hw : w.WonBy k tid') : w.wins k ≠ 0 := by
  obtain ⟨e, hmem, hwin, -⟩ := hw
  have hpos : 0 < w.wins k := List.countP_pos_iff.2 ⟨e, hmem, by simpa using hwin⟩
  omega

/-- Whoever wins a swap finds it Pending. -/
theorem pending_of_wins? (he : Effect tid c o r w w' sp)
    (hw : (⟨tid, c, o, r⟩ : Entry).wins? = some k) :
    ∃ x, w.swap k = some x ∧ x.status = .pending := by
  obtain ⟨tx, rfl, hr⟩ := wins?_eq_some hw
  have hans : (w.db.transitionStatus k .pending .fulfilling tx).1 = true :=
    he.answered.symm.trans (eq_of_heq hr)
  exact SwapDb.transitionStatus_fst_iff.1 hans

/-! ## The ledger -/

/-- A swap whose row is Pending was won by nobody. -/
theorem wins_of_pending (hL : Ledger w k) {x : SwapMapping} (hx : w.swap k = some x)
    (hst : x.status = .pending) : w.wins k = 0 := by
  by_contra hne
  obtain ⟨y, hy, hst'⟩ := hL.won hne
  rw [hx] at hy
  exact hst' (Option.some.inj hy ▸ hst)

theorem once_move (he : Effect tid c o r w w' sp) (hL : Ledger w k) : w'.wins k ≤ 1 := by
  rw [wins_eq he]
  split_ifs with hwin
  · obtain ⟨x, hx, hst⟩ := pending_of_wins? he hwin
    have hzero := wins_of_pending hL hx hst
    omega
  · exact hL.once

theorem won_move (he : Effect tid c o r w w' sp) (hm : Move c l o r l') (hL : Ledger w k)
    (hne : w'.wins k ≠ 0) : ∃ y, w'.swap k = some y ∧ y.status ≠ .pending := by
  by_cases hwin : (⟨tid, c, o, r⟩ : Entry).wins? = some k
  · obtain ⟨x, hx, hst⟩ := pending_of_wins? he hwin
    obtain ⟨tx, rfl, -⟩ := wins?_eq_some hwin
    refine ⟨{ x with status := .fulfilling, cardanoTxHash := tx }, ?_, nofun⟩
    rw [he.swap k, hx]
    simp [Op.onSwap, DbCall.onSwap, SwapMapping.moved, hst]
  · rw [wins_eq he, if_neg hwin] at hne
    obtain ⟨x, hx, hst⟩ := hL.won hne
    obtain ⟨y, hy, -, hst'⟩ := swap_mono he hm hx
    exact ⟨y, hy, hst' hst⟩

theorem left_move (he : Effect tid c o r w w' sp) (hm : Move c l o r l') (hK : Knows w tid c l)
    (hL : Ledger w k) (y : SwapMapping) (hy : w'.swap k = some y) (hst : y.status ≠ .pending) :
    w'.Left k := by
  have hrow := rowMove he hm k
  rw [hy] at hrow
  generalize hx : w.swap k = row at hrow
  cases hrow with
  | same => exact left_mono he hm (hL.left y hx hst)
  | insert hpending => exact absurd hpending hst
  | write _ _ _ hw =>
    cases hw with
    | win hwin =>
      left
      rw [wins_eq he, if_pos hwin]
      omega
    | settle hc hl => exact left_mono he hm (Or.inl (wins_of_wonBy ((hK.fulfil k hc).prize _ hl).2))
    | expire hmem hk => exact left_mono he hm (Or.inr (hk ▸ (hK.expired _ hmem).1))
    | finish hmem hk => exact left_mono he hm (hk ▸ hK.stuck _ hmem)

/-- A winner was the winner before, or it has just won. -/
theorem wonBy_move {tid' : ℕ} (he : Effect tid c o r w w' sp) (hw : w'.WonBy k tid') :
    w.WonBy k tid' ∨ tid' = tid ∧ (⟨tid, c, o, r⟩ : Entry).wins? = some k := by
  obtain ⟨e, hmem, hwin, htid⟩ := hw
  rw [he.log] at hmem
  rcases List.mem_cons.1 hmem with rfl | hmem
  · exact Or.inr ⟨htid.symm, hwin⟩
  · exact Or.inl ⟨e, hmem, hwin, htid⟩

theorem unique_move (he : Effect tid c o r w w' sp) (hL : Ledger w k) (t t' : ℕ)
    (h₁ : w'.WonBy k t) (h₂ : w'.WonBy k t') : t = t' := by
  -- nobody has won a swap that is won now
  have hnew : ∀ {u}, (⟨tid, c, o, r⟩ : Entry).wins? = some k → ¬ w.WonBy k u := by
    intro u hwin hu
    obtain ⟨x, hx, hst⟩ := pending_of_wins? he hwin
    exact wins_of_wonBy hu (wins_of_pending hL hx hst)
  rcases wonBy_move he h₁ with h₁ | ⟨rfl, hwin⟩
  · rcases wonBy_move he h₂ with h₂ | ⟨rfl, hwin⟩
    · exact hL.unique t t' h₁ h₂
    · exact absurd h₁ (hnew hwin)
  · rcases wonBy_move he h₂ with h₂ | ⟨rfl, -⟩
    · exact absurd h₂ (hnew hwin)
    · rfl

theorem winner_move (he : Effect tid c o r w w' sp) (hm : Move c l o r l') (hK : Knows w tid c l)
    (hL : Ledger w k) (e : Entry) (hmem : e ∈ w'.log) (hf : e.fulfils? = some k) :
    w'.WonBy k e.tid := by
  rw [he.log] at hmem
  apply wonBy_mono he
  rcases List.mem_cons.1 hmem with rfl | hmem
  · obtain ⟨m, hc, hl⟩ := fulfils?_eq_some hm hf
    exact ((hK.fulfil k hc).prize m (by rw [hl]; rfl)).2
  · exact hL.winner e hmem hf

theorem startedOn_mono {tid' : ℕ} {m : SwapMapping} (he : Effect tid c o r w w' sp)
    (hown : tid = tid' → (⟨tid, c, o, r⟩ : Entry).reads? = none) (hs : w.StartedOn tid' m) :
    w'.StartedOn tid' m := by
  obtain ⟨⟨e, hmem, hread⟩, huniq⟩ := hs
  refine ⟨⟨e, he.log ▸ List.mem_cons_of_mem _ hmem, hread⟩, ?_⟩
  intro e' hmem' htid m' hr
  rw [he.log] at hmem'
  rcases List.mem_cons.1 hmem' with rfl | hmem'
  · rw [hown htid] at hr
    cases hr
  · exact huniq e' hmem' htid m' hr

theorem started_move (he : Effect tid c o r w w' sp) (hm : Move c l o r l') (hK : Knows w tid c l)
    (hL : Ledger w k) (e : Entry) (hmem : e ∈ w'.log) (hf : e.fulfils? = some k) :
    ∃ m, w'.StartedOn e.tid m ∧ m.paymentHash = k ∧ m.status = .pending := by
  rw [he.log] at hmem
  rcases List.mem_cons.1 hmem with rfl | hmem
  · obtain ⟨m, hc, rfl⟩ := fulfils?_eq_some hm hf
    obtain ⟨hstart, hk, -⟩ := (hK.fulfil k hc).row m rfl
    refine ⟨m, startedOn_mono he (fun _ => ?_) hstart, hk, ((hK.fulfil k hc).prize m rfl).1⟩
    by_contra hne
    obtain ⟨m', hr⟩ := Option.ne_none_iff_exists'.1 hne
    obtain ⟨_, -, hl, -⟩ := reads?_eq_some hm hr
    cases hl
  · obtain ⟨m, hstart, hm'⟩ := hL.started e hmem hf
    refine ⟨m, startedOn_mono he (fun htid => ?_) hstart, hm'⟩
    -- a `fulfill_swap` that is about to start has not fulfilled anything
    by_contra hne
    obtain ⟨m', hr⟩ := Option.ne_none_iff_exists'.1 hne
    obtain ⟨h, hc, hl, -⟩ := reads?_eq_some hm hr
    have hnone := ((hK.fulfil h hc).idle hl e hmem htid.symm).2
    rw [hf] at hnone
    cases hnone

theorem lapsed_move (he : Effect tid c o r w w' sp) (hm : Move c l o r l') (hx : w.Lapsed k)
    (hno : ∀ m, c = .fulfillSwap k → l ≠ .checked m) : w'.Lapsed k := by
  have hent : (⟨tid, c, o, r⟩ : Entry).fulfils? ≠ some k := by
    intro hf
    obtain ⟨m, hc, hl⟩ := fulfils?_eq_some hm hf
    exact hno m hc hl
  refine ⟨expired_mono he hm hx.1, ?_⟩
  rw [fulfils_eq he, if_neg hent, hx.2]

theorem withdrawn_move (he : Effect tid c o r w w' sp) (hm : Move c l o r l')
    (hK : Knows w tid c l) (hL : Ledger w k) (hne : w'.withdrawals k ≠ 0) : w'.Lapsed k := by
  by_cases hent : (⟨tid, c, o, r⟩ : Entry).withdraws? = some k
  · obtain ⟨rfl, m, hmem, rfl⟩ := withdraws?_eq_some hm hent
    exact lapsed_move he hm (hK.expired m hmem) fun _ => nofun
  · rw [withdrawals_eq he, if_neg hent] at hne
    refine lapsed_move he hm (hL.withdrawn hne) fun m hc hl => ?_
    exact hne ((hK.fulfil k hc).checked m hl)

theorem ledger_move (he : Effect tid c o r w w' sp) (hm : Move c l o r l') (hK : Knows w tid c l)
    (hL : Ledger w k) : Ledger w' k where
  once := once_move he hL
  won := won_move he hm hL
  left := left_move he hm hK hL
  unique := unique_move he hL
  winner := winner_move he hm hK hL
  started := started_move he hm hK hL
  withdrawn := withdrawn_move he hm hK hL

/-! ## What the tasks know -/

variable {tid' : ℕ} {c' : Call} {l₀ : Stage}

theorem Separate.symm (hs : Separate c l c' l₀) : Separate c' l₀ c l := ⟨hs.2, hs.1⟩

theorem separate_self (c : Call) (l : Stage) : Separate c l c l := by
  have hclear : Clear c l l := by
    rintro h m - rfl m' hm'
    cases hm'
  exact ⟨hclear, hclear⟩

theorem start_eq (c : Call) : start c = .idle ∨ start c = .claiming := by
  unfold start
  split
  · exact Or.inr rfl
  · exact Or.inl rfl

theorem separate_start (c : Call) (l : Stage) (c' : Call) : Separate c l c' (start c') := by
  rcases start_eq c' with hl | hl <;> rw [hl] <;>
    exact ⟨fun _ _ _ _ _ hm' => absurd hm' List.not_mem_nil, fun _ _ _ => nofun⟩

theorem fulfils_of_wins (hL : Ledger w k) (hw : w.wins k = 0) : w.fulfils k = 0 := by
  by_contra hne
  obtain ⟨e, hmem, hf⟩ := List.countP_pos_iff.1 (Nat.pos_of_ne_zero hne)
  exact wins_of_wonBy (hL.winner e hmem (of_decide_eq_true hf)) hw

theorem FulfilKnows.mono (he : Effect tid c o r w w' sp) (hm : Move c l o r l')
    (hK : FulfilKnows w tid' h l₀)
    (hown : tid = tid' → (⟨tid, c, o, r⟩ : Entry).reads? = none ∧
      (l₀ = .idle → (⟨tid, c, o, r⟩ : Entry).fulfils? = none))
    (hcancel : ∀ m, l₀ = .checked m → (⟨tid, c, o, r⟩ : Entry).withdraws? ≠ some h) :
    FulfilKnows w' tid' h l₀ where
  idle hl e hmem htid := by
    rw [he.log] at hmem
    rcases List.mem_cons.1 hmem with rfl | hmem
    · exact ⟨(hown htid).1, (hown htid).2 hl⟩
    · exact hK.idle hl e hmem htid
  row m hl := by
    obtain ⟨hstart, hk, x, hx, hexp, hst⟩ := hK.row m hl
    obtain ⟨y, hy, hexp', hst'⟩ := swap_mono he hm hx
    exact ⟨startedOn_mono he (fun htid => (hown htid).1) hstart, hk, y, hy, hexp'.trans hexp,
      fun hne => hst' (hst hne)⟩
  prize m hl := ⟨(hK.prize m hl).1, wonBy_mono he (hK.prize m hl).2⟩
  checked m hl := by
    rw [withdrawals_eq he, if_neg (hcancel m hl), hK.checked m hl]

/-- A move keeps what a task knows, its own and that of the tasks it is separate from. -/
theorem Knows.mono (he : Effect tid c o r w w' sp) (hm : Move c l o r l') (hK : Knows w tid' c' l₀)
    (hsep : Separate c l c' l₀)
    (hown : tid = tid' → (⟨tid, c, o, r⟩ : Entry).reads? = none ∧
      (l₀ = .idle → (⟨tid, c, o, r⟩ : Entry).fulfils? = none)) : Knows w' tid' c' l₀ where
  fulfil h hc := by
    refine (hK.fulfil h hc).mono he hm hown fun m hl hw => ?_
    obtain ⟨-, m', hmem, hk⟩ := withdraws?_eq_some hm hw
    exact hsep.2 h m hc hl m' hmem hk
  timed t hl := he.clock ▸ hK.timed t hl
  expired m hmem := lapsed_move he hm (hK.expired m hmem) fun x hc hl =>
    hsep.1 _ x hc hl m hmem rfl
  stuck m hmem := left_mono he hm (hK.stuck m hmem)

/-- A task that stays in its stage starts on no row, and fulfils nothing while it is idle. -/
theorem own_of_stay (hm : Move c l o r l) : (⟨tid, c, o, r⟩ : Entry).reads? = none ∧
    (l = .idle → (⟨tid, c, o, r⟩ : Entry).fulfils? = none) := by
  constructor
  · by_contra hne
    obtain ⟨m, hr⟩ := Option.ne_none_iff_exists'.1 hne
    obtain ⟨-, -, rfl, hl, -⟩ := reads?_eq_some hm hr
    cases hl
  · rintro rfl
    by_contra hne
    obtain ⟨h, hf⟩ := Option.ne_none_iff_exists'.1 hne
    obtain ⟨m, -, hl⟩ := fulfils?_eq_some hm hf
    cases hl

theorem knows_stay (he : Effect tid c o r w w' sp) (hm : Move c l o r l) (hK : Knows w tid c l) :
    Knows w' tid c l :=
  hK.mono he hm (separate_self c l) fun _ => own_of_stay hm

theorem knows_of_fulfil (hK : FulfilKnows w tid h l) (ht : ∀ t, l ≠ .timed t)
    (hexp : l.expired = []) (hstuck : l.stuck = []) : Knows w tid (.fulfillSwap h) l where
  fulfil _ hc := Call.fulfillSwap.inj hc ▸ hK
  timed t hl := absurd hl (ht t)
  expired _ hmem := absurd (hexp ▸ hmem) List.not_mem_nil
  stuck _ hmem := absurd (hstuck ▸ hmem) List.not_mem_nil

theorem knows_over : Knows w tid (.fulfillSwap h) .over :=
  knows_of_fulfil ⟨nofun, fun _ => nofun, fun _ => nofun, fun _ => nofun⟩ nofun rfl rfl

/-- A swap that a `fulfill_swap` has found not expired is not expired. -/
theorem not_expired_of_check {m : SwapMapping} (hK : FulfilKnows w tid h (.won m))
    (hle : w.clock ≤ m.expiresAt) : ¬ w.Expired h := by
  rintro ⟨x, hx, hlt⟩
  obtain ⟨-, -, y, hy, hexp, -⟩ := hK.row m rfl
  rw [hx] at hy
  obtain rfl := Option.some.inj hy
  omega

theorem knows_read {m : SwapMapping}
    (he : Effect tid (.fulfillSwap h) (.db (.getByPaymentHash h)) (some m) w w' sp)
    (hK : FulfilKnows w tid h .idle) : FulfilKnows w' tid h (.read m) := by
  have hans : some m = w.swap h := he.answered
  refine ⟨nofun, ?_, fun _ => nofun, fun _ => nofun⟩
  rintro _ ⟨⟩
  refine ⟨⟨⟨_, he.log ▸ List.mem_cons_self, rfl, rfl⟩, ?_⟩,
    SwapDb.paymentHash_of_getByPaymentHash hans.symm, m, (he.swap h).trans hans.symm, rfl,
    fun hne => hne⟩
  intro e hmem htid m' hr
  rw [he.log] at hmem
  rcases List.mem_cons.1 hmem with rfl | hmem
  · exact (Option.some.inj hr).symm
  · rw [(hK.idle rfl e hmem htid).1] at hr
    cases hr

theorem knows_win {m : SwapMapping}
    (he : Effect tid (.fulfillSwap h) (.db (.transitionStatus h .pending .fulfilling none)) true
      w w' sp) (hK : FulfilKnows w tid h (.read m)) : FulfilKnows w' tid h (.won m) := by
  have hkeep : FulfilKnows w' tid h (.read m) :=
    hK.mono he (.win (m := m)) (fun _ => ⟨rfl, nofun⟩) fun _ => nofun
  refine ⟨nofun, hkeep.row, ?_, fun _ => nofun⟩
  rintro _ ⟨⟩
  constructor
  · -- the row is still Pending, so it was Pending when it was read
    obtain ⟨x, hx, hst⟩ := pending_of_wins? (k := h) he rfl
    obtain ⟨-, -, y, hy, -, hread⟩ := hK.row m rfl
    rw [hx] at hy
    obtain rfl := Option.some.inj hy
    by_contra hne
    exact hread hne hst
  · exact ⟨_, he.log ▸ List.mem_cons_self, rfl, rfl⟩

theorem knows_check {m : SwapMapping} {t : ℤ} (he : Effect tid (.fulfillSwap h) .now t w w' sp)
    (ht : t ≤ m.expiresAt) (hL : Ledger w h) (hK : FulfilKnows w tid h (.won m)) :
    FulfilKnows w' tid h (.checked m) := by
  have hclock : t = w.clock := he.answered
  have hkeep : FulfilKnows w' tid h (.won m) := hK.mono he (.check ht) (fun _ => ⟨rfl, nofun⟩) fun _ => nofun
  refine ⟨nofun, hkeep.row, hkeep.prize, fun _ _ => ?_⟩
  -- the monitor cancels only what has expired
  rw [withdrawals_eq he, if_neg nofun]
  by_contra hne
  exact not_expired_of_check hK (hclock ▸ ht) (hL.withdrawn hne).1

/-- What the monitor selects has expired and is fulfilled by nobody. -/
theorem lapsed_of_snapshot {t : ℤ} {m : SwapMapping} (hL : Ledger w m.paymentHash)
    (ht : t ≤ w.clock) (hmem : m ∈ w.db.getExpiredPending t) : w.Lapsed m.paymentHash := by
  obtain ⟨hrow, hst, hlt⟩ := SwapDb.mem_getExpiredPending.1 hmem
  exact ⟨⟨m, hrow, by omega⟩, fulfils_of_wins hL (wins_of_pending hL hrow hst)⟩

theorem knows_move (he : Effect tid c o r w w' sp) (hm : Move c l o r l')
    (hL : ∀ k, Ledger w k) (hK : Knows w tid c l) : Knows w' tid c l' := by
  have hm' := hm
  cases hm with
  | quiet | request | look | spawn | fulfill | cancel | expire | recover | finish =>
    exact knows_stay he hm' hK
  | claim => exact ⟨nofun, nofun, fun _ => nofun, fun _ => nofun⟩
  | read => exact knows_of_fulfil (knows_read he (hK.fulfil _ rfl)) nofun rfl rfl
  | win => exact knows_of_fulfil (knows_win he (hK.fulfil _ rfl)) nofun rfl rfl
  | check ht => exact knows_of_fulfil (knows_check he ht (hL _) (hK.fulfil _ rfl)) nofun rfl rfl
  | unknown | lose | settle => exact knows_over
  | @time t =>
    have hclock : t = w.clock := he.answered
    refine ⟨nofun, ?_, fun _ => nofun, fun _ => nofun⟩
    rintro _ ⟨⟩
    rw [he.clock]
    exact Int.le_of_eq hclock
  | @snapshot t rows =>
    have hrows : rows = w.db.getExpiredPending t := he.answered
    refine ⟨nofun, nofun, fun m hmem => ?_, fun _ => nofun⟩
    exact lapsed_move he hm' (lapsed_of_snapshot (hL _) (hK.timed t rfl) (hrows ▸ hmem)) fun _ => nofun
  | @scan rows =>
    have hrows : rows = w.db.getByStatus .fulfilling := he.answered
    refine ⟨nofun, nofun, fun _ => nofun, fun m hmem => left_mono he hm' ?_⟩
    obtain ⟨hrow, hst⟩ := SwapDb.mem_getByStatus.1 (hrows ▸ hmem)
    exact (hL _).left m hrow (hst ▸ nofun)

/-- A `fulfill_swap` that passes the check finds no monitor that is about to cancel its swap. -/
theorem clear_move (he : Effect tid c o r w w' sp) (hm : Move c l o r l') (hK : Knows w tid c l)
    (hK' : Knows w tid' c' l₀) (hc : Clear c l l₀) : Clear c l' l₀ := by
  rintro h m rfl rfl m' hmem hk
  cases hm with
  | quiet | fulfill => exact hc h m rfl rfl m' hmem hk
  | @check _ _ t ht =>
    have hclock : t = w.clock := he.answered
    exact not_expired_of_check (hK.fulfil h rfl) (hclock ▸ ht) (hk ▸ (hK'.expired m' hmem).1)

/-- A monitor selects no swap that a `fulfill_swap` has won. -/
theorem clear_others (he : Effect tid c o r w w' sp) (hm : Move c l o r l') (hL : ∀ k, Ledger w k)
    (hK' : Knows w tid' c' l₀) (hc : Clear c' l₀ l) : Clear c' l₀ l' := by
  rintro h m rfl rfl m' hmem hk
  cases hm with
  | quiet | request | look | spawn | cancel | expire => exact hc h m rfl rfl m' hmem hk
  | @snapshot t rows =>
    have hrows : rows = w.db.getExpiredPending t := he.answered
    obtain ⟨hrow, hst, -⟩ := SwapDb.mem_getExpiredPending.1 (hrows ▸ hmem)
    have hwon := ((hK'.fulfil h rfl).prize m rfl).2
    exact wins_of_wonBy hwon (wins_of_pending (hL h) (hk ▸ hrow) hst)
  | _ => cases hmem

/-! ## The environment -/

section

variable (hc : Calm w w')

include hc

theorem expired_calm (hx : w.Expired k) : w'.Expired k := by
  obtain ⟨x, hx, hlt⟩ := hx
  exact ⟨x, (hc.swap k).trans hx, Int.lt_of_lt_of_le hlt hc.clock⟩

theorem left_calm (hx : w.Left k) : w'.Left k :=
  hx.imp (fun hne => by rwa [World.wins, hc.log]) (expired_calm hc)

theorem lapsed_calm (hx : w.Lapsed k) : w'.Lapsed k :=
  ⟨expired_calm hc hx.1, by rw [World.fulfils, hc.log]; exact hx.2⟩

theorem wonBy_calm (t : ℕ) : w'.WonBy k t ↔ w.WonBy k t := by
  rw [World.WonBy, World.WonBy, hc.log]

theorem startedOn_calm (t : ℕ) (m : SwapMapping) : w'.StartedOn t m ↔ w.StartedOn t m := by
  rw [World.StartedOn, World.StartedOn, hc.log]

theorem Ledger.calm (hL : Ledger w k) : Ledger w' k := by
  have hwins : w'.wins k = w.wins k := by rw [World.wins, World.wins, hc.log]
  refine ⟨hwins ▸ hL.once, ?_, ?_, ?_, ?_, ?_, ?_⟩
  · rw [hwins, hc.swap k]
    exact hL.won
  · rw [hc.swap k]
    exact fun x hx hst => left_calm hc (hL.left x hx hst)
  · simp only [wonBy_calm hc]
    exact hL.unique
  · simp only [wonBy_calm hc, hc.log]
    exact hL.winner
  · simp only [startedOn_calm hc, hc.log]
    exact hL.started
  · intro hne
    rw [World.withdrawals, hc.log] at hne
    exact lapsed_calm hc (hL.withdrawn hne)

theorem FulfilKnows.calm (hK : FulfilKnows w tid h l) : FulfilKnows w' tid h l := by
  refine ⟨?_, ?_, ?_, ?_⟩
  · rw [hc.log]
    exact hK.idle
  · simp only [startedOn_calm hc, hc.swap h]
    exact hK.row
  · simp only [wonBy_calm hc]
    exact hK.prize
  · rw [World.withdrawals, hc.log]
    exact hK.checked

theorem Knows.calm (hK : Knows w tid c l) : Knows w' tid c l where
  fulfil h hf := (hK.fulfil h hf).calm hc
  timed t hl := Int.le_trans (hK.timed t hl) hc.clock
  expired m hmem := lapsed_calm hc (hK.expired m hmem)
  stuck m hmem := left_calm hc (hK.stuck m hmem)

end

/-- A task that has done nothing yet. -/
theorem knows_start (hlog : ∀ e ∈ w.log, e.tid < tid) : Knows w tid c (start c) := by
  have hl := start_eq c
  generalize start c = l at hl
  refine ⟨fun h _ => ⟨fun _ e hmem htid => ?_, ?_, ?_, ?_⟩, ?_, ?_, ?_⟩
  · exact absurd htid (Nat.ne_of_lt (hlog e hmem))
  all_goals
    rcases hl with rfl | rfl <;> exact fun _ => nofun

theorem ledger_fresh (cfg : Config) (now : ℤ) (k : String) : Ledger (World.fresh cfg now) k := by
  have hrow : (World.fresh cfg now).swap k = none := rfl
  have hlog : (World.fresh cfg now).log = [] := rfl
  constructor <;> simp [hrow, hlog, World.wins, World.withdrawals, World.WonBy]

/-- The discipline of the swaps holds through every run. -/
theorem onramp_sound (cfg : Config) (now : ℤ) :
    onramp.Sound (relay cfg) (fun _ _ => True) (World.fresh cfg now) where
  body := body_follows cfg
  symm hs := Separate.symm hs
  init := ⟨ledger_fresh cfg now, knows_start fun _ hmem => absurd hmem List.not_mem_nil⟩
  move turn hp hm := by
    have he := effect_of_perform hp
    exact ⟨fun k => ledger_move he hm turn.owned (turn.shared k),
      knows_move he hm turn.shared turn.owned⟩
  others turn hp hm hne _ _ howned hapart := by
    have he := effect_of_perform hp
    exact ⟨Knows.mono he hm howned hapart fun htid => absurd htid.symm hne,
      clear_move he hm turn.owned howned hapart.1, clear_others he hm turn.shared howned hapart.2⟩
  spawned turn hp hm := by
    obtain ⟨k, ht⟩ := turn.task
    exact ⟨knows_start (tid_lt_next_of_perform turn.reach ht hp), separate_start _ _ _,
      fun _ _ _ _ _ => separate_start _ _ _⟩
  abort turn hp := by
    obtain rfl := abort_of_perform hp
    exact ⟨fun k => (turn.shared k).calm (calm_restarted _), knows_start (tid_lt_next turn.reach)⟩
  react next hr k := (next.shared k).calm (reaction_of_react hr).calm
  reactOthers _ hr _ _ _ howned := Knows.calm (reaction_of_react hr).calm howned
  reactSpawn next hr :=
    ⟨knows_start (tid_lt_next_of_calm next.reach (reaction_of_react hr).calm),
      fun _ _ _ => separate_start _ _ _⟩
  reactRestart next hr := knows_start (tid_lt_next_of_calm next.reach (reaction_of_react hr).calm)

theorem ledger_of_reachable {cfg : Config} {now : ℤ} {s : Sys} (hs : Reachable cfg now s)
    (k : String) : Ledger s.world k := by
  obtain ⟨L, hL⟩ := (onramp_sound cfg now).holds hs
  exact hL.shared k

/-- Where a row goes from Pending to Fulfilling, somebody has won the swap. -/
theorem wins_of_step {cfg : Config} {now : ℤ} {s s' : Sys} (hs : Reachable cfg now s) {a : Act}
    (hstep : (relay cfg).step s a = some s') {x y : SwapMapping} (hx : s.world.swap k = some x)
    (hxst : x.status = .pending) (hy : s'.world.swap k = some y) (hyst : y.status = .fulfilling) :
    s'.world.wins k = s.world.wins k + 1 := by
  rcases world_of_step hstep with ⟨tid, c, o, f, a, r, sp, -, ht, hp⟩ | hcalm
  · obtain ⟨L, hL⟩ := (onramp_sound cfg now).holds hs
    obtain ⟨l', hm, -⟩ := (hL.keeps ht).move r
    have he := effect_of_perform hp
    have hrow := rowMove he hm k
    rw [hx, hy] at hrow
    cases hrow with
    | same => simp [hxst] at hyst
    | write _ _ hwin => rw [wins_eq he, if_pos (hwin hyst)]
  · rw [hcalm.swap k, hx] at hy
    obtain rfl := Option.some.inj hy
    simp [hxst] at hyst

end

/-! ## What follows -/

section

variable {cfg : Config} {now : ℤ} {s : Sys}

/-- In every run, for every swap: its row goes from Pending to Fulfilling at most once, the calls of
`fulfill_invoice` by `fulfill_swap` are all made by one task, and that task started on a Pending
row. -/
theorem fulfilled_at_most_once (hs : Reachable cfg now s) (h : String) :
    s.world.wins h ≤ 1 ∧
    (∀ e ∈ s.world.log, ∀ e' ∈ s.world.log, e.fulfils? = some h → e'.fulfils? = some h →
      e.tid = e'.tid) ∧
    (∀ e ∈ s.world.log, e.fulfils? = some h →
      ∃ m, s.world.StartedOn e.tid m ∧ m.paymentHash = h ∧ m.status = .pending) ∧
    ∀ a s' x y, (relay cfg).step s a = some s' → s.world.swap h = some x → x.status = .pending →
      s'.world.swap h = some y → y.status = .fulfilling → s'.world.wins h = s.world.wins h + 1 := by
  have hL := ledger_of_reachable hs h
  refine ⟨hL.once, ?_, hL.started, fun a s' x y hstep => wins_of_step hs hstep⟩
  intro e he e' he' hf hf'
  exact hL.unique _ _ (hL.winner e he hf) (hL.winner e' he' hf')

set_option maxRecDepth 100000 in
theorem fulfilled_at_most_once_devnet : ∃ s, Reachable Devnet.config Devnet.startTime s ∧
    s.world.fulfils Devnet.invoice1.paymentHash = 1 ∧
    s.world.wins Devnet.invoice1.paymentHash = 1 ∧
    ∀ e ∈ s.world.log, ∀ e' ∈ s.world.log, e.fulfils? = some Devnet.invoice1.paymentHash →
      e'.fulfils? = some Devnet.invoice1.paymentHash → e.tid = e'.tid := by
  obtain ⟨s, hs, hp⟩ := Devnet.reachable_of_after Devnet.fulfilledRun (fun s =>
    decide (s.world.fulfils Devnet.invoice1.paymentHash = 1 ∧
      s.world.wins Devnet.invoice1.paymentHash = 1)) (by decide +kernel)
  obtain ⟨hfulfils, hwins⟩ := of_decide_eq_true hp
  exact ⟨s, hs, hfulfils, hwins, (fulfilled_at_most_once hs _).2.1⟩

/-- In every run, no swap has both a CancelInvoice transaction that the monitor submitted and a call
of `fulfill_invoice` by `fulfill_swap`. -/
theorem fulfilled_or_cancelled (hs : Reachable cfg now s) (h : String) :
    s.world.withdrawals h = 0 ∨ s.world.fulfils h = 0 := by
  by_cases hw : s.world.withdrawals h = 0
  · exact Or.inl hw
  · exact Or.inr ((ledger_of_reachable hs h).withdrawn hw).2

set_option maxRecDepth 100000 in
theorem fulfilled_or_cancelled_devnet : ∃ s, Reachable Devnet.config Devnet.startTime s ∧
    s.world.withdrawals Devnet.invoice1.paymentHash = 1 ∧
    (s.world.withdrawals Devnet.invoice1.paymentHash = 0 ∨
      s.world.fulfils Devnet.invoice1.paymentHash = 0) := by
  obtain ⟨s, hs, hp⟩ := Devnet.reachable_of_after Devnet.withdrawnRun (fun s =>
    decide (s.world.withdrawals Devnet.invoice1.paymentHash = 1)) (by decide +kernel)
  exact ⟨s, hs, of_decide_eq_true hp, fulfilled_or_cancelled hs _⟩

end

end Onramp

end LightningRelay
