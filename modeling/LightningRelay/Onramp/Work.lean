import LightningRelay.Exclusive
import LightningRelay.Onramp.Claim

/-!
# Who works on a swap

`fulfill_swap`, the monitor and the recovery all finish with an unguarded write of the row, decided
on what they read before they waited for Cardano.  `Work` is what a task still has to write: the
swap that a `fulfill_swap` has won, and the rest of a snapshot.

* `devnet_failed_then_expired`: the monitor selects a swap, its payment arrives, `fulfill_swap` wins
  the swap and marks it Failed because it has expired, and the monitor marks it Expired.
* `terminal_final`: where no task takes up a swap that another one is at work on, and the monitor
  does not select swaps whose payment was received (`peaceful`), a swap that is Completed, Failed or
  Expired stays as it is, and only Pending swaps become Expired.
-/

set_option autoImplicit false

namespace LightningRelay

open Async

/-- The operations that write to swaps, and the cancellations of the monitor. -/
def Op.swapWork : Op → Bool
  | .db (.updateStatus _ _ _) | .db (.transitionStatus _ _ _ _)
  | .operator (.swap _) (.submitTx ⟨.cancelInvoice _, _⟩) => true
  | _ => false

/-- The swaps that an operation takes up: the one that a `fulfill_swap` wins, and the snapshots of
the monitor and of the recovery. -/
def Entry.swapsTaken : Entry → List String
  | ⟨_, .fulfillSwap _, .db (.transitionStatus h .pending .fulfilling _), true⟩ => [h]
  | ⟨_, .monitorExpiredSwaps, .db (.getExpiredPending _), rows⟩
  | ⟨_, .startLdk, .db (.getByStatus .fulfilling), rows⟩ =>
    (rows : List SwapMapping).map (·.paymentHash)
  | _ => []

namespace Onramp

/-! ## The second protocol -/

/-- What a task is at work on. -/
inductive Work where
  | idle
  /-- `fulfill_swap` has won its swap. -/
  | fulfilling (h : String)
  /-- The rest of the monitor's snapshot, and the row whose LM invoice has just been cancelled. -/
  | cancelling (todo : List SwapMapping)
  | cancelled (m : SwapMapping) (todo : List SwapMapping)
  /-- The rest of the recovery's snapshot. -/
  | recovering (todo : List SwapMapping)

/-- The swaps that are still to be written. -/
def Work.rows : Work → List String
  | .idle => []
  | .fulfilling h => [h]
  | .cancelling todo | .recovering todo => todo.map (·.paymentHash)
  | .cancelled m todo => m.paymentHash :: todo.map (·.paymentHash)

/-- The status in which they are. -/
def Work.status : Work → SwapStatus
  | .cancelling _ | .cancelled _ _ => .pending
  | _ => .fulfilling

/-- The operations of the tasks at work. -/
inductive Work.Move : Call → Work → (o : Op) → o.Resp → Work → Prop where
  | quiet {c : Call} {l : Work} {o : Op} {r : o.Resp} : o.swapWork = false → Move c l o r l
  -- fulfill_swap
  | win {h : String} :
      Move (.fulfillSwap h) .idle (.db (.transitionStatus h .pending .fulfilling none)) true
        (.fulfilling h)
  | lose {h : String} :
      Move (.fulfillSwap h) .idle (.db (.transitionStatus h .pending .fulfilling none)) false .idle
  | settle {h : String} {st : SwapStatus} {tx : Option String} : st = .completed ∨ st = .failed →
      Move (.fulfillSwap h) (.fulfilling h) (.db (.updateStatus h st tx)) () .idle
  -- monitor_expired_swaps
  | select {t : ℤ} {rows : List SwapMapping} :
      Move .monitorExpiredSwaps .idle (.db (.getExpiredPending t)) rows (.cancelling rows)
  | unbuilt {m : SwapMapping} {todo : List SwapMapping} {o : Op} {r : o.Resp} :
      o.swapWork = false → Move .monitorExpiredSwaps (.cancelling (m :: todo)) o r (.cancelling todo)
  | accepted {m : SwapMapping} {todo : List SwapMapping} {hex tx : String} :
      Move .monitorExpiredSwaps (.cancelling (m :: todo))
        (.operator (.swap m.paymentHash) (.submitTx ⟨.cancelInvoice m.invoiceId, hex⟩)) (.ok tx)
        (.cancelled m todo)
  | refused {m : SwapMapping} {todo : List SwapMapping} {hex e : String} :
      Move .monitorExpiredSwaps (.cancelling (m :: todo))
        (.operator (.swap m.paymentHash) (.submitTx ⟨.cancelInvoice m.invoiceId, hex⟩)) (.error e)
        (.cancelling todo)
  | expire {m : SwapMapping} {todo : List SwapMapping} {tx : Option String} :
      Move .monitorExpiredSwaps (.cancelled m todo)
        (.db (.updateStatus m.paymentHash .expired tx)) () (.cancelling todo)
  -- recover_fulfilling_swaps
  | scan {rows : List SwapMapping} :
      Move .startLdk .idle (.db (.getByStatus .fulfilling)) rows (.recovering rows)
  | given {m : SwapMapping} {todo : List SwapMapping} {o : Op} {r : o.Resp} :
      o.swapWork = false → Move .startLdk (.recovering (m :: todo)) o r (.recovering todo)
  | finish {m : SwapMapping} {todo : List SwapMapping} {tx : Option String} :
      Move .startLdk (.recovering (m :: todo)) (.db (.updateStatus m.paymentHash .completed tx)) ()
        (.recovering todo)

/-- The work on swaps as a protocol: a task ends when nothing is left to be written. -/
def work : Protocol Op Op.Resp Call Work where
  start _ := .idle
  Move := Work.Move
  Final _ l := l.rows = []

section

variable {cfg : Config} {c : Call} {l l' : Work} {o : Op} {r : o.Resp}

theorem swapWork_of_not_onramp (h : o.onramp = false) : o.swapWork = false := by
  unfold Op.swapWork
  split
  · cases h
  · cases h
  · cases h
  · rfl

theorem works_of_free {α : Type} {p : Relay α} (h : Free p) :
    Follows (Work.Move c) (fun _ l' => l' = l) p l :=
  Prog.Only.follows h fun _ _ ho => .quiet (swapWork_of_not_onramp ho)

theorem works_fulfillSwap (h : String) :
    Follows (Work.Move (.fulfillSwap h)) (fun _ l => l.rows = []) (fulfillSwap h) .idle := by
  refine follows_stay (fun _ => .quiet rfl) ?_
  rintro (_ | m)
  · exact rfl
  refine follows_perform ?_
  rintro (_ | _)
  · exact ⟨_, .lose, rfl⟩
  have hsettle : ∀ st tx, st = .completed ∨ st = .failed →
      Follows (Work.Move (.fulfillSwap h)) (fun _ l => l.rows = []) (db (.updateStatus h st tx))
        (.fulfilling h) := fun st tx hst => follows_last fun _ => ⟨_, .settle hst, rfl⟩
  refine ⟨_, .win, follows_stay (fun _ => .quiet rfl) fun now => ?_⟩
  dsimp only
  split_ifs
  · exact hsettle _ _ (Or.inr rfl)
  refine (works_of_free free_query).bind ?_
  rintro (e | invoice) _ rfl
  · exact hsettle _ _ (Or.inr rfl)
  refine (follows_submitContractTxWithRetry (fun _ _ => .quiet rfl) ?_).bind ?_
  · refine follows_stay (fun _ => .quiet rfl) fun r => ?_
    exact works_of_free (only_thenSubmit r fun _ => rfl)
  · rintro (e | txHash) _ rfl
    · exact hsettle _ _ (Or.inr rfl)
    · exact hsettle _ _ (Or.inl rfl)

theorem works_cancelExpiredSwap (m : SwapMapping) (todo : List SwapMapping) :
    Follows (Work.Move .monitorExpiredSwaps) (fun _ l' => l' = .cancelling todo)
      (cancelExpiredSwap m) (.cancelling (m :: todo)) := by
  refine follows_perform ?_
  rintro (e | hex)
  · exact ⟨_, .unbuilt rfl, rfl⟩
  refine ⟨_, .quiet rfl, follows_perform ?_⟩
  rintro (e | txHash)
  · exact ⟨_, .refused, rfl⟩
  · exact ⟨_, .accepted, follows_last fun _ => ⟨_, .expire, rfl⟩⟩

theorem works_monitorExpiredSwaps :
    Follows (Work.Move .monitorExpiredSwaps) (fun _ l => l.rows = []) monitorExpiredSwaps .idle := by
  refine follows_stay (fun _ => .quiet rfl) fun _ => follows_stay (fun _ => .quiet rfl) fun now => ?_
  refine follows_perform fun expired => ⟨_, .select, ?_⟩
  refine (follows_forEach_todo expired works_cancelExpiredSwap).bind ?_
  rintro _ _ rfl
  exact follows_last fun _ => ⟨_, .quiet rfl, rfl⟩

theorem works_recoverSwap (m : SwapMapping) (todo : List SwapMapping) :
    Follows (Work.Move .startLdk) (fun _ l' => l' = .recovering todo) (recoverSwap m)
      (.recovering (m :: todo)) := by
  refine (works_of_free free_query).bind ?_
  rintro (e | invoice) _ rfl
  · exact follows_last fun _ => ⟨_, .finish, rfl⟩
  refine follows_perform ?_
  rintro (e | hex)
  · exact ⟨_, .given rfl, rfl⟩
  refine ⟨_, .quiet rfl, follows_perform ?_⟩
  rintro (e | txHash)
  · exact ⟨_, .given rfl, rfl⟩
  · exact ⟨_, .quiet rfl, follows_last fun _ => ⟨_, .finish, rfl⟩⟩

theorem works_startLdk :
    Follows (Work.Move .startLdk) (fun _ l => l.rows = []) (startLdk cfg) .idle := by
  have hspawn : Free (do
      spawn .monitorExpiredSwaps
      spawn .monitorExpiredOfframps
      serve) :=
    only_perform rfl fun _ => only_perform rfl fun _ => only_last rfl
  refine follows_perform fun stuck => ⟨_, .scan, ?_⟩
  refine (follows_forEach_todo stuck works_recoverSwap).bind ?_
  rintro _ _ rfl
  refine (works_of_free ?_).mono fun _ _ hl => hl ▸ rfl
  refine free_recoverDepositingOfframps.bind fun _ => ?_
  split_ifs
  · exact free_cancelExpired.bind fun _ => free_cancelExpiredOfframps.bind fun _ => hspawn
  · exact hspawn

/-- The other tasks write to no swap that is there. -/
theorem not_swapWork_of_move {l l' : Stage} (hm : Move c l o r l') (hc : c ≠ .startLdk)
    (hc' : c ≠ .monitorExpiredSwaps) (hc'' : ∀ h, c ≠ .fulfillSwap h) : o.swapWork = false := by
  cases hm with
  | quiet ho => exact swapWork_of_not_onramp ho
  | request | claim | look | spawn => rfl
  | read | unknown | win | lose | check | fulfill | settle => exact absurd rfl (hc'' _)
  | time | snapshot | cancel | expire => exact absurd rfl hc'
  | scan | recover | finish => exact absurd rfl hc

theorem body_works (cfg : Config) (c : Call) :
    Follows (work.Move c) (fun _ => work.Final c) (body cfg c) (work.start c) := by
  have hother : c ≠ .startLdk → c ≠ .monitorExpiredSwaps → (∀ h, c ≠ .fulfillSwap h) →
      Follows (Work.Move c) (fun _ l => l.rows = []) (body cfg c) .idle := fun h₁ h₂ h₃ =>
    Follows.map (fun _ => Work.idle) (body_follows cfg c)
      (fun hm => Work.Move.quiet (not_swapWork_of_move hm h₁ h₂ h₃)) fun _ => rfl
  cases c with
  | startLdk => exact works_startLdk
  | monitorExpiredSwaps => exact works_monitorExpiredSwaps
  | fulfillSwap h => exact works_fulfillSwap h
  | _ => exact hother nofun nofun nofun

end

/-! ## One move -/

/-- What a task at work knows: its swaps are different ones, they are in the status in which it took
them up, and the log says that it did. -/
structure Engaged (w : World) (tid : ℕ) (l : Work) : Prop where
  nodup : l.rows.Nodup
  row : ∀ h ∈ l.rows, ∃ r, w.swap h = some r ∧ r.status = l.status
  logged : ∀ h ∈ l.rows, ∃ e ∈ w.log, e.tid = tid ∧ h ∈ e.swapsTaken

/-- Two tasks are at work on different swaps. -/
def Disjoint (l l' : Work) : Prop := ∀ h ∈ l.rows, h ∉ l'.rows

section

variable {tid tid' : ℕ} {c : Call} {l l' l₀ : Work} {o : Op} {r : o.Resp} {w w' : World}
  {sp : Option Call} {h : String}

/-- What a task is at work on after a move, it was at work on before or has just taken up. -/
theorem rows_of_move (tid : ℕ) (hm : Work.Move c l o r l') (hh : h ∈ l'.rows) :
    h ∈ l.rows ∨ (∃ q, o = .db q) ∧ h ∈ (⟨tid, c, o, r⟩ : Entry).swapsTaken := by
  cases hm with
  | quiet => exact Or.inl hh
  | win | select | scan => exact Or.inr ⟨⟨_, rfl⟩, hh⟩
  | lose | settle => exact absurd hh List.not_mem_nil
  | accepted => exact Or.inl hh
  | unbuilt | refused | expire | given | finish => exact Or.inl (List.mem_cons_of_mem _ hh)

theorem rows_nodup_move (he : Effect tid c o r w w' sp) (hm : Work.Move c l o r l')
    (hn : l.rows.Nodup) : l'.rows.Nodup := by
  have hans := he.answered
  cases hm with
  | quiet | accepted => exact hn
  | win => exact List.nodup_singleton _
  | lose | settle => exact List.nodup_nil
  | unbuilt | refused | expire | given | finish => exact (List.nodup_cons.1 hn).2
  | @select t rows =>
    have hrows : rows = w.db.getExpiredPending t := hans
    rw [hrows]
    exact w.db.swaps.select_keyed _
  | @scan rows =>
    have hrows : rows = w.db.getByStatus .fulfilling := hans
    rw [hrows]
    exact w.db.swaps.select_keyed _

/-- What a move does to a row: nothing, or it is the last write of a task at work on it, or a
Pending swap is won. -/
theorem row_move (he : Effect tid c o r w w' sp) (hm : Work.Move c l o r l')
    (hE : Engaged w tid l) {x : SwapMapping} (hx : w.swap h = some x) :
    ∃ y, w'.swap h = some y ∧ (y = x ∨
      (h ∈ l.rows ∧ h ∉ l'.rows ∧ x.status = l.status ∧ (y.status = .expired → l.status = .pending)) ∨
      h ∈ l'.rows ∧ h ∉ l.rows ∧ x.status = .pending ∧ y.status = .fulfilling) := by
  have hst : h ∈ l.rows → x.status = l.status := by
    intro hh
    obtain ⟨z, hz, hst⟩ := hE.row h hh
    rw [hx] at hz
    exact Option.some.inj hz ▸ hst
  obtain ⟨y, hy, rfl | ⟨st, tx, rfl, rfl⟩ | ⟨n, tx, ho, rfl⟩⟩ := he.swap_cases hx
  · exact ⟨y, hy, Or.inl rfl⟩
  · refine ⟨_, hy, Or.inr (Or.inl ?_)⟩
    cases hm with
    | quiet hq => cases hq
    | unbuilt hq => cases hq
    | given hq => cases hq
    | settle hst' =>
      refine ⟨List.mem_singleton_self _, List.not_mem_nil, hst (List.mem_singleton_self _), ?_⟩
      rcases hst' with rfl | rfl <;> exact nofun
    | expire =>
      exact ⟨List.mem_cons_self, (List.nodup_cons.1 hE.nodup).1, hst List.mem_cons_self, fun _ => rfl⟩
    | finish =>
      exact ⟨List.mem_cons_self, (List.nodup_cons.1 hE.nodup).1, hst List.mem_cons_self, nofun⟩
  · subst ho
    refine ⟨_, hy, ?_⟩
    generalize hxs : x.status = st at hm
    cases hm with
    | quiet hq => cases hq
    | unbuilt hq => cases hq
    | given hq => cases hq
    | win => exact Or.inr (Or.inr ⟨List.mem_singleton_self _, List.not_mem_nil, rfl, rfl⟩)
    | lose =>
      have hans : (w.db.transitionStatus h .pending .fulfilling none).1 = false := by
        rw [← hxs]
        exact Eq.symm he.answered
      rw [SwapDb.transitionStatus_fst_iff.2 ⟨x, hx, hxs⟩] at hans
      cases hans

/-- The rows that a task takes up are in the status that its work starts from. -/
theorem status_of_taken (he : Effect tid c o r w w' sp) (hm : Work.Move c l o r l')
    (hh : h ∈ l'.rows) (hnew : h ∉ l.rows) :
    ∃ y, w'.swap h = some y ∧ y.status = l'.status := by
  have hans := he.answered
  have hrow := he.swap h
  cases hm with
  | quiet => exact absurd hh hnew
  | lose | settle => exact absurd hh List.not_mem_nil
  | accepted => exact absurd hh hnew
  | unbuilt | refused | expire | given | finish => exact absurd (List.mem_cons_of_mem _ hh) hnew
  | @win k =>
    obtain rfl := List.mem_singleton.1 hh
    obtain ⟨x, hx, hst⟩ := SwapDb.transitionStatus_fst_iff.1 hans.symm
    refine ⟨{ x with status := .fulfilling, cardanoTxHash := none }, ?_, rfl⟩
    rw [hrow, World.swap, hx]
    simp [Op.onSwap, DbCall.onSwap, SwapMapping.moved, hst]
  | @select t rows =>
    have hrows : rows = w.db.getExpiredPending t := hans
    obtain ⟨m, hmem, rfl⟩ := List.mem_map.1 hh
    obtain ⟨hm, hst, -⟩ := SwapDb.mem_getExpiredPending.1 (hrows ▸ hmem)
    exact ⟨m, hrow.trans hm, hst⟩
  | @scan rows =>
    have hrows : rows = w.db.getByStatus .fulfilling := hans
    obtain ⟨m, hmem, rfl⟩ := List.mem_map.1 hh
    obtain ⟨hm, hst⟩ := SwapDb.mem_getByStatus.1 (hrows ▸ hmem)
    exact ⟨m, hrow.trans hm, hst⟩

theorem status_of_kept (hm : Work.Move c l o r l') (hh : h ∈ l'.rows) (hold : h ∈ l.rows) :
    l'.status = l.status := by
  cases hm with
  | quiet | accepted | unbuilt | refused | expire | given | finish => rfl
  | lose | settle => exact absurd hh List.not_mem_nil
  | win | select | scan => exact absurd hold List.not_mem_nil

theorem engaged_move (he : Effect tid c o r w w' sp) (hm : Work.Move c l o r l')
    (hE : Engaged w tid l) : Engaged w' tid l' where
  nodup := rows_nodup_move he hm hE.nodup
  row h hh := by
    by_cases hold : h ∈ l.rows
    · obtain ⟨x, hx, hst⟩ := hE.row h hold
      rw [status_of_kept hm hh hold]
      obtain ⟨y, hy, rfl | ⟨-, hno, -⟩ | ⟨-, hno, -⟩⟩ := row_move he hm hE hx
      · exact ⟨y, hy, hst⟩
      · exact absurd hh hno
      · exact absurd hold hno
    · exact status_of_taken he hm hh hold
  logged h hh := by
    rcases rows_of_move tid hm hh with hold | ⟨-, hnew⟩
    · exact logged_mono he (hE.logged h hold)
    · exact ⟨_, he.log ▸ List.mem_cons_self, rfl, hnew⟩

/-- A task at work on other swaps is not disturbed. -/
theorem engaged_mono (he : Effect tid c o r w w' sp) (hm : Work.Move c l o r l')
    (hE : Engaged w tid l) (hE' : Engaged w tid' l₀) (hd : Disjoint l l₀) (hd' : Disjoint l' l₀) :
    Engaged w' tid' l₀ where
  nodup := hE'.nodup
  row h hh := by
    obtain ⟨x, hx, hst⟩ := hE'.row h hh
    obtain ⟨y, hy, rfl | ⟨hmine, -⟩ | ⟨hmine, -⟩⟩ := row_move he hm hE hx
    · exact ⟨y, hy, hst⟩
    · exact absurd hh (hd h hmine)
    · exact absurd hh (hd' h hmine)
  logged h hh := logged_mono he (hE'.logged h hh)

theorem Engaged.calm (hc : Calm w w') (hE : Engaged w tid l) : Engaged w' tid l := by
  refine ⟨hE.nodup, ?_, ?_⟩
  · intro h hh
    rw [hc.swap h]
    exact hE.row h hh
  · rw [hc.log]
    exact hE.logged

theorem engaged_idle : Engaged w tid .idle :=
  ⟨List.nodup_nil, fun _ hh => absurd hh List.not_mem_nil, fun _ hh => absurd hh List.not_mem_nil⟩

/-- What a task takes up is free. -/
theorem disjoint_move {s : Sys} {a : Answers} {t : Task Op Op.Resp Call}
    (hok : exclusive Entry.swapsTaken s (.task tid a) = true)
    (htask : ∃ f, s.tasks tid = some ⟨c, .op o f⟩) (he : Effect tid c o r s.world w' sp)
    (hm : Work.Move c l o r l') (hd : Disjoint l l₀) (hE' : Engaged s.world tid' l₀)
    (hne : tid' ≠ tid) (hlt : tid' < s.next) (ht : s.tasks tid' = some t)
    (hrun : l₀.rows ≠ [] → t.rest.ended = false) : Disjoint l' l₀ := by
  intro h hh hh'
  rcases rows_of_move tid hm hh with hold | ⟨⟨q, rfl⟩, hnew⟩
  · exact hd h hold hh'
  · exact not_taken_of_logged hok htask he hne hlt ht (hrun (List.ne_nil_of_mem hh'))
      (hE'.logged h hh') hnew

end

/-! ## All runs -/

/-- The monitor does not select a swap whose payment was received, and no payment is received for a
swap that is Expired or that the monitor is at work on. -/
def heeded (s : Sys) : Act → Bool
  | .task tid _ =>
    match s.tasks tid with
    | some ⟨_, .op (.db (.getExpiredPending t)) _⟩ =>
      (s.world.db.getExpiredPending t).all fun m => !s.world.claimReported m.paymentHash
    | _ => true
  | .env (.deliver (.paymentClaimed h _ _ _)) =>
    ((s.world.swap h).all fun r => r.status ≠ .expired) &&
      (List.range s.next).all fun tid =>
        !((s.tasks tid).any fun t => t.call = .monitorExpiredSwaps) ||
          !atWork Entry.swapsTaken s tid h
  | .env _ => true

/-- No task takes up a swap that another one is at work on, and the monitor leaves alone what was
paid. -/
def peaceful (s : Sys) (a : Act) : Bool := exclusive Entry.swapsTaken s a && heeded s a

/-- What a task at work knows: it is engaged with its swaps, and if it is about to expire them their
payments were not received. -/
structure Peace (w : World) (tid : ℕ) (c : Call) (l : Work) : Prop where
  engaged : Engaged w tid l
  unpaid : l.status = .pending → c = .monitorExpiredSwaps ∧ ∀ h ∈ l.rows, w.claimReported h = false

/-- A swap whose payment was received is not Expired. -/
def Honoured (w : World) : Prop :=
  ∀ h r, w.swap h = some r → w.claimReported h = true → r.status ≠ .expired

/-- The swaps with the tasks at work on them. -/
def finality : Discipline Op Op.Resp World Call (Stage × Option Work) :=
  (onramp.refine work).extend Honoured (fun w tid c l => ∀ m, l.2 = some m → Peace w tid c m)
    fun _ l _ l' => ∀ m m', l.2 = some m → l'.2 = some m' → Disjoint m m'

section

variable {tid tid' : ℕ} {c : Call} {l l' l₀ : Work} {o : Op} {r : o.Resp} {s : Sys} {w' : World}
  {sp : Option Call}

theorem unpaid_move {a : Answers} (hok : heeded s (.task tid a) = true)
    (htask : ∃ f, s.tasks tid = some ⟨c, .op o f⟩) (he : Effect tid c o r s.world w' sp)
    (hm : Work.Move c l o r l') (hP : Peace s.world tid c l) (hst : l'.status = .pending) :
    c = .monitorExpiredSwaps ∧ ∀ h ∈ l'.rows, w'.claimReported h = false := by
  simp only [claimReported_eq he.delivered]
  cases hm with
  | quiet => exact hP.unpaid hst
  | accepted => exact ⟨rfl, (hP.unpaid rfl).2⟩
  | unbuilt | refused | expire =>
    exact ⟨rfl, fun h hh => (hP.unpaid rfl).2 h (List.mem_cons_of_mem _ hh)⟩
  | @select t rows =>
    obtain ⟨f, ht⟩ := htask
    have hrows : rows = s.world.db.getExpiredPending t := he.answered
    simp only [heeded, ht, List.all_eq_true, ← hrows] at hok
    refine ⟨rfl, fun h hh => ?_⟩
    obtain ⟨m, hmem, rfl⟩ := List.mem_map.1 hh
    simpa using hok m hmem
  | _ => cases hst

theorem honoured_move {l₁ l₁' : Stage} (he : Effect tid c o r s.world w' sp)
    (hm₁ : Move c l₁ o r l₁') (hm : Work.Move c l o r l') (hP : Peace s.world tid c l)
    (hH : Honoured s.world) : Honoured w' := by
  intro h y hy hrep
  rw [claimReported_eq he.delivered] at hrep
  rcases hx : s.world.swap h with _ | x
  · have hrow := rowMove he hm₁ h
    rw [hx, hy] at hrow
    cases hrow with
    | insert hst => simp [hst]
  · obtain ⟨z, hz, hcase⟩ := row_move he hm hP.engaged hx
    rw [hy] at hz
    obtain rfl := Option.some.inj hz
    rcases hcase with rfl | ⟨hh, -, -, hexp⟩ | ⟨-, -, -, hful⟩
    · exact hH h _ hx hrep
    · intro hst
      rw [(hP.unpaid (hexp hst)).2 h hh] at hrep
      cases hrep
    · simp [hful]

theorem peace_idle : Peace w' tid c .idle := ⟨engaged_idle, nofun⟩

theorem peace_move {a : Answers} (hok : peaceful s (.task tid a) = true)
    (htask : ∃ f, s.tasks tid = some ⟨c, .op o f⟩) (he : Effect tid c o r s.world w' sp)
    (hm : Work.Move c l o r l') (hP : Peace s.world tid c l) : Peace w' tid c l' where
  engaged := engaged_move he hm hP.engaged
  unpaid := unpaid_move (Bool.and_eq_true_iff.1 hok).2 htask he hm hP

theorem peace_mono {d : Call} (he : Effect tid c o r s.world w' sp) (hm : Work.Move c l o r l')
    (hP : Peace s.world tid c l) (hP' : Peace s.world tid' d l₀) (hd : Disjoint l l₀)
    (hd' : Disjoint l' l₀) : Peace w' tid' d l₀ where
  engaged := engaged_mono he hm hP.engaged hP'.engaged hd hd'
  unpaid hst := by
    simp only [claimReported_eq he.delivered]
    exact hP'.unpaid hst

theorem honoured_react {e : Env} {ch : Change Call} (hr : Reaction s.world e w' ch)
    (hok : heeded s (.env e) = true) (hH : Honoured s.world) : Honoured w' := by
  intro h x hx hrep
  rw [hr.calm.swap h] at hx
  by_cases hold : s.world.claimReported h = true
  · exact hH h x hx hold
  cases hr with
  | @deliver event =>
    rw [claimReported_deliver, Bool.or_eq_true, decide_eq_true_eq] at hrep
    have hev := hrep.resolve_right hold
    cases event with
    | paymentClaimed h' _ _ _ =>
      obtain rfl := Option.some.inj hev
      simp only [heeded, Bool.and_eq_true, hx, Option.all_some] at hok
      simpa using hok.1
    | _ => cases hev
  | _ => exact absurd hrep hold

theorem peace_react {e : Env} {ch : Change Call} {t : Task Op Op.Resp Call}
    (hr : Reaction s.world e w' ch) (hok : heeded s (.env e) = true) (ht : s.tasks tid = some t)
    (hlt : tid < s.next) (hrun : l.rows ≠ [] → t.rest.ended = false)
    (hP : Peace s.world tid t.call l) : Peace w' tid t.call l := by
  refine ⟨hP.engaged.calm hr.calm, fun hst => ⟨(hP.unpaid hst).1, fun h hh => ?_⟩⟩
  have hold := (hP.unpaid hst).2 h hh
  cases hr with
  | @deliver event =>
    rw [claimReported_deliver, hold, Bool.or_false, decide_eq_false_iff_not]
    intro hev
    cases event with
    | paymentClaimed h' _ _ _ =>
      obtain rfl := Option.some.inj hev
      -- the monitor is at work on a swap whose payment arrives
      obtain ⟨e, hmem, htid, hk⟩ := hP.engaged.logged _ hh
      have hwork := atWork_of_log ht (hrun (List.ne_nil_of_mem hh)) hmem htid hk
      simp only [heeded, Bool.and_eq_true, List.all_eq_true] at hok
      have := hok.2 tid (List.mem_range.2 hlt)
      simp [ht, (hP.unpaid hst).1, hwork] at this
    | _ => cases hev
  | _ => exact hold

/-- A task at work is not at its start. -/
theorem ne_start_of_rows (hrows : l.rows ≠ []) : l ≠ work.start c := by
  rintro rfl
  exact hrows rfl

theorem Disjoint.symm (hd : Disjoint l l') : Disjoint l' l := fun h hh hh' => hd h hh' hh

theorem finality_sound (cfg : Config) (now : ℤ) :
    finality.Sound (relay cfg) (fun s a => peaceful s a = true) (World.fresh cfg now) := by
  refine ((onramp_sound cfg now).refine (body_works cfg)).extend (fun _ _ _ => trivial) ?_
  have hidle : ∀ (w : World) (tid : ℕ) (c : Call) (m : Work),
      some (work.start c) = some m → Peace w tid c m := by
    rintro w tid c _ ⟨⟩
    exact peace_idle
  have hapart : ∀ {l : Stage × Option Work} {c : Call} (m m' : Work), l.2 = some m →
      some (work.start c) = some m' → Disjoint m m' := by
    rintro l c m _ - ⟨⟩ h -
    exact List.not_mem_nil
  have hsplit : ∀ {s : Sys} {a : Act}, peaceful s a = true →
      exclusive Entry.swapsTaken s a = true ∧ heeded s a = true := fun h => Bool.and_eq_true_iff.1 h
  exact {
    symm := fun h m m' hm hm' => (h m' m hm' hm).symm
    init := ⟨fun _ _ h => (nomatch h), hidle _ _ _⟩
    move := fun turn hp hm => by
      have he := effect_of_perform hp
      obtain ⟨a, b, ha, hW, hb⟩ := hm.2.move
      have hP := turn.owned.2 a ha
      refine ⟨honoured_move he hm.1 hW hP turn.shared.2, fun m hm' => ?_⟩
      rw [hb m hm']
      exact peace_move turn.ok turn.task he hW hP
    others := fun turn hp hm hne ht hkeep howned hap => by
      have he := effect_of_perform hp
      obtain ⟨a, b, ha, hW, hb⟩ := hm.2.move
      have hP := turn.owned.2 a ha
      have hdis : ∀ m₀, _ = some m₀ → Disjoint b m₀ := fun m₀ hm₀ =>
        disjoint_move (hsplit turn.ok).1 turn.task he hW (hap.2 a m₀ ha hm₀)
          (howned.2 m₀ hm₀).engaged hne (turn.reach.fresh.lt_next ht) ht fun hrows =>
            Discipline.not_ended_of_refine hkeep hm₀ (ne_start_of_rows hrows)
      refine ⟨fun m₀ hm₀ => ?_, fun m m₀ hm' hm₀ => ?_⟩
      · exact peace_mono he hW hP (howned.2 m₀ hm₀) (hap.2 a m₀ ha hm₀) (hdis m₀ hm₀)
      · rw [hb m hm']
        exact hdis m₀ hm₀
    spawned := fun _ _ _ => ⟨hidle _ _ _, hapart, fun _ _ _ _ _ => hapart⟩
    abort := fun turn hp => by
      obtain rfl := abort_of_perform hp
      exact ⟨turn.shared.2, hidle _ _ _⟩
    react := fun next hr =>
      honoured_react (reaction_of_react hr) (hsplit next.ok).2 next.shared.2
    reactOthers := fun next hr _ ht hkeep howned m hm =>
      peace_react (reaction_of_react hr) (hsplit next.ok).2 ht (next.reach.fresh.lt_next ht)
        (fun hrows => Discipline.not_ended_of_refine hkeep hm (ne_start_of_rows hrows)) (howned.2 m hm)
    reactSpawn := fun _ _ => ⟨hidle _ _ _, fun _ _ _ => hapart⟩
    reactRestart := fun _ _ => hidle _ _ _ }

end

/-! ## What follows -/

section

variable {cfg : Config} {now : ℤ} {s : Sys}

/-- In every peaceful run: a swap whose payment was received is not Expired, a swap that is
Completed, Failed or Expired keeps its status and its transaction hash in every step, and a swap
that becomes Expired was Pending. -/
theorem terminal_final (hs : ReachableBy cfg now (fun s a => peaceful s a = true) s) :
    (∀ h r, s.world.swap h = some r → s.world.claimReported h = true → r.status ≠ .expired) ∧
    ∀ act s', peaceful s act = true → (relay cfg).step s act = some s' →
      ∀ h x, s.world.swap h = some x → ∃ y, s'.world.swap h = some y ∧
        (x.status = .completed ∨ x.status = .failed ∨ x.status = .expired →
          y.status = x.status ∧ y.cardanoTxHash = x.cardanoTxHash) ∧
        (y.status = .expired → x.status = .expired ∨ x.status = .pending) := by
  obtain ⟨L, hL⟩ := (finality_sound cfg now).holds hs
  refine ⟨hL.shared.2, fun act s' _ hstep h x hx => ?_⟩
  rcases world_of_step hstep with ⟨tid, c, o, k, a, r, sp, -, ht, hp⟩ | hcalm
  · obtain ⟨l', hm, -⟩ := (hL.keeps ht).move r
    obtain ⟨l, m, hl, hW, -⟩ := hm.2.move
    have hE := ((hL.owned ht).2 l hl).engaged
    obtain ⟨y, hy, rfl | ⟨-, -, hst, hexp⟩ | ⟨-, -, hst, hful⟩⟩ := row_move (effect_of_perform hp) hW hE hx
    · exact ⟨y, hy, fun _ => ⟨rfl, rfl⟩, Or.inl⟩
    · -- a task writes to the swaps it is at work on, which are Pending or Fulfilling
      refine ⟨y, hy, fun hterm => ?_, fun h => Or.inr (hst.trans (hexp h))⟩
      cases l <;> simp [hst, Work.status] at hterm
    · refine ⟨y, hy, fun hterm => ?_, fun _ => Or.inr hst⟩
      simp [hst] at hterm
  · exact ⟨x, (hcalm.swap h).trans hx, fun _ => ⟨rfl, rfl⟩, Or.inl⟩

end

set_option maxRecDepth 100000 in
/-- The swap of the devnet run is Completed, and the monitor's next step leaves it so. -/
theorem terminal_final_fulfilled : ∃ s s' x y,
    ReachableBy Devnet.config Devnet.startTime (fun s a => peaceful s a = true) s ∧
    peaceful s (.task 1 Devnet.ok) = true ∧
    (relay Devnet.config).step s (.task 1 Devnet.ok) = some s' ∧
    s.world.swap Devnet.invoice1.paymentHash = some x ∧ x.status = .completed ∧
    s'.world.swap Devnet.invoice1.paymentHash = some y ∧ y.status = x.status ∧
    y.cardanoTxHash = x.cardanoTxHash := by
  obtain ⟨s, hs, hp⟩ := Devnet.reachableBy_of_after peaceful Devnet.fulfilledRun (fun s =>
    peaceful s (.task 1 Devnet.ok) && ((relay Devnet.config).step s (.task 1 Devnet.ok)).isSome &&
      (s.world.swap Devnet.invoice1.paymentHash).any fun x => x.status = .completed)
    (by decide +kernel)
  simp only [Bool.and_eq_true, Option.isSome_iff_exists, Option.any_eq_true,
    decide_eq_true_eq] at hp
  obtain ⟨⟨hok, s', hstep⟩, x, hx, hst⟩ := hp
  obtain ⟨y, hy, hfinal, -⟩ := (terminal_final hs).2 _ s' hok hstep _ x hx
  exact ⟨s, s', x, y, hs, hok, hstep, hx, hst, hy, hfinal (Or.inl hst)⟩

/-- The monitor has selected the first swap when its payment is handled; `fulfill_swap` marks it
Failed, and the monitor has cancelled its LM invoice. -/
def overtakenRun : List Act :=
  Devnet.claimedRun ++ .env (.tick 3600001) :: Devnet.steps 1 3 Devnet.ok ++
    Devnet.steps 6 4 Devnet.ok ++ Devnet.steps 1 2 Devnet.ok

set_option maxRecDepth 100000 in
/-- The swap, whose payment was received, is Failed, and the monitor's next step makes it Expired. -/
theorem devnet_failed_then_expired : ∃ s s' x y, Reachable Devnet.config Devnet.startTime s ∧
    (relay Devnet.config).step s (.task 1 Devnet.ok) = some s' ∧
    s.world.swap Devnet.invoice1.paymentHash = some x ∧ x.status = .failed ∧
    s'.world.swap Devnet.invoice1.paymentHash = some y ∧ y.status = .expired ∧
    s'.world.claimReported Devnet.invoice1.paymentHash = true := by
  obtain ⟨s, hs, hp⟩ := Devnet.reachable_of_after overtakenRun (fun s =>
    ((relay Devnet.config).step s (.task 1 Devnet.ok)).any fun s' =>
      ((s.world.swap Devnet.invoice1.paymentHash).any fun x => x.status = .failed) &&
      ((s'.world.swap Devnet.invoice1.paymentHash).any fun y => y.status = .expired) &&
      s'.world.claimReported Devnet.invoice1.paymentHash) (by decide +kernel)
  simp only [Option.any_eq_true, Bool.and_eq_true, decide_eq_true_eq] at hp
  obtain ⟨s', hstep, ⟨⟨x, hx, hxst⟩, y, hy, hyst⟩, hrep⟩ := hp
  exact ⟨s, s', x, y, hs, hstep, hx, hxst, hy, hyst, hrep⟩

end Onramp

end LightningRelay
