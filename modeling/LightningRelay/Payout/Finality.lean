import LightningRelay.Payout.Work

/-!
# Terminal offramps

Most writes to an offramp are unguarded: a task has decided on a row, waited for Cardano or Lightning,
and writes whatever the row is by then.  Where no task takes up an offramp that another one is at work
on, every such write finds the row as its task left it.

* `turns`: how the status of an offramp may change in one operation.
* `finality_sound`: what the tasks at work rely on, in every run in which they are left alone.
* `offramp_terminal_final`: then a Completed or Failed offramp keeps its status.
-/

set_option autoImplicit false

namespace LightningRelay

open Async

namespace Payout

/-- The offramps that a task will write to without a guard. -/
def Work.rows : Work → List ℤ
  | .holding id | .failing id => [id]
  | .took m | .stored m => [m.offrampId]
  | .cancelling todo => unfailed todo
  | .cancelled m todo => unfailed (m :: todo)
  | .recovering todo => todo.map (·.offrampId)
  | _ => []

/-- The statuses in which a task expects them. -/
def Work.expects : Work → OfframpStatus → Bool
  | .holding _, st => st = .pendingVerification || st = .payingLightning
  | .failing _, st => st ≠ .completed
  | .took _, st | .stored _, st | .recovering _, st => st = .depositingToPool
  | .cancelling _, st | .cancelled _ _, st => st = .awaitingDeposit
  | _, _ => false

/-- The offramps that a task knows to be Failed. -/
def Work.gone : Work → List ℤ
  | .failed id | .clearing id => [id]
  | .cancelling todo => (todo.filter fun m => m.status = .failed).map (·.offrampId)
  | .cancelled m todo => ((m :: todo).filter fun m => m.status = .failed).map (·.offrampId)
  | _ => []

/-- How the status of offramp `id` may change by the operation `o`. -/
inductive Turns (id : ℤ) (o : Op) :
    Call → Work → Work → OfframpStatus → OfframpStatus → Prop where
  | same {c : Call} {l l' : Work} {st : OfframpStatus} : Turns id o c l l' st st
  | own {c : Call} {l l' : Work} {st st' : OfframpStatus} : id ∈ l.rows → st ≠ .failed →
      (id ∈ l'.rows → l'.expects st' = true) → Turns id o c l l' st st'
  | taken {c : Call} {l l' : Work} {st st' : OfframpStatus} : id ∈ l'.rows →
      l'.expects st' = true → st = .awaitingDeposit ∨ st = .payingLightning →
      Turns id o c l l' st st'
  | reset : o = .db (.transitionOfframpStatus id .pendingVerification .awaitingDeposit) →
      Turns id o .startLdk .idle .idle .pendingVerification .awaitingDeposit
  | cut : o = .db (.transitionOfframpStatus id .payingLightning .failed) →
      Turns id o .startLdk .idle (.clearing id) .payingLightning .failed

/-- A task is at work on its offramps: they are as it expects them, and it has taken them up. -/
structure Engaged (w : World) (tid : ℕ) (l : Work) : Prop where
  nodup : l.rows.Nodup
  row : ∀ id ∈ l.rows, ∃ r, w.offramp id = some r ∧ l.expects r.status = true
  gone : ∀ id ∈ l.gone, ∃ r, w.offramp id = some r ∧ r.status = .failed
  logged : ∀ id ∈ l.rows, ∃ e ∈ w.log, e.tid = tid ∧ id ∈ e.offrampsTaken

/-- Two tasks work on different offramps. -/
def Disjoint (l l' : Work) : Prop := ∀ id ∈ l.rows, id ∉ l'.rows

section

variable {tid tid' : ℕ} {c : Call} {l l' l₀ : Work} {o : Op} {r : o.Resp} {w w' : World}
  {sp : Option Call} {id : ℤ} {st : OfframpStatus}

theorem Disjoint.symm (hd : Disjoint l l') : Disjoint l' l := fun id hh hh' => hd id hh' hh

@[simp] theorem not_expects_completed : l.expects .completed = false := by
  cases l <;> rfl

/-- The startup changes only statuses that a task at work does not mind, or that a deposit has. -/
theorem expects_reset (h : l.expects .pendingVerification = true) :
    l.expects .awaitingDeposit = true ∨ ∃ id, l = .holding id := by
  cases l <;> simp [Work.expects] at h ⊢

theorem expects_cut (h : l.expects .payingLightning = true) :
    l.expects .failed = true ∨ ∃ id, l = .holding id := by
  cases l <;> simp [Work.expects] at h ⊢

theorem mem_unfailed {rows : List OfframpMapping} :
    id ∈ unfailed rows ↔ ∃ m ∈ rows, m.status ≠ .failed ∧ m.offrampId = id := by
  simp [unfailed, and_assoc]

theorem unfailed_subset {m : OfframpMapping} {rows : List OfframpMapping}
    (h : id ∈ unfailed rows) : id ∈ unfailed (m :: rows) := by
  obtain ⟨x, hx, hst⟩ := mem_unfailed.1 h
  exact mem_unfailed.2 ⟨x, List.mem_cons_of_mem _ hx, hst⟩

theorem nodup_unfailed {rows : List OfframpMapping} (h : (rows.map (·.offrampId)).Nodup) :
    (unfailed rows).Nodup :=
  h.sublist (List.filter_sublist.map _)

theorem nodup_unfailed_tail {m : OfframpMapping} {rows : List OfframpMapping}
    (h : (unfailed (m :: rows)).Nodup) : (unfailed rows).Nodup :=
  h.sublist ((List.Sublist.filter _ (List.sublist_cons_self m rows)).map _)

/-- A row that a task at work writes to is as it expects it. -/
theorem Engaged.expected (hE : Engaged w tid l) {x : OfframpMapping} (hx : w.offramp id = some x)
    (hid : id ∈ l.rows) : l.expects x.status = true := by
  obtain ⟨y, hy, hst⟩ := hE.row id hid
  rw [hx] at hy
  cases hy
  exact hst

theorem Engaged.failed (hE : Engaged w tid l) {x : OfframpMapping} (hx : w.offramp id = some x)
    (hid : id ∈ l.gone) : x.status = .failed := by
  obtain ⟨y, hy, hst⟩ := hE.gone id hid
  rw [hx] at hy
  cases hy
  exact hst

/-- How an unguarded write changes the status. -/
theorem turns_update {p d e : Option String} {x : OfframpMapping}
    {r : (Op.db (.updateOfframpStatus id st p d e)).Resp}
    (hm : Work.Move c l (.db (.updateOfframpStatus id st p d e)) r l') (hE : Engaged w tid l)
    (hx : w.offramp id = some x) :
    Turns id (.db (.updateOfframpStatus id st p d e)) c l l' x.status st := by
  -- a task that expects the row not to be Failed, and is done with it
  have hdone : id ∈ l.rows → l.expects .failed = false → id ∉ l'.rows →
      Turns id (.db (.updateOfframpStatus id st p d e)) c l l' x.status st := by
    intro hid hexp hno
    refine .own hid ?_ (absurd · hno)
    intro hst
    have := hE.expected hx hid
    rw [hst, hexp] at this
    cases this
  cases hm with
  | quiet h | unbuilt h | given h => cases h
  | revert | unpaid => exact hdone (List.mem_singleton_self _) rfl List.not_mem_nil
  | store =>
    have hst := hE.expected hx (List.mem_singleton_self _)
    rw [of_decide_eq_true hst]
    exact .same
  | conclude => exact hdone (List.mem_singleton_self _) rfl List.not_mem_nil
  | fail =>
    by_cases hst : x.status = .failed
    · rw [hst]
      exact .same
    · exact .own (List.mem_singleton_self _) hst fun h => absurd h List.not_mem_nil
  | withdrawn | clear =>
    rw [hE.failed hx (List.mem_singleton_self _)]
    exact .same
  | @expire m todo =>
    by_cases hst : m.status = .failed
    · rw [hE.failed hx (by simp [Work.gone, hst])]
      exact .same
    · refine hdone (mem_unfailed.2 ⟨m, List.mem_cons_self, hst, rfl⟩) rfl ?_
      have hn := hE.nodup
      simp only [Work.rows, unfailed, List.filter_cons, hst, ne_eq, not_false_eq_true, decide_true,
        if_true, List.map_cons, List.nodup_cons] at hn
      exact hn.1
  | finish =>
    have hn : (_ :: _).Nodup := hE.nodup
    exact hdone List.mem_cons_self rfl (List.nodup_cons.1 hn).1

/-- How a guarded write that finds its row changes the status. -/
theorem turns_transition {e n : OfframpStatus} {x : OfframpMapping}
    {r : (Op.db (.transitionOfframpStatus id e n)).Resp}
    (he : Effect tid c (.db (.transitionOfframpStatus id e n)) r w w' sp)
    (hm : Work.Move c l (.db (.transitionOfframpStatus id e n)) r l')
    (hx : w.offramp id = some x) (hst : x.status = e) :
    Turns id (.db (.transitionOfframpStatus id e n)) c l l' e n := by
  have hans : r = true :=
    he.answered.trans (SwapDb.transitionOfframpStatus_fst_iff.2 ⟨x, hx, hst⟩)
  cases hm with
  | quiet h | unbuilt h | given h => cases h
  | claim => exact .taken (List.mem_singleton_self _) rfl (Or.inl rfl)
  | take => exact .taken (List.mem_singleton_self _) rfl (Or.inr rfl)
  | reset => exact .reset rfl
  | cut => exact .cut rfl
  | missed | lose | uncut => cases hans

/-- The row after a guarded write that found it. -/
theorem offramp_of_moved {e n : OfframpStatus}
    (he : Effect tid c (.db (.transitionOfframpStatus id e n)) true w w' sp) :
    ∃ y, w'.offramp id = some y ∧ y.status = n := by
  obtain ⟨x, hx, hst⟩ := SwapDb.transitionOfframpStatus_fst_iff.1 he.answered.symm
  have hrow := he.offramp id
  rw [show w.offramp id = some x from hx] at hrow
  simp only [Op.onOfframp, DbCall.onOfframp, Option.map_some, OfframpMapping.moved, hst,
    if_true] at hrow
  exact ⟨_, hrow, rfl⟩

/-- How the status of an offramp changes in one operation. -/
theorem turns (he : Effect tid c o r w w' sp) (hm : Work.Move c l o r l') (hE : Engaged w tid l)
    {x : OfframpMapping} (hx : w.offramp id = some x) :
    ∃ y, w'.offramp id = some y ∧ Turns id o c l l' x.status y.status := by
  obtain ⟨y, hy, rfl | ⟨st, p, d, e, rfl, rfl⟩ | ⟨n, rfl, rfl⟩ | ⟨tx, n, rfl, rfl⟩⟩ :=
    he.offramp_cases hx
  · exact ⟨y, hy, .same⟩
  · exact ⟨_, hy, turns_update hm hE hx⟩
  · exact ⟨_, hy, turns_transition he hm hx rfl⟩
  · refine ⟨_, hy, ?_⟩
    generalize hst : x.status = e at hm
    cases hm with
    | quiet h | unbuilt h | given h => cases h
    | record => exact .own (List.mem_singleton_self _) nofun fun _ => rfl

/-- A Failed offramp stays Failed. -/
theorem Turns.failed (ht : Turns id o c l l' .failed st) : st = .failed := by
  cases ht with
  | same => rfl
  | own _ hne => exact absurd rfl hne
  | taken _ _ h => rcases h with h | h <;> cases h

/-- A Completed or Failed offramp keeps its status: no task at work expects its row to be
Completed. -/
theorem terminal_move (he : Effect tid c o r w w' sp) (hm : Work.Move c l o r l')
    (hE : Engaged w tid l) {x : OfframpMapping} (hx : w.offramp id = some x)
    (hst : x.status = .completed ∨ x.status = .failed) :
    ∃ y, w'.offramp id = some y ∧ y.status = x.status := by
  obtain ⟨y, hy, ht⟩ := turns he hm hE hx
  refine ⟨y, hy, ?_⟩
  rcases hst with hst | hst
  · rw [hst] at ht ⊢
    generalize y.status = st at ht
    cases ht with
    | same => rfl
    | own hid => simpa [hst] using hE.expected hx hid
    | taken _ _ h => rcases h with h | h <;> cases h
  · rw [hst] at ht ⊢
    exact ht.failed

theorem failed_mono (he : Effect tid c o r w w' sp) (hm : Work.Move c l o r l')
    (hE : Engaged w tid l) (h : ∃ x, w.offramp id = some x ∧ x.status = .failed) :
    ∃ y, w'.offramp id = some y ∧ y.status = .failed := by
  obtain ⟨x, hx, hst⟩ := h
  obtain ⟨y, hy, hkept⟩ := terminal_move he hm hE hx (Or.inr hst)
  exact ⟨y, hy, hkept.trans hst⟩

/-! ## The task that moves -/

/-- The rows after a move were rows before it, or it takes them up. -/
theorem rows_of_move (tid : ℕ) (hm : Work.Move c l o r l') (hid : id ∈ l'.rows) :
    id ∈ l.rows ∨ (∃ q, o = .db q) ∧ id ∈ (⟨tid, c, o, r⟩ : Entry).offrampsTaken := by
  cases hm with
  | quiet | handed | record | store | accepted => exact Or.inl hid
  | claim | take | alarm | select | scan => exact Or.inr ⟨⟨_, rfl⟩, hid⟩
  | unbuilt | refused | expire => exact Or.inl (unfailed_subset hid)
  | given | finish => exact Or.inl (List.mem_cons_of_mem _ hid)
  | _ => exact absurd hid List.not_mem_nil

theorem rows_nodup_move (he : Effect tid c o r w w' sp) (hm : Work.Move c l o r l')
    (hn : l.rows.Nodup) : l'.rows.Nodup := by
  have hans := he.answered
  cases hm with
  | quiet | handed | record | store | accepted => exact hn
  | claim | take | alarm => exact List.nodup_singleton _
  | @select t rows =>
    have hrows : rows = w.db.getExpiredOfframps t := hans
    subst hrows
    exact nodup_unfailed (Sql.Table.select_keyed w.db.offramps _)
  | @scan rows =>
    have hrows : rows = w.db.getOfframpsByStatus .depositingToPool := hans
    subst hrows
    exact Sql.Table.select_keyed w.db.offramps _
  | unbuilt | refused | expire => exact nodup_unfailed_tail hn
  | given | finish => exact (List.nodup_cons.1 hn).2
  | _ => exact List.nodup_nil

/-- A task expects its rows in the same statuses until it is done with them. -/
theorem expects_of_kept (hm : Work.Move c l o r l') (hid : id ∈ l'.rows) (hold : id ∈ l.rows) :
    l'.expects st = l.expects st := by
  cases hm with
  | quiet | handed | record | store | accepted | unbuilt | refused | expire | given | finish => rfl
  | claim | take | alarm | select | scan => exact absurd hold List.not_mem_nil
  | _ => exact absurd hid List.not_mem_nil

/-- A task finds the rows that it takes up in a status that it expects. -/
theorem expects_of_taken (he : Effect tid c o r w w' sp) (hm : Work.Move c l o r l')
    (hid : id ∈ l'.rows) (hnew : id ∉ l.rows)
    (halarm : ∀ h, c = .handleOfframpPaymentFailed h → o = .db (.getOfframpByPaymentHash h) →
      ∀ x, w.db.getOfframpByPaymentHash h = some x → x.status ≠ .completed) :
    ∃ y, w'.offramp id = some y ∧ l'.expects y.status = true := by
  have hans := he.answered
  have hrow := he.offramp id
  cases hm with
  | quiet | handed | record | store | accepted => exact absurd hid hnew
  | unbuilt | refused | expire => exact absurd (unfailed_subset hid) hnew
  | given | finish => exact absurd (List.mem_cons_of_mem _ hid) hnew
  | claim | take =>
    obtain rfl := List.mem_singleton.1 hid
    obtain ⟨y, hy, hst⟩ := offramp_of_moved he
    exact ⟨y, hy, by rw [hst]; rfl⟩
  | @alarm h m =>
    obtain rfl := List.mem_singleton.1 hid
    have hread : w.db.getOfframpByPaymentHash h = some m := hans.symm
    refine ⟨m, hrow.trans (SwapDb.getOfframpByPaymentHash_eq_some hread).1, ?_⟩
    exact decide_eq_true (halarm h rfl rfl m hread)
  | @select t rows =>
    have hrows : rows = w.db.getExpiredOfframps t := hans
    obtain ⟨m, hmem, hne, rfl⟩ := mem_unfailed.1 hid
    obtain ⟨hm, hst, -⟩ := SwapDb.mem_getExpiredOfframps.1 (hrows ▸ hmem)
    exact ⟨m, hrow.trans hm, decide_eq_true (hst.resolve_right hne)⟩
  | @scan rows =>
    have hrows : rows = w.db.getOfframpsByStatus .depositingToPool := hans
    obtain ⟨m, hmem, rfl⟩ := List.mem_map.1 hid
    obtain ⟨hm, hst⟩ := SwapDb.mem_getOfframpsByStatus.1 (hrows ▸ hmem)
    exact ⟨m, hrow.trans hm, decide_eq_true hst⟩
  | _ => exact absurd hid List.not_mem_nil

/-- The offramps that a task knows to be Failed after a move. -/
theorem gone_move (he : Effect tid c o r w w' sp) (hm : Work.Move c l o r l')
    (hE : Engaged w tid l) (hid : id ∈ l'.gone) :
    ∃ y, w'.offramp id = some y ∧ y.status = .failed := by
  have hold : id ∈ l.gone → ∃ y, w'.offramp id = some y ∧ y.status = .failed := fun h =>
    failed_mono he hm hE (hE.gone id h)
  have hrow := he.offramp id
  cases hm with
  | quiet | handed | withdraw | withdrawn | accepted => exact hold hid
  | unbuilt | refused | expire =>
    refine hold (List.Sublist.subset ?_ hid)
    exact (List.Sublist.filter _ (List.sublist_cons_self _ _)).map _
  | fail =>
    obtain rfl := List.mem_singleton.1 hid
    obtain ⟨x, hx, -⟩ := hE.row _ (List.mem_singleton_self _)
    rw [hx] at hrow
    simp only [Op.onOfframp, DbCall.onOfframp, if_true, Option.map_some] at hrow
    exact ⟨_, hrow, rfl⟩
  | cut =>
    obtain rfl := List.mem_singleton.1 hid
    exact offramp_of_moved he
  | @select t rows =>
    have hrows : rows = w.db.getExpiredOfframps t := he.answered
    obtain ⟨m, hmem, rfl⟩ := List.mem_map.1 hid
    obtain ⟨hmem, hst⟩ := List.mem_filter.1 hmem
    exact ⟨m, hrow.trans (SwapDb.mem_getExpiredOfframps.1 (hrows ▸ hmem)).1, of_decide_eq_true hst⟩
  | _ => exact absurd hid List.not_mem_nil

theorem engaged_move (he : Effect tid c o r w w' sp) (hm : Work.Move c l o r l')
    (hE : Engaged w tid l)
    (halarm : ∀ h, c = .handleOfframpPaymentFailed h → o = .db (.getOfframpByPaymentHash h) →
      ∀ x, w.db.getOfframpByPaymentHash h = some x → x.status ≠ .completed) :
    Engaged w' tid l' where
  nodup := rows_nodup_move he hm hE.nodup
  row id hid := by
    by_cases hold : id ∈ l.rows
    · obtain ⟨x, hx, hst⟩ := hE.row id hold
      obtain ⟨y, hy, ht⟩ := turns he hm hE hx
      refine ⟨y, hy, ?_⟩
      generalize x.status = st at ht hst
      generalize y.status = st' at ht
      cases ht with
      | same => rwa [expects_of_kept hm hid hold]
      | own _ _ h => exact h hid
      | taken _ h => exact h
      | reset | cut => exact absurd hold List.not_mem_nil
    · exact expects_of_taken he hm hid hold halarm
  gone id hid := gone_move he hm hE hid
  logged id hid := by
    rcases rows_of_move tid hm hid with hold | ⟨-, hnew⟩
    · exact logged_mono he (hE.logged id hold)
    · exact ⟨_, he.log ▸ List.mem_cons_self, rfl, hnew⟩

/-! ## The other tasks -/

/-- A task at work on other offramps is not disturbed; there is no deposit while the process
starts. -/
theorem engaged_mono (he : Effect tid c o r w w' sp) (hm : Work.Move c l o r l')
    (hE : Engaged w tid l) (hE' : Engaged w tid' l₀) (hd : Disjoint l l₀) (hd' : Disjoint l' l₀)
    (hboot : ∀ id e n, c = .startLdk → o = .db (.transitionOfframpStatus id e n) →
      ∀ id', l₀ ≠ .holding id') :
    Engaged w' tid' l₀ where
  nodup := hE'.nodup
  row id hid := by
    obtain ⟨x, hx, hst⟩ := hE'.row id hid
    obtain ⟨y, hy, ht⟩ := turns he hm hE hx
    refine ⟨y, hy, ?_⟩
    generalize x.status = st at ht hst
    generalize y.status = st' at ht
    cases ht with
    | same => exact hst
    | own hmine => exact absurd hid (hd id hmine)
    | taken hmine => exact absurd hid (hd' id hmine)
    | reset ho =>
      exact (expects_reset hst).resolve_right fun ⟨id', hl⟩ => hboot _ _ _ rfl ho id' hl
    | cut ho => exact (expects_cut hst).resolve_right fun ⟨id', hl⟩ => hboot _ _ _ rfl ho id' hl
  gone id hid := failed_mono he hm hE (hE'.gone id hid)
  logged id hid := logged_mono he (hE'.logged id hid)

theorem Engaged.calm (hc : Calm w w') (hE : Engaged w tid l) : Engaged w' tid l := by
  refine ⟨hE.nodup, ?_, ?_, ?_⟩
  · simpa only [hc.offramp] using hE.row
  · simpa only [hc.offramp] using hE.gone
  · rw [hc.log]
    exact hE.logged

theorem engaged_idle : Engaged w tid .idle where
  nodup := List.nodup_nil
  row _ hid := absurd hid List.not_mem_nil
  gone _ hid := absurd hid List.not_mem_nil
  logged _ hid := absurd hid List.not_mem_nil

/-- What a task takes up is free. -/
theorem disjoint_move {s : Sys} {a : Answers} {t : Task Op Op.Resp Call}
    (hok : exclusive Entry.offrampsTaken s (.task tid a) = true)
    (htask : ∃ f, s.tasks tid = some ⟨c, .op o f⟩) (he : Effect tid c o r s.world w' sp)
    (hm : Work.Move c l o r l') (hd : Disjoint l l₀) (hE' : Engaged s.world tid' l₀)
    (hne : tid' ≠ tid) (hlt : tid' < s.next) (ht : s.tasks tid' = some t)
    (hrun : l₀.rows ≠ [] → t.rest.ended = false) : Disjoint l' l₀ := by
  intro id hid hid'
  rcases rows_of_move tid hm hid with hold | ⟨⟨q, rfl⟩, hnew⟩
  · exact hd id hold hid'
  · exact not_taken_of_logged hok htask he hne hlt ht (hrun (List.ne_nil_of_mem hid'))
      (hE'.logged id hid') hnew

/-- A task at work is not at its start. -/
theorem ne_start_of_rows (hrows : l.rows ≠ []) : l ≠ work.start c := by
  rintro rfl
  exact hrows rfl

end

/-! ## All runs -/

/-- The handler of a failed payment does not find a Completed offramp. -/
def notCompleted (s : Sys) : Act → Bool
  | .task tid _ =>
    match s.tasks tid with
    | some ⟨.handleOfframpPaymentFailed _, .op (.db (.getOfframpByPaymentHash h)) _⟩ =>
      (s.world.db.getOfframpByPaymentHash h).all fun r => r.status ≠ .completed
    | _ => true
  | .env _ => true

/-- No task takes up an offramp that another one is at work on, and failed payments are not reported
for Completed offramps. -/
def undisturbed (s : Sys) (a : Act) : Bool :=
  exclusive Entry.offrampsTaken s a && notCompleted s a

/-- What a task at work knows. -/
structure Steady (w : World) (tid : ℕ) (c : Call) (l : Work) : Prop where
  engaged : Engaged w tid l
  http : ∀ id, l = .holding id → c.isHttp = true

/-- Custody of the offramps with the tasks at work on them. -/
def finality (cfg : Config) : Discipline Op Op.Resp World Call (Stage × Option Work) :=
  ((custody cfg).refine work).extend (fun _ => True)
    (fun w tid c l => ∀ m, l.2 = some m → Steady w tid c m)
    fun _ l _ l' => ∀ m m', l.2 = some m → l'.2 = some m' → Disjoint m m'

section

variable {cfg : Config} {tid tid' : ℕ} {c : Call} {l l' l₀ : Work} {o : Op} {r : o.Resp} {s : Sys}
  {w' : World} {sp : Option Call}

theorem undisturbed_cases {a : Act} (h : undisturbed s a = true) :
    exclusive Entry.offrampsTaken s a = true ∧ notCompleted s a = true :=
  Bool.and_eq_true_iff.1 h

/-- The guarded writes of the startup are made while the API does not serve. -/
theorem not_serving_of_transition {w : World} {l₁ l₁' : Stage} {id : ℤ} {e n : OfframpStatus}
    (hm : Move cfg .startLdk l₁ o r l₁') (hK : Knows w tid .startLdk l₁)
    (ho : o = .db (.transitionOfframpStatus id e n)) : w.serving = false := by
  subst ho
  cases hm with
  | quiet h => cases h
  | reset | failPaying => exact (hK.booting _ rfl).2.1

theorem http_move (hm : Work.Move c l o r l') (h : ∀ id, l = .holding id → c.isHttp = true)
    {id : ℤ} (hl : l' = .holding id) : c.isHttp = true := by
  cases hm with
  | quiet | handed => exact h id hl
  | claim | record => rfl
  | _ => cases hl

theorem steady_move {a : Answers} (hok : notCompleted s (.task tid a) = true)
    (htask : ∃ f, s.tasks tid = some ⟨c, .op o f⟩) (he : Effect tid c o r s.world w' sp)
    (hm : Work.Move c l o r l') (hS : Steady s.world tid c l) : Steady w' tid c l' where
  engaged := by
    refine engaged_move he hm hS.engaged ?_
    rintro h rfl rfl x hx
    obtain ⟨f, ht⟩ := htask
    simpa [notCompleted, ht, hx] using hok
  http _ := http_move hm hS.http

theorem steady_idle {w : World} : Steady w tid c .idle := ⟨engaged_idle, nofun⟩

theorem finality_sound (cfg : Config) (now : ℤ) :
    (finality cfg).Sound (relay cfg) (fun s a => undisturbed s a = true) (World.fresh cfg now) := by
  refine ((custody_sound cfg now).refine (body_works cfg)).extend (fun _ _ _ => trivial) ?_
  have hidle : ∀ (w : World) (tid : ℕ) (c : Call) (m : Work),
      some (work.start c) = some m → Steady w tid c m := by
    rintro w tid c _ ⟨⟩
    exact steady_idle
  have hapart : ∀ {l : Stage × Option Work} {c : Call} (m m' : Work), l.2 = some m →
      some (work.start c) = some m' → Disjoint m m' := by
    rintro l c m _ - ⟨⟩ id -
    exact List.not_mem_nil
  exact {
    symm := fun h m m' hm hm' => (h m' m hm' hm).symm
    init := ⟨trivial, hidle _ _ _⟩
    move := fun turn hp hm => by
      obtain ⟨a, b, ha, hW, hb⟩ := hm.2.move
      refine ⟨trivial, fun m hm' => ?_⟩
      rw [hb m hm']
      exact steady_move (undisturbed_cases turn.ok).2 turn.task (effect_of_perform hp) hW
        (turn.owned.2 a ha)
    others := fun turn hp hm hne ht hkeep howned hap => by
      have he := effect_of_perform hp
      obtain ⟨a, b, ha, hW, hb⟩ := hm.2.move
      have hS := turn.owned.2 a ha
      have hdis : ∀ m₀, _ = some m₀ → Disjoint b m₀ := fun m₀ hm₀ =>
        disjoint_move (undisturbed_cases turn.ok).1 turn.task he hW (hap.2 a m₀ ha hm₀)
          (howned.2 m₀ hm₀).engaged hne (turn.reach.fresh.lt_next ht) ht fun hrows =>
            Discipline.not_ended_of_refine hkeep hm₀ (ne_start_of_rows hrows)
      refine ⟨fun m₀ hm₀ => ⟨?_, (howned.2 m₀ hm₀).http⟩, fun m m₀ hm' hm₀ => ?_⟩
      · refine engaged_mono he hW hS.engaged (howned.2 m₀ hm₀).engaged (hap.2 a m₀ ha hm₀)
          (hdis m₀ hm₀) ?_
        rintro id e n rfl ho id' rfl
        have hserv := howned.1.serving ((howned.2 _ hm₀).http id' rfl)
        rw [not_serving_of_transition hm.1 turn.owned.1 ho] at hserv
        cases hserv
      · rw [hb m hm']
        exact hdis m₀ hm₀
    spawned := fun _ _ _ => ⟨hidle _ _ _, hapart, fun _ _ _ _ _ => hapart⟩
    abort := fun _ _ => ⟨trivial, hidle _ _ _⟩
    react := fun _ _ => trivial
    reactOthers := fun _ hr _ _ _ howned m hm =>
      ⟨(howned.2 m hm).engaged.calm (reaction_of_react hr).calm, (howned.2 m hm).http⟩
    reactSpawn := fun _ _ => ⟨hidle _ _ _, fun _ _ _ => hapart⟩
    reactRestart := fun _ _ => hidle _ _ _ }

end

/-! ## What follows -/

section

variable {cfg : Config} {now : ℤ} {s s' : Sys} {id : ℤ} {x : OfframpMapping}

theorem terminal_of_step (hs : ReachableBy cfg now (fun s a => undisturbed s a = true) s) {act : Act}
    (hstep : (relay cfg).step s act = some s') (hx : s.world.offramp id = some x)
    (hst : x.status = .completed ∨ x.status = .failed) :
    ∃ y, s'.world.offramp id = some y ∧ y.status = x.status := by
  obtain ⟨L, hL⟩ := (finality_sound cfg now).holds hs
  rcases world_of_step hstep with ⟨tid, c, o, k, a, r, sp, -, ht, hp⟩ | hcalm
  · obtain ⟨l', hm, -⟩ := (hL.keeps ht).move r
    obtain ⟨l, m, hl, hW, -⟩ := hm.2.move
    exact terminal_move (effect_of_perform hp) hW ((hL.owned ht).2 l hl).engaged hx hst
  · exact ⟨x, (hcalm.offramp id).trans hx, rfl⟩

/-- In every run in which the tasks at work on offramps are undisturbed, an offramp that is Completed
or Failed keeps its status from then on. -/
theorem offramp_terminal_final (hs : ReachableBy cfg now (fun s a => undisturbed s a = true) s)
    (as : List Act) (hrun : (relay cfg).run undisturbed s as = some s')
    (hx : s.world.offramp id = some x) (hst : x.status = .completed ∨ x.status = .failed) :
    ∃ y, s'.world.offramp id = some y ∧ y.status = x.status := by
  induction as generalizing s x with
  | nil =>
    obtain rfl := Option.some.inj hrun
    exact ⟨x, hx, rfl⟩
  | cons a as ih =>
    simp only [Runtime.run] at hrun
    split_ifs at hrun with hok
    obtain ⟨s₁, hstep, hrest⟩ := Option.bind_eq_some_iff.1 hrun
    obtain ⟨y, hy, hyst⟩ := terminal_of_step hs hstep hx hst
    obtain ⟨z, hz, hzst⟩ := ih (hs.step hok hstep) hrest hy (hyst ▸ hst)
    exact ⟨z, hz, hzst.trans hyst⟩

end

set_option maxRecDepth 100000 in
/-- The first offramp of the devnet is Completed, and a restart with its recovery leaves it so. -/
theorem offramp_terminal_final_completed : ∃ s s' x y,
    ReachableBy Devnet.config Devnet.startTime (fun s a => undisturbed s a = true) s ∧
    (relay Devnet.config).run undisturbed s (.env .crash :: Devnet.steps 7 7 Devnet.ok) = some s' ∧
    s.world.offramp 1 = some x ∧ x.status = .completed ∧
    s'.world.offramp 1 = some y ∧ y.status = x.status := by
  obtain ⟨s, hs, hp⟩ := Devnet.reachableBy_of_after undisturbed Devnet.completedRun (fun s =>
    ((relay Devnet.config).run undisturbed s
      (.env .crash :: Devnet.steps 7 7 Devnet.ok)).isSome &&
        (s.world.offramp 1).any fun x => x.status = .completed) (by decide +kernel)
  simp only [Bool.and_eq_true, Option.isSome_iff_exists, Option.any_eq_true,
    decide_eq_true_eq] at hp
  obtain ⟨⟨s', hrun⟩, x, hx, hst⟩ := hp
  obtain ⟨y, hy, hkept⟩ := offramp_terminal_final hs _ hrun hx (Or.inl hst)
  exact ⟨s, s', x, y, hs, hrun, hx, hst, hy, hkept⟩

/-- The monitor has selected the expired first offramp when a deposit wins it; the monitor cancels it
and marks it Failed, and then the verification of the deposit fails. -/
def revivedRun : List Act :=
  Devnet.boot ++ Devnet.offrampRequest 3 1 Devnet.invoice1 ++
    .env (.tick 3600001) :: Devnet.steps 2 3 Devnet.ok ++
    Devnet.deposit 1 Devnet.depositTx :: Devnet.steps 4 4 Devnet.ok ++
    Devnet.steps 2 4 Devnet.ok ++ Devnet.steps 4 1 Devnet.unreachable

set_option maxRecDepth 100000 in
/-- The cancelled offramp is Failed, and the deposit's next step makes it AwaitingDeposit again. -/
theorem devnet_failed_then_awaiting : ∃ s s' x y, Reachable Devnet.config Devnet.startTime s ∧
    (relay Devnet.config).step s (.task 4 Devnet.ok) = some s' ∧
    s.world.offramp 1 = some x ∧ x.status = .failed ∧
    s'.world.offramp 1 = some y ∧ y.status = .awaitingDeposit := by
  obtain ⟨s, hs, hp⟩ := Devnet.reachable_of_after revivedRun (fun s =>
    ((relay Devnet.config).step s (.task 4 Devnet.ok)).any fun s' =>
      ((s.world.offramp 1).any fun x => x.status = .failed) &&
      (s'.world.offramp 1).any fun y => y.status = .awaitingDeposit) (by decide +kernel)
  simp only [Option.any_eq_true, Bool.and_eq_true, decide_eq_true_eq] at hp
  obtain ⟨s', hstep, ⟨x, hx, hxst⟩, y, hy, hyst⟩ := hp
  exact ⟨s, s', x, y, hs, hstep, hx, hxst, hy, hyst⟩

end Payout

end LightningRelay
