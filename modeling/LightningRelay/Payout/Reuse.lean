import LightningRelay.Payout.Custody

/-!
# One deposit for two offramps

`process_offramp_deposit` looks for another offramp with the same deposit transaction before the
awaited verification, and stores the transaction after it; the table does not enforce that a stored
transaction is unique.  Two deposits that are both between their check and their store pass both.

* `devnet_deposit_spent_twice`: such a run, in which one transaction pays two offramps.
* `deposit_spent_once`: without such an overlap (`unraced`) no two offramps store one transaction.
-/

set_option autoImplicit false

namespace LightningRelay

open Async

namespace Payout

/-- Operations that open and close the gap between the check of a deposit and its store. -/
def gap? : Op → Option Bool
  | .db (.getOfframpByCbtcTx _) => some true
  | .db (.transitionOfframpWithCbtcTx _ _ _ _) => some false
  | .db (.updateOfframpStatus _ .awaitingDeposit _ _ _) => some false
  | _ => none

/-- The last of these operations that the task performed opened the gap. -/
def inGap (log : List Entry) (tid : ℕ) : Bool :=
  (log.findSome? fun e => if e.tid = tid then gap? e.op else none) = some true

/-- A deposit of the same transaction for another offramp. -/
def rivals (req : OfframpDepositRequest) : Call → Bool
  | .handleOfframpDeposit _ req' =>
    req'.cbtcTxHash = req.cbtcTxHash && req'.offrampId ≠ req.offrampId
  | _ => false

/-- No deposit makes its check while a deposit of the same transaction for another offramp is
between its own check and its store. -/
def unraced (s : Sys) : Act → Bool
  | .task tid _ =>
    match s.tasks tid with
    | some ⟨.handleOfframpDeposit _ req, .op (.db (.getOfframpByCbtcTx _)) _⟩ =>
      (List.range s.next).all fun tid' =>
        !((s.tasks tid').any fun t => rivals req t.call && !t.rest.ended) ||
          !inGap s.world.log tid'
    | _ => true
  | .env _ => true

/-- The stages between the check and the store. -/
def Stage.unsettled : Stage → Bool
  | .free _ | .verifying _ | .verified _ => true
  | _ => false

/-- No offramp but `id` stores the transaction. -/
def OnlyFor (w : World) (id : ℤ) (tx : String) : Prop :=
  ∀ k r, w.offramp k = some r → r.cbtcTxHash = tx → k = id

/-- A stored transaction belongs to one offramp. -/
def Unique (w : World) : Prop :=
  ∀ k r, w.offramp k = some r → r.cbtcTxHash ≠ "" → OnlyFor w k r.cbtcTxHash

/-- What a deposit knows: its transaction is not empty, and between its check and its store no other
offramp has it. -/
structure Checked (w : World) (tid : ℕ) (c : Call) (l : Stage) : Prop where
  nonempty : ∀ ip id tx, c = .handleOfframpDeposit ip ⟨id, tx⟩ →
    (∃ m, l = .read m) ∨ l.unsettled = true → tx ≠ ""
  unsettled : ∀ ip id tx, c = .handleOfframpDeposit ip ⟨id, tx⟩ → l.unsettled = true →
    inGap w.log tid = true ∧ OnlyFor w id tx

/-- Two deposits of one transaction between check and store are for the same offramp. -/
def Unrivalled (c : Call) (l : Stage) (c' : Call) (l' : Stage) : Prop :=
  ∀ ip ip' id id' tx, c = .handleOfframpDeposit ip ⟨id, tx⟩ →
    c' = .handleOfframpDeposit ip' ⟨id', tx⟩ → l.unsettled = true → l'.unsettled = true → id = id'

section

variable {cfg : Config} {tid tid' : ℕ} {c : Call} {l l' : Stage} {o : Op} {r : o.Resp}
  {w w' : World} {sp : Option Call} {k : ℤ}

/-- A transaction that is stored now was stored before, or has just been stored by its deposit. -/
theorem stored_of_move (he : Effect tid c o r w w' sp) (hm : Move cfg c l o r l')
    {y : OfframpMapping} (hy : w'.offramp k = some y) (hne : y.cbtcTxHash ≠ "") :
    (∃ x, w.offramp k = some x ∧ x.cbtcTxHash = y.cbtcTxHash) ∨
      ∃ ip, c = .handleOfframpDeposit ip ⟨k, y.cbtcTxHash⟩ ∧ l.unsettled = true := by
  have hrow := rowMove he hm k
  rw [hy] at hrow
  rcases hx : w.offramp k with _ | x
  · rw [hx] at hrow
    cases hrow with
    | insert _ _ hreq => exact absurd hreq.cbtcTxHash hne
  rw [hx] at hrow
  cases hrow with
  | same => exact Or.inl ⟨y, rfl, rfl⟩
  | write _ hhash => exact Or.inl ⟨x, rfl, hhash.symm⟩
  | record _ _ _ hhash =>
    subst hhash
    exact Or.inr ⟨_, rfl, rfl⟩

/-- A deposit keeps a transaction for itself as long as no rival is about to store it. -/
theorem onlyFor_mono {id : ℤ} {tx : String} (he : Effect tid c o r w w' sp)
    (hm : Move cfg c l o r l') (htx : tx ≠ "") (h : OnlyFor w id tx)
    (hc : ∀ ip k, c = .handleOfframpDeposit ip ⟨k, tx⟩ → l.unsettled = true → k = id) :
    OnlyFor w' id tx := by
  rintro k y hy rfl
  rcases stored_of_move he hm hy htx with ⟨x, hx, hhash⟩ | ⟨ip, hcall, hl⟩
  · exact h k x hx hhash
  · exact hc ip k hcall hl

theorem unique_move (he : Effect tid c o r w w' sp) (hm : Move cfg c l o r l')
    (hK : Checked w tid c l) (hU : Unique w) : Unique w' := by
  intro k y hy hne
  rcases stored_of_move he hm hy hne with ⟨x, hx, hhash⟩ | ⟨ip, rfl, hl⟩
  · rw [← hhash] at hne ⊢
    refine onlyFor_mono he hm hne (hU k x hx hne) fun ip k' hc hl => ?_
    exact ((hK.unsettled ip k' _ hc hl).2 k x hx rfl).symm
  · refine onlyFor_mono he hm hne (hK.unsettled ip k _ rfl hl).2 ?_
    rintro ip' k' ⟨⟩ _
    rfl

/-! ### The gap in the log -/

theorem inGap_of_ne (he : Effect tid c o r w w' sp) (hne : tid' ≠ tid) :
    inGap w'.log tid' = inGap w.log tid' := by
  unfold inGap
  rw [he.log, List.findSome?_cons, if_neg (fun h => hne h.symm)]

theorem inGap_of_gap? (he : Effect tid c o r w w' sp) :
    inGap w'.log tid = match gap? o with
      | some b => b
      | none => inGap w.log tid := by
  unfold inGap
  rw [he.log, List.findSome?_cons, if_pos rfl]
  rcases gap? o with _ | _ | _ <;> rfl

theorem gap?_of_not_regulated (h : o.regulated = false) : gap? o ≠ some false := by
  intro hg
  unfold gap? at hg
  split at hg <;> cases hg <;> cases h

/-- A deposit gets into its gap by its check, and leaves it when it stores its transaction or gives
up. -/
theorem unsettled_of_move (hm : Move cfg c l o r l') {ip tx : String} {id : ℤ}
    (hc : c = .handleOfframpDeposit ip ⟨id, tx⟩) (h : l'.unsettled = true) :
    (l.unsettled = true ∧ gap? o ≠ some false) ∨
      ∃ m, l = .read m ∧ o = .db (.getOfframpByCbtcTx tx) ∧
        ∀ q : Option OfframpMapping, HEq r q → usedByOther id q = none := by
  cases hm with
  | quiet hq => exact Or.inl ⟨h, gap?_of_not_regulated hq⟩
  | fail | spawn | claim | verified | rejected => exact Or.inl ⟨h, nofun⟩
  | unused hused =>
    obtain ⟨-, rfl, rfl⟩ := hc
    exact Or.inr ⟨_, rfl, rfl, fun q hq => eq_of_heq hq ▸ hused⟩
  | _ => first | cases h | cases hc

theorem read_of_move (hm : Move cfg c l o r l') {ip tx : String} {id : ℤ} {m : OfframpMapping}
    (hc : c = .handleOfframpDeposit ip ⟨id, tx⟩) (h : l' = .read m) : l = .read m ∨ tx ≠ "" := by
  cases hm with
  | quiet | fail | spawn | request | enterCli | payCli | cancelFailed => exact Or.inl h
  | read htx =>
    obtain ⟨-, -, rfl⟩ := hc
    exact Or.inr htx
  | _ => cases h

theorem onlyFor_of_unused {id : ℤ} {tx : String} (htx : tx ≠ "") (hU : Unique w)
    (h : usedByOther id (w.db.getOfframpByCbtcTx tx) = none) : OnlyFor w id tx := by
  rcases hq : w.db.getOfframpByCbtcTx tx with _ | x
  · intro k y hy hhash
    exact absurd hhash ((SwapDb.getOfframpByCbtcTx_eq_none_iff htx).1 hq k y hy)
  · obtain ⟨hx, hhash⟩ := SwapDb.getOfframpByCbtcTx_eq_some hq
    have hid : x.offrampId = id := by
      rw [hq] at h
      by_contra hne
      simp [usedByOther, hne] at h
    rw [← hid, ← hhash]
    exact hU _ x hx (hhash ▸ htx)

/-! ## All runs -/

theorem checked_of_not_deposit (h : ∀ ip req, c ≠ .handleOfframpDeposit ip req) :
    Checked w tid c l :=
  ⟨fun ip _ _ hc => absurd hc (h ip _), fun ip _ _ hc => absurd hc (h ip _)⟩

theorem checked_start (c : Call) : Checked w tid c (start c) := by
  cases c with
  | handleOfframpDeposit ip req => exact ⟨fun _ _ _ _ h => by simp [start, Stage.unsettled] at h, nofun⟩
  | _ => exact checked_of_not_deposit nofun

/-- What a task knows while another one moves. -/
theorem checked_mono {d : Call} {l₀ : Stage} (he : Effect tid c o r w w' sp)
    (hm : Move cfg c l o r l') (hne : tid' ≠ tid) (h : Checked w tid' d l₀)
    (hapart : Unrivalled c l d l₀) : Checked w' tid' d l₀ where
  nonempty := h.nonempty
  unsettled ip id tx hd hl := by
    obtain ⟨hgap, honly⟩ := h.unsettled ip id tx hd hl
    refine ⟨(inGap_of_ne he hne).trans hgap, ?_⟩
    refine onlyFor_mono he hm (h.nonempty ip id tx hd (Or.inr hl)) honly fun ip' k hc hl' => ?_
    exact hapart ip' ip k id tx hc hd hl' hl

/-- What a task knows after its own move. -/
theorem checked_move (he : Effect tid c o r w w' sp) (hm : Move cfg c l o r l')
    (hU : Unique w) (h : Checked w tid c l) : Checked w' tid c l' := by
  have hne : ∀ ip id tx, c = .handleOfframpDeposit ip ⟨id, tx⟩ →
      (∃ m, l' = .read m) ∨ l'.unsettled = true → tx ≠ "" := by
    rintro ip id tx hc (⟨m, hl⟩ | hl)
    · rcases read_of_move hm hc hl with hl | htx
      · exact h.nonempty ip id tx hc (Or.inl ⟨m, hl⟩)
      · exact htx
    · rcases unsettled_of_move hm hc hl with ⟨hl, -⟩ | ⟨m, hl, -⟩
      · exact h.nonempty ip id tx hc (Or.inr hl)
      · exact h.nonempty ip id tx hc (Or.inl ⟨m, hl⟩)
  refine ⟨hne, fun ip id tx hc hl => ?_⟩
  have htx := hne ip id tx hc (Or.inr hl)
  -- rivals of the moving deposit are other tasks, so it keeps its transaction for itself
  have hself : OnlyFor w id tx → OnlyFor w' id tx := fun honly =>
    onlyFor_mono he hm htx honly fun ip' k hc' _ => by
      obtain ⟨-, rfl, -⟩ := hc.symm.trans hc'
      rfl
  rcases unsettled_of_move hm hc hl with ⟨hl₀, hgap⟩ | ⟨m, rfl, rfl, hused⟩
  · obtain ⟨hin, honly⟩ := h.unsettled ip id tx hc hl₀
    refine ⟨?_, hself honly⟩
    rw [inGap_of_gap? he]
    split
    · rename_i b hb
      cases b
      · exact absurd hb hgap
      · rfl
    · exact hin
  · have hans : r = w.db.getOfframpByCbtcTx tx := he.answered
    refine ⟨by rw [inGap_of_gap? he]; rfl, hself (onlyFor_of_unused htx hU ?_)⟩
    exact hused _ (heq_of_eq hans)

/-- The discipline of the stored transactions. -/
def reuse (cfg : Config) : Discipline Op Op.Resp World Call Stage :=
  protocol cfg Unique Checked Unrivalled

theorem not_done_of_unsettled (h : l.unsettled = true) : l.done = false := by
  cases l <;> first | rfl | cases h

/-- In a run without overlaps, no two deposits of one transaction for different offramps are
between check and store. -/
theorem unrivalled_move {s : Sys} {a : Answers} {t : Task Op Op.Resp Call} {m : Stage}
    (turn : (reuse cfg).Turn (relay cfg) (fun s a => unraced s a = true) w s tid c o a l)
    (hm : Move cfg c l o r l') (ht : s.tasks tid' = some t)
    (hkeep : (reuse cfg).Keeps t m) (hK : Checked s.world tid' t.call m)
    (hapart : Unrivalled c l t.call m) : Unrivalled c l' t.call m := by
  intro ip ip' id id' tx hc hc' hl hl'
  rcases unsettled_of_move hm hc hl with ⟨hl₀, -⟩ | ⟨m, rfl, rfl, -⟩
  · exact hapart ip ip' id id' tx hc hc' hl₀ hl'
  · -- the moving deposit makes its check while the other one is in its gap
    by_contra hid
    obtain ⟨k, htask⟩ := turn.task
    have hok := turn.ok
    simp only [unraced, htask, hc, List.all_eq_true, List.mem_range, Bool.or_eq_true,
      Bool.not_eq_true'] at hok
    have hlt : tid' < s.next := turn.reach.fresh.lt_next ht
    rcases hok tid' hlt with h | h
    · rw [ht] at h
      simp only [rivals, hc', not_ended hkeep (not_done_of_unsettled hl'), Option.any_some,
        Bool.not_false, Bool.and_true, decide_true, Bool.true_and, decide_eq_false_iff_not,
        not_not] at h
      exact hid h.symm
    · rw [(hK.unsettled ip' id' tx hc' hl').1] at h
      cases h

theorem Checked.congr (h : Checked w tid c l) (hdb : w'.db = w.db) (hlog : w'.log = w.log) :
    Checked w' tid c l := by
  cases w
  cases w'
  cases hdb
  cases hlog
  exact ⟨h.nonempty, h.unsettled⟩

theorem Unique.congr (h : Unique w) (hdb : w'.db = w.db) : Unique w' := by
  cases w
  cases w'
  cases hdb
  exact h

theorem unrivalled_start {d : Call} {m : Stage} (c : Call) : Unrivalled d m c (start c) := by
  rintro ip ip' id id' tx - rfl - hl
  cases hl

theorem reuse_sound (cfg : Config) (now : ℤ) :
    (reuse cfg).Sound (relay cfg) (fun s a => unraced s a = true) (World.fresh cfg now) where
  body := body_follows cfg
  symm h ip ip' id id' tx hc hc' hl hl' := (h ip' ip id' id tx hc' hc hl' hl).symm
  init := ⟨fun _ _ hr => (nomatch hr), checked_start _⟩
  move turn hp hm := by
    have he := effect_of_perform hp
    exact ⟨unique_move he hm turn.owned turn.shared, checked_move he hm turn.shared turn.owned⟩
  others turn hp hm hne ht hkeep howned hapart :=
    ⟨checked_mono (effect_of_perform hp) hm hne howned hapart,
      unrivalled_move turn hm ht hkeep howned hapart⟩
  spawned _ _ _ := ⟨checked_start _, unrivalled_start _, fun _ _ _ _ _ => unrivalled_start _⟩
  abort turn hp := by
    obtain rfl := abort_of_perform hp
    exact ⟨turn.shared.congr rfl, checked_start _⟩
  react next hr := next.shared.congr (reaction_of_react hr).calm.db
  reactOthers _ hr _ _ _ howned :=
    howned.congr (reaction_of_react hr).calm.db (reaction_of_react hr).calm.log
  reactSpawn _ _ := ⟨checked_start _, fun _ _ _ => unrivalled_start _⟩
  reactRestart _ _ := checked_start _

end

section

variable {cfg : Config} {now : ℤ} {s : Sys}

/-- In every run without overlaps: no two offramps store one transaction, and `send_payment` is not
called for two offramps with one transaction. -/
theorem deposit_spent_once (h : ReachableBy cfg now (fun s a => unraced s a = true) s) :
    (∀ id id' r r', s.world.offramp id = some r → s.world.offramp id' = some r' →
      r.cbtcTxHash ≠ "" → r.cbtcTxHash = r'.cbtcTxHash → id = id') ∧
    ∀ e ∈ s.world.log, ∀ e' ∈ s.world.log, ∀ id id' tx, e.payment? = some ⟨id, tx⟩ →
      e'.payment? = some ⟨id', tx⟩ → id = id' := by
  obtain ⟨L, hL⟩ := (reuse_sound cfg now).holds h
  have hrows : ∀ id id' r r', s.world.offramp id = some r → s.world.offramp id' = some r' →
      r.cbtcTxHash ≠ "" → r.cbtcTxHash = r'.cbtcTxHash → id = id' :=
    fun id id' r r' hr hr' hne hhash => (hL.shared id r hr hne id' r' hr' hhash.symm).symm
  refine ⟨hrows, fun e he e' he' id id' tx hp hp' => ?_⟩
  have hreach : Reachable cfg now s := h.mono fun _ _ _ => trivial
  obtain ⟨newer, older, hlog⟩ := List.append_of_mem he
  obtain ⟨newer', older', hlog'⟩ := List.append_of_mem he'
  obtain ⟨⟨r, hr, rfl, hne⟩, -⟩ := (ledger_of_reachable hreach id).paid newer e older tx hlog hp
  obtain ⟨⟨r', hr', hhash, -⟩, -⟩ :=
    (ledger_of_reachable hreach id').paid newer' e' older' r.cbtcTxHash hlog' hp'
  exact hrows id id' r r' hr hr' hne hhash.symm

set_option maxRecDepth 100000 in
theorem deposit_spent_once_paid : ∃ s,
    ReachableBy Devnet.config Devnet.startTime (fun s a => unraced s a = true) s ∧
    (s.world.offramp 1).map (·.cbtcTxHash) = some Devnet.depositTx ∧ s.world.payments 1 = 1 ∧
    ((∀ id id' r r', s.world.offramp id = some r → s.world.offramp id' = some r' →
      r.cbtcTxHash ≠ "" → r.cbtcTxHash = r'.cbtcTxHash → id = id') ∧
    ∀ e ∈ s.world.log, ∀ e' ∈ s.world.log, ∀ id id' tx, e.payment? = some ⟨id, tx⟩ →
      e'.payment? = some ⟨id', tx⟩ → id = id') := by
  obtain ⟨s, hs, hp⟩ := Devnet.reachableBy_of_after unraced Devnet.paidRun (fun s =>
    decide ((s.world.offramp 1).map (·.cbtcTxHash) = some Devnet.depositTx ∧
      s.world.payments 1 = 1)) (by decide +kernel)
  obtain ⟨hrow, hpay⟩ := of_decide_eq_true hp
  exact ⟨s, hs, hrow, hpay, deposit_spent_once hs⟩

/-- Two offramps, and the same deposit announced for both: both check before either stores. -/
def racedRun : List Act :=
  Devnet.boot ++ Devnet.offrampRequest 3 1 Devnet.invoice1 ++
    Devnet.offrampRequest 4 2 Devnet.invoice2 ++
    Devnet.deposit 1 Devnet.depositTx :: Devnet.deposit 2 Devnet.depositTx ::
    Devnet.steps 5 3 Devnet.ok ++ Devnet.steps 6 3 Devnet.ok ++ Devnet.steps 5 8 Devnet.ok ++
    Devnet.steps 6 8 Devnet.ok

set_option maxRecDepth 100000 in
/-- One deposit is stored for two offramps, and both are paid. -/
theorem devnet_deposit_spent_twice : ∃ s, Reachable Devnet.config Devnet.startTime s ∧
    (s.world.offramp 1).map (·.cbtcTxHash) = some Devnet.depositTx ∧
    (s.world.offramp 2).map (·.cbtcTxHash) = some Devnet.depositTx ∧ Devnet.depositTx ≠ "" ∧
    s.world.payments 1 = 1 ∧ s.world.payments 2 = 1 ∧ s.world.attempts.length = 2 := by
  obtain ⟨s, hs, hp⟩ := Devnet.reachable_of_after racedRun (fun s =>
    decide ((s.world.offramp 1).map (·.cbtcTxHash) = some Devnet.depositTx ∧
      (s.world.offramp 2).map (·.cbtcTxHash) = some Devnet.depositTx ∧ Devnet.depositTx ≠ "" ∧
      s.world.payments 1 = 1 ∧ s.world.payments 2 = 1 ∧ s.world.attempts.length = 2))
    (by decide +kernel)
  exact ⟨s, hs, of_decide_eq_true hp⟩

end

end Payout

end LightningRelay
