import LightningRelay.Devnet
import LightningRelay.Payout.Programs
import LightningRelay.Payout.Rows

/-!
# Custody of the deposits

Who may move an offramp, over all runs.  A deposit that has won a row holds it until it has paid or
given up (`holds`); while it verifies, the row is PendingVerification, or Failed by an unguarded
write, and has no deposit hash yet.  A stored deposit hash is never replaced, so a row reaches
PayingLightning at most once.

* `custody_sound`: these facts hold in every state of every run, through crashes and recovery.
* `payout_at_most_once`: `send_payment` is reached at most once for an offramp, and at most one
  `complete_offramp` goes on to FulfillOfframp.
* `paid_after_verified_deposit`: rows in PayingLightning and beyond, and calls of `send_payment`,
  have a deposit that was verified before.
-/

set_option autoImplicit false

namespace LightningRelay

open Async

namespace Entry

/-- The deposit for which `process_offramp_deposit` called `send_payment`. -/
def payment? : Entry → Option OfframpDepositRequest
  | ⟨_, .handleOfframpDeposit _ req, .enter (.sendPayment _), _⟩ => some req
  | _ => none

/-- The offramp that a `complete_offramp` took from PayingLightning to DepositingToPool. -/
def taken? : Entry → Option ℤ
  | ⟨_, .completeOfframp _ _,
      .db (.transitionOfframpStatus id .payingLightning .depositingToPool), true⟩ => some id
  | _ => none

/-- The offramp for which a `complete_offramp` called `fulfill_offramp`. -/
def fulfilled? : Entry → Option ℤ
  | ⟨_, .completeOfframp _ _, .operator (.offramp id) (.fulfillOfframp _), _⟩ => some id
  | _ => none

/-- The entry is a call of `send_payment` for offramp `id`. -/
def pays (id : ℤ) (e : Entry) : Bool := e.payment?.any fun req => req.offrampId = id

/-- The entry is a `complete_offramp` winning offramp `id`. -/
def takes (id : ℤ) (e : Entry) : Bool := e.taken? = some id

end Entry

/-- The log has an entry where the deposit `tx` of an offramp was verified for this amount. -/
def VerifiedIn (log : List Entry) (id : ℤ) (tx : String) (amount : ℤ) : Prop :=
  ∃ tid call, (⟨tid, call, .operator (.offramp id) (.verifyCbtcReceived tx amount), .ok true⟩ :
    Entry) ∈ log

namespace World

/-- How often `send_payment` was called for an offramp. -/
def payments (w : World) (id : ℤ) : ℕ := w.log.countP (Entry.pays id)

/-- How often a `complete_offramp` won an offramp. -/
def takes (w : World) (id : ℤ) : ℕ := w.log.countP (Entry.takes id)

/-- The row of an offramp agrees with `m` in the columns that never change. -/
def Matches (w : World) (id : ℤ) (m : OfframpMapping) : Prop :=
  ∃ r, w.offramp id = some r ∧ Payout.Same r m

/-- No deposit is stored for the offramp, and its row is being verified or was failed. -/
def Pending (w : World) (id : ℤ) : Prop :=
  ∃ r, w.offramp id = some r ∧ r.cbtcTxHash = "" ∧
    (r.status = .pendingVerification ∨ r.status = .failed)

/-- The deposit `tx` is stored for the offramp. -/
def Stored (w : World) (id : ℤ) (tx : String) : Prop :=
  ∃ r, w.offramp id = some r ∧ r.cbtcTxHash = tx ∧ tx ≠ ""

end World

namespace Payout

/-- The offramp that a deposit holds, from winning its row until it has paid or given up. -/
def holds : Call → Stage → Option ℤ
  | .handleOfframpDeposit _ req, .verifying _ | .handleOfframpDeposit _ req, .verified _
  | .handleOfframpDeposit _ req, .paying _ | .handleOfframpDeposit _ req, .sending _ =>
    some req.offrampId
  | _, _ => none

/-- What a deposit knows in its stage. -/
def DepositKnows (w : World) (id : ℤ) (tx : String) : Stage → Prop
  | .read m | .free m => tx ≠ "" ∧ w.Matches id m
  | .verifying m => tx ≠ "" ∧ w.Matches id m ∧ w.Pending id
  | .verified m => tx ≠ "" ∧ w.Matches id m ∧ w.Pending id ∧ VerifiedIn w.log id tx m.amountCbtc
  | .paying m => w.Matches id m ∧ w.Stored id tx ∧ w.payments id = 0
  | .sending m => w.Matches id m ∧ w.Stored id tx
  | _ => True

/-- What a task knows in its stage. -/
structure Knows (w : World) (tid : ℕ) (c : Call) (l : Stage) : Prop where
  serving : c.isHttp = true → w.serving = true
  deposit : ∀ ip id tx, c = .handleOfframpDeposit ip ⟨id, tx⟩ → DepositKnows w id tx l
  booting : ∀ rows, l = .booting rows → c = .startLdk ∧ w.serving = false ∧
    ∀ m ∈ rows, ∃ tx, w.Stored m.offrampId tx
  owner : ∀ m, l = .owns m → (∃ tx, w.Stored m.offrampId tx) ∧
    ∃ e ∈ w.log, e.taken? = some m.offrampId ∧ e.tid = tid

/-- What holds of each offramp. -/
structure Ledger (w : World) (k : ℤ) : Prop where
  early : ∀ r, w.offramp k = some r →
    r.status = .awaitingDeposit ∨ r.status = .pendingVerification → r.cbtcTxHash = ""
  late : ∀ r, w.offramp k = some r →
    r.status = .payingLightning ∨ r.status = .depositingToPool ∨ r.status = .completed →
    r.cbtcTxHash ≠ ""
  verified : ∀ r, w.offramp k = some r → r.cbtcTxHash ≠ "" →
    VerifiedIn w.log k r.cbtcTxHash r.amountCbtc
  paidOnce : w.payments k ≤ 1
  paid : ∀ newer e older tx, w.log = newer ++ e :: older → e.payment? = some ⟨k, tx⟩ →
    w.Stored k tx ∧ ∃ r, w.offramp k = some r ∧ VerifiedIn older k tx r.amountCbtc
  takenOnce : w.takes k ≤ 1
  taken : w.takes k ≠ 0 → ∃ r, w.offramp k = some r ∧ r.cbtcTxHash ≠ "" ∧
    r.status ≠ .payingLightning
  fulfilled : ∀ e ∈ w.log, e.fulfilled? = some k →
    ∃ e' ∈ w.log, e'.taken? = some k ∧ e'.tid = e.tid

/-- The protocol of the offramps with an invariant. -/
def protocol (cfg : Config) (Shared : World → Prop) (Owned : World → ℕ → Call → Stage → Prop)
    (Apart : Call → Stage → Call → Stage → Prop) : Discipline Op Op.Resp World Call Stage where
  start := start
  Move := Move cfg
  Final _ l := l.done = true
  Shared := Shared
  Owned := Owned
  Apart := Apart

/-- A task has not ended in a stage in which it may not end. -/
theorem not_ended {cfg : Config} {t : Task Op Op.Resp Call} {l : Stage}
    (h : Follows (Move cfg t.call) (fun _ l' => l'.done = true) t.rest l) (hl : l.done = false) :
    t.rest.ended = false := by
  obtain ⟨call, _ | ⟨o, k⟩⟩ := t
  · exact absurd (hl.symm.trans h) Bool.false_ne_true
  · rfl

/-- An offramp has one holder, and there is one startup. -/
def Separate (c : Call) (l : Stage) (c' : Call) (l' : Stage) : Prop :=
  (∀ id, holds c l = some id → holds c' l' ≠ some id) ∧ (c = .startLdk → c' ≠ .startLdk)

/-- Custody of the deposits. -/
def custody (cfg : Config) : Discipline Op Op.Resp World Call Stage :=
  protocol cfg (fun w => ∀ k, Ledger w k) Knows Separate

/-! ## Which move writes which entry -/

section

variable {cfg : Config} {tid : ℕ} {c : Call} {l l' : Stage} {o : Op} {r : o.Resp}

theorem payment?_eq_some (hm : Move cfg c l o r l') {req : OfframpDepositRequest}
    (h : (⟨tid, c, o, r⟩ : Entry).payment? = some req) :
    ∃ ip m, c = .handleOfframpDeposit ip req ∧ l = .paying m ∧ l' ≠ .paying m := by
  unfold Entry.payment? at h
  split at h
  next he =>
    obtain ⟨-, rfl, rfl, -⟩ := Entry.mk.inj he
    obtain rfl := Option.some.inj h
    cases hm with
    | quiet hq => cases hq
    | enter => exact ⟨_, _, rfl, rfl, nofun⟩
    | misfit => exact ⟨_, _, rfl, rfl, nofun⟩
  next => cases h

theorem taken?_eq_some (hm : Move cfg c l o r l') {id : ℤ}
    (h : (⟨tid, c, o, r⟩ : Entry).taken? = some id) :
    ∃ m, l = .found m ∧ l' = .owns m ∧ m.offrampId = id ∧
      o = .db (.transitionOfframpStatus id .payingLightning .depositingToPool) ∧ HEq r true := by
  unfold Entry.taken? at h
  split at h
  next he =>
    obtain ⟨-, rfl, rfl, hr⟩ := Entry.mk.inj he
    obtain rfl := Option.some.inj h
    cases hm with
    | quiet hq => cases hq
    | take => exact ⟨_, rfl, rfl, rfl, rfl, hr⟩
    | notTaken => cases hr
  next => cases h

theorem fulfilled?_eq_some (hm : Move cfg c l o r l') {id : ℤ}
    (h : (⟨tid, c, o, r⟩ : Entry).fulfilled? = some id) : ∃ m, l = .owns m ∧ m.offrampId = id := by
  unfold Entry.fulfilled? at h
  split at h
  next he =>
    obtain ⟨-, rfl, rfl, -⟩ := Entry.mk.inj he
    obtain rfl := Option.some.inj h
    cases hm with
    | quiet hq => cases hq
    | fulfill => exact ⟨_, rfl, rfl⟩
  next => cases h

end

/-! ## One move -/

section

variable {cfg : Config} {tid : ℕ} {c : Call} {l l' : Stage} {o : Op} {r : o.Resp} {w w' : World}
  {sp : Option Call} {id : ℤ} {tx : String}

theorem mem_log (he : Effect tid c o r w w' sp) {e : Entry} (h : e ∈ w.log) : e ∈ w'.log := by
  rw [he.log]
  exact List.mem_cons_of_mem _ h

theorem head_mem_log (he : Effect tid c o r w w' sp) : (⟨tid, c, o, r⟩ : Entry) ∈ w'.log := by
  rw [he.log]
  exact List.mem_cons_self ..

theorem verified_mono (he : Effect tid c o r w w' sp) {amount : ℤ}
    (h : VerifiedIn w.log id tx amount) : VerifiedIn w'.log id tx amount := by
  obtain ⟨tid', call, h⟩ := h
  exact ⟨tid', call, mem_log he h⟩

/-- A row is never deleted, and its fixed columns stay. -/
theorem offramp_mono (he : Effect tid c o r w w' sp) (hm : Move cfg c l o r l')
    {x : OfframpMapping} (h : w.offramp id = some x) : ∃ y, w'.offramp id = some y ∧ Same y x := by
  have hrow := rowMove he hm id
  rw [h] at hrow
  generalize w'.offramp id = y at hrow
  cases hrow with
  | same => exact ⟨x, rfl, .refl x⟩
  | write hs => exact ⟨_, rfl, hs⟩
  | record _ hs => exact ⟨_, rfl, hs⟩

theorem matches_mono (he : Effect tid c o r w w' sp) (hm : Move cfg c l o r l')
    {m : OfframpMapping} (h : w.Matches id m) : w'.Matches id m := by
  obtain ⟨x, hx, hs⟩ := h
  obtain ⟨y, hy, hs'⟩ := offramp_mono he hm hx
  exact ⟨y, hy, hs'.trans hs⟩

/-- A stored deposit is never replaced: only a row in PendingVerification gets one. -/
theorem stored_mono (he : Effect tid c o r w w' sp) (hm : Move cfg c l o r l')
    (hL : Ledger w id) (h : w.Stored id tx) : w'.Stored id tx := by
  obtain ⟨x, hx, htx, hne⟩ := h
  have hrow := rowMove he hm id
  rw [hx] at hrow
  rcases hy : w'.offramp id with _ | y
  · rw [hy] at hrow
    cases hrow
  rw [hy] at hrow
  cases hrow with
  | same => exact ⟨x, hy, htx, hne⟩
  | write _ hhash => exact ⟨y, hy, hhash.trans htx, hne⟩
  | record _ _ hst => exact absurd (htx ▸ hL.early x hx (Or.inr hst)) hne

theorem payments_eq (he : Effect tid c o r w w' sp) (id : ℤ) :
    w'.payments id = w.payments id + if Entry.pays id ⟨tid, c, o, r⟩ then 1 else 0 := by
  rw [World.payments, he.log, List.countP_cons, World.payments]

theorem takes_eq (he : Effect tid c o r w w' sp) (id : ℤ) :
    w'.takes id = w.takes id + if Entry.takes id ⟨tid, c, o, r⟩ then 1 else 0 := by
  rw [World.takes, he.log, List.countP_cons, World.takes]

/-- Only the holder of an offramp calls `send_payment` for it, and that ends its stage. -/
theorem payments_of_not_holds (he : Effect tid c o r w w' sp) (hm : Move cfg c l o r l')
    (hne : holds c l ≠ some id ∨ l' = l) : w'.payments id = w.payments id := by
  rw [payments_eq he, if_neg, Nat.add_zero]
  intro hp
  obtain ⟨req, hreq, hid⟩ := (Option.any_eq_true _ _).1 hp
  obtain ⟨ip, m, rfl, rfl, hl⟩ := payment?_eq_some hm hreq
  obtain rfl : req.offrampId = id := by simpa using hid
  exact hne.elim (absurd rfl) hl

/-- While a deposit verifies, nobody moves its row except to Failed until the deposit itself leaves
the stage. -/
theorem pending_mono (he : Effect tid c o r w w' sp) (hm : Move cfg c l o r l')
    (hK : Knows w tid c l) (hserv : w.serving = true) (hne : holds c l ≠ some id ∨ l' = l)
    (h : w.Pending id) : w'.Pending id := by
  obtain ⟨x, hx, hhash, hst⟩ := h
  have hrow := rowMove he hm id
  rw [hx] at hrow
  rcases hy : w'.offramp id with _ | y
  · rw [hy] at hrow
    cases hrow
  rw [hy] at hrow
  cases hrow with
  | same => exact ⟨x, hy, hhash, hst⟩
  | record hl =>
    rcases hne with hne | rfl
    · exact absurd rfl hne
    · simp at hl
  | write _ hsame hw =>
    refine ⟨y, hy, hsame.trans hhash, ?_⟩
    generalize hst₁ : x.status = st₁ at hw hst
    generalize y.status = st₂ at hw ⊢
    cases hw with
    | fail => exact Or.inr rfl
    | claim => simp at hst
    | revert => exact hne.elim (absurd rfl) nofun
    | take => simp at hst
    | advance hid =>
      obtain ⟨⟨tx', y', hy', rfl, hne'⟩, -⟩ := hK.owner _ rfl
      rw [hid, hx] at hy'
      exact absurd (Option.some.inj hy' ▸ hhash) hne'
    | reset => exact absurd ((hK.booting _ rfl).2.1 ▸ hserv) Bool.false_ne_true
    | finish => exact absurd ((hK.booting _ rfl).2.1 ▸ hserv) Bool.false_ne_true

/-! ### The ledger -/

theorem early_move (he : Effect tid c o r w w' sp) (hm : Move cfg c l o r l')
    (hK : Knows w tid c l) (hL : Ledger w id) (y : OfframpMapping) (hy : w'.offramp id = some y)
    (hst : y.status = .awaitingDeposit ∨ y.status = .pendingVerification) : y.cbtcTxHash = "" := by
  have hrow := rowMove he hm id
  rw [hy] at hrow
  rcases hx : w.offramp id with _ | x
  · rw [hx] at hrow
    cases hrow with
    | insert _ _ hreq => exact hreq.cbtcTxHash
  rw [hx] at hrow
  cases hrow with
  | same => exact hL.early y hx hst
  | record _ _ _ _ hpl => simp [hpl] at hst
  | write _ hhash hw =>
    rw [hhash]
    generalize hst₁ : x.status = st₁ at hw
    generalize y.status = st₂ at hw hst
    cases hw with
    | fail => simp at hst
    | claim => exact hL.early x hx (Or.inl hst₁)
    | revert =>
      obtain ⟨-, -, z, hz, hzh, -⟩ := hK.deposit _ _ _ rfl
      rw [hx] at hz
      exact Option.some.inj hz ▸ hzh
    | take => simp at hst
    | advance _ hst' => rcases hst' with rfl | rfl <;> simp at hst
    | reset => exact hL.early x hx (Or.inr hst₁)
    | finish => simp at hst

theorem late_move (he : Effect tid c o r w w' sp) (hm : Move cfg c l o r l')
    (hK : Knows w tid c l) (hL : Ledger w id) (y : OfframpMapping) (hy : w'.offramp id = some y)
    (hst : y.status = .payingLightning ∨ y.status = .depositingToPool ∨ y.status = .completed) :
    y.cbtcTxHash ≠ "" := by
  have stored : ∀ {x : OfframpMapping}, w.offramp id = some x →
      (∃ tx, w.Stored id tx) → x.cbtcTxHash ≠ "" := by
    rintro x hx ⟨tx, z, hz, rfl, hne⟩
    rw [hx] at hz
    exact Option.some.inj hz ▸ hne
  have hrow := rowMove he hm id
  rw [hy] at hrow
  rcases hx : w.offramp id with _ | x
  · rw [hx] at hrow
    cases hrow with
    | insert _ _ hreq => simp [hreq.status] at hst
  rw [hx] at hrow
  cases hrow with
  | same => exact hL.late y hx hst
  | record _ _ _ hhash => exact hhash ▸ (hK.deposit _ _ _ rfl).1
  | write _ hhash hw =>
    rw [hhash]
    generalize hst₁ : x.status = st₁ at hw
    generalize y.status = st₂ at hw hst
    cases hw with
    | take => exact hL.late x hx (Or.inl hst₁)
    | advance hid => exact stored hx (hid ▸ (hK.owner _ rfl).1)
    | finish hmem hid => exact stored hx (hid ▸ (hK.booting _ rfl).2.2 _ hmem)
    | _ => simp at hst

theorem verified_move (he : Effect tid c o r w w' sp) (hm : Move cfg c l o r l')
    (hK : Knows w tid c l) (hL : Ledger w id) (y : OfframpMapping) (hy : w'.offramp id = some y)
    (hne : y.cbtcTxHash ≠ "") : VerifiedIn w'.log id y.cbtcTxHash y.amountCbtc := by
  refine verified_mono he ?_
  have hrow := rowMove he hm id
  rw [hy] at hrow
  rcases hx : w.offramp id with _ | x
  · rw [hx] at hrow
    cases hrow with
    | insert _ _ hreq => exact absurd hreq.cbtcTxHash hne
  rw [hx] at hrow
  cases hrow with
  | same => exact hL.verified y hx hne
  | write hs hhash =>
    rw [hhash] at hne ⊢
    exact hs.amountCbtc ▸ hL.verified x hx hne
  | record _ hs _ hhash =>
    obtain ⟨-, ⟨z, hz, hzm⟩, -, hver⟩ := hK.deposit _ _ _ rfl
    rw [hx] at hz
    obtain rfl := Option.some.inj hz
    rw [hhash, hs.amountCbtc, hzm.amountCbtc]
    exact hver

theorem paidOnce_move (he : Effect tid c o r w w' sp) (hm : Move cfg c l o r l')
    (hK : Knows w tid c l) (hL : Ledger w id) : w'.payments id ≤ 1 := by
  rw [payments_eq he]
  split_ifs with hp
  · obtain ⟨req, hreq, hid⟩ := (Option.any_eq_true _ _).1 hp
    obtain ⟨ip, m, rfl, rfl, -⟩ := payment?_eq_some hm hreq
    obtain rfl : req.offrampId = id := by simpa using hid
    obtain ⟨-, -, h0⟩ := hK.deposit ip req.offrampId req.cbtcTxHash rfl
    omega
  · exact hL.paidOnce

theorem paid_move (he : Effect tid c o r w w' sp) (hm : Move cfg c l o r l')
    (hK : Knows w tid c l) (hL : Ledger w id) (newer : List Entry) (e : Entry)
    (older : List Entry) (tx : String) (hlog : w'.log = newer ++ e :: older)
    (hp : e.payment? = some ⟨id, tx⟩) :
    w'.Stored id tx ∧ ∃ y, w'.offramp id = some y ∧ VerifiedIn older id tx y.amountCbtc := by
  have hold : w.Stored id tx ∧ ∃ x, w.offramp id = some x ∧ VerifiedIn older id tx x.amountCbtc := by
    rw [he.log] at hlog
    cases newer with
    | nil =>
      -- the call that has just been made: its deposit is stored, and stored deposits are verified
      obtain ⟨rfl, rfl⟩ := List.cons.inj hlog
      obtain ⟨ip, m, rfl, rfl, -⟩ := payment?_eq_some hm hp
      obtain ⟨-, hst, -⟩ := hK.deposit _ _ _ rfl
      obtain ⟨x, hx, rfl, hne⟩ := hst
      exact ⟨⟨x, hx, rfl, hne⟩, x, hx, hL.verified x hx hne⟩
    | cons e' newer => exact hL.paid newer e older tx (List.cons.inj hlog).2 hp
  obtain ⟨hst, x, hx, hver⟩ := hold
  obtain ⟨y, hy, hs⟩ := offramp_mono he hm hx
  exact ⟨stored_mono he hm hL hst, y, hy, hs.amountCbtc ▸ hver⟩

/-- A row that `complete_offramp` wins was in PayingLightning. -/
theorem payingLightning_of_taken (he : Effect tid c o r w w' sp) (hm : Move cfg c l o r l')
    (ht : (⟨tid, c, o, r⟩ : Entry).taken? = some id) :
    ∃ x, w.offramp id = some x ∧ x.status = .payingLightning ∧
      w'.offramp id = some { x with status := .depositingToPool } := by
  have hans := he.answered
  have hrow := he.offramp id
  obtain ⟨m, -, -, -, rfl, hr⟩ := taken?_eq_some hm ht
  rw [eq_of_heq hr] at hans
  obtain ⟨x, hx, hst⟩ := SwapDb.transitionOfframpStatus_fst_iff.1 hans.symm
  refine ⟨x, hx, hst, ?_⟩
  rw [hrow, World.offramp, hx]
  simp [Op.onOfframp, DbCall.onOfframp, OfframpMapping.moved, hst]

theorem takenOnce_move (he : Effect tid c o r w w' sp) (hm : Move cfg c l o r l')
    (hL : Ledger w id) : w'.takes id ≤ 1 := by
  rw [takes_eq he]
  split_ifs with ht
  · obtain ⟨x, hx, hst, -⟩ := payingLightning_of_taken he hm (of_decide_eq_true ht)
    have h0 : w.takes id = 0 := by
      by_contra hne
      obtain ⟨z, hz, -, hzst⟩ := hL.taken hne
      rw [hx] at hz
      exact hzst (Option.some.inj hz ▸ hst)
    omega
  · exact hL.takenOnce

theorem taken_move (he : Effect tid c o r w w' sp) (hm : Move cfg c l o r l')
    (hK : Knows w tid c l) (hL : Ledger w id) (hne : w'.takes id ≠ 0) :
    ∃ y, w'.offramp id = some y ∧ y.cbtcTxHash ≠ "" ∧ y.status ≠ .payingLightning := by
  by_cases ht : (⟨tid, c, o, r⟩ : Entry).taken? = some id
  · obtain ⟨x, hx, hst, hy⟩ := payingLightning_of_taken he hm ht
    exact ⟨_, hy, hL.late x hx (Or.inl hst), nofun⟩
  rw [takes_eq he, Entry.takes, if_neg (by simpa using ht), Nat.add_zero] at hne
  obtain ⟨x, hx, hhash, hst⟩ := hL.taken hne
  have hrow := rowMove he hm id
  rw [hx] at hrow
  rcases hy : w'.offramp id with _ | y
  · rw [hy] at hrow
    cases hrow
  rw [hy] at hrow
  refine ⟨y, rfl, ?_⟩
  cases hrow with
  | same => exact ⟨hhash, hst⟩
  | record _ _ hpv => exact absurd (hL.early x hx (Or.inr hpv)) hhash
  | write _ hsame hw =>
    refine ⟨hsame ▸ hhash, ?_⟩
    generalize x.status = st₁ at hw
    generalize y.status = st₂ at hw ⊢
    cases hw with
    | advance _ hst' => rcases hst' with rfl | rfl <;> nofun
    | _ => nofun

theorem fulfilled_move (he : Effect tid c o r w w' sp) (hm : Move cfg c l o r l')
    (hK : Knows w tid c l) (hL : Ledger w id) (e : Entry) (hmem : e ∈ w'.log)
    (hf : e.fulfilled? = some id) : ∃ e' ∈ w'.log, e'.taken? = some id ∧ e'.tid = e.tid := by
  have h : ∃ e' ∈ w.log, e'.taken? = some id ∧ e'.tid = e.tid := by
    rw [he.log, List.mem_cons] at hmem
    rcases hmem with rfl | hmem
    · obtain ⟨m, rfl, rfl⟩ := fulfilled?_eq_some hm hf
      exact (hK.owner m rfl).2
    · exact hL.fulfilled e hmem hf
  obtain ⟨e', he', h⟩ := h
  exact ⟨e', mem_log he he', h⟩

theorem ledger_move (he : Effect tid c o r w w' sp) (hm : Move cfg c l o r l')
    (hK : Knows w tid c l) (hL : Ledger w id) : Ledger w' id where
  early := early_move he hm hK hL
  late := late_move he hm hK hL
  verified := verified_move he hm hK hL
  paidOnce := paidOnce_move he hm hK hL
  paid := paid_move he hm hK hL
  takenOnce := takenOnce_move he hm hL
  taken := taken_move he hm hK hL
  fulfilled := fulfilled_move he hm hK hL

/-! ### What the tasks know -/

theorem serving_mono (he : Effect tid c o r w w' sp) (h : w.serving = true) : w'.serving = true := by
  rw [he.serving, h, Bool.true_or]

/-- The API starts to serve only at the end of the startup. -/
theorem not_serving (he : Effect tid c o r w w' sp) (hm : Move cfg c l o r l')
    (hne : c ≠ .startLdk ∨ l' = l) (h : w.serving = false) : w'.serving = false := by
  have hop : o ≠ .serve := by
    rintro rfl
    cases hm with
    | quiet hq => cases hq
    | serve => exact hne.elim (absurd rfl) nofun
  rw [he.serving, h, decide_eq_false hop, Bool.or_false]

/-- A task keeps what it knows while another one moves, and in its own moves that do not change its
stage. -/
theorem knows_mono {tid' : ℕ} {d : Call} {l₀ : Stage} (he : Effect tid c o r w w' sp)
    (hm : Move cfg c l o r l') (hL : ∀ k, Ledger w k) (hK : Knows w tid c l)
    (h : Knows w tid' d l₀)
    (hne : Separate d l₀ c l ∨ l' = l) : Knows w' tid' d l₀ where
  serving hd := serving_mono he (h.serving hd)
  deposit := by
    rintro ip id tx rfl
    have hk := h.deposit ip id tx rfl
    have hserv := h.serving rfl
    have hhold : holds (.handleOfframpDeposit ip ⟨id, tx⟩) l₀ = some id →
        holds c l ≠ some id ∨ l' = l := fun hh => hne.imp_left fun h' => h'.1 id hh
    cases l₀ with
    | read m => exact ⟨hk.1, matches_mono he hm hk.2⟩
    | free m => exact ⟨hk.1, matches_mono he hm hk.2⟩
    | verifying m =>
      exact ⟨hk.1, matches_mono he hm hk.2.1, pending_mono he hm hK hserv (hhold rfl) hk.2.2⟩
    | verified m =>
      exact ⟨hk.1, matches_mono he hm hk.2.1, pending_mono he hm hK hserv (hhold rfl) hk.2.2.1,
        verified_mono he hk.2.2.2⟩
    | paying m =>
      exact ⟨matches_mono he hm hk.1, stored_mono he hm (hL id) hk.2.1,
        (payments_of_not_holds he hm (hhold rfl)).trans hk.2.2⟩
    | sending m => exact ⟨matches_mono he hm hk.1, stored_mono he hm (hL id) hk.2⟩
    | _ => trivial
  booting rows hl := by
    obtain ⟨rfl, hserv, hrows⟩ := h.booting rows hl
    refine ⟨rfl, not_serving he hm (hne.imp_left fun h' => h'.2 rfl) hserv, fun m hmem => ?_⟩
    obtain ⟨tx, hst⟩ := hrows m hmem
    exact ⟨tx, stored_mono he hm (hL _) hst⟩
  owner m hl := by
    obtain ⟨⟨tx, hst⟩, e, hmem, he'⟩ := h.owner m hl
    exact ⟨⟨tx, stored_mono he hm (hL _) hst⟩, e, mem_log he hmem, he'⟩

/-- The stages of the startup and of the owner of a row. -/
def Stage.owning : Stage → Bool
  | .booting _ | .owns _ => true
  | _ => false

theorem knows_of_deposit (hserv : c.isHttp = true → w.serving = true)
    (hd : ∀ ip id tx, c = .handleOfframpDeposit ip ⟨id, tx⟩ → DepositKnows w id tx l)
    (hl : l.owning = false) : Knows w tid c l where
  serving := hserv
  deposit := hd
  booting rows h := by
    subst h
    cases hl
  owner m h := by
    subst h
    cases hl

/-- A stage about which a task has to know nothing. -/
theorem knows_of_not_deposit (hserv : c.isHttp = true → w.serving = true)
    (hc : ∀ ip id tx, c ≠ .handleOfframpDeposit ip ⟨id, tx⟩) (hl : l.owning = false) :
    Knows w tid c l :=
  knows_of_deposit hserv (fun ip id tx h => absurd h (hc ip id tx)) hl

theorem knows_idle (hserv : c.isHttp = true → w.serving = true) : Knows w tid c .idle :=
  knows_of_deposit hserv (fun _ _ _ _ => trivial) rfl

/-- Without a stored deposit nothing was paid. -/
theorem payments_of_pending (hL : Ledger w id) (h : w.Pending id) : w.payments id = 0 := by
  rw [World.payments, List.countP_eq_zero]
  intro e he hp
  obtain ⟨⟨id', tx⟩, hreq, hid⟩ := (Option.any_eq_true _ _).1 hp
  obtain rfl : id' = id := by simpa using hid
  obtain ⟨newer, older, hlog⟩ := List.append_of_mem he
  obtain ⟨⟨x, hx, rfl, hne⟩, -⟩ := hL.paid newer e older tx hlog hreq
  obtain ⟨y, hy, hhash, -⟩ := h
  rw [hx] at hy
  exact hne (Option.some.inj hy ▸ hhash)

/-- The deposit that wins a row finds it without a stored deposit. -/
theorem pending_of_claim (he : Effect tid c
      (.db (.transitionOfframpStatus id .awaitingDeposit .pendingVerification)) true w w' sp)
    (hL : Ledger w id) : w'.Pending id := by
  have hans : (w.db.transitionOfframpStatus id .awaitingDeposit .pendingVerification).1 = true :=
    Eq.symm he.answered
  obtain ⟨x, hx, hst⟩ := SwapDb.transitionOfframpStatus_fst_iff.1 hans
  refine ⟨{ x with status := .pendingVerification }, ?_, hL.early x hx (Or.inl hst), Or.inl rfl⟩
  rw [he.offramp, World.offramp, hx]
  simp [Op.onOfframp, DbCall.onOfframp, OfframpMapping.moved, hst]

theorem stored_of_record (htx : tx ≠ "") (he : Effect tid c
      (.db (.transitionOfframpWithCbtcTx id tx .pendingVerification .payingLightning)) true w w' sp) :
    w'.Stored id tx := by
  have hans : (w.db.transitionOfframpWithCbtcTx id tx .pendingVerification .payingLightning).1 =
    true := Eq.symm he.answered
  obtain ⟨x, hx, hst⟩ := SwapDb.transitionOfframpWithCbtcTx_fst_iff.1 hans
  refine ⟨{ x with cbtcTxHash := tx, status := .payingLightning }, ?_, rfl, htx⟩
  rw [he.offramp, World.offramp, hx]
  simp [Op.onOfframp, DbCall.onOfframp, OfframpMapping.recorded, hst]

theorem owner_of_take {h p : String} {m : OfframpMapping} (he : Effect tid (.completeOfframp h p)
      (.db (.transitionOfframpStatus m.offrampId .payingLightning .depositingToPool)) true w w' sp)
    (hL : Ledger w m.offrampId) :
    (∃ tx, w.Stored m.offrampId tx) ∧ ∃ e ∈ w'.log, e.taken? = some m.offrampId ∧ e.tid = tid := by
  have hans : (w.db.transitionOfframpStatus m.offrampId .payingLightning .depositingToPool).1 =
    true := Eq.symm he.answered
  obtain ⟨x, hx, hst⟩ := SwapDb.transitionOfframpStatus_fst_iff.1 hans
  exact ⟨⟨_, x, hx, rfl, hL.late x hx (Or.inl hst)⟩, _, head_mem_log he, rfl, rfl⟩

/-- What a task knows after its own move. -/
theorem knows_move (he : Effect tid c o r w w' sp) (hm : Move cfg c l o r l')
    (hL : ∀ k, Ledger w k) (hK : Knows w tid c l) : Knows w' tid c l' := by
  have hserv : c.isHttp = true → w'.serving = true := fun h => serving_mono he (hK.serving h)
  have hstay : l' = l → Knows w' tid c l := fun hl => knows_mono he hm hL hK hK (Or.inr hl)
  have hmat : ∀ {id m}, w.Matches id m → w'.Matches id m := fun h => matches_mono he hm h
  have hsto : ∀ {id tx}, w.Stored id tx → w'.Stored id tx := fun h => stored_mono he hm (hL _) h
  have hdep : ∀ {ip id tx}, c = .handleOfframpDeposit ip ⟨id, tx⟩ → DepositKnows w' id tx l' →
      l'.owning = false → Knows w' tid c l' := by
    rintro ip id tx rfl hk
    refine knows_of_deposit hserv ?_
    rintro _ _ _ ⟨⟩
    exact hk
  cases hm with
  | @read _ _ id m htx =>
    have hrow : w.offramp id = some m := Eq.symm he.answered
    exact hdep rfl ⟨htx, hmat ⟨m, hrow, .refl m⟩⟩ rfl
  | unused hused =>
    obtain ⟨htx, h⟩ := hK.deposit _ _ _ rfl
    exact hdep rfl ⟨htx, hmat h⟩ rfl
  | claim =>
    obtain ⟨htx, h⟩ := hK.deposit _ _ _ rfl
    exact hdep rfl ⟨htx, hmat h, pending_of_claim he (hL _)⟩ rfl
  | verified =>
    obtain ⟨htx, h, x, hx, hp⟩ := hK.deposit _ _ _ rfl
    exact hdep rfl ⟨htx, hmat h, ⟨x, (he.offramp _).trans hx, hp⟩, tid, _, head_mem_log he⟩ rfl
  | record =>
    obtain ⟨htx, h, hp, -⟩ := hK.deposit _ _ _ rfl
    have h0 := payments_of_pending (hL _) hp
    refine hdep rfl ⟨hmat h, stored_of_record htx he, ?_⟩ rfl
    rwa [payments_eq he]
  | enter =>
    obtain ⟨h, hst, -⟩ := hK.deposit _ _ _ rfl
    exact hdep rfl ⟨hmat h, hsto hst⟩ rfl
  | take =>
    obtain ⟨⟨tx, hst⟩, hent⟩ := owner_of_take he (hL _)
    refine ⟨hserv, nofun, nofun, ?_⟩
    rintro m ⟨⟩
    exact ⟨⟨tx, hsto hst⟩, hent⟩
  | @scan rows rows' =>
    refine ⟨hserv, nofun, ?_, fun m => nofun⟩
    rintro _ ⟨⟩
    have hfalse : w'.serving = false := he.serving.trans (by rw [(hK.booting rows rfl).2.1]; rfl)
    have hrows : rows' = w.db.getOfframpsByStatus .depositingToPool := he.answered
    refine ⟨rfl, hfalse, fun m hmem => ?_⟩
    rw [hrows, SwapDb.mem_getOfframpsByStatus] at hmem
    exact ⟨_, hsto ⟨m, hmem.1, rfl, (hL _).late m hmem.1 (Or.inr (Or.inl hmem.2))⟩⟩
  | quiet | fail | spawn | request | rejected | enterCli | payCli | notTaken | advance | fulfill
  | cancelFailed | cancel | reset | failPaying | recover | finish => exact hstay rfl
  | used | missed | revert | unpayable | overtaken | misfit | pay | page | unknown | nowhere
  | unsigned | submit | serve => exact knows_idle hserv
  | found | alarm | refund | time | snapshot => exact knows_of_not_deposit hserv nofun rfl

end

/-! ## All runs -/

section

variable {cfg : Config} {tid : ℕ} {c c' : Call} {l l' : Stage} {o : Op} {r : o.Resp}
  {w w' : World}

/-- A task starts another one only where the protocol says so. -/
theorem spawn_cases (he : Effect tid c o r w w' (some c')) (hm : Move cfg c l o r l') :
    plain c' = true ∧ l' = l ∨ ∃ id h, c = .handleLdkEvents (.paymentFailed id (some h)) ∧
      l = .alarmed ∧ l' = .idle ∧ c' = .handleOfframpPaymentFailed h := by
  have hsp := he.spawned
  cases hm with
  | quiet hq =>
    cases o with
    | spawn => cases hq
    | _ => cases hsp
  | spawn hp =>
    obtain rfl := Option.some.inj hsp
    exact Or.inl ⟨hp, rfl⟩
  | page =>
    obtain rfl := Option.some.inj hsp
    exact Or.inr ⟨_, _, rfl, rfl, rfl, rfl⟩
  | _ => cases hsp

theorem Ledger.congr {k : ℤ} (h : Ledger w k) (hdb : w'.db = w.db) (hlog : w'.log = w.log) :
    Ledger w' k := by
  cases w
  cases w'
  cases hdb
  cases hlog
  exact ⟨h.early, h.late, h.verified, h.paidOnce, h.paid, h.takenOnce, h.taken, h.fulfilled⟩

theorem Knows.congr (h : Knows w tid c l) (hdb : w'.db = w.db) (hlog : w'.log = w.log)
    (hserv : w'.serving = w.serving) : Knows w' tid c l := by
  cases w
  cases w'
  cases hdb
  cases hlog
  cases hserv
  refine ⟨h.serving, fun ip id tx hc => ?_, h.booting, h.owner⟩
  have hk := h.deposit ip id tx hc
  cases l <;> exact hk

/-- A row that a deposit holds is not in AwaitingDeposit. -/
theorem not_awaiting_of_holds {id : ℤ} (hK : Knows w tid c l) (hL : Ledger w id)
    (h : holds c l = some id) : ∀ x, w.offramp id = some x → x.status ≠ .awaitingDeposit := by
  intro x hx hst
  have hpend : ¬ w.Pending id := by
    rintro ⟨y, hy, -, hy'⟩
    rw [hx] at hy
    obtain rfl := Option.some.inj hy
    simp [hst] at hy'
  have hstored : ∀ {tx}, ¬ w.Stored id tx := by
    rintro tx ⟨y, hy, rfl, hne⟩
    rw [hx] at hy
    obtain rfl := Option.some.inj hy
    exact hne (hL.early x hx (Or.inl hst))
  cases c with
  | handleOfframpDeposit ip req =>
    have hk := hK.deposit ip req.offrampId req.cbtcTxHash rfl
    cases l with
    | verifying m =>
      obtain rfl := Option.some.inj h
      exact hpend hk.2.2
    | verified m =>
      obtain rfl := Option.some.inj h
      exact hpend hk.2.2.1
    | paying m =>
      obtain rfl := Option.some.inj h
      exact hstored hk.2.1
    | sending m =>
      obtain rfl := Option.some.inj h
      exact hstored hk.2
    | _ => cases h
  | _ => cases h

/-- A task gets hold of an offramp only by winning its row. -/
theorem holds_of_move {sp : Option Call} {id : ℤ} (he : Effect tid c o r w w' sp)
    (hm : Move cfg c l o r l') (h : holds c l' = some id) :
    holds c l = some id ∨ ∃ x, w.offramp id = some x ∧ x.status = .awaitingDeposit := by
  have hans := he.answered
  cases hm with
  | @claim _ _ id' =>
    obtain rfl := Option.some.inj h
    have hans : (w.db.transitionOfframpStatus id' .awaitingDeposit .pendingVerification).1 = true :=
      Eq.symm hans
    exact Or.inr (SwapDb.transitionOfframpStatus_fst_iff.1 hans)
  | quiet | fail | spawn | request | rejected | enterCli | payCli | notTaken | advance | fulfill
  | cancelFailed | cancel | reset | failPaying | recover | finish | verified | record | enter =>
    exact Or.inl h
  | _ => cases h

/-- Nothing that starts holds an offramp. -/
theorem holds_start (c : Call) : holds c (start c) = none := by
  unfold start
  split <;> simp [holds]

theorem separate_start (hc : c' ≠ .startLdk) : Separate c l c' (start c') := by
  refine ⟨fun id _ h => ?_, fun _ => hc⟩
  rw [holds_start] at h
  cases h

theorem Separate.symm (h : Separate c l c' l') : Separate c' l' c l :=
  ⟨fun id h₁ h₂ => h.1 id h₂ h₁, fun h₁ h₂ => h.2 h₂ h₁⟩

theorem knows_start (hc : c ≠ .startLdk) (hserv : c.isHttp = true → w.serving = true) :
    Knows w tid c (start c) := by
  unfold start
  split
  · exact absurd rfl hc
  · exact knows_of_not_deposit nofun nofun rfl
  · exact knows_of_not_deposit nofun nofun rfl
  · exact knows_idle hserv

/-- A task that another task starts is neither the startup nor a request. -/
theorem spawned_call (he : Effect tid c o r w w' (some c')) (hm : Move cfg c l o r l') :
    c' ≠ .startLdk ∧ c'.isHttp = false := by
  rcases spawn_cases he hm with ⟨hplain, -⟩ | ⟨id, h, -, -, -, rfl⟩
  · cases c' with
    | startLdk | handleSwapRequest | handleOfframpRequest | handleOfframpDeposit => cases hplain
    | _ => exact ⟨nofun, rfl⟩
  · exact ⟨nofun, rfl⟩

/-- A task that the environment starts is not the startup, and a request only while the API
serves. -/
theorem requested_call {e : Env} (h : Reaction w e w' (.spawn c)) :
    c ≠ .startLdk ∧ (c.isHttp = true → w'.serving = true) := by
  have hserv := h.serving nofun
  rcases h.spawn with ⟨hs, hc⟩ | ⟨event, -, rfl, -⟩
  · refine ⟨?_, fun _ => hserv.trans hs⟩
    rintro rfl
    cases hc
  · exact ⟨nofun, nofun⟩

theorem ledger_fresh (cfg : Config) (now : ℤ) (k : ℤ) : Ledger (World.fresh cfg now) k := by
  have hrow : (World.fresh cfg now).offramp k = none := rfl
  have hlog : (World.fresh cfg now).log = [] := rfl
  constructor <;> simp [hrow, hlog, World.payments, World.takes]

theorem knows_boot (h : w.serving = false) : Knows w tid .startLdk (start .startLdk) := by
  refine ⟨nofun, nofun, ?_, fun m => nofun⟩
  rintro rows ⟨⟩
  exact ⟨rfl, h, fun m hm => absurd hm List.not_mem_nil⟩

/-- Custody holds through every run. -/
theorem custody_sound (cfg : Config) (now : ℤ) :
    (custody cfg).Sound (relay cfg) (fun _ _ => True) (World.fresh cfg now) where
  body := body_follows cfg
  symm h := Separate.symm h
  init := ⟨ledger_fresh cfg now, knows_boot rfl⟩
  move turn hp hm := by
    have he := effect_of_perform hp
    exact ⟨fun k => ledger_move he hm turn.owned (turn.shared k),
      knows_move he hm turn.shared turn.owned⟩
  others turn hp hm _ _ _ howned hapart := by
    have he := effect_of_perform hp
    refine ⟨knows_mono he hm turn.shared turn.owned howned (Or.inl (Separate.symm hapart)), ?_,
      hapart.2⟩
    intro id h₁ h₂
    rcases holds_of_move he hm h₁ with h₁ | ⟨x, hx, hst⟩
    · exact hapart.1 id h₁ h₂
    · exact not_awaiting_of_holds howned (turn.shared id) h₂ x hx hst
  spawned turn hp hm := by
    obtain ⟨hc, hhttp⟩ := spawned_call (effect_of_perform hp) hm
    refine ⟨knows_start hc fun h => ?_, separate_start hc, fun _ _ _ _ _ => separate_start hc⟩
    exact absurd (hhttp.symm.trans h) Bool.false_ne_true
  abort turn hp := by
    obtain rfl := abort_of_perform hp
    exact ⟨fun k => (turn.shared k).congr rfl rfl, knows_boot rfl⟩
  react next hr := by
    have hc := (reaction_of_react hr).calm
    exact fun k => (next.shared k).congr hc.db hc.log
  reactOthers _ hr hch _ _ howned := by
    have hre := reaction_of_react hr
    exact howned.congr hre.calm.db hre.calm.log (hre.serving hch)
  reactSpawn _ hr := by
    obtain ⟨hc, hserv⟩ := requested_call (reaction_of_react hr)
    exact ⟨knows_start hc hserv, fun _ _ _ => separate_start hc⟩
  reactRestart _ hr := by
    cases reaction_of_react hr
    exact knows_boot rfl

end

/-! ## What follows -/

section

variable {cfg : Config} {now : ℤ} {s : Sys}

theorem ledger_of_reachable (h : Reachable cfg now s) (k : ℤ) : Ledger s.world k := by
  obtain ⟨L, hL⟩ := (custody_sound cfg now).holds h
  exact hL.shared k

set_option maxRecDepth 100000 in
/-- The first offramp of the devnet is paid once and completed. -/
theorem devnet_completed : ∃ s, Reachable Devnet.config Devnet.startTime s ∧
    (s.world.offramp 1).map (·.status) = some .completed ∧ s.world.payments 1 = 1 ∧
      s.world.takes 1 = 1 := by
  obtain ⟨s, hs, hp⟩ := Devnet.reachable_of_after Devnet.completedRun (fun s =>
    decide ((s.world.offramp 1).map (·.status) = some .completed ∧ s.world.payments 1 = 1 ∧
      s.world.takes 1 = 1)) (by decide +kernel)
  exact ⟨s, hs, of_decide_eq_true hp⟩

/-- In every run, for every offramp: `process_offramp_deposit` calls `send_payment` at most once,
at most one `complete_offramp` moves the row from PayingLightning to DepositingToPool, and every
`complete_offramp` that calls `fulfill_offramp` is that one. -/
theorem payout_at_most_once (h : Reachable cfg now s) (id : ℤ) :
    s.world.payments id ≤ 1 ∧ s.world.takes id ≤ 1 ∧
      ∀ e ∈ s.world.log, e.fulfilled? = some id →
        ∃ e' ∈ s.world.log, e'.taken? = some id ∧ e'.tid = e.tid :=
  ⟨(ledger_of_reachable h id).paidOnce, (ledger_of_reachable h id).takenOnce,
    (ledger_of_reachable h id).fulfilled⟩

theorem payout_at_most_once_completed : ∃ s, Reachable Devnet.config Devnet.startTime s ∧
    s.world.payments 1 = 1 ∧ s.world.takes 1 = 1 ∧
    (s.world.payments 1 ≤ 1 ∧ s.world.takes 1 ≤ 1 ∧
      ∀ e ∈ s.world.log, e.fulfilled? = some 1 →
        ∃ e' ∈ s.world.log, e'.taken? = some 1 ∧ e'.tid = e.tid) := by
  obtain ⟨s, hs, -, hpay, htake⟩ := devnet_completed
  exact ⟨s, hs, hpay, htake, payout_at_most_once hs 1⟩

/-- In every run: a row in PayingLightning, DepositingToPool or Completed has a deposit that was
verified for the row's amount, and `send_payment` is called for an offramp only after that. -/
theorem paid_after_verified_deposit (h : Reachable cfg now s) (id : ℤ) :
    (∀ r, s.world.offramp id = some r →
      r.status = .payingLightning ∨ r.status = .depositingToPool ∨ r.status = .completed →
      r.cbtcTxHash ≠ "" ∧ VerifiedIn s.world.log id r.cbtcTxHash r.amountCbtc) ∧
    ∀ newer e older, s.world.log = newer ++ e :: older → e.pays id = true →
      ∃ r, s.world.offramp id = some r ∧ r.cbtcTxHash ≠ "" ∧
        VerifiedIn older id r.cbtcTxHash r.amountCbtc := by
  have hL := ledger_of_reachable h id
  constructor
  · intro r hr hst
    have hne := hL.late r hr hst
    exact ⟨hne, hL.verified r hr hne⟩
  · intro newer e older hlog hp
    obtain ⟨⟨id', tx⟩, hreq, hid⟩ := (Option.any_eq_true _ _).1 hp
    obtain rfl : id' = id := by simpa using hid
    obtain ⟨⟨r, hr, rfl, hne⟩, x, hx, hver⟩ := hL.paid newer e older tx hlog hreq
    rw [hr] at hx
    obtain rfl := Option.some.inj hx
    exact ⟨r, hr, hne, hver⟩

theorem paid_after_verified_deposit_completed :
    ∃ s, Reachable Devnet.config Devnet.startTime s ∧
      (s.world.offramp 1).map (·.status) = some .completed ∧ s.world.payments 1 = 1 ∧
      ((∀ r, s.world.offramp 1 = some r →
        r.status = .payingLightning ∨ r.status = .depositingToPool ∨ r.status = .completed →
        r.cbtcTxHash ≠ "" ∧ VerifiedIn s.world.log 1 r.cbtcTxHash r.amountCbtc) ∧
      ∀ newer e older, s.world.log = newer ++ e :: older → e.pays 1 = true →
        ∃ r, s.world.offramp 1 = some r ∧ r.cbtcTxHash ≠ "" ∧
          VerifiedIn older 1 r.cbtcTxHash r.amountCbtc) := by
  obtain ⟨s, hs, hst, hpay, -⟩ := devnet_completed
  exact ⟨s, hs, hst, hpay, paid_after_verified_deposit hs 1⟩

end

end Payout

end LightningRelay
