import LightningRelay.Payout.Attempts

/-!
# Payment hashes

The handlers of LDK's events find an offramp by its payment hash.  `request_offramp` refuses a hash
that an offramp has, but it inserts its row only after the awaited creation on Cardano, and the table
allows a hash twice.  Where rows are inserted under new hashes only (`novel`), a hash belongs to one
offramp, and the handler of a failed payment refunds that one.
-/

set_option autoImplicit false

namespace LightningRelay

open Async

/-- The event reports that a payment under this hash failed. -/
def LdkEvent.reports (h : String) : LdkEvent → Bool
  | .paymentFailed _ (some h') => h' = h
  | _ => false

namespace World

/-- LDK has reported a failed payment under this hash. -/
def reported (w : World) (h : String) : Bool := w.delivered.any (LdkEvent.reports h)

/-- No offramp has this payment hash, and LDK has no payment under it. -/
def unknownHash (w : World) (h : String) : Bool :=
  (w.db.getOfframpByPaymentHash h).isNone && w.attempts.all fun a => a.paymentHash ≠ h

end World

namespace Payout

/-- An offramp is inserted only under a new payment hash. -/
def novel (s : Sys) : Act → Bool
  | .task tid _ =>
    match s.tasks tid with
    | some ⟨_, .op (.db (.insertOfframp m)) _⟩ => s.world.unknownHash m.paymentHash
    | _ => true
  | .env _ => true

/-- What the condition says of an operation. -/
def Novel (o : Op) (w : World) : Prop :=
  ∀ m, o = .db (.insertOfframp m) → w.unknownHash m.paymentHash = true

/-- A payment hash belongs to one offramp. -/
def UniqueHash (w : World) : Prop :=
  ∀ k k' r r', w.offramp k = some r → w.offramp k' = some r' → r.paymentHash = r'.paymentHash →
    k = k'

/-- The handlers find a row by its payment hash. -/
theorem getOfframpByPaymentHash_of_unique {w : World} {k : ℤ} {r : OfframpMapping}
    (hU : UniqueHash w) (hr : w.offramp k = some r) :
    w.db.getOfframpByPaymentHash r.paymentHash = some r := by
  rcases hx : w.db.getOfframpByPaymentHash r.paymentHash with _ | x
  · exact absurd rfl (SwapDb.getOfframpByPaymentHash_eq_none_iff.1 hx k r hr)
  · obtain ⟨hid, hhash⟩ := SwapDb.getOfframpByPaymentHash_eq_some hx
    obtain rfl := hU k x.offrampId r x hr hid hhash.symm
    exact hid.symm.trans hr

/-- The row that a handler refunds has the payment hash of its event. -/
def RefundRow (w : World) (_ : ℕ) (c : Call) (l : Stage) : Prop :=
  ∀ h m, c = .handleOfframpPaymentFailed h → l = .refunding m ∨ l = .submitting m →
    ∃ r, w.offramp m.offrampId = some r ∧ r.paymentHash = h

section

variable {cfg : Config} {tid : ℕ} {c : Call} {l l' : Stage} {o : Op} {r : o.Resp} {w w' : World}
  {sp : Option Call} {k : ℤ} {h : String}

theorem novel_of_ok {s : Sys} {a : Answers} (htask : ∃ k, s.tasks tid = some ⟨c, .op o k⟩)
    (hok : novel s (.task tid a) = true) : Novel o s.world := by
  obtain ⟨k, ht⟩ := htask
  rintro m rfl
  simpa only [novel, ht] using hok

theorem not_row_of_unknownHash (hu : w.unknownHash h = true) {x : OfframpMapping}
    (hx : w.offramp k = some x) : x.paymentHash ≠ h := by
  rw [World.unknownHash, Bool.and_eq_true, Option.isNone_iff_eq_none] at hu
  exact SwapDb.getOfframpByPaymentHash_eq_none_iff.1 hu.1 k x hx

theorem not_attempt_of_unknownHash (hu : w.unknownHash h = true) {j : ℕ} {a : Attempt}
    (ha : w.attempts[j]? = some a) : a.paymentHash ≠ h := by
  rw [World.unknownHash, Bool.and_eq_true, List.all_eq_true] at hu
  simpa using hu.2 a (List.mem_of_getElem? ha)

/-! ## Reported failures -/

/-- LDK reports a failure only after a payment. -/
theorem attempt_of_reported (hA : Accounts cfg w) (hr : w.reported h = true) :
    ∃ (j : ℕ) (a : Attempt), w.attempts[j]? = some a ∧ a.paymentHash = h ∧
      a.outcome = some .failed := by
  obtain ⟨event, hmem, he⟩ := List.any_eq_true.1 hr
  unfold LdkEvent.reports at he
  split at he
  · obtain rfl := of_decide_eq_true he
    exact hA.failed _ _ hmem
  · cases he

theorem reported_eq (he : Effect tid c o r w w' sp) (h : String) : w'.reported h = w.reported h := by
  rw [World.reported, he.delivered, World.reported]

theorem reported_react {e : Env} {ch : Change Call} (hr : Reaction w e w' ch)
    (hrep : w.reported h = true) : w'.reported h = true := by
  cases hr with
  | deliver => rw [World.reported, List.any_cons, Bool.or_eq_true]; exact Or.inr hrep
  | _ => exact hrep

/-- A row with the hash of a reported failure was there before the move. -/
theorem row_of_reported (he : Effect tid c o r w w' sp) (hm : Move cfg c l o r l')
    (hA : Accounts cfg w) (hn : Novel o w) (hrep : w.reported h = true) {y : OfframpMapping}
    (hy : w'.offramp k = some y) (hhash : y.paymentHash = h) :
    ∃ x, w.offramp k = some x ∧ x.paymentHash = h := by
  rcases offramp_origin he hm hy with ⟨x, hx, hs⟩ | ⟨-, ⟨m, rfl, hs⟩, -⟩
  · exact ⟨x, hx, hs.paymentHash ▸ hhash⟩
  · -- a row is not inserted under a hash that LDK has seen
    obtain ⟨j, a, ha, haeq, -⟩ := attempt_of_reported hA hrep
    have hne := not_attempt_of_unknownHash (hn m rfl) ha
    exact absurd (haeq.trans (hhash.symm.trans hs.paymentHash)) hne

/-! ## One move -/

theorem uniqueHash_move (he : Effect tid c o r w w' sp) (hm : Move cfg c l o r l')
    (hn : ∀ m, o = .db (.insertOfframp m) → ∀ k x, w.offramp k = some x →
      x.paymentHash ≠ m.paymentHash)
    (hU : UniqueHash w) : UniqueHash w' := by
  intro k k' y y' hy hy' hhash
  have hkey := SwapDb.offrampId_of_getOfframpById hy
  have hkey' := SwapDb.offrampId_of_getOfframpById hy'
  rcases offramp_origin he hm hy with ⟨x, hx, hs⟩ | ⟨-, ⟨m, rfl, hs⟩, -⟩ <;>
    rcases offramp_origin he hm hy' with ⟨x', hx', hs'⟩ | ⟨-, ⟨m', hm', hs'⟩, -⟩
  · exact hU k k' x x' hx hx' (hs.paymentHash ▸ hs'.paymentHash ▸ hhash)
  · exact absurd (hs.paymentHash ▸ hhash.trans hs'.paymentHash) (hn m' hm' k x hx)
  · exact absurd (hs'.paymentHash ▸ hhash.symm.trans hs.paymentHash) (hn m rfl k' x' hx')
  · cases hm'
    rw [← hkey, ← hkey', hs.offrampId, hs'.offrampId]

/-- A handler reads the row that it refunds under the payment hash of its event. -/
theorem refunding_of_move {m : OfframpMapping} (hm : Move cfg (.handleOfframpPaymentFailed h) l o r l')
    (hl : l' = .refunding m ∨ l' = .submitting m) :
    (l = .refunding m ∨ l = .submitting m) ∨
      o = .db (.getOfframpByPaymentHash h) ∧ HEq r (some m) := by
  cases hm with
  | quiet | fail | spawn | cancelFailed => exact Or.inl hl
  | alarm =>
    rcases hl with hl | hl
    · obtain rfl := Stage.refunding.inj hl
      exact Or.inr ⟨rfl, HEq.rfl⟩
    · cases hl
  | refund =>
    rcases hl with hl | hl
    · cases hl
    · obtain rfl := Stage.submitting.inj hl
      exact Or.inl (Or.inl rfl)
  | _ => rcases hl with hl | hl <;> cases hl

theorem refundRow_mono {tid' : ℕ} {d : Call} {l₀ : Stage} (he : Effect tid c o r w w' sp)
    (hm : Move cfg c l o r l') (hR : RefundRow w tid' d l₀) : RefundRow w' tid' d l₀ := by
  intro h m hd hl
  obtain ⟨x, hx, hhash⟩ := hR h m hd hl
  obtain ⟨y, hy, hs⟩ := offramp_mono he hm hx
  exact ⟨y, hy, hs.paymentHash.trans hhash⟩

theorem refundRow_move (he : Effect tid c o r w w' sp) (hm : Move cfg c l o r l')
    (hR : RefundRow w tid c l) : RefundRow w' tid c l' := by
  refine refundRow_mono he hm ?_
  rintro h m rfl hl
  rcases refunding_of_move hm hl with hl | ⟨rfl, hr⟩
  · exact hR h m rfl hl
  · have hans : w.db.getOfframpByPaymentHash h = some m := he.answered.symm.trans (eq_of_heq hr)
    exact ⟨m, SwapDb.getOfframpByPaymentHash_eq_some hans⟩

/-! ## All runs -/

theorem refundRow_start (c : Call) : RefundRow w tid c (start c) := by
  rintro h m rfl (hl | hl) <;> cases hl

theorem uniqueHash_react {e : Env} {ch : Change Call} (hr : Reaction w e w' ch)
    (hU : UniqueHash w) : UniqueHash w' := by
  intro k k' x x' hx hx'
  rw [hr.calm.offramp k] at hx
  rw [hr.calm.offramp k'] at hx'
  exact hU k k' x x' hx hx'

theorem refundRow_react {e : Env} {ch : Change Call} (hr : Reaction w e w' ch)
    (hR : RefundRow w tid c l) : RefundRow w' tid c l := by
  intro h m hc hl
  obtain ⟨x, hx, hhash⟩ := hR h m hc hl
  exact ⟨x, (hr.calm.offramp _).trans hx, hhash⟩

/-- The payments together with unique payment hashes. -/
def hashes (cfg : Config) : Discipline Op Op.Resp World Call Stage :=
  (accounts cfg).extend UniqueHash RefundRow fun _ _ _ _ => True

theorem hashes_sound (cfg : Config) (now : ℤ) :
    (hashes cfg).Sound (relay cfg) (fun s a => novel s a = true) (World.fresh cfg now) := by
  refine (accounts_sound cfg now).extend (fun _ _ _ => trivial) ?_
  exact {
    symm := fun _ => trivial
    init := ⟨fun _ _ _ _ h => (nomatch h), refundRow_start _⟩
    move := fun turn hp hm => by
      have he := effect_of_perform hp
      have hn := novel_of_ok turn.task turn.ok
      exact ⟨uniqueHash_move he hm (fun m ho _ _ hx => not_row_of_unknownHash (hn m ho) hx)
        turn.shared.2, refundRow_move he hm turn.owned.2⟩
    others := fun _ hp hm _ _ _ howned _ =>
      ⟨refundRow_mono (effect_of_perform hp) hm howned.2, trivial⟩
    spawned := fun _ _ _ => ⟨refundRow_start _, trivial, fun _ _ _ _ _ => trivial⟩
    abort := fun turn hp => by
      obtain rfl := abort_of_perform hp
      exact ⟨uniqueHash_react .crash turn.shared.2, refundRow_start _⟩
    react := fun next hr => uniqueHash_react (reaction_of_react hr) next.shared.2
    reactOthers := fun _ hr _ _ _ howned => refundRow_react (reaction_of_react hr) howned.2
    reactSpawn := fun _ _ => ⟨refundRow_start _, fun _ _ _ => trivial⟩
    reactRestart := fun _ _ => refundRow_start _ }

end

end Payout

end LightningRelay
