import LightningRelay.Onramp.Fulfilment

/-!
# Claiming the payment of a swap

The handler of PaymentClaimable calls `claim_funds` without a look at `swap_mappings`.  LDK may hand
a payment over after the swap has expired, and hand it over again after it was claimed.

* `devnet_claimed_after_expiry`: a run in which the relay claims the payment of a swap that it has
  cancelled.
* `claim_honoured`: where payments are handed over before the expiry and before they are reported as
  claimed, and nothing comes between the hand-over and the claim (`punctual`), every swap whose
  payment the relay claims is Pending and not expired.
-/

set_option autoImplicit false

namespace LightningRelay

open Async

/-- The payment that a PaymentClaimed event reports. -/
def LdkEvent.claimed? : LdkEvent → Option String
  | .paymentClaimed h _ _ _ => some h
  | _ => none

/-- The payment that a handler of PaymentClaimable claims. -/
def Call.claims? : Call → Option String
  | .handleLdkEvents (.paymentClaimable h (some _)) => some h
  | _ => none

namespace World

/-- A PaymentClaimed event for the payment was handed over. -/
def claimReported (w : World) (h : String) : Bool := w.delivered.any fun e => e.claimed? = some h

/-- The swap, if there is one, expires before the time `t`. -/
def lateAt (w : World) (h : String) (t : ℤ) : Bool := (w.swap h).any fun r => r.expiresAt < t

end World

namespace Onramp

/-- The payment for which a task is about to call `claim_funds`. -/
def claimFunds? (s : Sys) (tid : ℕ) : Option String :=
  match s.tasks tid with
  | some ⟨_, .op (.ldk (.claimFunds h _)) _⟩ => some h
  | _ => none

/-- LDK hands a payment over only while its swap has not expired and before it reports the payment
as claimed.  Between the hand-over and the call of `claim_funds` the payment is not reported as
claimed, its swap does not expire, and no swap is stored under its hash. -/
def punctual (s : Sys) : Act → Bool
  | .env (.deliver (.paymentClaimable h (some _))) =>
    !s.world.lateAt h s.world.clock && !s.world.claimReported h
  | .env (.deliver (.paymentClaimed h _ _ _)) => !s.running fun c => c.claims? = some h
  | .env (.tick ms) =>
    !s.running fun c => c.claims?.any fun h => s.world.lateAt h (s.world.clock + ms)
  | .task tid _ =>
    match s.tasks tid with
    | some ⟨_, .op (.db (.insert m)) _⟩ => !s.running fun c => c.claims? = some m.paymentHash
    | _ => true
  | _ => true

/-- Swaps are won only after their payments were reported as claimed. -/
def Reported (w : World) : Prop := ∀ h, w.wins h ≠ 0 → w.claimReported h = true

/-- What the tasks around a claim know. -/
structure Due (w : World) (_ : ℕ) (c : Call) (l : Stage) : Prop where
  claim : ∀ h, c.claims? = some h → l = .claiming →
    w.lateAt h w.clock = false ∧ w.claimReported h = false
  event : ∀ e, c = .handleLdkEvents e → e ∈ w.delivered
  fulfil : ∀ h, c = .fulfillSwap h → w.claimReported h = true

/-- The discipline of the swaps, with what is known around a claim. -/
def claims : Discipline Op Op.Resp World Call Stage :=
  onramp.extend Reported Due fun _ _ _ _ => True

section

variable {tid tid' : ℕ} {c c' : Call} {l l' l₀ : Stage} {o : Op} {r : o.Resp} {w w' : World}
  {sp : Option Call} {k : String}

/-! ## One move -/

theorem claimReported_eq (h : w'.delivered = w.delivered) (k : String) :
    w'.claimReported k = w.claimReported k := by
  rw [World.claimReported, World.claimReported, h]

theorem claimReported_deliver (w : World) (event : LdkEvent) (k : String) :
    ({ w with delivered := event :: w.delivered } : World).claimReported k =
      (decide (event.claimed? = some k) || w.claimReported k) := rfl

theorem call_of_wins? (hm : Move c l o r l') (hw : (⟨tid, c, o, r⟩ : Entry).wins? = some k) :
    c = .fulfillSwap k := by
  obtain ⟨tx, rfl, -⟩ := wins?_eq_some hw
  cases hm with
  | quiet hq => cases hq
  | win | lose => rfl

theorem onSwap_none (hins : ∀ m, o = .db (.insert m) → m.paymentHash ≠ k) :
    o.onSwap k none = none := by
  cases o with
  | db call =>
    cases call with
    | insert m =>
      simp only [Op.onSwap, DbCall.onSwap]
      rw [if_neg (Ne.symm (hins m rfl))]
    | _ => simp [Op.onSwap, DbCall.onSwap]
  | _ => rfl

/-- A swap that is stored keeps its expiry, and one that is not stored only gets one when it is
inserted. -/
theorem lateAt_move (he : Effect tid c o r w w' sp) (hm : Move c l o r l')
    (hins : ∀ m, o = .db (.insert m) → m.paymentHash ≠ k) (t : ℤ) : w'.lateAt k t = w.lateAt k t := by
  unfold World.lateAt
  rcases hx : w.swap k with _ | x
  · rw [he.swap k, hx, onSwap_none hins]
  · obtain ⟨y, hy, hexp, -⟩ := swap_mono he hm hx
    rw [hy, Option.any_some, Option.any_some, hexp]

theorem reported_move (he : Effect tid c o r w w' sp) (hm : Move c l o r l') (hR : Reported w)
    (hD : Due w tid c l) : Reported w' := by
  intro k hne
  rw [claimReported_eq he.delivered]
  by_cases hwin : (⟨tid, c, o, r⟩ : Entry).wins? = some k
  · exact hD.fulfil k (call_of_wins? hm hwin)
  · rw [wins_eq he, if_neg hwin] at hne
    exact hR k hne

/-- A move takes from what is due only by storing a swap. -/
theorem due_mono (he : Effect tid c o r w w' sp) (hm : Move c l o r l') (hD : Due w tid' c' l₀)
    (hins : ∀ m, o = .db (.insert m) → c'.claims? = some m.paymentHash → l₀ ≠ .claiming) :
    Due w' tid' c' l₀ where
  claim h hc hl := by
    have hins' : ∀ m, o = .db (.insert m) → m.paymentHash ≠ h := by
      rintro m ho rfl
      exact hins m ho hc hl
    rw [lateAt_move he hm hins', he.clock, claimReported_eq he.delivered]
    exact hD.claim h hc hl
  event e hc := he.delivered ▸ hD.event e hc
  fulfil h hc := (claimReported_eq he.delivered h).trans (hD.fulfil h hc)

theorem due_move (he : Effect tid c o r w w' sp) (hm : Move c l o r l') (hD : Due w tid c l) :
    Due w' tid c l' := by
  have hstay : Due w' tid c l := by
    refine due_mono he hm hD ?_
    rintro m rfl hc
    cases hm with
    | quiet hq => cases hq
    | request => cases hc
  refine ⟨fun h hc hl => hstay.claim h hc ?_, hstay.event, hstay.fulfil⟩
  by_contra hne
  exact not_claiming_of_move hm hne hl

theorem due_start (hev : ∀ e, c ≠ .handleLdkEvents e) (hful : ∀ h, c ≠ .fulfillSwap h) :
    Due w tid c l where
  claim h hc := by
    cases c with
    | handleLdkEvents e => exact absurd rfl (hev e)
    | _ => cases hc
  event e hc := absurd hc (hev e)
  fulfil h hc := absurd hc (hful h)

/-- `fulfill_swap` is started by the handler of PaymentClaimed. -/
theorem due_spawned (he : Effect tid c o r w w' (some c')) (hm : Move c l o r l')
    (hD : Due w tid c l) : Due w' tid' c' (start c') := by
  have hsp := he.spawned
  cases o with
  | spawn c₀ =>
    obtain rfl := Option.some.inj hsp
    cases hm with
    | quiet hq =>
      refine due_start ?_ ?_
      · rintro e rfl
        cases hq
      · rintro h rfl
        cases hq
    | @spawn h =>
      refine ⟨nofun, nofun, ?_⟩
      rintro _ ⟨⟩
      rw [claimReported_eq he.delivered]
      exact List.any_eq_true.2 ⟨_, hD.event _ rfl, by simp [LdkEvent.claimed?]⟩
  | _ => cases hsp

/-! ## The condition -/

variable {s : Sys}

/-- A handler that has not claimed its payment is running. -/
theorem running_of_claiming {t : Task Op Op.Resp Call} {p : Call → Bool} (hlt : tid < s.next)
    (ht : s.tasks tid = some t) (hkeep : claims.Keeps t .claiming) (hp : p t.call = true) :
    s.running p = true := by
  refine s.running_of_task hlt ht hp ?_
  obtain ⟨c, rest⟩ := t
  cases rest with
  | pure => exact absurd rfl hkeep
  | op => rfl

theorem insert_of_ok {a : Answers} {m : SwapMapping} (htask : ∃ f, s.tasks tid = some ⟨c, .op o f⟩)
    (ho : o = .db (.insert m)) (hok : punctual s (.task tid a) = true) :
    s.running (fun c => c.claims? = some m.paymentHash) = false := by
  obtain ⟨f, ht⟩ := htask
  subst ho
  simpa [punctual, ht] using hok

theorem due_react {e : Env} {ch : Change Call} (hr : Reaction s.world e w' ch)
    (hok : punctual s (.env e) = true)
    (hrun : l = .claiming → ∀ p : Call → Bool, p c = true → s.running p = true)
    (hD : Due s.world tid c l) : Due w' tid c l := by
  cases hr with
  | tick ms =>
    refine ⟨fun h hc hl => ⟨?_, (hD.claim h hc hl).2⟩, hD.event, hD.fulfil⟩
    by_contra hlate
    have hlate : s.world.lateAt h (s.world.clock + ms) = true := Bool.not_eq_false _ ▸ hlate
    have := hrun hl (fun c => c.claims?.any fun h => s.world.lateAt h (s.world.clock + ms))
      (by rw [hc]; exact hlate)
    simp only [punctual, this, Bool.not_true, Bool.false_eq_true] at hok
  | @deliver event hd =>
    refine ⟨fun h hc hl => ⟨(hD.claim h hc hl).1, ?_⟩, fun e hc => ?_, fun h hc => ?_⟩
    · rw [claimReported_deliver, (hD.claim h hc hl).2, Bool.or_false]
      by_contra hev
      cases event with
      | paymentClaimed h' =>
        obtain rfl : h' = h := by simpa [LdkEvent.claimed?] using hev
        have := hrun hl (fun c => c.claims? = some h') (by simp [hc])
        simp [punctual, this] at hok
      | _ => simp [LdkEvent.claimed?] at hev
    · exact List.mem_cons_of_mem _ (hD.event e hc)
    · rw [claimReported_deliver, hD.fulfil h hc, Bool.or_true]
  | crash | request | disconnect | settle => exact ⟨hD.claim, hD.event, hD.fulfil⟩

theorem reported_react {e : Env} {ch : Change Call} (hr : Reaction w e w' ch) (hR : Reported w) :
    Reported w' := by
  intro h hne
  rw [World.wins, hr.calm.log] at hne
  have hold := hR h hne
  cases hr with
  | deliver => rw [claimReported_deliver, hold, Bool.or_true]
  | _ => exact hold

/-- What is due when the environment starts a task. -/
theorem due_requested {e : Env} (hr : Reaction s.world e w' (.spawn c))
    (hok : punctual s (.env e) = true) : Due w' tid c (start c) := by
  cases hr with
  | request _ hc =>
    refine due_start ?_ ?_
    · rintro e rfl
      cases hc
    · rintro h rfl
      cases hc
  | @deliver event =>
    refine ⟨fun h hc _ => ?_, ?_, nofun⟩
    · cases event with
      | paymentClaimable h' preimage =>
        cases preimage with
        | none => cases hc
        | some p =>
          obtain rfl := Option.some.inj hc
          simp only [punctual, Bool.and_eq_true, Bool.not_eq_true'] at hok
          refine ⟨hok.1, ?_⟩
          rw [claimReported_deliver, hok.2]
          rfl
      | _ => cases hc
    · rintro _ ⟨⟩
      exact List.mem_cons_self

theorem claims_sound (cfg : Config) (now : ℤ) :
    claims.Sound (relay cfg) (fun s a => punctual s a = true) (World.fresh cfg now) := by
  refine (onramp_sound cfg now).extend (fun _ _ _ => trivial) ?_
  exact {
    symm := fun _ => trivial
    init := ⟨fun _ hne => absurd rfl hne, due_start nofun nofun⟩
    move := fun turn hp hm => by
      have he := effect_of_perform hp
      exact ⟨reported_move he hm turn.shared.2 turn.owned.2, due_move he hm turn.owned.2⟩
    others := fun turn hp hm _ ht hkeep howned _ => by
      refine ⟨due_mono (effect_of_perform hp) hm howned.2 ?_, trivial⟩
      rintro m ho hc rfl
      have hrun := running_of_claiming (p := fun c => c.claims? = some m.paymentHash)
        (turn.reach.fresh.lt_next ht) ht hkeep (by simp [hc])
      rw [insert_of_ok turn.task ho turn.ok] at hrun
      cases hrun
    spawned := fun turn hp hm =>
      ⟨due_spawned (effect_of_perform hp) hm turn.owned.2, trivial, fun _ _ _ _ _ => trivial⟩
    abort := fun turn hp => by
      obtain rfl := abort_of_perform hp
      exact ⟨reported_react .crash turn.shared.2, due_start nofun nofun⟩
    react := fun next hr => reported_react (reaction_of_react hr) next.shared.2
    reactOthers := fun next hr _ ht hkeep howned => by
      refine due_react (reaction_of_react hr) next.ok ?_ howned.2
      rintro rfl p hp
      exact running_of_claiming (next.reach.fresh.lt_next ht) ht hkeep hp
    reactSpawn := fun next hr => ⟨due_requested (reaction_of_react hr) next.ok, fun _ _ _ => trivial⟩
    reactRestart := fun _ _ => due_start nofun nofun }

end

/-! ## What follows -/

section

variable {cfg : Config} {now : ℤ} {s : Sys}

theorem claimFunds?_eq_some {tid : ℕ} {h : String} (hc : claimFunds? s tid = some h) :
    ∃ c p f, s.tasks tid = some ⟨c, .op (.ldk (.claimFunds h p)) f⟩ := by
  unfold claimFunds? at hc
  split at hc
  next ht =>
    obtain rfl := Option.some.inj hc
    exact ⟨_, _, _, ht⟩
  next => cases hc

/-- In every punctual run: where the relay calls `claim_funds` for a payment whose hash is in
`swap_mappings`, the row is Pending and the time is not past its expiry. -/
theorem claim_honoured (hs : ReachableBy cfg now (fun s a => punctual s a = true) s) {tid : ℕ}
    {h : String} (hclaim : claimFunds? s tid = some h) {r : SwapMapping}
    (hr : s.world.swap h = some r) : r.status = .pending ∧ s.world.clock ≤ r.expiresAt := by
  obtain ⟨c, p, f, ht⟩ := claimFunds?_eq_some hclaim
  obtain ⟨L, hL⟩ := (claims_sound cfg now).holds hs
  obtain ⟨l', hm, -⟩ := (hL.keeps ht).move ()
  have hdue := (hL.owned ht).2
  generalize L tid = l at hm hdue
  cases hm with
  | quiet hq => cases hq
  | claim =>
    obtain ⟨hlate, hreported⟩ := hdue.claim h rfl rfl
    have hle : s.world.clock ≤ r.expiresAt := by
      simpa [World.lateAt, hr] using hlate
    refine ⟨?_, hle⟩
    -- a row leaves Pending when it is won or after its expiry
    by_contra hst
    rcases (hL.shared.1 h).left r hr hst with hwins | ⟨x, hx, hlt⟩
    · rw [hL.shared.2 h hwins] at hreported
      cases hreported
    · rw [hr] at hx
      obtain rfl := Option.some.inj hx
      omega

set_option maxRecDepth 100000 in
theorem claim_honoured_devnet : ∃ (s : Sys) (r : SwapMapping),
    ReachableBy Devnet.config Devnet.startTime (fun s a => punctual s a = true) s ∧
    claimFunds? s 4 = some Devnet.invoice1.paymentHash ∧
    s.world.swap Devnet.invoice1.paymentHash = some r ∧
    r.status = .pending ∧ s.world.clock ≤ r.expiresAt := by
  obtain ⟨s, hs, hp⟩ := Devnet.reachableBy_of_after punctual
    (Devnet.boot ++ Devnet.swapRequest 3 1 ++ [Devnet.claimable]) (fun s =>
      decide (claimFunds? s 4 = some Devnet.invoice1.paymentHash) &&
        (s.world.swap Devnet.invoice1.paymentHash).isSome) (by decide +kernel)
  obtain ⟨hclaim, hrow⟩ := Bool.and_eq_true_iff.1 hp
  obtain ⟨r, hr⟩ := Option.isSome_iff_exists.1 hrow
  exact ⟨s, r, hs, of_decide_eq_true hclaim, hr, claim_honoured hs (of_decide_eq_true hclaim) hr⟩

set_option maxRecDepth 100000 in
/-- LDK hands the payment of the first swap over after the monitor has cancelled the swap, and the
relay claims it. -/
theorem devnet_claimed_after_expiry : ∃ (s : Sys) (r : SwapMapping),
    Reachable Devnet.config Devnet.startTime s ∧
    claimFunds? s 4 = some Devnet.invoice1.paymentHash ∧
    s.world.swap Devnet.invoice1.paymentHash = some r ∧
    r.status = .expired ∧ r.expiresAt < s.world.clock := by
  obtain ⟨s, hs, hp⟩ := Devnet.reachable_of_after (Devnet.withdrawnRun ++ [Devnet.claimable]) (fun s =>
    decide (claimFunds? s 4 = some Devnet.invoice1.paymentHash) &&
      (s.world.swap Devnet.invoice1.paymentHash).any fun r =>
        r.status = .expired && r.expiresAt < s.world.clock) (by decide +kernel)
  obtain ⟨hclaim, hrow⟩ := Bool.and_eq_true_iff.1 hp
  obtain ⟨r, hr, hlate⟩ := (Option.any_eq_true _ _).1 hrow
  obtain ⟨hst, hlt⟩ := Bool.and_eq_true_iff.1 hlate
  exact ⟨s, r, hs, of_decide_eq_true hclaim, hr, of_decide_eq_true hst, of_decide_eq_true hlt⟩

end

end Onramp

end LightningRelay
