import LightningRelay.Onramp.Fulfilment
import LightningRelay.Payout.Hashes

/-!
# Events that a crash must not lose

The handlers of PaymentClaimed and PaymentSent return as soon as they have spawned `fulfill_swap` or
`complete_offramp`, and LDK does not deliver a handled event again.  The row leaves Pending, or
PayingLightning, only when the spawned task makes its guarded transition, and the recovery looks for
rows in Fulfilling and DepositingToPool.

* `devnet_event_lost`: a crash between the two leaves the row as it was.
* `events_survive_crash`: where no crash comes between the two and nobody else moves the row first
  (`durable`), every crash finds the rows of the handled events in a status that the recovery goes
  on from, or in the final status that the task or the recovery wrote.
-/

set_option autoImplicit false

namespace LightningRelay

open Async

namespace Entry

/-- The swap for which the handler of PaymentClaimed spawned `fulfill_swap`, its last operation. -/
def claimHandled? : Entry → Option String
  | ⟨_, .handleLdkEvents (.paymentClaimed _ _ _ _), .spawn (.fulfillSwap h), _⟩ => some h
  | _ => none

/-- The swap whose guarded transition to Fulfilling was tried. -/
def claimTried? : Entry → Option String
  | ⟨_, _, .db (.transitionStatus h .pending .fulfilling _), _⟩ => some h
  | _ => none

/-- The status that `fulfill_swap` or the recovery wrote to a swap. -/
def settled? : Entry → Option (String × SwapStatus)
  | ⟨_, .fulfillSwap _, .db (.updateStatus h st _), _⟩
  | ⟨_, .startLdk, .db (.updateStatus h st _), _⟩ => some (h, st)
  | _ => none

/-- The payment hash for which the handler of PaymentSent spawned `complete_offramp`. -/
def sentHandled? : Entry → Option String
  | ⟨_, .handleLdkEvents (.paymentSent _ _ _), .spawn (.completeOfframp h _), _⟩ => some h
  | _ => none

/-- The offramp whose guarded transition `complete_offramp` tried. -/
def sentTried? : Entry → Option ℤ
  | ⟨_, .completeOfframp _ _,
      .db (.transitionOfframpStatus id .payingLightning .depositingToPool), _⟩ => some id
  | _ => none

/-- The status that `complete_offramp` or the recovery wrote to an offramp. -/
def concluded? : Entry → Option (ℤ × OfframpStatus)
  | ⟨_, .completeOfframp _ _, .db (.updateOfframpStatus id st _ _ _), _⟩
  | ⟨_, .startLdk, .db (.updateOfframpStatus id st _ _ _), _⟩ => some (id, st)
  | _ => none

end Entry

/-- The payment of a PaymentSent event without a payment id, which its handler drops. -/
def LdkEvent.anonymous? : LdkEvent → Option String
  | .paymentSent none h _ => some h
  | _ => none

namespace World

/-- A PaymentClaimed event of the swap was handled. -/
def claimHandled (w : World) (h : String) : Bool := w.log.any fun e => e.claimHandled? = some h

/-- A `fulfill_swap` has come to its guarded transition of the swap. -/
def claimTried (w : World) (h : String) : Bool := w.log.any fun e => e.claimTried? = some h

/-- A PaymentSent event of the payment was handled. -/
def sentHandled (w : World) (h : String) : Bool :=
  (w.log.any fun e => e.sentHandled? = some h) || w.delivered.any fun e => e.anonymous? = some h

/-- A `complete_offramp` has come to its guarded transition of the offramp. -/
def sentTried (w : World) (id : ℤ) : Bool := w.log.any fun e => e.sentTried? = some id

/-- The tasks that were spawned for handled events have come to their guarded transitions. -/
def takenOver (w : World) : Bool :=
  (w.log.all fun e => e.claimHandled?.all w.claimTried) &&
    w.log.all fun e => e.sentHandled?.all fun h =>
      (w.db.getOfframpByPaymentHash h).all fun r => w.sentTried r.offrampId

end World

/-! ## Swaps -/

namespace Onramp

/-- A `fulfill_swap` makes its guarded transition while the swap is Pending or after another one has won
it, and the monitor expires no swap that was won. -/
def keepsWins (s : Sys) : Act → Bool
  | .task tid _ =>
    match s.tasks tid with
    | some ⟨_, .op (.db (.transitionStatus h _ _ _)) _⟩ =>
      s.world.wins h ≠ 0 || (s.world.swap h).any fun r => r.status = .pending
    | some ⟨_, .op (.db (.updateStatus h .expired _)) _⟩ => s.world.wins h = 0
    | _ => true
  | .env _ => true

/-- What the condition says of an operation. -/
structure KeepsWins (o : Op) (w : World) : Prop where
  win : ∀ h e n tx, o = .db (.transitionStatus h e n tx) → w.wins h ≠ 0 ∨
    ∃ r, w.swap h = some r ∧ r.status = .pending
  expire : ∀ h tx, o = .db (.updateStatus h .expired tx) → w.wins h = 0

/-- The row is in Fulfilling, or in the final status that `fulfill_swap` or the recovery wrote. -/
def Carried (w : World) (h : String) (r : SwapMapping) : Prop :=
  r.status = .fulfilling ∨ (r.status = .completed ∨ r.status = .failed) ∧
    ∃ e ∈ w.log, e.settled? = some (h, r.status)

/-- A swap that was tried is won, and a swap that is won is carried on. -/
structure Held (w : World) (h : String) : Prop where
  tried : w.claimTried h = true → w.wins h ≠ 0
  won : w.wins h ≠ 0 → ∃ r, w.swap h = some r ∧ Carried w h r

section

variable {tid : ℕ} {c : Call} {l l' : Stage} {o : Op} {r : o.Resp} {w w' : World} {sp : Option Call}
  {h : String}

theorem keepsWins_of_ok {s : Sys} {a : Answers} (htask : ∃ k, s.tasks tid = some ⟨c, .op o k⟩)
    (hok : keepsWins s (.task tid a) = true) : KeepsWins o s.world := by
  obtain ⟨k, ht⟩ := htask
  constructor
  · rintro h e n tx rfl
    simpa [keepsWins, ht, Option.any_eq_true] using hok
  · rintro h tx rfl
    simpa [keepsWins, ht] using hok

theorem claimTried?_eq_some (ht : (⟨tid, c, o, r⟩ : Entry).claimTried? = some h) :
    ∃ tx, o = .db (.transitionStatus h .pending .fulfilling tx) := by
  unfold Entry.claimTried? at ht
  split at ht
  next he =>
    obtain ⟨-, -, rfl, -⟩ := Entry.mk.inj he
    obtain rfl := Option.some.inj ht
    exact ⟨_, rfl⟩
  next => cases ht

/-- The guarded transition of a Pending swap wins it. -/
theorem wins?_of_pending {tx : Option String} {b : Bool} {x : SwapMapping}
    (he : Effect tid c (.db (.transitionStatus h .pending .fulfilling tx)) b w w' sp)
    (hx : w.swap h = some x) (hst : x.status = .pending) :
    (⟨tid, c, .db (.transitionStatus h .pending .fulfilling tx), b⟩ : Entry).wins? = some h := by
  have hb : b = true := he.answered.trans (SwapDb.transitionStatus_fst_iff.2 ⟨x, hx, hst⟩)
  rw [hb]
  rfl

theorem tried_move (he : Effect tid c o r w w' sp) (hkeep : KeepsWins o w) (hH : Held w h)
    (ht : w'.claimTried h = true) : w'.wins h ≠ 0 := by
  have hmono : w.wins h ≠ 0 → w'.wins h ≠ 0 := by
    rw [wins_eq he]
    omega
  rw [World.claimTried, he.log, List.any_cons, Bool.or_eq_true, decide_eq_true_eq] at ht
  rcases ht with ht | ht
  · obtain ⟨tx, rfl⟩ := claimTried?_eq_some ht
    rcases hkeep.win h _ _ _ rfl with hwin | ⟨x, hx, hst⟩
    · exact hmono hwin
    · rw [wins_eq he, if_pos (wins?_of_pending he hx hst)]
      omega
  · exact hmono (hH.tried ht)

theorem Carried.mono {x : SwapMapping} (he : Effect tid c o r w w' sp) (hc : Carried w h x) :
    Carried w' h x := by
  refine hc.imp_right fun ⟨hst, e, hmem, hset⟩ => ⟨hst, e, ?_, hset⟩
  rw [he.log]
  exact List.mem_cons_of_mem _ hmem

/-- A swap that is won stays with `fulfill_swap` and the recovery. -/
theorem carried_move (he : Effect tid c o r w w' sp) (hm : Move c l o r l') (hkeep : KeepsWins o w)
    (hwin : w.wins h ≠ 0) {x : SwapMapping} (hx : w.swap h = some x) (hc : Carried w h x) :
    ∃ y, w'.swap h = some y ∧ Carried w' h y := by
  have hhead : (⟨tid, c, o, r⟩ : Entry) ∈ w'.log := he.log ▸ List.mem_cons_self
  obtain ⟨y, hy, rfl | ⟨st, tx, rfl, rfl⟩ | ⟨n, tx, ho, rfl⟩⟩ := he.swap_cases hx
  · exact ⟨y, hy, hc.mono he⟩
  · refine ⟨_, hy, ?_⟩
    cases hm with
    | quiet hq => cases hq
    | settle _ hst => exact Or.inr ⟨hst, _, hhead, rfl⟩
    | expire => exact absurd (hkeep.expire _ _ rfl) hwin
    | finish => exact Or.inr ⟨Or.inl rfl, _, hhead, rfl⟩
  · refine ⟨_, hy, ?_⟩
    subst ho
    generalize x.status = st at hm
    cases hm with
    | quiet hq => cases hq
    | win | lose => exact Or.inl rfl

theorem held_move (he : Effect tid c o r w w' sp) (hm : Move c l o r l') (hkeep : KeepsWins o w)
    (hH : Held w h) : Held w' h where
  tried := tried_move he hkeep hH
  won hne := by
    by_cases hwin : (⟨tid, c, o, r⟩ : Entry).wins? = some h
    · obtain ⟨x, hx, hst⟩ := pending_of_wins? he hwin
      obtain ⟨tx, rfl, -⟩ := wins?_eq_some hwin
      refine ⟨{ x with status := .fulfilling, cardanoTxHash := tx }, ?_, Or.inl rfl⟩
      rw [he.swap h, hx]
      simp [Op.onSwap, DbCall.onSwap, SwapMapping.moved, hst]
    · rw [wins_eq he, if_neg hwin] at hne
      obtain ⟨x, hx, hc⟩ := hH.won hne
      exact carried_move he hm hkeep hne hx hc

theorem Held.calm (hc : Calm w w') (hH : Held w h) : Held w' h := by
  have hwins : w'.wins h = w.wins h := by rw [World.wins, World.wins, hc.log]
  constructor
  · rw [World.claimTried, hc.log, hwins]
    exact hH.tried
  · simp only [hwins, hc.swap h, Carried, hc.log]
    exact hH.won

/-- The swaps with what carries them on. -/
def carriage : Discipline Op Op.Resp World Call Stage :=
  onramp.extend (fun w => ∀ h, Held w h) (fun _ _ _ _ => True) fun _ _ _ _ => True

theorem carriage_sound (cfg : Config) (now : ℤ) :
    carriage.Sound (relay cfg) (fun s a => keepsWins s a = true) (World.fresh cfg now) := by
  refine (onramp_sound cfg now).extend (fun _ _ _ => trivial) ?_
  exact {
    symm := fun _ => trivial
    init := ⟨fun _ => ⟨nofun, fun h => absurd rfl h⟩, trivial⟩
    move := fun turn hp hm => by
      have hkeep := keepsWins_of_ok turn.task turn.ok
      exact ⟨fun h => held_move (effect_of_perform hp) hm hkeep (turn.shared.2 h), trivial⟩
    others := fun _ _ _ _ _ _ _ _ => ⟨trivial, trivial⟩
    spawned := fun _ _ _ => ⟨trivial, trivial, fun _ _ _ _ _ => trivial⟩
    abort := fun turn hp => by
      obtain rfl := abort_of_perform hp
      exact ⟨fun h => (turn.shared.2 h).calm (calm_restarted _), trivial⟩
    react := fun next hr h => (next.shared.2 h).calm (reaction_of_react hr).calm
    reactOthers := fun _ _ _ _ _ _ => trivial
    reactSpawn := fun _ _ => ⟨trivial, fun _ _ _ => trivial⟩
    reactRestart := fun _ _ => trivial }

end

end Onramp

/-! ## Offramps -/

namespace Payout

/-- A `complete_offramp` makes its guarded transition while the offramp is in PayingLightning or
after another one has taken it, no other task fails an offramp that was taken, and LDK reports the sent
payment of an offramp with its id. -/
def uncontested (s : Sys) : Act → Bool
  | .task tid _ =>
    match s.tasks tid with
    | some ⟨.completeOfframp _ _, .op (.db (.transitionOfframpStatus id _ _)) _⟩ =>
      s.world.takes id ≠ 0 || (s.world.offramp id).any fun r => r.status = .payingLightning
    | some ⟨.completeOfframp _ _, _⟩ => true
    | some ⟨_, .op (.db (.updateOfframpStatus id .failed _ _ _)) _⟩ => s.world.takes id = 0
    | _ => true
  | .env (.deliver event) => event.anonymous?.all fun h => (s.world.db.getOfframpByPaymentHash h).isNone
  | .env _ => true

/-- What the condition says of an operation. -/
structure Uncontested (c : Call) (o : Op) (w : World) : Prop where
  take : ∀ h p id e n, c = .completeOfframp h p → o = .db (.transitionOfframpStatus id e n) →
    w.takes id ≠ 0 ∨ ∃ r, w.offramp id = some r ∧ r.status = .payingLightning
  fail : ∀ id p d e, o = .db (.updateOfframpStatus id .failed p d e) →
    (∃ h q, c = .completeOfframp h q) ∨ w.takes id = 0

/-- The row is in DepositingToPool, or in the final status that `complete_offramp` or the recovery
wrote. -/
def Carried (w : World) (id : ℤ) (r : OfframpMapping) : Prop :=
  r.status = .depositingToPool ∨ (r.status = .completed ∨ r.status = .failed) ∧
    ∃ e ∈ w.log, e.concluded? = some (id, r.status)

/-- An offramp that was tried is taken, and an offramp that is taken is carried on. -/
structure Held (w : World) (id : ℤ) : Prop where
  tried : w.sentTried id = true → w.takes id ≠ 0
  taken : w.takes id ≠ 0 → ∃ r, w.offramp id = some r ∧ Carried w id r

section

variable {cfg : Config} {tid : ℕ} {c : Call} {l l' : Stage} {o : Op} {r : o.Resp} {w w' : World}
  {sp : Option Call} {id : ℤ}

theorem uncontested_of_ok {s : Sys} {a : Answers} (htask : ∃ k, s.tasks tid = some ⟨c, .op o k⟩)
    (hok : uncontested s (.task tid a) = true) : Uncontested c o s.world := by
  obtain ⟨k, ht⟩ := htask
  constructor
  · rintro h p id e n rfl rfl
    simpa [uncontested, ht, Option.any_eq_true] using hok
  · rintro id p d e rfl
    cases c with
    | completeOfframp h q => exact Or.inl ⟨h, q, rfl⟩
    | _ => exact Or.inr (by simpa [uncontested, ht] using hok)

theorem sentTried?_eq_some (ht : (⟨tid, c, o, r⟩ : Entry).sentTried? = some id) :
    (∃ h p, c = .completeOfframp h p) ∧
      o = .db (.transitionOfframpStatus id .payingLightning .depositingToPool) := by
  unfold Entry.sentTried? at ht
  split at ht
  next he =>
    obtain ⟨-, rfl, rfl, -⟩ := Entry.mk.inj he
    obtain rfl := Option.some.inj ht
    exact ⟨⟨_, _, rfl⟩, rfl⟩
  next => cases ht

/-- The guarded transition of an offramp in PayingLightning takes it. -/
theorem taken?_of_payingLightning {h p : String} {b : Bool} {x : OfframpMapping}
    (he : Effect tid (.completeOfframp h p)
      (.db (.transitionOfframpStatus id .payingLightning .depositingToPool)) b w w' sp)
    (hx : w.offramp id = some x) (hst : x.status = .payingLightning) :
    (⟨tid, .completeOfframp h p,
      .db (.transitionOfframpStatus id .payingLightning .depositingToPool), b⟩ : Entry).taken? =
      some id := by
  have hb : b = true := he.answered.trans (SwapDb.transitionOfframpStatus_fst_iff.2 ⟨x, hx, hst⟩)
  rw [hb]
  rfl

theorem tried_move (he : Effect tid c o r w w' sp) (hun : Uncontested c o w) (hH : Held w id)
    (ht : w'.sentTried id = true) : w'.takes id ≠ 0 := by
  have hmono : w.takes id ≠ 0 → w'.takes id ≠ 0 := by
    rw [takes_eq he]
    omega
  rw [World.sentTried, he.log, List.any_cons, Bool.or_eq_true, decide_eq_true_eq] at ht
  rcases ht with ht | ht
  · obtain ⟨⟨h, p, rfl⟩, rfl⟩ := sentTried?_eq_some ht
    rcases hun.take h p id _ _ rfl rfl with htaken | ⟨x, hx, hst⟩
    · exact hmono htaken
    · rw [takes_eq he, Entry.takes, taken?_of_payingLightning he hx hst]
      simp
  · exact hmono (hH.tried ht)

theorem Carried.mono {x : OfframpMapping} (he : Effect tid c o r w w' sp) (hc : Carried w id x) :
    Carried w' id x :=
  hc.imp_right fun ⟨hst, e, hmem, hcon⟩ => ⟨hst, e, mem_log he hmem, hcon⟩

/-- An offramp that was taken stays with `complete_offramp` and the recovery: the other writes need
a status before PayingLightning, which it has left. -/
theorem carried_move (he : Effect tid c o r w w' sp) (hm : Move cfg c l o r l')
    (hun : Uncontested c o w) (hK : Knows w tid c l) (hL : Ledger w id) (htaken : w.takes id ≠ 0)
    {x : OfframpMapping} (hx : w.offramp id = some x) (hc : Carried w id x) :
    ∃ y, w'.offramp id = some y ∧ Carried w' id y := by
  have hhead := head_mem_log he
  obtain ⟨x', hx', hhash, hst⟩ := hL.taken htaken
  rw [hx] at hx'
  obtain rfl := Option.some.inj hx'
  have hearly : x.status ≠ .awaitingDeposit ∧ x.status ≠ .pendingVerification :=
    ⟨fun h => hhash (hL.early x hx (Or.inl h)), fun h => hhash (hL.early x hx (Or.inr h))⟩
  obtain ⟨y, hy, rfl | ⟨st, p, d, e, rfl, rfl⟩ | ⟨n, ho, rfl⟩ | ⟨tx, n, ho, rfl⟩⟩ :=
    he.offramp_cases hx
  · exact ⟨y, hy, hc.mono he⟩
  · refine ⟨_, hy, ?_⟩
    cases hm with
    | quiet hq => cases hq
    | fail =>
      rcases hun.fail _ _ _ _ rfl with ⟨h, q, rfl⟩ | hzero
      · exact Or.inr ⟨Or.inr rfl, _, hhead, rfl⟩
      · exact absurd hzero htaken
    | revert =>
      obtain ⟨-, -, z, hz, hempty, -⟩ := hK.deposit _ _ _ rfl
      rw [hx] at hz
      exact absurd (Option.some.inj hz ▸ hempty) hhash
    | advance hst =>
      rcases hst with rfl | rfl
      · exact Or.inl rfl
      · exact Or.inr ⟨Or.inl rfl, _, hhead, rfl⟩
    | finish => exact Or.inr ⟨Or.inl rfl, _, hhead, rfl⟩
  · subst ho
    generalize x.status = st at hm hst hearly
    cases hm with
    | quiet hq => cases hq
    | claim | missed => exact absurd rfl hearly.1
    | reset => exact absurd rfl hearly.2
    | take | notTaken | failPaying => exact absurd rfl hst
  · subst ho
    generalize x.status = st at hm hearly
    cases hm with
    | quiet hq => cases hq
    | record | unpayable | overtaken => exact absurd rfl hearly.2

theorem held_move (he : Effect tid c o r w w' sp) (hm : Move cfg c l o r l')
    (hun : Uncontested c o w) (hK : Knows w tid c l) (hL : Ledger w id) (hH : Held w id) :
    Held w' id where
  tried := tried_move he hun hH
  taken hne := by
    by_cases ht : (⟨tid, c, o, r⟩ : Entry).taken? = some id
    · obtain ⟨x, hx, hst, hy⟩ := payingLightning_of_taken he hm ht
      exact ⟨_, hy, Or.inl rfl⟩
    · rw [takes_eq he, Entry.takes, if_neg (by simpa using ht), Nat.add_zero] at hne
      obtain ⟨x, hx, hc⟩ := hH.taken hne
      exact carried_move he hm hun hK hL hne hx hc

theorem Held.calm (hc : Calm w w') (hH : Held w id) : Held w' id := by
  have htakes : w'.takes id = w.takes id := by rw [World.takes, World.takes, hc.log]
  constructor
  · rw [World.sentTried, hc.log, htakes]
    exact hH.tried
  · simp only [htakes, hc.offramp id, Carried, hc.log]
    exact hH.taken

/-- PaymentSent events without a payment id are of payments that no offramp has. -/
def Named (w : World) : Prop :=
  ∀ event ∈ w.delivered, ∀ h, event.anonymous? = some h →
    h ∈ w.attempts.map (·.paymentHash) ∧ ∀ k r, w.offramp k = some r → r.paymentHash ≠ h

theorem named_move (he : Effect tid c o r w w' sp) (hm : Move cfg c l o r l') (hn : Novel o w)
    (hN : Named w) : Named w' := by
  intro event hmem h hevent
  rw [he.delivered] at hmem
  obtain ⟨hatt, hrows⟩ := hN event hmem h hevent
  obtain ⟨a, ha, rfl⟩ := List.mem_map.1 hatt
  refine ⟨List.mem_map.2 ⟨a, he.mem_attempts ha, rfl⟩, fun k y hy => ?_⟩
  rcases offramp_origin he hm hy with ⟨x, hx, hs⟩ | ⟨-, ⟨m, rfl, hs⟩, -⟩
  · exact hs.paymentHash ▸ hrows k x hx
  · -- a row is not inserted under a hash that LDK has a payment for
    obtain ⟨j, hj⟩ := List.getElem?_of_mem ha
    exact hs.paymentHash ▸ (not_attempt_of_unknownHash (hn m rfl) hj).symm

theorem named_react {s : Sys} {e : Env} {ch : Change Call} (hr : Reaction s.world e w' ch)
    (hok : uncontested s (.env e) = true) (hN : Named s.world) : Named w' := by
  have hatt : w'.attempts.map (·.paymentHash) = s.world.attempts.map (·.paymentHash) :=
    hr.map_attempts fun _ _ => rfl
  have hold : ∀ event ∈ s.world.delivered, ∀ h, event.anonymous? = some h →
      h ∈ w'.attempts.map (·.paymentHash) ∧ ∀ k r, w'.offramp k = some r → r.paymentHash ≠ h := by
    intro event hmem h ha
    rw [hatt]
    simp only [hr.calm.offramp]
    exact hN event hmem h ha
  cases hr with
  | @deliver event hcan =>
    refine List.forall_mem_cons.2 ⟨fun h hevent => ?_, hold⟩
    simp only [uncontested, hevent, Option.all_some, Option.isNone_iff_eq_none] at hok
    refine ⟨?_, SwapDb.getOfframpByPaymentHash_eq_none_iff.1 hok⟩
    rcases event with _ | _ | ⟨_ | id, h', preimage⟩ | _
    · cases hevent
    · cases hevent
    · obtain rfl := Option.some.inj hevent
      simp only [World.canDeliver, Option.all_none, Bool.true_and, List.any_eq_true, Bool.and_eq_true,
        decide_eq_true_eq] at hcan
      obtain ⟨a, ha, hhash, -⟩ := hcan
      exact List.mem_map.2 ⟨a, ha, hhash⟩
    · cases hevent
    · cases hevent
  | _ => exact hold

/-- The offramps with what carries them on. -/
def carriage (cfg : Config) : Discipline Op Op.Resp World Call Stage :=
  (hashes cfg).extend (fun w => (∀ id, Held w id) ∧ Named w) (fun _ _ _ _ => True)
    fun _ _ _ _ => True

theorem carriage_sound (cfg : Config) (now : ℤ) :
    (carriage cfg).Sound (relay cfg) (fun s a => uncontested s a = true ∧ novel s a = true)
      (World.fresh cfg now) := by
  refine (hashes_sound cfg now).extend (fun _ _ h => h.2) ?_
  exact {
    symm := fun _ => trivial
    init := ⟨⟨fun _ => ⟨nofun, fun h => absurd rfl h⟩, fun _ h => absurd h List.not_mem_nil⟩, trivial⟩
    move := fun turn hp hm => by
      have he := effect_of_perform hp
      have hun := uncontested_of_ok turn.task turn.ok.1
      obtain ⟨⟨⟨hledger, -⟩, -⟩, hheld, hnamed⟩ := turn.shared
      refine ⟨⟨fun id => ?_, ?_⟩, trivial⟩
      · exact held_move he hm hun turn.owned.1.1.1 (hledger id) (hheld id)
      · exact named_move he hm (novel_of_ok turn.task turn.ok.2) hnamed
    others := fun _ _ _ _ _ _ _ _ => ⟨trivial, trivial⟩
    spawned := fun _ _ _ => ⟨trivial, trivial, fun _ _ _ _ _ => trivial⟩
    abort := fun turn hp => by
      obtain rfl := abort_of_perform hp
      exact ⟨⟨fun id => (turn.shared.2.1 id).calm (calm_restarted _), turn.shared.2.2⟩, trivial⟩
    react := fun next hr =>
      ⟨fun id => (next.shared.2.1 id).calm (reaction_of_react hr).calm,
        named_react (reaction_of_react hr) next.ok.1 next.shared.2.2⟩
    reactOthers := fun _ _ _ _ _ _ => trivial
    reactSpawn := fun _ _ => ⟨trivial, fun _ _ _ => trivial⟩
    reactRestart := fun _ _ => trivial }

end

end Payout

/-! ## Crashes -/

/-- The process goes down only after the tasks of the handled events have come to their guarded
transitions, these find their rows as the events left them, no other task closes a row that they have
won, and payment hashes are not used twice. -/
def durable (s : Sys) (a : Act) : Bool :=
  (!goesDown s a || s.world.takenOver) && Onramp.keepsWins s a && Payout.uncontested s a &&
    Payout.novel s a

section

variable {cfg : Config} {now : ℤ} {s s' : Sys} {a : Act}

theorem carried_of_claimHandled {h : String} {r : SwapMapping} (hH : Onramp.Held s.world h)
    (htaken : s.world.takenOver = true) (hr : s.world.swap h = some r)
    (hdone : s.world.claimHandled h = true) : Onramp.Carried s.world h r := by
  obtain ⟨e, hmem, he⟩ := List.any_eq_true.1 hdone
  rw [World.takenOver, Bool.and_eq_true, List.all_eq_true] at htaken
  have htried : s.world.claimTried h = true := by
    simpa [of_decide_eq_true he] using htaken.1 e hmem
  obtain ⟨x, hx, hc⟩ := hH.won (hH.tried htried)
  rw [hr] at hx
  exact Option.some.inj hx ▸ hc

theorem carried_of_sentHandled {id : ℤ} {r : OfframpMapping} (hH : Payout.Held s.world id)
    (hN : Payout.Named s.world) (hU : Payout.UniqueHash s.world)
    (htaken : s.world.takenOver = true) (hr : s.world.offramp id = some r)
    (hdone : s.world.sentHandled r.paymentHash = true) : Payout.Carried s.world id r := by
  rw [World.sentHandled, Bool.or_eq_true, List.any_eq_true, List.any_eq_true] at hdone
  rcases hdone with ⟨e, hmem, he⟩ | ⟨event, hmem, he⟩
  · rw [World.takenOver, Bool.and_eq_true, List.all_eq_true, List.all_eq_true] at htaken
    have hrow := Payout.getOfframpByPaymentHash_of_unique hU hr
    have htried : s.world.sentTried id = true := by
      have := htaken.2 e hmem
      rw [of_decide_eq_true he, Option.all_some, hrow, Option.all_some] at this
      exact SwapDb.offrampId_of_getOfframpById hr ▸ this
    obtain ⟨x, hx, hc⟩ := hH.taken (hH.tried htried)
    rw [hr] at hx
    exact Option.some.inj hx ▸ hc
  · exact absurd rfl ((hN event hmem _ (of_decide_eq_true he)).2 id r hr)

/-- In every durable run, whenever the process goes down: a swap whose PaymentClaimed event was
handled is in Fulfilling or in the final status that `fulfill_swap` or the recovery wrote, and an
offramp whose PaymentSent event was handled is in DepositingToPool or in the final status that
`complete_offramp` or the recovery wrote. -/
theorem events_survive_crash (hs : ReachableBy cfg now (fun s a => durable s a = true) s)
    (hok : durable s a = true) (hdown : goesDown s a = true)
    (hstep : (relay cfg).step s a = some s') :
    (∀ h r, s'.world.swap h = some r → s'.world.claimHandled h = true →
      r.status = .fulfilling ∨ (r.status = .completed ∨ r.status = .failed) ∧
        ∃ e ∈ s'.world.log, e.settled? = some (h, r.status)) ∧
    ∀ id r, s'.world.offramp id = some r → s'.world.sentHandled r.paymentHash = true →
      r.status = .depositingToPool ∨ (r.status = .completed ∨ r.status = .failed) ∧
        ∃ e ∈ s'.world.log, e.concluded? = some (id, r.status) := by
  have hparts : ∀ s a, durable s a = true →
      (goesDown s a = true → s.world.takenOver = true) ∧ Onramp.keepsWins s a = true ∧
        Payout.uncontested s a = true ∧ Payout.novel s a = true := by
    intro s a h
    simp only [durable, Bool.and_eq_true, Bool.or_eq_true, Bool.not_eq_true'] at h
    obtain ⟨⟨⟨h₁, h₂⟩, h₃⟩, h₄⟩ := h
    exact ⟨fun hd => h₁.resolve_left (by simp [hd]), h₂, h₃, h₄⟩
  have htaken := (hparts s a hok).1 hdown
  obtain ⟨L₁, hL₁⟩ := (Onramp.carriage_sound cfg now).holds
    (hs.mono fun s a h => (hparts s a h).2.1)
  obtain ⟨L₂, hL₂⟩ := (Payout.carriage_sound cfg now).holds
    (hs.mono fun s a h => (hparts s a h).2.2)
  rw [world_of_goesDown hdown hstep]
  constructor
  · intro h r hr hdone
    exact carried_of_claimHandled (hL₁.shared.2 h) htaken hr hdone
  · intro id r hr hdone
    obtain ⟨⟨-, hunique⟩, hheld, hnamed⟩ := hL₂.shared
    exact carried_of_sentHandled (hheld id) hnamed hunique htaken hr hdone

end

namespace Devnet

/-- The payment of the first offramp succeeds and its PaymentSent event is handled. -/
def sentRun : List Act :=
  paidRun ++
    .env (.settle 0 (.sent "preimage")) ::
    .env (.deliver (.paymentSent (some invoice1.paymentHash) invoice1.paymentHash "preimage")) ::
    steps 5 4 ok

/-- A run that evaluates, followed by a crash. -/
theorem crash_of_after (ok : Sys → Act → Bool) (run : List Act) (p : Sys → Bool)
    (h : (after ok run).any p = true) :
    ∃ s s', ReachableBy config startTime (fun s a => ok s a = true) s ∧
      (relay config).step s (.env .crash) = some s' ∧ s'.world = s.world.restarted ∧
      p s = true := by
  obtain ⟨s, hs, hp⟩ := reachableBy_of_after ok run p h
  exact ⟨s, _, hs, rfl, rfl, hp⟩

end Devnet

set_option maxRecDepth 100000 in
/-- The process goes down after the spawned tasks have made their guarded transitions. -/
theorem events_survive_crash_devnet :
    (∃ s s' r, ReachableBy Devnet.config Devnet.startTime (fun s a => durable s a = true) s ∧
      (relay Devnet.config).step s (.env .crash) = some s' ∧
      s'.world.swap Devnet.invoice1.paymentHash = some r ∧
      s'.world.claimHandled Devnet.invoice1.paymentHash = true ∧
      (r.status = .fulfilling ∨ (r.status = .completed ∨ r.status = .failed) ∧
        ∃ e ∈ s'.world.log, e.settled? = some (Devnet.invoice1.paymentHash, r.status))) ∧
    ∃ s s' r, ReachableBy Devnet.config Devnet.startTime (fun s a => durable s a = true) s ∧
      (relay Devnet.config).step s (.env .crash) = some s' ∧ s'.world.offramp 1 = some r ∧
      s'.world.sentHandled r.paymentHash = true ∧
      (r.status = .depositingToPool ∨ (r.status = .completed ∨ r.status = .failed) ∧
        ∃ e ∈ s'.world.log, e.concluded? = some (1, r.status)) := by
  constructor
  · obtain ⟨s, s', hs, hstep, hw, hp⟩ := Devnet.crash_of_after durable
      (Devnet.claimedRun ++ Devnet.steps 6 2 Devnet.ok) (fun s => durable s (.env .crash) &&
        (s.world.swap Devnet.invoice1.paymentHash).isSome &&
        s.world.claimHandled Devnet.invoice1.paymentHash) (by decide +kernel)
    simp only [Bool.and_eq_true, Option.isSome_iff_exists] at hp
    obtain ⟨⟨hok, r, hr⟩, hdone⟩ := hp
    refine ⟨s, s', r, hs, hstep, hw ▸ hr, hw ▸ hdone, ?_⟩
    exact (events_survive_crash hs hok rfl hstep).1 _ r (hw ▸ hr) (hw ▸ hdone)
  · obtain ⟨s, s', hs, hstep, hw, hp⟩ := Devnet.crash_of_after durable
      (Devnet.sentRun ++ Devnet.steps 6 2 Devnet.ok) (fun s => durable s (.env .crash) &&
        (s.world.offramp 1).any fun r => s.world.sentHandled r.paymentHash) (by decide +kernel)
    simp only [Bool.and_eq_true, Option.any_eq_true] at hp
    obtain ⟨hok, r, hr, hdone⟩ := hp
    refine ⟨s, s', r, hs, hstep, hw ▸ hr, hw ▸ hdone, ?_⟩
    exact (events_survive_crash hs hok rfl hstep).2 1 r (hw ▸ hr) (hw ▸ hdone)

set_option maxRecDepth 100000 in
/-- The process goes down after the handlers have returned and before the spawned tasks have done
anything: the swap is Pending, and the offramp is in PayingLightning. -/
theorem devnet_event_lost :
    (∃ s s' r, Reachable Devnet.config Devnet.startTime s ∧
      (relay Devnet.config).step s (.env .crash) = some s' ∧
      s'.world.swap Devnet.invoice1.paymentHash = some r ∧
      s'.world.claimHandled Devnet.invoice1.paymentHash = true ∧ r.status = .pending) ∧
    ∃ s s' r, Reachable Devnet.config Devnet.startTime s ∧
      (relay Devnet.config).step s (.env .crash) = some s' ∧ s'.world.offramp 1 = some r ∧
      s'.world.sentHandled r.paymentHash = true ∧ r.status = .payingLightning := by
  constructor
  · obtain ⟨s, s', hs, hstep, hw, hp⟩ := Devnet.crash_of_after (fun _ _ => true) Devnet.claimedRun
      (fun s => s.world.claimHandled Devnet.invoice1.paymentHash &&
        (s.world.swap Devnet.invoice1.paymentHash).any fun r => r.status = .pending)
      (by decide +kernel)
    simp only [Bool.and_eq_true, Option.any_eq_true, decide_eq_true_eq] at hp
    obtain ⟨hdone, r, hr, hst⟩ := hp
    exact ⟨s, s', r, hs.mono fun _ _ _ => trivial, hstep, hw ▸ hr, hw ▸ hdone, hst⟩
  · obtain ⟨s, s', hs, hstep, hw, hp⟩ := Devnet.crash_of_after (fun _ _ => true) Devnet.sentRun
      (fun s => (s.world.offramp 1).any fun r =>
        s.world.sentHandled r.paymentHash && r.status = .payingLightning) (by decide +kernel)
    simp only [Bool.and_eq_true, Option.any_eq_true, decide_eq_true_eq] at hp
    obtain ⟨r, hr, hdone, hst⟩ := hp
    exact ⟨s, s', r, hs.mono fun _ _ _ => trivial, hstep, hw ▸ hr, hw ▸ hdone, hst⟩

end LightningRelay
