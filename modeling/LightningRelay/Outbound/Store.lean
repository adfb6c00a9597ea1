import LightningRelay.System

/-!
# The outbound payment store and its file

`send_payment`, PaymentSent and PaymentFailed change the entry of a payment in memory and write the
store to its file; `start_ldk` reads the file and marks the pending payments that LDK does not list.
`relayWithFile` is the relay together with that file and LDK's list of recent payments.

`Held` are the versions of the store that are in the file or encoded for it: a step adds at most the
present one (`held_after`).
-/

set_option autoImplicit false

namespace LightningRelay

open Async

/-! ## The store and its file -/

/-- The entries of the outbound store by payment id. -/
abbrev PaymentStore := String → Option PaymentInfo

namespace Op

/-- The operation changes the outbound store; the store is encoded before its lock is released. -/
def changesOutbound : Op → Bool
  | .store (.insertOutbound _ _) | .store (.succeedOutbound _ _) | .store (.failOutbound _) => true
  | _ => false

/-- The outbound store after an operation. -/
def onOutbound (st : PaymentStore) : Op → PaymentStore
  | .store (.insertOutbound id info) => Function.update st id (some info)
  | .store (.succeedOutbound id preimage) =>
    Function.update st id ((st id).map fun info =>
      { info with preimage := some preimage, status := .succeeded })
  | .store (.failOutbound id) =>
    Function.update st id ((st id).map fun info => { info with status := .failed })
  | _ => st

section

variable {st : PaymentStore} {id preimage : String} {info : PaymentInfo}

@[simp] theorem onOutbound_insert : (store (.insertOutbound id info)).onOutbound st id = some info :=
  Function.update_self ..

@[simp] theorem onOutbound_succeed : (store (.succeedOutbound id preimage)).onOutbound st id =
    (st id).map fun info => { info with preimage := some preimage, status := .succeeded } :=
  Function.update_self ..

@[simp] theorem onOutbound_fail : (store (.failOutbound id)).onOutbound st id =
    (st id).map fun info => { info with status := .failed } :=
  Function.update_self ..

end

/-- LDK's list of recent payments after an operation. -/
def onRecent (recent : List String) : (o : Op) → o.Resp → List String
  | .ldk (.payForBolt11Invoice invoice _), .ok _ => invoice.paymentHash :: recent
  | _, _ => recent

end Op

/-- What LDK and the relay know of outbound payments: LDK's payments and its list of recent ones, and
the relay's store. -/
structure Payments where
  attempts : List Attempt
  recent : List String
  outbound : PaymentStore

namespace Payments

/-- LDK has a payment in flight under this id. -/
def inFlight (p : Payments) (id : String) : Bool :=
  p.attempts.any fun a => a.paymentHash = id && a.outcome = none

/-- LDK has a payment under this id that has not failed. -/
def live (p : Payments) (id : String) : Bool :=
  p.attempts.any fun a => a.paymentHash = id && a.outcome ≠ some .failed

/-- The entry of the payment id is Succeeded with this preimage. -/
def paid (p : Payments) (id preimage : String) : Bool :=
  (p.outbound id).any fun info => info.status = .succeeded && info.preimage = some preimage

/-- The entry of the payment id is Failed. -/
def failed (p : Payments) (id : String) : Bool :=
  (p.outbound id).any fun info => info.status = .failed

end Payments

/-- The relay's world with the file of the outbound store. Every change of the store gets a number;
`encoded` is what each task has encoded for its next write, `file` what was written last, with the
numbers of the changes they come after, and `recent` what LDK lists. -/
structure Durable where
  world : World
  version : ℕ
  encoded : ℕ → Option (ℕ × PaymentStore)
  file : ℕ × PaymentStore
  recent : List String

namespace Durable

/-- The first start, at time `now`. -/
def fresh (cfg : Config) (now : ℤ) : Durable where
  world := World.fresh cfg now
  version := 0
  encoded _ := none
  file := (0, fun _ => none)
  recent := []

/-- The file after a write: a write never replaces what was encoded later. -/
def written (file : ℕ × PaymentStore) : Option (ℕ × PaymentStore) → ℕ × PaymentStore
  | some new => if file.1 < new.1 then new else file
  | none => file

/-- After an operation of a task that leaves the world `w`. -/
def after (x : Durable) (tid : ℕ) (o : Op) (r : o.Resp) (w : World) : Durable where
  world := w
  version := if o.changesOutbound then x.version + 1 else x.version
  encoded := if o.changesOutbound then
      Function.update x.encoded tid (some (x.version + 1, w.outbound))
    else x.encoded
  file := if o = .persist outboundPaymentsFname then written x.file (x.encoded tid) else x.file
  recent := o.onRecent x.recent r

/-- Pending payments that LDK does not list are marked Failed. -/
def reconcile (recent : List String) (st : PaymentStore) : PaymentStore := fun id =>
  (st id).map fun info =>
    if info.status = .pending && !recent.contains id then { info with status := .failed } else info

/-- The process restarted: it reads the file, reconciles it with LDK's list and writes it. -/
def restarted (x : Durable) : Durable where
  world := { x.world.restarted with outbound := reconcile x.recent x.file.2 }
  version := x.version + 1
  encoded _ := none
  file := (x.version + 1, reconcile x.recent x.file.2)
  recent := x.recent

/-- The payments with this version of the store. -/
def paymentsWith (x : Durable) (st : PaymentStore) : Payments := ⟨x.world.attempts, x.recent, st⟩

def payments (x : Durable) : Payments := x.paymentsWith x.world.outbound

theorem payments_fresh (cfg : Config) (now : ℤ) :
    (fresh cfg now).payments = ⟨[], [], fun _ => none⟩ := rfl

end Durable

/-- What happens around the relay: an action of its environment, or LDK takes a payment that is not in
flight off its list. -/
inductive Around where
  | env (e : Env)
  | forget (paymentId : String)

/-- The relay with the file of its outbound store.  The CLI pays invoices: its payments of offers and
names and its keysends, which write the same file, are no calls of the relay. -/
def relayWithFile (cfg : Config) : Runtime Op Op.Resp Durable Call Answers Around where
  body := body cfg
  boot := .startLdk
  perform tid call o a x :=
    match World.perform tid call o a x.world with
    | .resume r w sp => .resume r (x.after tid o r w) sp
    | .abort _ => .abort x.restarted
  react
    | .env .crash, x, _ => some (x.restarted, .restart)
    | .env e, x, tasks => (react e x.world tasks).map fun y => ({ x with world := y.1 }, y.2)
    | .forget id, x, _ =>
      if x.payments.inFlight id then none
      else some ({ x with recent := x.recent.filter (· ≠ id) }, .keep)

/-! ## What a step does -/

section

variable {cfg : Config} {tid : ℕ} {c : Call} {o : Op} {a : Answers} {r : o.Resp} {w : World}
  {x x' : Durable} {sp : Option Call}

theorem outbound_of_perform {w' : World} (h : World.perform tid c o a w = .resume r w' sp) :
    w'.outbound = o.onOutbound w.outbound := by
  cases o with
  | ldk call =>
    obtain ⟨rfl, rfl, -⟩ := Outcome.resume.inj h
    cases call with
    | payForBolt11Invoice invoice amount =>
      rcases hr : a.ldk (.payForBolt11Invoice invoice amount) with e | u <;> rfl
    | createBolt11Invoice | claimFunds => rfl
  | store call =>
    obtain ⟨rfl, rfl, -⟩ := Outcome.resume.inj h
    cases call <;> rfl
  | panic msg => cases h
  | _ =>
    obtain ⟨rfl, rfl, -⟩ := Outcome.resume.inj h
    rfl

/-- An operation in the world with the file. -/
structure Durable.Effect (tid : ℕ) (c : Call) (o : Op) (r : o.Resp) (x x' : Durable)
    (sp : Option Call) : Prop where
  world : LightningRelay.Effect tid c o r x.world x'.world sp
  outbound : x'.world.outbound = o.onOutbound x.world.outbound
  after : x' = x.after tid o r x'.world

theorem durable_effect (h : (relayWithFile cfg).perform tid c o a x = .resume r x' sp) :
    Durable.Effect tid c o r x x' sp := by
  simp only [relayWithFile] at h
  rcases hp : World.perform tid c o a x.world with ⟨r', w, sp'⟩ | w
  · rw [hp] at h
    obtain ⟨rfl, rfl, rfl⟩ := Outcome.resume.inj h
    exact ⟨effect_of_perform hp, outbound_of_perform hp, rfl⟩
  · rw [hp] at h
    cases h

theorem durable_abort (h : (relayWithFile cfg).perform tid c o a x = .abort x') :
    x' = x.restarted ∧ ∃ msg, o = .panic msg := by
  cases o with
  | panic msg => exact ⟨(Outcome.abort.inj h).symm, msg, rfl⟩
  | _ => cases h

/-- What may happen around the relay. -/
theorem durable_react {e : Around} {tasks : ℕ → Option (Task Op Op.Resp Call)} {ch : Change Call}
    (h : (relayWithFile cfg).react e x tasks = some (x', ch)) :
    (e = .env .crash ∧ x' = x.restarted ∧ ch = .restart) ∨
    (∃ e' w', e = .env e' ∧ e' ≠ .crash ∧ Reaction x.world e' w' ch ∧ x' = { x with world := w' }) ∨
    ∃ id, x.payments.inFlight id = false ∧ x' = { x with recent := x.recent.filter (· ≠ id) } ∧
      ch = .keep := by
  cases e with
  | env e =>
    by_cases hcrash : e = .crash
    · subst hcrash
      obtain ⟨rfl, rfl⟩ := Prod.mk.inj (Option.some.inj h)
      exact Or.inl ⟨rfl, rfl, rfl⟩
    · have hmap : (react e x.world tasks).map (fun y => ({ x with world := y.1 }, y.2)) =
          some (x', ch) := by
        cases e with
        | crash => exact absurd rfl hcrash
        | _ => exact h
      obtain ⟨⟨w', ch'⟩, hr, heq⟩ := Option.map_eq_some_iff.1 hmap
      obtain ⟨rfl, rfl⟩ := Prod.mk.inj heq
      exact Or.inr (Or.inl ⟨e, w', rfl, hcrash, reaction_of_react hr, rfl⟩)
  | forget id =>
    simp only [relayWithFile] at h
    split_ifs at h with hf
    obtain ⟨rfl, rfl⟩ := Prod.mk.inj (Option.some.inj h)
    exact Or.inr (Or.inr ⟨id, Bool.eq_false_iff.2 hf, rfl, rfl⟩)

end

/-! ## The file -/

namespace Durable

/-- The versions of the store that are in the file or encoded for it. -/
def Held (x : Durable) (y : ℕ × PaymentStore) : Prop := y = x.file ∨ ∃ tid, x.encoded tid = some y

variable {tid : ℕ} {c : Call} {o : Op} {r : o.Resp} {x x' : Durable} {sp : Option Call}
  {y : ℕ × PaymentStore}

theorem held_written (x : Durable) (tid : ℕ) : x.Held (written x.file (x.encoded tid)) := by
  rcases hnew : x.encoded tid with _ | new
  · exact Or.inl rfl
  · simp only [written]
    split_ifs
    · exact Or.inr ⟨tid, hnew⟩
    · exact Or.inl rfl

/-- After an operation there is at most one more version, the present one. -/
theorem held_after (he : Effect tid c o r x x' sp) (h : x'.Held y) :
    x.Held y ∨ y = (x.version + 1, x'.world.outbound) ∧ x'.version = x.version + 1 := by
  rw [he.after] at h
  rcases h with rfl | ⟨i, hi⟩
  · simp only [after]
    split_ifs
    · exact Or.inl (held_written x tid)
    · exact Or.inl (Or.inl rfl)
  · simp only [after] at hi
    split_ifs at hi with ho
    · by_cases hne : i = tid
      · subst hne
        rw [Function.update_self] at hi
        refine Or.inr ⟨(Option.some.inj hi).symm, ?_⟩
        rw [he.after]
        exact if_pos ho
      · rw [Function.update_of_ne hne] at hi
        exact Or.inl (Or.inr ⟨i, hi⟩)
    · exact Or.inl (Or.inr ⟨i, hi⟩)

theorem held_fresh {cfg : Config} {now : ℤ} (h : (fresh cfg now).Held y) : y = (0, fun _ => none) := by
  rcases h with rfl | ⟨tid, htid⟩
  · rfl
  · cases htid

theorem held_restarted (h : x.restarted.Held y) : y = x.restarted.file := by
  rcases h with rfl | ⟨tid, htid⟩
  · rfl
  · cases htid

theorem version_le (he : Effect tid c o r x x' sp) : x.version ≤ x'.version := by
  rw [he.after]
  simp only [after]
  split_ifs <;> omega

/-- What other tasks have encoded is left alone. -/
theorem encoded_other (he : Effect tid c o r x x' sp) {i : ℕ} (hi : i ≠ tid) :
    x'.encoded i = x.encoded i := by
  rw [he.after]
  simp only [after]
  split_ifs
  · exact Function.update_of_ne hi ..
  · rfl

/-- A write leaves in the file what was there, what was encoded, or something later. -/
theorem le_written (x : Durable) (tid : ℕ) (hy : y = x.file ∨ x.encoded tid = some y) :
    y.1 ≤ (written x.file (x.encoded tid)).1 := by
  rcases hnew : x.encoded tid with _ | new
  · obtain rfl := hy.resolve_right (by simp [hnew])
    exact Nat.le_refl _
  · simp only [written]
    rcases hy with rfl | hy
    · split_ifs <;> omega
    · rw [hnew] at hy
      obtain rfl := Option.some.inj hy
      split_ifs <;> omega

theorem file_le (he : Effect tid c o r x x' sp) : x.file.1 ≤ x'.file.1 := by
  rw [he.after]
  simp only [after]
  split_ifs
  · exact le_written x tid (Or.inl rfl)
  · exact Nat.le_refl _

/-- Entries that were not pending are as the file has them. -/
theorem reconcile_of_ne_pending {recent : List String} {st : PaymentStore} {id : String}
    {info : PaymentInfo} (h : st id = some info)
    (hst : info.status ≠ .pending ∨ recent.contains id = true) :
    reconcile recent st id = some info := by
  rw [reconcile, h, Option.map_some, if_neg]
  rcases hst with hst | hst
  · simp [hst]
  · simp only [hst, Bool.not_true, Bool.and_false, Bool.false_eq_true, not_false_eq_true]

end Durable

end LightningRelay
