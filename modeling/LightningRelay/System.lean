import LightningRelay.Async.Runtime
import LightningRelay.RateLimiter
import LightningRelay.Recovery
import LightningRelay.Background
import LightningRelay.Events
import LightningRelay.Api

/-!
# The running relay

The world that the tasks share, the meaning of the operations in it, and what the environment may
do: let time pass, send requests, close connections, deliver LDK events, settle Lightning
payments, and crash the process.  `relay` is the runtime of the whole system, and `Reachable`
ranges over all its runs from an empty database.

The answers of the Cardano operator and of LDK are not restricted.  The background processor hands
events over one at a time; the model lets the handlers of several events overlap.  A PaymentSent or
PaymentFailed event is handed over only for a payment that ended that way, but any number of times:
LDK delivers an event again when the process went down before the event was saved as handled.
-/

set_option autoImplicit false

namespace LightningRelay

open Async

/-! ## The world -/

/-- How a Lightning payment ended. -/
inductive PayOutcome where
  | sent (preimage : String)
  | failed
  deriving DecidableEq, Repr

/-- A payment that LDK accepted, with the call that asked for it. -/
structure Attempt where
  paymentHash : String
  payer : Call
  outcome : Option PayOutcome
  deriving DecidableEq, Repr

/-- An operation that was performed, by which task, and how it was answered. -/
structure Entry where
  tid : ℕ
  call : Call
  op : Op
  resp : op.Resp

/-- Everything the tasks share. `log` is the history of the run, newest first; `delivered` are the
LDK events that were handed to the relay. -/
structure World where
  db : SwapDb
  clock : ℤ
  attempts : List Attempt
  claimed : List String
  delivered : List LdkEvent
  inbound : String → Option PaymentInfo
  outbound : String → Option PaymentInfo
  limiter : RateLimiter
  serving : Bool
  log : List Entry

/-- The answers of the outside to the operations that ask it. -/
structure Answers where
  operator : About → (c : OperatorCall) → Except CardanoError c.Val
  ldk : (c : LdkCall) → c.Ret

namespace World

/-- The world of a first start, at time `now`. -/
def fresh (cfg : Config) (now : ℤ) : World where
  db := .empty
  clock := now
  attempts := []
  claimed := []
  delivered := []
  inbound := fun _ => none
  outbound := fun _ => none
  limiter := ⟨[], cfg.rateLimitMax, cfg.rateLimitWindow⟩
  serving := false
  log := []

/-- The world as a restarted process finds it. -/
def restarted (w : World) : World :=
  { w with serving := false, limiter := { w.limiter with requests := [] } }

/-- Record an operation. -/
def note (w : World) (tid : ℕ) (call : Call) (o : Op) (r : o.Resp) : World :=
  { w with log := ⟨tid, call, o, r⟩ :: w.log }

/-- What a call of LDK changes, by its answer. -/
def afterLdk (w : World) (call : Call) : (c : LdkCall) → c.Ret → World
  | .payForBolt11Invoice invoice _, .ok _ =>
    { w with attempts := w.attempts ++ [⟨invoice.paymentHash, call, none⟩] }
  | .payForBolt11Invoice _ _, .error _ => w
  | .createBolt11Invoice _ _ _, _ => w
  | .claimFunds paymentHash _, _ => { w with claimed := paymentHash :: w.claimed }

/-- The inbound store after a claimed payment. -/
def claimInbound (w : World) (paymentHash : String) (preimage secret : Option String)
    (amountMsat : ℕ) : PaymentInfo :=
  match w.inbound paymentHash with
  | some info => { info with status := .succeeded, preimage := preimage, secret := secret }
  | none =>
    { preimage := preimage, secret := secret, status := .succeeded, amtMsat := some amountMsat }

/-- What a change of a payment store returns, and the world after it. -/
def onStore (w : World) : (c : StoreCall) → c.Ret × World
  | .insertInbound h info => ((), { w with inbound := Function.update w.inbound h (some info) })
  | .claimInbound h preimage secret amountMsat =>
    ((), { w with
      inbound := Function.update w.inbound h (some (w.claimInbound h preimage secret amountMsat)) })
  | .insertOutbound id info => ((), { w with outbound := Function.update w.outbound id (some info) })
  | .succeedOutbound id preimage =>
    ((), { w with
      outbound := Function.update w.outbound id ((w.outbound id).map fun info =>
        { info with preimage := some preimage, status := .succeeded }) })
  | .failOutbound id =>
    ((w.outbound id).isSome, { w with
      outbound := Function.update w.outbound id ((w.outbound id).map fun info =>
        { info with status := .failed }) })

/-- The outcome of an operation of task `tid`. -/
def perform (tid : ℕ) (call : Call) : (o : Op) → Answers → World → Outcome o.Resp World Call
  | .db c, _, w =>
    .resume (w.db.call c).1
      ({ w with db := (w.db.call c).2 }.note tid call (.db c) (w.db.call c).1) none
  | .operator about c, a, w =>
    .resume (a.operator about c) (w.note tid call (.operator about c) (a.operator about c)) none
  | .ldk c, a, w =>
    .resume (a.ldk c) ((w.afterLdk call c (a.ldk c)).note tid call (.ldk c) (a.ldk c)) none
  | .store c, _, w =>
    .resume (w.onStore c).1 ((w.onStore c).2.note tid call (.store c) (w.onStore c).1) none
  | .persist file, _, w => .resume () (w.note tid call (.persist file) ()) none
  | .now, _, w => .resume w.clock (w.note tid call .now w.clock) none
  | .sleep secs, _, w => .resume () (w.note tid call (.sleep secs) ()) none
  | .rateLimit ip, _, w =>
    .resume (w.limiter.check ip w.clock).1
      ({ w with limiter := (w.limiter.check ip w.clock).2 }.note tid call (.rateLimit ip)
        (w.limiter.check ip w.clock).1) none
  | .spawn c, _, w => .resume () (w.note tid call (.spawn c) ()) (some c)
  | .enter f, _, w => .resume () (w.note tid call (.enter f) ()) none
  | .serve, _, w => .resume () ({ w with serving := true }.note tid call .serve ()) none
  | .panic _, _, w => .abort w.restarted

/-- Whether LDK may hand an event over. -/
def canDeliver (w : World) : LdkEvent → Bool
  | .paymentClaimable _ _ => true
  | .paymentClaimed h _ _ _ => w.claimed.contains h
  | .paymentSent id h preimage =>
    id.all (· = h) && w.attempts.any fun a => a.paymentHash = h && a.outcome = some (.sent preimage)
  | .paymentFailed id (some h) =>
    id = h && w.attempts.any fun a => a.paymentHash = h && a.outcome = some .failed
  | .paymentFailed _ none => true

/-- A payment in flight ends. -/
def settle (w : World) (i : ℕ) (outcome : PayOutcome) : World :=
  { w with attempts := w.attempts.modify i fun a => { a with outcome := some outcome } }

end World

/-! ## The environment -/

/-- The calls that a client of the REST API makes. -/
def Call.isHttp : Call → Bool
  | .handleSwapRequest _ _ | .handleOfframpRequest _ _ | .handleOfframpDeposit _ _ => true
  | _ => false

/-- The commands of the operator's CLI. -/
def Call.isCli : Call → Bool
  | .sendpayment _ _ | .cancelExpired | .cancelExpiredOfframps => true
  | _ => false

/-- An action of the environment. -/
inductive Env where
  /-- Time passes; the clock never goes back. -/
  | tick (ms : ℕ)
  /-- The process dies and is started again. -/
  | crash
  /-- A request of the REST API or a command of the CLI. -/
  | request (c : Call)
  /-- The client of a request disconnects and its handler is dropped where it stands. -/
  | disconnect (tid : ℕ)
  /-- LDK hands an event to the relay. -/
  | deliver (event : LdkEvent)
  /-- A Lightning payment in flight ends. -/
  | settle (i : ℕ) (outcome : PayOutcome)
  deriving DecidableEq, Repr

def react : Env → World → (ℕ → Option (Task Op Op.Resp Call)) → Option (World × Change Call)
  | .tick ms, w, _ => some ({ w with clock := w.clock + ms }, .keep)
  | .crash, w, _ => some (w.restarted, .restart)
  | .request c, w, _ => if w.serving && (c.isHttp || c.isCli) then some (w, .spawn c) else none
  | .disconnect tid, w, tasks =>
    if (tasks tid).any fun t => t.call.isHttp then some (w, .drop tid) else none
  | .deliver event, w, _ =>
    if w.canDeliver event then
      some ({ w with delivered := event :: w.delivered }, .spawn (.handleLdkEvents event))
    else none
  | .settle i outcome, w, _ =>
    if w.attempts[i]?.any fun a => a.outcome = none then some (w.settle i outcome, .keep)
    else none

/-! ## The relay -/

/-- The start of the process, as far as swaps are concerned. LDK events are handled from its
beginning; the monitors, the REST API and the CLI start after recovery. -/
def startLdk (cfg : Config) : Relay Unit := do
  recoverFulfillingSwaps
  recoverDepositingOfframps
  if cfg.reconcileOnStartup then
    cancelExpired
    cancelExpiredOfframps
  spawn .monitorExpiredSwaps
  spawn .monitorExpiredOfframps
  serve

/-- Run a handler for its effect; the response goes to the client. -/
def discard {α : Type} (p : Relay α) : Relay Unit := do
  let _ ← p

/-- The program of a call. -/
def body (cfg : Config) : Call → Relay Unit
  | .startLdk => startLdk cfg
  | .monitorExpiredSwaps => monitorExpiredSwaps
  | .monitorExpiredOfframps => monitorExpiredOfframps
  | .handleSwapRequest ip req => discard (handleSwapRequest cfg ip req)
  | .handleOfframpRequest ip req => discard (handleOfframpRequest cfg ip req)
  | .handleOfframpDeposit ip req => discard (handleOfframpDeposit cfg ip req)
  | .handleLdkEvents event => handleLdkEvents event
  | .fulfillSwap paymentHash => fulfillSwap paymentHash
  | .completeOfframp paymentHash preimage => completeOfframp paymentHash preimage
  | .handleOfframpPaymentFailed paymentHash => handleOfframpPaymentFailed paymentHash
  | .sendpayment invoice amountMsat => sendpayment cfg invoice amountMsat
  | .cancelExpired => cancelExpired
  | .cancelExpiredOfframps => cancelExpiredOfframps

/-- The relay: its tasks, its operations and its environment. -/
def relay (cfg : Config) : Runtime Op Op.Resp World Call Answers Env where
  body := body cfg
  boot := .startLdk
  perform tid call o a w := World.perform tid call o a w
  react := react

/-- A state of the relay. -/
abbrev Sys := State Op Op.Resp World Call

/-- A step of the relay. -/
abbrev Act := Action Answers Env

/-- The states that the relay reaches from its first start, at time `now`, by steps that all meet
the condition `ok`. -/
def ReachableBy (cfg : Config) (now : ℤ) (ok : Sys → Act → Prop) (s : Sys) : Prop :=
  (relay cfg).Reach ok (World.fresh cfg now) s

/-- The states that the relay reaches from its first start, in any run. -/
def Reachable (cfg : Config) (now : ℤ) (s : Sys) : Prop :=
  ReachableBy cfg now (fun _ _ => True) s

/-! ## What a step changes

`Effect` says what an operation does to each part of the world, so that proofs about runs need not
look into `World.perform`. -/

/-- The row of a swap. -/
def World.swap (w : World) (paymentHash : String) : Option SwapMapping :=
  w.db.getByPaymentHash paymentHash

/-- The row of an offramp. -/
def World.offramp (w : World) (offrampId : ℤ) : Option OfframpMapping :=
  w.db.getOfframpById offrampId

namespace Op

/-- The swap with payment hash `k` after an operation. -/
def onSwap (k : String) (row : Option SwapMapping) : Op → Option SwapMapping
  | .db c => c.onSwap k row
  | _ => row

/-- The offramp with id `k` after an operation. -/
def onOfframp (k : ℤ) (row : Option OfframpMapping) : Op → Option OfframpMapping
  | .db c => c.onOfframp k row
  | _ => row

/-- The payments that LDK knows after an operation. -/
def onAttempts (call : Call) (attempts : List Attempt) : (o : Op) → o.Resp → List Attempt
  | .ldk (.payForBolt11Invoice invoice _), .ok _ =>
    attempts ++ [⟨invoice.paymentHash, call, none⟩]
  | _, _ => attempts

/-- The task that an operation starts. -/
def spawns : Op → Option Call
  | .spawn c => some c
  | _ => none

/-- Answers that the world determines. -/
def Answered (w : World) : (o : Op) → o.Resp → Prop
  | .db c, r => r = (w.db.call c).1
  | .now, r => r = w.clock
  | _, _ => True

end Op

/-- The world `w'` after task `tid` performed `o` in `w` and got the answer `r`. -/
structure Effect (tid : ℕ) (call : Call) (o : Op) (r : o.Resp) (w w' : World)
    (spawned : Option Call) : Prop where
  log : w'.log = ⟨tid, call, o, r⟩ :: w.log
  swap : ∀ k, w'.swap k = o.onSwap k (w.swap k)
  offramp : ∀ k, w'.offramp k = o.onOfframp k (w.offramp k)
  clock : w'.clock = w.clock
  attempts : w'.attempts = o.onAttempts call w.attempts r
  delivered : w'.delivered = w.delivered
  serving : w'.serving = (w.serving || o = .serve)
  spawned : spawned = o.spawns
  answered : o.Answered w r

theorem effect_of_perform {tid : ℕ} {call : Call} {o : Op} {a : Answers} {w w' : World}
    {r : o.Resp} {sp : Option Call} (h : World.perform tid call o a w = .resume r w' sp) :
    Effect tid call o r w w' sp := by
  cases o with
  | db c =>
    obtain ⟨rfl, rfl, rfl⟩ := Outcome.resume.inj h
    exact ⟨rfl, fun k => w.db.getByPaymentHash_call c k, fun k => w.db.getOfframpById_call c k,
      rfl, rfl, rfl, by simp [World.note], rfl, rfl⟩
  | ldk c =>
    obtain ⟨rfl, rfl, rfl⟩ := Outcome.resume.inj h
    cases c with
    | payForBolt11Invoice invoice amount =>
      rcases hr : a.ldk (.payForBolt11Invoice invoice amount) with e | u <;>
        exact ⟨rfl, fun _ => rfl, fun _ => rfl, rfl, rfl, rfl, by simp [World.note, World.afterLdk],
          rfl, trivial⟩
    | createBolt11Invoice | claimFunds =>
      exact ⟨rfl, fun _ => rfl, fun _ => rfl, rfl, rfl, rfl, by simp [World.note, World.afterLdk],
        rfl, trivial⟩
  | store c =>
    obtain ⟨rfl, rfl, rfl⟩ := Outcome.resume.inj h
    cases c <;>
      exact ⟨rfl, fun _ => rfl, fun _ => rfl, rfl, rfl, rfl, by simp [World.note, World.onStore],
        rfl, trivial⟩
  | now =>
    obtain ⟨rfl, rfl, rfl⟩ := Outcome.resume.inj h
    exact ⟨rfl, fun _ => rfl, fun _ => rfl, rfl, rfl, rfl, by simp [World.note], rfl, rfl⟩
  | panic msg => cases h
  | operator | persist | sleep | rateLimit | spawn | enter | serve =>
    obtain ⟨rfl, rfl, rfl⟩ := Outcome.resume.inj h
    exact ⟨rfl, fun _ => rfl, fun _ => rfl, rfl, rfl, rfl, by simp [World.note], rfl, trivial⟩

namespace Effect

variable {tid : ℕ} {call : Call} {o : Op} {r : o.Resp} {w w' : World} {sp : Option Call}

/-- What may happen to the row of a swap. -/
theorem swap_cases (he : Effect tid call o r w w' sp) {k : String} {x : SwapMapping}
    (hx : w.swap k = some x) : ∃ y, w'.swap k = some y ∧ (y = x ∨
      (∃ st tx, o = .db (.updateStatus k st tx) ∧ y = { x with status := st, cardanoTxHash := tx }) ∨
      ∃ n tx, o = .db (.transitionStatus k x.status n tx) ∧
        y = { x with status := n, cardanoTxHash := tx }) := by
  have hrow := he.swap k
  rw [hx] at hrow
  cases o with
  | db c =>
    cases c with
    | insert m =>
      simp only [Op.onSwap, DbCall.onSwap, Option.some_or, ite_self] at hrow
      exact ⟨x, hrow, Or.inl rfl⟩
    | updateStatus h st tx =>
      simp only [Op.onSwap, DbCall.onSwap, Option.map_some] at hrow
      split_ifs at hrow with hk
      · exact ⟨_, hrow, Or.inr (Or.inl ⟨st, tx, by rw [hk], rfl⟩)⟩
      · exact ⟨x, hrow, Or.inl rfl⟩
    | transitionStatus h e n tx =>
      simp only [Op.onSwap, DbCall.onSwap, Option.map_some, SwapMapping.moved] at hrow
      split_ifs at hrow with hk hst
      · exact ⟨_, hrow, Or.inr (Or.inr ⟨n, tx, by rw [hk, hst], rfl⟩)⟩
      · exact ⟨x, hrow, Or.inl rfl⟩
      · exact ⟨x, hrow, Or.inl rfl⟩
    | _ => exact ⟨x, hrow, Or.inl rfl⟩
  | _ => exact ⟨x, hrow, Or.inl rfl⟩

/-- What may happen to the row of an offramp. -/
theorem offramp_cases (he : Effect tid call o r w w' sp) {k : ℤ} {x : OfframpMapping}
    (hx : w.offramp k = some x) : ∃ y, w'.offramp k = some y ∧ (y = x ∨
      (∃ st p d e, o = .db (.updateOfframpStatus k st p d e) ∧ y = SwapDb.coalesce st p d e x) ∨
      (∃ n, o = .db (.transitionOfframpStatus k x.status n) ∧ y = { x with status := n }) ∨
      ∃ tx n, o = .db (.transitionOfframpWithCbtcTx k tx x.status n) ∧
        y = { x with cbtcTxHash := tx, status := n }) := by
  have hrow := he.offramp k
  rw [hx] at hrow
  cases o with
  | db c =>
    cases c with
    | insertOfframp m =>
      simp only [Op.onOfframp, DbCall.onOfframp, Option.some_or, ite_self] at hrow
      exact ⟨x, hrow, Or.inl rfl⟩
    | updateOfframpStatus id st p d e =>
      simp only [Op.onOfframp, DbCall.onOfframp, Option.map_some] at hrow
      split_ifs at hrow with hk
      · exact ⟨_, hrow, Or.inr (Or.inl ⟨st, p, d, e, by rw [hk], rfl⟩)⟩
      · exact ⟨x, hrow, Or.inl rfl⟩
    | transitionOfframpStatus id e n =>
      simp only [Op.onOfframp, DbCall.onOfframp, Option.map_some, OfframpMapping.moved] at hrow
      split_ifs at hrow with hk hst
      · exact ⟨_, hrow, Or.inr (Or.inr (Or.inl ⟨n, by rw [hk, hst], rfl⟩))⟩
      · exact ⟨x, hrow, Or.inl rfl⟩
      · exact ⟨x, hrow, Or.inl rfl⟩
    | transitionOfframpWithCbtcTx id tx e n =>
      simp only [Op.onOfframp, DbCall.onOfframp, Option.map_some, OfframpMapping.recorded] at hrow
      split_ifs at hrow with hk hst
      · exact ⟨_, hrow, Or.inr (Or.inr (Or.inr ⟨tx, n, by rw [hk, hst], rfl⟩))⟩
      · exact ⟨x, hrow, Or.inl rfl⟩
      · exact ⟨x, hrow, Or.inl rfl⟩
    | _ => exact ⟨x, hrow, Or.inl rfl⟩
  | _ => exact ⟨x, hrow, Or.inl rfl⟩

/-- LDK does not forget a payment. -/
theorem mem_attempts (he : Effect tid call o r w w' sp) {a : Attempt} (ha : a ∈ w.attempts) :
    a ∈ w'.attempts := by
  rw [he.attempts]
  unfold Op.onAttempts
  split
  · exact List.mem_append_left _ ha
  · exact ha

/-- Where a new swap comes from. -/
theorem swap_of_none (he : Effect tid call o r w w' sp) {k : String} {y : SwapMapping}
    (hx : w.swap k = none) (hy : w'.swap k = some y) :
    ∃ m, o = .db (.insert m) ∧ y = { m with cardanoTxHash := none } := by
  have hrow := he.swap k
  rw [hx, hy] at hrow
  cases o with
  | db c =>
    cases c with
    | insert m =>
      simp only [Op.onSwap, DbCall.onSwap, Option.none_or] at hrow
      split_ifs at hrow
      exact ⟨m, rfl, Option.some.inj hrow⟩
    | updateStatus | transitionStatus => simp [Op.onSwap, DbCall.onSwap] at hrow
    | _ => cases hrow
  | _ => cases hrow

/-- Where a new offramp comes from. -/
theorem offramp_of_none (he : Effect tid call o r w w' sp) {k : ℤ} {y : OfframpMapping}
    (hx : w.offramp k = none) (hy : w'.offramp k = some y) : ∃ m, o = .db (.insertOfframp m) ∧
      y = { m with lightningPreimage := none, depositTxHash := none, errorMessage := none } := by
  have hrow := he.offramp k
  rw [hx, hy] at hrow
  cases o with
  | db c =>
    cases c with
    | insertOfframp m =>
      simp only [Op.onOfframp, DbCall.onOfframp, Option.none_or] at hrow
      split_ifs at hrow
      exact ⟨m, rfl, Option.some.inj hrow⟩
    | updateOfframpStatus | transitionOfframpStatus | transitionOfframpWithCbtcTx =>
      simp [Op.onOfframp, DbCall.onOfframp] at hrow
    | _ => cases hrow
  | _ => cases hrow

end Effect

/-- A process goes down by itself only through a failed `expect`. -/
theorem abort_of_perform {tid : ℕ} {call : Call} {o : Op} {a : Answers} {w w' : World}
    (h : World.perform tid call o a w = .abort w') : w' = w.restarted := by
  cases o with
  | panic msg => exact (Outcome.abort.inj h).symm
  | _ => cases h

/-- What the environment never touches, and that time does not go back. -/
structure Calm (w w' : World) : Prop where
  log : w'.log = w.log
  db : w'.db = w.db
  clock : w.clock ≤ w'.clock

theorem Calm.swap {w w' : World} (h : Calm w w') (k : String) : w'.swap k = w.swap k :=
  congrArg (·.getByPaymentHash k) h.db

theorem Calm.offramp {w w' : World} (h : Calm w w') (id : ℤ) : w'.offramp id = w.offramp id :=
  congrArg (·.getOfframpById id) h.db

/-- What an action of the environment does. -/
inductive Reaction (w : World) : Env → World → Change Call → Prop where
  | tick (ms : ℕ) : Reaction w (.tick ms) { w with clock := w.clock + ms } .keep
  | crash : Reaction w .crash w.restarted .restart
  | request {c : Call} : w.serving = true → (c.isHttp || c.isCli) = true →
      Reaction w (.request c) w (.spawn c)
  | disconnect (tid : ℕ) : Reaction w (.disconnect tid) w (.drop tid)
  | deliver {event : LdkEvent} : w.canDeliver event = true →
      Reaction w (.deliver event) { w with delivered := event :: w.delivered }
        (.spawn (.handleLdkEvents event))
  | settle {i : ℕ} {a : Attempt} {outcome : PayOutcome} : w.attempts[i]? = some a →
      a.outcome = none → Reaction w (.settle i outcome) (w.settle i outcome) .keep

theorem reaction_of_react {e : Env} {w w' : World} {tasks : ℕ → Option (Task Op Op.Resp Call)}
    {ch : Change Call} (h : react e w tasks = some (w', ch)) : Reaction w e w' ch := by
  cases e with
  | tick ms =>
    obtain ⟨rfl, rfl⟩ := Prod.mk.inj (Option.some.inj h)
    exact .tick ms
  | crash =>
    obtain ⟨rfl, rfl⟩ := Prod.mk.inj (Option.some.inj h)
    exact .crash
  | request c =>
    simp only [react] at h
    split_ifs at h with hc
    obtain ⟨rfl, rfl⟩ := Prod.mk.inj (Option.some.inj h)
    rw [Bool.and_eq_true] at hc
    exact .request hc.1 hc.2
  | disconnect tid =>
    simp only [react] at h
    split_ifs at h
    obtain ⟨rfl, rfl⟩ := Prod.mk.inj (Option.some.inj h)
    exact .disconnect tid
  | deliver event =>
    simp only [react] at h
    split_ifs at h with hd
    obtain ⟨rfl, rfl⟩ := Prod.mk.inj (Option.some.inj h)
    exact .deliver hd
  | settle i outcome =>
    simp only [react] at h
    split_ifs at h with ha
    obtain ⟨rfl, rfl⟩ := Prod.mk.inj (Option.some.inj h)
    rcases hi : w.attempts[i]? with _ | a
    · simp [hi] at ha
    · exact .settle hi (by simpa [hi] using ha)

/-- Only the handlers of requests are dropped. -/
theorem isHttp_of_drop {e : Env} {w w' : World} {tid : ℕ}
    {tasks : ℕ → Option (Task Op Op.Resp Call)} (hr : react e w tasks = some (w', .drop tid)) :
    e = .disconnect tid ∧ ∃ t, tasks tid = some t ∧ t.call.isHttp = true := by
  cases e with
  | disconnect tid' =>
    simp only [react] at hr
    split_ifs at hr with hany
    obtain ⟨-, hd⟩ := Prod.mk.inj (Option.some.inj hr)
    obtain rfl := Change.drop.inj hd
    exact ⟨rfl, (Option.any_eq_true _ _).1 hany⟩
  | tick | crash => cases hr
  | request | deliver | settle =>
    simp only [react] at hr
    split_ifs at hr
    cases hr

theorem Reaction.calm {e : Env} {w w' : World} {ch : Change Call} (h : Reaction w e w' ch) :
    Calm w w' := by
  cases h with
  | tick ms => exact ⟨rfl, rfl, Int.le_add_of_nonneg_right (Int.natCast_nonneg ms)⟩
  | _ => exact ⟨rfl, rfl, Int.le_refl _⟩

/-- What does not depend on how the payments ended. -/
theorem Reaction.map_attempts {β : Type} {f : Attempt → β}
    (hf : ∀ a outcome, f { a with outcome := outcome } = f a) {e : Env} {w w' : World}
    {ch : Change Call} (h : Reaction w e w' ch) : w'.attempts.map f = w.attempts.map f := by
  cases h with
  | settle =>
    refine List.ext_getElem? fun j => ?_
    simp only [World.settle, List.getElem?_map, List.getElem?_modify]
    rcases w.attempts[j]? with _ | a
    · rfl
    · split_ifs
      · exact congrArg some (hf a _)
      · rfl
  | _ => rfl

theorem Reaction.serving {e : Env} {w w' : World} {ch : Change Call} (h : Reaction w e w' ch)
    (hch : ch ≠ .restart) : w'.serving = w.serving := by
  cases h with
  | crash => exact absurd rfl hch
  | _ => rfl

theorem calm_restarted (w : World) : Calm w w.restarted := ⟨rfl, rfl, Int.le_refl _⟩

/-- A step is an operation of a task, or it leaves log and tables alone. -/
theorem world_of_step {cfg : Config} {s s' : Sys} {act : Act}
    (hstep : (relay cfg).step s act = some s') :
    (∃ tid c o k a r sp, act = .task tid a ∧ s.tasks tid = some ⟨c, .op o k⟩ ∧
      World.perform tid c o a s.world = .resume r s'.world sp) ∨ Calm s.world s'.world := by
  cases act with
  | task tid a =>
    obtain ⟨c, o, k, ht, rfl⟩ := Runtime.step_task_eq_some hstep
    rcases hp : (relay cfg).perform tid c o a s.world with ⟨r, w', sp⟩ | w'
    · have hw : ((relay cfg).settle s tid c k (.resume r w' sp)).world = w' := by
        cases sp <;> rfl
      rw [hw]
      exact Or.inl ⟨tid, c, o, k, a, r, sp, rfl, ht, hp⟩
    · obtain rfl := abort_of_perform hp
      exact Or.inr (calm_restarted _)
  | env e =>
    obtain ⟨w', ch, hr, rfl⟩ := Runtime.step_env_eq_some hstep
    have hw : ((relay cfg).change s w' ch).world = w' := by
      cases ch <;> rfl
    rw [hw]
    exact Or.inr (reaction_of_react hr).calm

/-- The step takes the process down. -/
def goesDown (s : Sys) : Act → Bool
  | .env .crash => true
  | .env _ => false
  | .task tid _ =>
    match s.tasks tid with
    | some ⟨_, .op (.panic _) _⟩ => true
    | _ => false

theorem world_of_goesDown {cfg : Config} {s s' : Sys} {a : Act} (hdown : goesDown s a = true)
    (hstep : (relay cfg).step s a = some s') : s'.world = s.world.restarted := by
  cases a with
  | env e =>
    cases e with
    | crash =>
      obtain ⟨w, ch, hr, rfl⟩ := Runtime.step_env_eq_some hstep
      obtain ⟨rfl, rfl⟩ := Prod.mk.inj (Option.some.inj hr)
      rfl
    | _ => cases hdown
  | task tid a =>
    obtain ⟨c, o, k, ht, rfl⟩ := Runtime.step_task_eq_some hstep
    simp only [goesDown, ht] at hdown
    cases o with
    | panic msg => rfl
    | _ => cases hdown

/-- The tasks that the environment starts: requests while the API serves, and LDK events. -/
theorem Reaction.spawn {e : Env} {w w' : World} {c : Call} (h : Reaction w e w' (.spawn c)) :
    w.serving = true ∧ (c.isHttp || c.isCli) = true ∨ ∃ event, e = .deliver event ∧
      c = .handleLdkEvents event ∧ w.canDeliver event = true := by
  cases h with
  | request hs hc => exact Or.inl ⟨hs, hc⟩
  | deliver hd => exact Or.inr ⟨_, rfl, rfl, hd⟩

/-- The task has left an entry in the log. -/
def World.Logged (w : World) (tid : ℕ) : Prop := ∃ e ∈ w.log, e.tid = tid

theorem logged_of_perform {tid : ℕ} {call : Call} {o : Op} {a : Answers} {w w' : World} {r : o.Resp}
    {sp : Option Call} {i : ℕ} (hp : World.perform tid call o a w = .resume r w' sp)
    (h : w'.Logged i) : i = tid ∨ w.Logged i := by
  obtain ⟨e, he, rfl⟩ := h
  rw [(effect_of_perform hp).log] at he
  rcases List.mem_cons.1 he with rfl | he
  · exact Or.inl rfl
  · exact Or.inr ⟨e, he, rfl⟩

theorem logged_of_abort {tid : ℕ} {call : Call} {o : Op} {a : Answers} {w w' : World} {i : ℕ}
    (hp : World.perform tid call o a w = .abort w') (h : w'.Logged i) : w.Logged i := by
  obtain rfl := abort_of_perform hp
  exact h

/-- Entries of the log carry ids that were given out. -/
theorem tid_lt_next {cfg : Config} {now : ℤ} {ok : Sys → Act → Prop} {s : Sys}
    (h : ReachableBy cfg now ok s) : ∀ e ∈ s.world.log, e.tid < s.next := by
  intro e he
  refine h.lt_next World.Logged ?_ logged_of_perform logged_of_abort ?_ ⟨e, he, rfl⟩
  · rintro tid ⟨e, he, -⟩
    exact List.not_mem_nil he
  · rintro e w tasks w' ch _ hr ⟨e', he, rfl⟩
    rw [(reaction_of_react hr).calm.log] at he
    exact ⟨e', he, rfl⟩

theorem tid_lt_next_of_perform {cfg : Config} {now : ℤ} {ok : Sys → Act → Prop} {s : Sys} {tid : ℕ}
    {t : Task Op Op.Resp Call} {c : Call} {o : Op} {a : Answers} {r : o.Resp} {w : World}
    {sp : Option Call} (h : ReachableBy cfg now ok s) (ht : s.tasks tid = some t)
    (hp : World.perform tid c o a s.world = .resume r w sp) : ∀ e ∈ w.log, e.tid < s.next := by
  intro e he
  rw [(effect_of_perform hp).log] at he
  rcases List.mem_cons.1 he with rfl | he
  · exact (Runtime.Reach.fresh h).lt_next ht
  · exact tid_lt_next h e he

theorem tid_lt_next_of_calm {cfg : Config} {now : ℤ} {ok : Sys → Act → Prop} {s : Sys} {w : World}
    (h : ReachableBy cfg now ok s) (hc : Calm s.world w) : ∀ e ∈ w.log, e.tid < s.next := by
  rw [hc.log]
  exact tid_lt_next h

end LightningRelay
