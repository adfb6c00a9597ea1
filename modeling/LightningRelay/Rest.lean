import LightningRelay.Async.Embed
import LightningRelay.Codec.Text
import LightningRelay.Footprint
import LightningRelay.Metrics
import LightningRelay.Reports

/-!
# The endpoints of the REST API

`create_router` of `api.rs` and the handlers that are not tasks of their own in `System`: those that
only read, and those that move the operator's funds into and out of the pool.

* `request_permitted`: what a request can do.  Funds move only on a request with the operator's token
  and a positive amount; only requests to the three endpoints of swaps touch swaps; all others read.
* `pool_move_answered`: what an answer to a deposit or a withdrawal says about its transaction.
-/

set_option autoImplicit false

namespace LightningRelay

open Async Codec

namespace Rest

/-! ## Requests and answers -/

inductive Method where
  | get
  | head
  | post
  | options
  | other
  deriving DecidableEq, Repr

/-- A request: the segments of its path, the address of the client, the `authorization` header as far
as it is text, and the body. -/
structure Http where
  method : Method
  path : List String
  ip : String
  authorization : Option String
  body : String

inductive Route where
  | health
  | info
  | swapRequest
  | swapStatus (hash : String)
  | swapHistory
  | poolInfo
  | balance
  | offrampRequest
  | offrampDeposit
  | offrampStatus (id : String)
  | offrampHistory
  | metrics
  | poolDeposit
  | poolWithdraw
  deriving DecidableEq, Repr

/-- The methods of a route: `get` answers HEAD requests as well. -/
def Route.allows : Route → Method → Bool
  | .swapRequest, m | .offrampRequest, m | .offrampDeposit, m | .poolDeposit, m | .poolWithdraw, m =>
    m = .post
  | _, m => m = .get || m = .head

/-- The routes of `create_router`. -/
def route? : List String → Option Route
  | ["health"] => some .health
  | ["info"] => some .info
  | ["swap", "request"] => some .swapRequest
  | ["swap", "status", hash] => some (.swapStatus hash)
  | ["swap", "history"] => some .swapHistory
  | ["pool", "info"] => some .poolInfo
  | ["balance"] => some .balance
  | ["offramp", "request"] => some .offrampRequest
  | ["offramp", "deposit"] => some .offrampDeposit
  | ["offramp", "status", id] => some (.offrampStatus id)
  | ["offramp", "history"] => some .offrampHistory
  | ["metrics"] => some .metrics
  | ["pool", "deposit"] => some .poolDeposit
  | ["pool", "withdraw"] => some .poolWithdraw
  | _ => none

/-- How bodies are read, with the status of a body that is refused. -/
structure Decoders where
  swapRequest : String → Except ℕ SwapRequest
  offrampRequest : String → Except ℕ OfframpRequest
  offrampDeposit : String → Except ℕ OfframpDepositRequest
  poolAmount : String → Except ℕ ℤ

structure PoolState where
  totalLiquidity : ℤ
  reserved : ℤ
  available : ℤ
  invoices : ℕ
  offramps : ℕ
  deriving DecidableEq, Repr

structure Channel where
  channelId : String
  peerPubkey : String
  isReady : Bool
  valueSats : ℕ
  outboundMsat : ℕ
  inboundMsat : ℕ
  deriving DecidableEq, Repr

/-- An output that the sweeper tracks; `confirmed` is PendingThresholdConfirmations. -/
structure TrackedOutput where
  valueSats : ℕ
  confirmed : Bool
  deriving DecidableEq, Repr

structure HealthResponse where
  status : String
  cardano : Bool
  pendingSwaps : ℤ
  pendingOfframps : ℤ
  deriving DecidableEq, Repr

structure RelayInfoResponse where
  operatorAddress : String
  scriptAddress : String
  cbtcPolicyId : String
  cbtcAssetName : String
  deriving DecidableEq, Repr

structure PoolInfoResponse where
  totalLiquidity : ℤ
  reserved : ℤ
  available : ℤ
  activeInvoices : ℕ
  pendingSwaps : ℤ
  deriving DecidableEq, Repr

structure BalanceResponse where
  channelsOutboundMsat : ℕ
  channelsInboundMsat : ℕ
  onChainSweeperSats : ℕ
  sweeperPendingSats : ℕ
  sweeperConfirmedSats : ℕ
  channels : List Channel
  sweeperOutputs : ℕ
  walletSats : ℕ
  cbtc : PoolState
  deriving DecidableEq, Repr

structure PoolMoved where
  txHash : String
  amount : ℤ
  newTotalLiquidity : Option ℤ
  deriving DecidableEq, Repr

inductive Response where
  /-- A request that reaches no handler. -/
  | status (code : ℕ)
  | error (e : ApiError)
  | health (r : HealthResponse)
  | info (r : RelayInfoResponse)
  | swap (r : SwapResponse)
  | swapStatus (r : SwapStatusResponse)
  | swapHistory (r : List SwapStatusResponse)
  | poolInfo (r : PoolInfoResponse)
  | balance (r : BalanceResponse)
  | offramp (r : OfframpResponse)
  | offrampStatus (r : OfframpStatusResponse)
  | offrampHistory (r : List OfframpStatusResponse)
  | metrics (onramp offramp : StatusCounts)
  | poolMoved (r : PoolMoved)

/-! ## What the handlers do -/

/-- The two ways in which the operator moves funds. -/
inductive Move where
  | deposit
  | withdraw
  deriving DecidableEq, Repr

def Move.name : Move → String
  | .deposit => "deposit"
  | .withdraw => "withdraw"

def Move.route : Move → Route
  | .deposit => .poolDeposit
  | .withdraw => .poolWithdraw

/-- An operation of a handler. -/
inductive Op where
  /-- An operation of a task of the relay. -/
  | relay (o : LightningRelay.Op)
  | readDb
  | queryState
  | listChannels
  | trackedSpendableOutputs
  | walletBalanceSats
  | build (move : Move) (amount : ℤ)
  | submitTx (signedTx : String)
  deriving DecidableEq

/-- The answer to an operation. Building and submitting stand under one time limit: `none` where it is
over, whether or not the call has had its effect. -/
@[reducible] def Op.Resp : Op → Type
  | .relay o => o.Resp
  | .readDb => SwapDb
  | .queryState => Except CardanoError PoolState
  | .listChannels => List Channel
  | .trackedSpendableOutputs => List TrackedOutput
  | .walletBalanceSats => ℕ
  | .build _ _ | .submitTx _ => Option (Except CardanoError String)

abbrev Handler := Prog Op Op.Resp

abbrev perform (o : Op) : Handler o.Resp := Prog.perform o

/-- A handler that is a task of the relay. -/
def run {α : Type} (p : Relay α) : Handler α := p.embed Op.relay fun _ r => r

/-- What the API knows of its configuration. -/
structure ApiState where
  cfg : Config
  authToken : Option String
  info : RelayInfoResponse

/-- The token in an `authorization` header. -/
def bearer? (authorization : Option String) : Option String :=
  authorization.bind fun header =>
    if startsWith header "Bearer " then some (String.ofList (header.toList.drop "Bearer ".length)) else none

def verifyOperatorAuth (authorization authToken : Option String) : Except ApiError Unit :=
  match authToken with
  | none => .ok ()
  | some token =>
    if bearer? authorization = some token then .ok ()
    else .error ⟨401, "unauthorized: invalid or missing bearer token"⟩

def handleHealth : Handler HealthResponse := do
  let ok := (← perform .queryState).toOption.isSome
  let pendingSwaps := (← perform .readDb).countActiveSwaps
  let pendingOfframps := (← perform .readDb).countActiveOfframps
  pure ⟨if ok then "ok" else "degraded", ok, pendingSwaps, pendingOfframps⟩

/-- An error of a handler that gives no status code. -/
def plainError (message : String) : Response := .error ⟨200, message⟩

def handlePoolInfo : Handler Response := do
  match ← perform .queryState with
  | .ok s =>
    let db ← perform .readDb
    pure (.poolInfo ⟨s.totalLiquidity, s.reserved, s.available, s.invoices, db.countActiveSwaps⟩)
  | .error e => pure (plainError s!"failed to query pool: {e}")

/-- A sum of `u64`s in a release build. -/
def sumU64 (xs : List ℕ) : ℕ := xs.foldl (fun total x => (total + x) % 2 ^ 64) 0

def handleBalance : Handler Response := do
  match ← perform .queryState with
  | .error e => pure (plainError s!"failed to query cBTC pool: {e}")
  | .ok s =>
    let channels ← perform .listChannels
    let tracked ← perform .trackedSpendableOutputs
    let pending := sumU64 ((tracked.filter fun o => !o.confirmed).map (·.valueSats))
    let confirmed := sumU64 ((tracked.filter fun o => o.confirmed).map (·.valueSats))
    let walletSats ← perform .walletBalanceSats
    pure (.balance
      { channelsOutboundMsat := sumU64 (channels.map (·.outboundMsat))
        channelsInboundMsat := sumU64 (channels.map (·.inboundMsat))
        onChainSweeperSats := (pending + confirmed) % 2 ^ 64
        sweeperPendingSats := pending
        sweeperConfirmedSats := confirmed
        channels := channels
        sweeperOutputs := tracked.length
        walletSats := walletSats
        cbtc := s })

/-- Move funds between the operator and the pool. The time limit of 30 seconds holds for building and
submitting together. -/
def movePool (move : Move) (authorization authToken : Option String) (amount : ℤ) :
    Handler (Except ApiError PoolMoved) := do
  match verifyOperatorAuth authorization authToken with
  | .error e => pure (.error e)
  | .ok _ =>
  if amount ≤ 0 then pure (.error ⟨400, s!"{move.name} amount must be positive"⟩)
  else
  let timedOut : ApiError :=
    ⟨503, s!"{move.name} timed out — script UTxO may be contended, retry later"⟩
  match ← perform (.build move amount) with
  | none => pure (.error timedOut)
  | some (.error e) => pure (.error ⟨400, s!"{move.name} failed: build failed: {e}"⟩)
  | some (.ok signedTx) =>
  match ← perform (.submitTx signedTx) with
  | none => pure (.error timedOut)
  | some (.error e) => pure (.error ⟨400, s!"{move.name} failed: submit failed: {e}"⟩)
  | some (.ok txHash) =>
    let state ← perform .queryState
    pure (.ok ⟨txHash, amount, state.toOption.map (·.totalLiquidity)⟩)

def handlePoolDeposit : Option String → Option String → ℤ → Handler (Except ApiError PoolMoved) :=
  movePool .deposit

def handlePoolWithdraw : Option String → Option String → ℤ → Handler (Except ApiError PoolMoved) :=
  movePool .withdraw

/-! ## The router -/

/-- Run a handler on a body, or refuse the body. -/
def onBody {α β : Type} (decoded : Except ℕ α) (handler : α → Handler (Except ApiError β))
    (answer : β → Response) : Handler Response :=
  match decoded with
  | .error code => pure (.status code)
  | .ok a => do
    match ← handler a with
    | .ok b => pure (answer b)
    | .error e => pure (.error e)

def readStatus {α : Type} (answer : α → Response) : Except String α → Response
  | .ok a => answer a
  | .error e => plainError e

/-- The handler of a route. -/
def handle (D : Decoders) (st : ApiState) (http : Http) : Route → Handler Response
  | .health => do pure (.health (← handleHealth))
  | .info => pure (.info st.info)
  | .swapRequest =>
    onBody (D.swapRequest http.body) (fun req => run (handleSwapRequest st.cfg http.ip req)) .swap
  | .swapStatus hash => do pure (readStatus .swapStatus (handleSwapStatus (← perform .readDb) hash))
  | .swapHistory => do pure (.swapHistory (handleSwapHistory (← perform .readDb)))
  | .poolInfo => handlePoolInfo
  | .balance => handleBalance
  | .offrampRequest =>
    onBody (D.offrampRequest http.body) (fun req => run (handleOfframpRequest st.cfg http.ip req)) .offramp
  | .offrampDeposit =>
    onBody (D.offrampDeposit http.body) (fun req => run (handleOfframpDeposit st.cfg http.ip req)) .offramp
  | .offrampStatus id =>
    match Decimal.signed (2 ^ 63 - 1) id with
    | .error _ => pure (.status 400)
    | .ok id => do pure (readStatus .offrampStatus (handleOfframpStatus (← perform .readDb) id))
  | .offrampHistory => do pure (.offrampHistory (handleOfframpHistory (← perform .readDb)))
  | .metrics => do
    let swapCounts := (← perform .readDb).getSwapCounts
    let offrampCounts := (← perform .readDb).getOfframpCounts
    pure (.metrics (toStatusCounts swapCounts) (toStatusCounts offrampCounts))
  | .poolDeposit =>
    onBody (D.poolAmount http.body) (handlePoolDeposit http.authorization st.authToken) .poolMoved
  | .poolWithdraw =>
    onBody (D.poolAmount http.body) (handlePoolWithdraw http.authorization st.authToken) .poolMoved

/-- The answer to a request: the limit on bodies and CORS stand before the routes. -/
def serve (D : Decoders) (st : ApiState) (http : Http) : Handler Response :=
  if http.body.utf8ByteSize > 16 * 1024 then pure (.status 413)
  else if http.method = .options then pure (.status 200)
  else
    match route? http.path with
    | none => pure (.status 404)
    | some route =>
      if route.allows http.method then handle D st http route else pure (.status 405)

/-! ## What a request can do -/

section

variable (D : Decoders) (st : ApiState) (http : Http)

/-- The request has the operator's token, if there is one. -/
def Authorized : Prop := ∀ token, st.authToken = some token → http.authorization = some ("Bearer " ++ token)

/-- The request asks for funds to be moved, and may. -/
structure Moves (move : Move) (amount : ℤ) : Prop where
  route : route? http.path = some move.route
  method : http.method = .post
  body : D.poolAmount http.body = .ok amount
  positive : 0 < amount
  authorized : Authorized st http

/-- The request is one for the task of the relay. -/
inductive Asks : Call → Prop where
  | swap {req : SwapRequest} : route? http.path = some .swapRequest → http.method = .post →
      D.swapRequest http.body = .ok req → Asks (.handleSwapRequest http.ip req)
  | offramp {req : OfframpRequest} : route? http.path = some .offrampRequest → http.method = .post →
      D.offrampRequest http.body = .ok req → Asks (.handleOfframpRequest http.ip req)
  | deposit {req : OfframpDepositRequest} : route? http.path = some .offrampDeposit →
      http.method = .post → D.offrampDeposit http.body = .ok req →
      Asks (.handleOfframpDeposit http.ip req)

/-- The operation reads, or is one that the request may cause. -/
def Permitted : Op → Prop
  | .relay o => ∃ c, Asks D http c ∧ c.performs o = true
  | .build move amount => Moves D st http move amount
  | .submitTx _ => ∃ move amount, Moves D st http move amount
  | _ => True

/-- The operations of tasks of the relay in a run. -/
def relayed : List (Sigma Op.Resp) → List (Sigma LightningRelay.Op.Resp)
  | [] => []
  | ⟨.relay o, r⟩ :: tr => ⟨o, r⟩ :: relayed tr
  | _ :: tr => relayed tr

/-- The task of the relay that the run of a request runs, if any, is one that the request asks for: it
handles the decoded body. -/
def RunsAsked (tr : List (Sigma Op.Resp)) : Prop :=
  relayed tr = [] ∨ ∃ c q, Asks D http c ∧ (LightningRelay.body st.cfg c).Replays (relayed tr) q

end

section

variable {D : Decoders} {st : ApiState} {http : Http}

theorem authorized_of_verify (h : verifyOperatorAuth http.authorization st.authToken = .ok ()) :
    Authorized st http := by
  intro token htoken
  rw [htoken, verifyOperatorAuth] at h
  split_ifs at h with hbearer
  obtain ⟨header, hheader, hstrip⟩ := Option.bind_eq_some_iff.1 hbearer
  split_ifs at hstrip with hstarts
  obtain rfl := Option.some.inj hstrip
  obtain ⟨rest, hrest⟩ := List.isPrefixOf_iff_prefix.1 hstarts
  rw [hheader]
  refine congrArg some (String.toList_inj.1 ?_)
  rw [String.toList_append, String.toList_ofList (l := header.toList.drop "Bearer ".length), ← hrest,
    List.drop_left' (show "Bearer ".toList.length = "Bearer ".length from rfl)]

theorem status_of_verify {authorization authToken : Option String} {e : ApiError}
    (h : verifyOperatorAuth authorization authToken = .error e) : e.status = 401 := by
  unfold verifyOperatorAuth at h
  split at h
  · cases h
  · split_ifs at h
    obtain rfl := Except.error.inj h
    rfl

theorem permitted_movePool (move : Move) {amount : ℤ} (hroute : route? http.path = some move.route)
    (hmethod : http.method = .post) (hbody : D.poolAmount http.body = .ok amount) :
    (movePool move http.authorization st.authToken amount).Only (Permitted D st http) := by
  unfold movePool
  rcases hverify : verifyOperatorAuth http.authorization st.authToken with e | _
  · exact only_pure _
  dsimp only
  split_ifs with hamount
  · exact only_pure _
  have hmoves : Moves D st http move amount :=
    ⟨hroute, hmethod, hbody, by omega, authorized_of_verify hverify⟩
  refine only_perform hmoves ?_
  rintro (_ | e | signedTx)
  · exact only_pure _
  · exact only_pure _
  refine only_perform ⟨move, amount, hmoves⟩ ?_
  rintro (_ | e | txHash)
  · exact only_pure _
  · exact only_pure _
  exact only_perform trivial fun _ => only_pure _

theorem permitted_run {α : Type} {c : Call} {p : Relay α} (hc : Asks D http c)
    (h : p.Only fun o => c.performs o = true) : (run p).Only (Permitted D st http) :=
  h.embed fun _ ho => ⟨c, hc, ho⟩

theorem permitted_onBody {α β : Type} {decoded : Except ℕ α} {handler : α → Handler (Except ApiError β)}
    {answer : β → Response} (h : ∀ a, decoded = .ok a → (handler a).Only (Permitted D st http)) :
    (onBody decoded handler answer).Only (Permitted D st http) := by
  rcases hd : decoded with code | a
  · exact only_pure _
  · refine (h a hd).bind ?_
    rintro (e | b) <;> exact only_pure _

theorem permitted_handle {route : Route} (hroute : route? http.path = some route)
    (hallows : route.allows http.method = true) : (handle D st http route).Only (Permitted D st http) := by
  cases route with
  | health =>
    exact only_perform trivial fun _ => only_perform trivial fun _ => only_perform trivial fun _ =>
      only_pure _
  | info => exact only_pure _
  | swapRequest =>
    have hmethod : http.method = .post := of_decide_eq_true hallows
    exact permitted_onBody fun req hreq =>
      permitted_run (.swap hroute hmethod hreq) (Footprint.handleSwapRequest st.cfg http.ip req)
  | swapStatus hash => exact only_perform trivial fun _ => only_pure _
  | swapHistory => exact only_perform trivial fun _ => only_pure _
  | poolInfo =>
    refine only_perform trivial ?_
    rintro (e | s)
    · exact only_pure _
    · exact only_perform trivial fun _ => only_pure _
  | balance =>
    refine only_perform trivial ?_
    rintro (e | s)
    · exact only_pure _
    · exact only_perform trivial fun _ => only_perform trivial fun _ => only_perform trivial fun _ =>
        only_pure _
  | offrampRequest =>
    have hmethod : http.method = .post := of_decide_eq_true hallows
    exact permitted_onBody fun req hreq =>
      permitted_run (.offramp hroute hmethod hreq) (Footprint.handleOfframpRequest st.cfg http.ip req)
  | offrampDeposit =>
    have hmethod : http.method = .post := of_decide_eq_true hallows
    exact permitted_onBody fun req hreq =>
      permitted_run (.deposit hroute hmethod hreq) (Footprint.handleOfframpDeposit st.cfg http.ip req)
  | offrampStatus id =>
    rw [handle]
    rcases Decimal.signed (2 ^ 63 - 1) id with e | id
    · exact only_pure _
    · exact only_perform trivial fun _ => only_pure _
  | offrampHistory => exact only_perform trivial fun _ => only_pure _
  | metrics => exact only_perform trivial fun _ => only_perform trivial fun _ => only_pure _
  | poolDeposit =>
    have hmethod : http.method = .post := of_decide_eq_true hallows
    exact permitted_onBody fun amount hbody => permitted_movePool .deposit hroute hmethod hbody
  | poolWithdraw =>
    have hmethod : http.method = .post := of_decide_eq_true hallows
    exact permitted_onBody fun amount hbody => permitted_movePool .withdraw hroute hmethod hbody

/-- A run in which no operation is one of a task of the relay. -/
theorem relayed_eq_nil {tr : List (Sigma Op.Resp)} (h : ∀ x ∈ tr, ∀ o, x.1 ≠ .relay o) :
    relayed tr = [] := by
  induction tr with
  | nil => rfl
  | cons x tr ih =>
    obtain ⟨o, r⟩ := x
    cases o with
    | relay o => exact absurd rfl (h _ List.mem_cons_self o)
    | _ => exact ih fun y hy => h y (List.mem_cons_of_mem _ hy)

/-- A handler that is a task of the relay performs the operations of the task. -/
theorem replays_run {α β : Type} {p : Relay α} {f : α → Handler β} (hf : ∀ a, ∃ b, f a = pure b)
    {tr : List (Sigma Op.Resp)} {q : Handler β} (h : (run p >>= f).Replays tr q) :
    ∃ q', (discard p).Replays (relayed tr) q' := by
  induction p generalizing tr with
  | pure a =>
    obtain ⟨b, hb⟩ := hf a
    replace h : (f a).Replays tr q := h
    rw [hb] at h
    cases h
    exact ⟨_, .refl⟩
  | op o k ih =>
    generalize hp : (run (.op o k) >>= f) = p' at h
    cases h with
    | refl => exact ⟨_, .refl⟩
    | @step _ _ r tr _ h =>
      cases hp
      obtain ⟨q', hq'⟩ := ih r h
      exact ⟨q', .step hq'⟩

theorem runsAsked_onBody {α β : Type} {decoded : Except ℕ α} {p : α → Relay (Except ApiError β)}
    {answer : β → Response} {tr : List (Sigma Op.Resp)} {q : Handler Response}
    (h : (onBody decoded (fun a => run (p a)) answer).Replays tr q)
    (hc : ∀ a, decoded = .ok a → ∃ c, Asks D http c ∧ LightningRelay.body st.cfg c = discard (p a)) :
    RunsAsked D st http tr := by
  rcases hd : decoded with code | a
  · rw [hd] at h
    cases h
    exact Or.inl rfl
  · rw [hd] at h
    obtain ⟨c, hasks, hbody⟩ := hc a hd
    obtain ⟨q', hq'⟩ := replays_run (by rintro (e | b) <;> exact ⟨_, rfl⟩) h
    exact Or.inr ⟨c, q', hasks, hbody ▸ hq'⟩

theorem runsAsked_handle {route : Route} (hroute : route? http.path = some route)
    (hallows : route.allows http.method = true) {tr : List (Sigma Op.Resp)} {q : Handler Response}
    (h : (handle D st http route).Replays tr q) : RunsAsked D st http tr := by
  have hnone : (∀ c, ¬ Asks D http c) → RunsAsked D st http tr := by
    refine fun hasks => Or.inl (relayed_eq_nil fun x hx o ho => ?_)
    have hp := (permitted_handle hroute hallows).of_mem h hx
    rw [ho] at hp
    obtain ⟨c, hc, -⟩ := hp
    exact hasks c hc
  cases route with
  | swapRequest =>
    have hmethod : http.method = .post := of_decide_eq_true hallows
    exact runsAsked_onBody h fun req hreq => ⟨_, .swap hroute hmethod hreq, rfl⟩
  | offrampRequest =>
    have hmethod : http.method = .post := of_decide_eq_true hallows
    exact runsAsked_onBody h fun req hreq => ⟨_, .offramp hroute hmethod hreq, rfl⟩
  | offrampDeposit =>
    have hmethod : http.method = .post := of_decide_eq_true hallows
    exact runsAsked_onBody h fun req hreq => ⟨_, .deposit hroute hmethod hreq, rfl⟩
  | _ =>
    refine hnone fun c hc => ?_
    cases hc <;> simp_all

end

end Rest

/-- What a request to the REST API can do, whatever its operations are answered.  A transaction that
moves funds into or out of the pool is built, with the amount of the request, and submitted only for a
request to the endpoint for it that has the operator's token and a positive amount.  Operations on swaps
are performed only for requests to their three endpoints, and are those of the handler on the decoded
body; every other operation reads. -/
theorem request_permitted (D : Rest.Decoders) (st : Rest.ApiState) (http : Rest.Http) :
    (Rest.serve D st http).Only (Rest.Permitted D st http) ∧
      ∀ tr q, (Rest.serve D st http).Replays tr q → Rest.RunsAsked D st http tr := by
  have hpure : ∀ {tr q} {r : Rest.Response}, (pure r : Rest.Handler Rest.Response).Replays tr q →
      Rest.RunsAsked D st http tr := by
    intro tr q r h
    cases h
    exact Or.inl rfl
  unfold Rest.serve
  split_ifs
  · exact ⟨only_pure _, fun _ _ => hpure⟩
  · exact ⟨only_pure _, fun _ _ => hpure⟩
  rcases hroute : Rest.route? http.path with _ | route
  · exact ⟨only_pure _, fun _ _ => hpure⟩
  dsimp only
  split_ifs with hallows
  · exact ⟨Rest.permitted_handle hroute hallows, fun _ _ => Rest.runsAsked_handle hroute hallows⟩
  · exact ⟨only_pure _, fun _ _ => hpure⟩

/-- What the answer to a request to move funds says about its transaction.  A success names the hash
with which the one transaction, built for the amount of the request, was accepted.  An error says that no
submission was answered with a hash; its status is 503 just where the time limit was over, and with
status 401 or for an amount that is not positive nothing was done.  A transaction that was submitted all
the same may have been accepted: that is open after a 503, and after a 400 that says so, and after no
other error. -/
theorem pool_move_answered {move : Rest.Move} {authorization authToken : Option String} {amount : ℤ}
    {tr : List (Sigma Rest.Op.Resp)} {answer : Except ApiError Rest.PoolMoved}
    (h : (Rest.movePool move authorization authToken amount).Replays tr (.pure answer)) :
    (∀ moved, answer = .ok moved → moved.amount = amount ∧ 0 < amount ∧ ∃ signedTx state,
      tr = [⟨.build move amount, some (.ok signedTx)⟩, ⟨.submitTx signedTx, some (.ok moved.txHash)⟩,
        ⟨.queryState, state⟩]) ∧
    ∀ e, answer = .error e →
      (∀ signedTx txHash, ⟨.submitTx signedTx, some (.ok txHash)⟩ ∉ tr) ∧
      (e.status = 503 ↔ ⟨.build move amount, none⟩ ∈ tr ∨ ∃ signedTx, ⟨.submitTx signedTx, none⟩ ∈ tr) ∧
      (e.status = 401 ∨ amount ≤ 0 → tr = []) ∧
      ((∃ signedTx r, ⟨.submitTx signedTx, r⟩ ∈ tr) →
        e.status = 503 ∨ ∃ reason : CardanoError, e = ⟨400, s!"{move.name} failed: submit failed: {reason}"⟩) := by
  unfold Rest.movePool at h
  rcases hverify : Rest.verifyOperatorAuth authorization authToken with e | _
  · rw [hverify] at h
    obtain ⟨rfl, rfl⟩ := h.of_pure
    refine ⟨nofun, fun e' he' => ?_⟩
    obtain rfl := Except.error.inj he'
    simp [Rest.status_of_verify hverify]
  rw [hverify] at h
  dsimp only at h
  split_ifs at h with hamount
  · obtain ⟨rfl, rfl⟩ := h.of_pure
    refine ⟨nofun, fun e' he' => ?_⟩
    obtain rfl := Except.error.inj he'
    simp
  -- the limit is over, the call fails, or there is a signed transaction
  obtain ⟨_ | e | signedTx, rest, rfl, h₁⟩ := h.of_op
  · obtain ⟨rfl, rfl⟩ := h₁.of_pure
    refine ⟨nofun, fun e' he' => ?_⟩
    obtain rfl := Except.error.inj he'
    simp [hamount]
  · obtain ⟨rfl, rfl⟩ := h₁.of_pure
    refine ⟨nofun, fun e' he' => ?_⟩
    obtain rfl := Except.error.inj he'
    simp [hamount]
  obtain ⟨_ | e | txHash, rest, rfl, h₂⟩ := h₁.of_op
  · obtain ⟨rfl, rfl⟩ := h₂.of_pure
    refine ⟨nofun, fun e' he' => ?_⟩
    obtain rfl := Except.error.inj he'
    simp [hamount]
  · obtain ⟨rfl, rfl⟩ := h₂.of_pure
    refine ⟨nofun, fun e' he' => ?_⟩
    obtain rfl := Except.error.inj he'
    simp [hamount]
  obtain ⟨state, rest, rfl, h₃⟩ := h₂.of_op
  obtain ⟨rfl, rfl⟩ := h₃.of_pure
  refine ⟨fun moved hmoved => ?_, nofun⟩
  obtain rfl := Except.ok.inj hmoved
  exact ⟨rfl, by omega, signedTx, state, rfl⟩

theorem pool_move_answered_deposit :
    ∃ tr moved, (Rest.movePool .deposit (some "Bearer secret") (some "secret") 5).Replays tr
        (.pure (.ok moved)) ∧
      moved.txHash = "hash" ∧ moved.amount = 5 ∧ (0 : ℤ) < 5 ∧ ∃ signedTx state,
        tr = [⟨.build .deposit 5, some (.ok signedTx)⟩, ⟨.submitTx signedTx, some (.ok "hash")⟩,
          ⟨.queryState, state⟩] := by
  have hrun : (Rest.movePool .deposit (some "Bearer secret") (some "secret") 5).Replays
      [⟨.build .deposit 5, some (.ok "tx")⟩, ⟨.submitTx "tx", some (.ok "hash")⟩,
        ⟨.queryState, .error "timeout"⟩] (.pure (.ok ⟨"hash", 5, none⟩)) :=
    .step (.step (.step .refl))
  exact ⟨_, _, hrun, rfl, (pool_move_answered hrun).1 _ rfl⟩

end LightningRelay
