import LightningRelay.Async.Prog
import LightningRelay.Mapping

/-!
# The operations of the relay

What the relay's tasks do to the outside: statements on the swap database, calls of the Cardano
operator (`CardanoOperator` of `cardano_ops.rs` and the two methods of `OperatorAgent` that are
called beside it), calls of LDK's `ChannelManager`, the payment stores, the clock, and the start
of other tasks.  Each operation is one point of interleaving.

Operator calls carry the row on whose behalf they are made (`About`), and a signed transaction
carries what it was built for (`TxKind`).  Neither is passed to the operator: they only let the
log of a run say which row a query, a payout or a cancellation was about.
-/

set_option autoImplicit false

namespace LightningRelay

open Async

/-! ## Cardano -/

/-- An error of the Cardano client, as the text that `Display` prints. -/
abbrev CardanoError := String

/-- An entry of the LM contract for an onramp. -/
structure Invoice where
  invoiceId : ℤ
  amount : ℤ
  owner : String
  timestamp : ℤ
  expiresAt : ℤ
  deriving DecidableEq, Repr

/-- An entry of the LM contract for an offramp. -/
structure Offramp where
  offrampId : ℤ
  amount : ℤ
  paymentHash : String
  refundAddress : String
  expiresAt : ℤ
  deriving DecidableEq, Repr

/-- The on-chain state as a query answers it; `available` is the value of its method of that
name. -/
structure ContractState where
  invoices : List Invoice
  offramps : List Offramp
  available : ℤ
  deriving DecidableEq, Repr

/-- What a signed transaction was built for. -/
inductive TxKind where
  | createInvoice
  | fulfillInvoice (invoiceId : ℤ)
  | cancelInvoice (invoiceId : ℤ)
  | createOfframp
  | fulfillOfframp (offrampId : ℤ)
  | cancelOfframp (offrampId : ℤ)
  | sendCbtc
  | withdraw
  deriving DecidableEq, Repr

structure SignedTx where
  kind : TxKind
  hex : String
  deriving DecidableEq, Repr

/-- A call of the Cardano operator. -/
inductive OperatorCall where
  | queryState
  | createInvoice (amount : ℤ) (ownerPkh : String) (timestamp expiresAt : ℤ)
  | fulfillInvoice (invoice : Invoice) (ownerAddress : String)
  | cancelInvoice (invoiceId : ℤ)
  | createOfframp (amount : ℤ) (paymentHash refundAddress : String) (expiresAt : ℤ)
  | fulfillOfframp (offramp : Offramp)
  | cancelOfframp (offrampId : ℤ)
  | sendCbtc (targetAddress : String) (amount : ℤ)
  | withdraw (amount : ℤ)
  | verifyCbtcReceived (cbtcTxHash : String) (amount : ℤ)
  | submitTx (tx : SignedTx)
  deriving DecidableEq, Repr

/-- What a successful call returns: a building call the hex text of the signed transaction, a
creating call the new id with it, a submission the transaction's hash. -/
@[reducible] def OperatorCall.Val : OperatorCall → Type
  | .queryState => ContractState
  | .createInvoice _ _ _ _ | .createOfframp _ _ _ _ => ℤ × String
  | .fulfillInvoice _ _ | .cancelInvoice _ | .fulfillOfframp _ | .cancelOfframp _
  | .sendCbtc _ _ | .withdraw _ | .submitTx _ => String
  | .verifyCbtcReceived _ _ => Bool

/-- The row that an operator call is made for. -/
inductive About where
  | swap (paymentHash : String)
  | offramp (offrampId : ℤ)
  | pool
  deriving DecidableEq, Repr

/-! ## Lightning -/

inductive Currency where
  | bitcoin
  | bitcoinTestnet
  | regtest
  | simnet
  | signet
  deriving DecidableEq, Repr

/-- The text of the derived `Debug`. -/
def Currency.debugStr : Currency → String
  | .bitcoin => "Bitcoin"
  | .bitcoinTestnet => "BitcoinTestnet"
  | .regtest => "Regtest"
  | .simnet => "Simnet"
  | .signet => "Signet"

/-- A parsed BOLT11 invoice: the parts that the relay reads. The payment hash is its lowercase hex
text; LDK's payment id is the same 32 bytes. -/
structure Bolt11Invoice where
  text : String
  paymentHash : String
  paymentSecret : String
  currency : Currency
  amountMilliSatoshis : Option ℕ
  deriving DecidableEq, Repr

/-- A call of the channel manager. The payment id of a payment is its payment hash. -/
inductive LdkCall where
  | payForBolt11Invoice (invoice : Bolt11Invoice) (amountMsats : Option ℕ)
  | createBolt11Invoice (amountMsats : ℕ) (description : String) (expirySecs : ℕ)
  | claimFunds (paymentHash preimage : String)
  deriving DecidableEq, Repr

@[reducible] def LdkCall.Ret : LdkCall → Type
  | .payForBolt11Invoice _ _ => Except String Unit
  | .createBolt11Invoice _ _ _ => Except String Bolt11Invoice
  | .claimFunds _ _ => Unit

inductive HTLCStatus where
  | pending
  | succeeded
  | failed
  deriving DecidableEq, Repr

/-- An entry of the inbound or outbound payment store. -/
structure PaymentInfo where
  preimage : Option String
  secret : Option String
  status : HTLCStatus
  amtMsat : Option ℕ
  deriving DecidableEq, Repr

/-- A change of a payment store under its lock. -/
inductive StoreCall where
  | insertInbound (paymentHash : String) (info : PaymentInfo)
  | claimInbound (paymentHash : String) (preimage secret : Option String) (amountMsat : ℕ)
  | insertOutbound (paymentId : String) (info : PaymentInfo)
  | succeedOutbound (paymentId preimage : String)
  | failOutbound (paymentId : String)
  deriving DecidableEq, Repr

/-- Marking an outbound payment failed tells whether there is an entry for it. -/
@[reducible] def StoreCall.Ret : StoreCall → Type
  | .failOutbound _ => Bool
  | _ => Unit

/-- The events of LDK that concern swaps; the others do not touch their state. -/
inductive LdkEvent where
  | paymentClaimable (paymentHash : String) (preimage : Option String)
  | paymentClaimed (paymentHash : String) (preimage secret : Option String) (amountMsat : ℕ)
  | paymentSent (paymentId : Option String) (paymentHash preimage : String)
  | paymentFailed (paymentId : String) (paymentHash : Option String)
  deriving DecidableEq, Repr

/-! ## Requests and tasks -/

structure SwapRequest where
  amountCbtc : ℤ
  cardanoAddress : String
  deriving DecidableEq, Repr

structure OfframpRequest where
  bolt11 : String
  amountCbtc : ℤ
  cardanoAddress : String
  deriving DecidableEq, Repr

structure OfframpDepositRequest where
  offrampId : ℤ
  cbtcTxHash : String
  deriving DecidableEq, Repr

/-- What a task was started on: the start of the process, a background loop, a request of the REST
API, an event of LDK, a handler spawned for one, or a command of the CLI. -/
inductive Call where
  | startLdk
  | monitorExpiredSwaps
  | monitorExpiredOfframps
  | handleSwapRequest (ip : String) (req : SwapRequest)
  | handleOfframpRequest (ip : String) (req : OfframpRequest)
  | handleOfframpDeposit (ip : String) (req : OfframpDepositRequest)
  | handleLdkEvents (event : LdkEvent)
  | fulfillSwap (paymentHash : String)
  | completeOfframp (paymentHash preimage : String)
  | handleOfframpPaymentFailed (paymentHash : String)
  | sendpayment (invoice : String) (amountMsat : Option ℕ)
  | cancelExpired
  | cancelExpiredOfframps
  deriving DecidableEq, Repr

/-- Functions whose calls the log records. -/
inductive Fn where
  | sendPayment (paymentHash : String)
  deriving DecidableEq, Repr

/-- An operation of a task. -/
inductive Op where
  /-- A method of `SwapDb`. -/
  | db (c : DbCall)
  /-- A method of the Cardano operator, awaited. -/
  | operator (about : About) (c : OperatorCall)
  | ldk (c : LdkCall)
  | store (c : StoreCall)
  /-- Write a payment store to its file, awaited. -/
  | persist (file : String)
  /-- Read the clock, in milliseconds. -/
  | now
  | sleep (secs : ℕ)
  | rateLimit (ip : String)
  | spawn (c : Call)
  /-- The entry of a function; no effect. -/
  | enter (f : Fn)
  /-- The REST API and the CLI start to accept requests. -/
  | serve
  /-- A failed `expect` or `unwrap`: with `panic = "abort"` the process goes down. -/
  | panic (msg : String)
  deriving DecidableEq, Repr

/-- The answer to an operation. -/
@[reducible] def Op.Resp : Op → Type
  | .db c => c.Ret
  | .operator _ c => Except CardanoError c.Val
  | .ldk c => c.Ret
  | .store c => c.Ret
  | .now => ℤ
  | .rateLimit _ => Bool
  | .persist _ | .sleep _ | .spawn _ | .enter _ | .serve => Unit
  | .panic _ => Empty

/-- A program of the relay. -/
abbrev Relay := Prog Op Op.Resp

/-! ## Shorthands for the program texts -/

abbrev db (c : DbCall) : Relay c.Ret := Prog.perform (Op.db c)

abbrev operator (about : About) (c : OperatorCall) : Relay (Except CardanoError c.Val) :=
  Prog.perform (Op.operator about c)

abbrev ldk (c : LdkCall) : Relay c.Ret := Prog.perform (Op.ldk c)

abbrev store (c : StoreCall) : Relay c.Ret := Prog.perform (Op.store c)

abbrev persist (file : String) : Relay Unit := Prog.perform (Op.persist file)

abbrev currentTimestampMs : Relay ℤ := Prog.perform Op.now

abbrev sleep (secs : ℕ) : Relay Unit := Prog.perform (Op.sleep secs)

abbrev rateLimit (ip : String) : Relay Bool := Prog.perform (Op.rateLimit ip)

abbrev spawn (c : Call) : Relay Unit := Prog.perform (Op.spawn c)

abbrev enter (f : Fn) : Relay Unit := Prog.perform (Op.enter f)

abbrev serve : Relay Unit := Prog.perform Op.serve

/-- A failed `expect`. -/
def panic {α : Type} (msg : String) : Relay α := .op (.panic msg) fun e => nomatch e

end LightningRelay
