import LightningRelay.Api
import LightningRelay.Async.Embed
import LightningRelay.Background
import LightningRelay.Codec.Text
import LightningRelay.HexUtils

/-!
# The command line interface

`poll_for_user_input` of `cli/mod.rs` reads lines and performs a command for each; `sendpayment` on an
offer without an amount of the user's reads further lines until one confirms or declines.  The text
that is typed is an argument of `pollForUserInput`; everything else that a session does is an operation.
-/

set_option autoImplicit false

namespace LightningRelay

open Async Codec

namespace Cli

/-! ## The operations of a session -/

/-- The hex text of a compressed public key. -/
abbrev PublicKey := String

abbrev SocketAddr := String

/-- The amount of an offer; of an amount in a currency only the `Debug` text is read. -/
inductive OfferAmount where
  | bitcoin (amountMsats : ℕ)
  | currency (debug : String)
  deriving DecidableEq, Repr

structure Offer where
  text : String
  amount : Option OfferAmount
  deriving DecidableEq, Repr

abbrev HumanReadableName := String

/-- A node of the network graph: its key, and the features of its announcement. -/
structure GraphNode where
  pubkey : Option PublicKey
  features : Option (Bool × Bool)
  deriving DecidableEq, Repr

/-- What a command prints without changing anything. -/
inductive Report where
  | help
  | pool (state : ContractState)
  | channels
  | payments
  | node
  | peers
  | balance
  deriving DecidableEq, Repr

/-- An operation of the session. -/
inductive Op where
  /-- An operation that other tasks of the relay perform as well. -/
  | relay (o : LightningRelay.Op)
  | print (text : String)
  | report (r : Report)
  | randomBytes
  | sign (message : List UInt8)
  | peerByNodeId (pubkey : PublicKey)
  | toSocketAddrs (addr : String)
  | doConnectPeer (pubkey : PublicKey) (addr : SocketAddr)
  | listChannels
  | disconnectByNodeId (pubkey : PublicKey)
  | createChannel (peer : PublicKey) (amtSat : ℕ) (announce withAnchors : Bool)
  | closeChannel (channelId : List UInt8) (peer : PublicKey)
  | forceCloseBroadcastingLatestTxn (channelId : List UInt8) (peer : PublicKey)
  | createOfferBuilder
  | buildOffer (amountMsats : Option ℕ)
  | networkNodes
  | payForOffer (offer : Offer) (amtMsat : ℕ) (paymentId : String)
  | payForOfferFromHumanReadableName (hrn : HumanReadableName) (amtMsat : ℕ) (paymentId : String)
      (dnsResolvers : List PublicKey)
  | sendSpontaneousPayment (preimage paymentId : String) (payee : PublicKey) (amtMsat : ℕ)
  | deposit (amount : ℤ)
  | submitDeposit (txHex : String)
  deriving DecidableEq

/-- The answer to an operation. `listChannels` answers the peers of the channels. -/
@[reducible] def Op.Resp : Op → Type
  | .relay o => o.Resp
  | .print _ | .report _ | .disconnectByNodeId _ => Unit
  | .randomBytes | .sign _ => String
  | .peerByNodeId _ | .doConnectPeer _ _ => Bool
  | .toSocketAddrs _ => Option (List SocketAddr)
  | .listChannels => List PublicKey
  | .createChannel _ _ _ _ | .closeChannel _ _ | .forceCloseBroadcastingLatestTxn _ _
  | .createOfferBuilder | .payForOffer _ _ _ | .payForOfferFromHumanReadableName _ _ _ _
  | .sendSpontaneousPayment _ _ _ _ => Except String Unit
  | .buildOffer _ => Except String String
  | .networkNodes => List GraphNode
  | .deposit _ | .submitDeposit _ => Except CardanoError String

/-- A program of the session. -/
abbrev Session := Prog Op Op.Resp

/-- A program of the relay as part of the session. -/
def run {α : Type} (p : Relay α) : Session α := p.embed Op.relay fun _ r => r

abbrev perform (o : Op) : Session o.Resp := Prog.perform o

abbrev println (text : String) : Session Unit := perform (.print (text ++ "\n"))

/-- The functions of the crates that the session reads text with, and the SHA-256 of a preimage. -/
structure Parsers where
  publicKeyFromSlice : List UInt8 → Option PublicKey
  publicKeyFromStr : String → Except String PublicKey
  offerFromStr : String → Option Offer
  humanReadableName : String → Option HumanReadableName
  sha256 : String → String

/-! ## Peers -/

def toCompressedPubkey (P : Parsers) (hex : String) : Option PublicKey :=
  if hex.utf8ByteSize ≠ 33 * 2 then none
  else (HexUtils.toVec hex).bind P.publicKeyFromSlice

/-- The pieces before and after the first separator of `pubkey@host:port`. -/
def pubkeyAndAddr (peer : String) : String × Option String :=
  match Text.split '@' peer with
  | [] => ("", none)
  | pubkey :: rest => (pubkey, rest.head?)

def connectPeerIfNecessary (pubkey : PublicKey) (addr : SocketAddr) : Session Bool := do
  if ← perform (.peerByNodeId pubkey) then pure true
  else
    let ok ← perform (.doConnectPeer pubkey addr)
    if !ok then println "ERROR: failed to connect to peer"
    pure ok

def parsePeerInfo (P : Parsers) (peer : String) : Session (Except String (PublicKey × SocketAddr)) := do
  match (pubkeyAndAddr peer).2 with
  | none =>
    pure (.error "ERROR: incorrectly formatted peer info. Should be formatted as: `pubkey@host:port`")
  | some addrStr =>
  match (← perform (.toSocketAddrs addrStr)).bind List.head? with
  | none => pure (.error "ERROR: couldn't parse pubkey@host:port into a socket address")
  | some addr =>
  match toCompressedPubkey P (pubkeyAndAddr peer).1 with
  | none => pure (.error "ERROR: unable to parse given pubkey for node")
  | some pubkey => pure (.ok (pubkey, addr))

/-- Connect to a peer that is given with its address. -/
def connectTo (P : Parsers) (peer : String) : Session (Option PublicKey) := do
  match ← parsePeerInfo P peer with
  | .error e => do
    println s!"\"{e}\""
    pure none
  | .ok (pubkey, addr) =>
    if ← connectPeerIfNecessary pubkey addr then pure (some pubkey) else pure none

def connectpeer (P : Parsers) : List String → Session Unit
  | [] => println "ERROR: connectpeer requires peer connection info: `connectpeer pubkey@host:port`"
  | peer :: _ => do
    match ← connectTo P peer with
    | some pubkey => println s!"SUCCESS: connected to peer {pubkey}"
    | none => pure ()

def doDisconnectPeer (pubkey : PublicKey) : Session Bool := do
  if (← perform .listChannels).contains pubkey then
    println "Error: Node has an active channel with this peer, close any channels first"
    pure false
  else if ← perform (.peerByNodeId pubkey) then
    perform (.disconnectByNodeId pubkey)
    pure true
  else
    println s!"Error: Could not find peer {pubkey}"
    pure false

def disconnectpeer (P : Parsers) : List String → Session Unit
  | [] => println "ERROR: disconnectpeer requires peer public key: `disconnectpeer <peer_pubkey>`"
  | peer :: _ =>
    match P.publicKeyFromStr peer with
    | .error e => println s!"ERROR: {e}"
    | .ok pubkey => do
      if ← doDisconnectPeer pubkey then println s!"SUCCESS: disconnected from peer {pubkey}"

/-! ## Channels -/

def maxU64 : ℕ := 2 ^ 64 - 1

def openChannel (peer : PublicKey) (amtSat : ℕ) (announce withAnchors : Bool) : Session Unit := do
  match ← perform (.createChannel peer amtSat announce withAnchors) with
  | .ok _ => println s!"EVENT: initiated channel with peer {peer}. "
  | .error e => println s!"ERROR: failed to open channel: {e}"

/-- One flag of `openchannel`, `none` where it is not one. -/
def flag? (flags : Bool × Bool) : String → Option (Bool × Bool)
  | "--public" | "--public=true" => some (true, flags.2)
  | "--public=false" => some (false, flags.2)
  | "--with-anchors" | "--with-anchors=true" => some (flags.1, true)
  | "--with-anchors=false" => some (flags.1, false)
  | _ => none

/-- The flags of `openchannel`. One that is not a flag is reported and passed over: the `continue`
there is that of the loop over the flags. -/
def readFlags (flags : Bool × Bool) : List String → Session (Bool × Bool)
  | [] => pure flags
  | word :: words =>
    match flag? flags word with
    | some flags' => readFlags flags' words
    | none => do
      println "ERROR: invalid boolean flag format. Valid formats: `--option`, `--option=true` `--option=false`"
      readFlags flags words

/-- The peer of `openchannel` is connected, or could be connected to. -/
def reachPeer (P : Parsers) (peer : String) (pubkey : PublicKey) : Session Bool := do
  match (pubkeyAndAddr peer).2 with
  | none =>
    if ← perform (.peerByNodeId pubkey) then pure true
    else
      println "ERROR: Peer address not provided and peer is not connected"
      pure false
  | some _ => pure (← connectTo P peer).isSome

def openchannel (P : Parsers) : List String → Session Unit
  | peer :: amt :: words =>
    match toCompressedPubkey P (pubkeyAndAddr peer).1 with
    | none => println "ERROR: unable to parse given pubkey for node"
    | some pubkey => do
      if ← reachPeer P peer pubkey then
        match Decimal.unsigned maxU64 amt with
        | .error _ => println "ERROR: channel amount must be a number"
        | .ok amtSat =>
          let flags ← readFlags (false, false) words
          openChannel pubkey amtSat flags.1 flags.2
  | _ =>
    println "ERROR: openchannel has 2 required arguments: `openchannel pubkey@host:port channel_amt_satoshis` [--public] [--with-anchors]"

/-- The channel and the peer that `closechannel` and `forceclosechannel` name, or the error that the
command `name` prints. -/
def channelAndPeer (P : Parsers) (name : String) : List String → Except String (List UInt8 × PublicKey)
  | [] => .error s!"ERROR: {name} requires a channel ID: `{name} <channel_id> <peer_pubkey>`"
  | idStr :: rest =>
    match (HexUtils.toVec idStr).filter (·.length = 32) with
    | none => .error "ERROR: couldn't parse channel_id"
    | some channelId =>
    match rest with
    | [] => .error s!"ERROR: {name} requires a peer pubkey: `{name} <channel_id> <peer_pubkey>`"
    | peerStr :: _ =>
    match (HexUtils.toVec peerStr).bind P.publicKeyFromSlice with
    | none => .error "ERROR: couldn't parse peer_pubkey"
    | some peer => .ok (channelId, peer)

def closechannel (P : Parsers) (args : List String) : Session Unit :=
  match channelAndPeer P "closechannel" args with
  | .error e => println e
  | .ok (channelId, peer) => do
    match ← perform (.closeChannel channelId peer) with
    | .ok _ => println "EVENT: initiating channel close"
    | .error e => println s!"ERROR: failed to close channel: {e}"

def forceclosechannel (P : Parsers) (args : List String) : Session Unit :=
  match channelAndPeer P "forceclosechannel" args with
  | .error e => println e
  | .ok (channelId, peer) => do
    match ← perform (.forceCloseBroadcastingLatestTxn channelId peer) with
    | .ok _ => println "EVENT: initiating channel force-close"
    | .error e => println s!"ERROR: failed to force-close channel: {e}"

/-! ## Payments -/

/-- Store the entry of an outbound payment and write the store. -/
def recordOutbound (paymentId : String) (amtMsat : ℕ) : Session Unit :=
  run do
    store (.insertOutbound paymentId
      { preimage := none
        secret := none
        status := .pending
        amtMsat := some amtMsat })
    persist outboundPaymentsFname

/-- The amount that is paid for an offer, or the `Debug` text of one that cannot be. -/
def offerAmount (amount : Option OfferAmount) (userAmt : Option ℕ) : Except String ℕ :=
  match amount, userAmt with
  | some (.bitcoin amountMsats), _ => .ok amountMsats
  | _, some amt => .ok amt
  | some (.currency debug), none => .error s!"Some({debug})"
  | none, none => .error "None"

def payOffer (offer : Offer) (amtMsat : ℕ) (paymentId : String) : Session Unit := do
  recordOutbound paymentId amtMsat
  match ← perform (.payForOffer offer amtMsat paymentId) with
  | .ok _ => println "Payment in flight"
  | .error e => println s!"ERROR: Failed to pay: Err({e})"

/-- Nodes that resolve names: the loop over the nodes ends once there are more than five. -/
def dnsResolvers : List GraphNode → List PublicKey → List PublicKey
  | [], found => found
  | node :: nodes, found =>
    let found :=
      match node.features, node.pubkey with
      | some (true, true), some pubkey => found ++ [pubkey]
      | _, _ => found
    if found.length > 5 then found else dnsResolvers nodes found

def payName (hrn : HumanReadableName) (userAmt : Option ℕ) (paymentId : String) : Session Unit := do
  match userAmt with
  | none => println "Can't pay to a human-readable-name without an amount"
  | some amtMsat =>
  let resolvers := dnsResolvers (← perform .networkNodes) []
  if resolvers = [] then
    println "Failed to find any DNS resolving nodes, check your network graph is synced"
  else
    recordOutbound paymentId amtMsat
    match ← perform (.payForOfferFromHumanReadableName hrn amtMsat paymentId resolvers) with
    | .ok _ => println "Payment in flight"
    | .error _ => println "ERROR: Failed to pay"

/-- What a command leaves to be done. -/
inductive Next where
  | readCommand
  | quit
  /-- Ask whether to pay the offer. -/
  | confirm (offer : Offer) (amtMsat : ℕ) (paymentId : String)
  deriving DecidableEq

/-- The amount that follows the invoice. -/
def userAmount : List String → Except IntError (Option ℕ)
  | [] => .ok none
  | amt :: _ => (Decimal.unsigned maxU64 amt).map some

/-- `sendpayment` on an offer. -/
def sendToOffer (offer : Offer) (userAmt : Option ℕ) : Session Next := do
  let paymentId ← perform .randomBytes
  match offerAmount offer.amount userAmt with
  | .error amt =>
    println s!"ERROR: Cannot process non-Bitcoin-denominated offer value {amt}"
    pure .readCommand
  | .ok amtMsat =>
    match userAmt with
    | none => pure (.confirm offer amtMsat paymentId)
    | some amt =>
      if amt ≠ amtMsat then
        println s!"Amount didn't match offer of {amtMsat}msat"
        pure .readCommand
      else
        payOffer offer amtMsat paymentId
        pure .readCommand

def sendpaymentCommand (cfg : Config) (P : Parsers) : List String → Session Next
  | [] => do
    println "ERROR: sendpayment requires an invoice: `sendpayment <invoice> [amount_msat]`"
    pure .readCommand
  | invoiceStr :: rest =>
    match userAmount rest with
    | .error e => do
      println s!"ERROR: couldn't parse amount_msat: {e.display}"
      pure .readCommand
    | .ok userAmt =>
    match P.offerFromStr invoiceStr with
    | some offer => sendToOffer offer userAmt
    | none =>
    match P.humanReadableName invoiceStr with
    | some hrn => do
      let paymentId ← perform .randomBytes
      payName hrn userAmt paymentId
      pure .readCommand
    | none => do
      match cfg.bolt11FromStr invoiceStr with
      | .error e => println s!"ERROR: invalid invoice: {e}"
      | .ok invoice =>
        let _ ← run (sendPayment invoice userAmt)
      pure .readCommand

def keysend (P : Parsers) (payee : PublicKey) (amtMsat : ℕ) : Session Unit := do
  let preimage ← perform .randomBytes
  let paymentId := P.sha256 preimage
  recordOutbound paymentId amtMsat
  match ← perform (.sendSpontaneousPayment preimage paymentId payee amtMsat) with
  | .ok _ => println s!"EVENT: initiated sending {amtMsat} msats to {payee}"
  | .error e =>
    println s!"ERROR: failed to send payment: {e}"
    run do
      if ← store (.failOutbound paymentId) then persist outboundPaymentsFname
      else panic "called `Option::unwrap()` on a `None` value"

def keysendCommand (P : Parsers) : List String → Session Unit
  | [] => println "ERROR: keysend requires a destination pubkey: `keysend <dest_pubkey> <amt_msat>`"
  | dest :: rest =>
    match toCompressedPubkey P dest with
    | none => println "ERROR: couldn't parse destination pubkey"
    | some payee =>
    match rest with
    | [] =>
      println "ERROR: keysend requires an amount in millisatoshis: `keysend <dest_pubkey> <amt_msat>`"
    | amtStr :: _ =>
    match Decimal.unsigned maxU64 amtStr with
    | .error e => println s!"ERROR: couldn't parse amount_msat: {e.display}"
    | .ok amtMsat => keysend P payee amtMsat

/-! ## Invoices -/

def inboundPaymentsFname : String := "inbound_payments"

def buildOffer (amt : Option ℕ) : Session Unit := do
  match ← perform (.buildOffer amt) with
  | .error e => println s!"ERROR: Failed to build offer: {e}"
  | .ok offer => println offer

def getoffer (args : List String) : Session Unit := do
  match ← perform .createOfferBuilder with
  | .error e => println s!"ERROR: Failed to initiate offer building: {e}"
  | .ok _ =>
    match args with
    | [] => buildOffer none
    | amtStr :: _ =>
      match Decimal.unsigned maxU64 amtStr with
      | .error _ => println "ERROR: getoffer provided payment amount was not a number"
      | .ok amt => buildOffer (some amt)

/-- Create an invoice without a description and keep its entry. -/
def getInvoice (amtMsat expirySecs : ℕ) : Session Unit := do
  match ← run (ldk (.createBolt11Invoice amtMsat "" expirySecs)) with
  | .error e => println s!"ERROR: failed to create invoice: {e}"
  | .ok invoice =>
    println s!"SUCCESS: generated invoice: {invoice.text}"
    run (store (.insertInbound invoice.paymentHash
      { preimage := none
        secret := some invoice.paymentSecret
        status := .pending
        amtMsat := some amtMsat }))

def getinvoice : List String → Session Unit
  | [] => println "ERROR: getinvoice requires an amount in millisatoshis"
  | amtStr :: rest =>
    match Decimal.unsigned maxU64 amtStr with
    | .error _ => println "ERROR: getinvoice provided payment amount was not a number"
    | .ok amtMsat =>
    match rest with
    | [] => println "ERROR: getinvoice requires an expiry in seconds"
    | expiryStr :: _ =>
    match Decimal.unsigned (2 ^ 32 - 1) expiryStr with
    | .error _ => println "ERROR: getinvoice provided expiry was not a number"
    | .ok expirySecs => do
      getInvoice amtMsat expirySecs
      run (persist inboundPaymentsFname)

/-! ## Cardano -/

/-- Build and submit a deposit. -/
def depositTx (amount : ℤ) : Session (Except CardanoError String) := do
  match ← perform (.deposit amount) with
  | .error e => pure (.error e)
  | .ok txHex => perform (.submitDeposit txHex)

/-- `submit_contract_tx_with_retry` on a deposit. -/
def depositAttempts (amount : ℤ) : ℕ → String → Session (Except String String)
  | 0, lastErr => pure (.error s!"Deposit({amount}): failed after {retryAttempts} attempts: {lastErr}")
  | left + 1, _ => do
    if left + 1 < retryAttempts then run (sleep retryDelay)
    match ← depositTx amount with
    | .ok txHash => pure (.ok txHash)
    | .error e =>
      if isRetryableSubmitErr e then depositAttempts amount left e
      else pure (.error s!"Deposit({amount}): non-retryable error: {e}")

def cardanoDeposit (amount : ℤ) : Session Unit := do
  println s!"Building deposit tx for {amount} cBTC units..."
  match ← depositAttempts amount retryAttempts "" with
  | .ok txHash => println s!"SUCCESS: deposit submitted, tx_hash: {txHash}"
  | .error e => println s!"ERROR: {e}"

/-- A command on an amount of cBTC. -/
def onAmount (name : String) (command : ℤ → Session Unit) : List String → Session Unit
  | [] => println s!"ERROR: {name} requires an amount: `{name} <cbtc_amount>`"
  | amtStr :: _ =>
    match Decimal.signed (2 ^ 63 - 1) amtStr with
    | .error _ => println "ERROR: amount must be a positive integer"
    | .ok amount => command amount

def poolInfo : Session Unit := do
  match ← run (operator .pool .queryState) with
  | .ok state => perform (.report (.pool state))
  | .error e => println s!"ERROR: failed to query pool state: {e}"

/-! ## The loop -/

/-- The bytes of the message of `signmessage`. -/
def messageOf (line : String) : Option (List UInt8) :=
  let bytes := asBytes (Text.trim line)
  if bytes.length ≤ "signmessage".length + 1 then none else some (bytes.drop ("signmessage".length + 1))

def signmessage (line : String) : Session Unit :=
  match messageOf line with
  | none => println "ERROR: signmsg requires a message"
  | some message => do
    println (← perform (.sign message))

/-- A command that needs the Cardano operator. -/
def withOperator (enabled : Bool) (command : Session Unit) : Session Unit :=
  if enabled then command
  else println "ERROR: Cardano not enabled. Set CARDANO_ENABLED=true with required env vars."

/-- The commands after which the next line is read. -/
def simpleCommand (P : Parsers) (enabled : Bool) (line : String) (args : List String) :
    String → Session Unit
  | "help" => perform (.report .help)
  | "openchannel" => openchannel P args
  | "keysend" => keysendCommand P args
  | "getoffer" => getoffer args
  | "getinvoice" => getinvoice args
  | "connectpeer" => connectpeer P args
  | "disconnectpeer" => disconnectpeer P args
  | "listchannels" => perform (.report .channels)
  | "listpayments" => perform (.report .payments)
  | "closechannel" => closechannel P args
  | "forceclosechannel" => forceclosechannel P args
  | "nodeinfo" => perform (.report .node)
  | "listpeers" => perform (.report .peers)
  | "signmessage" => signmessage line
  | "pool-info" => withOperator enabled poolInfo
  | "getbalance" => perform (.report .balance)
  | "cardano-deposit" => withOperator enabled (onAmount "cardano-deposit" cardanoDeposit args)
  | "cardano-withdraw" =>
    withOperator enabled (onAmount "cardano-withdraw" (fun amount => do
      println s!"Building withdraw tx for {amount} cBTC units..."
      println (← run (cardanoWithdraw amount))) args)
  | "cancel-expired" => withOperator enabled (run cancelExpired)
  | "cancel-expired-offramps" => withOperator enabled (run cancelExpiredOfframps)
  | _ => println "Unknown command. See `\"help\" for available commands."

/-- One line in which a command is expected. -/
def command (cfg : Config) (P : Parsers) (enabled : Bool) (line : String) : Session Next :=
  match Text.words line with
  | [] => pure .readCommand
  | "quit" :: _ | "exit" :: _ => pure .quit
  | "sendpayment" :: args => sendpaymentCommand cfg P args
  | word :: args => do
    simpleCommand P enabled line args word
    pure .readCommand

/-- What the next line is read for. -/
inductive Mode where
  | command
  | confirm (offer : Offer) (amtMsat : ℕ) (paymentId : String)

def Mode.prompt : Mode → String
  | .command => "> "
  | .confirm _ amtMsat _ => s!"Paying offer for {amtMsat} msat. Continue (Y/N)? >"

/-- The loop of `poll_for_user_input` on the lines that are still to come, where `stdinError` is the
error that ends the input, if it does not just end. -/
def readLines (cfg : Config) (P : Parsers) (enabled : Bool) (stdinError : Option String) :
    Mode → List String → Session Unit
  | mode, [] => do
    perform (.print mode.prompt)
    println (match stdinError with
      | some e => s!"ERROR: {e}"
      | none => "ERROR: End of stdin")
  | .command, line :: lines => do
    perform (.print Mode.command.prompt)
    match ← command cfg P enabled line with
    | .readCommand => readLines cfg P enabled stdinError .command lines
    | .quit => pure ()
    | .confirm offer amtMsat paymentId =>
      readLines cfg P enabled stdinError (.confirm offer amtMsat paymentId) lines
  | .confirm offer amtMsat paymentId, line :: lines => do
    perform (.print (Mode.confirm offer amtMsat paymentId).prompt)
    if startsWith line "Y" then
      payOffer offer amtMsat paymentId
      readLines cfg P enabled stdinError .command lines
    else if startsWith line "N" then readLines cfg P enabled stdinError .command lines
    else readLines cfg P enabled stdinError (.confirm offer amtMsat paymentId) lines

/-- A session on the lines that are typed. -/
def pollForUserInput (cfg : Config) (P : Parsers) (enabled : Bool) (stdinError : Option String)
    (ourNodeId : PublicKey) (lines : List String) : Session Unit := do
  println "LDK startup successful. Enter \"help\" to view available commands. Press Ctrl-D to quit."
  println "LDK logs are available at <your-supplied-ldk-data-dir-path>/.ldk/logs"
  println s!"Local Node ID is {ourNodeId}."
  readLines cfg P enabled stdinError .command lines

end Cli

end LightningRelay
