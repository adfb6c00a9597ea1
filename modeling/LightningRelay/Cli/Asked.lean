import LightningRelay.Cli.Session

/-!
# What a session does was asked for

`session_asked`: whatever the operations of a session are answered, each of them that opens, closes,
pays or submits something is spelled out by a line that was typed; an offer without an amount of the
user's is paid only after a line that confirms it.  No line makes the session touch the swap database
or build a transaction for a swap.
-/

set_option autoImplicit false

namespace LightningRelay

open Async Codec

namespace Cli

/-! ## Lines -/

/-- The flags of `openchannel`: the last one of each kind counts. -/
def flagsOf (words : List String) : Bool × Bool :=
  words.foldl (fun flags word => (flag? flags word).getD flags) (false, false)

section

variable (cfg : Config) (P : Parsers) (lines : List String)

/-- A line asks for the offer to be paid with this amount. -/
def OfferAmountGiven (offer : Offer) (amtMsat : ℕ) : Prop :=
  ∃ line ∈ lines, ∃ text amtStr rest, Text.words line = "sendpayment" :: text :: amtStr :: rest ∧
    P.offerFromStr text = some offer ∧ Decimal.unsigned maxU64 amtStr = .ok amtMsat ∧
    ∀ a, offer.amount = some (.bitcoin a) → a = amtMsat

/-- The line asks for the offer to be paid, without an amount. -/
def OfferNamed (line : String) (offer : Offer) (amtMsat : ℕ) : Prop :=
  ∃ text, Text.words line = ["sendpayment", text] ∧ P.offerFromStr text = some offer ∧
    offer.amount = some (.bitcoin amtMsat)

/-- The line answers the question whether to pay. -/
def isAnswer (line : String) : Bool := startsWith line "Y" || startsWith line "N"

/-- A line asks for the offer to be paid, and the first answer after it is yes. -/
def OfferConfirmed (offer : Offer) (amtMsat : ℕ) : Prop :=
  ∃ before line between yes after, lines = before ++ line :: (between ++ yes :: after) ∧
    OfferNamed P line offer amtMsat ∧ (∀ l ∈ between, isAnswer l = false) ∧ startsWith yes "Y" = true

/-- The command that builds transactions of this kind. -/
def builder? : TxKind → Option String
  | .withdraw => some "cardano-withdraw"
  | .cancelInvoice _ => some "cancel-expired"
  | .cancelOfframp _ => some "cancel-expired-offramps"
  | _ => none

/-- A line starts with the name of the command. -/
def Named (name : String) : Prop := ∃ line ∈ lines, (Text.words line).head? = some name

/-- The operation is asked for by the lines, or changes nothing but what is printed and stored. -/
def Asked : Op → Prop
  | .createChannel peer amtSat announce withAnchors =>
    ∃ line ∈ lines, ∃ peerStr amtStr flags, Text.words line = "openchannel" :: peerStr :: amtStr :: flags ∧
      toCompressedPubkey P (pubkeyAndAddr peerStr).1 = some peer ∧
      Decimal.unsigned maxU64 amtStr = .ok amtSat ∧ flagsOf flags = (announce, withAnchors)
  | .closeChannel channelId peer =>
    ∃ line ∈ lines, ∃ args, Text.words line = "closechannel" :: args ∧
      channelAndPeer P "closechannel" args = .ok (channelId, peer)
  | .forceCloseBroadcastingLatestTxn channelId peer =>
    ∃ line ∈ lines, ∃ args, Text.words line = "forceclosechannel" :: args ∧
      channelAndPeer P "forceclosechannel" args = .ok (channelId, peer)
  | .doConnectPeer peer _ =>
    ∃ line ∈ lines, ∃ name peerStr rest, Text.words line = name :: peerStr :: rest ∧
      (name = "connectpeer" ∨ name = "openchannel") ∧
      toCompressedPubkey P (pubkeyAndAddr peerStr).1 = some peer
  | .disconnectByNodeId peer =>
    ∃ line ∈ lines, ∃ peerStr rest, Text.words line = "disconnectpeer" :: peerStr :: rest ∧
      P.publicKeyFromStr peerStr = .ok peer
  | .payForOffer offer amtMsat _ =>
    OfferAmountGiven P lines offer amtMsat ∨ OfferConfirmed P lines offer amtMsat
  | .payForOfferFromHumanReadableName hrn amtMsat _ _ =>
    ∃ line ∈ lines, ∃ text amtStr rest, Text.words line = "sendpayment" :: text :: amtStr :: rest ∧
      P.humanReadableName text = some hrn ∧ Decimal.unsigned maxU64 amtStr = .ok amtMsat
  | .sendSpontaneousPayment _ _ payee amtMsat =>
    ∃ line ∈ lines, ∃ dest amtStr rest, Text.words line = "keysend" :: dest :: amtStr :: rest ∧
      toCompressedPubkey P dest = some payee ∧ Decimal.unsigned maxU64 amtStr = .ok amtMsat
  | .deposit amount =>
    ∃ line ∈ lines, ∃ amtStr rest, Text.words line = "cardano-deposit" :: amtStr :: rest ∧
      Decimal.signed (2 ^ 63 - 1) amtStr = .ok amount
  | .relay (.ldk (.payForBolt11Invoice invoice amtMsat)) =>
    ∃ line ∈ lines, ∃ text rest, Text.words line = "sendpayment" :: text :: rest ∧
      cfg.bolt11FromStr text = .ok invoice ∧ userAmount rest = .ok amtMsat
  | .relay (.operator _ (.withdraw amount)) =>
    ∃ line ∈ lines, ∃ amtStr rest, Text.words line = "cardano-withdraw" :: amtStr :: rest ∧
      Decimal.signed (2 ^ 63 - 1) amtStr = .ok amount
  | .submitDeposit _ => Named lines "cardano-deposit"
  | .relay (.operator _ (.cancelInvoice _)) => Named lines "cancel-expired"
  | .relay (.operator _ (.cancelOfframp _)) => Named lines "cancel-expired-offramps"
  | .relay (.operator _ (.submitTx tx)) => ∃ name, builder? tx.kind = some name ∧ Named lines name
  | .relay (.operator _ .queryState) => True
  | .relay (.operator _ _) | .relay (.db _) | .relay (.spawn _) | .relay (.ldk (.claimFunds _ _)) => False
  | _ => True

end

/-! ## The commands -/

section

variable {cfg : Config} {P : Parsers} {lines : List String} {line : String} {args : List String}

theorem named_of_words {name : String} (hline : line ∈ lines) (hwords : Text.words line = name :: args) :
    Named lines name := ⟨line, hline, by rw [hwords]; rfl⟩

theorem println_asked (text : String) : (println text).Only (Asked cfg P lines) := only_last trivial

theorem recordOutbound_asked (paymentId : String) (amtMsat : ℕ) :
    (recordOutbound paymentId amtMsat).Only (Asked cfg P lines) :=
  only_perform trivial fun _ => only_last trivial

theorem parsePeerInfo_asked (peer : String) :
    Follows (fun (_ : Unit) o _ _ => Asked cfg P lines o) (fun r _ => ∀ pubkey addr,
      r = .ok (pubkey, addr) → toCompressedPubkey P (pubkeyAndAddr peer).1 = some pubkey)
      (parsePeerInfo P peer) () := by
  unfold parsePeerInfo
  rcases (pubkeyAndAddr peer).2 with _ | addrStr
  · exact fun _ _ h => by cases h
  refine follows_stay (fun _ => trivial) fun addrs => ?_
  rcases addrs.bind List.head? with _ | addr
  · exact fun _ _ h => by cases h
  rcases hpub : toCompressedPubkey P (pubkeyAndAddr peer).1 with _ | pubkey
  · exact fun _ _ h => by cases h
  · intro _ _ h
    cases h
    rfl

theorem connectTo_asked {name peer : String} (hline : line ∈ lines)
    (hwords : Text.words line = name :: peer :: args) (hname : name = "connectpeer" ∨ name = "openchannel") :
    (connectTo P peer).Only (Asked cfg P lines) := by
  refine (parsePeerInfo_asked peer).bind ?_
  rintro (e | ⟨pubkey, addr⟩) _ hpub
  · exact only_perform trivial fun _ => only_pure _
  have hconnect : (connectPeerIfNecessary pubkey addr).Only (Asked cfg P lines) := by
    refine only_perform trivial fun known => ?_
    split_ifs
    · exact only_pure _
    refine only_perform ⟨line, hline, name, peer, args, hwords, hname, hpub _ _ rfl⟩ fun ok => ?_
    cases ok
    · exact only_perform trivial fun _ => only_pure _
    · exact only_pure _
  refine hconnect.bind fun ok => ?_
  cases ok <;> exact only_pure _

theorem connectpeer_asked (hline : line ∈ lines) (hwords : Text.words line = "connectpeer" :: args) :
    (connectpeer P args).Only (Asked cfg P lines) := by
  cases args with
  | nil => exact println_asked _
  | cons peer rest =>
    refine (connectTo_asked hline hwords (Or.inl rfl)).bind ?_
    rintro (_ | pubkey)
    · exact only_pure _
    · exact println_asked _

theorem disconnectpeer_asked (hline : line ∈ lines)
    (hwords : Text.words line = "disconnectpeer" :: args) :
    (disconnectpeer P args).Only (Asked cfg P lines) := by
  cases args with
  | nil => exact println_asked _
  | cons peer rest =>
    simp only [disconnectpeer]
    rcases hpub : P.publicKeyFromStr peer with e | pubkey
    · exact println_asked _
    have hdo : (doDisconnectPeer pubkey).Only (Asked cfg P lines) := by
      refine only_perform trivial fun peers => ?_
      split_ifs
      · exact only_perform trivial fun _ => only_pure _
      refine only_perform trivial fun known => ?_
      cases known
      · exact only_perform trivial fun _ => only_pure _
      · exact only_perform ⟨line, hline, peer, rest, hwords, hpub⟩ fun _ => only_pure _
    refine hdo.bind fun ok => ?_
    cases ok
    · exact only_pure _
    · exact println_asked _

theorem readFlags_asked (words : List String) (flags : Bool × Bool) :
    Follows (fun (_ : Unit) o _ _ => Asked cfg P lines o)
      (fun r _ => r = words.foldl (fun flags word => (flag? flags word).getD flags) flags)
      (readFlags flags words) () := by
  induction words generalizing flags with
  | nil => exact rfl
  | cons word words ih =>
    rw [List.foldl_cons, readFlags]
    rcases flag? flags word with _ | flags'
    · exact follows_stay (fun _ => trivial) fun _ => ih flags
    · exact ih flags'

theorem openchannel_asked (hline : line ∈ lines) (hwords : Text.words line = "openchannel" :: args) :
    (openchannel P args).Only (Asked cfg P lines) := by
  rcases args with _ | ⟨peer, _ | ⟨amt, words⟩⟩
  · exact println_asked _
  · exact println_asked _
  simp only [openchannel]
  rcases hpub : toCompressedPubkey P (pubkeyAndAddr peer).1 with _ | pubkey
  · exact println_asked _
  have hreach : (reachPeer P peer pubkey).Only (Asked cfg P lines) := by
    unfold reachPeer
    rcases (pubkeyAndAddr peer).2 with _ | addr
    · refine only_perform trivial fun known => ?_
      cases known
      · exact only_perform trivial fun _ => only_pure _
      · exact only_pure _
    · exact (connectTo_asked hline hwords (Or.inr rfl)).bind fun _ => only_pure _
  refine hreach.bind fun reached => ?_
  cases reached
  · exact only_pure _
  rcases hamt : Decimal.unsigned maxU64 amt with e | amtSat
  · exact println_asked _
  refine (readFlags_asked words (false, false)).bind ?_
  rintro flags _ rfl
  refine only_perform ⟨line, hline, peer, amt, words, hwords, hpub, hamt, rfl⟩ ?_
  rintro (e | _) <;> exact println_asked _

theorem closechannel_asked (hline : line ∈ lines) (hwords : Text.words line = "closechannel" :: args) :
    (closechannel P args).Only (Asked cfg P lines) := by
  unfold closechannel
  rcases hargs : channelAndPeer P "closechannel" args with e | ⟨channelId, peer⟩
  · exact println_asked _
  refine only_perform ⟨line, hline, args, hwords, hargs⟩ ?_
  rintro (e | _) <;> exact println_asked _

theorem forceclosechannel_asked (hline : line ∈ lines)
    (hwords : Text.words line = "forceclosechannel" :: args) :
    (forceclosechannel P args).Only (Asked cfg P lines) := by
  unfold forceclosechannel
  rcases hargs : channelAndPeer P "forceclosechannel" args with e | ⟨channelId, peer⟩
  · exact println_asked _
  refine only_perform ⟨line, hline, args, hwords, hargs⟩ ?_
  rintro (e | _) <;> exact println_asked _

theorem keysendCommand_asked (hline : line ∈ lines) (hwords : Text.words line = "keysend" :: args) :
    (keysendCommand P args).Only (Asked cfg P lines) := by
  cases args with
  | nil => exact println_asked _
  | cons dest rest =>
    simp only [keysendCommand]
    rcases hdest : toCompressedPubkey P dest with _ | payee
    · exact println_asked _
    cases rest with
    | nil => exact println_asked _
    | cons amtStr rest =>
      dsimp only
      rcases hamt : Decimal.unsigned maxU64 amtStr with e | amtMsat
      · exact println_asked _
      refine only_perform trivial fun preimage => (recordOutbound_asked _ _).bind fun _ => ?_
      refine only_perform ⟨line, hline, dest, amtStr, rest, hwords, hdest, hamt⟩ ?_
      rintro (e | _)
      · refine only_perform trivial fun _ => only_perform trivial fun marked => ?_
        cases marked
        · intro r
          cases r
        · exact only_last trivial
      · exact println_asked _

theorem getoffer_asked : (getoffer args).Only (Asked cfg P lines) := by
  have hbuild : ∀ amt, (buildOffer amt).Only (Asked cfg P lines) := by
    intro amt
    refine only_perform trivial ?_
    rintro (e | offer) <;> exact println_asked _
  refine only_perform trivial ?_
  rintro (e | _)
  · exact println_asked _
  cases args with
  | nil => exact hbuild none
  | cons amtStr rest =>
    dsimp only
    rcases Decimal.unsigned maxU64 amtStr with e | amt
    · exact println_asked _
    · exact hbuild (some amt)

theorem getinvoice_asked : (getinvoice args).Only (Asked cfg P lines) := by
  cases args with
  | nil => exact println_asked _
  | cons amtStr rest =>
    simp only [getinvoice]
    rcases Decimal.unsigned maxU64 amtStr with e | amtMsat
    · exact println_asked _
    cases rest with
    | nil => exact println_asked _
    | cons expiryStr rest =>
      dsimp only
      rcases Decimal.unsigned (2 ^ 32 - 1) expiryStr with e | expirySecs
      · exact println_asked _
      refine Prog.Only.bind (only_perform trivial ?_) fun _ => only_last trivial
      rintro (e | invoice)
      · exact println_asked _
      · exact only_perform trivial fun _ => only_last trivial

theorem depositAttempts_asked {amount : ℤ} (hdeposit : Asked cfg P lines (.deposit amount))
    (hsubmit : Named lines "cardano-deposit") (left : ℕ) (lastErr : String) :
    (depositAttempts amount left lastErr).Only (Asked cfg P lines) := by
  induction left generalizing lastErr with
  | zero => exact only_pure _
  | succ left ih =>
    have htx : (depositTx amount).Only (Asked cfg P lines) := by
      refine only_perform hdeposit ?_
      rintro (e | txHex)
      · exact only_pure _
      · exact only_last hsubmit
    have hnext : ∀ e, (if isRetryableSubmitErr e then depositAttempts amount left e
        else pure (.error s!"Deposit({amount}): non-retryable error: {e}")).Only
        (Asked cfg P lines) := by
      intro e
      split_ifs
      · exact ih e
      · exact only_pure _
    rw [depositAttempts]
    split_ifs
    · refine only_perform trivial fun _ => htx.bind ?_
      rintro (e | txHash)
      · exact hnext e
      · exact only_pure _
    · refine htx.bind ?_
      rintro (e | txHash)
      · exact hnext e
      · exact only_pure _

/-- A command on an amount of cBTC that the line gives. -/
theorem onAmount_asked {name : String} {f : ℤ → Session Unit} (hf : ∀ amtStr rest amount,
      args = amtStr :: rest → Decimal.signed (2 ^ 63 - 1) amtStr = .ok amount →
      (f amount).Only (Asked cfg P lines)) : (onAmount name f args).Only (Asked cfg P lines) := by
  cases args with
  | nil => exact println_asked _
  | cons amtStr rest =>
    simp only [onAmount]
    rcases hamt : Decimal.signed (2 ^ 63 - 1) amtStr with e | amount
    · exact println_asked _
    · exact hf amtStr rest amount rfl hamt

theorem cardanoDeposit_asked (hline : line ∈ lines)
    (hwords : Text.words line = "cardano-deposit" :: args) :
    (onAmount "cardano-deposit" cardanoDeposit args).Only (Asked cfg P lines) := by
  refine onAmount_asked ?_
  rintro amtStr rest amount rfl hamt
  refine only_perform trivial fun _ => (depositAttempts_asked ?_ (named_of_words hline hwords) _ _).bind ?_
  · exact ⟨line, hline, amtStr, rest, hwords, hamt⟩
  · rintro (e | txHash) <;> exact println_asked _

theorem cardanoWithdraw_asked (hline : line ∈ lines)
    (hwords : Text.words line = "cardano-withdraw" :: args) :
    (onAmount "cardano-withdraw" (fun amount => do
      println s!"Building withdraw tx for {amount} cBTC units..."
      println (← run (cardanoWithdraw amount))) args).Only (Asked cfg P lines) := by
  refine onAmount_asked ?_
  rintro amtStr rest amount rfl hamt
  refine only_perform trivial fun _ => Prog.Only.bind ?_ fun _ => println_asked _
  have hrelay : (cardanoWithdraw amount).Only fun o => Asked cfg P lines (.relay o) := by
    refine Prog.Only.bind (only_submitContractTxWithRetry (fun _ => trivial) ?_) ?_
    · refine only_perform ⟨line, hline, amtStr, rest, hwords, hamt⟩ fun r => only_thenSubmit r fun hex => ?_
      exact ⟨_, rfl, named_of_words hline hwords⟩
    · rintro (e | txHash) <;> exact only_pure _
  exact hrelay.embed fun _ h => h

theorem cancelExpired_asked (h : Named lines "cancel-expired") :
    (run cancelExpired).Only (Asked cfg P lines) :=
  Prog.Only.embed (P := fun o => Asked cfg P lines (.relay o))
    (only_cancelExpired trivial (fun _ => h) (fun _ _ => ⟨_, rfl, h⟩) trivial fun _ => trivial)
    fun _ h => h

theorem cancelExpiredOfframps_asked (h : Named lines "cancel-expired-offramps") :
    (run cancelExpiredOfframps).Only (Asked cfg P lines) :=
  Prog.Only.embed (P := fun o => Asked cfg P lines (.relay o))
    (only_cancelExpiredOfframps trivial (fun _ => h) (fun _ _ => ⟨_, rfl, h⟩) trivial fun _ => trivial)
    fun _ h => h

theorem withOperator_asked {enabled : Bool} {p : Session Unit} (h : p.Only (Asked cfg P lines)) :
    (withOperator enabled p).Only (Asked cfg P lines) := by
  unfold withOperator
  split_ifs
  · exact h
  · exact println_asked _

theorem simpleCommand_asked {word : String} (enabled : Bool) (hline : line ∈ lines)
    (hwords : Text.words line = word :: args) :
    (simpleCommand P enabled line args word).Only (Asked cfg P lines) := by
  unfold simpleCommand
  split
  case h_2 => exact openchannel_asked hline hwords
  case h_3 => exact keysendCommand_asked hline hwords
  case h_4 => exact getoffer_asked
  case h_5 => exact getinvoice_asked
  case h_6 => exact connectpeer_asked hline hwords
  case h_7 => exact disconnectpeer_asked hline hwords
  case h_10 => exact closechannel_asked hline hwords
  case h_11 => exact forceclosechannel_asked hline hwords
  case h_14 =>
    unfold signmessage
    rcases messageOf line with _ | message
    · exact println_asked _
    · exact only_perform trivial fun _ => println_asked _
  case h_15 =>
    refine withOperator_asked (only_perform trivial ?_)
    rintro (e | state) <;> exact only_last trivial
  case h_17 => exact withOperator_asked (cardanoDeposit_asked hline hwords)
  case h_18 => exact withOperator_asked (cardanoWithdraw_asked hline hwords)
  case h_19 => exact withOperator_asked (cancelExpired_asked (named_of_words hline hwords))
  case h_20 => exact withOperator_asked (cancelExpiredOfframps_asked (named_of_words hline hwords))
  all_goals exact only_last trivial

/-! ## The loop -/

/-- An offer that waits for an answer was named by the line. -/
def Pending (P : Parsers) (line : String) : Next → Prop
  | .confirm offer amtMsat _ => OfferNamed P line offer amtMsat
  | _ => True

theorem payOffer_asked {offer : Offer} {amtMsat : ℕ} (paymentId : String)
    (h : OfferAmountGiven P lines offer amtMsat ∨ OfferConfirmed P lines offer amtMsat) :
    (payOffer offer amtMsat paymentId).Only (Asked cfg P lines) := by
  refine (recordOutbound_asked _ _).bind fun _ => only_perform h ?_
  rintro (e | _) <;> exact println_asked _

theorem offerAmount_none {amount : Option OfferAmount} {amtMsat : ℕ}
    (h : offerAmount amount none = .ok amtMsat) : amount = some (.bitcoin amtMsat) := by
  rcases amount with _ | ⟨a | d⟩
  · cases h
  · obtain rfl := Except.ok.inj h
    rfl
  · cases h

theorem offerAmount_bitcoin {amount : Option OfferAmount} {userAmt : Option ℕ} {amtMsat a : ℕ}
    (h : offerAmount amount userAmt = .ok amtMsat) (ha : amount = some (.bitcoin a)) : a = amtMsat := by
  subst ha
  exact Except.ok.inj h

theorem userAmount_none {rest : List String} (h : userAmount rest = .ok none) : rest = [] := by
  cases rest with
  | nil => rfl
  | cons amtStr rest =>
    rw [userAmount] at h
    rcases hread : Decimal.unsigned maxU64 amtStr with e | amt <;>
      (rw [hread] at h; cases h)

theorem userAmount_some {rest : List String} {amt : ℕ} (h : userAmount rest = .ok (some amt)) :
    ∃ amtStr rest', rest = amtStr :: rest' ∧ Decimal.unsigned maxU64 amtStr = .ok amt := by
  cases rest with
  | nil => cases h
  | cons amtStr rest =>
    refine ⟨amtStr, rest, rfl, ?_⟩
    rw [userAmount] at h
    rcases hread : Decimal.unsigned maxU64 amtStr with e | amt'
    · rw [hread] at h
      cases h
    · rw [hread] at h
      exact congrArg _ (Option.some.inj (Except.ok.inj h))

theorem sendToOffer_asked {text : String} {rest : List String} {offer : Offer} {userAmt : Option ℕ}
    (hline : line ∈ lines) (hwords : Text.words line = "sendpayment" :: text :: rest)
    (hoffer : P.offerFromStr text = some offer) (hamt : userAmount rest = .ok userAmt) :
    Follows (fun (_ : Unit) o _ _ => Asked cfg P lines o) (fun next _ => Pending P line next)
      (sendToOffer offer userAmt) () := by
  refine follows_stay (fun _ => trivial) fun paymentId => ?_
  rcases hpay : offerAmount offer.amount userAmt with e | amtMsat
  · exact follows_stay (fun _ => trivial) fun _ => trivial
  cases userAmt with
  | none =>
    -- no amount was given, so the line ends with the offer
    obtain rfl := userAmount_none hamt
    exact ⟨text, hwords, hoffer, offerAmount_none hpay⟩
  | some amt =>
    dsimp only
    split_ifs with hne
    · exact follows_stay (fun _ => trivial) fun _ => trivial
    · obtain rfl : amt = amtMsat := not_not.1 hne
      obtain ⟨amtStr, rest, rfl, hread⟩ := userAmount_some hamt
      have hgiven : OfferAmountGiven P lines offer amt :=
        ⟨line, hline, text, amtStr, rest, hwords, hoffer, hread, fun _ ha => offerAmount_bitcoin hpay ha⟩
      exact Follows.bind (payOffer_asked paymentId (Or.inl hgiven)) fun _ _ _ => trivial

theorem sendpaymentCommand_asked (hline : line ∈ lines)
    (hwords : Text.words line = "sendpayment" :: args) :
    Follows (fun (_ : Unit) o _ _ => Asked cfg P lines o) (fun next _ => Pending P line next)
      (sendpaymentCommand cfg P args) () := by
  cases args with
  | nil => exact follows_stay (fun _ => trivial) fun _ => trivial
  | cons text rest =>
    rw [sendpaymentCommand]
    rcases hamt : userAmount rest with e | userAmt
    · exact follows_stay (fun _ => trivial) fun _ => trivial
    rcases hoffer : P.offerFromStr text with _ | offer
    swap
    · exact sendToOffer_asked hline hwords hoffer hamt
    rcases hname : P.humanReadableName text with _ | hrn
    · -- a BOLT11 invoice
      rcases hinvoice : cfg.bolt11FromStr text with e | invoice
      · exact follows_stay (fun _ => trivial) fun _ => trivial
      have hsend : (sendPayment invoice userAmt).Only fun o => Asked cfg P lines (.relay o) := by
        refine only_perform trivial fun _ => ?_
        rcases paymentAmount invoice.amountMilliSatoshis userAmt with e | amtMsat
        · exact only_pure _
        refine only_perform trivial fun _ => only_perform trivial fun _ => ?_
        refine only_perform ⟨line, hline, text, rest, hwords, hinvoice, hamt⟩ ?_
        rintro (e | _)
        · refine only_perform trivial fun marked => ?_
          cases marked
          · intro r
            cases r
          · exact only_perform trivial fun _ => only_pure _
        · exact only_pure _
      have hrun : (run (sendPayment invoice userAmt)).Only (Asked cfg P lines) := hsend.embed fun _ h => h
      exact Follows.bind hrun fun _ _ _ => trivial
    · refine follows_stay (fun _ => trivial) fun paymentId => ?_
      have hpay : (payName hrn userAmt paymentId).Only (Asked cfg P lines) := by
        cases userAmt with
        | none => exact println_asked _
        | some amtMsat =>
          refine only_perform trivial fun nodes => ?_
          dsimp only
          split_ifs
          · exact println_asked _
          obtain ⟨amtStr, rest, rfl, hread⟩ := userAmount_some hamt
          refine (recordOutbound_asked _ _).bind fun _ => ?_
          refine only_perform ⟨line, hline, text, amtStr, rest, hwords, hname, hread⟩ ?_
          rintro (e | _) <;> exact println_asked _
      exact Follows.bind hpay fun _ _ _ => trivial

theorem command_asked (enabled : Bool) (hline : line ∈ lines) :
    Follows (fun (_ : Unit) o _ _ => Asked cfg P lines o) (fun next _ => Pending P line next)
      (command cfg P enabled line) () := by
  unfold command
  split
  case h_1 => trivial
  case h_2 => trivial
  case h_3 => trivial
  case h_4 args hwords => exact sendpaymentCommand_asked hline hwords
  case h_5 word args _ _ _ hwords =>
    exact Follows.bind (simpleCommand_asked enabled hline hwords) fun _ _ _ => trivial

/-- What the next line is read for was asked by the lines before. -/
def ModeAsked (P : Parsers) (before : List String) : Mode → Prop
  | .command => True
  | .confirm offer amtMsat _ => ∃ earlier line between, before = earlier ++ line :: between ∧
      OfferNamed P line offer amtMsat ∧ ∀ l ∈ between, isAnswer l = false

theorem readLines_asked (enabled : Bool) (stdinError : Option String) (rest before : List String)
    (mode : Mode) (hmode : ModeAsked P before mode) :
    (readLines cfg P enabled stdinError mode rest).Only (Asked cfg P (before ++ rest)) := by
  induction rest generalizing before mode with
  | nil => cases mode <;> exact only_perform trivial fun _ => println_asked _
  | cons line rest ih =>
    -- the line that was read joins those before
    have hlines : before ++ line :: rest = (before ++ [line]) ++ rest := by simp
    have hread : (readLines cfg P enabled stdinError .command rest).Only
        (Asked cfg P (before ++ line :: rest)) := hlines ▸ ih (before ++ [line]) .command trivial
    cases mode with
    | command =>
      rw [readLines]
      refine only_perform trivial fun _ => ?_
      refine Follows.bind (command_asked enabled (List.mem_append_right _ List.mem_cons_self)) ?_
      rintro (_ | _ | ⟨offer, amtMsat, paymentId⟩) _ hpending
      · exact hread
      · exact only_pure _
      · rw [hlines]
        exact ih (before ++ [line]) _ ⟨before, line, [], rfl, hpending, nofun⟩
    | confirm offer amtMsat paymentId =>
      obtain ⟨earlier, asking, between, rfl, hnamed, hbetween⟩ := hmode
      rw [readLines]
      refine only_perform trivial fun _ => ?_
      split_ifs with hyes hno
      · have hconfirmed : OfferConfirmed P (earlier ++ asking :: between ++ line :: rest) offer amtMsat :=
          ⟨earlier, asking, between, line, rest, by simp, hnamed, hbetween, hyes⟩
        exact (payOffer_asked paymentId (Or.inr hconfirmed)).bind fun _ => hread
      · exact hread
      · rw [hlines]
        refine ih _ _ ⟨earlier, asking, between ++ [line], by simp, hnamed, fun l hl => ?_⟩
        rcases List.mem_append.1 hl with hl | hl
        · exact hbetween l hl
        · obtain rfl := List.mem_singleton.1 hl
          simp [isAnswer, hyes, hno]

end

end Cli

/-- Whatever the operations of a session on the command line are answered: a channel is opened or
closed, a peer connected or disconnected, a payment handed to LDK and a transaction built or submitted
only as a line of the session spells it out, and an offer that was named without an amount is paid only
if the first answer after it is yes.  The session never touches the swap database, never starts a task
and never builds a transaction of a swap. -/
theorem session_asked (cfg : Config) (P : Cli.Parsers) (enabled : Bool) (stdinError : Option String)
    (ourNodeId : Cli.PublicKey) (lines : List String) :
    (Cli.pollForUserInput cfg P enabled stdinError ourNodeId lines).Only (Cli.Asked cfg P lines) := by
  refine only_perform trivial fun _ => only_perform trivial fun _ => only_perform trivial fun _ => ?_
  exact Cli.readLines_asked enabled stdinError lines [] .command trivial

end LightningRelay
