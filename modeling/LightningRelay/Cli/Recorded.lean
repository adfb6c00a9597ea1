import LightningRelay.Cli.Asked
import LightningRelay.Devnet

/-!
# Payments of a session are recorded first

`session_records_payment`: the command line hands LDK a payment, of whatever kind, only right after it
has stored its entry as Pending, with the amount, and has waited for the store to be written.
-/

set_option autoImplicit false

namespace LightningRelay

open Async Codec

namespace Cli

/-- The id and the amount of the payment that an operation hands to LDK. For a BOLT11 invoice LDK pays the
amount it is given, or that of the invoice. -/
def paid? : Op → Option (String × Option ℕ)
  | .payForOffer _ amtMsat paymentId => some (paymentId, some amtMsat)
  | .payForOfferFromHumanReadableName _ amtMsat paymentId _ => some (paymentId, some amtMsat)
  | .sendSpontaneousPayment _ paymentId _ amtMsat => some (paymentId, some amtMsat)
  | .relay (.ldk (.payForBolt11Invoice invoice amtMsat)) =>
    some (invoice.paymentHash, amtMsat.or invoice.amountMilliSatoshis)
  | _ => none

/-- The operations of a session, newest first. -/
abbrev Record := List (Sigma Op.Resp)

/-- The last operations stored the entry of the payment, Pending and with its amount, and wrote the
store. -/
def Recorded (l : Record) (paymentId : String) (amtMsat : Option ℕ) : Prop :=
  ∃ info older, info.status = .pending ∧ info.amtMsat = amtMsat ∧ amtMsat.isSome = true ∧
    l = ⟨.relay (.persist outboundPaymentsFname), ()⟩ ::
      ⟨.relay (.store (.insertOutbound paymentId info)), ()⟩ :: older

/-- The operation pays nothing, or what is recorded. -/
def PaysRecorded (l : Record) (o : Op) : Prop :=
  ∀ paymentId amtMsat, paid? o = some (paymentId, amtMsat) → Recorded l paymentId amtMsat

abbrev Guards {α : Type} (p : Session α) : Prop :=
  ∀ l, Follows (Guarded PaysRecorded) (fun _ _ => True) p l

section

variable {cfg : Config} {P : Parsers} {line : String} {args : List String} {α β : Type}

theorem paysRecorded_of_none {o : Op} (h : paid? o = none) (l : Record) : PaysRecorded l o := by
  intro _ _ hpaid
  rw [h] at hpaid
  cases hpaid

theorem guards_of_only {p : Session α} (h : p.Only fun o => paid? o = none) : Guards p :=
  (h.imp fun _ ho => paysRecorded_of_none ho).guarded

theorem guards_bind {p : Session α} {f : α → Session β} (hp : Guards p) (hf : ∀ a, Guards (f a)) :
    Guards (p >>= f) := fun l => (hp l).bind fun a l' _ => hf a l'

theorem guards_perform {o : Op} {f : o.Resp → Session α} (h : paid? o = none) (hf : ∀ r, Guards (f r)) :
    Guards (perform o >>= f) := fun l =>
  follows_guarded (paysRecorded_of_none h l) fun r => hf r _

theorem guards_pure (a : α) : Guards (pure a : Session α) := fun _ => trivial

theorem guards_println (text : String) : Guards (println text) :=
  guards_of_only (only_last rfl)

/-- A payment right after its entry is stored and written. -/
theorem guards_pay {o : Op} {f : o.Resp → Session α} {paymentId : String} {amtMsat : ℕ}
    (ho : paid? o = some (paymentId, some amtMsat)) (hf : ∀ r, Guards (f r)) :
    Guards (recordOutbound paymentId amtMsat >>= fun _ => perform o >>= f) := by
  intro l r₁
  refine ⟨_, ⟨rfl, paysRecorded_of_none rfl l⟩, fun r₂ => ⟨_, ⟨rfl, paysRecorded_of_none rfl _⟩, ?_⟩⟩
  refine follows_guarded (fun id amt hpaid => ?_) fun r => hf r _
  rw [ho] at hpaid
  obtain ⟨rfl, rfl⟩ := Prod.mk.inj (Option.some.inj hpaid)
  exact ⟨_, l, rfl, rfl, rfl, rfl⟩

/-- A line pays only with `sendpayment` and `keysend`. -/
theorem paid?_of_asked {o : Op} {word : String} (hwords : Text.words line = word :: args)
    (hsend : word ≠ "sendpayment") (hkeysend : word ≠ "keysend") (h : Asked cfg P [line] o) :
    paid? o = none := by
  -- the only line starts with another word
  have hline : ∀ {l w ws}, l ∈ [line] → Text.words l = w :: ws → w = word := by
    intro l w ws hl hw
    obtain rfl := List.mem_singleton.1 hl
    rw [hwords] at hw
    exact (List.cons.inj hw).1.symm
  cases o with
  | payForOffer offer amtMsat paymentId =>
    rcases h with ⟨l, hl, text, amtStr, rest, hw, -⟩ | ⟨before, l, between, yes, after, heq, hnamed, -⟩
    · exact absurd (hline hl hw).symm hsend
    · obtain ⟨text, hw, -⟩ := hnamed
      exact absurd (hline (heq ▸ List.mem_append_right _ List.mem_cons_self) hw).symm hsend
  | payForOfferFromHumanReadableName hrn amtMsat paymentId resolvers =>
    obtain ⟨l, hl, text, amtStr, rest, hw, -⟩ := h
    exact absurd (hline hl hw).symm hsend
  | sendSpontaneousPayment preimage paymentId payee amtMsat =>
    obtain ⟨l, hl, dest, amtStr, rest, hw, -⟩ := h
    exact absurd (hline hl hw).symm hkeysend
  | relay o =>
    cases o with
    | ldk call =>
      cases call with
      | payForBolt11Invoice invoice amt =>
        obtain ⟨l, hl, text, rest, hw, -⟩ := h
        exact absurd (hline hl hw).symm hsend
      | _ => rfl
    | _ => rfl
  | _ => rfl

theorem payOffer_guards (offer : Offer) (amtMsat : ℕ) (paymentId : String) :
    Guards (payOffer offer amtMsat paymentId) := by
  refine guards_pay rfl ?_
  rintro (e | _) <;> exact guards_println _

theorem keysendCommand_guards : Guards (keysendCommand P args) := by
  cases args with
  | nil => exact guards_println _
  | cons dest rest =>
    rw [keysendCommand]
    rcases toCompressedPubkey P dest with _ | payee
    · exact guards_println _
    cases rest with
    | nil => exact guards_println _
    | cons amtStr rest =>
      dsimp only
      rcases Decimal.unsigned maxU64 amtStr with e | amtMsat
      · exact guards_println _
      refine guards_perform rfl fun preimage => guards_pay rfl ?_
      rintro (e | _)
      · refine guards_of_only (only_perform rfl fun _ => only_perform rfl fun marked => ?_)
        cases marked
        · intro r
          cases r
        · exact only_last rfl
      · exact guards_println _

/-- The amount that is recorded is the one LDK pays. -/
theorem or_of_paymentAmount {inv req : Option ℕ} {amt : ℕ} (h : paymentAmount inv req = .ok amt) :
    req.or inv = some amt := by
  rcases inv with _ | inv <;> rcases req with _ | req
  · cases h
  · exact congrArg some (Except.ok.inj h)
  · exact congrArg some (Except.ok.inj h)
  · simp only [paymentAmount] at h
    split_ifs at h with hne
    obtain rfl := Except.ok.inj h
    simpa [eq_comm] using hne

/-- `send_payment` records the payment before it makes it. -/
theorem sendPayment_guards (invoice : Bolt11Invoice) (amt : Option ℕ) :
    Guards (run (sendPayment invoice amt)) := by
  intro l r
  refine ⟨_, ⟨rfl, paysRecorded_of_none rfl l⟩, ?_⟩
  rcases hpay : paymentAmount invoice.amountMilliSatoshis amt with e | amtMsat
  · trivial
  refine fun _ => ⟨_, ⟨rfl, paysRecorded_of_none rfl _⟩, fun _ => ⟨_, ⟨rfl, paysRecorded_of_none rfl _⟩, ?_⟩⟩
  intro answer
  refine ⟨_, ⟨rfl, fun id amt' hpaid => ?_⟩, ?_⟩
  · obtain ⟨rfl, rfl⟩ := Prod.mk.inj (Option.some.inj hpaid)
    have hamt := or_of_paymentAmount hpay
    exact ⟨_, _, rfl, hamt.symm, by rw [hamt]; rfl, rfl⟩
  · rcases answer with e | _
    · refine fun marked => ⟨_, ⟨rfl, paysRecorded_of_none rfl _⟩, ?_⟩
      cases marked
      · intro r
        cases r
      · exact fun _ => ⟨_, ⟨rfl, paysRecorded_of_none rfl _⟩, trivial⟩
    · trivial

theorem sendpaymentCommand_guards : Guards (sendpaymentCommand cfg P args) := by
  cases args with
  | nil => exact guards_of_only (only_perform rfl fun _ => only_pure _)
  | cons text rest =>
    rw [sendpaymentCommand]
    rcases userAmount rest with e | userAmt
    · exact guards_of_only (only_perform rfl fun _ => only_pure _)
    rcases P.offerFromStr text with _ | offer
    swap
    · refine guards_perform rfl fun paymentId => ?_
      rcases offerAmount offer.amount userAmt with e | amtMsat
      · exact guards_of_only (only_perform rfl fun _ => only_pure _)
      cases userAmt with
      | none => exact guards_pure _
      | some amt =>
        dsimp only
        split_ifs
        · exact guards_of_only (only_perform rfl fun _ => only_pure _)
        · exact guards_bind (payOffer_guards offer amtMsat paymentId) fun _ => guards_pure _
    rcases P.humanReadableName text with _ | hrn
    · rcases cfg.bolt11FromStr text with e | invoice
      · exact guards_of_only (only_perform rfl fun _ => only_pure _)
      · exact guards_bind (sendPayment_guards invoice userAmt) fun _ => guards_pure _
    · refine guards_perform rfl fun paymentId => guards_bind ?_ fun _ => guards_pure _
      cases userAmt with
      | none => exact guards_println _
      | some amtMsat =>
        refine guards_perform rfl fun nodes => ?_
        dsimp only
        split_ifs
        · exact guards_println _
        · refine guards_pay rfl ?_
          rintro (e | _) <;> exact guards_println _

theorem command_guards (enabled : Bool) : Guards (command cfg P enabled line) := by
  unfold command
  split
  case h_1 => exact guards_pure _
  case h_2 => exact guards_pure _
  case h_3 => exact guards_pure _
  case h_4 args hwords => exact sendpaymentCommand_guards
  case h_5 word args _ _ hsend hwords =>
    refine guards_bind ?_ fun _ => guards_pure _
    by_cases hkeysend : word = "keysend"
    · subst hkeysend
      exact keysendCommand_guards
    · have hasked : (simpleCommand P enabled line args word).Only (Asked cfg P [line]) :=
        simpleCommand_asked enabled (List.mem_singleton_self line) hwords
      exact guards_of_only (hasked.imp fun _ ho => paid?_of_asked hwords hsend hkeysend ho)

theorem readLines_guards (enabled : Bool) (stdinError : Option String) (rest : List String)
    (mode : Mode) : Guards (readLines cfg P enabled stdinError mode rest) := by
  induction rest generalizing mode with
  | nil => cases mode <;> exact guards_perform rfl fun _ => guards_println _
  | cons line rest ih =>
    cases mode with
    | command =>
      rw [readLines]
      refine guards_perform rfl fun _ => guards_bind (command_guards enabled) ?_
      rintro (_ | _ | ⟨offer, amtMsat, paymentId⟩)
      · exact ih _
      · exact guards_pure _
      · exact ih _
    | confirm offer amtMsat paymentId =>
      rw [readLines]
      refine guards_perform rfl fun _ => ?_
      split_ifs
      · exact guards_bind (payOffer_guards offer amtMsat paymentId) fun _ => ih _
      · exact ih _
      · exact ih _

end

end Cli

/-- Whatever the operations of a session on the command line are answered, and wherever the process
goes down: where an operation hands LDK a payment, the two before it stored its entry as Pending with
the amount of the payment, and wrote the outbound store to its file. -/
theorem session_records_payment {cfg : Config} {P : Cli.Parsers} {enabled : Bool}
    {stdinError : Option String} {ourNodeId : Cli.PublicKey} {lines : List String}
    {tr before after : List (Sigma Cli.Op.Resp)} {rest : Cli.Session Unit}
    (hrun : (Cli.pollForUserInput cfg P enabled stdinError ourNodeId lines).Replays tr rest)
    {o : Cli.Op} {r : o.Resp} (htr : tr = before ++ ⟨o, r⟩ :: after) {paymentId : String}
    {amtMsat : Option ℕ} (hpaid : Cli.paid? o = some (paymentId, amtMsat)) :
    ∃ info earlier, info.status = .pending ∧ info.amtMsat = amtMsat ∧ amtMsat.isSome = true ∧
      before = earlier ++ [⟨.relay (.store (.insertOutbound paymentId info)), ()⟩,
        ⟨.relay (.persist outboundPaymentsFname), ()⟩] := by
  have hguards : Cli.Guards (Cli.pollForUserInput cfg P enabled stdinError ourNodeId lines) :=
    Cli.guards_perform rfl fun _ => Cli.guards_perform rfl fun _ => Cli.guards_perform rfl fun _ =>
      Cli.readLines_guards enabled stdinError lines .command
  obtain ⟨info, older, hst, hamt, hsome, heq⟩ := (hguards []).guarded hrun htr paymentId amtMsat hpaid
  refine ⟨info, older.reverse, hst, hamt, hsome, ?_⟩
  rw [List.append_nil] at heq
  rw [← List.reverse_reverse before, heq]
  simp

/-- One offer of 5000 msat can be read. -/
def offerParsers : Cli.Parsers where
  publicKeyFromSlice _ := none
  publicKeyFromStr _ := .error "malformed public key"
  offerFromStr text := if text = "lno1" then some ⟨"lno1", some (.bitcoin 5000)⟩ else none
  humanReadableName _ := none
  sha256 preimage := preimage

/-- LDK takes the offer. -/
def offerAnswers : (o : Cli.Op) → Option o.Resp
  | .print _ | .relay (.store (.insertOutbound _ _)) | .relay (.persist _) => some ()
  | .randomBytes => some "id"
  | .payForOffer _ _ _ => some (.ok ())
  | _ => none

/-- The session in which the offer is confirmed at the second question. -/
def offerSession : Cli.Session Unit :=
  Cli.pollForUserInput Devnet.shortConfig offerParsers true none "02"
    ["sendpayment lno1", "what?", "Yes", "quit"]

theorem session_records_payment_offer :
    ∃ before r after rest info earlier,
      offerSession.Replays (before ++ ⟨.payForOffer ⟨"lno1", some (.bitcoin 5000)⟩ 5000 "id", r⟩ :: after) rest ∧
      info.status = .pending ∧ info.amtMsat = some 5000 ∧
      before = earlier ++ [⟨.relay (.store (.insertOutbound "id" info)), ()⟩,
        ⟨.relay (.persist outboundPaymentsFname), ()⟩] := by
  have hmem : Cli.Op.payForOffer ⟨"lno1", some (.bitcoin 5000)⟩ 5000 "id" ∈
      (offerSession.answered offerAnswers).map Sigma.fst := by
    decide +kernel
  obtain ⟨⟨o, r⟩, he, rfl⟩ := List.mem_map.1 hmem
  obtain ⟨before, after, htr⟩ := List.append_of_mem he
  obtain ⟨rest, hrun⟩ := Prog.replays_answered offerAnswers offerSession
  obtain ⟨info, earlier, hst, hamt, -, hbefore⟩ := session_records_payment hrun htr rfl
  exact ⟨before, r, after, rest, info, earlier, htr ▸ hrun, hst, hamt, hbefore⟩

end LightningRelay
