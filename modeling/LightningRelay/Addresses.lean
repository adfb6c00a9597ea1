import LightningRelay.Devnet
import LightningRelay.Visit
import Mathlib.Data.List.Infix

/-!
# Which addresses are accepted

`request_swap` asks `validate_address` for a human-readable part that begins with that of the relay's
network, `request_offramp` asks for none.  What both make sure of is the length of the payload and
where the key hash comes from; that the address belongs to the relay's network takes two checks more
(`Ramp.strict`), which are not made.

* `validateAddress_eq_ok_iff`: what an accepted address is.
* `own_network_iff`: an accepted address is one of the relay's network just when the missing checks
  would have passed.
-/

set_option autoImplicit false

namespace LightningRelay

open Async

theorem startsWith_iff {s pat : String} : startsWith s pat = true ↔ pat.toList <+: s.toList :=
  List.isPrefixOf_iff_prefix

theorem startsWith_self (s : String) : startsWith s s = true :=
  startsWith_iff.2 (List.prefix_refl _)

/-- A text that begins with another and is not longer is that other one. -/
theorem eq_of_startsWith {s pat : String} (h : startsWith s pat = true)
    (hlen : s.length ≤ pat.length) : s = pat := by
  rw [← String.length_toList, ← String.length_toList] at hlen
  exact (String.toList_inj.1 ((startsWith_iff.1 h).eq_of_length_le hlen)).symm

/-- A text that `validate_address` accepts, with its human-readable part and its payload. -/
structure Decodes (cfg : Config) (address hrp : String) (payload : List ℕ) : Prop where
  decode : ∃ data5, cfg.bech32Decode address = .ok (hrp, data5) ∧ cfg.fromBase32 data5 = .ok payload
  cardano : startsWith hrp "addr" = true
  length : payload.length = 29 ∨ payload.length = 57

/-- The key hash of a payload: bytes 1 to 28, in lowercase hex. -/
def keyHash (payload : List ℕ) : String := hexEncode ((payload.drop 1).take 28)

/-- What `validate_address` accepts, and what it returns. -/
theorem validateAddress_eq_ok_iff {cfg : Config} {address pkh : String}
    {expected : Option String} : validateAddress cfg address expected = .ok pkh ↔
      ∃ hrp payload, Decodes cfg address hrp payload ∧
        (∀ p, expected = some p → startsWith hrp p = true) ∧ pkh = keyHash payload := by
  unfold validateAddress
  rcases hdec : cfg.bech32Decode address with e | ⟨hrp, data5⟩
  · refine ⟨nofun, fun ⟨hrp, payload, ⟨⟨data5, hd, _⟩, _, _⟩, _⟩ => ?_⟩
    rw [hdec] at hd
    cases hd
  constructor
  · intro h
    dsimp only at h
    split_ifs at h with hcard
    rw [Bool.not_eq_true, Bool.not_eq_false'] at hcard
    rcases hfil : expected.filter fun p => !startsWith hrp p with _ | p
    swap
    · rw [hfil] at h
      cases h
    rw [hfil] at h
    rcases hbase : cfg.fromBase32 data5 with e | payload
    · rw [hbase] at h
      cases h
    rw [hbase] at h
    dsimp only at h
    split_ifs at h with hshort hlen
    refine ⟨hrp, payload, ⟨⟨data5, hdec, hbase⟩, hcard, ?_⟩, ?_, (Except.ok.inj h).symm⟩
    · simp only [Bool.and_eq_true, decide_eq_true_eq, not_and, not_not] at hlen
      by_cases h57 : payload.length = 57
      · exact Or.inr h57
      · exact Or.inl (hlen h57)
    · rintro p rfl
      simpa using Option.filter_eq_none_iff.1 hfil p rfl
  · rintro ⟨hrp', payload, ⟨⟨data5', hd, hbase⟩, hcard, hlen⟩, hexp, rfl⟩
    rw [hdec] at hd
    obtain ⟨rfl, rfl⟩ := Prod.mk.inj (Except.ok.inj hd)
    have hfil : (expected.filter fun p => !startsWith hrp p) = none := by
      rw [Option.filter_eq_none_iff]
      intro p hp
      simp [hexp p hp]
    have hshort : ¬ payload.length < 29 := by omega
    have hlong : ¬ (payload.length ≠ 57 && payload.length ≠ 29) = true := by
      rcases hlen with h | h <;> simp [h]
    simp only [hcard, Bool.not_true, Bool.false_eq_true, if_false, hfil, hbase, hshort, hlong]
    rfl

/-! ## The two entry points -/

/-- The two functions that take the address of a user. -/
inductive Ramp where
  | onramp
  | offramp
  deriving DecidableEq, Repr

/-- The human-readable part of the addresses of the relay's network. -/
def networkHrp (cfg : Config) : String :=
  if startsWith cfg.operatorAddress "addr_test" then "addr_test" else "addr"

/-- The address validation of `request_swap` and of `request_offramp`: the key hash. -/
def Ramp.validate (cfg : Config) : Ramp → String → Except String String
  | .onramp, address => validateAddress cfg address (some (networkHrp cfg))
  | .offramp, address => addressToPkh cfg address

/-- The key hash for which an operation creates an on-chain entry. -/
def Op.entersFor? : Op → Option String
  | .operator _ (.createInvoice _ ownerPkh _ _) => some ownerPkh
  | .operator _ (.createOfframp _ _ refundPkh _) => some refundPkh
  | _ => none

/-- `request_swap` creates an entry only for the key hash of an address that got past validation. -/
theorem validated_requestSwap (cfg : Config) (amount : ℤ) (address : String) (expiryMs : ℤ) :
    (requestSwap cfg amount address expiryMs).Only fun o => ∀ pkh, o.entersFor? = some pkh →
      Ramp.onramp.validate cfg address = .ok pkh := by
  unfold requestSwap
  dsimp only
  rcases hval : validateAddress cfg address _ with e | ownerPkh
  · trivial
  refine only_perform nofun fun now => (only_submitContractTxWithRetry (fun _ => nofun) ?_).bind ?_
  · refine only_perform ?_ ?_
    · rintro pkh ⟨⟩
      exact hval
    rintro (e | ⟨id, tx⟩)
    · trivial
    refine only_perform nofun ?_
    rintro (e | hash) <;> trivial
  · rintro (e | ⟨id, hash⟩) <;> trivial

theorem validated_requestOfframp (cfg : Config) (bolt11 : String) (amount : ℤ) (address : String)
    (expiryMs : ℤ) : (requestOfframp cfg bolt11 amount address expiryMs).Only fun o =>
      ∀ pkh, o.entersFor? = some pkh → Ramp.offramp.validate cfg address = .ok pkh := by
  unfold requestOfframp
  rcases cfg.bolt11FromStr bolt11 with e | invoice
  · trivial
  refine only_perform nofun ?_
  rintro (_ | existing)
  swap
  · trivial
  dsimp only
  split_ifs
  · trivial
  rcases cbtcToMsat amount with _ | amt
  · trivial
  dsimp only
  rcases mismatch? invoice amt with _ | invAmt
  swap
  · trivial
  dsimp only
  rcases hval : addressToPkh cfg address with e | refundPkh
  · trivial
  refine only_perform nofun fun now => (only_submitContractTxWithRetry (fun _ => nofun) ?_).bind ?_
  · refine only_perform ?_ ?_
    · rintro pkh ⟨⟩
      exact hval
    rintro (e | ⟨id, tx⟩)
    · trivial
    refine only_perform nofun ?_
    rintro (e | hash) <;> trivial
  rintro (e | ⟨id, hash⟩)
  · trivial
  refine only_perform nofun ?_
  rintro (_ | _)
  · exact nofun
  · trivial

/-- The address is one of the relay's own network, and the key hash is its own. -/
def OwnNetwork (cfg : Config) (address pkh : String) : Prop :=
  ∃ payload, Decodes cfg address (networkHrp cfg) payload ∧ pkh = keyHash payload

/-- The checks that are not made: the human-readable part is not longer than that of the network,
and in `request_offramp` it begins with that of the network. -/
def Ramp.strict (cfg : Config) (ramp : Ramp) (address : String) : Bool :=
  match cfg.bech32Decode address with
  | .ok (hrp, _) =>
    hrp.length ≤ (networkHrp cfg).length && (ramp = .onramp || startsWith hrp (networkHrp cfg))
  | .error _ => false

theorem decodes_of_validate {cfg : Config} {ramp : Ramp} {address pkh : String}
    (h : ramp.validate cfg address = .ok pkh) : ∃ hrp payload, Decodes cfg address hrp payload ∧
      (ramp = .onramp → startsWith hrp (networkHrp cfg) = true) ∧ pkh = keyHash payload := by
  cases ramp with
  | onramp =>
    obtain ⟨hrp, payload, hdec, hexp, hpkh⟩ := validateAddress_eq_ok_iff.1 h
    exact ⟨hrp, payload, hdec, fun _ => hexp _ rfl, hpkh⟩
  | offramp =>
    have h : validateAddress cfg address none = .ok pkh := h
    obtain ⟨hrp, payload, hdec, -, hpkh⟩ := validateAddress_eq_ok_iff.1 h
    exact ⟨hrp, payload, hdec, nofun, hpkh⟩

/-- An address that got past validation is one of the relay's own network, with a payload of 29 or 57
bytes whose bytes 1 to 28 are the returned key hash, just when the checks that are not made would
have passed. -/
theorem own_network_iff {cfg : Config} {ramp : Ramp} {address pkh : String}
    (h : ramp.validate cfg address = .ok pkh) :
    OwnNetwork cfg address pkh ↔ ramp.strict cfg address = true := by
  obtain ⟨hrp, payload, hdec, honramp, rfl⟩ := decodes_of_validate h
  obtain ⟨data5, hd, hbase⟩ := hdec.decode
  simp only [Ramp.strict, hd, Bool.and_eq_true, Bool.or_eq_true, decide_eq_true_eq]
  constructor
  · rintro ⟨payload', ⟨⟨data5', hd', -⟩, -, -⟩, -⟩
    rw [hd] at hd'
    obtain ⟨rfl, -⟩ := Prod.mk.inj (Except.ok.inj hd')
    exact ⟨Nat.le_refl _, Or.inr (startsWith_self _)⟩
  · rintro ⟨hlen, hpre⟩
    have hstart : startsWith hrp (networkHrp cfg) = true := hpre.elim honramp id
    obtain rfl := eq_of_startsWith hstart hlen
    exact ⟨payload, hdec, rfl⟩

theorem own_network_iff_devnet :
    Ramp.onramp.validate Devnet.config Devnet.userAddress =
      .ok "b06fd732855606d1de25ea12b901c0bfe12eb0ee51c3db0cf66fcd0a" ∧
    OwnNetwork Devnet.config Devnet.userAddress
      "b06fd732855606d1de25ea12b901c0bfe12eb0ee51c3db0cf66fcd0a" := by
  have h : Ramp.onramp.validate Devnet.config Devnet.userAddress =
      .ok "b06fd732855606d1de25ea12b901c0bfe12eb0ee51c3db0cf66fcd0a" := by decide +kernel
  exact ⟨h, (own_network_iff h).2 (by decide +kernel)⟩

/-- The devnet's parsers with an operator on the main network. -/
def mainnet : Config :=
  { Devnet.config with
    operatorAddress := "addr1vpyae4kdpj49sw4g59jtfzxglnyn0kcscfdg8nep0wn9z8c" }

set_option maxRecDepth 100000 in
/-- A relay on the main network accepts an address of the test network on both ramps, and creates the
LM invoice of a swap for it. -/
theorem mainnet_accepts_testnet :
    (∀ ramp : Ramp, ramp.validate mainnet Devnet.userAddress =
      .ok "b06fd732855606d1de25ea12b901c0bfe12eb0ee51c3db0cf66fcd0a") ∧
    (∀ pkh, ¬ OwnNetwork mainnet Devnet.userAddress pkh) ∧
    ((requestSwap mainnet 50 Devnet.userAddress 3600000).exec
      (Visit.act 3 (.handleSwapRequest "127.0.0.1" ⟨50, Devnet.userAddress⟩))
      (.start Devnet.fresh fun _ => ⟨Devnet.ok, 0, false⟩)).1.any (fun r => r.isOk) = true := by
  refine ⟨fun ramp => by cases ramp <;> decide +kernel, ?_, by decide +kernel⟩
  rintro pkh ⟨payload, ⟨⟨data5, hd, -⟩, -, -⟩, -⟩
  have hhrp : networkHrp mainnet = "addr" := by decide +kernel
  rw [hhrp] at hd
  obtain ⟨hne, -⟩ := Prod.mk.inj (Except.ok.inj hd)
  exact absurd hne (by decide)

end LightningRelay
