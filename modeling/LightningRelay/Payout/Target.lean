import LightningRelay.Addresses
import LightningRelay.Value

/-!
# Where refunds go

`request_offramp` keeps the key hash of the user's address in `refund_address`, and the handler of a
failed payment passes that column to `send_cbtc` as the target address.  So the target of a refund is
the hex text of a key hash, in every run (`targets_sound`).  With bech32 this text is never an address:
the human-readable part is the beginning of the text in lower case, and `addr` is not hex
(`refund_not_an_address`).
-/

set_option autoImplicit false

namespace LightningRelay

open Async

namespace Entry

/-- The request that stored an offramp, and the offramp's id. -/
def requested? : Entry → Option (OfframpRequest × ℤ)
  | ⟨_, .handleOfframpRequest _ req, .db (.insertOfframp m), true⟩ => some (req, m.offrampId)
  | _ => none

/-- The offramp for which `send_cbtc` was called, and the target that was passed. -/
def target? : Entry → Option (ℤ × String)
  | ⟨_, _, .operator (.offramp id) (.sendCbtc target _), _⟩ => some (id, target)
  | _ => none

end Entry

/-- The target is an address, and its key hash is that of the user's address. -/
def ReturnsTo (cfg : Config) (target cardanoAddress : String) : Prop :=
  ∃ pkh, addressToPkh cfg target = .ok pkh ∧ addressToPkh cfg cardanoAddress = .ok pkh

namespace Payout

/-- What is kept of the user's address, and what is made of it. -/
structure Targets (cfg : Config) (w : World) : Prop where
  requests : ∀ e ∈ w.log, ∀ req id, e.requested? = some (req, id) →
    ∃ r, w.offramp id = some r ∧ addressToPkh cfg req.cardanoAddress = .ok r.refundAddress
  refunds : ∀ e ∈ w.log, ∀ id target, e.target? = some (id, target) →
    ∃ r, w.offramp id = some r ∧ target = r.refundAddress

section

variable {cfg : Config} {tid : ℕ} {c : Call} {l l' : Value.Stage} {o : Op} {r : o.Resp}
  {w w' : World} {sp : Option Call} {id : ℤ}

theorem requested_of_move (he : Effect tid c o r w w' sp) (hm : Value.Move cfg c l o r l')
    {req : OfframpRequest} (h : (⟨tid, c, o, r⟩ : Entry).requested? = some (req, id)) :
    ∃ x, w'.offramp id = some x ∧ addressToPkh cfg req.cardanoAddress = .ok x.refundAddress := by
  unfold Entry.requested? at h
  split at h
  next heq =>
    obtain ⟨-, rfl, rfl, hb⟩ := Entry.mk.inj heq
    obtain ⟨rfl, rfl⟩ := Prod.mk.inj (Option.some.inj h)
    obtain ⟨ip, req, hreq, -, hpkh⟩ := Value.request_of_insertOfframp hm
    obtain ⟨-, rfl⟩ := Call.handleOfframpRequest.inj hreq
    obtain ⟨x, hx, hamt⟩ := Value.offrampOver_of_insert he (eq_of_heq hb)
    have hnone := SwapDb.insertOfframp_fst_iff.1 (he.answered.symm.trans (eq_of_heq hb))
    obtain ⟨m, hins, rfl⟩ := he.offramp_of_none hnone hx
    obtain rfl := DbCall.insertOfframp.inj (Op.db.inj hins)
    exact ⟨_, hx, hpkh⟩
  next => cases h

theorem target_of_move (he : Effect tid c o r w w' sp) (hm : Value.Move cfg c l o r l')
    (hK : Value.Knows w c l) {target : String}
    (h : (⟨tid, c, o, r⟩ : Entry).target? = some (id, target)) :
    ∃ x, w'.offramp id = some x ∧ target = x.refundAddress := by
  unfold Entry.target? at h
  split at h
  next heq =>
    obtain ⟨-, rfl, rfl, -⟩ := Entry.mk.inj heq
    obtain ⟨rfl, rfl⟩ := Prod.mk.inj (Option.some.inj h)
    cases hm with
    | quiet hq => cases hq
    | ask h => cases h
    | cli hs => cases hs
    | refund =>
      obtain ⟨x, hx, hs⟩ := Value.matches_mono he (hK.row _ rfl)
      exact ⟨x, hx, hs.refundAddress.symm⟩
  next => cases h

theorem targets_move (he : Effect tid c o r w w' sp) (hm : Value.Move cfg c l o r l')
    (hK : Value.Knows w c l) (hT : Targets cfg w) : Targets cfg w' where
  requests e hmem req id hreq := by
    rw [he.log] at hmem
    rcases List.mem_cons.1 hmem with rfl | hmem
    · exact requested_of_move he hm hreq
    · obtain ⟨x, hx, hpkh⟩ := hT.requests e hmem req id hreq
      obtain ⟨y, hy, hs⟩ := offramp_same he hx
      exact ⟨y, hy, hs.refundAddress ▸ hpkh⟩
  refunds e hmem id target htarget := by
    rw [he.log] at hmem
    rcases List.mem_cons.1 hmem with rfl | hmem
    · exact target_of_move he hm hK htarget
    · obtain ⟨x, hx, hpkh⟩ := hT.refunds e hmem id target htarget
      obtain ⟨y, hy, hs⟩ := offramp_same he hx
      exact ⟨y, hy, hs.refundAddress ▸ hpkh⟩

theorem Targets.calm (hc : Calm w w') (hT : Targets cfg w) : Targets cfg w' where
  requests e hmem req id hreq := by
    rw [hc.offramp]
    exact hT.requests e (hc.log ▸ hmem) req id hreq
  refunds e hmem id target htarget := by
    rw [hc.offramp]
    exact hT.refunds e (hc.log ▸ hmem) id target htarget

end

/-- The targets of the refunds, in every run. -/
theorem targets_sound (cfg : Config) (now : ℤ) :
    ((Value.value cfg).extend (Targets cfg) (fun _ _ _ _ => True) fun _ _ _ _ => True).Sound
      (relay cfg) (fun _ _ => True) (World.fresh cfg now) := by
  refine (Value.value_sound cfg now).extend (fun _ _ _ => trivial) ?_
  exact {
    symm := fun _ => trivial
    init := ⟨⟨fun _ h => absurd h List.not_mem_nil, fun _ h => absurd h List.not_mem_nil⟩, trivial⟩
    move := fun turn hp hm =>
      ⟨targets_move (effect_of_perform hp) hm turn.owned.1 turn.shared.2, trivial⟩
    others := fun _ _ _ _ _ _ _ _ => ⟨trivial, trivial⟩
    spawned := fun _ _ _ => ⟨trivial, trivial, fun _ _ _ _ _ => trivial⟩
    abort := fun turn hp => by
      obtain rfl := abort_of_perform hp
      exact ⟨turn.shared.2.calm (calm_restarted _), trivial⟩
    react := fun next hr => next.shared.2.calm (reaction_of_react hr).calm
    reactOthers := fun _ _ _ _ _ _ => trivial
    reactSpawn := fun _ _ => ⟨trivial, fun _ _ _ => trivial⟩
    reactRestart := fun _ _ => trivial }

/-! ## The text of a key hash -/

theorem toLower_hexDigit_ne_r (n : ℕ) : (hexDigit n).toLower ≠ 'r' := by
  have hmem : hexDigit n ∈ "0123456789abcdef".toList := by
    unfold hexDigit
    rw [List.getD_eq_getElem?_getD]
    rcases hget : "0123456789abcdef".toList[n]? with _ | d
    · decide
    · exact List.mem_of_getElem? hget
  have hall : ("0123456789abcdef".toList.all fun d => d.toLower != 'r') = true := by decide
  exact bne_iff_ne.1 (List.all_eq_true.1 hall _ hmem)

/-- Hex text, in either case, does not begin with `addr`. -/
theorem not_startsWith_hexEncode (bytes : List ℕ) {hrp : String}
    (hhrp : hrp.toList <+: (hexEncode bytes).toList.map Char.toLower) :
    startsWith hrp "addr" = false := by
  rw [Bool.eq_false_iff]
  intro hstart
  have hr : 'r' ∈ (hexEncode bytes).toList.map Char.toLower :=
    ((startsWith_iff.1 hstart).trans hhrp).subset (by decide)
  rw [List.mem_map] at hr
  obtain ⟨d, hd, hlower⟩ := hr
  rw [hexEncode, String.toList_ofList, List.mem_flatMap] at hd
  obtain ⟨b, -, hb⟩ := hd
  rcases List.mem_cons.1 hb with rfl | hb
  · exact toLower_hexDigit_ne_r _ hlower
  · obtain rfl := List.mem_singleton.1 hb
    exact toLower_hexDigit_ne_r _ hlower

end Payout

section

variable {cfg : Config} {now : ℤ} {s : Sys} {e e' : Entry} {req : OfframpRequest} {id : ℤ}
  {target : String}

/-- The target of a refund is the key hash of the address in the request. -/
theorem Payout.pkh_of_target (h : Reachable cfg now s) (he : e ∈ s.world.log)
    (hreq : e.requested? = some (req, id)) (he' : e' ∈ s.world.log)
    (htarget : e'.target? = some (id, target)) :
    addressToPkh cfg req.cardanoAddress = .ok target := by
  obtain ⟨L, hL⟩ := (Payout.targets_sound cfg now).holds h
  obtain ⟨x, hx, hpkh⟩ := hL.shared.2.requests e he req id hreq
  obtain ⟨y, hy, rfl⟩ := hL.shared.2.refunds e' he' id target htarget
  rw [hx] at hy
  exact Option.some.inj hy ▸ hpkh

/-- The decoder of bech32 texts: the human-readable part is the beginning of the text, in lower
case. -/
def BeginsWithHrp (cfg : Config) : Prop :=
  ∀ text hrp data5, cfg.bech32Decode text = .ok (hrp, data5) →
    hrp.toList <+: text.toList.map Char.toLower

/-- In every run, what a refund passes to `send_cbtc` is the key hash of the address with which the
offramp was requested, and this text is no address at all, so that no refund goes back to the user. -/
theorem refund_not_an_address (hbech : BeginsWithHrp cfg) (h : Reachable cfg now s)
    (he : e ∈ s.world.log) (hreq : e.requested? = some (req, id)) (he' : e' ∈ s.world.log)
    (htarget : e'.target? = some (id, target)) :
    addressToPkh cfg req.cardanoAddress = .ok target ∧ (∀ pkh, addressToPkh cfg target ≠ .ok pkh) ∧
      ¬ ReturnsTo cfg target req.cardanoAddress := by
  have hhex := Payout.pkh_of_target h he hreq he' htarget
  have hnot : ∀ pkh, addressToPkh cfg target ≠ .ok pkh := by
    intro pkh hpkh
    obtain ⟨_, payload, -, -, rfl⟩ := validateAddress_eq_ok_iff.1 hhex
    obtain ⟨hrp, _, ⟨⟨data5, hdec, -⟩, hcard, -⟩, -⟩ := validateAddress_eq_ok_iff.1 hpkh
    exact Bool.false_ne_true
      ((Payout.not_startsWith_hexEncode _ (hbech _ _ _ hdec)).symm.trans hcard)
  exact ⟨hhex, hnot, fun ⟨pkh, hpkh, _⟩ => hnot pkh hpkh⟩

set_option maxRecDepth 100000 in
/-- The first offramp of the devnet, and its refund. -/
theorem devnet_refunded : ∃ s e e', Reachable Devnet.config Devnet.startTime s ∧
    e ∈ s.world.log ∧
    e.requested? = some (⟨Devnet.invoice1.text, 50, Devnet.userAddress⟩, 1) ∧
    e' ∈ s.world.log ∧
    e'.target? = some (1, "b06fd732855606d1de25ea12b901c0bfe12eb0ee51c3db0cf66fcd0a") := by
  obtain ⟨s, hs, hp⟩ := Devnet.reachable_of_after Devnet.refundedRun (fun s =>
    (s.world.log.any fun e =>
      e.requested? = some (⟨Devnet.invoice1.text, 50, Devnet.userAddress⟩, 1)) &&
    s.world.log.any fun e =>
      e.target? = some (1, "b06fd732855606d1de25ea12b901c0bfe12eb0ee51c3db0cf66fcd0a"))
    (by decide +kernel)
  obtain ⟨hreq, htarget⟩ := Bool.and_eq_true_iff.1 hp
  obtain ⟨e, he, hreq⟩ := List.any_eq_true.1 hreq
  obtain ⟨e', he', htarget⟩ := List.any_eq_true.1 htarget
  exact ⟨s, e, e', hs, he, of_decide_eq_true hreq, he', of_decide_eq_true htarget⟩

theorem beginsWithHrp_devnet : BeginsWithHrp Devnet.config := by
  intro text hrp data5 hdec
  change (if text = Devnet.userAddress then Except.ok ("addr_test", Devnet.userData)
    else Except.error "invalid checksum") = _ at hdec
  split_ifs at hdec with htext
  obtain ⟨rfl, -⟩ := Prod.mk.inj (Except.ok.inj hdec)
  rw [htext]
  decide

theorem refund_not_an_address_devnet : ∃ s e e', Reachable Devnet.config Devnet.startTime s ∧
    e ∈ s.world.log ∧ e' ∈ s.world.log ∧
    addressToPkh Devnet.config Devnet.userAddress =
      .ok "b06fd732855606d1de25ea12b901c0bfe12eb0ee51c3db0cf66fcd0a" ∧
    (∀ pkh, addressToPkh Devnet.config "b06fd732855606d1de25ea12b901c0bfe12eb0ee51c3db0cf66fcd0a" ≠
      .ok pkh) ∧
    ¬ ReturnsTo Devnet.config "b06fd732855606d1de25ea12b901c0bfe12eb0ee51c3db0cf66fcd0a"
      Devnet.userAddress := by
  obtain ⟨s, e, e', hs, he, hreq, he', htarget⟩ := devnet_refunded
  have h := refund_not_an_address beginsWithHrp_devnet hs he hreq he' htarget
  exact ⟨s, e, e', hs, he, he', h⟩

/-- The refund of the first offramp of the devnet goes to a text that is no address. -/
theorem devnet_refund_to_key_hash : ∃ s e e', Reachable Devnet.config Devnet.startTime s ∧
    e ∈ s.world.log ∧
    e.requested? = some (⟨Devnet.invoice1.text, 50, Devnet.userAddress⟩, 1) ∧
    e' ∈ s.world.log ∧
    e'.target? = some (1, "b06fd732855606d1de25ea12b901c0bfe12eb0ee51c3db0cf66fcd0a") ∧
    ¬ ReturnsTo Devnet.config "b06fd732855606d1de25ea12b901c0bfe12eb0ee51c3db0cf66fcd0a"
      Devnet.userAddress := by
  obtain ⟨s, e, e', hs, he, hreq, he', htarget⟩ := devnet_refunded
  refine ⟨s, e, e', hs, he, hreq, he', htarget, fun ⟨pkh, hpkh, _⟩ => ?_⟩
  have herr : addressToPkh Devnet.config
      "b06fd732855606d1de25ea12b901c0bfe12eb0ee51c3db0cf66fcd0a" =
        .error "invalid bech32 address: invalid checksum" := by decide +kernel
  rw [herr] at hpkh
  cases hpkh

end

end LightningRelay
