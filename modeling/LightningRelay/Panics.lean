import LightningRelay.Addresses
import LightningRelay.Async.Fatal
import LightningRelay.HexUtils
import Mathlib.Data.String.Basic

/-!
# Panics of the request handlers

With `panic = "abort"` one failed `expect` takes down the whole relay.  On the way of a request there
are these: the two insertions of a row, the length of the BOLT11 description, the entry of the
outbound store that `send_payment` marks failed, the slices of `validate_address` and of the log
prefix of `fulfill_swap`, and the clock.

Only the insertions can fail, and they do when the operator returns an id that has a row already.

* `sure_body`: a handler panics only after an insertion was refused, or after the entry that it made in
  the outbound store was gone.
* `Footing.Held.next`: neither happens where every insertion finds its key free.
-/

set_option autoImplicit false

namespace LightningRelay

open Async Codec

/-- The handlers of requests and the tasks that they lead to. -/
def Call.ofRequest : Call → Bool
  | .handleSwapRequest _ _ | .handleOfframpRequest _ _ | .handleOfframpDeposit _ _ => true
  | .fulfillSwap _ | .completeOfframp _ _ => true
  | _ => false

/-! ## Slices and the clock -/

/-- A slice of bytes (`&data[start..stop]`); out of range it panics. -/
def slice? (data : List ℕ) (start stop : ℕ) : Option (List ℕ) :=
  if start ≤ stop ∧ stop ≤ data.length then some ((data.drop start).take (stop - start)) else none

/-- The first `n` bytes of a text (`&s[..n]`); it panics past the end and inside a character. -/
def strSlice? : ℕ → List Char → Option (List Char)
  | 0, _ => some []
  | _ + 1, [] => none
  | n + 1, c :: cs =>
    if c.utf8Size ≤ n + 1 then (strSlice? (n + 1 - c.utf8Size) cs).map (c :: ·) else none

/-- The `log_prefix` of `fulfill_swap`. -/
def logPrefix? (paymentHash : String) : Option String :=
  (strSlice? (min paymentHash.utf8ByteSize 16) paymentHash.toList).map String.ofList

/-- The clock in milliseconds since 1970 (`duration_since(UNIX_EPOCH)`); before that it panics. -/
def sinceEpoch? (clock : ℤ) : Option ℕ := if 0 ≤ clock then some clock.toNat else none

/-- The slice that `validate_address` takes is in the payload. -/
theorem slice?_of_validateAddress {cfg : Config} {address pkh : String} {expected : Option String}
    (h : validateAddress cfg address expected = .ok pkh) :
    ∃ hrp payload bytes, Decodes cfg address hrp payload ∧ slice? payload 1 29 = some bytes ∧
      pkh = hexEncode bytes := by
  obtain ⟨hrp, payload, hdec, -, rfl⟩ := validateAddress_eq_ok_iff.1 h
  have hlen : 29 ≤ payload.length := by
    rcases hdec.length with h | h <;> omega
  exact ⟨hrp, payload, _, hdec, if_pos ⟨by decide, hlen⟩, rfl⟩

/-- In a text of one-byte characters every cut is between two of them. -/
theorem strSlice?_ascii {cs : List Char} (h : ∀ c ∈ cs, c.utf8Size = 1) :
    ∀ n ≤ cs.length, strSlice? n cs = some (cs.take n) := by
  induction cs with
  | nil =>
    intro n hn
    obtain rfl : n = 0 := Nat.le_zero.1 hn
    rfl
  | cons c cs ih =>
    intro n hn
    obtain ⟨hc, hcs⟩ := List.forall_mem_cons.1 h
    cases n with
    | zero => rfl
    | succ n =>
      have hrest := ih hcs n (Nat.le_of_succ_le_succ hn)
      simp [strSlice?, hc, hrest]

theorem utf8Len_ascii {cs : List Char} (h : ∀ c ∈ cs, c.utf8Size = 1) :
    String.utf8Len cs = cs.length := by
  induction cs with
  | nil => rfl
  | cons c cs ih =>
    obtain ⟨hc, hcs⟩ := List.forall_mem_cons.1 h
    rw [String.utf8Len_cons, ih hcs, hc, List.length_cons]

theorem utf8Size_of_mem_hexStr {bytes : List UInt8} {c : Char}
    (h : c ∈ (HexUtils.hexStr bytes).toList) : c.utf8Size = 1 := by
  have hdecode : Hex.decode (HexUtils.hexStr bytes).toList = some bytes := by
    rw [HexUtils.toList_hexStr, Hex.decode_encode]
  have hdigit : Hex.isDigit c = true := (HexUtils.encodes_iff.2 hdecode).2.1 c h
  exact Char.utf8Size_eq_one_iff.2 (Nat.le_of_lt_succ (Hex.lt_of_isDigit hdigit))

/-- The log prefix of a payment hash, which is the hex text of bytes, is its first sixteen
characters. -/
theorem logPrefix?_hexStr (bytes : List UInt8) : logPrefix? (HexUtils.hexStr bytes) =
    some (String.ofList ((HexUtils.hexStr bytes).toList.take 16)) := by
  have hone : ∀ c ∈ (HexUtils.hexStr bytes).toList, c.utf8Size = 1 :=
    fun c hc => utf8Size_of_mem_hexStr hc
  have hsize : (HexUtils.hexStr bytes).utf8ByteSize = (HexUtils.hexStr bytes).toList.length := by
    rw [← utf8Len_ascii hone, ← String.utf8ByteSize_ofList, String.ofList_toList]
  rw [logPrefix?, hsize, strSlice?_ascii hone _ (Nat.min_le_left ..), Option.map_some,
    Nat.min_comm, ← List.take_eq_take_min]

/-! ## Where a handler stands -/

/-- What a task relies on at its next `expect` or `unwrap`. -/
inductive Footing where
  | firm
  /-- It has an entry in the outbound store. -/
  | recorded (paymentId : String)
  /-- An insertion was refused, or its entry in the outbound store is gone. -/
  | lost

namespace Footing

/-- Where a task stands after an operation. -/
def next : Footing → (o : Op) → o.Resp → Footing
  | _, .db (.insert _), false => .lost
  | _, .db (.insertOfframp _), false => .lost
  | _, .store (.insertOutbound paymentId _), _ => .recorded paymentId
  | .recorded h, .store (.failOutbound paymentId), false =>
    if paymentId = h then .lost else .recorded h
  | f, _, _ => f

/-- Only a task that has lost its footing panics. -/
def Allows (f : Footing) : Op → Prop
  | .panic _ => f = .lost
  | _ => True

/-- The world is as the task relies on it to be. -/
def Held (w : World) : Footing → Prop
  | .firm => True
  | .recorded paymentId => (w.outbound paymentId).isSome = true
  | .lost => False

end Footing

/-- The program panics only where it has lost its footing, starting from `f`. -/
abbrev Sure {α : Type} (Q : α → Footing → Prop) (p : Relay α) (f : Footing) : Prop :=
  Safe Footing.Allows Footing.next Q p f

/-- Operations that neither panic nor change where a task stands. -/
def Op.harmless : Op → Bool
  | .panic _ | .db (.insert _) | .db (.insertOfframp _) | .store (.insertOutbound _ _) => false
  | .store (.failOutbound _) => false
  | _ => true

/-- Every operation of the program is harmless. -/
abbrev Harmless {α : Type} (p : Relay α) : Prop := p.All fun o => o.harmless = true

theorem Footing.allows_of_harmless {o : Op} (h : o.harmless = true) (f : Footing) : f.Allows o := by
  cases o with
  | panic msg => cases h
  | _ => trivial

theorem Footing.next_of_harmless {o : Op} (h : o.harmless = true) (f : Footing) (r : o.Resp) :
    f.next o r = f := by
  cases o with
  | db c =>
    cases c with
    | insert | insertOfframp => cases h
    | _ => cases f <;> rfl
  | store c =>
    cases c with
    | insertOutbound | failOutbound => cases h
    | _ => cases f <;> rfl
  | _ => cases f <;> rfl

/-- The entry that a task has made is not there when it comes to mark it failed. -/
theorem Footing.next_failOutbound_self (paymentId : String) :
    (Footing.recorded paymentId).next (.store (.failOutbound paymentId)) false = .lost :=
  if_pos rfl

section

variable {α β : Type} {f : Footing} {Q : α → Footing → Prop}

/-- A harmless program leaves a task where it stands. -/
theorem Harmless.sure {p : Relay α} (h : Harmless p) : Sure (fun _ f' => f' = f) p f :=
  h.safe (fun _ ho => Footing.allows_of_harmless ho f) fun _ r ho => Footing.next_of_harmless ho f r

theorem Harmless.bind {p : Relay β} {k : β → Relay α} (h : Harmless p) (hk : ∀ b, Sure Q (k b) f) :
    Sure Q (p >>= k) f := by
  refine (Harmless.sure h).bind ?_
  rintro b _ rfl
  exact hk b

theorem sure_perform {o : Op} {k : o.Resp → Relay α} (ho : o.harmless = true)
    (hk : ∀ r, Sure Q (k r) f) : Sure Q (Prog.perform o >>= k) f :=
  Harmless.bind (all_last ho) hk

theorem sure_panic (msg : String) (hf : f = .lost) : Sure Q (panic msg) f :=
  ⟨hf, fun e => nomatch e⟩

end

/-! ## The programs -/

section

variable {α : Type}

theorem harmless_submitContractTxWithRetry {context : String} {maxAttempts delay : ℕ}
    {buildAndSubmit : Relay (Except CardanoError α)} (hb : Harmless buildAndSubmit) :
    Harmless (submitContractTxWithRetry context maxAttempts delay buildAndSubmit) := by
  unfold submitContractTxWithRetry
  generalize "" = lastErr
  suffices h : ∀ left, Harmless (submitAttempts context maxAttempts delay buildAndSubmit left lastErr)
    from h maxAttempts
  intro left
  induction left generalizing lastErr with
  | zero => trivial
  | succ left ih =>
    unfold submitAttempts
    split_ifs
    -- the wait before a further attempt
    on_goal 1 => refine all_perform rfl fun _ => ?_
    all_goals
      refine Prog.All.bind hb ?_
      rintro (e | a)
      · dsimp only
        split_ifs
        · exact ih e
        · trivial
      · trivial

theorem harmless_queryStateWithRetry {about : About} {maxAttempts delay : ℕ} {context : String}
    {findFn : ContractState → Option α} :
    Harmless (queryStateWithRetry about maxAttempts delay context findFn) := by
  unfold queryStateWithRetry
  suffices h : ∀ left, Harmless (queryAttempts about maxAttempts delay context findFn left)
    from h maxAttempts
  intro left
  induction left with
  | zero => trivial
  | succ left ih =>
    unfold queryAttempts
    refine all_perform rfl ?_
    rintro (e | state)
    · dsimp only
      split_ifs
      · exact all_perform rfl fun _ => ih
      · trivial
    · dsimp only
      rcases findFn state with _ | item
      · dsimp only
        split_ifs
        · exact all_perform rfl fun _ => ih
        · exact ih
      · trivial

end

theorem harmless_thenSubmit {about : About} {kind : TxKind} (r : Except CardanoError String) :
    Harmless (thenSubmit about kind r) := by
  rcases r with e | hex
  · trivial
  · exact all_last rfl

theorem harmless_fulfillSwap (h : String) : Harmless (fulfillSwap h) := by
  refine all_perform rfl ?_
  rintro (_ | mapping)
  · trivial
  refine all_perform rfl ?_
  rintro (_ | _)
  · trivial
  refine all_perform rfl fun now => ?_
  dsimp only
  split_ifs
  · exact all_last rfl
  refine Prog.All.bind harmless_queryStateWithRetry ?_
  rintro (e | invoice)
  · exact all_last rfl
  refine Prog.All.bind (harmless_submitContractTxWithRetry ?_) ?_
  · exact all_perform rfl harmless_thenSubmit
  · rintro (e | txHash) <;> exact all_last rfl

theorem harmless_completeOfframp (h preimage : String) : Harmless (completeOfframp h preimage) := by
  refine all_perform rfl ?_
  rintro (_ | mapping)
  · trivial
  refine all_perform rfl ?_
  rintro (_ | _)
  · trivial
  refine all_perform rfl fun _ => Prog.All.bind harmless_queryStateWithRetry ?_
  rintro (e | offramp)
  · exact all_last rfl
  refine Prog.All.bind (harmless_submitContractTxWithRetry ?_) ?_
  · exact all_perform rfl harmless_thenSubmit
  · rintro (e | txHash) <;> exact all_last rfl

/-- The description that `request_swap` returns is made of the prefix and the address. -/
theorem sure_requestSwap (cfg : Config) (amountCbtc : ℤ) (cardanoAddress : String) (expiryMs : ℤ) :
    Sure (fun r f => f = .firm ∧ ∀ x, r = .ok x → x.2.1 = swapPrefix ++ cardanoAddress)
      (requestSwap cfg amountCbtc cardanoAddress expiryMs) .firm := by
  unfold requestSwap
  dsimp only
  rcases validateAddress cfg cardanoAddress _ with e | ownerPkh
  · exact ⟨rfl, nofun⟩
  refine sure_perform rfl fun now => Harmless.bind (harmless_submitContractTxWithRetry ?_) ?_
  · refine all_perform rfl ?_
    rintro (e | ⟨id, tx⟩)
    · trivial
    refine all_perform rfl ?_
    rintro (e | hash) <;> trivial
  · rintro (e | ⟨id, hash⟩)
    · exact ⟨rfl, nofun⟩
    · refine ⟨rfl, ?_⟩
      rintro _ ⟨⟩
      rfl

theorem harmless_createOfframpTx (amountCbtc : ℤ) (paymentHash refundPkh : String) (expiresAt : ℤ) :
    Harmless (createOfframpTx amountCbtc paymentHash refundPkh expiresAt) := by
  refine harmless_submitContractTxWithRetry (all_perform rfl ?_)
  rintro (e | ⟨id, tx⟩)
  · trivial
  refine all_perform rfl ?_
  rintro (e | hash) <;> trivial

/-- The description of an address that a request may have fits the BOLT11 field. -/
theorem description_fits {cardanoAddress : String}
    (h : cardanoAddress.utf8ByteSize ≤ maxCardanoAddrLen) :
    (swapPrefix ++ cardanoAddress).utf8ByteSize ≤ 639 := by
  have hsize : swapPrefix.utf8ByteSize = 10 := by decide
  rw [String.utf8ByteSize_append, hsize]
  rw [maxCardanoAddrLen] at h
  omega

theorem harmless_createInvoiceForSwap {description : String} (h : description.utf8ByteSize ≤ 639)
    (amountCbtc : ℤ) (expirySecs : ℕ) :
    Harmless (createInvoiceForSwap amountCbtc description expirySecs) := by
  unfold createInvoiceForSwap
  rcases cbtcToMsat amountCbtc with _ | amtMsat
  · trivial
  dsimp only
  rw [if_neg (Nat.not_lt.2 h)]
  refine all_perform rfl ?_
  rintro (e | invoice)
  · trivial
  · exact all_perform rfl fun _ => trivial

theorem sure_storeSwapMapping (paymentHash : String) (invoiceId amountCbtc : ℤ)
    (cardanoAddress : String) (expiresAt : ℤ) (createTxHash : String) :
    Sure (fun _ _ => True) (storeSwapMapping paymentHash invoiceId amountCbtc cardanoAddress expiresAt
      createTxHash) .firm := by
  refine sure_perform rfl fun createdAt => safe_perform trivial ?_
  rintro (_ | _)
  · exact sure_panic _ rfl
  · trivial

theorem sure_handleSwapRequest (cfg : Config) (ip : String) (req : SwapRequest) :
    Sure (fun _ _ => True) (handleSwapRequest cfg ip req) .firm := by
  refine sure_perform rfl fun allowed => ?_
  dsimp only
  split_ifs with hallowed hamount hlen
  · trivial
  · trivial
  · trivial
  refine sure_perform rfl fun active => ?_
  split_ifs
  · trivial
  refine sure_perform rfl fun state => ?_
  rcases insufficient req.amountCbtc state with _ | available
  swap
  · trivial
  refine (sure_requestSwap ..).bind ?_
  rintro (e | ⟨invoiceId, description, createTxHash⟩) _ ⟨rfl, hdesc⟩
  · trivial
  obtain rfl : description = swapPrefix ++ req.cardanoAddress := hdesc _ rfl
  have hfits := description_fits (Nat.not_lt.1 hlen)
  refine Harmless.bind (harmless_createInvoiceForSwap hfits ..) ?_
  rintro (_ | ⟨bolt11, paymentHash⟩)
  · trivial
  exact sure_perform rfl fun now => (sure_storeSwapMapping ..).bind fun _ _ _ => trivial

theorem sure_requestOfframp (cfg : Config) (bolt11 : String) (amountCbtc : ℤ)
    (cardanoAddress : String) (expiryMs : ℤ) :
    Sure (fun _ _ => True) (requestOfframp cfg bolt11 amountCbtc cardanoAddress expiryMs) .firm := by
  unfold requestOfframp
  rcases cfg.bolt11FromStr bolt11 with e | invoice
  · trivial
  refine sure_perform rfl ?_
  rintro (_ | existing)
  swap
  · trivial
  dsimp only
  split_ifs
  · trivial
  rcases cbtcToMsat amountCbtc with _ | requiredMsat
  · trivial
  dsimp only
  rcases mismatch? invoice requiredMsat with _ | invAmt
  swap
  · trivial
  dsimp only
  rcases addressToPkh cfg cardanoAddress with e | refundPkh
  · trivial
  refine sure_perform rfl fun now => Harmless.bind (harmless_createOfframpTx ..) ?_
  rintro (e | ⟨offrampId, createTxHash⟩)
  · trivial
  refine safe_perform trivial ?_
  rintro (_ | _)
  · exact sure_panic _ rfl
  · trivial

theorem sure_handleOfframpRequest (cfg : Config) (ip : String) (req : OfframpRequest) :
    Sure (fun _ _ => True) (handleOfframpRequest cfg ip req) .firm := by
  refine sure_perform rfl fun allowed => ?_
  split_ifs
  · trivial
  · trivial
  · trivial
  · trivial
  refine sure_perform rfl fun active => ?_
  split_ifs
  · trivial
  refine (sure_requestOfframp ..).bind ?_
  rintro (e | ⟨offrampId, operatorAddress, paymentHash⟩) _ - <;> trivial

theorem sure_sendPayment (invoice : Bolt11Invoice) (required : Option ℕ) :
    Sure (fun _ _ => True) (sendPayment invoice required) .firm := by
  refine sure_perform rfl fun _ => ?_
  rcases paymentAmount invoice.amountMilliSatoshis required with e | amtMsat
  · trivial
  refine safe_perform trivial fun _ => sure_perform rfl fun _ => sure_perform rfl ?_
  rintro (e | _)
  swap
  · trivial
  -- the entry that is marked failed is the one that was made above
  refine safe_perform trivial ?_
  rintro (_ | _)
  · exact sure_panic _ (Footing.next_failOutbound_self _)
  · exact sure_perform rfl fun _ => trivial

theorem sure_payOfframp (cfg : Config) (offrampId : ℤ) (mapping : OfframpMapping) :
    Sure (fun _ _ => True) (payOfframp cfg offrampId mapping) .firm := by
  unfold payOfframp
  rcases cfg.bolt11FromStr mapping.bolt11 with e | invoice
  · trivial
  dsimp only
  rcases cbtcToMsat mapping.amountCbtc with _ | requiredMsat
  · trivial
  refine (sure_sendPayment ..).bind ?_
  rintro (e | _) f -
  · exact sure_perform rfl fun _ => trivial
  · trivial

theorem sure_processOfframpDeposit (cfg : Config) (offrampId : ℤ) (cbtcTxHash : String) :
    Sure (fun _ _ => True) (processOfframpDeposit cfg offrampId cbtcTxHash) .firm := by
  refine sure_perform rfl ?_
  rintro (_ | mapping)
  · trivial
  refine sure_perform rfl fun used => ?_
  rcases usedByOther offrampId used with _ | existing
  swap
  · trivial
  refine sure_perform rfl ?_
  rintro (_ | _)
  · trivial
  refine sure_perform rfl ?_
  rintro (e | _ | _)
  · exact sure_perform rfl fun _ => trivial
  · exact sure_perform rfl fun _ => trivial
  refine sure_perform rfl ?_
  rintro (_ | _)
  · trivial
  · exact sure_payOfframp ..

theorem sure_handleOfframpDeposit (cfg : Config) (ip : String) (req : OfframpDepositRequest) :
    Sure (fun _ _ => True) (handleOfframpDeposit cfg ip req) .firm := by
  refine sure_perform rfl fun allowed => ?_
  split_ifs
  · trivial
  · trivial
  · trivial
  refine (sure_processOfframpDeposit ..).bind ?_
  rintro (e | _) f -
  · trivial
  refine sure_perform rfl ?_
  rintro (_ | mapping) <;> trivial

/-- Whatever is answered, what a request leads to panics only where it has lost its footing. -/
theorem sure_body (cfg : Config) {c : Call} (hc : c.ofRequest = true) :
    Sure (fun _ _ => True) (body cfg c) .firm := by
  cases c with
  | handleSwapRequest ip req => exact (sure_handleSwapRequest ..).bind fun _ _ _ => trivial
  | handleOfframpRequest ip req => exact (sure_handleOfframpRequest ..).bind fun _ _ _ => trivial
  | handleOfframpDeposit ip req => exact (sure_handleOfframpDeposit ..).bind fun _ _ _ => trivial
  | fulfillSwap h => exact (Harmless.sure (harmless_fulfillSwap h)).mono fun _ _ _ => trivial
  | completeOfframp h p =>
    exact (Harmless.sure (harmless_completeOfframp h p)).mono fun _ _ _ => trivial
  | _ => cases hc

/-! ## Runs -/

/-- An insertion finds its key free. -/
def Op.keyFree (w : World) : Op → Bool
  | .db (.insert m) => (w.swap m.paymentHash).isNone
  | .db (.insertOfframp m) => (w.offramp m.offrampId).isNone
  | _ => true

/-- The row that a step inserts has a key that no row has: LDK gives a payment hash that is new to the
swaps, and the operator an id that is new to the offramps. -/
def insertsNew (s : Sys) : Act → Bool
  | .task tid _ =>
    match s.tasks tid with
    | some ⟨_, .op o _⟩ => o.keyFree s.world
    | _ => true
  | .env _ => true

/-- Entries of the outbound store are changed, never removed. -/
theorem outbound_isSome_of_perform {tid : ℕ} {call : Call} {o : Op} {a : Answers} {w w' : World}
    {r : o.Resp} {sp : Option Call} (h : World.perform tid call o a w = .resume r w' sp) {id : String}
    (hid : (w.outbound id).isSome = true) : (w'.outbound id).isSome = true := by
  cases o with
  | store c =>
    obtain ⟨rfl, rfl, rfl⟩ := Outcome.resume.inj h
    cases c with
    | insertOutbound | succeedOutbound | failOutbound =>
      simp only [World.note, World.onStore, Function.update_apply]
      split_ifs with heq
      · simp [← heq, hid]
      · exact hid
    | insertInbound | claimInbound => exact hid
  | ldk c =>
    obtain ⟨rfl, rfl, rfl⟩ := Outcome.resume.inj h
    cases c with
    | payForBolt11Invoice invoice amount =>
      rcases hr : a.ldk (.payForBolt11Invoice invoice amount) with e | u <;> exact hid
    | createBolt11Invoice | claimFunds => exact hid
  | panic msg => cases h
  | _ =>
    obtain ⟨rfl, rfl, rfl⟩ := Outcome.resume.inj h
    exact hid

theorem Footing.Held.of_perform {tid : ℕ} {call : Call} {o : Op} {a : Answers} {w w' : World}
    {r : o.Resp} {sp : Option Call} (h : World.perform tid call o a w = .resume r w' sp) {f : Footing}
    (hf : f.Held w) : f.Held w' := by
  cases f with
  | firm => trivial
  | recorded id => exact outbound_isSome_of_perform h hf
  | lost => exact hf

theorem Footing.Held.of_react {e : Env} {w w' : World} {tasks : ℕ → Option (Task Op Op.Resp Call)}
    {ch : Change Call} (h : react e w tasks = some (w', ch)) {f : Footing} (hf : f.Held w) :
    f.Held w' := by
  cases reaction_of_react h with
  | _ => cases f <;> exact hf

/-- Where every insertion finds its key free, a task keeps its footing. -/
theorem Footing.Held.next {tid : ℕ} {call : Call} {o : Op} {a : Answers} {w w' : World}
    {r : o.Resp} {sp : Option Call} (h : World.perform tid call o a w = .resume r w' sp)
    (hfree : o.keyFree w = true) {f : Footing} (hf : f.Held w) : (f.next o r).Held w' := by
  by_cases hharm : o.harmless = true
  · rw [Footing.next_of_harmless hharm]
    exact hf.of_perform h
  have hkeep := hf.of_perform h
  cases o with
  | db c =>
    obtain ⟨rfl, rfl, rfl⟩ := Outcome.resume.inj h
    cases c with
    | insert m =>
      rw [SwapDb.insert_fst_iff.2 (Option.isNone_iff_eq_none.1 hfree)]
      cases f <;> exact hkeep
    | insertOfframp m =>
      rw [SwapDb.insertOfframp_fst_iff.2 (Option.isNone_iff_eq_none.1 hfree)]
      cases f <;> exact hkeep
    | _ => exact absurd rfl hharm
  | store c =>
    obtain ⟨rfl, rfl, rfl⟩ := Outcome.resume.inj h
    cases c with
    | insertOutbound id info =>
      have hnew : ((World.onStore w (.insertOutbound id info)).2.outbound id).isSome = true := by
        simp [World.onStore]
      cases f <;> exact hnew
    | failOutbound id =>
      cases f with
      | firm => exact hkeep
      | lost => exact hkeep
      | recorded id' =>
        change ((Footing.recorded id').next (.store (.failOutbound id))
          (w.outbound id).isSome).Held _
        by_cases hid : id = id'
        · rw [show (w.outbound id).isSome = true from hid ▸ hf]
          exact hkeep
        · rcases (w.outbound id).isSome with _ | _
          · rw [Footing.next, if_neg hid]
            exact hkeep
          · exact hkeep
    | _ => exact absurd rfl hharm
  | panic msg => cases h
  | _ => exact absurd rfl hharm

/-- A task of a request has a footing that the world bears out. -/
theorem exists_footing {cfg : Config} {w₀ : World} {s : Sys}
    (hs : (relay cfg).Reach (fun s a => insertsNew s a = true) w₀ s) {tid : ℕ}
    {t : Task Op Op.Resp Call} (ht : s.tasks tid = some t) (hc : t.call.ofRequest = true) :
    ∃ f : Footing, f.Held s.world ∧ Sure (fun _ _ => True) t.rest f := by
  refine hs.each (I := fun w t => t.call.ofRequest = true → ∃ f : Footing, f.Held w ∧
    Sure (fun _ _ => True) t.rest f) ?_ ?_ ?_ ?_ ht hc
  · intro w c hc
    exact ⟨.firm, trivial, sure_body cfg hc⟩
  · intro s tid c o k a r w sp hok ht hp hI hc
    obtain ⟨f, hf, -, hk⟩ := hI hc
    have hfree : o.keyFree s.world = true := by
      simpa only [insertsNew, ht] using hok
    exact ⟨f.next o r, hf.next hp hfree, hk r⟩
  · intro tid c o a w r w' sp t hp hI hc
    obtain ⟨f, hf, hsure⟩ := hI hc
    exact ⟨f, hf.of_perform hp, hsure⟩
  · intro e w tasks w' ch t hr hI hc
    obtain ⟨f, hf, hsure⟩ := hI hc
    exact ⟨f, hf.of_react hr, hsure⟩

/-- The next operation of such a task is no panic. -/
theorem ne_panic_of_reach {cfg : Config} {w₀ : World} {s : Sys}
    (hs : (relay cfg).Reach (fun s a => insertsNew s a = true) w₀ s) {tid : ℕ} {c : Call} {o : Op}
    {k : o.Resp → Relay Unit} (ht : s.tasks tid = some ⟨c, .op o k⟩) (hc : c.ofRequest = true)
    (msg : String) : o ≠ .panic msg := by
  rintro rfl
  obtain ⟨f, hf, hlost, -⟩ := exists_footing hs ht hc
  rw [show f = .lost from hlost] at hf
  exact hf

theorem clock_of_reach {cfg : Config} {ok : Sys → Act → Prop} {w₀ : World} {s : Sys}
    (hclock : 0 ≤ w₀.clock) (hs : (relay cfg).Reach ok w₀ s) : 0 ≤ s.world.clock := by
  refine hs.always (J := fun w => 0 ≤ w.clock) hclock ?_ ?_ ?_
  · intro tid c o a w r w' sp hp hw
    rw [(effect_of_perform hp).clock]
    exact hw
  · intro tid c o a w w' hp hw
    rw [abort_of_perform hp]
    exact hw
  · intro e w tasks w' ch hr hw
    exact Int.le_trans hw (reaction_of_react hr).calm.clock

/-- Where every insertion finds its key free and the clock shows 1970 or later, nothing that a request
leads to takes the relay down: a task of a request is never at a panic, and left alone it comes to its
end; and the slices and the clock reading that the handlers unwrap are in range. -/
theorem requests_never_panic {cfg : Config} {w₀ : World} {s : Sys} (hclock : 0 ≤ w₀.clock)
    (hs : (relay cfg).Reach (fun s a => insertsNew s a = true) w₀ s) :
    (∀ tid t, s.tasks tid = some t → t.call.ofRequest = true →
      (∀ a, goesDown s (.task tid a) = false) ∧
      ∀ answers : ℕ → Answers, ∃ n s',
        (relay cfg).run insertsNew s (Runtime.turnsOf tid answers n) = some s' ∧
          ((∃ t', s'.tasks tid = some t' ∧ t'.rest.ended = true) ∨
            insertsNew s' (.task tid (answers n)) = false)) ∧
    (∃ ms, sinceEpoch? s.world.clock = some ms) ∧
    (∀ address expected pkh, validateAddress cfg address expected = .ok pkh →
      ∃ hrp payload bytes, Decodes cfg address hrp payload ∧ slice? payload 1 29 = some bytes ∧
        pkh = hexEncode bytes) ∧
    ∀ bytes, logPrefix? (HexUtils.hexStr bytes) =
      some (String.ofList ((HexUtils.hexStr bytes).toList.take 16)) := by
  refine ⟨?_, ⟨_, if_pos (clock_of_reach hclock hs)⟩, ?_, logPrefix?_hexStr⟩
  · intro tid t ht hc
    constructor
    · intro a
      obtain ⟨c, _ | ⟨o, k⟩⟩ := t
      · simp only [goesDown, ht]
      · cases o with
        | panic msg => exact absurd rfl (ne_panic_of_reach hs ht hc msg)
        | _ => simp only [goesDown, ht]
    · intro answers
      refine hs.ends (p := fun c => c.ofRequest = true) ?_ ht hc answers
      intro s tid c o k a w hs ht hc hp
      cases o with
      | panic msg => exact ne_panic_of_reach hs ht hc msg rfl
      | _ => cases hp
  · intro address expected pkh h
    exact slice?_of_validateAddress h

/-! ### A contract that was deployed again

The relay of the devnet with the `swaps.db` of an earlier deployment, in which offramp 1 is completed.
The new contract counts its ids from the beginning. -/

/-- The offramp of the earlier deployment. -/
def devnetEarlier : OfframpMapping where
  offrampId := 1
  bolt11 := "lnbcrt500n2"
  paymentHash := "162b58b7"
  amountCbtc := 50
  cbtcTxHash := "db9a16aa"
  status := .completed
  createdAt := Devnet.startTime
  lightningPreimage := none
  depositTxHash := none
  errorMessage := none
  cardanoOfframpTxHash := some "create"
  refundAddress := ""
  expiresAt := Devnet.startTime

def devnetRedeployed : World :=
  { World.fresh Devnet.shortConfig Devnet.startTime with
    db := (SwapDb.empty.call (.insertOfframp devnetEarlier)).2 }

/-- Whether a run that meets a condition ends in a state with some property. -/
def devnetRedeployedEnds (ok : Sys → Act → Bool) (as : List Act) (p : Sys → Bool) : Bool :=
  ((relay Devnet.shortConfig).run ok ((relay Devnet.shortConfig).initial devnetRedeployed) as).any p

set_option maxRecDepth 100000 in
/-- A request whose entry gets the id 2 is answered. -/
theorem requests_never_panic_devnet :
    ∃ s, (relay Devnet.shortConfig).Reach (fun s a => insertsNew s a = true) devnetRedeployed s ∧
      (∃ t, s.tasks 3 = some t ∧ t.call.ofRequest = true ∧ t.rest.ended = true ∧
        ∀ a, goesDown s (.task 3 a) = false) ∧
      ∃ ms, sinceEpoch? s.world.clock = some ms := by
  have hrun : devnetRedeployedEnds insertsNew
      (Devnet.boot ++ Devnet.offrampRequest 3 2 Devnet.shortInvoice)
      (fun s => (s.tasks 3).any fun t => t.call.ofRequest && t.rest.ended) = true := by
    decide +kernel
  obtain ⟨s, hs, hp⟩ := Runtime.exists_reach_of_run hrun
  obtain ⟨t, ht, hp⟩ := (Option.any_eq_true _ _).1 hp
  rw [Bool.and_eq_true] at hp
  have hall := requests_never_panic (show (0 : ℤ) ≤ devnetRedeployed.clock by decide) hs
  exact ⟨s, hs, ⟨t, ht, hp.1, hp.2, (hall.1 3 t ht hp.1).1⟩, hall.2.1⟩

set_option maxRecDepth 100000 in
/-- A request whose entry gets the id 1 takes the relay down, and is never answered. -/
theorem devnet_redeployed_panics :
    ∃ s, (relay Devnet.shortConfig).Reach (fun _ _ => True) devnetRedeployed s ∧
      (∃ t, s.tasks 3 = some t ∧ t.call.ofRequest = true) ∧
      goesDown s (.task 3 Devnet.ok) = true ∧
      ∃ s', (relay Devnet.shortConfig).step s (.task 3 Devnet.ok) = some s' ∧ s'.tasks 3 = none := by
  have hrun : devnetRedeployedEnds (fun _ _ => true)
      (Devnet.boot ++ Devnet.offrampRequest 3 1 Devnet.shortInvoice)
      (fun s => ((s.tasks 3).any fun t => t.call.ofRequest) && goesDown s (.task 3 Devnet.ok) &&
        ((relay Devnet.shortConfig).step s (.task 3 Devnet.ok)).any fun s' =>
          (s'.tasks 3).isNone) = true := by
    decide +kernel
  obtain ⟨s, hs, hp⟩ := Runtime.exists_reach_of_run hrun
  simp only [Bool.and_eq_true, Option.any_eq_true, Option.isNone_iff_eq_none] at hp
  exact ⟨s, hs.mono fun _ _ _ => trivial, hp.1.1, hp.1.2, hp.2⟩

end LightningRelay
