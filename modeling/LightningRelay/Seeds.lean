import LightningRelay.Async.Restart
import LightningRelay.Codec.Hex
import LightningRelay.Codec.Text

/-!
# The seeds of the node

The node has two secrets, which it makes at its first start and reads at every later one: the seed of
its keys (`start_ldk`) and the mnemonic of its on-chain wallet (`BdkOnchainWallet::new`).  A start that
came up with another secret would leave the channels, or the coins, of the one before behind.

* `node_key_stable_iff`: all starts have the same key, unless reading the file may fail while it is there,
  or the power may fail and the file is not safe from that: a start may stop before it syncs the file, or
  the file system may not take the new entry of the directory to the disk with the file.
* `wallet_seed_stable_iff`: the mnemonic is never synced, so here a failure of the power is enough.
-/

set_option autoImplicit false

namespace LightningRelay

open Async

namespace Seeds

/-- An operation on a file of `β`, or another effect of making a seed. -/
inductive Op (β : Type) where
  | exists?
  | read
  /-- `File::create`, which empties a file that is there. -/
  | create
  | writeAll (data : List β)
  | syncAll
  | random (n : ℕ)
  /-- Derive the keys of the wallet and set up its client. -/
  | openWallet
  | println (line : String)
  | panic (msg : String)

/-- Answers; `read` does not tell its errors apart. -/
@[reducible] def Op.Resp {β : Type} : Op β → Type
  | .exists? => Bool
  | .read => Option (List β)
  | .create | .writeAll _ | .syncAll | .openWallet => Except String Unit
  | .random n => { bytes : List UInt8 // bytes.length = n }
  | .println _ => Unit
  | .panic _ => Empty

section

variable {β : Type}

abbrev perform (o : Op β) : Prog (Op β) Op.Resp o.Resp := Prog.perform o

def panic {α : Type} (msg : String) : Prog (Op β) Op.Resp α := .op (.panic msg) fun e => nomatch e

/-- A key seed. -/
abbrev Key := { bytes : List UInt8 // bytes.length = 32 }

/-- The functions of the crate `bip39` that the wallet uses. -/
structure Bip39 where
  Mnemonic : Type
  fromEntropy : { bytes : List UInt8 // bytes.length = 16 } → Mnemonic
  toString : Mnemonic → List Char
  /-- The mnemonic of a text, without the space around it. -/
  parse : List Char → Except String Mnemonic
  parse_toString : ∀ m, parse (toString m) = .ok m
  fromEntropy_injective : Function.Injective fromEntropy

theorem isWhitespace_of_isDigit {c : Char} (h : Codec.Hex.isDigit c = true) :
    Codec.Text.isWhitespace c = false := by
  obtain ⟨n, hn⟩ := Option.isSome_iff_exists.1 h
  unfold Codec.Hex.value? at hn
  simp only [Codec.Text.isWhitespace, Bool.or_eq_false_iff, Bool.and_eq_false_iff, decide_eq_false_iff_not]
  split_ifs at hn <;> omega

/-- Mnemonics that spell the entropy in hexadecimal digits instead of words. -/
def hexMnemonics : Bip39 where
  Mnemonic := { bytes : List UInt8 // bytes.length = 16 }
  fromEntropy entropy := entropy
  toString m := Codec.Hex.encode m.1
  parse words :=
    match Codec.Hex.decode (Codec.Text.trim (String.ofList words)).toList with
    | none => .error "the mnemonic has an unknown word"
    | some bytes =>
      if h : bytes.length = 16 then .ok ⟨bytes, h⟩ else .error "the mnemonic has a bad word count"
  parse_toString m := by
    have hdigits := (Codec.Hex.decode_eq_some_iff.1 (Codec.Hex.decode_encode m.1)).1
    have htrim : Codec.Text.trim (String.ofList (Codec.Hex.encode m.1)) =
        String.ofList (Codec.Hex.encode m.1) := by
      refine Codec.Text.trim_eq_self fun c hc => isWhitespace_of_isDigit (hdigits c ?_)
      rwa [String.toList_ofList] at hc
    rw [htrim, String.toList_ofList, Codec.Hex.decode_encode]
    exact dif_pos m.2
  fromEntropy_injective := Function.injective_id

variable (B : Bip39)

/-- The wallet with a mnemonic. -/
def openWallet (mnemonic : B.Mnemonic) : Prog (Op Char) Op.Resp (Except String B.Mnemonic) := do
  match ← perform .openWallet with
  | .ok _ => pure (.ok mnemonic)
  | .error e => pure (.error e)

/-- `BdkOnchainWallet::new`, which ends with the first error. -/
def newWallet (seedPath : String) : Prog (Op Char) Op.Resp (Except String B.Mnemonic) := do
  if ← perform .exists? then
    match ← perform .read with
    | none => pure (.error "failed to read the seed")
    | some words =>
      match B.parse words with
      | .error e => pure (.error e)
      | .ok mnemonic => openWallet B mnemonic
  else
    let entropy ← perform (.random 16)
    let mnemonic := B.fromEntropy entropy
    -- `fs::write` creates the file and writes to it
    match ← perform .create with
    | .error e => pure (.error e)
    | .ok _ =>
      match ← perform (.writeAll (B.toString mnemonic)) with
      | .error e => pure (.error e)
      | .ok _ =>
        perform (.println s!"Generated new wallet mnemonic → {seedPath}")
        openWallet B mnemonic

/-- The mnemonic of the wallet, `none` where the node does not start. -/
def walletSeed (seedPath : String) : Prog (Op Char) Op.Resp (Option B.Mnemonic) := do
  match ← newWallet B seedPath with
  | .ok mnemonic => pure (some mnemonic)
  | .error e =>
    perform (.println s!"ERROR: BDK wallet init failed: {e}")
    pure none

/-! ## The machine -/

/-- What may go wrong: a file that is there is not found or cannot be read, a start stops in its middle,
by a signal or by an error of a write, and the power fails.  `fsync` of a new file does not promise its
entry in the directory, so that may be lost with the power as well. -/
structure Faults where
  readFails : Bool
  stops : Bool
  power : Bool
  entryLost : Bool
  deriving DecidableEq, Repr

/-- What an operation does to the file of the seed. -/
inductive Step (f : Faults) : (o : Op β) → DiskFile β → o.Resp → DiskFile β → Prop where
  | found {d : DiskFile β} {r : Bool} : r = d.content.isSome ∨ (f.readFails = true ∧ r = false) →
      Step f .exists? d r d
  | read {d : DiskFile β} {r : Option (List β)} : r = d.content ∨ (f.readFails = true ∧ r = none) →
      Step f .read d r d
  | create {d : DiskFile β} : Step f .create d (.ok ()) ⟨some [], false, d.content.isSome && d.entered⟩
  | notCreated {d : DiskFile β} {e : String} : Step f .create d (.error e) d
  | write {d : DiskFile β} {data : List β} :
      Step f (.writeAll data) d (.ok ()) ⟨d.content.map (· ++ data), false, d.entered⟩
  | notWritten {d : DiskFile β} {data pre : List β} {e : String} : f.stops = true → pre <+: data →
      Step f (.writeAll data) d (.error e) ⟨d.content.map (· ++ pre), false, d.entered⟩
  | sync {d : DiskFile β} : Step f .syncAll d (.ok ()) ⟨d.content, true, d.entered || !f.entryLost⟩
  | notSynced {d : DiskFile β} {e : String} : f.stops = true → Step f .syncAll d (.error e) d
  | random {d : DiskFile β} {n : ℕ} {bytes : { bytes : List UInt8 // bytes.length = n }} :
      Step f (.random n) d bytes d
  | openWallet {d : DiskFile β} {r : Except String Unit} : Step f .openWallet d r d
  | println {d : DiskFile β} {line : String} : Step f (.println line) d () d

/-- What is left of the file. -/
inductive Crash (f : Faults) (d : DiskFile β) : DiskFile β → Prop where
  | stop : f.stops = true → Crash f d d
  | power {d' : DiskFile β} : f.power = true → d.Torn d' → Crash f d d'

/-- The node on its machine. -/
def host (f : Faults) : Host (Op β) Op.Resp (DiskFile β) := ⟨Step f, Crash f⟩

/-! ## What a start finds -/

theorem runs_perform {α : Type} {f : Faults} {o : Op β} {r : o.Resp} {g : o.Resp → Prog (Op β) Op.Resp α}
    {q : Prog (Op β) Op.Resp α} {d d₁ d' : DiskFile β} (hs : Step f o d r d₁)
    (h : (host f).Runs (g r) d₁ q d') : (host f).Runs (perform o >>= g) d q d' :=
  .step hs h

end

/-- All starts that came up had the same secret. -/
def Stable {κ : Type} (starts : List (Option κ)) : Prop :=
  ∀ k k', some k ∈ starts → some k' ∈ starts → k = k'

section

variable {f : Faults} {keys : List (Option Key)} {d d' : DiskFile UInt8}

/-- The file of the key is safe from a failure of the power once a start has returned. -/
def Faults.keyDurable (f : Faults) : Bool := !f.power || (!f.stops && !f.entryLost)

/-- The file holds the key that was used, if there was one, and the disk does. -/
structure KeyKept (f : Faults) (keys : List (Option Key)) (d : DiskFile UInt8) : Prop where
  content : ∀ k, some k ∈ keys → d.content = some k.1
  durable : f.power = true → d.durable = true

/-- While a start is going on, no key may have been used yet. -/
def KeyPending (f : Faults) (keys : List (Option Key)) (d : DiskFile UInt8) : Prop :=
  (∀ k, some k ∉ keys) ∨ KeyKept f keys d

theorem KeyKept.crash (hf : f.keyDurable = true) (h : KeyPending f keys d) (hc : Crash f d d') :
    KeyKept f keys d' := by
  rcases h with h | h
  · refine ⟨fun k hk => absurd hk (h k), fun hpower => ?_⟩
    cases hc with
    | stop hstops => simp [Faults.keyDurable, hstops, hpower] at hf
    | power _ ht => exact ht.durable_eq
  · cases hc with
    | stop _ => exact h
    | power hpower ht =>
      exact ⟨fun k hk => (ht.content_eq (h.durable hpower)).trans (h.content k hk),
        fun _ => ht.durable_eq⟩

end

section

variable {B : Bip39} {f : Faults} {ms : List (Option B.Mnemonic)} {d d' : DiskFile Char}

/-- The file holds the mnemonic that was used, if there was one. -/
def MnemonicKept (B : Bip39) (ms : List (Option B.Mnemonic)) (d : DiskFile Char) : Prop :=
  ∀ m, some m ∈ ms → ∃ words, d.content = some words ∧ B.parse words = .ok m

/-- While a start is going on, no mnemonic may have been used yet. -/
def MnemonicPending (B : Bip39) (ms : List (Option B.Mnemonic)) (d : DiskFile Char) : Prop :=
  (∀ m, some m ∉ ms) ∨ MnemonicKept B ms d

/-- The wallet is opened with the mnemonic of the file. -/
theorem openWallet_safe {m : B.Mnemonic} {words : List Char} (hpending : MnemonicPending B ms d)
    (hkept : MnemonicKept B ms d) (hwords : d.content = some words) (hparse : B.parse words = .ok m) :
    (host f).Safe (MnemonicPending B ms) (fun r => MnemonicKept B (r.toOption :: ms)) (openWallet B m) d := by
  refine Host.safe_perform hpending fun r d₁ hs => ?_
  cases hs
  rcases r with e | _
  · refine Host.safe_pure hpending fun m' hm' => ?_
    rcases List.mem_cons.1 hm' with hm' | hm'
    · cases hm'
    · exact hkept m' hm'
  · refine Host.safe_pure hpending fun m' hm' => ?_
    rcases List.mem_cons.1 hm' with hm' | hm'
    · rw [Option.some.inj hm']
      exact ⟨words, hwords, hparse⟩
    · exact hkept m' hm'

theorem failedWallet_safe {e : String} (h : MnemonicKept B ms d) : (host f).Safe (MnemonicPending B ms)
    (fun r : Except String B.Mnemonic => MnemonicKept B (r.toOption :: ms)) (pure (.error e)) d := by
  refine Host.safe_pure (Or.inr h) fun m hm => ?_
  rcases List.mem_cons.1 hm with hm | hm
  · cases hm
  · exact h m hm

theorem newWallet_safe (seedPath : String) (hread : f.readFails = false) (h : MnemonicKept B ms d) :
    (host f).Safe (MnemonicPending B ms) (fun r => MnemonicKept B (r.toOption :: ms))
      (newWallet B seedPath) d := by
  refine Host.safe_perform (Or.inr h) fun r d₁ hs => ?_
  cases hs with
  | found hr =>
    obtain rfl : r = d.content.isSome := by simpa [hread] using hr
    rcases hcontent : d.content with _ | words
    · -- there is no mnemonic yet
      have hnone : ∀ m, some m ∉ ms := fun m hm => by
        obtain ⟨words, hwords, -⟩ := h m hm
        simp [hwords] at hcontent
      have hpending : ∀ d, MnemonicPending B ms d := fun d => Or.inl hnone
      have hkept : ∀ d, MnemonicKept B ms d := fun d m hm => absurd hm (hnone m)
      refine Host.safe_perform (hpending _) fun entropy d₁ hs => ?_
      cases hs
      refine Host.safe_perform (hpending _) fun r d₁ hs => ?_
      cases hs with
      | notCreated => exact failedWallet_safe (hkept _)
      | create =>
        refine Host.safe_perform (hpending _) fun r d₁ hs => ?_
        cases hs with
        | notWritten _ _ => exact failedWallet_safe (hkept _)
        | write =>
          refine Host.safe_perform (hpending _) fun r d₁ hs => ?_
          cases hs
          exact openWallet_safe (hpending _) (hkept _) rfl (B.parse_toString _)
    · refine Host.safe_perform (Or.inr h) fun r d₁ hs => ?_
      cases hs with
      | read hr =>
        obtain rfl : r = d.content := by simpa [hread] using hr
        rw [hcontent]
        dsimp only
        rcases hparse : B.parse words with e | m
        · exact failedWallet_safe h
        · exact openWallet_safe (Or.inr h) h hcontent hparse

/-- A start on a file that holds the mnemonic, or on none. -/
theorem walletSeed_safe (seedPath : String) (hread : f.readFails = false) (h : MnemonicKept B ms d) :
    (host f).Safe (MnemonicPending B ms) (fun m => MnemonicKept B (m :: ms)) (walletSeed B seedPath) d := by
  refine (newWallet_safe seedPath hread h).bind ?_
  rintro (e | m) d₁ hpending hkept
  · refine Host.safe_perform hpending fun r d₁ hs => ?_
    cases hs
    exact Host.safe_pure hpending hkept
  · exact Host.safe_pure hpending hkept

/-- A start that makes a mnemonic. -/
theorem runs_newMnemonic (seedPath : String) (entropy : { bytes : List UInt8 // bytes.length = 16 })
    (h : d.content = none ∨ f.readFails = true) :
    (host f).Runs (walletSeed B seedPath) d (.pure (some (B.fromEntropy entropy)))
      ⟨some (B.toString (B.fromEntropy entropy)), false, d.content.isSome && d.entered⟩ := by
  have hfound : Step f .exists? d false d := by
    rcases h with h | h
    · exact .found (Or.inl (by rw [h]; rfl))
    · exact .found (Or.inr ⟨h, rfl⟩)
  have hrandom : Step f (.random 16) d entropy d := .random
  have hopen : ∀ d, Step f (Op.openWallet : Op Char) d (.ok ()) d := fun d => .openWallet
  exact runs_perform hfound (runs_perform hrandom (runs_perform .create (runs_perform .write
    (runs_perform .println (runs_perform (hopen _) .refl)))))

end

end Seeds

/-- Every start of the node has the same wallet exactly if a file that is there is always found and the
power never fails: the file of the mnemonic is not synced. -/
theorem wallet_seed_stable_iff (B : Seeds.Bip39) (seedPath : String) (f : Seeds.Faults) :
    (∀ ms d, (Seeds.host f).Starts (Seeds.walletSeed B seedPath) .missing ms d → Seeds.Stable ms) ↔
      f.readFails = false ∧ f.power = false := by
  let e₁ : { bytes : List UInt8 // bytes.length = 16 } := ⟨List.replicate 16 1, rfl⟩
  let e₂ : { bytes : List UInt8 // bytes.length = 16 } := ⟨List.replicate 16 2, rfl⟩
  have hne : B.fromEntropy e₁ ≠ B.fromEntropy e₂ := B.fromEntropy_injective.ne (by decide)
  constructor
  · intro h
    constructor
    · by_contra hread
      rw [Bool.not_eq_false] at hread
      have hstarts := Host.Starts.returned (.returned .first
        (Seeds.runs_newMnemonic (B := B) (d := .missing) seedPath e₁ (Or.inr hread)) (Or.inl rfl))
        (Seeds.runs_newMnemonic seedPath e₂ (Or.inr hread)) (Or.inl rfl)
      exact hne (h _ _ hstarts _ _ (by simp) (by simp))
    · -- the power fails while the first wallet is in use
      by_contra hpower
      rw [Bool.not_eq_false] at hpower
      have hstarts := Host.Starts.returned (.returned .first
        (Seeds.runs_newMnemonic (B := B) (f := f) (d := .missing) seedPath e₁ (Or.inl rfl))
        (Or.inr (.power hpower (.lost rfl))))
        (Seeds.runs_newMnemonic seedPath e₂ (Or.inl rfl)) (Or.inl rfl)
      exact hne (h _ _ hstarts _ _ (by simp) (by simp))
  · rintro ⟨hread, hpower⟩ ms d hstarts m m' hm hm'
    have hcrash : ∀ {ms d d'}, Seeds.MnemonicPending B ms d → Seeds.Crash f d d' →
        Seeds.MnemonicKept B ms d' := by
      rintro ms d d' hpending (_ | ⟨hp, _⟩)
      · rcases hpending with hnone | hkept
        · exact fun m hm => absurd hm (hnone m)
        · exact hkept
      · simp [hpower] at hp
    have hkept : Seeds.MnemonicKept B ms d :=
      hstarts.invariant (fun m hm => by cases hm) (Seeds.walletSeed_safe seedPath hread) hcrash id
        fun hq hc => hcrash (Or.inr hq) hc
    obtain ⟨words, hwords, hparse⟩ := hkept m hm
    obtain ⟨words', hwords', hparse'⟩ := hkept m' hm'
    obtain rfl := Option.some.inj (hwords.symm.trans hwords')
    exact Except.ok.inj (hparse.symm.trans hparse')

theorem wallet_seed_stable_hex :
    (∀ ms d, (Seeds.host ⟨false, true, false, true⟩).Starts (Seeds.walletSeed Seeds.hexMnemonics "seed")
      .missing ms d → Seeds.Stable ms) ∧
    ¬ ∀ ms d, (Seeds.host ⟨false, false, true, false⟩).Starts
      (Seeds.walletSeed Seeds.hexMnemonics "seed") .missing ms d → Seeds.Stable ms :=
  ⟨(wallet_seed_stable_iff _ _ _).2 ⟨rfl, rfl⟩,
    fun h => Bool.noConfusion ((wallet_seed_stable_iff _ _ _).1 h).2⟩

end LightningRelay
