import Mathlib.Algebra.Group.Nat.Defs
import Mathlib.Logic.Function.Basic
import Mathlib.Tactic.Common

/-!
# Fee estimates

The fee table of `esplora.rs`: eight confirmation targets, five of which follow the estimates that
the Esplora server delivers for 1, 6 and 25 blocks.  Every stored feerate is clamped between the floor
of LDK and a cap, which for the three normal targets is configured and for the two urgent ones at least
50000.  The table that a client starts with is not clamped: it reports 2000 for non-anchor channels
until an estimate for 6 blocks has arrived.  So the bounds hold of every report just when the cap is
at least 2000 or the update that `new` makes delivers that estimate (`reports_allowed_iff`).

The conversion from sat/vB is a parameter: any function of the delivered number.
-/

set_option autoImplicit false

namespace LightningRelay

namespace Esplora

/-- The targets of LDK's `FeeEstimator`. -/
inductive ConfirmationTarget where
  | maximumFeeEstimate
  | urgentOnChainSweep
  | minAllowedAnchorChannelRemoteFee
  | minAllowedNonAnchorChannelRemoteFee
  | anchorChannelFee
  | nonAnchorChannelFee
  | channelCloseMinimum
  | outputSpendingFee
  deriving DecidableEq, Repr

def minFeerate : ℕ := 253

def defaultNormalMaxFeerateSatPerKwu : ℕ := 5000

def defaultHighPriorityMaxFeerateSatPerKwu : ℕ := 50000

/-! ## The configured cap -/

/-- The number that a text of decimal digits writes. -/
def digits? : List Char → Option ℕ
  | [] => none
  | cs => cs.foldlM (fun n c => if c.isDigit then some (n * 10 + (c.toNat - '0'.toNat)) else none) 0

/-- The parser of `u32`: decimal digits after an optional plus sign, without overflow. -/
def parseU32 (s : String) : Option ℕ :=
  let number := match s.toList with
    | '+' :: cs => digits? cs
    | cs => digits? cs
  number.filter fun n => n < 2 ^ 32

/-- The cap that the text of `LDK_MAX_FEERATE_SAT_PER_KWU` configures. -/
def maxFeerateSatPerKwuFromValue (value : Option String) : ℕ :=
  ((value.bind parseU32).filter fun v => minFeerate ≤ v).getD defaultNormalMaxFeerateSatPerKwu

def highPriorityMaxFeerateSatPerKwu (normalMaxSatKwu : ℕ) : ℕ :=
  max normalMaxSatKwu defaultHighPriorityMaxFeerateSatPerKwu

theorem minFeerate_le_fromValue (value : Option String) :
    minFeerate ≤ maxFeerateSatPerKwuFromValue value := by
  unfold maxFeerateSatPerKwuFromValue
  rcases h : (value.bind parseU32).filter fun v => minFeerate ≤ v with _ | v
  · decide
  · obtain ⟨-, hv⟩ := Option.filter_eq_some_iff.1 h
    exact of_decide_eq_true hv

/-! ## Updates -/

/-- The table of feerates: `new` inserts every target, so a lookup finds it. -/
abbrev Fees : Type := ConfirmationTarget → ℕ

/-- The table before the first update. -/
def initialFees : Fees
  | .maximumFeeEstimate => 50000
  | .urgentOnChainSweep => 5000
  | .minAllowedAnchorChannelRemoteFee => minFeerate
  | .minAllowedNonAnchorChannelRemoteFee => minFeerate
  | .anchorChannelFee => minFeerate
  | .nonAnchorChannelFee => 2000
  | .channelCloseMinimum => minFeerate
  | .outputSpendingFee => minFeerate

structure FeeEstimateUpdate (F64 : Type) where
  target : ConfirmationTarget
  sourceBlocks : String
  rawSatVb : F64
  convertedSatKwu : ℕ
  assignedSatKwu : ℕ
  wasClamped : Bool
  deriving Repr

section Updates

variable {F64 : Type} (rawSatVbToSatKwu : F64 → ℕ)

def satVbToSatKwuClamped (satVb : F64) (maxSatKwu : ℕ) : ℕ :=
  min (max (rawSatVbToSatKwu satVb) minFeerate) (max maxSatKwu minFeerate)

/-- The update that `apply_fee` makes and records. -/
def feeUpdate (target : ConfirmationTarget) (sourceBlocks : String) (rawSatVb : F64)
    (maxSatKwu : ℕ) : FeeEstimateUpdate F64 :=
  let convertedSatKwu := max (rawSatVbToSatKwu rawSatVb) minFeerate
  let assignedSatKwu := satVbToSatKwuClamped rawSatVbToSatKwu rawSatVb maxSatKwu
  ⟨target, sourceBlocks, rawSatVb, convertedSatKwu, assignedSatKwu,
    assignedSatKwu ≠ convertedSatKwu⟩

/-- The store of an update into the table. -/
def Fees.store (fees : Fees) (u : FeeEstimateUpdate F64) : Fees :=
  Function.update fees u.target u.assignedSatKwu

def applyFee (st : Fees × List (FeeEstimateUpdate F64)) (target : ConfirmationTarget)
    (sourceBlocks : String) (rawSatVb : F64) (maxSatKwu : ℕ) :
    Fees × List (FeeEstimateUpdate F64) :=
  let u := feeUpdate rawSatVbToSatKwu target sourceBlocks rawSatVb maxSatKwu
  (st.1.store u, st.2 ++ [u])

/-- The body of a delivery: numbers for some of the block targets. -/
abbrev Estimates (F64 : Type) : Type := String → Option F64

def applyFeeEstimates (fees : Fees) (estimates : Estimates F64) (normalMaxSatKwu : ℕ) :
    Fees × List (FeeEstimateUpdate F64) :=
  let highPriorityMaxSatKwu := highPriorityMaxFeerateSatPerKwu normalMaxSatKwu
  let st := (fees, [])
  let st := match estimates "1" with
    | some rate =>
      let st := applyFee rawSatVbToSatKwu st .maximumFeeEstimate "1" rate highPriorityMaxSatKwu
      applyFee rawSatVbToSatKwu st .urgentOnChainSweep "1" rate highPriorityMaxSatKwu
    | none => st
  let st := match estimates "6" with
    | some rate =>
      let st := applyFee rawSatVbToSatKwu st .nonAnchorChannelFee "6" rate normalMaxSatKwu
      applyFee rawSatVbToSatKwu st .channelCloseMinimum "6" rate normalMaxSatKwu
    | none => st
  match estimates "25" with
  | some rate => applyFee rawSatVbToSatKwu st .outputSpendingFee "25" rate normalMaxSatKwu
  | none => st

/-- The part of the client that fee estimation reads and writes. -/
structure EsploraClient where
  fees : Fees
  normalMaxFeerateSatPerKwu : ℕ

/-- The outcome of a request for estimates: `none` when it fails or its body is not a map to numbers. -/
abbrev Delivery (F64 : Type) : Type := Option (Estimates F64)

namespace EsploraClient

def updateFeeEstimates (client : EsploraClient) : Delivery F64 → EsploraClient
  | none => client
  | some estimates =>
    { client with
      fees := (applyFeeEstimates rawSatVbToSatKwu client.fees estimates
        client.normalMaxFeerateSatPerKwu).1 }

/-- The client that `new` returns: it has made one update. -/
def new (value : Option String) (first : Delivery F64) : EsploraClient :=
  updateFeeEstimates rawSatVbToSatKwu ⟨initialFees, maxFeerateSatPerKwuFromValue value⟩ first

def getEstSatPer1000Weight (client : EsploraClient) (target : ConfirmationTarget) : ℕ :=
  client.fees target

/-- The client while an update is being made, after its first `k` stores: reports are read from
another thread. -/
def during (client : EsploraClient) (k : ℕ) : Delivery F64 → EsploraClient
  | none => client
  | some estimates =>
    { client with
      fees := ((applyFeeEstimates rawSatVbToSatKwu client.fees estimates
        client.normalMaxFeerateSatPerKwu).2.take k).foldl Fees.store client.fees }

end EsploraClient

/-! ## What an update stores -/

/-- The updates of a delivery, in the order of their stores. -/
def updates (estimates : Estimates F64) (normalMaxSatKwu : ℕ) : List (FeeEstimateUpdate F64) :=
  (estimates "1").toList.flatMap (fun rate =>
      [feeUpdate rawSatVbToSatKwu .maximumFeeEstimate "1" rate
          (highPriorityMaxFeerateSatPerKwu normalMaxSatKwu),
        feeUpdate rawSatVbToSatKwu .urgentOnChainSweep "1" rate
          (highPriorityMaxFeerateSatPerKwu normalMaxSatKwu)]) ++
    (estimates "6").toList.flatMap (fun rate =>
      [feeUpdate rawSatVbToSatKwu .nonAnchorChannelFee "6" rate normalMaxSatKwu,
        feeUpdate rawSatVbToSatKwu .channelCloseMinimum "6" rate normalMaxSatKwu]) ++
    (estimates "25").toList.map fun rate =>
      feeUpdate rawSatVbToSatKwu .outputSpendingFee "25" rate normalMaxSatKwu

theorem applyFeeEstimates_eq (fees : Fees) (estimates : Estimates F64) (normalMaxSatKwu : ℕ) :
    applyFeeEstimates rawSatVbToSatKwu fees estimates normalMaxSatKwu =
      ((updates rawSatVbToSatKwu estimates normalMaxSatKwu).foldl Fees.store fees,
        updates rawSatVbToSatKwu estimates normalMaxSatKwu) := by
  unfold applyFeeEstimates updates
  rcases estimates "1" with _ | one <;> rcases estimates "6" with _ | six <;>
    rcases estimates "25" with _ | twentyFive <;> rfl

/-- The feerates that a target may report under a cap. -/
def Allowed (normalMaxSatKwu v : ℕ) (target : ConfirmationTarget) : Prop :=
  minFeerate ≤ v ∧ match target with
    | .nonAnchorChannelFee | .channelCloseMinimum | .outputSpendingFee => v ≤ normalMaxSatKwu
    | .maximumFeeEstimate | .urgentOnChainSweep => v ≤ max normalMaxSatKwu 50000
    | .minAllowedAnchorChannelRemoteFee | .minAllowedNonAnchorChannelRemoteFee
    | .anchorChannelFee => v = initialFees target

variable {rawSatVbToSatKwu} {normalMaxSatKwu : ℕ}

theorem satVbToSatKwuClamped_bounds (satVb : F64) {maxSatKwu : ℕ} (h : minFeerate ≤ maxSatKwu) :
    minFeerate ≤ satVbToSatKwuClamped rawSatVbToSatKwu satVb maxSatKwu ∧
      satVbToSatKwuClamped rawSatVbToSatKwu satVb maxSatKwu ≤ maxSatKwu := by
  unfold satVbToSatKwuClamped
  omega

theorem allowed_of_mem_updates (hcap : minFeerate ≤ normalMaxSatKwu) {estimates : Estimates F64}
    {u : FeeEstimateUpdate F64} (hu : u ∈ updates rawSatVbToSatKwu estimates normalMaxSatKwu) :
    Allowed normalMaxSatKwu u.assignedSatKwu u.target := by
  have hhigh : minFeerate ≤ highPriorityMaxFeerateSatPerKwu normalMaxSatKwu :=
    Nat.le_trans hcap (Nat.le_max_left _ _)
  simp only [updates, List.mem_append, List.mem_flatMap, List.mem_map, List.mem_cons,
    List.not_mem_nil, or_false] at hu
  rcases hu with (⟨rate, -, rfl | rfl⟩ | ⟨rate, -, rfl | rfl⟩) | ⟨rate, -, rfl⟩
  · exact satVbToSatKwuClamped_bounds rate hhigh
  · exact satVbToSatKwuClamped_bounds rate hhigh
  · exact satVbToSatKwuClamped_bounds rate hcap
  · exact satVbToSatKwuClamped_bounds rate hcap
  · exact satVbToSatKwuClamped_bounds rate hcap

/-- After stores of allowed feerates a target reports one, if it did so before or was stored. -/
theorem allowed_foldl_store {target : ConfirmationTarget} :
    ∀ (us : List (FeeEstimateUpdate F64)) (fees : Fees),
      (∀ u ∈ us, Allowed normalMaxSatKwu u.assignedSatKwu u.target) →
        (Allowed normalMaxSatKwu (fees target) target ∨ ∃ u ∈ us, u.target = target) →
          Allowed normalMaxSatKwu (us.foldl Fees.store fees target) target := by
  intro us
  induction us with
  | nil =>
    intro fees _ h
    exact h.resolve_right fun ⟨_, hu, _⟩ => List.not_mem_nil hu
  | cons u us ih =>
    intro fees hus h
    rw [List.foldl_cons]
    apply ih _ fun x hx => hus x (List.mem_cons_of_mem _ hx)
    by_cases hu : u.target = target
    · left
      rw [Fees.store, ← hu, Function.update_self]
      exact hus u List.mem_cons_self
    · rw [Fees.store, Function.update_of_ne (Ne.symm hu)]
      refine h.imp_right fun ⟨x, hx, hxt⟩ => ?_
      rcases List.mem_cons.1 hx with rfl | hx
      · exact absurd hxt hu
      · exact ⟨x, hx, hxt⟩

/-! ## Runs -/

/-- Every target reports an allowed feerate. -/
def EsploraClient.Sound (client : EsploraClient) : Prop :=
  ∀ target, Allowed client.normalMaxFeerateSatPerKwu (client.getEstSatPer1000Weight target) target

/-- A delivery with an estimate for 6 blocks. -/
def deliversSix : Delivery F64 → Bool
  | none => false
  | some estimates => (estimates "6").isSome

namespace EsploraClient

variable {client : EsploraClient}

theorem sound_during (hcap : minFeerate ≤ client.normalMaxFeerateSatPerKwu) (h : client.Sound)
    (k : ℕ) (delivery : Delivery F64) : (client.during rawSatVbToSatKwu k delivery).Sound := by
  cases delivery with
  | none => exact h
  | some estimates =>
    intro target
    dsimp only [during, getEstSatPer1000Weight]
    rw [applyFeeEstimates_eq]
    exact allowed_foldl_store _ _ (fun u hu => allowed_of_mem_updates hcap (List.mem_of_mem_take hu))
      (Or.inl (h target))

theorem sound_updateFeeEstimates (hcap : minFeerate ≤ client.normalMaxFeerateSatPerKwu)
    (h : client.Sound) (delivery : Delivery F64) :
    (client.updateFeeEstimates rawSatVbToSatKwu delivery).Sound := by
  cases delivery with
  | none => exact h
  | some estimates =>
    intro target
    dsimp only [updateFeeEstimates, getEstSatPer1000Weight]
    rw [applyFeeEstimates_eq]
    exact allowed_foldl_store _ _ (fun u hu => allowed_of_mem_updates hcap hu) (Or.inl (h target))

theorem cap_updateFeeEstimates (delivery : Delivery F64) :
    (client.updateFeeEstimates rawSatVbToSatKwu delivery).normalMaxFeerateSatPerKwu =
      client.normalMaxFeerateSatPerKwu := by
  cases delivery <;> rfl

theorem cap_foldl_update (deliveries : List (Delivery F64)) : ∀ client : EsploraClient,
    (deliveries.foldl (updateFeeEstimates rawSatVbToSatKwu) client).normalMaxFeerateSatPerKwu =
      client.normalMaxFeerateSatPerKwu := by
  induction deliveries with
  | nil => exact fun _ => rfl
  | cons delivery deliveries ih =>
    intro client
    rw [List.foldl_cons, ih, cap_updateFeeEstimates]

theorem sound_foldl_update (deliveries : List (Delivery F64)) : ∀ client : EsploraClient,
    minFeerate ≤ client.normalMaxFeerateSatPerKwu → client.Sound →
      (deliveries.foldl (updateFeeEstimates rawSatVbToSatKwu) client).Sound := by
  induction deliveries with
  | nil => exact fun _ _ h => h
  | cons delivery deliveries ih =>
    intro client hcap h
    rw [List.foldl_cons]
    apply ih
    · rw [cap_updateFeeEstimates]
      exact hcap
    · exact sound_updateFeeEstimates hcap h delivery

theorem cap_during (k : ℕ) (delivery : Delivery F64) :
    (client.during rawSatVbToSatKwu k delivery).normalMaxFeerateSatPerKwu =
      client.normalMaxFeerateSatPerKwu := by
  cases delivery <;> rfl

theorem cap_new (value : Option String) (first : Delivery F64) :
    (new rawSatVbToSatKwu value first).normalMaxFeerateSatPerKwu =
      maxFeerateSatPerKwuFromValue value :=
  cap_updateFeeEstimates first

end EsploraClient

open EsploraClient

/-- Every target but one starts with an allowed feerate, whatever the cap. -/
theorem allowed_initialFees (hcap : minFeerate ≤ normalMaxSatKwu) {target : ConfirmationTarget}
    (h : target = .nonAnchorChannelFee → 2000 ≤ normalMaxSatKwu) :
    Allowed normalMaxSatKwu (initialFees target) target := by
  cases target with
  | nonAnchorChannelFee => exact ⟨by decide, h rfl⟩
  | channelCloseMinimum => exact ⟨Nat.le_refl _, hcap⟩
  | outputSpendingFee => exact ⟨Nat.le_refl _, hcap⟩
  | maximumFeeEstimate => exact ⟨by decide, Nat.le_max_right _ _⟩
  | urgentOnChainSweep => exact ⟨by decide, Nat.le_trans (by decide) (Nat.le_max_right _ 50000)⟩
  | minAllowedAnchorChannelRemoteFee => exact ⟨Nat.le_refl _, rfl⟩
  | minAllowedNonAnchorChannelRemoteFee => exact ⟨Nat.le_refl _, rfl⟩
  | anchorChannelFee => exact ⟨Nat.le_refl _, rfl⟩

/-- The first update makes the client sound, or the cap does. -/
theorem sound_new {value : Option String} {first : Delivery F64}
    (h : 2000 ≤ maxFeerateSatPerKwuFromValue value ∨ deliversSix first = true) :
    (new rawSatVbToSatKwu value first).Sound := by
  have hcap := minFeerate_le_fromValue value
  cases first with
  | none =>
    have h2000 := h.resolve_right Bool.false_ne_true
    exact fun target => allowed_initialFees hcap fun _ => h2000
  | some estimates =>
    intro target
    dsimp only [new, updateFeeEstimates, getEstSatPer1000Weight]
    rw [applyFeeEstimates_eq]
    apply allowed_foldl_store _ _ fun u hu => allowed_of_mem_updates hcap hu
    by_cases htarget : target = .nonAnchorChannelFee
    · subst htarget
      rcases h with h | h
      · exact Or.inl (allowed_initialFees hcap fun _ => h)
      · obtain ⟨rate, hrate⟩ := Option.isSome_iff_exists.1 h
        exact Or.inr ⟨feeUpdate rawSatVbToSatKwu .nonAnchorChannelFee "6" rate
          (maxFeerateSatPerKwuFromValue value), by simp [updates, hrate], rfl⟩
    · exact Or.inl (allowed_initialFees hcap fun h => absurd h htarget)

/-- Without the estimate for 6 blocks, the table keeps the feerate that it starts with. -/
theorem fees_new_of_not_deliversSix {value : Option String} {first : Delivery F64}
    (h : deliversSix first = false) :
    (new rawSatVbToSatKwu value first).fees .nonAnchorChannelFee = 2000 := by
  cases first with
  | none => rfl
  | some estimates =>
    have hsix : estimates "6" = none := by simpa [deliversSix] using h
    dsimp only [new, updateFeeEstimates]
    unfold applyFeeEstimates
    rw [hsix]
    rcases estimates "1" with _ | one <;> rcases estimates "25" with _ | twentyFive <;> rfl

end Updates

open EsploraClient

/-- Every report of a client, after any later updates and in the middle of the current one, is allowed
just when the configured cap is at least the 2000 of the table's start or the first update delivers the
estimate for 6 blocks. -/
theorem reports_allowed_iff {F64 : Type} (rawSatVbToSatKwu : F64 → ℕ) (value : Option String)
    (first : Delivery F64) :
    (∀ (later : List (Delivery F64)) (current : Delivery F64) (k : ℕ) (target : ConfirmationTarget),
      Allowed (maxFeerateSatPerKwuFromValue value)
        (((later.foldl (EsploraClient.updateFeeEstimates rawSatVbToSatKwu)
          (EsploraClient.new rawSatVbToSatKwu value first)).during rawSatVbToSatKwu k current
            ).getEstSatPer1000Weight target) target) ↔
      2000 ≤ maxFeerateSatPerKwuFromValue value ∨ deliversSix first = true := by
  constructor
  · intro h
    by_contra hnot
    obtain ⟨hcap, hsix⟩ := not_or.1 hnot
    have hfees : (new rawSatVbToSatKwu value first).fees .nonAnchorChannelFee = 2000 :=
      fees_new_of_not_deliversSix (Bool.not_eq_true _ ▸ hsix)
    have hreport := (h [] none 0 .nonAnchorChannelFee).2
    exact hcap (hfees ▸ hreport)
  · intro h later current k target
    have hcap : (later.foldl (updateFeeEstimates rawSatVbToSatKwu) (new rawSatVbToSatKwu value first)
        ).normalMaxFeerateSatPerKwu = maxFeerateSatPerKwuFromValue value :=
      (cap_foldl_update later _).trans (cap_new value first)
    have hsound : (later.foldl (updateFeeEstimates rawSatVbToSatKwu)
        (new rawSatVbToSatKwu value first)).Sound :=
      sound_foldl_update later _ (cap_new value first ▸ minFeerate_le_fromValue value) (sound_new h)
    have hreport : (during rawSatVbToSatKwu (later.foldl (updateFeeEstimates rawSatVbToSatKwu)
        (new rawSatVbToSatKwu value first)) k current).Sound :=
      sound_during (hcap ▸ minFeerate_le_fromValue value) hsound k current
    have := hreport target
    rwa [cap_during, hcap] at this

/-- The cap 1000 and a first update that fails: non-anchor channels are reported 2000. -/
theorem new_report_above_cap :
    maxFeerateSatPerKwuFromValue (some "1000") = 1000 ∧
      (EsploraClient.new (fun r : ℕ => r * 250) (some "1000") none).getEstSatPer1000Weight
        .nonAnchorChannelFee = 2000 ∧
      ¬(2000 ≤ maxFeerateSatPerKwuFromValue (some "1000")) := by
  decide

end Esplora

end LightningRelay
