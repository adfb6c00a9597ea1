import LightningRelay.Devnet
import LightningRelay.Visit

/-!
# The three deadlines of a swap

A swap request computes the expiry of the LM invoice from the clock before the LM invoice is created,
and that of the row from the clock after it; LDK dates the BOLT11 invoice in between, in seconds.

* `devnet_row_outlives_invoice`: the creation takes a second, and the row expires after the LM
  invoice.
* `deadlines_safe_iff`: the deadlines are in order, and computed without overflow or truncation,
  exactly if no time passes between the two readings, the setting fits a `u32` and the sum an `i64`.
-/

set_option autoImplicit false

namespace LightningRelay

open Async

/-- The expiry in milliseconds that `start_ldk` computes from `CARDANO_SWAP_EXPIRY_SECONDS`, unless
its assertion fails. -/
def startupExpiryMs (swapExpirySecs : ℤ) : Option ℤ :=
  if 0 < swapExpirySecs then some (wrapI64 (swapExpirySecs * 1000)) else none

/-- The deadlines of a swap, with the readings of the clock that they were computed from: `created`
for the LM invoice, `read` for the row, and `issued` for the time at which LDK was asked for the
BOLT11 invoice. -/
structure Deadlines where
  created : ℤ
  onChain : ℤ
  issued : ℤ
  expirySecs : ℕ
  read : ℤ
  stored : ℤ
  deriving DecidableEq, Repr

/-- The deadlines in the trace of a swap request that succeeded. -/
def deadlines? : List Moment → Option Deadlines
  | ⟨_, _, .db (.insert m), _⟩ :: ⟨_, _, .now, _⟩ :: ⟨_, _, .now, read⟩ :: ⟨_, _, .store _, _⟩ ::
      ⟨issued, _, .ldk (.createBolt11Invoice _ _ expirySecs), _⟩ ::
      ⟨_, _, .operator _ (.submitTx _), _⟩ ::
      ⟨_, _, .operator _ (.createInvoice _ _ created onChain), _⟩ :: _ =>
    some ⟨created, onChain, issued, expirySecs, read, m.expiresAt⟩
  | _ => none

/-- The expiry of a BOLT11 invoice, in milliseconds: its timestamp is in whole seconds. -/
def bolt11ExpiresAt (timestampMs : ℤ) (expirySecs : ℕ) : ℤ := (timestampMs / 1000 + expirySecs) * 1000

/-- The deadlines are in order, at whatever time before the second reading LDK dates the BOLT11
invoice, and they are what the setting says. -/
structure Deadlines.Safe (swapExpirySecs : ℤ) (d : Deadlines) : Prop where
  bolt11_le_stored : ∀ t, d.issued ≤ t → t ≤ d.read → bolt11ExpiresAt t d.expirySecs ≤ d.stored
  stored_le_onChain : d.stored ≤ d.onChain
  onChain_exact : d.onChain = d.created + swapExpirySecs * 1000
  stored_exact : d.stored = d.read + swapExpirySecs * 1000
  bolt11_exact : d.expirySecs = swapExpirySecs

/-! ## The program -/

section

variable {cfg : Config} {expiryMs : ℤ} {l : List (Sigma Op.Resp)}

/-- The LM invoice was created just now, with a deadline counted from a reading of the clock. -/
def CreatedAt (expiryMs : ℤ) (l : List (Sigma Op.Resp)) : Prop :=
  ∃ (amount t id : ℤ) (pkh tx hash : String) (rest : List (Sigma Op.Resp)),
    l = ⟨.operator .pool (.submitTx ⟨.createInvoice, tx⟩), .ok hash⟩ ::
      ⟨.operator .pool (.createInvoice amount pkh t (wrapI64 (t + expiryMs))), .ok (id, tx)⟩ :: rest ∧
    ⟨.now, t⟩ ∈ rest

/-- The swap was stored just now, with a deadline counted from another reading. -/
def StoredAt (expiryMs : ℤ) (l : List (Sigma Op.Resp)) : Prop :=
  ∃ (m : SwapMapping) (t t' : ℤ) (h : String) (info : PaymentInfo) (amt : ℕ) (d : String)
    (invoice : Bolt11Invoice) (rest : List (Sigma Op.Resp)),
    l = ⟨.db (.insert m), true⟩ :: ⟨.now, t'⟩ :: ⟨.now, t⟩ :: ⟨.store (.insertInbound h info), ()⟩ ::
      ⟨.ldk (.createBolt11Invoice amt d (expiryMs.tdiv 1000 % 2 ^ 32).toNat), .ok invoice⟩ :: rest ∧
    m.expiresAt = wrapI64 (t + expiryMs) ∧ CreatedAt expiryMs rest

theorem records_requestSwap (amount : ℤ) (address : String) :
    Follows Recording (Attempted (fun _ => CreatedAt expiryMs) fun _ => True)
      (requestSwap cfg amount address expiryMs) l := by
  unfold requestSwap
  dsimp only
  rcases validateAddress cfg address _ with e | pkh
  · trivial
  refine follows_perform fun (now : ℤ) => ⟨_, rfl, ?_⟩
  -- between the attempts, the clock has been read
  refine (follows_submitContractTxWithRetry' (Q := fun _ => CreatedAt expiryMs)
    (I := fun l => ⟨.now, now⟩ ∈ l) ?_ ?_ List.mem_cons_self).bind ?_
  · exact fun l n r hl => ⟨_, rfl, List.mem_cons_of_mem _ hl⟩
  · intro l hl
    refine follows_perform ?_
    rintro (e | ⟨id, tx⟩)
    · exact ⟨_, rfl, List.mem_cons_of_mem _ hl⟩
    refine ⟨_, rfl, follows_perform ?_⟩
    rintro (e | hash)
    · exact ⟨_, rfl, List.mem_cons_of_mem _ (List.mem_cons_of_mem _ hl)⟩
    · exact ⟨_, rfl, amount, now, id, pkh, tx, hash, l, rfl, hl⟩
  · rintro (e | ⟨id, hash⟩) l hl
    · trivial
    · exact hl

theorem records_handleSwapRequest (ip : String) (req : SwapRequest) :
    Follows Recording (fun r l => r.toBool = true → StoredAt cfg.swapExpiryMs l)
      (handleSwapRequest cfg ip req) l := by
  refine follows_perform fun allowed => ⟨_, rfl, ?_⟩
  split_ifs
  · exact nofun
  · exact nofun
  · exact nofun
  refine follows_perform fun active => ⟨_, rfl, ?_⟩
  split_ifs
  · exact nofun
  refine follows_perform fun pool => ⟨_, rfl, ?_⟩
  rcases insufficient req.amountCbtc pool with _ | available
  swap
  · exact nofun
  refine (records_requestSwap _ _).bind ?_
  rintro (e | ⟨id, description, hash⟩) rest hrest
  · exact nofun
  unfold createInvoiceForSwap
  rcases cbtcToMsat req.amountCbtc with _ | amt
  · exact nofun
  dsimp only
  split_ifs
  · exact nofun
  refine follows_perform ?_
  rintro (e | invoice)
  · exact ⟨_, rfl, nofun⟩
  refine ⟨_, rfl, follows_perform fun _ => ⟨_, rfl, ?_⟩⟩
  refine follows_perform fun (now : ℤ) => ⟨_, rfl, follows_perform fun (createdAt : ℤ) => ⟨_, rfl, ?_⟩⟩
  refine follows_perform ?_
  rintro (_ | _)
  · exact ⟨_, rfl, nofun⟩
  · refine ⟨_, rfl, fun _ => ?_⟩
    refine ⟨_, now, createdAt, _, _, amt, description, invoice, rest, rfl, ?_, hrest⟩
    rfl

end

/-! ## The trace -/

section

variable {expiryMs t₀ : ℤ} {l : List (Sigma Op.Resp)} {v : Visit}

/-- What a trace tells about its deadlines. -/
theorem deadlines_of_storedAt (hc : Visit.Clocked t₀ l v) (hl : StoredAt expiryMs l) :
    ∃ d, deadlines? v.trace = some d ∧ t₀ ≤ d.created ∧ d.created ≤ d.issued ∧ d.issued ≤ d.read ∧
      d.onChain = wrapI64 (d.created + expiryMs) ∧ d.stored = wrapI64 (d.read + expiryMs) ∧
      d.expirySecs = (expiryMs.tdiv 1000 % 2 ^ 32).toNat := by
  obtain ⟨m, read, _, _, _, _, _, _, rest, rfl, hm, hcreated⟩ := hl
  obtain ⟨amount, created, id, pkh, tx, hash, tail, rfl, hmem⟩ := hcreated
  have hev := hc.events
  simp only [List.map_eq_cons_iff] at hev
  obtain ⟨m₁, _, htr, h₁, m₂, _, rfl, h₂, m₃, _, rfl, h₃, m₄, _, rfl, h₄, m₅, _, rfl, h₅, m₆, _, rfl,
    h₆, m₇, tr, rfl, h₇, rfl⟩ := hev
  obtain ⟨m₀, hm₀, h₀⟩ := List.mem_map.1 hmem
  -- the moments of the two readings and of LDK's call, in the order of time
  have hreads := hc.reads
  have hsince := hc.since
  have hsorted := hc.sorted
  rw [htr] at hreads hsince hsorted
  have hcreated : created = m₀.time :=
    hreads m₀ (by simp [hm₀]) created (by rw [Moment.eq_of_event h₀]; rfl)
  have hread : read = m₃.time :=
    hreads m₃ (by simp) read (by rw [Moment.eq_of_event h₃]; rfl)
  have hafter : m₀.time ≤ m₅.time ∧ m₅.time ≤ m₃.time := by
    simp only [List.pairwise_cons, List.mem_cons] at hsorted
    obtain ⟨-, -, h₃, -, h₅, -⟩ := hsorted
    exact ⟨h₅ m₀ (by simp [hm₀]), h₃ m₅ (by simp)⟩
  have hfirst : t₀ ≤ m₀.time := hsince m₀ (by simp [hm₀])
  refine ⟨⟨created, wrapI64 (created + expiryMs), m₅.time, (expiryMs.tdiv 1000 % 2 ^ 32).toNat, read,
    m.expiresAt⟩, ?_, ?_⟩
  · rw [htr, Moment.eq_of_event h₁, Moment.eq_of_event h₂, Moment.eq_of_event h₃,
      Moment.eq_of_event h₄, Moment.eq_of_event h₅, Moment.eq_of_event h₆, Moment.eq_of_event h₇]
    rfl
  · dsimp only
    exact ⟨by omega, by omega, by omega, rfl, hm, rfl⟩

/-- When deadlines that were computed from the setting are safe. -/
theorem safe_iff {secs : ℤ} {d : Deadlines} (hsecs : startupExpiryMs secs = some expiryMs)
    (hstart : 0 ≤ d.created) (hissued : d.created ≤ d.issued) (hread : d.issued ≤ d.read)
    (honChain : d.onChain = wrapI64 (d.created + expiryMs))
    (hstored : d.stored = wrapI64 (d.read + expiryMs))
    (hbolt11 : d.expirySecs = (expiryMs.tdiv 1000 % 2 ^ 32).toNat) :
    d.Safe secs ↔ d.read = d.created ∧ secs < 2 ^ 32 ∧ d.created + secs * 1000 < 2 ^ 63 := by
  unfold startupExpiryMs at hsecs
  split_ifs at hsecs with hpos
  have hms := Option.some.inj hsecs
  constructor
  · intro hsafe
    have hlt := wrapI64_lt (d.created + expiryMs)
    rw [← honChain, hsafe.onChain_exact] at hlt
    have horder := hsafe.stored_le_onChain
    rw [hsafe.stored_exact, hsafe.onChain_exact] at horder
    have hfit := hsafe.bolt11_exact
    exact ⟨by omega, by omega, hlt⟩
  · rintro ⟨hsame, hfit, hsum⟩
    have hexact : expiryMs = secs * 1000 := by
      rw [← hms]
      exact wrapI64_of_bounds (by omega) (by omega)
    have hdelta : (d.expirySecs : ℤ) = secs := by
      rw [hbolt11, hexact, Int.mul_tdiv_cancel _ (by decide)]
      omega
    have honChain' : d.onChain = d.created + secs * 1000 := by
      rw [honChain, hexact]
      exact wrapI64_of_bounds (by omega) hsum
    have hstored' : d.stored = d.read + secs * 1000 := by
      rw [hstored, hexact, hsame]
      exact wrapI64_of_bounds (by omega) hsum
    refine ⟨fun t _ ht => ?_, by omega, honChain', hstored', hdelta⟩
    rw [bolt11ExpiresAt, hstored', hdelta]
    omega

end

section

variable {cfg : Config} {secs : ℤ} {tid : ℕ} {ip : String} {req : SwapRequest} {w : World}
  {inputs : ℕ → Input} {resp : SwapResponse} {v : Visit}

/-- The deadlines of a swap request that succeeds are safe exactly if no time passes between the two
readings of the clock, the setting fits a `u32`, and the deadline fits an `i64`. -/
theorem deadlines_safe_iff (hsecs : startupExpiryMs secs = some cfg.swapExpiryMs)
    (hclock : 0 ≤ w.clock)
    (hrun : Prog.Steps (Visit.act tid (.handleSwapRequest ip req)) (handleSwapRequest cfg ip req)
      (.start w inputs) (.pure (.ok resp)) v) :
    ∃ d, deadlines? v.trace = some d ∧ (d.Safe secs ↔
      d.read = d.created ∧ secs < 2 ^ 32 ∧ d.created + secs * 1000 < 2 ^ 63) := by
  obtain ⟨l, hend, hl⟩ := Visit.stage_of_steps (S := Visit.Clocked w.clock) hrun
    (records_handleSwapRequest ip req) Visit.clocked_start (by
      rintro l o r _ v v' hl rfl hv
      exact hl.act hv)
  obtain ⟨d, hd, hstart, hissued, hread, honChain, hstored, hbolt11⟩ :=
    deadlines_of_storedAt hl (hend rfl)
  exact ⟨d, hd, safe_iff hsecs (by omega) hissued hread honChain hstored hbolt11⟩

end

/-- The request of the first swap of the devnet, where every operation takes `ms` milliseconds. -/
def pacedRequest (ms : ℕ) : Option (Except ApiError SwapResponse) × Visit :=
  (handleSwapRequest Devnet.config "127.0.0.1" ⟨50, Devnet.userAddress⟩).exec
    (Visit.act 3 (.handleSwapRequest "127.0.0.1" ⟨50, Devnet.userAddress⟩))
    (.start Devnet.fresh fun _ => ⟨Devnet.ok, ms, false⟩)

/-- It succeeds. -/
theorem steps_of_pacedRequest (ms : ℕ)
    (h : (pacedRequest ms).1.any (fun r => r.toBool) = true) : ∃ resp,
      Prog.Steps (Visit.act 3 (.handleSwapRequest "127.0.0.1" ⟨50, Devnet.userAddress⟩))
        (handleSwapRequest Devnet.config "127.0.0.1" ⟨50, Devnet.userAddress⟩)
        (.start Devnet.fresh fun _ => ⟨Devnet.ok, ms, false⟩) (.pure (.ok resp))
        (pacedRequest ms).2 := by
  obtain ⟨r, hr, hok⟩ := (Option.any_eq_true _ _).1 h
  rcases r with e | resp
  · cases hok
  · exact ⟨resp, Prog.steps_of_exec hr⟩

set_option maxRecDepth 100000 in
/-- In a request that takes no time, the deadlines are safe. -/
theorem deadlines_safe_iff_at_once : ∃ d, startupExpiryMs 3600 = some Devnet.config.swapExpiryMs ∧
    deadlines? (pacedRequest 0).2.trace = some d ∧ d.Safe 3600 := by
  obtain ⟨resp, hrun⟩ := steps_of_pacedRequest 0 (by decide +kernel)
  have hsecs : startupExpiryMs 3600 = some Devnet.config.swapExpiryMs := by decide
  obtain ⟨d, hd, hiff⟩ := deadlines_safe_iff hsecs (by decide +kernel) hrun
  have hval : deadlines? (pacedRequest 0).2.trace = some ⟨Devnet.startTime,
      Devnet.startTime + 3600000, Devnet.startTime, 3600, Devnet.startTime,
      Devnet.startTime + 3600000⟩ := by decide +kernel
  obtain rfl := Option.some.inj (hd.symm.trans hval)
  exact ⟨_, hsecs, hd, hiff.2 ⟨rfl, by decide, by decide +kernel⟩⟩

set_option maxRecDepth 100000 in
/-- Where every operation takes a second, the row expires later than the LM invoice. -/
theorem devnet_row_outlives_invoice : ∃ resp d,
    Prog.Steps (Visit.act 3 (.handleSwapRequest "127.0.0.1" ⟨50, Devnet.userAddress⟩))
      (handleSwapRequest Devnet.config "127.0.0.1" ⟨50, Devnet.userAddress⟩)
      (.start Devnet.fresh fun _ => ⟨Devnet.ok, 1000, false⟩) (.pure (.ok resp))
      (pacedRequest 1000).2 ∧
    deadlines? (pacedRequest 1000).2.trace = some d ∧ d.onChain < d.stored := by
  obtain ⟨resp, hrun⟩ := steps_of_pacedRequest 1000 (by decide +kernel)
  have hlate : (deadlines? (pacedRequest 1000).2.trace).any (fun d => d.onChain < d.stored) =
      true := by decide +kernel
  obtain ⟨d, hd, hlt⟩ := (Option.any_eq_true _ _).1 hlate
  exact ⟨resp, d, hrun, hd, of_decide_eq_true hlt⟩

end LightningRelay
