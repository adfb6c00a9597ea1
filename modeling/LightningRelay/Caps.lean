import LightningRelay.Async.Load
import LightningRelay.Devnet
import LightningRelay.Footprint

/-!
# The caps on active swaps and offramps

A request reads the number of active rows once, compares it with the cap, and inserts its row after
it has waited for Cardano.  Nothing reserves its place meanwhile.

* `devnet_caps_exceeded`: two requests that overlap exceed the cap, on either ramp; and so do
  requests one after the other (`oneByOne`), when a deposit brings a cancelled offramp back (`revives`).
* `active_within_caps`: where a request is let in, and a closed offramp brought back, only while the count
  leaves room beside the requests in flight (`leavesRoom`), both counts stay within their caps, from any
  database within them.
-/

set_option autoImplicit false

namespace LightningRelay

open Async

/-- The statuses that `count_active_swaps` counts. -/
def SwapStatus.active (s : SwapStatus) : Bool := s = .pending || s = .fulfilling

/-- The statuses that `count_active_offramps` counts. -/
def OfframpStatus.active (s : OfframpStatus) : Bool :=
  s = .awaitingDeposit || s = .pendingVerification || s = .payingLightning || s = .depositingToPool

/-- What is capped. -/
inductive Quota where
  | swaps
  | offramps
  deriving DecidableEq, Repr

namespace Quota

/-- The number of active rows. -/
def active : Quota → SwapDb → ℤ
  | .swaps, db => db.countActiveSwaps
  | .offramps, db => db.countActiveOfframps

def cap (cfg : Config) : Quota → ℤ
  | .swaps => cfg.maxActiveSwaps
  | .offramps => cfg.maxActiveOfframps

/-- The count that a request has read. -/
def counted? : Quota → (o : Op) → o.Resp → Option ℤ
  | .swaps, .db .countActiveSwaps, n => some n
  | .offramps, .db .countActiveOfframps, n => some n
  | _, _, _ => none

def counts : Quota → Op → Bool
  | .swaps, .db .countActiveSwaps => true
  | .offramps, .db .countActiveOfframps => true
  | _, _ => false

def inserts : Quota → Op → Bool
  | .swaps, .db (.insert _) => true
  | .offramps, .db (.insertOfframp _) => true
  | _, _ => false

end Quota

/-- An unguarded update is about to make a Completed or Failed offramp active. -/
def revives (w : World) : Op → Bool
  | .db (.updateOfframpStatus id st _ _ _) =>
    st.active && (w.offramp id).any fun r => !r.status.active
  | _ => false

/-- The task has read the count of its ramp and has not ended. -/
def admitted (s : Sys) (quota : Quota) (tid : ℕ) : Bool :=
  (s.tasks tid).any (fun t => !t.rest.ended) &&
    s.world.log.any fun e => e.tid = tid && quota.counts e.op

/-- The operation that a step performs. -/
def nextOp? (s : Sys) : Act → Option (ℕ × Op)
  | .task tid _ =>
    match s.tasks tid with
    | some ⟨_, .op o _⟩ => some (tid, o)
    | _ => none
  | .env _ => none

/-- A request reads the count only while no other request of its ramp that has read it is at work. -/
def oneByOne (s : Sys) (a : Act) : Bool :=
  (nextOp? s a).all fun (tid, o) => [Quota.swaps, Quota.offramps].all fun quota =>
    !quota.counts o || (List.range s.next).all fun i => i = tid || !admitted s quota i

/-- No Completed or Failed offramp is made active. -/
def neverRevives (s : Sys) (a : Act) : Bool := (nextOp? s a).all fun (_, o) => !revives s.world o

/-- What the task has last done about the quota is to read the count: its row is still to come. -/
def readLast (w : World) (quota : Quota) (tid : ℕ) : Bool :=
  (w.log.find? fun e => e.tid = tid && (quota.counts e.op || quota.inserts e.op)).any
    fun e => quota.counts e.op

/-- The requests that have read the count and have neither inserted their row nor ended. -/
def inFlight (s : Sys) (quota : Quota) : ℕ :=
  (List.range s.next).countP fun tid =>
    (s.tasks tid).any (fun t => !t.rest.ended) && readLast s.world quota tid

/-- The cap leaves room for one more row, beside those of the requests in flight. -/
def hasRoom (cfg : Config) (s : Sys) (quota : Quota) : Bool :=
  quota.active s.world.db + inFlight s quota < quota.cap cfg

/-- A count below the cap is read, and a closed offramp made active, only while there is room. -/
def leavesRoom (cfg : Config) (s : Sys) (a : Act) : Bool :=
  (nextOp? s a).all fun (_, o) =>
    (!revives s.world o || hasRoom cfg s .offramps) && [Quota.swaps, Quota.offramps].all fun quota =>
      !quota.counts o || quota.cap cfg ≤ quota.active s.world.db || hasRoom cfg s quota

namespace Caps

/-! ## What an operation does to the counts -/

/-- Apart from `revives`, the operation makes no row active that was not. -/
def steady : Op → Bool
  | .db (.updateStatus _ st _) => !st.active
  | .db (.transitionStatus _ e n _) => !n.active || e.active
  | .db (.transitionOfframpStatus _ e n) => !n.active || e.active
  | .db (.transitionOfframpWithCbtcTx _ _ e n) => !n.active || e.active
  | _ => true

section

variable {tid : ℕ} {c : Call} {o : Op} {r : o.Resp} {w w' : World} {sp : Option Call} {quota : Quota}

/-- Where an active swap comes from. -/
theorem active_swap_origin (he : Effect tid c o r w w' sp) (ho : steady o = true) {k : String}
    {y : SwapMapping} (hy : w'.swap k = some y) (hact : y.status.active = true) :
    (∃ m, o = .db (.insert m) ∧ k = m.paymentHash) ∨
      ∃ x, w.swap k = some x ∧ x.status.active = true := by
  rcases hx : w.swap k with _ | x
  · obtain ⟨m, rfl, rfl⟩ := he.swap_of_none hx hy
    exact Or.inl ⟨m, rfl, (SwapDb.paymentHash_of_getByPaymentHash hy).symm⟩
  refine Or.inr ⟨x, rfl, ?_⟩
  obtain ⟨y', hy', hcase⟩ := he.swap_cases hx
  obtain rfl := Option.some.inj (hy.symm.trans hy')
  rcases hcase with rfl | ⟨st, tx, rfl, rfl⟩ | ⟨n, tx, rfl, rfl⟩
  · exact hact
  · simp only [steady, hact, Bool.not_true, Bool.false_eq_true] at ho
  · simpa [steady, hact] using ho

/-- Where an active offramp comes from. -/
theorem active_offramp_origin (he : Effect tid c o r w w' sp) (ho : steady o = true) {k : ℤ}
    {y : OfframpMapping} (hy : w'.offramp k = some y) (hact : y.status.active = true) :
    (∃ m, o = .db (.insertOfframp m) ∧ k = m.offrampId) ∨
      (revives w o = true ∧ ∃ st p d e, o = .db (.updateOfframpStatus k st p d e)) ∨
      ∃ x, w.offramp k = some x ∧ x.status.active = true := by
  rcases hx : w.offramp k with _ | x
  · obtain ⟨m, rfl, rfl⟩ := he.offramp_of_none hx hy
    exact Or.inl ⟨m, rfl, (SwapDb.offrampId_of_getOfframpById hy).symm⟩
  by_cases hact' : x.status.active = true
  · exact Or.inr (Or.inr ⟨x, rfl, hact'⟩)
  refine Or.inr (Or.inl ?_)
  obtain ⟨y', hy', hcase⟩ := he.offramp_cases hx
  obtain rfl := Option.some.inj (hy.symm.trans hy')
  rcases hcase with rfl | ⟨st, p, d, e, rfl, rfl⟩ | ⟨n, rfl, rfl⟩ | ⟨tx, n, rfl, rfl⟩
  · exact absurd hact hact'
  · have hst : st.active = true := hact
    exact ⟨by simp [revives, hst, hx, hact'], st, p, d, e, rfl⟩
  · exact absurd (by simpa [steady, hact] using ho) hact'
  · exact absurd (by simpa [steady, hact] using ho) hact'

theorem countActiveSwaps_le (he : Effect tid c o r w w' sp) (ho : steady o = true)
    (ks : List String) (hks : ∀ m, o = .db (.insert m) → m.paymentHash ∈ ks) :
    w'.db.countActiveSwaps ≤ w.db.countActiveSwaps + ks.length := by
  have hcount : w'.db.swaps.count (fun r => r.status.active) ≤
      w.db.swaps.count (fun r => r.status.active) + ks.length := by
    apply Sql.Table.count_le_of_get?
    intro k y hy hact
    rcases active_swap_origin he ho hy hact with ⟨m, hm, rfl⟩ | hx
    · exact Or.inl (hks m hm)
    · exact Or.inr hx
  show ((w'.db.swaps.count fun r => r.status.active : ℕ) : ℤ) ≤
    ((w.db.swaps.count fun r => r.status.active : ℕ) : ℤ) + ks.length
  omega

theorem countActiveOfframps_le (he : Effect tid c o r w w' sp) (ho : steady o = true)
    (ks : List ℤ) (hks : ∀ m, o = .db (.insertOfframp m) → m.offrampId ∈ ks)
    (hrev : revives w o = true → ∀ k st p d e, o = .db (.updateOfframpStatus k st p d e) → k ∈ ks) :
    w'.db.countActiveOfframps ≤ w.db.countActiveOfframps + ks.length := by
  have hcount : w'.db.offramps.count (fun r => r.status.active) ≤
      w.db.offramps.count (fun r => r.status.active) + ks.length := by
    apply Sql.Table.count_le_of_get?
    intro k y hy hact
    rcases active_offramp_origin he ho hy hact with ⟨m, hm, rfl⟩ | ⟨hr, st, p, d, e, ho'⟩ | hx
    · exact Or.inl (hks m hm)
    · exact Or.inl (hrev hr k st p d e ho')
    · exact Or.inr hx
  show ((w'.db.offramps.count fun r => r.status.active : ℕ) : ℤ) ≤
    ((w.db.offramps.count fun r => r.status.active : ℕ) : ℤ) + ks.length
  omega

/-- The operation may make a row active. -/
def grows : Quota → World → Op → Bool
  | .swaps, _, o => Quota.swaps.inserts o
  | .offramps, w, o => Quota.offramps.inserts o || revives w o

/-- Such an operation adds at most one active row, every other none. -/
theorem active_le (he : Effect tid c o r w w' sp) (ho : steady o = true) :
    quota.active w'.db ≤ quota.active w.db + if grows quota w o then 1 else 0 := by
  cases quota with
  | swaps =>
    cases o with
    | db call =>
      cases call with
      | insert m => exact countActiveSwaps_le he ho [m.paymentHash] (by rintro _ ⟨⟩; simp)
      | _ => exact countActiveSwaps_le he ho [] (by rintro _ ⟨⟩)
    | _ => exact countActiveSwaps_le he ho [] (by rintro _ ⟨⟩)
  | offramps =>
    cases o with
    | db call =>
      cases call with
      | insertOfframp m =>
        exact countActiveOfframps_le he ho [m.offrampId] (by rintro _ ⟨⟩; simp) (by rintro ⟨⟩)
      | updateOfframpStatus id st p d e =>
        by_cases hrev : revives w (.db (.updateOfframpStatus id st p d e)) = true
        · rw [grows, hrev, Bool.or_true, if_pos rfl]
          exact countActiveOfframps_le he ho [id] (by rintro _ ⟨⟩) (by rintro - _ _ _ _ _ ⟨⟩; simp)
        · rw [grows, eq_false_of_ne_true hrev, Bool.or_false, if_neg (by exact Bool.false_ne_true)]
          exact countActiveOfframps_le he ho [] (by rintro _ ⟨⟩) fun h => absurd h hrev
      | _ => exact countActiveOfframps_le he ho [] (by rintro _ ⟨⟩) (by rintro ⟨⟩)
    | _ => exact countActiveOfframps_le he ho [] (by rintro _ ⟨⟩) (by rintro ⟨⟩)

/-- The count that is read is the number of active rows. -/
theorem counted_eq (he : Effect tid c o r w w' sp) {n : ℤ} (hn : quota.counted? o r = some n) :
    n = quota.active w.db ∧ quota.counts o = true := by
  unfold Quota.counted? at hn
  split at hn
  · obtain rfl := Option.some.inj hn
    exact ⟨he.answered, rfl⟩
  · obtain rfl := Option.some.inj hn
    exact ⟨he.answered, rfl⟩
  · cases hn

end

/-! ## The protocol -/

/-- How far a request has got. -/
inductive Stage where
  | idle
  /-- It has read a count below the cap and has not inserted its row. -/
  | admitted (quota : Quota)
  deriving DecidableEq

/-- Operations that read no count and insert no row. -/
def plain (o : Op) : Bool :=
  steady o && [Quota.swaps, Quota.offramps].all fun quota => !quota.counts o && !quota.inserts o

inductive Move (cfg : Config) : Stage → (o : Op) → o.Resp → Stage → Prop where
  | plain {l : Stage} {o : Op} {r : o.Resp} : plain o = true → Move cfg l o r l
  | grant {q : Quota} {o : Op} {r : o.Resp} {n : ℤ} : q.counted? o r = some n →
      n < q.cap cfg → Move cfg .idle o r (.admitted q)
  | full {q : Quota} {o : Op} {r : o.Resp} : q.counts o = true → Move cfg .idle o r .idle
  | insert {q : Quota} {o : Op} {r : o.Resp} : q.inserts o = true →
      Move cfg (.admitted q) o r .idle

/-- A task may end in any stage. -/
def protocol (cfg : Config) : Protocol Op Op.Resp Call Stage where
  start _ := .idle
  Move _ := Move cfg
  Final _ _ := True

section

variable {cfg : Config}

theorem follows_plain {α : Type} {p : Relay α} {l : Stage} (h : p.Only fun o => plain o = true) :
    Follows (Move cfg) (fun _ l' => l' = l) p l :=
  h.follows fun _ _ ho => .plain ho

theorem follows_handleSwapRequest (ip : String) (req : SwapRequest) :
    Follows (Move cfg) (fun _ _ => True) (handleSwapRequest cfg ip req) .idle := by
  refine follows_stay (fun _ => .plain rfl) fun allowed => ?_
  split_ifs
  · trivial
  · trivial
  · trivial
  refine follows_perform fun n => ?_
  by_cases hn : n ≥ cfg.maxActiveSwaps
  · refine ⟨.idle, .full (q := .swaps) rfl, ?_⟩
    rw [if_pos hn]
    trivial
  refine ⟨.admitted .swaps, .grant (n := n) rfl (Int.not_le.1 hn), ?_⟩
  rw [if_neg hn]
  refine follows_stay (fun _ => .plain rfl) fun answer => ?_
  rcases insufficient req.amountCbtc answer with _ | available
  swap
  · trivial
  refine (follows_plain (only_requestSwap (P := fun o => plain o = true) (fun _ _ _ => rfl)
    (fun _ => rfl) rfl (fun _ => rfl) _ _ _)).bind ?_
  rintro (e | ⟨invoiceId, description, createTxHash⟩) _ rfl
  · trivial
  refine (follows_plain (only_createInvoiceForSwap (P := fun o => plain o = true)
    (fun _ _ _ _ => rfl) (fun _ _ _ _ => rfl) _ _)).bind ?_
  rintro (_ | ⟨bolt11, paymentHash⟩) _ rfl
  · trivial
  refine follows_stay (fun _ => .plain rfl) fun now => ?_
  refine Follows.bind (Q := fun _ _ => True) ?_ fun _ _ _ => trivial
  refine follows_stay (fun _ => .plain rfl) fun created => follows_perform ?_
  rintro (_ | _)
  · exact ⟨.idle, .insert (q := .swaps) rfl, nofun⟩
  · exact ⟨.idle, .insert (q := .swaps) rfl, trivial⟩

theorem follows_requestOfframp (bolt11 : String) (amount : ℤ) (address : String) (expiryMs : ℤ) :
    Follows (Move cfg) (fun _ _ => True) (requestOfframp cfg bolt11 amount address expiryMs)
      (.admitted .offramps) := by
  unfold requestOfframp
  rcases cfg.bolt11FromStr bolt11 with e | invoice
  · trivial
  refine follows_stay (fun _ => .plain rfl) ?_
  rintro (_ | existing)
  swap
  · trivial
  dsimp only
  split_ifs
  · trivial
  rcases cbtcToMsat amount with _ | amt
  · trivial
  dsimp only
  rcases mismatch? invoice amt with _ | invAmt
  swap
  · trivial
  dsimp only
  rcases addressToPkh cfg address with e | pkh
  · trivial
  refine follows_stay (fun _ => .plain rfl) fun now => ?_
  have hcreate : (createOfframpTx amount invoice.paymentHash pkh (wrapI64 (now + expiryMs))).Only
      fun o => plain o = true := by
    refine only_submitContractTxWithRetry (fun _ => rfl) (only_perform rfl ?_)
    rintro (e | ⟨id, tx⟩)
    · trivial
    refine only_perform rfl ?_
    rintro (e | hash) <;> trivial
  refine (follows_plain hcreate).bind ?_
  rintro (e | ⟨id, hash⟩) _ rfl
  · trivial
  refine follows_perform ?_
  rintro (_ | _)
  · exact ⟨.idle, .insert (q := .offramps) rfl, nofun⟩
  · exact ⟨.idle, .insert (q := .offramps) rfl, trivial⟩

theorem follows_handleOfframpRequest (ip : String) (req : OfframpRequest) :
    Follows (Move cfg) (fun _ _ => True) (handleOfframpRequest cfg ip req) .idle := by
  refine follows_stay (fun _ => .plain rfl) fun allowed => ?_
  split_ifs
  · trivial
  · trivial
  · trivial
  · trivial
  refine follows_perform fun n => ?_
  by_cases hn : n ≥ cfg.maxActiveOfframps
  · refine ⟨.idle, .full (q := .offramps) rfl, ?_⟩
    rw [if_pos hn]
    trivial
  refine ⟨.admitted .offramps, .grant (n := n) rfl (Int.not_le.1 hn), ?_⟩
  rw [if_neg hn]
  refine (follows_requestOfframp _ _ _ _).bind ?_
  rintro (e | ⟨id, address, hash⟩) _ _ <;> trivial

theorem plain_of_sendsPayment {o : Op} (h : o.sendsPayment = true) : plain o = true := by
  unfold Op.sendsPayment at h
  split at h <;> first | rfl | cases h

theorem plain_of_cancelsOfframp {o : Op} (h : o.cancelsOfframp = true) : plain o = true := by
  unfold Op.cancelsOfframp at h
  split at h <;> first | rfl | cases h

theorem plain_of_starts {o : Op} (h : o.starts = true) : plain o = true := by
  refine Op.starts_cases (P := fun o => plain o = true) h (fun h => ?_) (fun h => ?_) (fun h => ?_)
    rfl rfl rfl
  · unfold Op.recoversSwaps at h
    split at h <;> first | rfl | cases h
  · unfold Op.recoversOfframps at h
    split at h <;> first | rfl | cases h
  · unfold Op.cancelsExpired at h
    split at h <;> first | rfl | cases h

/-- The other tasks read no count and insert no row. -/
theorem plain_of_performs {c : Call} (hswap : ∀ ip req, c ≠ .handleSwapRequest ip req)
    (hofframp : ∀ ip req, c ≠ .handleOfframpRequest ip req) {o : Op} (h : c.performs o = true) :
    plain o = true := by
  cases c with
  | handleSwapRequest ip req => exact absurd rfl (hswap ip req)
  | handleOfframpRequest ip req => exact absurd rfl (hofframp ip req)
  | startLdk => exact plain_of_starts h
  | sendpayment => exact plain_of_sendsPayment h
  | monitorExpiredSwaps =>
    simp only [Call.performs, Op.monitorsSwaps] at h
    split at h <;> first | rfl | cases h
  | monitorExpiredOfframps =>
    simp only [Call.performs, Op.monitorsOfframps] at h
    split at h <;> first | rfl | exact plain_of_cancelsOfframp h
  | handleOfframpDeposit =>
    simp only [Call.performs, Op.deposits] at h
    split at h <;> first | rfl | exact plain_of_sendsPayment h
  | handleOfframpPaymentFailed =>
    simp only [Call.performs, Op.refunds] at h
    split at h <;> first | rfl | exact plain_of_cancelsOfframp h
  | handleLdkEvents =>
    simp only [Call.performs, Op.handlesEvent] at h
    split at h <;> first | rfl | cases h
  | fulfillSwap =>
    simp only [Call.performs, Op.fulfillsSwap] at h
    split at h <;> first | rfl | cases h
  | completeOfframp =>
    simp only [Call.performs, Op.completesOfframp] at h
    split at h <;> first | rfl | cases h
  | cancelExpired | cancelExpiredOfframps =>
    simp only [Call.performs, Op.cancelsExpired] at h
    split at h <;> first | rfl | cases h

theorem body_follows (c : Call) : Follows (Move cfg) (fun _ _ => True) (body cfg c) .idle := by
  by_cases hswap : ∃ ip req, c = .handleSwapRequest ip req
  · obtain ⟨ip, req, rfl⟩ := hswap
    exact (follows_handleSwapRequest ip req).bind fun _ _ _ => trivial
  by_cases hofframp : ∃ ip req, c = .handleOfframpRequest ip req
  · obtain ⟨ip, req, rfl⟩ := hofframp
    exact (follows_handleOfframpRequest ip req).bind fun _ _ _ => trivial
  refine (follows_plain ((Footprint.body_performs cfg c).imp fun o ho => ?_)).mono fun _ _ _ => trivial
  exact plain_of_performs (fun ip req h => hswap ⟨ip, req, h⟩) (fun ip req h => hofframp ⟨ip, req, h⟩) ho

end

/-! ## All runs -/

section

variable {cfg : Config} {tid : ℕ} {c : Call} {l l' : Stage} {o : Op} {r : o.Resp} {w w' : World}
  {sp : Option Call} {quota : Quota} {s : Sys}

theorem plain_iff : plain o = true ↔
    steady o = true ∧ ∀ quota : Quota, quota.counts o = false ∧ quota.inserts o = false := by
  simp only [plain, Bool.and_eq_true, List.all_cons, List.all_nil, Bool.not_eq_true', Bool.and_true]
  constructor
  · rintro ⟨hs, h⟩
    exact ⟨hs, fun quota => by cases quota <;> simp [h]⟩
  · rintro ⟨hs, h⟩
    exact ⟨hs, h .swaps, h .offramps⟩

theorem steady_of_counts (h : quota.counts o = true) : steady o = true := by
  unfold Quota.counts at h
  split at h <;> first | rfl | cases h

theorem steady_of_inserts (h : quota.inserts o = true) : steady o = true := by
  unfold Quota.inserts at h
  split at h <;> first | rfl | cases h

theorem not_inserts_of_counts {quota' : Quota} (h : quota.counts o = true) :
    quota'.inserts o = false := by
  unfold Quota.counts at h
  split at h <;> first | (cases quota' <;> rfl) | cases h

theorem eq_of_inserts {quota' : Quota} (h : quota.inserts o = true) (h' : quota'.inserts o = true) :
    quota = quota' := by
  unfold Quota.inserts at h
  split at h <;> first | (cases quota' <;> first | rfl | cases h') | cases h

theorem steady_of_move (he : Effect tid c o r w w' sp) (hm : Move cfg l o r l') : steady o = true := by
  cases hm with
  | plain ho => exact (plain_iff.1 ho).1
  | grant hn => exact steady_of_counts (counted_eq he hn).2
  | full ho => exact steady_of_counts ho
  | insert ho => exact steady_of_inserts ho

/-- Only a request that was admitted inserts a row. -/
theorem admitted_of_inserts (he : Effect tid c o r w w' sp) (hm : Move cfg l o r l')
    (hins : quota.inserts o = true) : l = .admitted quota := by
  cases hm with
  | plain ho =>
    rw [((plain_iff.1 ho).2 quota).2] at hins
    cases hins
  | grant hn =>
    rw [not_inserts_of_counts (counted_eq he hn).2] at hins
    cases hins
  | full ho =>
    rw [not_inserts_of_counts ho] at hins
    cases hins
  | insert ho => rw [eq_of_inserts ho hins]

/-- A request that is admitted after an operation was so before it, or has read the count. -/
theorem admitted_origin (he : Effect tid c o r w w' sp) (hm : Move cfg l o r (.admitted quota)) :
    l = .admitted quota ∨ quota.counts o = true ∧ quota.active w.db < quota.cap cfg := by
  cases hm with
  | plain => exact Or.inl rfl
  | grant hn hlt =>
    obtain ⟨rfl, hcounts⟩ := counted_eq he hn
    exact Or.inr ⟨hcounts, hlt⟩

/-- The request keeps its place only by what says nothing about the quota. -/
theorem not_counts_of_stay (hm : Move cfg (.admitted quota) o r (.admitted quota)) :
    (quota.counts o || quota.inserts o) = false := by
  cases hm with
  | plain ho =>
    obtain ⟨hc, hi⟩ := (plain_iff.1 ho).2 quota
    rw [hc, hi]
    rfl

/-! ### The log of a request that was admitted -/

theorem readLast_cons_of_ne {e : Entry} {i : ℕ} (hlog : w'.log = e :: w.log)
    (hne : e.tid ≠ i ∨ (quota.counts e.op || quota.inserts e.op) = false) :
    readLast w' quota i = readLast w quota i := by
  have hskip : (e.tid = i && (quota.counts e.op || quota.inserts e.op)) = false := by
    rcases hne with h | h <;> simp [h]
  rw [readLast, hlog, List.find?_cons, hskip]
  rfl

theorem readLast_cons_self {e : Entry} (hlog : w'.log = e :: w.log) (hc : quota.counts e.op = true) :
    readLast w' quota e.tid = true := by
  simp [readLast, hlog, hc]

/-- What a request that was admitted has last done about the quota is to read the count. -/
def HasRead (w : World) (tid : ℕ) (l : Option Stage) : Prop :=
  ∀ quota, l = some (.admitted quota) → readLast w quota tid = true

theorem hasRead_idle : HasRead w tid (some .idle) := fun _ h => nomatch h

theorem hasRead_move (he : Effect tid c o r w w' sp) (hm : Move cfg l o r l')
    (hread : HasRead w tid (some l)) : HasRead w' tid (some l') := by
  rintro quota ⟨⟩
  rcases admitted_origin he hm with rfl | ⟨hcounts, -⟩
  · rw [readLast_cons_of_ne he.log (Or.inr (not_counts_of_stay hm))]
    exact hread quota rfl
  · exact readLast_cons_self he.log hcounts

/-- The requests and what they have read. -/
def requests (cfg : Config) : Discipline Op Op.Resp World Call (Option Stage) where
  start _ := some .idle
  Move := (protocol cfg).Step
  Final _ l := l = none ∨ l = some .idle
  Shared _ := True
  Owned w tid _ l := HasRead w tid l
  Apart _ _ _ _ := True

theorem requests_sound (cfg : Config) (ok : Sys → Act → Prop) (w₀ : World) :
    (requests cfg).Sound (relay cfg) ok w₀ where
  body c := by
    rcases hp : body cfg c with u | ⟨o, k⟩
    · simp only [relay, hp]
      exact Or.inr rfl
    · have hrun : (body cfg c).ended = false := by
        rw [hp]
        rfl
      have h := Protocol.follows_step (P := protocol cfg) (c := c) (body_follows c) hrun
      exact h.mono fun _ _ hl => Or.inl hl
  symm _ := trivial
  init := ⟨trivial, hasRead_idle⟩
  move turn hp hm := by
    obtain ⟨m, m', rfl, hm', hl'⟩ := hm.cases
    refine ⟨trivial, ?_⟩
    rcases hl' with rfl | ⟨rfl, -⟩
    · exact hasRead_move (effect_of_perform hp) hm' turn.owned
    · exact fun _ h => nomatch h
  others _ hp _ hne _ _ hread _ := by
    refine ⟨fun quota hq => ?_, trivial⟩
    rw [readLast_cons_of_ne (effect_of_perform hp).log (Or.inl hne.symm)]
    exact hread quota hq
  spawned _ _ _ := ⟨hasRead_idle, trivial, fun _ _ _ _ _ => trivial⟩
  abort _ _ := ⟨trivial, hasRead_idle⟩
  react _ _ := trivial
  reactOthers _ hr _ _ _ hread quota hq := by
    rw [readLast, (reaction_of_react hr).calm.log]
    exact hread quota hq
  reactSpawn _ _ := ⟨hasRead_idle, fun _ _ _ => trivial⟩
  reactRestart _ _ := hasRead_idle

/-! ### Places taken and places promised -/

/-- The task was admitted and has not inserted its row. -/
def promised (quota : Quota) (l : Option Stage) : Bool := l = some (.admitted quota)

/-- An insertion takes the place that was promised. -/
theorem promised_of_inserts (he : Effect tid c o r w w' sp) (hm : Move cfg l o r l')
    (hins : quota.inserts o = true) :
    promised quota (some l) = true ∧ promised quota (some l') = false := by
  obtain rfl := admitted_of_inserts he hm hins
  refine ⟨decide_eq_true rfl, ?_⟩
  cases hm with
  | plain ho =>
    rw [((plain_iff.1 ho).2 quota).2] at hins
    cases hins
  | insert => rfl

/-- A place is promised when a count below the cap is read. -/
theorem promised_origin (he : Effect tid c o r w w' sp) (hm : Move cfg l o r l')
    (h : promised quota (some l') = true) : promised quota (some l) = true ∨
      quota.counts o = true ∧ quota.active w.db < quota.cap cfg := by
  obtain rfl : l' = .admitted quota := Option.some.inj (of_decide_eq_true h)
  exact (admitted_origin he hm).imp_left fun hl => decide_eq_true (congrArg some hl)

theorem not_grows_of_counts (h : quota.counts o = true) : grows quota w o = false := by
  unfold Quota.counts at h
  split at h <;> first | rfl | cases h

/-- The operation takes or promises a place that was not promised before. -/
def NeedsRoom (cfg : Config) (quota : Quota) (w : World) (o : Op) : Prop :=
  quota.inserts o = false ∧ grows quota w o = true ∨
    quota.counts o = true ∧ quota.active w.db < quota.cap cfg

/-- Rows and promises together grow by one where there has to be room, and not otherwise. -/
theorem places_move (quota : Quota) (he : Effect tid c o r w w' sp) (hm : Move cfg l o r l') :
    quota.active w'.db + (if promised quota (some l') then 1 else 0 : ℕ) ≤
        quota.active w.db + (if promised quota (some l) then 1 else 0 : ℕ) ∨
      NeedsRoom cfg quota w o ∧
        quota.active w'.db + (if promised quota (some l') then 1 else 0 : ℕ) ≤
          quota.active w.db + (if promised quota (some l) then 1 else 0 : ℕ) + 1 := by
  have hactive : quota.active w'.db ≤ quota.active w.db + _ := active_le he (steady_of_move he hm)
  by_cases hins : quota.inserts o = true
  · obtain ⟨hbefore, hafter⟩ := promised_of_inserts he hm hins
    rw [hbefore, hafter, if_pos rfl, if_neg Bool.false_ne_true]
    refine Or.inl ?_
    split_ifs at hactive <;> omega
  by_cases hcounts : quota.counts o = true ∧ quota.active w.db < quota.cap cfg
  · rw [not_grows_of_counts hcounts.1, if_neg Bool.false_ne_true] at hactive
    refine Or.inr ⟨Or.inr hcounts, ?_⟩
    split_ifs <;> omega
  -- what was promised is kept
  have hsame : promised quota (some l') = true → promised quota (some l) = true :=
    fun h => (promised_origin he hm h).resolve_right hcounts
  by_cases hgrows : grows quota w o = true
  · refine Or.inr ⟨Or.inl ⟨eq_false_of_ne_true hins, hgrows⟩, ?_⟩
    rw [if_pos hgrows] at hactive
    split_ifs with hafter hbefore hbefore <;> first | omega | exact absurd (hsame hafter) hbefore
  · rw [if_neg hgrows] at hactive
    refine Or.inl ?_
    split_ifs with hafter hbefore hbefore <;> first | omega | exact absurd (hsame hafter) hbefore

/-- Every place that was promised is that of a request in flight. -/
theorem load_le_inFlight {L : ℕ → Option Stage} (hL : (requests cfg).Holds s L) :
    Discipline.load s L (promised quota) ≤ inFlight s quota := by
  refine List.countP_mono_left fun i _ hi => ?_
  rcases ht : s.tasks i with _ | t
  · simp [ht] at hi
  have hl : L i = some (.admitted quota) := by simpa [ht, promised] using hi
  have hrun : t.rest.ended = false := by
    have hk := hL.keeps ht
    rcases t with ⟨call, u | ⟨o, k⟩⟩
    · rcases hk with h | h <;> cases hl.symm.trans h
    · rfl
  simp [hrun, hL.owned ht quota hl]

theorem hasRoom_of_needsRoom {a : Answers} {k : o.Resp → Relay Unit}
    (hok : leavesRoom cfg s (.task tid a) = true) (ht : s.tasks tid = some ⟨c, .op o k⟩)
    (hneeds : NeedsRoom cfg quota s.world o) :
    quota.active s.world.db + inFlight s quota < quota.cap cfg := by
  simp only [leavesRoom, nextOp?, ht, Option.all_some, Bool.and_eq_true] at hok
  suffices hasRoom cfg s quota = true from of_decide_eq_true this
  rcases hneeds with ⟨hins, hgrows⟩ | ⟨hcounts, hlt⟩
  · cases quota with
    | swaps => exact absurd hgrows (by simp [grows, hins])
    | offramps =>
      have hrev : revives s.world o = true := by simpa [grows, hins] using hgrows
      simpa [hrev] using hok.1
  · have hmem : quota ∈ [Quota.swaps, Quota.offramps] := by cases quota <;> simp
    simpa [hcounts, Int.not_le.2 hlt] using List.all_eq_true.1 hok.2 quota hmem

/-- The rows and the places that were promised stay within the cap. -/
theorem requests_bounded (cfg : Config) {w₀ : World} (quota : Quota)
    (h₀ : quota.active w₀.db ≤ quota.cap cfg) :
    (requests cfg).Bounded (relay cfg) (fun s a => leavesRoom cfg s a = true) w₀ (promised quota)
      (fun w => quota.active w.db) (quota.cap cfg) where
  start _ := rfl
  init := h₀
  move {s L tid c o a k r w sp l'} hr hL hok ht hp hm hle := by
    have he := effect_of_perform hp
    obtain ⟨m, m', hl, hm', hl'⟩ := hm.cases
    have hload : Discipline.load s L (promised quota) ≤ _ := load_le_inFlight hL
    rw [Discipline.load_eq hr.fresh ht, hl] at hload
    rw [hl] at hle
    -- a task that ends gives its place back
    have hplace : (if promised quota l' then 1 else 0) ≤ if promised quota (some m') then 1 else 0 := by
      rcases hl' with rfl | ⟨rfl, -⟩
      · exact Nat.le_refl _
      · exact Nat.zero_le _
    rcases places_move quota he hm' with hmove | ⟨hneeds, hmove⟩
    · omega
    · have hroom := hasRoom_of_needsRoom hok ht hneeds
      omega
  abort hp := by
    obtain rfl := abort_of_perform hp
    exact Int.le_refl _
  react hr := Int.le_of_eq (congrArg quota.active (reaction_of_react hr).calm.db)

end

end Caps

section

variable {cfg : Config}

/-- From any database within the caps, in every run in which a request is let in, and a closed offramp
brought back, only while the count leaves room beside the requests in flight, the counts of active swaps
and offramps stay within their caps. -/
theorem active_within_caps {w₀ : World} {s : Sys}
    (hswaps : w₀.db.countActiveSwaps ≤ cfg.maxActiveSwaps)
    (hofframps : w₀.db.countActiveOfframps ≤ cfg.maxActiveOfframps)
    (hs : (relay cfg).Reach (fun s a => leavesRoom cfg s a = true) w₀ s) :
    s.world.db.countActiveSwaps ≤ cfg.maxActiveSwaps ∧
      s.world.db.countActiveOfframps ≤ cfg.maxActiveOfframps := by
  have hS := Caps.requests_sound cfg (fun s a => leavesRoom cfg s a = true) w₀
  exact ⟨(Caps.requests_bounded cfg .swaps hswaps).le hS hs,
    (Caps.requests_bounded cfg .offramps hofframps).le hS hs⟩

/-! ## Runs -/

/-- A second invoice. -/
def devnetInvoice2 : Bolt11Invoice :=
  { Devnet.shortInvoice with text := "lnbcrt500n2", paymentHash := "162b58b7" }

/-- A relay that admits one active swap and one active offramp. -/
def devnetTight : Config :=
  { Devnet.shortConfig with
    bolt11FromStr := fun s =>
      if s = Devnet.shortInvoice.text then .ok Devnet.shortInvoice
      else if s = devnetInvoice2.text then .ok devnetInvoice2
      else .error "Bech32Error"
    maxActiveSwaps := 1
    maxActiveOfframps := 1 }

/-- Answers under which a swap gets the LM invoice `id` and the given BOLT11 invoice. -/
def devnetInvoicing (id : ℤ) (invoice : Bolt11Invoice) : Answers where
  operator := (Devnet.answers id "create" Devnet.emptyPool).operator
  ldk c :=
    match c with
    | .createBolt11Invoice _ _ _ => .ok invoice
    | c => Devnet.ok.ldk c

def devnetSwap : Act := .env (.request (.handleSwapRequest "127.0.0.1" ⟨50, Devnet.userAddress⟩))

/-- Two requests of swaps: the second comes when the first has read the count. -/
def devnetTwoSwaps : List Act :=
  Devnet.boot ++ devnetSwap :: Devnet.steps 3 2 (devnetInvoicing 1 Devnet.shortInvoice) ++
    devnetSwap :: Devnet.steps 4 11 (devnetInvoicing 2 devnetInvoice2) ++
    Devnet.steps 3 9 (devnetInvoicing 1 Devnet.shortInvoice)

def devnetOfframp (invoice : Bolt11Invoice) : Act :=
  .env (.request (.handleOfframpRequest "127.0.0.1" ⟨invoice.text, 50, Devnet.userAddress⟩))

/-- Two requests of offramps: the second comes when the first has read the count. -/
def devnetTwoOfframps : List Act :=
  Devnet.boot ++ devnetOfframp Devnet.shortInvoice ::
    Devnet.steps 3 2 (Devnet.answers 1 "create" Devnet.emptyPool) ++
    devnetOfframp devnetInvoice2 :: Devnet.steps 4 7 (Devnet.answers 2 "create" Devnet.emptyPool) ++
    Devnet.steps 3 5 (Devnet.answers 1 "create" Devnet.emptyPool)

/-- The first offramp expires and the monitor has listed it when its deposit is notified; it is
cancelled while the deposit is verified; a second offramp is requested; the verification fails. -/
def devnetBroughtBack : List Act :=
  Devnet.boot ++ Devnet.offrampRequest 3 1 Devnet.shortInvoice ++
    .env (.tick 3600001) :: Devnet.steps 2 3 Devnet.ok ++
    Devnet.deposit 1 "db9a16aa" :: Devnet.steps 4 4 Devnet.ok ++ Devnet.steps 2 4 Devnet.ok ++
    Devnet.offrampRequest 5 2 devnetInvoice2 ++ Devnet.steps 4 2 Devnet.unreachable

/-- Whether a run that meets a condition ends in a state with some property. -/
def devnetTightEnds (ok : Sys → Act → Bool) (as : List Act) (p : Sys → Bool) : Bool :=
  ((relay devnetTight).run ok ((relay devnetTight).initial
    (World.fresh devnetTight Devnet.startTime)) as).any p

set_option maxRecDepth 100000 in
/-- The second of two requests is refused when the first has inserted its row. -/
theorem active_within_caps_devnet :
    ∃ s, (relay devnetTight).Reach (fun s a => leavesRoom devnetTight s a = true)
        (World.fresh devnetTight Devnet.startTime) s ∧
      s.world.db.countActiveSwaps = 1 ∧ (s.tasks 4).any (fun t => t.rest.ended) = true ∧
      (s.world.db.countActiveSwaps ≤ devnetTight.maxActiveSwaps ∧
        s.world.db.countActiveOfframps ≤ devnetTight.maxActiveOfframps) := by
  have hrun : devnetTightEnds (leavesRoom devnetTight) (Devnet.boot ++
      devnetSwap :: Devnet.steps 3 11 (devnetInvoicing 1 Devnet.shortInvoice) ++
      devnetSwap :: Devnet.steps 4 2 (devnetInvoicing 2 devnetInvoice2))
      (fun s => s.world.db.countActiveSwaps = 1 &&
        (s.tasks 4).any fun t => t.rest.ended) = true := by decide +kernel
  obtain ⟨s, hs, hp⟩ := Runtime.exists_reach_of_run hrun
  rw [Bool.and_eq_true, decide_eq_true_eq] at hp
  exact ⟨s, hs, hp.1, hp.2, active_within_caps (by decide) (by decide) hs⟩

set_option maxRecDepth 100000 in
/-- With a cap of one: two requests that overlap leave two active swaps, or two active offramps, though
no offramp is brought back; and two requests one after the other leave two active offramps, when the
deposit of the first brings it back after its cancellation. -/
theorem devnet_caps_exceeded :
    (∃ s, (relay devnetTight).Reach (fun s a => neverRevives s a = true)
        (World.fresh devnetTight Devnet.startTime) s ∧
      devnetTight.maxActiveSwaps < s.world.db.countActiveSwaps) ∧
    (∃ s, (relay devnetTight).Reach (fun s a => neverRevives s a = true)
        (World.fresh devnetTight Devnet.startTime) s ∧
      devnetTight.maxActiveOfframps < s.world.db.countActiveOfframps) ∧
    ∃ s, (relay devnetTight).Reach (fun s a => oneByOne s a = true)
        (World.fresh devnetTight Devnet.startTime) s ∧
      devnetTight.maxActiveOfframps < s.world.db.countActiveOfframps := by
  have hswaps : devnetTightEnds neverRevives devnetTwoSwaps
      (fun s => devnetTight.maxActiveSwaps < s.world.db.countActiveSwaps) = true := by decide +kernel
  have hofframps : devnetTightEnds neverRevives devnetTwoOfframps
      (fun s => devnetTight.maxActiveOfframps < s.world.db.countActiveOfframps) = true := by
    decide +kernel
  have hback : devnetTightEnds oneByOne devnetBroughtBack
      (fun s => devnetTight.maxActiveOfframps < s.world.db.countActiveOfframps) = true := by
    decide +kernel
  obtain ⟨s₁, hs₁, h₁⟩ := Runtime.exists_reach_of_run hswaps
  obtain ⟨s₂, hs₂, h₂⟩ := Runtime.exists_reach_of_run hofframps
  obtain ⟨s₃, hs₃, h₃⟩ := Runtime.exists_reach_of_run hback
  exact ⟨⟨s₁, hs₁, of_decide_eq_true h₁⟩, ⟨s₂, hs₂, of_decide_eq_true h₂⟩,
    ⟨s₃, hs₃, of_decide_eq_true h₃⟩⟩

end

end LightningRelay
