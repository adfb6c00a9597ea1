import LightningRelay.Sql.Table
import Mathlib.Data.Int.Notation

/-!
# The swap database

The two tables of `mapping.rs` and the statements on them.  Every method of `SwapDb` takes the
connection's lock for one SQL statement, so each is one atomic operation (`DbCall`).  The proofs
see the tables through `getByPaymentHash` and `getOfframpById`, the lookups by primary key; the
lemmas of the last section say what each statement does to them.
-/

set_option autoImplicit false

namespace LightningRelay

open Sql

/-! ## Onramp rows -/

inductive SwapStatus where
  /-- LM invoice created, waiting for Lightning payment. -/
  | pending
  /-- Lightning payment received, Cardano fulfillment in progress. -/
  | fulfilling
  /-- cBTC sent to the user. -/
  | completed
  /-- The Cardano side failed after the Lightning payment. -/
  | failed
  /-- Invoice expired and cancelled on-chain. -/
  | expired
  deriving DecidableEq, Repr

def SwapStatus.asStr : SwapStatus → String
  | .pending => "pending"
  | .fulfilling => "fulfilling"
  | .completed => "completed"
  | .failed => "failed"
  | .expired => "expired"

def SwapStatus.fromStr (s : String) : SwapStatus :=
  if s = "pending" then .pending
  else if s = "fulfilling" then .fulfilling
  else if s = "completed" then .completed
  else if s = "failed" then .failed
  else if s = "expired" then .expired
  else .failed

/-- The status column holds `asStr` of a status and is read back with `fromStr`, so a row may hold
the status itself. -/
theorem SwapStatus.fromStr_asStr (s : SwapStatus) : fromStr s.asStr = s := by
  cases s <;> decide

structure SwapMapping where
  paymentHash : String
  invoiceId : ℤ
  amountCbtc : ℤ
  cardanoAddress : String
  status : SwapStatus
  createdAt : ℤ
  expiresAt : ℤ
  cardanoTxHash : Option String
  createTxHash : Option String
  deriving DecidableEq, Repr

/-! ## Offramp rows -/

inductive OfframpStatus where
  /-- CreateOfframp TX submitted, awaiting the user's cBTC deposit. -/
  | awaitingDeposit
  /-- cBTC TX announced, its receipt is being verified. -/
  | pendingVerification
  /-- cBTC verified, paying the user's Lightning invoice. -/
  | payingLightning
  /-- Lightning payment sent, depositing cBTC to the pool with FulfillOfframp. -/
  | depositingToPool
  /-- Deposit complete. -/
  | completed
  /-- Failed at some step. -/
  | failed
  deriving DecidableEq, Repr

def OfframpStatus.asStr : OfframpStatus → String
  | .awaitingDeposit => "awaiting_deposit"
  | .pendingVerification => "pending_verification"
  | .payingLightning => "paying_lightning"
  | .depositingToPool => "depositing_to_pool"
  | .completed => "completed"
  | .failed => "failed"

/-- The text of the derived `Debug`. -/
def OfframpStatus.debugStr : OfframpStatus → String
  | .awaitingDeposit => "AwaitingDeposit"
  | .pendingVerification => "PendingVerification"
  | .payingLightning => "PayingLightning"
  | .depositingToPool => "DepositingToPool"
  | .completed => "Completed"
  | .failed => "Failed"

def OfframpStatus.fromStr (s : String) : OfframpStatus :=
  if s = "awaiting_deposit" then .awaitingDeposit
  else if s = "pending_verification" then .pendingVerification
  else if s = "paying_lightning" then .payingLightning
  else if s = "depositing_to_pool" then .depositingToPool
  else if s = "completed" then .completed
  else .failed

theorem OfframpStatus.fromStr_asStr (s : OfframpStatus) : fromStr s.asStr = s := by
  cases s <;> decide

structure OfframpMapping where
  offrampId : ℤ
  bolt11 : String
  paymentHash : String
  amountCbtc : ℤ
  cbtcTxHash : String
  status : OfframpStatus
  createdAt : ℤ
  lightningPreimage : Option String
  depositTxHash : Option String
  errorMessage : Option String
  cardanoOfframpTxHash : Option String
  refundAddress : String
  expiresAt : ℤ
  deriving DecidableEq, Repr

/-! ## The statements -/

/-- The file `swaps.db`: one table for each direction. `offramp_id` is an `INTEGER PRIMARY KEY`, so the
offramps are scanned in the order of their ids; the swaps are scanned in insertion order. -/
structure SwapDb where
  swaps : Table SwapMapping.paymentHash
  offramps : Table OfframpMapping.offrampId

namespace SwapDb

/-- The tables as `CREATE TABLE IF NOT EXISTS` makes them. -/
def empty : SwapDb := ⟨.empty, .empty⟩

/-- The column `cardano_tx_hash` is not set by the `INSERT`. -/
def insert (db : SwapDb) (m : SwapMapping) : Option SwapDb :=
  (db.swaps.insert? (fun _ => false) { m with cardanoTxHash := none }).map fun t =>
    { db with swaps := t }

def getByPaymentHash (db : SwapDb) (paymentHash : String) : Option SwapMapping :=
  db.swaps.get? paymentHash

def updateStatus (db : SwapDb) (paymentHash : String) (status : SwapStatus)
    (txHash : Option String) : SwapDb :=
  { db with
    swaps := db.swaps.update (Table.onKey SwapMapping.paymentHash paymentHash fun _ => true)
      (fun r => { r with status := status, cardanoTxHash := txHash }) fun _ => rfl }

/-- The condition of the guarded update of a swap. -/
def swapIs (paymentHash : String) (expected : SwapStatus) : SwapMapping → Bool :=
  Table.onKey SwapMapping.paymentHash paymentHash fun r => r.status = expected

def transitionStatus (db : SwapDb) (paymentHash : String) (expected new : SwapStatus)
    (txHash : Option String) : Bool × SwapDb :=
  (db.swaps.matches? (swapIs paymentHash expected),
    { db with
      swaps := db.swaps.update (swapIs paymentHash expected)
        (fun r => { r with status := new, cardanoTxHash := txHash }) fun _ => rfl })

def getExpiredPending (db : SwapDb) (nowMs : ℤ) : List SwapMapping :=
  db.swaps.select fun r => r.status = .pending && r.expiresAt < nowMs

def getByStatus (db : SwapDb) (status : SwapStatus) : List SwapMapping :=
  db.swaps.select fun r => r.status = status

def countActiveSwaps (db : SwapDb) : ℤ :=
  db.swaps.count fun r => r.status = .pending || r.status = .fulfilling

/-- The columns `lightning_preimage`, `deposit_tx_hash` and `error_message` are not set by the
`INSERT`. -/
def insertOfframp (db : SwapDb) (m : OfframpMapping) : Option SwapDb :=
  (db.offramps.insert? (fun r => m.offrampId < r.offrampId)
    { m with lightningPreimage := none, depositTxHash := none, errorMessage := none }).map fun t =>
      { db with offramps := t }

def getOfframpById (db : SwapDb) (offrampId : ℤ) : Option OfframpMapping :=
  db.offramps.get? offrampId

def getOfframpByPaymentHash (db : SwapDb) (paymentHash : String) : Option OfframpMapping :=
  db.offramps.first? fun r => r.paymentHash = paymentHash

def getOfframpByCbtcTx (db : SwapDb) (cbtcTxHash : String) : Option OfframpMapping :=
  db.offramps.first? fun r => r.cbtcTxHash = cbtcTxHash && r.cbtcTxHash ≠ ""

/-- The columns that `update_offramp_status` sets; `COALESCE` keeps what is already there. -/
def coalesce (status : OfframpStatus) (preimage depositTxHash errorMessage : Option String)
    (r : OfframpMapping) : OfframpMapping :=
  { r with
    status := status
    lightningPreimage := preimage.or r.lightningPreimage
    depositTxHash := depositTxHash.or r.depositTxHash
    errorMessage := errorMessage.or r.errorMessage }

def updateOfframpStatus (db : SwapDb) (offrampId : ℤ) (status : OfframpStatus)
    (preimage depositTxHash errorMessage : Option String) : SwapDb :=
  { db with
    offramps := db.offramps.update (Table.onKey OfframpMapping.offrampId offrampId fun _ => true)
      (coalesce status preimage depositTxHash errorMessage) fun _ => rfl }

/-- The condition of the guarded updates of an offramp. -/
def offrampIs (offrampId : ℤ) (expected : OfframpStatus) : OfframpMapping → Bool :=
  Table.onKey OfframpMapping.offrampId offrampId fun r => r.status = expected

def transitionOfframpStatus (db : SwapDb) (offrampId : ℤ) (expected new : OfframpStatus) :
    Bool × SwapDb :=
  (db.offramps.matches? (offrampIs offrampId expected),
    { db with
      offramps := db.offramps.update (offrampIs offrampId expected)
        (fun r => { r with status := new }) fun _ => rfl })

def transitionOfframpWithCbtcTx (db : SwapDb) (offrampId : ℤ) (cbtcTxHash : String)
    (expected new : OfframpStatus) : Bool × SwapDb :=
  (db.offramps.matches? (offrampIs offrampId expected),
    { db with
      offramps := db.offramps.update (offrampIs offrampId expected)
        (fun r => { r with cbtcTxHash := cbtcTxHash, status := new }) fun _ => rfl })

def getExpiredOfframps (db : SwapDb) (nowMs : ℤ) : List OfframpMapping :=
  db.offramps.select fun r =>
    (r.status = .awaitingDeposit || r.status = .failed) && 0 < r.expiresAt && r.expiresAt < nowMs

def getOfframpsByStatus (db : SwapDb) (status : OfframpStatus) : List OfframpMapping :=
  db.offramps.select fun r => r.status = status

def countActiveOfframps (db : SwapDb) : ℤ :=
  db.offramps.count fun r =>
    r.status = .awaitingDeposit || r.status = .pendingVerification ||
      r.status = .payingLightning || r.status = .depositingToPool

end SwapDb

/-- A call of a `SwapDb` method. -/
inductive DbCall where
  | insert (m : SwapMapping)
  | getByPaymentHash (paymentHash : String)
  | updateStatus (paymentHash : String) (status : SwapStatus) (txHash : Option String)
  | transitionStatus (paymentHash : String) (expected new : SwapStatus) (txHash : Option String)
  | getExpiredPending (nowMs : ℤ)
  | getByStatus (status : SwapStatus)
  | countActiveSwaps
  | insertOfframp (m : OfframpMapping)
  | getOfframpById (offrampId : ℤ)
  | getOfframpByPaymentHash (paymentHash : String)
  | getOfframpByCbtcTx (cbtcTxHash : String)
  | updateOfframpStatus (offrampId : ℤ) (status : OfframpStatus)
      (preimage depositTxHash errorMessage : Option String)
  | transitionOfframpStatus (offrampId : ℤ) (expected new : OfframpStatus)
  | transitionOfframpWithCbtcTx (offrampId : ℤ) (cbtcTxHash : String)
      (expected new : OfframpStatus)
  | getExpiredOfframps (nowMs : ℤ)
  | getOfframpsByStatus (status : OfframpStatus)
  | countActiveOfframps
  deriving DecidableEq, Repr

/-- What a call returns. An insertion tells whether the statement succeeded; the caller's `expect`
aborts when it did not. -/
@[reducible] def DbCall.Ret : DbCall → Type
  | .insert _ | .insertOfframp _ => Bool
  | .getByPaymentHash _ => Option SwapMapping
  | .updateStatus _ _ _ | .updateOfframpStatus _ _ _ _ _ => Unit
  | .transitionStatus _ _ _ _ | .transitionOfframpStatus _ _ _
  | .transitionOfframpWithCbtcTx _ _ _ _ => Bool
  | .getExpiredPending _ | .getByStatus _ => List SwapMapping
  | .getOfframpById _ | .getOfframpByPaymentHash _ | .getOfframpByCbtcTx _ =>
    Option OfframpMapping
  | .getExpiredOfframps _ | .getOfframpsByStatus _ => List OfframpMapping
  | .countActiveSwaps | .countActiveOfframps => ℤ

/-- An insertion that may fail: a failed statement changes nothing. -/
def SwapDb.inserted (db : SwapDb) : Option SwapDb → Bool × SwapDb
  | some db' => (true, db')
  | none => (false, db)

/-- Perform a call on the database. -/
def SwapDb.call (db : SwapDb) : (c : DbCall) → c.Ret × SwapDb
  | .insert m => db.inserted (db.insert m)
  | .getByPaymentHash h => (db.getByPaymentHash h, db)
  | .updateStatus h st tx => ((), db.updateStatus h st tx)
  | .transitionStatus h e n tx => db.transitionStatus h e n tx
  | .getExpiredPending now => (db.getExpiredPending now, db)
  | .getByStatus st => (db.getByStatus st, db)
  | .countActiveSwaps => (db.countActiveSwaps, db)
  | .insertOfframp m => db.inserted (db.insertOfframp m)
  | .getOfframpById id => (db.getOfframpById id, db)
  | .getOfframpByPaymentHash h => (db.getOfframpByPaymentHash h, db)
  | .getOfframpByCbtcTx tx => (db.getOfframpByCbtcTx tx, db)
  | .updateOfframpStatus id st p d e => ((), db.updateOfframpStatus id st p d e)
  | .transitionOfframpStatus id e n => db.transitionOfframpStatus id e n
  | .transitionOfframpWithCbtcTx id tx e n => db.transitionOfframpWithCbtcTx id tx e n
  | .getExpiredOfframps now => (db.getExpiredOfframps now, db)
  | .getOfframpsByStatus st => (db.getOfframpsByStatus st, db)
  | .countActiveOfframps => (db.countActiveOfframps, db)

/-! ## What a call does to a row

A statement treats every row by itself, so the row with a given key after the call is a function of
the row before it (`DbCall.onSwap`, `DbCall.onOfframp`). -/

/-- The guarded change of a status. -/
def OfframpMapping.moved (expected new : OfframpStatus) (r : OfframpMapping) : OfframpMapping :=
  if r.status = expected then { r with status := new } else r

/-- The guarded change of a status that also stores the deposit's hash. -/
def OfframpMapping.recorded (cbtcTxHash : String) (expected new : OfframpStatus)
    (r : OfframpMapping) : OfframpMapping :=
  if r.status = expected then { r with cbtcTxHash := cbtcTxHash, status := new } else r

/-- The guarded change of a swap. -/
def SwapMapping.moved (expected new : SwapStatus) (txHash : Option String) (r : SwapMapping) :
    SwapMapping :=
  if r.status = expected then { r with status := new, cardanoTxHash := txHash } else r

/-- Calls that insert a row. -/
def DbCall.inserts : DbCall → Bool
  | .insert _ | .insertOfframp _ => true
  | _ => false

/-- The row with payment hash `k` after a call. -/
def DbCall.onSwap (k : String) (row : Option SwapMapping) : DbCall → Option SwapMapping
  | .insert m => if k = m.paymentHash then row.or (some { m with cardanoTxHash := none }) else row
  | .updateStatus h st tx =>
    if k = h then row.map fun r => { r with status := st, cardanoTxHash := tx } else row
  | .transitionStatus h e n tx => if k = h then row.map (SwapMapping.moved e n tx) else row
  | _ => row

/-- The row with offramp id `k` after a call. -/
def DbCall.onOfframp (k : ℤ) (row : Option OfframpMapping) : DbCall → Option OfframpMapping
  | .insertOfframp m =>
    if k = m.offrampId then
      row.or (some { m with lightningPreimage := none, depositTxHash := none, errorMessage := none })
    else row
  | .updateOfframpStatus id st p d e => if k = id then row.map (SwapDb.coalesce st p d e) else row
  | .transitionOfframpStatus id e n => if k = id then row.map (OfframpMapping.moved e n) else row
  | .transitionOfframpWithCbtcTx id tx e n =>
    if k = id then row.map (OfframpMapping.recorded tx e n) else row
  | _ => row

namespace SwapDb

variable (db : SwapDb)

theorem getByPaymentHash_call (c : DbCall) (k : String) :
    (db.call c).2.getByPaymentHash k = c.onSwap k (db.getByPaymentHash k) := by
  cases c with
  | insert m =>
    refine Eq.trans ?_ (db.swaps.get?_getD_insert? (fun _ => false)
      { m with cardanoTxHash := none } k)
    simp only [call, getByPaymentHash, insert]
    rcases db.swaps.insert? _ _ with _ | t <;> rfl
  | updateStatus h st tx =>
    simp only [call, DbCall.onSwap, getByPaymentHash, updateStatus]
    split_ifs with hk
    · subst hk
      rw [Table.get?_update_onKey_self]
      rfl
    · exact Table.get?_update_onKey_of_ne hk _ _ _
  | transitionStatus h e n tx =>
    simp only [call, DbCall.onSwap, getByPaymentHash, transitionStatus, swapIs]
    split_ifs with hk
    · subst hk
      rw [Table.get?_update_onKey_self]
      simp only [decide_eq_true_eq]
      rfl
    · exact Table.get?_update_onKey_of_ne hk _ _ _
  | insertOfframp m =>
    simp only [call, insertOfframp]
    rcases db.offramps.insert? _ _ with _ | t <;> rfl
  | _ => rfl

theorem getOfframpById_call (c : DbCall) (k : ℤ) :
    (db.call c).2.getOfframpById k = c.onOfframp k (db.getOfframpById k) := by
  cases c with
  | insert m =>
    simp only [call, insert]
    rcases db.swaps.insert? _ _ with _ | t <;> rfl
  | insertOfframp m =>
    refine Eq.trans ?_ (db.offramps.get?_getD_insert? (fun r => m.offrampId < r.offrampId)
      { m with lightningPreimage := none, depositTxHash := none, errorMessage := none } k)
    simp only [call, getOfframpById, insertOfframp]
    rcases db.offramps.insert? _ _ with _ | t <;> rfl
  | updateOfframpStatus id st p d e =>
    simp only [call, DbCall.onOfframp, getOfframpById, updateOfframpStatus]
    split_ifs with hk
    · subst hk
      exact Table.get?_update_onKey_self _ _ _
    · exact Table.get?_update_onKey_of_ne hk _ _ _
  | transitionOfframpStatus id e n =>
    simp only [call, DbCall.onOfframp, getOfframpById, transitionOfframpStatus, offrampIs]
    split_ifs with hk
    · subst hk
      rw [Table.get?_update_onKey_self]
      simp only [decide_eq_true_eq]
      rfl
    · exact Table.get?_update_onKey_of_ne hk _ _ _
  | transitionOfframpWithCbtcTx id tx e n =>
    simp only [call, DbCall.onOfframp, getOfframpById, transitionOfframpWithCbtcTx, offrampIs]
    split_ifs with hk
    · subst hk
      rw [Table.get?_update_onKey_self]
      simp only [decide_eq_true_eq]
      rfl
    · exact Table.get?_update_onKey_of_ne hk _ _ _
  | _ => rfl

/-- Calls that do not insert a row leave the keys of the tables and their order as they are. -/
theorem keys_call (c : DbCall) (hc : c.inserts = false) :
    (db.call c).2.swaps.rows.map SwapMapping.paymentHash = db.swaps.rows.map SwapMapping.paymentHash ∧
    (db.call c).2.offramps.rows.map OfframpMapping.offrampId =
      db.offramps.rows.map OfframpMapping.offrampId := by
  cases c with
  | insert | insertOfframp => cases hc
  | updateStatus | transitionStatus => exact ⟨Table.map_key_update _ _ _ fun _ => rfl, rfl⟩
  | updateOfframpStatus | transitionOfframpStatus | transitionOfframpWithCbtcTx =>
    exact ⟨rfl, Table.map_key_update _ _ _ fun _ => rfl⟩
  | _ => exact ⟨rfl, rfl⟩

/-- Calls that do not insert a row leave the payment hashes of the offramps as they are. -/
theorem paymentHash_call {c : DbCall} (hc : c.inserts = false) {k : ℤ} {r : OfframpMapping}
    (h : (db.call c).2.getOfframpById k = some r) :
    ∃ r₀, db.getOfframpById k = some r₀ ∧ r₀.paymentHash = r.paymentHash := by
  rw [getOfframpById_call] at h
  cases c with
  | insert | insertOfframp => cases hc
  | updateOfframpStatus | transitionOfframpStatus | transitionOfframpWithCbtcTx =>
    simp only [DbCall.onOfframp] at h
    split_ifs at h
    · obtain ⟨r₀, hr₀, rfl⟩ := Option.map_eq_some_iff.1 h
      exact ⟨r₀, hr₀, by simp only [coalesce, OfframpMapping.moved, OfframpMapping.recorded, apply_ite,
        ite_self]⟩
    · exact ⟨r, h, rfl⟩
  | _ => exact ⟨r, h, rfl⟩

variable {db}

/-- A database is determined by the keys of its tables, in order, and the rows that they find. -/
theorem ext_rows {db' : SwapDb}
    (hswaps : db.swaps.rows.map SwapMapping.paymentHash = db'.swaps.rows.map SwapMapping.paymentHash)
    (hofframps : db.offramps.rows.map OfframpMapping.offrampId =
      db'.offramps.rows.map OfframpMapping.offrampId)
    (hswap : ∀ k, db.getByPaymentHash k = db'.getByPaymentHash k)
    (hofframp : ∀ k, db.getOfframpById k = db'.getOfframpById k) : db = db' := by
  have hs : db.swaps = db'.swaps := Table.ext_get? hswaps hswap
  have ho : db.offramps = db'.offramps := Table.ext_get? hofframps hofframp
  cases db
  cases db'
  congr

theorem inserted_fst (x : Option SwapDb) : (db.inserted x).1 = x.isSome := by
  cases x <;> rfl

/-- A swap is inserted where there is none with its payment hash. -/
theorem insert_fst_iff {m : SwapMapping} :
    (db.call (.insert m)).1 = true ↔ db.getByPaymentHash m.paymentHash = none := by
  rw [call, insert, inserted_fst, Option.isSome_map]
  exact Table.isSome_insert?_iff

/-- An offramp is inserted where there is none with its id. -/
theorem insertOfframp_fst_iff {m : OfframpMapping} :
    (db.call (.insertOfframp m)).1 = true ↔ db.getOfframpById m.offrampId = none := by
  rw [call, insertOfframp, inserted_fst, Option.isSome_map]
  exact Table.isSome_insert?_iff

theorem transitionStatus_fst_iff {h : String} {e n : SwapStatus} {tx : Option String} :
    (db.transitionStatus h e n tx).1 = true ↔ ∃ r, db.getByPaymentHash h = some r ∧ r.status = e := by
  simp only [transitionStatus, swapIs, Table.matches?_onKey, getByPaymentHash, decide_eq_true_eq]

theorem transitionOfframpStatus_fst_iff {id : ℤ} {e n : OfframpStatus} :
    (db.transitionOfframpStatus id e n).1 = true ↔
      ∃ r, db.getOfframpById id = some r ∧ r.status = e := by
  simp only [transitionOfframpStatus, offrampIs, Table.matches?_onKey, getOfframpById,
    decide_eq_true_eq]

theorem transitionOfframpWithCbtcTx_fst_iff {id : ℤ} {tx : String} {e n : OfframpStatus} :
    (db.transitionOfframpWithCbtcTx id tx e n).1 = true ↔
      ∃ r, db.getOfframpById id = some r ∧ r.status = e := by
  simp only [transitionOfframpWithCbtcTx, offrampIs, Table.matches?_onKey, getOfframpById,
    decide_eq_true_eq]

theorem paymentHash_of_getByPaymentHash {h : String} {r : SwapMapping}
    (hr : db.getByPaymentHash h = some r) : r.paymentHash = h :=
  Table.key_of_get? hr

theorem offrampId_of_getOfframpById {id : ℤ} {r : OfframpMapping}
    (hr : db.getOfframpById id = some r) : r.offrampId = id :=
  Table.key_of_get? hr

theorem getOfframpByPaymentHash_eq_some {h : String} {r : OfframpMapping}
    (hr : db.getOfframpByPaymentHash h = some r) :
    db.getOfframpById r.offrampId = some r ∧ r.paymentHash = h := by
  simpa [getOfframpById] using Table.get?_of_first? hr

theorem getOfframpByPaymentHash_eq_none_iff {h : String} :
    db.getOfframpByPaymentHash h = none ↔
      ∀ id r, db.getOfframpById id = some r → r.paymentHash ≠ h := by
  rw [getOfframpByPaymentHash, Table.first?_eq_none_iff]
  constructor
  · intro hno id r hr
    simpa using hno r (Table.mem_of_get? hr)
  · intro hno r hr
    simpa using hno _ r (Table.get?_of_mem hr)

theorem getOfframpByCbtcTx_eq_some {tx : String} {r : OfframpMapping}
    (hr : db.getOfframpByCbtcTx tx = some r) :
    db.getOfframpById r.offrampId = some r ∧ r.cbtcTxHash = tx := by
  obtain ⟨hget, hq⟩ := Table.get?_of_first? hr
  exact ⟨hget, (by simpa using hq : r.cbtcTxHash = tx ∧ ¬ r.cbtcTxHash = "").1⟩

theorem getOfframpByCbtcTx_eq_none_iff {tx : String} (htx : tx ≠ "") :
    db.getOfframpByCbtcTx tx = none ↔
      ∀ id r, db.getOfframpById id = some r → r.cbtcTxHash ≠ tx := by
  rw [getOfframpByCbtcTx, Table.first?_eq_none_iff]
  constructor
  · intro h id r hr e
    have := h r (Table.mem_of_get? hr)
    simp_all
  · intro h r hr
    have := h _ r (Table.get?_of_mem hr)
    simp [this]

theorem mem_getExpiredPending {now : ℤ} {r : SwapMapping} :
    r ∈ db.getExpiredPending now ↔
      db.getByPaymentHash r.paymentHash = some r ∧ r.status = .pending ∧ r.expiresAt < now := by
  simp [getExpiredPending, Table.mem_select, getByPaymentHash]

theorem mem_getByStatus {st : SwapStatus} {r : SwapMapping} :
    r ∈ db.getByStatus st ↔ db.getByPaymentHash r.paymentHash = some r ∧ r.status = st := by
  simp [getByStatus, Table.mem_select, getByPaymentHash]

theorem mem_getExpiredOfframps {now : ℤ} {r : OfframpMapping} :
    r ∈ db.getExpiredOfframps now ↔
      db.getOfframpById r.offrampId = some r ∧ (r.status = .awaitingDeposit ∨ r.status = .failed) ∧
        0 < r.expiresAt ∧ r.expiresAt < now := by
  simp [getExpiredOfframps, Table.mem_select, getOfframpById, and_assoc]

theorem mem_getOfframpsByStatus {st : OfframpStatus} {r : OfframpMapping} :
    r ∈ db.getOfframpsByStatus st ↔ db.getOfframpById r.offrampId = some r ∧ r.status = st := by
  simp [getOfframpsByStatus, Table.mem_select, getOfframpById]

end SwapDb

end LightningRelay
