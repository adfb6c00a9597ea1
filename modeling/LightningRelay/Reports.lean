import LightningRelay.Mapping
import LightningRelay.Sql.Recent

/-!
# What the API reports about swaps

The status and history endpoints of `api.rs`.  Each reads the database with one statement, so its
response is a function of the tables at that moment.  The error responses carry no status code.
-/

set_option autoImplicit false

namespace LightningRelay

open Sql

/-- The text of the derived `Debug`. -/
def SwapStatus.debugStr : SwapStatus → String
  | .pending => "Pending"
  | .fulfilling => "Fulfilling"
  | .completed => "Completed"
  | .failed => "Failed"
  | .expired => "Expired"

structure SwapStatusResponse where
  paymentHash : String
  invoiceId : ℤ
  status : String
  cardanoTxHash : Option String
  createTxHash : Option String
  deriving DecidableEq, Repr

structure OfframpStatusResponse where
  offrampId : ℤ
  paymentHash : String
  amountCbtc : ℤ
  status : String
  depositTxHash : Option String
  createOfframpTxHash : Option String
  lightningPreimage : Option String
  errorMessage : Option String
  deriving DecidableEq, Repr

/-- How a swap is reported. -/
def SwapMapping.report (m : SwapMapping) : SwapStatusResponse where
  paymentHash := m.paymentHash
  invoiceId := m.invoiceId
  status := m.status.debugStr
  cardanoTxHash := m.cardanoTxHash
  createTxHash := m.createTxHash

/-- How an offramp is reported. -/
def OfframpMapping.report (m : OfframpMapping) : OfframpStatusResponse where
  offrampId := m.offrampId
  paymentHash := m.paymentHash
  amountCbtc := m.amountCbtc
  status := m.status.asStr
  depositTxHash := m.depositTxHash
  createOfframpTxHash := m.cardanoOfframpTxHash
  lightningPreimage := m.lightningPreimage
  errorMessage := m.errorMessage

namespace SwapDb

def listRecentSwaps (db : SwapDb) (limit : ℕ) : List SwapMapping :=
  db.swaps.recent SwapMapping.createdAt limit

def listRecentOfframps (db : SwapDb) (limit : ℕ) : List OfframpMapping :=
  db.offramps.recent OfframpMapping.createdAt limit

end SwapDb

def handleSwapStatus (db : SwapDb) (hash : String) : Except String SwapStatusResponse :=
  match db.getByPaymentHash hash with
  | some mapping => .ok mapping.report
  | none => .error s!"swap not found for payment hash {hash}"

def handleOfframpStatus (db : SwapDb) (id : ℤ) : Except String OfframpStatusResponse :=
  match db.getOfframpById id with
  | some mapping => .ok mapping.report
  | none => .error s!"offramp not found for id {id}"

def handleSwapHistory (db : SwapDb) : List SwapStatusResponse :=
  (db.listRecentSwaps 20).map SwapMapping.report

def handleOfframpHistory (db : SwapDb) : List OfframpStatusResponse :=
  (db.listRecentOfframps 20).map OfframpMapping.report

/-! ## The history shows what the status endpoint shows -/

section

variable {db : SwapDb}

/-- A swap is in the history until twenty others are as new. -/
theorem report_mem_handleSwapHistory {h : String} {m : SwapMapping}
    (hm : db.getByPaymentHash h = some m) :
    m.report ∈ handleSwapHistory db ∨ 20 ≤ db.swaps.count fun r => m.createdAt ≤ r.createdAt :=
  (Table.mem_recent_or_le_count _ 20 (Table.mem_of_get? hm)).imp_left fun hr =>
    List.mem_map_of_mem hr

theorem report_mem_handleOfframpHistory {id : ℤ} {m : OfframpMapping}
    (hm : db.getOfframpById id = some m) :
    m.report ∈ handleOfframpHistory db ∨
      20 ≤ db.offramps.count fun r => m.createdAt ≤ r.createdAt :=
  (Table.mem_recent_or_le_count _ 20 (Table.mem_of_get? hm)).imp_left fun hr =>
    List.mem_map_of_mem hr

end

end LightningRelay
