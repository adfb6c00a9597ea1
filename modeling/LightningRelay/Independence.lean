import LightningRelay.Async.Interleave
import LightningRelay.Footprint
import LightningRelay.Devnet
import Mathlib.Data.List.FinRange

/-!
# Fulfilments do not influence each other

Tasks that fulfill a swap or complete an offramp each, every one for a row of its own, run over one
database.  Their calls of the database touch their own rows, so they are independent threads.

* `fulfilments_independent`: every interleaving ends in the database in which the tasks end that are
  run one after the other, in any order, and leaves the other rows as they are.
-/

set_option autoImplicit false

namespace LightningRelay

open Async

/-- What the outside has for one task: the answers to its operator calls and its readings of the
clock. -/
structure Outside where
  answers : ℕ → Answers
  clock : ℕ → ℤ

/-- One operation of a task on the database; other tasks' operations come in between. -/
def Outside.act : (o : Op) → Outside × SwapDb → Option (o.Resp × Outside × SwapDb)
  | .db c, (x, d) => some ((d.call c).1, x, (d.call c).2)
  | .operator about c, (x, d) =>
    some ((x.answers 0).operator about c, { x with answers := fun n => x.answers (n + 1) }, d)
  | .now, (x, d) => some (x.clock 0, { x with clock := fun n => x.clock (n + 1) }, d)
  | .sleep _, (x, d) => some ((), x, d)
  | _, _ => none

/-- A task for one row: `fulfill_swap`, or `complete_offramp` for the row with the given id. -/
inductive Fulfilment where
  | swap (paymentHash : String)
  | offramp (offrampId : ℤ) (paymentHash preimage : String)

namespace Fulfilment

/-- The row of the task. -/
def row : Fulfilment → About
  | .swap h => .swap h
  | .offramp id _ _ => .offramp id

def program : Fulfilment → Relay Unit
  | .swap h => fulfillSwap h
  | .offramp _ h preimage => completeOfframp h preimage

/-- No other row of the table has the payment hash of the task. -/
def Unshared (d : SwapDb) : Fulfilment → Prop
  | .swap _ => True
  | .offramp id h _ => ∀ k m, d.getOfframpById k = some m → m.paymentHash = h → k = id

/-- The operations of a task on its own row. -/
def Owns : Fulfilment → Op → Prop
  | .swap h, .db (.getByPaymentHash h') => h' = h
  | .swap h, .db (.transitionStatus h' _ _ _) => h' = h
  | .swap h, .db (.updateStatus h' _ _) => h' = h
  | .offramp _ h _, .db (.getOfframpByPaymentHash h') => h' = h
  | .offramp id _ _, .db (.transitionOfframpStatus id' _ _) => id' = id
  | .offramp id _ _, .db (.updateOfframpStatus id' _ _ _ _) => id' = id
  | _, .operator _ _ => True
  | _, .now => True
  | _, .sleep _ => True
  | _, _ => False

variable {f g : Fulfilment} {c : DbCall} {d d' : SwapDb}

theorem inserts_of_owns (h : f.Owns (.db c)) : c.inserts = false := by
  cases f <;> cases c <;> first | rfl | cases h

theorem onSwap_of_owns (h : f.Owns (.db c)) {k : String} (hk : f.row ≠ .swap k)
    (row : Option SwapMapping) : c.onSwap k row = row := by
  cases f with
  | swap h' =>
    have hne : k ≠ h' := fun heq => hk (heq ▸ rfl)
    cases c with
    | updateStatus h'' =>
      obtain rfl : h'' = h' := h
      exact if_neg hne
    | transitionStatus h'' =>
      obtain rfl : h'' = h' := h
      exact if_neg hne
    | insert => cases h
    | _ => rfl
  | offramp =>
    cases c with
    | updateStatus | transitionStatus | insert => cases h
    | _ => rfl

theorem onOfframp_of_owns (h : f.Owns (.db c)) {k : ℤ} (hk : f.row ≠ .offramp k)
    (row : Option OfframpMapping) : c.onOfframp k row = row := by
  cases f with
  | offramp id' =>
    have hne : k ≠ id' := fun heq => hk (heq ▸ rfl)
    cases c with
    | updateOfframpStatus id'' =>
      obtain rfl : id'' = id' := h
      exact if_neg hne
    | transitionOfframpStatus id'' =>
      obtain rfl : id'' = id' := h
      exact if_neg hne
    | insertOfframp | transitionOfframpWithCbtcTx => cases h
    | _ => rfl
  | swap =>
    cases c with
    | updateOfframpStatus | transitionOfframpStatus | transitionOfframpWithCbtcTx
    | insertOfframp => cases h
    | _ => rfl

/-- The row with the payment hash of a task is the row of the task. -/
theorem getOfframpByPaymentHash_of_unshared {id : ℤ} {h preimage : String}
    (hu : (Fulfilment.offramp id h preimage).Unshared d) :
    d.getOfframpByPaymentHash h = (d.getOfframpById id).filter fun m => m.paymentHash = h := by
  rcases hfirst : d.getOfframpByPaymentHash h with _ | m
  · have hnone := SwapDb.getOfframpByPaymentHash_eq_none_iff.1 hfirst
    rcases hrow : d.getOfframpById id with _ | m
    · rfl
    · rw [Option.filter_some_neg (by simpa using hnone id m hrow)]
  · obtain ⟨hrow, hhash⟩ := SwapDb.getOfframpByPaymentHash_eq_some hfirst
    rw [← hu _ m hrow hhash, hrow, Option.filter_some_pos (by simpa using hhash)]

/-- The answer to a call of a task depends on the row of the task only. -/
theorem resp_of_owns (h : f.Owns (.db c)) (hu : f.Unshared d) (hu' : f.Unshared d')
    (hswap : ∀ k, f.row = .swap k → d'.getByPaymentHash k = d.getByPaymentHash k)
    (hofframp : ∀ k, f.row = .offramp k → d'.getOfframpById k = d.getOfframpById k) :
    (d'.call c).1 = (d.call c).1 := by
  cases f with
  | swap h' =>
    have hrow := hswap h' rfl
    cases c with
    | getByPaymentHash h'' =>
      obtain rfl : h'' = h' := h
      exact hrow
    | transitionStatus h'' e n tx =>
      obtain rfl : h'' = h' := h
      show (d'.transitionStatus h'' e n tx).1 = (d.transitionStatus h'' e n tx).1
      rw [Bool.eq_iff_iff, SwapDb.transitionStatus_fst_iff, SwapDb.transitionStatus_fst_iff, hrow]
    | updateStatus => rfl
    | _ => cases h
  | offramp id h' p =>
    have hrow := hofframp id rfl
    cases c with
    | getOfframpByPaymentHash h'' =>
      obtain rfl : h'' = h' := h
      show d'.getOfframpByPaymentHash h'' = d.getOfframpByPaymentHash h''
      rw [getOfframpByPaymentHash_of_unshared hu, getOfframpByPaymentHash_of_unshared hu', hrow]
    | transitionOfframpStatus id' e n =>
      obtain rfl : id' = id := h
      show (d'.transitionOfframpStatus id' e n).1 = (d.transitionOfframpStatus id' e n).1
      rw [Bool.eq_iff_iff, SwapDb.transitionOfframpStatus_fst_iff,
        SwapDb.transitionOfframpStatus_fst_iff, hrow]
    | updateOfframpStatus => rfl
    | _ => cases h

theorem unshared_call {f : Fulfilment} (hc : c.inserts = false) (hu : f.Unshared d) :
    f.Unshared (d.call c).2 := by
  cases f with
  | swap => trivial
  | offramp id h p =>
    intro k m hm hhash
    obtain ⟨m₀, hm₀, hhash₀⟩ := SwapDb.paymentHash_call d hc hm
    exact hu k m₀ hm₀ (hhash₀.trans hhash)

section

variable {c' : DbCall} (hf : f.Owns (.db c)) (hg : g.Owns (.db c')) (hne : f.row ≠ g.row)

include hf hg hne

/-- Calls on different rows commute. -/
theorem call_comm (d : SwapDb) : ((d.call c).2.call c').2 = ((d.call c').2.call c).2 := by
  obtain ⟨hs, ho⟩ := SwapDb.keys_call d c (inserts_of_owns hf)
  obtain ⟨hs', ho'⟩ := SwapDb.keys_call d c' (inserts_of_owns hg)
  obtain ⟨hs₁, ho₁⟩ := SwapDb.keys_call (d.call c).2 c' (inserts_of_owns hg)
  obtain ⟨hs₂, ho₂⟩ := SwapDb.keys_call (d.call c').2 c (inserts_of_owns hf)
  refine SwapDb.ext_rows ?_ ?_ (fun k => ?_) fun k => ?_
  · rw [hs₁, hs, hs₂, hs']
  · rw [ho₁, ho, ho₂, ho']
  · simp only [SwapDb.getByPaymentHash_call]
    by_cases hk : f.row = .swap k
    · rw [onSwap_of_owns hg (hk ▸ hne.symm), onSwap_of_owns hg (hk ▸ hne.symm)]
    · rw [onSwap_of_owns hf hk, onSwap_of_owns hf hk]
  · simp only [SwapDb.getOfframpById_call]
    by_cases hk : f.row = .offramp k
    · rw [onOfframp_of_owns hg (hk ▸ hne.symm), onOfframp_of_owns hg (hk ▸ hne.symm)]
    · rw [onOfframp_of_owns hf hk, onOfframp_of_owns hf hk]

/-- A call on another row does not change the answer. -/
theorem resp_comm (hu : g.Unshared d) : ((d.call c).2.call c').1 = (d.call c').1 := by
  refine resp_of_owns hg hu (unshared_call (inserts_of_owns hf) hu) (fun k hk => ?_) fun k hk => ?_
  · rw [SwapDb.getByPaymentHash_call, onSwap_of_owns hf (hk ▸ hne)]
  · rw [SwapDb.getOfframpById_call, onOfframp_of_owns hf (hk ▸ hne)]

end

end Fulfilment

/-! ## The tasks as threads -/

namespace Outside

variable {o : Op} {r : o.Resp} {x x' : Outside} {d d' : SwapDb}

/-- Operations that are no calls of the database neither see nor change it. -/
theorem act_apart (ho : ∀ c, o ≠ .db c) (h : act o (x, d) = some (r, x', d')) :
    d' = d ∧ ∀ d₁, act o (x, d₁) = some (r, x', d₁) := by
  cases o with
  | db c => exact absurd rfl (ho c)
  | operator | now | sleep =>
    obtain ⟨rfl, rfl, rfl⟩ := by simpa [act] using h
    exact ⟨rfl, fun _ => rfl⟩
  | _ => cases h

theorem act_db {c : DbCall} {r : c.Ret} (h : act (.db c) (x, d) = some (r, x', d')) :
    r = (d.call c).1 ∧ x' = x ∧ d' = (d.call c).2 := by
  cases h
  exact ⟨rfl, rfl, rfl⟩

theorem exec_db {α : Type} (c : DbCall) (f : c.Ret → Relay α) :
    (db c >>= f).exec act (x, d) = (f (d.call c).1).exec act (x, (d.call c).2) := rfl

theorem exec_now {α : Type} (f : ℤ → Relay α) : (currentTimestampMs >>= f).exec act (x, d) =
    (f (x.clock 0)).exec act ({ x with clock := fun n => x.clock (n + 1) }, d) := rfl

/-- What follows a query loop returns if it does for whatever the loop returns. -/
theorem returns_query {α β : Type} {about : About} {n delay : ℕ} {context : String}
    {find : ContractState → Option α} {f : Except String α → Relay β} {s : Outside × SwapDb}
    (hf : ∀ r s, ∃ b s', (f r).exec act s = (some b, s')) :
    ∃ b s', (queryStateWithRetry about n delay context find >>= f).exec act s = (some b, s') := by
  have hloop : ∃ r s', (queryStateWithRetry about n delay context find).exec act s = (some r, s') ∧
      True ∧ ∀ x, r = .ok x → ∃ state, find state = some x := by
    refine exec_queryStateWithRetry_keep (I := fun _ => True) ?_ ?_ trivial
    · exact fun _ _ _ => ⟨(), _, rfl, trivial⟩
    · exact fun _ _ => ⟨_, _, rfl, trivial⟩
  obtain ⟨r, s', he, -⟩ := hloop
  rw [Prog.exec_bind _ he]
  exact hf r s'

/-- What follows a submission loop returns if the attempts do, and it does for whatever the loop
returns. -/
theorem returns_submit {α β : Type} {n delay : ℕ} {context : String}
    {body : Relay (Except CardanoError α)} {f : Except String α → Relay β} {s : Outside × SwapDb}
    (hbody : ∀ s, ∃ r s', body.exec act s = (some r, s'))
    (hf : ∀ r s, ∃ b s', (f r).exec act s = (some b, s')) :
    ∃ b s', (submitContractTxWithRetry context n delay body >>= f).exec act s = (some b, s') := by
  have hloop : ∃ r s', (submitContractTxWithRetry context n delay body).exec act s = (some r, s') ∧
      Attempted (fun _ _ => True) (fun _ => True) r s' := by
    refine exec_submitContractTxWithRetry ?_ (fun s _ => ?_) trivial
    · exact fun _ _ _ => ⟨(), _, rfl, trivial⟩
    · obtain ⟨r, s', he⟩ := hbody s
      refine ⟨r, s', he, ?_⟩
      rcases r with e | a <;> trivial
  obtain ⟨r, s', he, -⟩ := hloop
  rw [Prog.exec_bind _ he]
  exact hf r s'

theorem returns_thenSubmit (about : About) (kind : TxKind) (r : Except CardanoError String)
    (s : Outside × SwapDb) : ∃ r' s', (thenSubmit about kind r).exec act s = (some r', s') := by
  rcases r with e | hex <;> exact ⟨_, _, rfl⟩

theorem returns_fulfillSwap (h : String) (s : Outside × SwapDb) :
    ∃ b s', (fulfillSwap h).exec act s = (some b, s') := by
  obtain ⟨x, d⟩ := s
  unfold fulfillSwap
  rw [exec_db]
  rcases (d.call (.getByPaymentHash h)).1 with _ | m
  · exact ⟨_, _, rfl⟩
  dsimp only
  rw [exec_db]
  split_ifs
  swap
  · exact ⟨_, _, rfl⟩
  rw [exec_now]
  split_ifs
  · exact ⟨_, _, rfl⟩
  refine returns_query fun r s => ?_
  rcases r with e | invoice
  · exact ⟨_, _, rfl⟩
  refine returns_submit (fun s => returns_thenSubmit _ _ _ _) fun r s => ?_
  rcases r with e | tx <;> exact ⟨_, _, rfl⟩

theorem returns_completeOfframp (h preimage : String) (s : Outside × SwapDb) :
    ∃ b s', (completeOfframp h preimage).exec act s = (some b, s') := by
  obtain ⟨x, d⟩ := s
  unfold completeOfframp
  rw [exec_db]
  rcases (d.call (.getOfframpByPaymentHash h)).1 with _ | m
  · exact ⟨_, _, rfl⟩
  dsimp only
  rw [exec_db]
  split_ifs
  swap
  · exact ⟨_, _, rfl⟩
  rw [exec_db]
  refine returns_query fun r s => ?_
  rcases r with e | offramp
  · exact ⟨_, _, rfl⟩
  refine returns_submit (fun s => returns_thenSubmit _ _ _ _) fun r s => ?_
  rcases r with e | tx <;> exact ⟨_, _, rfl⟩

end Outside

namespace Fulfilment

theorem returns (f : Fulfilment) (s : Outside × SwapDb) :
    ∃ s', f.program.exec Outside.act s = (some (), s') := by
  cases f with
  | swap h =>
    obtain ⟨_, s', he⟩ := Outside.returns_fulfillSwap h s
    exact ⟨s', he⟩
  | offramp id h preimage =>
    obtain ⟨_, s', he⟩ := Outside.returns_completeOfframp h preimage s
    exact ⟨s', he⟩

section

variable {f : Fulfilment} {o : Op} {r : o.Resp} {x x' : Outside} {d d' : SwapDb}

/-- An operation of a task leaves the other swaps as they are. -/
theorem getByPaymentHash_act (ho : f.Owns o) (hact : Outside.act o (x, d) = some (r, x', d'))
    {h : String} (hh : f.row ≠ .swap h) : d'.getByPaymentHash h = d.getByPaymentHash h := by
  by_cases hdb : ∃ c, o = .db c
  · obtain ⟨c, rfl⟩ := hdb
    obtain ⟨-, -, rfl⟩ := Outside.act_db hact
    rw [SwapDb.getByPaymentHash_call, onSwap_of_owns ho hh]
  · rw [(Outside.act_apart (fun c hc => hdb ⟨c, hc⟩) hact).1]

/-- An operation of a task leaves the other offramps as they are. -/
theorem getOfframpById_act (ho : f.Owns o) (hact : Outside.act o (x, d) = some (r, x', d'))
    {id : ℤ} (hid : f.row ≠ .offramp id) : d'.getOfframpById id = d.getOfframpById id := by
  by_cases hdb : ∃ c, o = .db c
  · obtain ⟨c, rfl⟩ := hdb
    obtain ⟨-, -, rfl⟩ := Outside.act_db hact
    rw [SwapDb.getOfframpById_call, onOfframp_of_owns ho hid]
  · rw [(Outside.act_apart (fun c hc => hdb ⟨c, hc⟩) hact).1]

end

/-- A task keeps to its own row while no other row has its payment hash. -/
theorem keeps_program {Inv : SwapDb → Prop} (f : Fulfilment) (hInv : ∀ d, Inv d → f.Unshared d) :
    Threads.Keeps Outside.act Inv f.Owns f.program := by
  cases f with
  | swap h =>
    refine Threads.keeps_of_only (only_fulfillSwap trivial (fun _ => trivial) rfl rfl trivial
      (fun _ _ => trivial) (fun _ _ => trivial) rfl fun _ => rfl)
  | offramp id h preimage =>
    intro x d r x' d' hd hact
    refine ⟨rfl, ?_⟩
    rcases r with _ | m
    · trivial
    -- the row that was found is the row of the task
    have hfound : d.getOfframpByPaymentHash h = some m := by
      simpa [Outside.act, SwapDb.call] using congrArg (Option.map Prod.fst) hact
    obtain ⟨hrow, hhash⟩ := SwapDb.getOfframpByPaymentHash_eq_some hfound
    have hid : m.offrampId = id := hInv d hd _ m hrow hhash
    refine Threads.keeps_of_only (only_perform hid ?_)
    rintro (_ | _)
    · trivial
    refine only_perform hid fun _ => (only_queryStateWithRetry (fun _ => trivial) trivial).bind ?_
    rintro (e | offramp)
    · exact only_last hid
    refine (only_submitContractTxWithRetry (fun _ => trivial) ?_).bind ?_
    · exact only_perform trivial fun r => only_thenSubmit r fun _ => trivial
    · rintro (e | txHash) <;> exact only_last hid

end Fulfilment

section

variable {n : ℕ} {tasks : Fin n → Fulfilment}

theorem fulfilments_apart (hkeys : Function.Injective fun i => (tasks i).row) :
    Threads.Independent Outside.act (fun d => ∀ i, (tasks i).Unshared d) fun i => (tasks i).Owns where
  keep {i o r x x' d d'} ho hd hact := by
    by_cases hdb : ∃ c, o = .db c
    · obtain ⟨c, rfl⟩ := hdb
      obtain ⟨-, -, rfl⟩ := Outside.act_db hact
      exact fun j => Fulfilment.unshared_call (Fulfilment.inserts_of_owns ho) (hd j)
    · rw [(Outside.act_apart (fun c hc => hdb ⟨c, hc⟩) hact).1]
      exact hd
  swap {i j o o' r r' x x₁ x' x₁' d d₁ d₂} hij ho ho' hd hact hact' := by
    by_cases hdb : ∃ c, o = .db c
    swap
    · -- the first operation has nothing to do with the database
      obtain ⟨rfl, hany⟩ := Outside.act_apart (fun c hc => hdb ⟨c, hc⟩) hact
      exact ⟨d₂, hact', hany d₂⟩
    by_cases hdb' : ∃ c, o' = .db c
    swap
    · obtain ⟨rfl, hany⟩ := Outside.act_apart (fun c hc => hdb' ⟨c, hc⟩) hact'
      exact ⟨d₁, hany d₁, hact⟩
    obtain ⟨c, rfl⟩ := hdb
    obtain ⟨c', rfl⟩ := hdb'
    obtain ⟨rfl, rfl, rfl⟩ := Outside.act_db hact
    obtain ⟨rfl, rfl, rfl⟩ := Outside.act_db hact'
    have hne : (tasks i).row ≠ (tasks j).row := fun heq => hij (hkeys heq)
    refine ⟨((d.call c).2.call c').2, ?_, ?_⟩
    · rw [← Fulfilment.resp_comm ho ho' hne (hd j)]
      rfl
    · rw [Fulfilment.call_comm ho ho' hne, ← Fulfilment.resp_comm ho' ho hne.symm (hd i)]
      rfl

variable (tasks) in
/-- The tasks before their first steps, each with what the outside has for it. -/
def fulfilments (outside : Fin n → Outside) (i : Fin n) : Thread Op Op.Resp Outside :=
  ⟨(tasks i).program, outside i⟩

/-- Tasks that fulfill swaps and complete offramps, each for a row of its own whose payment hash no
other row shares.  One after the other they return, and end in the same database in any order.  Every
interleaving ends there too: the tasks that are run on from wherever it has got end there, and so does
an interleaving in which all have ended.  The rows of no task are unchanged all along. -/
theorem fulfilments_independent (tasks : Fin n → Fulfilment) (outside : Fin n → Outside)
    (d : SwapDb) (hkeys : Function.Injective fun i => (tasks i).row)
    (hhashes : ∀ i, (tasks i).Unshared d) :
    ∃ d', (∀ order : List (Fin n), order.Perm (List.finRange n) →
        Threads.runAll Outside.act (fulfilments tasks outside) order d = some d') ∧
      ∀ y, Threads.Interleaved Outside.act (fulfilments tasks outside, d) y →
        (∀ order : List (Fin n), order.Perm (List.finRange n) →
          Threads.runAll Outside.act y.1 order y.2 = some d') ∧
        ((∀ i, (y.1 i).prog.ended = true) → y.2 = d') ∧
        (∀ h, (∀ i, (tasks i).row ≠ .swap h) → y.2.getByPaymentHash h = d.getByPaymentHash h) ∧
        ∀ id, (∀ i, (tasks i).row ≠ .offramp id) → y.2.getOfframpById id = d.getOfframpById id := by
  have hI := fulfilments_apart hkeys
  have hready : Threads.Ready Outside.act (fun d => ∀ i, (tasks i).Unshared d)
      (fun i => (tasks i).Owns) (fulfilments tasks outside, d) :=
    ⟨hhashes, fun i => (tasks i).keeps_program fun d hd => hd i⟩
  have hnd : ∀ order : List (Fin n), order.Perm (List.finRange n) → order.Nodup :=
    fun order hp => hp.nodup_iff.2 (List.nodup_finRange n)
  have hall : ∀ order : List (Fin n), order.Perm (List.finRange n) → ∀ i, i ∈ order :=
    fun order hp i => hp.mem_iff.2 (List.mem_finRange i)
  have hreturn : ∀ order, ∃ d', Threads.runAll Outside.act (fulfilments tasks outside) order d = some d' :=
    fun order => Threads.exists_runAll (fun i s => (tasks i).returns s) order d
  obtain ⟨d', hd'⟩ := hreturn (List.finRange n)
  -- one order is an interleaving, and so ends where every order ends
  have hseq : ∀ order : List (Fin n), order.Perm (List.finRange n) →
      Threads.runAll Outside.act (fulfilments tasks outside) order d = some d' := by
    intro order hp
    obtain ⟨d'', hd''⟩ := hreturn order
    obtain ⟨t, hint, hended⟩ := Threads.interleaved_runAll (List.nodup_finRange n) hd'
    have hrest := Threads.runAll_of_interleaved hI hready hint (hnd order hp) (hall order hp) hd''
    rw [Threads.runAll_of_ended fun i => hended i (Or.inl (List.mem_finRange i))] at hrest
    rw [hd'', ← hrest]
  refine ⟨d', hseq, fun y hy => ?_⟩
  have hrun : ∀ order : List (Fin n), order.Perm (List.finRange n) →
      Threads.runAll Outside.act y.1 order y.2 = some d' := fun order hp =>
    Threads.runAll_of_interleaved hI hready hy (hnd order hp) (hall order hp) (hseq order hp)
  refine ⟨hrun, fun hended => ?_, fun h hh => ?_, fun id hid => ?_⟩
  · have hrest := hrun _ (List.Perm.refl _)
    rw [Threads.runAll_of_ended hended] at hrest
    exact Option.some.inj hrest
  · refine hready.view (fun d => d.getByPaymentHash h) hI (fun {i o r x x' d d'} ho hact => ?_) hy
    exact Fulfilment.getByPaymentHash_act ho hact (hh i)
  · refine hready.view (fun d => d.getOfframpById id) hI (fun {i o r x x' d d'} ho hact => ?_) hy
    exact Fulfilment.getOfframpById_act ho hact (hid i)

end

/-- A paid swap and an offramp whose payment was sent. -/
def devnetPaid : SwapDb where
  swaps := ⟨[
    { paymentHash := Devnet.invoice2.paymentHash
      invoiceId := 1
      amountCbtc := 50
      cardanoAddress := Devnet.userAddress
      status := .pending
      createdAt := Devnet.startTime
      expiresAt := Devnet.startTime + 3600000
      cardanoTxHash := none
      createTxHash := some "h" }], List.nodup_singleton _⟩
  offramps := ⟨[
    { offrampId := 1
      bolt11 := Devnet.invoice1.text
      paymentHash := Devnet.invoice1.paymentHash
      amountCbtc := 50
      cbtcTxHash := Devnet.depositTx
      status := .payingLightning
      createdAt := Devnet.startTime
      lightningPreimage := none
      depositTxHash := none
      errorMessage := none
      cardanoOfframpTxHash := some "h"
      refundAddress := "b06fd732855606d1de25ea12b901c0bfe12eb0ee51c3db0cf66fcd0a"
      expiresAt := Devnet.startTime + 3600000 }], List.nodup_singleton _⟩

/-- The tasks that PaymentClaimed and PaymentSent start for them. -/
def devnetTasks : Fin 2 → Fulfilment
  | 0 => .swap Devnet.invoice2.paymentHash
  | 1 => .offramp 1 Devnet.invoice1.paymentHash "preimage"

/-- Both entries are on chain, and the operator answers well. -/
def devnetOutside (_ : Fin 2) : Outside where
  answers _ := Devnet.answers 1 "h"
    { Devnet.pool1 with
      invoices := [⟨1, 50, "pkh", Devnet.startTime, Devnet.startTime + 3600000⟩] }
  clock _ := Devnet.startTime

/-- The two tasks end in the same database in either order. -/
theorem fulfilments_independent_devnet :
    ∃ d', Threads.runAll Outside.act (fulfilments devnetTasks devnetOutside) [0, 1] devnetPaid = some d' ∧
      Threads.runAll Outside.act (fulfilments devnetTasks devnetOutside) [1, 0] devnetPaid = some d' := by
  have hkeys : ∀ i j, (devnetTasks i).row = (devnetTasks j).row → i = j := by decide
  have hhashes : ∀ i, (devnetTasks i).Unshared devnetPaid := by
    refine Fin.forall_fin_two.2 ⟨trivial, fun k m hm _ => ?_⟩
    have hid := SwapDb.offrampId_of_getOfframpById hm
    have hmem := Sql.Table.mem_of_get? hm
    simp only [devnetPaid, List.mem_singleton] at hmem
    rw [← hid, hmem]
  obtain ⟨d', hseq, -⟩ := fulfilments_independent devnetTasks devnetOutside devnetPaid
    (fun i j => hkeys i j) hhashes
  exact ⟨d', hseq [0, 1] (by decide), hseq [1, 0] (by decide)⟩

end LightningRelay
