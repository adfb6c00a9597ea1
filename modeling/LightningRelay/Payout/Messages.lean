import LightningRelay.Devnet
import Mathlib.Data.List.Infix

/-!
# The record of a refund

`handle_offramp_payment_failed` replaces the error message of a row by one with the hash of the refund,
and `cancel_offramp_on_chain` reads the message, appends the hash of its transaction and writes it back.
`race` is a handler and the monitor's cancellations of one row, with calls of the database by other
threads in between.

* `devnet_refund_record_lost`: the monitor reads the message, the handler writes the hash of the refund,
  and the monitor writes over it.
* `refund_record_kept`: where a message is appended to only as it was read and replaced only before a
  cancellation is recorded (`keepsMessage`), the row ends with both hashes.
-/

set_option autoImplicit false

namespace LightningRelay

open Async

/-! ## The race -/

/-- What happens beside the handler: the monitor comes to the row, or another thread calls the
database. -/
inductive Beside where
  | monitor
  | other (c : DbCall)

/-- A handler of the failed payment with hash `h`, the monitor's cancellations of the row `m`, and other
threads. -/
def race (h : String) (m : OfframpMapping) : Runtime Op Op.Resp World Call Answers Beside where
  body
    | .handleOfframpPaymentFailed h => handleOfframpPaymentFailed h
    | .monitorExpiredOfframps => cancelOfframpOnChain m
    | _ => pure ()
  boot := .handleOfframpPaymentFailed h
  perform tid call o a w := World.perform tid call o a w
  react
    | .monitor, w, _ =>
      if (w.offramp m.offrampId).isSome then some (w, .spawn .monitorExpiredOfframps) else none
    | .other c, w, _ => some ({ w with db := (w.db.call c).2 }, .keep)

/-- The hash of a refund of the offramp that was accepted. -/
def Entry.refunded? (id : ℤ) : Entry → Option String
  | ⟨_, _, .operator (.offramp k) (.submitTx ⟨.sendCbtc, _⟩), .ok tx⟩ =>
    if k = id then some tx else none
  | _ => none

/-- The hash of a CancelOfframp transaction of the offramp that was accepted. -/
def Entry.withdrawn? (id : ℤ) : Entry → Option String
  | ⟨_, _, .operator _ (.submitTx ⟨.cancelOfframp k, _⟩), .ok tx⟩ => if k = id then some tx else none
  | _ => none

/-- The row as it was read under its id. -/
def Entry.looked? : Entry → Option (Option OfframpMapping)
  | ⟨_, _, .db (.getOfframpById _), row⟩ => some row
  | _ => none

/-- The entry is a write of the offramp's error message. -/
def Entry.tells (id : ℤ) : Entry → Bool
  | ⟨_, _, .db (.updateOfframpStatus k _ _ _ _), _⟩ => k = id
  | _ => false

namespace World

/-- The error message of an offramp. -/
def message (w : World) (id : ℤ) : Option String := (w.offramp id).bind (·.errorMessage)

/-- The row as a task has last read it under its id. -/
def looked (w : World) (tid : ℕ) : Option (Option OfframpMapping) :=
  w.log.findSome? fun e => if e.tid = tid then e.looked? else none

end World

/-- The text contains `x`. -/
def mentions (msg x : String) : Bool := x.toList <:+: msg.toList

/-- The error message of the offramp contains `x`. -/
def World.mentions (w : World) (id : ℤ) (x : String) : Bool :=
  (w.message id).any fun msg => LightningRelay.mentions msg x

/-- The task has ended. -/
def ended (s : Sys) (tid : ℕ) : Bool := (s.tasks tid).any fun t => t.rest.ended

/-- A task that has read the row writes the message only while it is as it was read, a task that has not
writes it only while no other task has, and other threads leave it as it is. -/
def keepsMessage (id : ℤ) (s : Sys) : Action Answers Beside → Bool
  | .task tid _ =>
    match s.tasks tid with
    | some ⟨_, .op (.db (.updateOfframpStatus k _ _ _ _)) _⟩ =>
      k != id ||
        match s.world.looked tid with
        | some row => s.world.message id = row.bind (·.errorMessage)
        | none => s.world.log.all fun e => e.tid = tid || !e.tells id
    | _ => true
  | .env (.other c) =>
    ((s.world.db.call c).2.getOfframpById id).bind (·.errorMessage) = s.world.message id
  | .env .monitor => true

/-! ## Messages -/

theorem mentions_right (msg x : String) : mentions (msg ++ x) x = true := by
  simp [mentions, List.suffix_append _ _ |>.isInfix]

theorem mentions_append {msg x : String} (h : mentions msg x = true) (rest : String) :
    mentions (msg ++ rest) x = true := by
  simp only [mentions, decide_eq_true_eq, String.toList_append] at h ⊢
  exact h.trans (List.prefix_append _ _).isInfix

theorem mentions_of_empty {x : String} (h : mentions "" x = true) (msg : String) :
    mentions msg x = true := by
  simp only [mentions, decide_eq_true_eq] at h ⊢
  rw [List.infix_nil.1 h]
  exact List.nil_infix

namespace Race

/-- Where a task stands: what it has looked up, and which hash it has still to record. -/
inductive Stage where
  | lookup
  | found (id : ℤ) (refund : Option String)
  | cancelling (id : ℤ)
  | accepted (id : ℤ) (tx : String)
  | appending (id : ℤ) (tx : String) (row : Option OfframpMapping)
  | over

/-- The operations of the handler and of a cancellation, and where they lead. -/
inductive Move : Stage → (o : Op) → o.Resp → Stage → Prop where
  | find {h : String} {m : OfframpMapping} :
      Move .lookup (.db (.getOfframpByPaymentHash h)) (some m) (.found m.offrampId none)
  | missing {h : String} : Move .lookup (.db (.getOfframpByPaymentHash h)) none .over
  | build {id : ℤ} {address : String} {amount : ℤ} {r : Except CardanoError String} :
      Move (.found id none) (.operator (.offramp id) (.sendCbtc address amount)) r (.found id none)
  | refused {id : ℤ} {hex : String} {e : CardanoError} :
      Move (.found id none) (.operator (.offramp id) (.submitTx ⟨.sendCbtc, hex⟩)) (.error e)
        (.found id none)
  | refunded {id : ℤ} {hex tx : String} :
      Move (.found id none) (.operator (.offramp id) (.submitTx ⟨.sendCbtc, hex⟩)) (.ok tx)
        (.found id (some tx))
  | tell {id : ℤ} {refund : Option String} {msg : String} :
      (∀ tx, refund = some tx → mentions msg tx = true) →
      Move (.found id refund) (.db (.updateOfframpStatus id .failed none none (some msg))) ()
        (.cancelling id)
  | plan {id : ℤ} {r : Except CardanoError String} :
      Move (.cancelling id) (.operator (.offramp id) (.cancelOfframp id)) r (.cancelling id)
  | rejected {id : ℤ} {hex : String} {e : CardanoError} :
      Move (.cancelling id) (.operator (.offramp id) (.submitTx ⟨.cancelOfframp id, hex⟩)) (.error e)
        (.cancelling id)
  | accept {id : ℤ} {hex tx : String} :
      Move (.cancelling id) (.operator (.offramp id) (.submitTx ⟨.cancelOfframp id, hex⟩)) (.ok tx)
        (.accepted id tx)
  | look {id : ℤ} {tx : String} {row : Option OfframpMapping} :
      Move (.accepted id tx) (.db (.getOfframpById id)) row (.appending id tx row)
  | append {id : ℤ} {tx msg : String} {row : Option OfframpMapping} : mentions msg tx = true →
      (∀ old x, row.bind (·.errorMessage) = some old → mentions old x = true →
        mentions msg x = true) →
      Move (.appending id tx row) (.db (.updateOfframpStatus id .failed none none (some msg))) () .over

namespace Stage

/-- The task may end here. -/
def final : Stage → Bool
  | .cancelling _ | .over => true
  | _ => false

/-- The task has still to record the hash in the message of the offramp. -/
def Carries (id : ℤ) (x : String) : Stage → Prop
  | .found k refund => k = id ∧ refund = some x
  | .accepted k tx | .appending k tx _ => k = id ∧ tx = x
  | _ => False

/-- The row that the task works on. -/
def row? : Stage → Option ℤ
  | .found id _ | .cancelling id | .accepted id _ | .appending id _ _ => some id
  | _ => none

/-- The handler has not replaced the message yet. -/
def early : Stage → Bool
  | .lookup | .found _ _ => true
  | _ => false

/-- What the task has read of the row under its id. -/
def Looked : Stage → Option (Option OfframpMapping) → Prop
  | .appending _ _ row, x => x = some row
  | .over, _ => True
  | _, x => x = none

end Stage

theorem follows_cancelOfframpOnChain (m : OfframpMapping) :
    Follows Move (fun _ l => l.final = true) (cancelOfframpOnChain m) (.cancelling m.offrampId) := by
  refine follows_perform fun r => ⟨_, .plan, ?_⟩
  rcases r with e | signedTx
  · exact rfl
  refine follows_perform fun r => ?_
  rcases r with e | tx
  · exact ⟨_, .rejected, rfl⟩
  refine ⟨_, .accept, follows_perform fun row => ⟨_, .look, follows_last fun _ => ⟨_, .append ?_ ?_, rfl⟩⟩⟩
  · split_ifs
    · exact mentions_right _ tx
    · exact mentions_right _ tx
  · intro old x hold hx
    have hexisting : (row.bind (·.errorMessage)).getD "" = old := by
      rw [hold]
      rfl
    rw [hexisting]
    split_ifs with hempty
    · exact mentions_of_empty (hempty ▸ hx) _
    · exact mentions_append (mentions_append hx "; cancelled on-chain: ") tx

theorem follows_refundOfframp (m : OfframpMapping) :
    Follows Move (fun msg l => ∃ refund, l = .found m.offrampId refund ∧
      ∀ tx, refund = some tx → mentions msg tx = true) (refundOfframp m) (.found m.offrampId none) := by
  refine follows_perform fun r => ⟨_, .build, ?_⟩
  rcases r with e | signedTx
  · exact ⟨none, rfl, nofun⟩
  refine follows_perform fun r => ?_
  rcases r with e | tx
  · exact ⟨_, .refused, none, rfl, nofun⟩
  · refine ⟨_, .refunded, some tx, rfl, ?_⟩
    rintro _ ⟨⟩
    exact mentions_right "Lightning payment failed, cBTC refunded: " tx

theorem follows_handleOfframpPaymentFailed (h : String) :
    Follows Move (fun _ l => l.final = true) (handleOfframpPaymentFailed h) .lookup := by
  refine follows_perform fun r => ?_
  rcases r with _ | m
  · exact ⟨_, .missing, rfl⟩
  refine ⟨_, .find, ?_⟩
  have htell : ∀ msg l, (∃ refund, l = .found m.offrampId refund ∧
      ∀ tx, refund = some tx → mentions msg tx = true) →
      Follows Move (fun _ l => l.final = true) (do
        db (.updateOfframpStatus m.offrampId .failed none none (some msg))
        cancelOfframpOnChain m) l := by
    rintro msg _ ⟨refund, rfl, hmsg⟩
    exact follows_perform fun _ => ⟨_, .tell hmsg, follows_cancelOfframpOnChain m⟩
  dsimp only
  split_ifs
  · exact (follows_refundOfframp m).bind htell
  · exact htell _ _ ⟨none, rfl, nofun⟩

/-! ## What a task knows -/

/-- What holds of a task: the row that it works on is there, what it has read is in the log, and every
hash that it was given for the offramp is recorded or still to be recorded. -/
structure Knows (id : ℤ) (w : World) (tid : ℕ) (l : Stage) : Prop where
  row : ∀ k, l.row? = some k → (w.offramp k).isSome = true
  looked : l.Looked (w.looked tid)
  early : l.early = true → ∀ e ∈ w.log, e.tid = tid → e.tells id = false
  recorded : ∀ e ∈ w.log, e.tid = tid → ∀ x, e.refunded? id = some x ∨ e.withdrawn? id = some x →
    l.Carries id x ∨ (∃ e' ∈ w.log, e'.tid = tid ∧ e'.tells id = true) ∧ w.mentions id x = true

/-- The protocol and what the tasks know. -/
def discipline (id : ℤ) : Discipline Op Op.Resp World Call Stage where
  start
    | .handleOfframpPaymentFailed _ => .lookup
    | .monitorExpiredOfframps => .cancelling id
    | _ => .over
  Move _ := Move
  Final _ l := l.final = true
  Shared _ := True
  Owned w tid _ l := Knows id w tid l
  Apart _ _ _ _ := True

section

variable {id : ℤ} {tid : ℕ} {c : Call} {l l' : Stage} {o : Op} {r : o.Resp} {w w' : World}
  {sp : Option Call} {h : String} {m : OfframpMapping}

/-- A row that is there stays. -/
theorem isSome_mono (he : Effect tid c o r w w' sp) {k : ℤ} (hk : (w.offramp k).isSome = true) :
    (w'.offramp k).isSome = true := by
  obtain ⟨x, hx⟩ := Option.isSome_iff_exists.1 hk
  obtain ⟨y, hy, -⟩ := he.offramp_cases hx
  rw [hy]
  rfl

/-- Only the writes of the protocol change the message. -/
theorem message_of_move (he : Effect tid c o r w w' sp) (hm : Move l o r l') (id : ℤ) :
    w'.message id = w.message id ∨ l.row? = some id ∧
      ∃ msg, o = .db (.updateOfframpStatus id .failed none none (some msg)) := by
  have hrow := he.offramp id
  have hsame : w'.offramp id = w.offramp id → w'.message id = w.message id := fun hsame =>
    congrArg (Option.bind · _) hsame
  cases hm with
  | @tell k _ msg | @append k _ msg =>
    by_cases hk : id = k
    · subst hk
      exact Or.inr ⟨rfl, msg, rfl⟩
    · exact Or.inl (hsame (by rw [hrow]; exact if_neg hk))
  | _ => exact Or.inl (hsame hrow)

/-- The message after a write. -/
theorem message_of_write (he : Effect tid c o r w w' sp) {msg : String}
    (ho : o = .db (.updateOfframpStatus id .failed none none (some msg)))
    (hrow : (w.offramp id).isSome = true) : w'.message id = some msg := by
  subst ho
  obtain ⟨x, hx⟩ := Option.isSome_iff_exists.1 hrow
  have heff := he.offramp id
  rw [hx] at heff
  simp only [Op.onOfframp, DbCall.onOfframp, if_true, Option.map_some] at heff
  rw [World.message, heff]
  rfl

theorem looked_eq (he : Effect tid c o r w w' sp) (tid' : ℕ) :
    w'.looked tid' =
      if tid = tid' then (⟨tid, c, o, r⟩ : Entry).looked?.or (w.looked tid') else w.looked tid' := by
  simp only [World.looked, he.log, List.findSome?_cons]
  split_ifs
  · cases (⟨tid, c, o, r⟩ : Entry).looked? <;> rfl
  · rfl

/-- What the condition says of a write. -/
theorem ok_of_write {s : Sys} {a : Answers} {msg : String}
    {k : Unit → Relay Unit} (hok : keepsMessage id s (.task tid a) = true)
    (ht : s.tasks tid =
      some ⟨c, .op (.db (.updateOfframpStatus id .failed none none (some msg))) k⟩) :
    (∀ row, s.world.looked tid = some row → s.world.message id = row.bind (·.errorMessage)) ∧
      (s.world.looked tid = none → ∀ e ∈ s.world.log, e.tells id = true → e.tid = tid) := by
  simp only [keepsMessage, ht, bne_self_eq_false, Bool.false_or] at hok
  constructor
  · intro row hrow
    rw [hrow] at hok
    exact of_decide_eq_true hok
  · intro hnone e he htells
    rw [hnone] at hok
    have hall := List.all_eq_true.1 hok e he
    simpa [htells] using hall

/-- A hash that its task has recorded stays in the message. -/
theorem mentions_mono {s : Sys} {a : Answers} (he : Effect tid c o r s.world w' sp)
    (hm : Move l o r l') (hK : Knows id s.world tid l) (htask : ∃ k, s.tasks tid = some ⟨c, .op o k⟩)
    (hok : keepsMessage id s (.task tid a) = true) {e : Entry} (hmem : e ∈ s.world.log)
    (htells : e.tells id = true) {x : String} (hx : s.world.mentions id x = true) :
    w'.mentions id x = true := by
  rcases message_of_move he hm id with hsame | ⟨hrow, msg, ho⟩
  · rwa [World.mentions, hsame]
  obtain ⟨k, ht⟩ := htask
  have hmsg := message_of_write he ho (hK.row id hrow)
  subst ho
  obtain ⟨hread, hunread⟩ := ok_of_write hok ht
  have hlooked := hK.looked
  cases hm with
  | tell =>
    -- nothing has been recorded when the handler replaces the message
    have htid := hunread hlooked e hmem htells
    have hearly := hK.early rfl e hmem htid
    rw [htells] at hearly
    cases hearly
  | append hnew hold =>
    obtain ⟨old, hmess, hx⟩ := (Option.any_eq_true _ _).1 hx
    rw [hread _ hlooked] at hmess
    rw [World.mentions, hmsg]
    exact hold old x hmess hx

/-- A hash that an operation gives is carried on. -/
theorem carries_of_given {c : Call} {x : String} (hm : Move l o r l')
    (hx : (⟨tid, c, o, r⟩ : Entry).refunded? id = some x ∨
      (⟨tid, c, o, r⟩ : Entry).withdrawn? id = some x) : l'.Carries id x := by
  cases hm with
  | @refunded k hex tx =>
    simp only [Entry.refunded?, Entry.withdrawn?, reduceCtorEq, or_false] at hx
    split_ifs at hx with hk
    exact ⟨hk, hx⟩
  | @accept k hex tx =>
    simp only [Entry.refunded?, Entry.withdrawn?, reduceCtorEq, false_or] at hx
    split_ifs at hx with hk
    exact ⟨hk, Option.some.inj hx⟩
  | _ => rcases hx with hx | hx <;> cases hx

/-- A hash that a task carries is still carried after its next operation, or is in the message. -/
theorem carried_move {x : String} (he : Effect tid c o r w w' sp) (hm : Move l o r l')
    (hK : Knows id w tid l) (hc : l.Carries id x) : l'.Carries id x ∨
      (∃ e ∈ w'.log, e.tid = tid ∧ e.tells id = true) ∧ w'.mentions id x = true := by
  have hlast : ⟨tid, c, o, r⟩ ∈ w'.log := he.log ▸ List.mem_cons_self
  have hwrite : ∀ msg x, l.row? = some id →
      o = .db (.updateOfframpStatus id .failed none none (some msg)) → mentions msg x = true →
      w'.mentions id x = true := by
    intro msg x hrow ho hx
    rw [World.mentions, message_of_write he ho (hK.row id hrow)]
    exact hx
  cases hm with
  | @tell k refund msg hmsg =>
    obtain ⟨rfl, rfl⟩ := hc
    exact Or.inr ⟨⟨_, hlast, rfl, decide_eq_true rfl⟩, hwrite msg x rfl rfl (hmsg x rfl)⟩
  | @append k tx msg row hnew hold =>
    obtain ⟨rfl, rfl⟩ := hc
    exact Or.inr ⟨⟨_, hlast, rfl, decide_eq_true rfl⟩, hwrite msg _ rfl rfl hnew⟩
  | look => exact Or.inl hc
  | build | refused | refunded => cases hc.2
  | _ => exact hc.elim

theorem knows_move {s : Sys} {a : Answers} (he : Effect tid c o r s.world w' sp)
    (hm : Move l o r l') (hK : Knows id s.world tid l) (htask : ∃ k, s.tasks tid = some ⟨c, .op o k⟩)
    (hok : keepsMessage id s (.task tid a) = true) : Knows id w' tid l' := by
  refine ⟨?_, ?_, ?_, ?_⟩
  · intro k hk
    cases hm with
    | @find h m =>
      have hfound : s.world.db.getOfframpByPaymentHash h = some m := he.answered.symm
      obtain rfl := Option.some.inj hk
      refine isSome_mono he ?_
      rw [World.offramp, (SwapDb.getOfframpByPaymentHash_eq_some hfound).1]
      rfl
    | missing | append => cases hk
    | _ => exact isSome_mono he (hK.row k hk)
  · have hlooked := hK.looked
    rw [looked_eq he, if_pos rfl]
    cases hm with
    | missing | append => trivial
    | look => rfl
    | _ => exact hlooked
  · intro hearly e hmem htid
    rw [he.log] at hmem
    rcases List.mem_cons.1 hmem with rfl | hmem
    · cases hm with
      | tell | append => cases hearly
      | _ => rfl
    · refine hK.early ?_ e hmem htid
      cases hm with
      | find | build | refused | refunded => rfl
      | _ => cases hearly
  · intro e hmem htid x hx
    rw [he.log] at hmem
    rcases List.mem_cons.1 hmem with rfl | hmem
    · exact Or.inl (carries_of_given hm hx)
    · rcases hK.recorded e hmem htid x hx with hc | ⟨⟨e', hmem', htid', htells⟩, hment⟩
      · exact carried_move he hm hK hc
      · refine Or.inr ⟨⟨e', ?_, htid', htells⟩, mentions_mono he hm hK htask hok hmem' htells hment⟩
        rw [he.log]
        exact List.mem_cons_of_mem _ hmem'

theorem knows_others {s : Sys} {a : Answers} (he : Effect tid c o r s.world w' sp)
    (hm : Move l o r l') (hK : Knows id s.world tid l) (htask : ∃ k, s.tasks tid = some ⟨c, .op o k⟩)
    (hok : keepsMessage id s (.task tid a) = true) {i : ℕ} (hi : i ≠ tid) {n : Stage}
    (hN : Knows id s.world i n) : Knows id w' i n := by
  have hold : ∀ e ∈ w'.log, e.tid = i → e ∈ s.world.log := by
    intro e hmem htid
    rw [he.log] at hmem
    rcases List.mem_cons.1 hmem with rfl | hmem
    · exact absurd htid.symm hi
    · exact hmem
  refine ⟨fun k hk => isSome_mono he (hN.row k hk), ?_, ?_, ?_⟩
  · rw [looked_eq he, if_neg hi.symm]
    exact hN.looked
  · exact fun hearly e hmem htid => hN.early hearly e (hold e hmem htid) htid
  · intro e hmem htid x hx
    refine (hN.recorded e (hold e hmem htid) htid x hx).imp_right ?_
    rintro ⟨⟨e', hmem', htid', htells⟩, hment⟩
    refine ⟨⟨e', ?_, htid', htells⟩, mentions_mono he hm hK htask hok hmem' htells hment⟩
    rw [he.log]
    exact List.mem_cons_of_mem _ hmem'

/-- What a task knows depends on the log, the rows that are there and the message. -/
theorem Knows.congr (hK : Knows id w tid l) (hlog : w'.log = w.log)
    (hrows : ∀ k, (w.offramp k).isSome = true → (w'.offramp k).isSome = true)
    (hmess : w'.message id = w.message id) : Knows id w' tid l where
  row k hk := hrows k (hK.row k hk)
  looked := by
    rw [World.looked, hlog]
    exact hK.looked
  early := hlog ▸ hK.early
  recorded := by
    simp only [hlog, World.mentions, hmess]
    exact hK.recorded

/-- A task that has done nothing. -/
theorem knows_start (hnew : ∀ e ∈ w.log, e.tid ≠ tid) (hlooked : l.Looked none)
    (hrow : ∀ k, l.row? = some k → (w.offramp k).isSome = true) : Knows id w tid l where
  row := hrow
  looked := by
    have hnone : w.looked tid = none :=
      List.findSome?_eq_none_iff.2 fun e he => if_neg (hnew e he)
    rw [hnone]
    exact hlooked
  early _ e he htid := absurd htid (hnew e he)
  recorded e he htid := absurd htid (hnew e he)

end

section

variable {h : String} {m : OfframpMapping} {w : World} {s : Sys}

/-- What may happen beside the tasks. -/
theorem react_cases {e : Beside} {w w' : World} {tasks : ℕ → Option (Task Op Op.Resp Call)}
    {ch : Change Call} (hr : (race h m).react e w tasks = some (w', ch)) :
    (e = .monitor ∧ w' = w ∧ ch = .spawn .monitorExpiredOfframps ∧
      (w.offramp m.offrampId).isSome = true) ∨
    ∃ c, e = .other c ∧ w' = { w with db := (w.db.call c).2 } ∧ ch = .keep := by
  cases e with
  | monitor =>
    simp only [race] at hr
    split_ifs at hr with hrow
    obtain ⟨rfl, rfl⟩ := Prod.mk.inj (Option.some.inj hr)
    exact Or.inl ⟨rfl, rfl, rfl, hrow⟩
  | other c =>
    obtain ⟨rfl, rfl⟩ := Prod.mk.inj (Option.some.inj hr)
    exact Or.inr ⟨c, rfl, rfl, rfl⟩

theorem tid_ne_next {ok : Sys → Action Answers Beside → Prop} (hw : w.log = [])
    (hs : (race h m).Reach ok w s) : ∀ e ∈ s.world.log, e.tid ≠ s.next := by
  intro e he
  refine Nat.ne_of_lt ?_
  refine hs.lt_next World.Logged ?_ logged_of_perform logged_of_abort ?_ ⟨e, he, rfl⟩
  · rintro tid ⟨e, he, -⟩
    rw [hw] at he
    exact List.not_mem_nil he
  · intro e w tasks w' ch i hr hlogged
    rcases react_cases hr with ⟨-, rfl, -, -⟩ | ⟨c, -, rfl, -⟩ <;> exact hlogged

/-- The calls of other threads take no row away. -/
theorem isSome_call (w : World) (c : DbCall) (k : ℤ) (hk : (w.offramp k).isSome = true) :
    (World.offramp { w with db := (w.db.call c).2 } k).isSome = true := by
  have heff : Effect 0 .cancelExpired (.db c) (w.db.call c).1 w _ none :=
    effect_of_perform (a := Devnet.ok) rfl
  exact isSome_mono heff hk

theorem sound (hw : w.log = []) :
    (discipline m.offrampId).Sound (race h m) (fun s a => keepsMessage m.offrampId s a = true) w where
  symm _ := trivial
  init := ⟨trivial, knows_start (by simp [hw]) rfl nofun⟩
  body c := by
    cases c with
    | handleOfframpPaymentFailed h => exact follows_handleOfframpPaymentFailed h
    | monitorExpiredOfframps => exact follows_cancelOfframpOnChain m
    | _ => exact rfl
  move turn hp hm := ⟨trivial, knows_move (effect_of_perform hp) hm turn.owned turn.task turn.ok⟩
  others turn hp hm hne _ _ howned _ :=
    ⟨knows_others (effect_of_perform hp) hm turn.owned turn.task turn.ok hne howned, trivial⟩
  spawned turn hp hm := by
    have hsp := (effect_of_perform hp).spawned
    cases hm <;> cases hsp
  abort turn hp := by
    obtain rfl := abort_of_perform hp
    exact ⟨trivial, knows_start (tid_ne_next hw turn.reach) rfl nofun⟩
  react _ _ := trivial
  reactOthers next hr hch _ _ howned := by
    rcases react_cases hr with ⟨-, rfl, -, -⟩ | ⟨c, rfl, rfl, -⟩
    · exact howned
    · exact howned.congr rfl (fun k hk => isSome_call _ c k hk) (of_decide_eq_true next.ok)
  reactSpawn {s e w' c} next hr := by
    rcases react_cases hr with ⟨-, rfl, hc, hrow⟩ | ⟨-, -, -, hc⟩
    · obtain rfl := Change.spawn.inj hc
      refine ⟨knows_start (tid_ne_next hw next.reach) rfl ?_, fun _ _ _ => trivial⟩
      rintro _ ⟨⟩
      exact hrow
    · cases hc
  reactRestart next hr := by
    rcases react_cases hr with ⟨-, -, hc, -⟩ | ⟨-, -, -, hc⟩ <;> cases hc

/-- A hash that a task was given is in the message when the task has ended. -/
theorem mentions_of_ended (hw : w.log = [])
    (hs : (race h m).Reach (fun s a => keepsMessage m.offrampId s a = true) w s) {e : Entry}
    (he : e ∈ s.world.log) (hend : ended s e.tid = true) {x : String}
    (hx : e.refunded? m.offrampId = some x ∨ e.withdrawn? m.offrampId = some x) :
    s.world.mentions m.offrampId x = true := by
  obtain ⟨L, hL⟩ := (sound hw).holds hs
  obtain ⟨⟨c, p⟩, ht, hp⟩ := (Option.any_eq_true _ _).1 hend
  rcases (hL.owned ht).recorded e he rfl x hx with hc | ⟨-, hment⟩
  · have hfinal : (L e.tid).final = true := by
      cases p with
      | pure => exact hL.keeps ht
      | op => cases hp
    rcases hl : L e.tid with _ | _ | _ | _ | _ | _ <;> rw [hl] at hc hfinal <;>
      first | exact hc.elim | cases hfinal
  · exact hment

end

end Race

/-- In every interleaving of a handler with cancellations of the monitor and with calls of other threads,
all steps of which meet `keepsMessage`: when a refund of the offramp was accepted with the hash `r` and a
CancelOfframp transaction with the hash `c`, and their tasks have ended, the error message of the row
contains both. -/
theorem refund_record_kept {h : String} {m : OfframpMapping} {w : World} {s : Sys} (hw : w.log = [])
    (hs : (race h m).Reach (fun s a => keepsMessage m.offrampId s a = true) w s) {e e' : Entry}
    (he : e ∈ s.world.log) (he' : e' ∈ s.world.log) {r c : String}
    (hr : e.refunded? m.offrampId = some r) (hc : e'.withdrawn? m.offrampId = some c)
    (hend : ended s e.tid = true) (hend' : ended s e'.tid = true) :
    s.world.mentions m.offrampId r = true ∧ s.world.mentions m.offrampId c = true :=
  ⟨Race.mentions_of_ended hw hs he hend (Or.inl hr), Race.mentions_of_ended hw hs he' hend' (Or.inr hc)⟩

/-! ## On the devnet -/

/-- An offramp whose payment failed and whose first refund was not accepted. -/
def devnetUnrefunded : OfframpMapping where
  offrampId := 1
  bolt11 := Devnet.shortInvoice.text
  paymentHash := Devnet.shortInvoice.paymentHash
  amountCbtc := 50
  cbtcTxHash := "db9a16aa"
  status := .failed
  createdAt := Devnet.startTime
  lightningPreimage := none
  depositTxHash := none
  errorMessage := some "Lightning payment failed, refund submit failed: timeout"
  cardanoOfframpTxHash := some "h"
  refundAddress := "b06fd732"
  expiresAt := Devnet.startTime + 3600000

/-- The world after it has expired. -/
def devnetExpired : World :=
  { Devnet.fresh with
    db.offramps := ⟨[devnetUnrefunded], List.nodup_singleton _⟩
    clock := Devnet.startTime + 3600001 }

/-- The state after a sequence of steps in which LDK has reported the failure again. -/
def devnetRace (ok : Sys → Action Answers Beside → Bool) (as : List (Action Answers Beside)) :
    Option Sys :=
  (race Devnet.shortInvoice.paymentHash devnetUnrefunded).run ok
    ((race Devnet.shortInvoice.paymentHash devnetUnrefunded).initial devnetExpired) as

/-- The next `n` operations of a task; submissions return `tx`. -/
def devnetTurns (tid n : ℕ) (tx : String) : List (Action Answers Beside) :=
  List.replicate n (.task tid (Devnet.answers 1 tx Devnet.pool1))

/-- Both transactions were accepted and both tasks have ended. -/
def devnetOver (s : Sys) : Bool :=
  s.world.log.any (fun e => e.refunded? 1 = some "f00d" && ended s e.tid) &&
    s.world.log.any fun e => e.withdrawn? 1 = some "beef" && ended s e.tid

set_option maxRecDepth 100000 in
theorem refund_record_kept_devnet :
    ∃ s, (race Devnet.shortInvoice.paymentHash devnetUnrefunded).Reach
        (fun s a => keepsMessage 1 s a = true) devnetExpired s ∧ devnetOver s = true ∧
      s.world.mentions 1 "f00d" = true ∧ s.world.mentions 1 "beef" = true := by
  have hrun : (devnetRace (keepsMessage 1) (devnetTurns 0 4 "f00d" ++ .env .monitor ::
      devnetTurns 1 4 "beef" ++ [.task 0 Devnet.unreachable])).any devnetOver = true := by
    decide +kernel
  obtain ⟨s, hs, hp⟩ := Runtime.exists_reach_of_run hrun
  refine ⟨s, hs, hp, ?_⟩
  simp only [devnetOver, Bool.and_eq_true, List.any_eq_true, decide_eq_true_eq] at hp
  obtain ⟨⟨e, he, hr, hend⟩, e', he', hc, hend'⟩ := hp
  exact refund_record_kept (m := devnetUnrefunded) rfl hs he he' hr hc hend hend'

set_option maxRecDepth 100000 in
/-- LDK reports the failure again while the monitor cancels the expired row. The monitor reads the
message, the handler writes the hash of the refund, and the monitor writes over it. -/
theorem devnet_refund_record_lost :
    devnetUnrefunded ∈ devnetExpired.db.getExpiredOfframps devnetExpired.clock ∧
    ∃ s, (race Devnet.shortInvoice.paymentHash devnetUnrefunded).Reach (fun _ _ => True) devnetExpired s ∧
      devnetOver s = true ∧ s.world.mentions 1 "f00d" = false := by
  have hrun : (devnetRace (fun _ _ => true) (.env .monitor :: devnetTurns 1 3 "beef" ++
      devnetTurns 0 4 "f00d" ++ .task 0 Devnet.unreachable :: devnetTurns 1 1 "beef")).any
      (fun s => devnetOver s && !s.world.mentions 1 "f00d") = true := by
    decide +kernel
  obtain ⟨s, hs, hp⟩ := Runtime.exists_reach_of_run hrun
  rw [Bool.and_eq_true, Bool.not_eq_true'] at hp
  exact ⟨by decide +kernel, s, hs.mono fun _ _ _ => trivial, hp⟩

end LightningRelay
