import LightningRelay.Outbound.Success

/-!
# No payment without an entry in the file

`send_payment` waits until the outbound store is in its file before it hands the payment to LDK, while
other tasks write the same file with what they have encoded before or after it.  In every run, with the
process going down at any point, every payment that LDK was handed by `send_payment` has an entry in the
file (`payment_on_file`), so a restart finds it.  All writers here encode the store under the lock under
which they change it; the CLI's payments of offers and names do not, and are left out.

What carries it is that the versions of the store only gain entries: of two encodings the later one has
all the entries of the earlier one (`Chain`).
-/

set_option autoImplicit false

namespace LightningRelay

open Async

namespace Outbound

/-! ## Filing the entry before the payment -/

/-- Where a task stands with a payment it sends: the store with its entry is encoded, or is in the
file. -/
inductive Filing where
  | idle
  | encoded (id : String)
  | filed (id : String)

/-- What a task may do with outbound payments and the file. -/
inductive FileMove : Filing → (o : Op) → o.Resp → Filing → Prop where
  | beside {o : Op} {r : o.Resp} : (∀ id info, o ≠ .store (.insertOutbound id info)) →
      (∀ invoice amt, o ≠ .ldk (.payForBolt11Invoice invoice amt)) → FileMove .idle o r .idle
  | insert {id : String} {info : PaymentInfo} :
      FileMove .idle (.store (.insertOutbound id info)) () (.encoded id)
  | write {id : String} {u : Unit} : FileMove (.encoded id) (.persist outboundPaymentsFname) u (.filed id)
  | pay {invoice : Bolt11Invoice} {amt : Option ℕ} {r : Except String Unit} :
      FileMove (.filed invoice.paymentHash) (.ldk (.payForBolt11Invoice invoice amt)) r .idle

theorem beside_quiet (o : Op) (r : o.Resp) (ho : quiet o = true) : FileMove .idle o r .idle := by
  refine .beside ?_ ?_
  · rintro id info rfl
    cases ho
  · rintro invoice amt rfl
    cases ho

theorem files_sendPayment (invoice : Bolt11Invoice) (amt : Option ℕ) :
    Follows FileMove (fun _ l => l = .idle) (sendPayment invoice amt) .idle := by
  refine follows_stay (fun _ => beside_quiet _ _ rfl) fun _ => ?_
  rcases paymentAmount invoice.amountMilliSatoshis amt with e | amtMsat
  · exact rfl
  refine follows_perform fun _ => ⟨_, .insert, follows_perform fun _ => ⟨_, .write, ?_⟩⟩
  refine follows_perform ?_
  rintro (e | _)
  · refine ⟨_, .pay, follows_perform ?_⟩
    rintro (_ | _)
    · exact ⟨_, .beside nofun nofun, nofun⟩
    · exact ⟨_, .beside nofun nofun, follows_stay (fun _ => beside_quiet _ _ rfl) fun _ => rfl⟩
  · exact ⟨_, .pay, rfl⟩

theorem files_handleLdkEvents (cfg : Config) (event : LdkEvent) :
    Follows FileMove (fun _ l => l = .idle) (handleLdkEvents event) .idle := by
  refine Prog.Only.follows (Footprint.body_performs cfg (.handleLdkEvents event)) fun o r ho =>
    .beside ?_ ?_
  · rintro id info rfl
    cases event <;> cases ho
  · rintro invoice amt rfl
    cases event <;> cases ho

theorem files_body (cfg : Config) (c : Call) :
    Follows FileMove (fun _ l => l = .idle) (body cfg c) .idle := by
  by_cases hevent : ∃ event, c = .handleLdkEvents event
  · obtain ⟨event, rfl⟩ := hevent
    exact files_handleLdkEvents cfg event
  · exact sends_body beside_quiet files_sendPayment fun event heq => hevent ⟨event, heq⟩

/-- One store has an entry wherever the other has. -/
def Within (a b : PaymentStore) : Prop := ∀ id, (a id).isSome = true → (b id).isSome = true

theorem Within.refl (a : PaymentStore) : Within a a := fun _ h => h

theorem Within.trans {a b c : PaymentStore} (h : Within a b) (h' : Within b c) : Within a c :=
  fun id ha => h' id (h id ha)

/-- No operation removes an entry. -/
theorem within_onOutbound (o : Op) (st : PaymentStore) : Within st (o.onOutbound st) := by
  intro id hid
  cases o with
  | store call =>
    cases call with
    | insertOutbound k info | succeedOutbound k preimage | failOutbound k =>
      by_cases hk : id = k
      · subst hk
        simp [hid]
      · rw [Op.onOutbound, Function.update_of_ne hk]
        exact hid
    | _ => exact hid
  | _ => exact hid

theorem isSome_reconcile (recent : List String) (st : PaymentStore) (id : String) :
    (Durable.reconcile recent st id).isSome = (st id).isSome := Option.isSome_map

/-- The store only gains entries: each of its versions has the entries of the earlier ones. -/
structure Chain (x : Durable) : Prop where
  le : ∀ y, x.Held y → y.1 ≤ x.version
  memory : ∀ y, x.Held y → Within y.2 x.world.outbound
  mono : ∀ y y', x.Held y → x.Held y' → y.1 ≤ y'.1 → Within y.2 y'.2

section

variable {tid : ℕ} {c : Call} {o : Op} {r : o.Resp} {x x' : Durable} {sp : Option Call}

theorem Chain.move (h : Chain x) (he : Durable.Effect tid c o r x x' sp) : Chain x' := by
  have hgrow : Within x.world.outbound x'.world.outbound := by
    rw [he.outbound]
    exact within_onOutbound o _
  refine ⟨fun y hy => ?_, fun y hy => ?_, fun y y' hy hy' hle => ?_⟩
  · rcases Durable.held_after he hy with hy | ⟨rfl, hv⟩
    · exact Nat.le_trans (h.le y hy) (Durable.version_le he)
    · exact Nat.le_of_eq hv.symm
  · rcases Durable.held_after he hy with hy | ⟨rfl, -⟩
    · exact (h.memory y hy).trans hgrow
    · exact .refl _
  · rcases Durable.held_after he hy with hy | ⟨rfl, -⟩
    · rcases Durable.held_after he hy' with hy' | ⟨rfl, -⟩
      · exact h.mono y y' hy hy' hle
      · exact (h.memory y hy).trans hgrow
    · rcases Durable.held_after he hy' with hy' | ⟨rfl, -⟩
      · -- the new version is later than all others
        have hlast := h.le y' hy'
        exact absurd hle (by simp only; omega)
      · exact .refl _

theorem Chain.restarted (x : Durable) : Chain x.restarted := by
  refine ⟨fun y hy => ?_, fun y hy => ?_, fun y y' hy hy' _ => ?_⟩
  · rw [Durable.held_restarted hy]
    exact Nat.le_refl _
  · rw [Durable.held_restarted hy]
    exact .refl _
  · rw [Durable.held_restarted hy, Durable.held_restarted hy']
    exact .refl _

/-- A write leaves the file with the entries it had and with those that were encoded. -/
theorem within_written (h : Chain x) (tid : ℕ) {y : ℕ × PaymentStore}
    (hy : y = x.file ∨ x.encoded tid = some y) :
    Within y.2 (Durable.written x.file (x.encoded tid)).2 := by
  exact h.mono y _ (hy.imp_right fun h => ⟨tid, h⟩) (Durable.held_written x tid)
    (Durable.le_written x tid hy)

theorem within_file (h : Chain x) (he : Durable.Effect tid c o r x x' sp) :
    Within x.file.2 x'.file.2 := by
  rw [he.after]
  simp only [Durable.after]
  split_ifs
  · exact within_written h tid (Or.inl rfl)
  · exact .refl _

/-- A payment of LDK's is one it had, or the one it has just been handed. -/
theorem attempt_cases {attempts : List Attempt} {a : Attempt} (h : a ∈ o.onAttempts c attempts r) :
    a ∈ attempts ∨ ∃ invoice amt, o = .ldk (.payForBolt11Invoice invoice amt) ∧
      a.paymentHash = invoice.paymentHash ∧ ∀ recent, a.paymentHash ∈ o.onRecent recent r := by
  cases o with
  | ldk call =>
    cases call with
    | payForBolt11Invoice invoice amt =>
      rcases r with e | u
      · exact Or.inl h
      · rcases List.mem_append.1 h with h | h
        · exact Or.inl h
        · obtain rfl := List.mem_singleton.1 h
          exact Or.inr ⟨invoice, amt, rfl, rfl, fun _ => List.mem_cons_self⟩
    | _ => exact Or.inl h
  | _ => exact Or.inl h

theorem mem_onRecent {recent : List String} {id : String} (h : id ∈ recent) :
    id ∈ o.onRecent recent r := by
  cases o with
  | ldk call =>
    cases call with
    | payForBolt11Invoice invoice amt =>
      rcases r with e | u
      · exact h
      · exact List.mem_cons_of_mem _ h
    | _ => exact h
  | _ => exact h

end

/-! ## All runs -/

/-- What holds of the file: every payment of LDK's has an entry in it, and LDK lists those in
flight. -/
structure OnFile (x : Durable) : Prop where
  chain : Chain x
  entry : ∀ a ∈ x.world.attempts, (x.file.2 a.paymentHash).isSome = true
  listed : ∀ a ∈ x.world.attempts, a.outcome = none → a.paymentHash ∈ x.recent

/-- What a task knows of the entry of the payment it sends. -/
def Knowing (x : Durable) (tid : ℕ) : Filing → Prop
  | .idle => True
  | .encoded id => ∃ y, x.encoded tid = some y ∧ (y.2 id).isSome = true
  | .filed id => (x.file.2 id).isSome = true

def filing : Discipline Op Op.Resp Durable Call Filing where
  start _ := .idle
  Move _ := FileMove
  Final _ l := l = .idle
  Shared := OnFile
  Owned x tid _ := Knowing x tid
  Apart _ _ _ _ := True

section

variable {cfg : Config} {now : ℤ} {tid : ℕ} {c : Call} {o : Op} {r : o.Resp} {x x' : Durable}
  {sp : Option Call} {l l' : Filing}

theorem OnFile.move (h : OnFile x) (he : Durable.Effect tid c o r x x' sp) (hm : FileMove l o r l')
    (hk : Knowing x tid l) : OnFile x' where
  chain := h.chain.move he
  entry a ha := by
    rw [he.world.attempts] at ha
    rcases attempt_cases ha with ha | ⟨invoice, amt, rfl, hhash, -⟩
    · exact within_file h.chain he _ (h.entry a ha)
    · -- the payment is handed over only by a task that has filed its entry
      rw [hhash]
      cases hm with
      | beside _ hpay => exact absurd rfl (hpay invoice amt)
      | pay => exact within_file h.chain he _ hk
  listed a ha hout := by
    have hrecent : x'.recent = o.onRecent x.recent r := congrArg Durable.recent he.after
    rw [he.world.attempts] at ha
    rw [hrecent]
    rcases attempt_cases ha with ha | ⟨-, -, -, -, hmem⟩
    · exact mem_onRecent (h.listed a ha hout)
    · exact hmem x.recent

theorem OnFile.restarted (h : OnFile x) : OnFile x.restarted where
  chain := .restarted x
  entry a ha := by
    rw [show x.restarted.file.2 = Durable.reconcile x.recent x.file.2 from rfl, isSome_reconcile]
    exact h.entry a ha
  listed a ha := h.listed a ha

theorem knowing_move (h : OnFile x) (he : Durable.Effect tid c o r x x' sp) (hm : FileMove l o r l')
    (hk : Knowing x tid l) : Knowing x' tid l' := by
  cases hm with
  | beside | pay => trivial
  | @insert id info =>
    have hout : x'.world.outbound id = some info := by
      rw [he.outbound]
      exact Op.onOutbound_insert
    refine ⟨(x.version + 1, x'.world.outbound), ?_, by simp [hout]⟩
    rw [he.after]
    exact Function.update_self ..
  | write =>
    obtain ⟨y, hy, hid⟩ := hk
    rw [Knowing, he.after]
    exact within_written h.chain tid (Or.inr hy) _ hid

/-- Other tasks leave what a task has encoded, and do not take its entry out of the file. -/
theorem knowing_other (h : OnFile x) (he : Durable.Effect tid c o r x x' sp) {i : ℕ} (hi : i ≠ tid)
    (hk : Knowing x i l) : Knowing x' i l := by
  cases l with
  | idle => trivial
  | filed id => exact within_file h.chain he id hk
  | encoded id =>
    obtain ⟨y, hy, hid⟩ := hk
    exact ⟨y, (Durable.encoded_other he hi).trans hy, hid⟩

theorem onFile_of_reaction (h : OnFile x) {e : Env} {w : World} {ch : Change Call}
    (hr : Reaction x.world e w ch) (hne : e ≠ .crash) : OnFile { x with world := w } := by
  have hout : w.outbound = _ := outbound_of_reaction hr hne
  have hchain : Chain { x with world := w } := by
    refine ⟨h.chain.le, fun y hy => ?_, h.chain.mono⟩
    rw [show ({ x with world := w } : Durable).world.outbound = _ from hout]
    exact h.chain.memory y hy
  rcases payments_of_reaction hr hne with heq | ⟨i, a, outcome, hi, hnone, heq⟩
  · have hatt : w.attempts = x.world.attempts := congrArg Payments.attempts heq
    exact ⟨hchain, fun b hb => h.entry b (hatt ▸ hb), fun b hb => h.listed b (hatt ▸ hb)⟩
  · have hatt : w.attempts = (settled x.payments i outcome).attempts := congrArg Payments.attempts heq
    -- a payment that ends keeps its id, and is no longer in flight
    have hcase : ∀ b ∈ w.attempts, ∃ a ∈ x.world.attempts, a.paymentHash = b.paymentHash ∧
        (b.outcome = none → a.outcome = none) := by
      intro b hb
      rw [hatt] at hb
      obtain ⟨j, hj⟩ := List.getElem?_of_mem hb
      obtain ⟨a, ha, hhash, rfl | ⟨-, hsome⟩⟩ := settled_cases hj
      · exact ⟨b, List.mem_of_getElem? ha, hhash, fun h => h⟩
      · exact ⟨a, List.mem_of_getElem? ha, hhash, fun h => by rw [h] at hsome; cases hsome⟩
    refine ⟨hchain, fun b hb => ?_, fun b hb hnone => ?_⟩
    · obtain ⟨a, ha, hhash, -⟩ := hcase b hb
      rw [← hhash]
      exact h.entry a ha
    · obtain ⟨a, ha, hhash, hin⟩ := hcase b hb
      rw [← hhash]
      exact h.listed a ha (hin hnone)

/-- LDK takes a payment that is not in flight off its list. -/
theorem onFile_forget (h : OnFile x) {id : String} (hf : x.payments.inFlight id = false) :
    OnFile { x with recent := x.recent.filter (· ≠ id) } where
  chain := ⟨h.chain.le, h.chain.memory, h.chain.mono⟩
  entry := h.entry
  listed a ha hout := by
    have hne : a.paymentHash ≠ id := by
      rintro rfl
      rw [inFlight_eq_true.2 ⟨a, ha, rfl, hout⟩] at hf
      cases hf
    exact List.mem_filter.2 ⟨h.listed a ha hout, by simpa using hne⟩

theorem filing_sound : filing.Sound (relayWithFile cfg) (fun _ _ => True) (Durable.fresh cfg now) where
  body := files_body cfg
  symm _ := trivial
  init := by
    refine ⟨⟨⟨fun y hy => ?_, fun y hy => ?_, fun y y' hy hy' _ => ?_⟩, nofun, nofun⟩, trivial⟩
    · rw [Durable.held_fresh hy]
      exact Nat.le_refl _
    · rw [Durable.held_fresh hy]
      exact fun _ h => nomatch h
    · rw [Durable.held_fresh hy]
      exact fun _ h => nomatch h
  move turn hp hm := by
    have he := durable_effect hp
    exact ⟨turn.shared.move he hm turn.owned, knowing_move turn.shared he hm turn.owned⟩
  others turn hp hm hne _ _ howned _ :=
    ⟨knowing_other turn.shared (durable_effect hp) hne howned, trivial⟩
  spawned _ _ _ := ⟨trivial, trivial, fun _ _ _ _ _ => trivial⟩
  abort turn hp := by
    obtain ⟨rfl, -⟩ := durable_abort hp
    exact ⟨turn.shared.restarted, trivial⟩
  react next hr := by
    rcases durable_react hr with ⟨-, rfl, -⟩ | ⟨e, w, -, hne, hreact, rfl⟩ | ⟨id, hf, rfl, -⟩
    · exact next.shared.restarted
    · exact onFile_of_reaction next.shared hreact hne
    · exact onFile_forget next.shared hf
  reactOthers {s e x' ch tid t m} next hr hch _ _ howned := by
    rcases durable_react hr with ⟨-, -, rfl⟩ | ⟨e, w, -, hne, hreact, rfl⟩ | ⟨id, hf, rfl, -⟩
    · exact absurd rfl hch
    · cases m <;> exact howned
    · cases m <;> exact howned
  reactSpawn _ _ := ⟨trivial, fun _ _ _ => trivial⟩
  reactRestart _ _ := trivial

end

end Outbound

/-- In every run of the relay, with the process going down at any point, every payment that LDK was
handed by `send_payment` has an entry in the file of the outbound store and in memory.  If the process goes down now,
the restart finds the entry; and while the payment is in flight it keeps it as the file has it. -/
theorem payment_on_file {cfg : Config} {now : ℤ} {s : State Op Op.Resp Durable Call}
    (hs : (relayWithFile cfg).Reach (fun _ _ => True) (Durable.fresh cfg now) s) {a : Attempt}
    (ha : a ∈ s.world.world.attempts) :
    ∃ info, s.world.file.2 a.paymentHash = some info ∧
      (s.world.world.outbound a.paymentHash).isSome = true ∧
      (s.world.restarted.world.outbound a.paymentHash).isSome = true ∧
      (a.outcome = none → s.world.restarted.world.outbound a.paymentHash = some info) := by
  obtain ⟨L, hL⟩ := Outbound.filing_sound.holds hs
  have hfile := hL.shared.entry a ha
  obtain ⟨info, hinfo⟩ := Option.isSome_iff_exists.1 hfile
  refine ⟨info, hinfo, hL.shared.chain.memory _ (Or.inl rfl) _ hfile, ?_, fun hout => ?_⟩
  · exact (Outbound.isSome_reconcile _ _ _).trans hfile
  · have hmem : s.world.recent.contains a.paymentHash = true :=
      List.contains_iff_mem.2 (hL.shared.listed a ha hout)
    exact Durable.reconcile_of_ne_pending hinfo (Or.inr hmem)

set_option maxRecDepth 100000 in
theorem payment_on_file_sent :
    ∃ s a info, (relayWithFile Devnet.shortConfig).Reach (fun _ _ => True) devnetFresh s ∧
      a ∈ s.world.world.attempts ∧ a.outcome = none ∧ s.world.file.2 a.paymentHash = some info ∧
        s.world.restarted.world.outbound a.paymentHash = some info := by
  have hrun : devnetSees (fun _ _ => true) (fun s => s.world.world.attempts.any (·.outcome = none))
      (devnetBoot ++ devnetSend 3) = true := by
    decide +kernel
  obtain ⟨s, hs, hp⟩ := Runtime.exists_reach_of_run hrun
  have hs := hs.mono fun _ _ _ => trivial
  obtain ⟨a, ha, hout⟩ := List.any_eq_true.1 hp
  rw [decide_eq_true_eq] at hout
  obtain ⟨info, hinfo, -, -, hkept⟩ := payment_on_file hs ha
  exact ⟨s, a, info, hs, ha, hout, hinfo, hkept hout⟩

end LightningRelay
