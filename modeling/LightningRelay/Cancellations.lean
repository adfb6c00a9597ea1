import LightningRelay.System

/-!
# Cancellations that the database has to follow

A cancellation on Cardano and its record in the database are two steps.  `Side` is what the swaps and
the offramps have in common here: which operations are work on entries, which entry of the log is an
accepted cancellation, when the rows of an entry are closed, and which monitor cancels before it closes
them.  A task is `midway` between the acceptance and its next work.

* `Side.followed_move`: an accepted cancellation has closed rows, or its task is midway.
* `Side.present`: a task that is midway with open rows is there.
-/

set_option autoImplicit false

namespace LightningRelay

open Async

/-- The accepted CancelInvoice transaction of an LM invoice. -/
def Entry.invoiceCancelled? : Entry → Option ℤ
  | ⟨_, _, .operator _ (.submitTx ⟨.cancelInvoice id, _⟩), .ok _⟩ => some id
  | _ => none

/-- The accepted CancelOfframp transaction of an offramp. -/
def Entry.offrampCancelled? : Entry → Option ℤ
  | ⟨_, _, .operator _ (.submitTx ⟨.cancelOfframp id, _⟩), .ok _⟩ => some id
  | _ => none

/-- The task has ended or is not there any more. -/
def finished (s : Sys) (tid : ℕ) : Bool := (s.tasks tid).all fun t => t.rest.ended

/-- Entries on Cardano that may be cancelled, and the rows that belong to them. -/
structure Side where
  isWork : Op → Bool
  cancelled? : Entry → Option ℤ
  closed : World → ℤ → Bool
  monitor : Call
  closed_congr : ∀ {w w' : World} (id : ℤ), w'.db = w.db → closed w' id = closed w id

namespace Side

variable (S : Side)

/-- The entry whose cancellation was accepted in the last work of a task. -/
def midway? (w : World) (tid : ℕ) : Option ℤ :=
  (w.log.find? fun e => e.tid = tid && S.isWork e.op).bind S.cancelled?

/-- The entry was cancelled. -/
def WasCancelled (w : World) (id : ℤ) : Prop := ∃ e ∈ w.log, S.cancelled? e = some id

/-- The task is a monitor between an accepted cancellation and the write that closes the rows. -/
def between (s : Sys) (tid : ℕ) : Bool :=
  (s.tasks tid).any (fun t => t.call = S.monitor && !t.rest.ended) &&
    (S.midway? s.world tid).any fun id => !S.closed s.world id

/-- The process goes down only while no monitor is between an accepted cancellation and the write that
closes the rows. -/
def safelyDown (s : Sys) (a : Act) : Bool :=
  !goesDown s a || (List.range s.next).all fun tid => !S.between s tid

/-- The rows of a cancelled entry are closed, or the task that cancelled it is midway. -/
def Followed (w : World) : Prop :=
  ∀ e ∈ w.log, ∀ id, S.cancelled? e = some id → S.closed w id = true ∨
    S.midway? w e.tid = some id

variable {S} {tid tid' : ℕ} {c : Call} {o : Op} {r : o.Resp} {w w' : World} {sp : Option Call}
  {id : ℤ}

theorem midway?_of_ne (he : Effect tid c o r w w' sp) (hne : tid' ≠ tid) :
    S.midway? w' tid' = S.midway? w tid' := by
  rw [midway?, he.log, List.find?_cons_of_neg (by simp [hne.symm]), midway?]

theorem midway?_of_not_work (he : Effect tid c o r w w' sp) (ho : S.isWork o = false) :
    S.midway? w' tid = S.midway? w tid := by
  rw [midway?, he.log, List.find?_cons_of_neg (by simp [ho]), midway?]

theorem midway?_of_work (he : Effect tid c o r w w' sp) (ho : S.isWork o = true) :
    S.midway? w' tid = S.cancelled? ⟨tid, c, o, r⟩ := by
  rw [midway?, he.log, List.find?_cons_of_pos (by simp [ho])]
  rfl

theorem wasCancelled_of_midway? (h : S.midway? w tid = some id) : S.WasCancelled w id := by
  obtain ⟨e, he, hid⟩ := Option.bind_eq_some_iff.1 h
  exact ⟨e, List.mem_of_find?_eq_some he, hid⟩

/-- A task that has not worked yet is not midway. -/
theorem midway?_eq_none (h : ∀ e ∈ w.log, e.tid ≠ tid) : S.midway? w tid = none := by
  rcases hm : S.midway? w tid with _ | id
  · rfl
  · obtain ⟨e, he, -⟩ := Option.bind_eq_some_iff.1 hm
    have htid := List.find?_some he
    rw [Bool.and_eq_true, decide_eq_true_eq] at htid
    exact absurd htid.1 (h e (List.mem_of_find?_eq_some he))

/-! ## One step -/

theorem followed_move (he : Effect tid c o r w w' sp)
    (hclosed : ∀ id, S.WasCancelled w id → S.closed w id = true → S.closed w' id = true)
    (hnew : ∀ id, S.cancelled? ⟨tid, c, o, r⟩ = some id → S.closed w' id = true ∨ S.isWork o = true)
    (hdone : ∀ id, S.midway? w tid = some id → S.isWork o = true → S.closed w' id = true)
    (hF : S.Followed w) : S.Followed w' := by
  intro e hmem id hid
  rw [he.log] at hmem
  rcases List.mem_cons.1 hmem with rfl | hmem
  · refine (hnew id hid).imp_right fun ho => ?_
    exact (midway?_of_work he ho).trans hid
  · rcases hF e hmem id hid with hcl | hmid
    · exact Or.inl (hclosed id ⟨e, hmem, hid⟩ hcl)
    by_cases htid : e.tid = tid
    · rw [htid] at hmid ⊢
      cases ho : S.isWork o with
      | true => exact Or.inl (hdone id hmid ho)
      | false => exact Or.inr ((midway?_of_not_work he ho).trans hmid)
    · exact Or.inr ((midway?_of_ne he htid).trans hmid)

theorem Followed.calm (hc : Calm w w') (hF : S.Followed w) : S.Followed w' := by
  intro e hmem id hid
  rw [S.closed_congr id hc.db, midway?, hc.log]
  exact hF e (hc.log ▸ hmem) id hid

/-! ## All runs -/

section

variable {cfg : Config} {now : ℤ} {ok : Sys → Act → Prop} {s : Sys}

theorem not_between_of_down {a : Act} (hok : S.safelyDown s a = true) (hdown : goesDown s a = true)
    (hlt : tid < s.next) : S.between s tid = false := by
  have hall : ∀ tid < s.next, S.between s tid = false := by simpa [safelyDown, hdown] using hok
  exact hall tid hlt

/-- A task that is midway while the rows of its entry are open is there. -/
theorem present (hdown : ∀ s a, ok s a → S.safelyDown s a = true) (hhttp : S.monitor.isHttp = false)
    (hclosed : ∀ {s tid c o k a r w' sp id}, ReachableBy cfg now ok s → ok s (.task tid a) →
      s.tasks tid = some ⟨c, .op o k⟩ → World.perform tid c o a s.world = .resume r w' sp →
      S.WasCancelled s.world id → S.closed s.world id = true → S.closed w' id = true)
    (hmonitor : ∀ {s tid t id}, ReachableBy cfg now ok s → s.tasks tid = some t →
      S.midway? s.world tid = some id → S.closed s.world id = false →
      t.call = S.monitor ∧ t.rest.ended = false)
    (hs : ReachableBy cfg now ok s) (hmid : S.midway? s.world tid = some id)
    (hopen : S.closed s.world id = false) : ∃ t, s.tasks tid = some t := by
  -- the process does not go down while a task has open rows
  have hup : ∀ {s a tid id t}, ReachableBy cfg now ok s → ok s a → goesDown s a = true →
      s.tasks tid = some t → S.midway? s.world tid = some id → S.closed s.world id = false → False := by
    intro s a tid id t hr hok hd ht hm hop
    have hnot := not_between_of_down (hdown s a hok) hd (hr.fresh.lt_next ht)
    obtain ⟨hcall, hend⟩ := hmonitor hr ht hm hop
    simp [between, ht, hcall, hend, hm, hop] at hnot
  refine Runtime.Reach.present
    (fun w tid => ∃ id, S.midway? w tid = some id ∧ S.closed w id = false)
    (fun _ ⟨_, h, _⟩ => nomatch h) ?_ ?_ ?_ hs ⟨id, hmid, hopen⟩
  · rintro s tid c o k a r w' sp tid' hr hok ht hp ⟨id, hm, hop⟩
    by_cases hne : tid' = tid
    · exact Or.inl hne
    rw [midway?_of_ne (effect_of_perform hp) hne] at hm
    refine Or.inr ⟨id, hm, ?_⟩
    by_contra hcl
    rw [hclosed hr hok ht hp (wasCancelled_of_midway? hm) (by simpa using hcl)] at hop
    cases hop
  · rintro s tid c o k a w' tid' hr hthere hok ht hp ⟨id, hm, hop⟩
    have hd : goesDown s (.task tid a) = true := by
      cases o with
      | panic msg => simp only [goesDown, ht]
      | _ => cases hp
    obtain rfl := abort_of_perform hp
    rw [S.closed_congr id (calm_restarted s.world).db] at hop
    obtain ⟨t, ht'⟩ := hthere tid' ⟨id, hm, hop⟩
    exact hup hr hok hd ht' hm hop
  · rintro s e w' ch tid' hr hthere hok he ⟨id, hm, hop⟩
    have hreact := reaction_of_react he
    rw [midway?, hreact.calm.log] at hm
    rw [S.closed_congr id hreact.calm.db] at hop
    refine ⟨⟨id, hm, hop⟩, ?_, ?_⟩
    · rintro rfl
      obtain ⟨-, t, ht, hcall⟩ := isHttp_of_drop he
      rw [(hmonitor hr ht hm hop).1, hhttp] at hcall
      cases hcall
    · rintro rfl
      cases hreact with
      | crash =>
        obtain ⟨t, ht⟩ := hthere tid' ⟨id, hm, hop⟩
        exact hup hr hok rfl ht hm hop

end

end Side

end LightningRelay
