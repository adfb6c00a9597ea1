import LightningRelay.System

/-!
# One task at a time

The database guards single statements, but most tasks decide on a row, wait for Cardano, and then
write the row without a guard.  What such tasks do is described by the rows that an operation takes
up (`takesUp`): a task is at work on them from then on until it ends.  `exclusive` is the condition
that no task takes up a row that another one is at work on.
-/

set_option autoImplicit false

namespace LightningRelay

open Async

section

variable {κ : Type} [DecidableEq κ] (takesUp : Entry → List κ)

/-- The task has taken up work on `k` and has not ended. -/
def atWork (s : Sys) (tid : ℕ) (k : κ) : Bool :=
  ((s.tasks tid).any fun t => !t.rest.ended) &&
    s.world.log.any fun e => e.tid = tid && (takesUp e).contains k

/-- No task takes up what another task is at work on. -/
def exclusive (s : Sys) : Act → Bool
  | .task tid _ =>
    match s.tasks tid with
    | some ⟨c, .op (.db q) _⟩ =>
      (takesUp ⟨tid, c, .db q, (s.world.db.call q).1⟩).all fun k =>
        (List.range s.next).all fun tid' => tid' = tid || !atWork takesUp s tid' k
    | _ => true
  | .env _ => true

variable {takesUp} {s : Sys} {tid tid' : ℕ} {t : Task Op Op.Resp Call} {k : κ}

theorem atWork_of_log {e : Entry} (ht : s.tasks tid = some t) (hrun : t.rest.ended = false)
    (he : e ∈ s.world.log) (htid : e.tid = tid) (hk : k ∈ takesUp e) :
    atWork takesUp s tid k = true := by
  rw [atWork, Bool.and_eq_true]
  refine ⟨by simp [ht, hrun], List.any_eq_true.2 ⟨e, he, ?_⟩⟩
  simp [htid, hk]

/-- What a task takes up, no other task is at work on. -/
theorem not_atWork_of_exclusive {c : Call} {q : DbCall} {a : Answers} {r : (Op.db q).Resp}
    {w' : World} {sp : Option Call} (hok : exclusive takesUp s (.task tid a) = true)
    (htask : ∃ f, s.tasks tid = some ⟨c, .op (.db q) f⟩)
    (he : Effect tid c (.db q) r s.world w' sp) (hk : k ∈ takesUp ⟨tid, c, .db q, r⟩)
    (hne : tid' ≠ tid) (hlt : tid' < s.next) : atWork takesUp s tid' k = false := by
  obtain ⟨f, ht⟩ := htask
  have hr : r = (s.world.db.call q).1 := he.answered
  subst hr
  simp only [exclusive, ht, List.all_eq_true] at hok
  simpa [hne] using hok k hk tid' (List.mem_range.2 hlt)

omit [DecidableEq κ] in
theorem logged_mono {c : Call} {o : Op} {r : o.Resp} {w w' : World} {sp : Option Call}
    (he : Effect tid c o r w w' sp) (hl : ∃ e ∈ w.log, e.tid = tid' ∧ k ∈ takesUp e) :
    ∃ e ∈ w'.log, e.tid = tid' ∧ k ∈ takesUp e := by
  obtain ⟨e, hmem, h⟩ := hl
  exact ⟨e, he.log ▸ List.mem_cons_of_mem _ hmem, h⟩

/-- A task does not take up what an unfinished task has taken up. -/
theorem not_taken_of_logged {c : Call} {q : DbCall} {a : Answers} {r : (Op.db q).Resp}
    {w' : World} {sp : Option Call} (hok : exclusive takesUp s (.task tid a) = true)
    (htask : ∃ f, s.tasks tid = some ⟨c, .op (.db q) f⟩)
    (he : Effect tid c (.db q) r s.world w' sp) (hne : tid' ≠ tid) (hlt : tid' < s.next)
    (ht : s.tasks tid' = some t) (hrun : t.rest.ended = false)
    (hl : ∃ e ∈ s.world.log, e.tid = tid' ∧ k ∈ takesUp e) :
    k ∉ takesUp ⟨tid, c, .db q, r⟩ := by
  intro hk
  obtain ⟨e, hmem, htid, hke⟩ := hl
  have hwork := atWork_of_log ht hrun hmem htid hke
  rw [not_atWork_of_exclusive hok htask he hk hne hlt] at hwork
  cases hwork

end

end LightningRelay
