import LightningRelay.Async.Fatal
import LightningRelay.RateLimits
import LightningRelay.Responses

/-!
# The rate limit over runs

Every handler that changes swaps asks the limiter first.  The limiter is shared by all handlers, other
tasks run between their operations, and the map of the limiter is lost when the process goes down.

* `admitted_of_serves`: a request does anything beside asking the limiter only after it was admitted.
* `served_le`: while the process stays up, the relay acts on at most twice the limit of the requests
  of one client that arrive within a window.
-/

set_option autoImplicit false

namespace LightningRelay

open Async FixedWindow

/-- The address of the client that sent a request. -/
def Call.client? : Call → Option String
  | .handleSwapRequest ip _ | .handleOfframpRequest ip _ | .handleOfframpDeposit ip _ => some ip
  | _ => none

namespace Entry

/-- The limiter admitted a request of the client. -/
def admits (ip : String) : Entry → Bool
  | ⟨_, _, .rateLimit ip', true⟩ => ip' = ip
  | _ => false

/-- A request of the client did something beside asking the limiter. -/
def serves (ip : String) (e : Entry) : Bool :=
  e.call.client? = some ip && match e.op with
    | .rateLimit _ => false
    | _ => true

end Entry

/-- The requests of a client, from task `first` on, that the relay has acted on. -/
def served (s : Sys) (ip : String) (first : ℕ) : List ℕ :=
  (List.range s.next).filter fun tid =>
    first ≤ tid && s.world.log.any fun e => e.tid = tid && e.serves ip

/-! ## Requests ask first -/

section

variable {cfg : Config} {now : ℤ} {s : Sys} {tid : ℕ} {c : Call} {o : Op} {ip : String}
  {tr : List (Sigma Op.Resp)}

/-- A program that asks the limiter first and ends when it is refused. -/
theorem admitted_of_replays {first : Bool → Relay Unit} {k : o.Resp → Relay Unit}
    (h : (Prog.op (.rateLimit ip) first : Relay Unit).Replays tr (.op o k))
    (hrefused : first false = .pure ()) (ho : ∀ ip, o ≠ .rateLimit ip) :
    ⟨.rateLimit ip, true⟩ ∈ tr := by
  cases h with
  | refl => exact absurd rfl (ho ip)
  | @step _ _ r tr _ h =>
    cases r with
    | true => exact List.mem_cons_self
    | false =>
      rw [hrefused] at h
      cases h

theorem admitted_of_body {k : o.Resp → Relay Unit} (hc : c.client? = some ip)
    (h : (body cfg c).Replays tr (.op o k)) (ho : ∀ ip, o ≠ .rateLimit ip) :
    ⟨.rateLimit ip, true⟩ ∈ tr := by
  cases c with
  | handleSwapRequest | handleOfframpRequest | handleOfframpDeposit =>
    obtain rfl := Option.some.inj hc
    exact admitted_of_replays h rfl ho
  | _ => cases hc

/-- A request acts only after it was admitted. -/
theorem admitted_of_serves (hs : Reachable cfg now s) {e : Entry} (he : e ∈ s.world.log)
    (hserves : e.serves ip = true) : ∃ e' ∈ s.world.log, e'.tid = e.tid ∧ e'.admits ip = true := by
  obtain ⟨hclient, hop⟩ := (Bool.and_eq_true _ _).mp hserves
  have ho : ∀ ip, e.op ≠ .rateLimit ip := by
    intro ip hip
    rw [hip] at hop
    cases hop
  have hrec : (⟨e.tid, e.call, e.op, e.resp⟩ : Recorded Op Op.Resp Call) ∈ s.world.record :=
    List.mem_map_of_mem he
  obtain ⟨newer, older, hsplit⟩ := List.append_of_mem hrec
  obtain ⟨s₁, s₂, a, k, sp, hs₁, -, ht, -, -, hbelow, -⟩ :=
    Runtime.Reach.exists_turn (relay_records cfg) rfl hs hsplit
  have hadmitted := admitted_of_body (of_decide_eq_true hclient)
    (Runtime.Reach.replays (relay_records cfg) rfl hs₁ ht) ho
  obtain ⟨x, hx, htid, hadm⟩ := mem_ownRecord.1 hadmitted
  rw [hbelow] at hx
  obtain ⟨e', he', rfl⟩ := List.mem_map.1 (hsplit ▸ List.mem_append_right _ (List.mem_cons_of_mem _ hx))
  refine ⟨e', he', htid, ?_⟩
  obtain ⟨i, c', o', r'⟩ := e'
  obtain ⟨rfl, hr⟩ := Sigma.mk.inj hadm
  obtain rfl := eq_of_heq hr
  simp [Entry.admits]

end

/-! ## The limiter in a run -/

section

variable {cfg : Config} {now : ℤ} {s s' x y : Sys} {tid : ℕ} {c : Call} {o : Op} {r : o.Resp}
  {a : Answers} {w w' : World} {sp : Option Call} {ip : String}

/-- What an operation does to the limiter: a check, or nothing. -/
inductive LimiterMove (w w' : World) : Entry → Prop where
  | check {tid : ℕ} {c : Call} (ip : String) : w'.limiter = (w.limiter.check ip w.clock).2 →
      LimiterMove w w' ⟨tid, c, .rateLimit ip, (w.limiter.check ip w.clock).1⟩
  | none {e : Entry} : (∀ ip, e.admits ip = false) → w'.limiter = w.limiter → LimiterMove w w' e

theorem limiterMove_of_perform (hp : World.perform tid c o a w = .resume r w' sp) :
    LimiterMove w w' ⟨tid, c, o, r⟩ := by
  cases o with
  | rateLimit ip =>
    obtain ⟨rfl, rfl, -⟩ := Outcome.resume.inj hp
    exact .check ip rfl
  | panic msg => cases hp
  | store call =>
    obtain ⟨-, rfl, -⟩ := Outcome.resume.inj hp
    refine .none (fun _ => rfl) ?_
    cases call <;> rfl
  | ldk call =>
    obtain ⟨-, rfl, -⟩ := Outcome.resume.inj hp
    refine .none (fun _ => rfl) ?_
    cases call with
    | payForBolt11Invoice invoice amount =>
      rcases h : a.ldk (.payForBolt11Invoice invoice amount) with e | u <;> rfl
    | _ => rfl
  | _ =>
    obtain ⟨-, rfl, -⟩ := Outcome.resume.inj hp
    exact .none (fun _ => rfl) rfl

/-- As each client sees the limiter, no count is above the limit. -/
def Limited (cfg : Config) (w : World) : Prop :=
  ∀ ip, ∃ ideal, w.limiter.Sees cfg.rateLimitMax cfg.rateLimitWindow ip w.clock ideal ∧
    ∀ e, ideal = some e → e.1 ≤ cfg.rateLimitMax

theorem limited_of_reachable (hmax : 1 ≤ cfg.rateLimitMax) (hwindow : 0 ≤ cfg.rateLimitWindow)
    (hs : Reachable cfg now s) : Limited cfg s.world := by
  refine Runtime.Reach.always (J := Limited cfg) ?_ ?_ ?_ ?_ hs
  · exact fun ip => ⟨none, ⟨rfl, rfl, List.nodup_nil, Or.inl rfl⟩, fun e he => nomatch he⟩
  · intro tid c o a w r w' sp hp hL ip
    obtain ⟨ideal, hsees, hle⟩ := hL ip
    rw [(effect_of_perform hp).clock]
    cases limiterMove_of_perform hp with
    | check ip' hlimiter =>
      rw [hlimiter]
      by_cases hip : ip = ip'
      · subst hip
        refine ⟨_, (hsees.check_self hmax hwindow).2, fun e he => ?_⟩
        obtain rfl := Option.some.inj he
        exact step_count_le hmax hle
      · exact ⟨ideal, hsees.check_other hip, hle⟩
    | none _ hlimiter =>
      rw [hlimiter]
      exact ⟨ideal, hsees, hle⟩
  · intro tid c o a w w' hp hL ip
    obtain rfl := abort_of_perform hp
    obtain ⟨ideal, hsees, -⟩ := hL ip
    exact ⟨none, ⟨hsees.max_eq, hsees.window_eq, List.nodup_nil, Or.inl rfl⟩, fun e he => nomatch he⟩
  · intro e w tasks w' ch hr hL ip
    obtain ⟨ideal, hsees, hle⟩ := hL ip
    have hclock := (reaction_of_react hr).calm.clock
    cases reaction_of_react hr with
    | crash =>
      exact ⟨none, ⟨hsees.max_eq, hsees.window_eq, List.nodup_nil, Or.inl rfl⟩,
        fun e he => nomatch he⟩
    | _ => exact ⟨ideal, hsees.mono hclock, hle⟩

/-- The process stays up. -/
def staysUp (s : Sys) (a : Act) : Prop := goesDown s a = false

/-- How the client sees the limiter `x`, since the state `s` in which it saw `ideal`: its calls at the
times `times` were answered as if it were alone, and the log has the admissions. -/
structure Since (cfg : Config) (ip : String) (s : Sys) (ideal : Option (ℕ × ℤ)) (x : Sys)
    (times : List ℤ) (newer : List Entry) : Prop where
  log : x.world.log = newer ++ s.world.log
  clock : s.world.clock ≤ x.world.clock
  sorted : times.Pairwise (· ≤ ·)
  within : ∀ t ∈ times, s.world.clock ≤ t ∧ t ≤ x.world.clock
  sees : x.world.limiter.Sees cfg.rateLimitMax cfg.rateLimitWindow ip x.world.clock
    (slotAfter cfg.rateLimitMax cfg.rateLimitWindow ideal times)
  admitted : newer.countP (Entry.admits ip) =
    (run cfg.rateLimitMax cfg.rateLimitWindow ideal times).countP (·.accepted)

theorem since_start {ideal : Option (ℕ × ℤ)}
    (h : s.world.limiter.Sees cfg.rateLimitMax cfg.rateLimitWindow ip s.world.clock ideal) :
    Since cfg ip s ideal s [] [] where
  log := rfl
  clock := Int.le_refl _
  sorted := List.Pairwise.nil
  within _ ht := nomatch ht
  sees := h
  admitted := rfl

section

variable {ideal : Option (ℕ × ℤ)} {times : List ℤ} {newer : List Entry}

/-- A step that does not ask the limiter for the client. -/
theorem Since.other (h : Since cfg ip s ideal x times newer) {more : List Entry}
    (hlog : y.world.log = more ++ x.world.log) (hmore : more.countP (Entry.admits ip) = 0)
    (hclock : x.world.clock ≤ y.world.clock)
    (hsees : y.world.limiter.Sees cfg.rateLimitMax cfg.rateLimitWindow ip y.world.clock
      (slotAfter cfg.rateLimitMax cfg.rateLimitWindow ideal times)) :
    Since cfg ip s ideal y times (more ++ newer) where
  log := by rw [hlog, h.log, List.append_assoc]
  clock := Int.le_trans h.clock hclock
  sorted := h.sorted
  within t ht := ⟨(h.within t ht).1, Int.le_trans (h.within t ht).2 hclock⟩
  sees := hsees
  admitted := by rw [List.countP_append, hmore, Nat.zero_add, h.admitted]

/-- A call of the client. -/
theorem Since.call (hmax : 1 ≤ cfg.rateLimitMax) (hwindow : 0 ≤ cfg.rateLimitWindow)
    (h : Since cfg ip s ideal x times newer)
    (hlog : y.world.log = ⟨tid, c, .rateLimit ip, (x.world.limiter.check ip x.world.clock).1⟩ ::
      x.world.log) (hclock : y.world.clock = x.world.clock)
    (hlimiter : y.world.limiter = (x.world.limiter.check ip x.world.clock).2) :
    Since cfg ip s ideal y (times ++ [x.world.clock])
      (⟨tid, c, .rateLimit ip, (x.world.limiter.check ip x.world.clock).1⟩ :: newer) := by
  obtain ⟨hanswer, hsees⟩ := h.sees.check_self hmax hwindow
  refine ⟨?_, ?_, ?_, fun t ht => ?_, ?_, ?_⟩
  · rw [hlog, h.log, List.cons_append]
  · rw [hclock]
    exact h.clock
  · refine List.pairwise_append.2 ⟨h.sorted, List.pairwise_singleton _ _, fun t ht t' ht' => ?_⟩
    rw [List.mem_singleton.1 ht']
    exact (h.within t ht).2
  · rw [hclock]
    rcases List.mem_append.1 ht with ht | ht
    · exact h.within t ht
    · rw [List.mem_singleton.1 ht]
      exact ⟨h.clock, Int.le_refl _⟩
  · rw [hclock, hlimiter, slotAfter_concat]
    exact hsees
  · rw [run_concat, List.countP_append, List.countP_singleton, ← hanswer, List.countP_cons, h.admitted]
    cases (x.world.limiter.check ip x.world.clock).1 <;> simp [Entry.admits]

/-- One step of a process that stays up. -/
theorem since_step (hmax : 1 ≤ cfg.rateLimitMax) (hwindow : 0 ≤ cfg.rateLimitWindow) {act : Act}
    (hup : staysUp x act) (hstep : (relay cfg).step x act = some y)
    (h : Since cfg ip s ideal x times newer) : ∃ times newer, Since cfg ip s ideal y times newer := by
  cases act with
  | task tid a =>
    obtain ⟨c, o, k, ht, rfl⟩ := Runtime.step_task_eq_some hstep
    rcases hp : (relay cfg).perform tid c o a x.world with ⟨r, w', sp⟩ | w'
    · have hw : ((relay cfg).settle x tid c k (.resume r w' sp)).world = w' := by
        cases sp <;> rfl
      have he := effect_of_perform hp
      cases limiterMove_of_perform hp with
      | check ip' hlimiter =>
        by_cases hip : ip = ip'
        · subst hip
          exact ⟨_, _, h.call hmax hwindow (by rw [hw]; exact he.log) (by rw [hw]; exact he.clock)
            (by rw [hw]; exact hlimiter)⟩
        · refine ⟨times, [⟨tid, c, .rateLimit ip', (x.world.limiter.check ip' x.world.clock).1⟩] ++ newer,
            h.other (by rw [hw]; exact he.log) ?_ ?_ ?_⟩
          · cases (x.world.limiter.check ip' x.world.clock).1 <;> simp [Entry.admits, Ne.symm hip]
          · rw [hw, he.clock]
          · rw [hw, hlimiter, he.clock]
            exact h.sees.check_other hip
      | none hadmits hlimiter =>
        refine ⟨times, [⟨tid, c, o, r⟩] ++ newer, h.other (by rw [hw]; exact he.log) ?_ ?_ ?_⟩
        · simp [hadmits ip]
        · rw [hw, he.clock]
        · rw [hw, hlimiter, he.clock]
          exact h.sees
    · cases o with
      | panic msg =>
        simp only [staysUp, goesDown, ht] at hup
        cases hup
      | _ => cases hp
  | env e =>
    obtain ⟨w', ch, hr, rfl⟩ := Runtime.step_env_eq_some hstep
    have hw : ((relay cfg).change x w' ch).world = w' := by
      cases ch <;> rfl
    have hcalm := (reaction_of_react hr).calm
    refine ⟨times, [] ++ newer, h.other (by rw [hw]; exact hcalm.log) rfl (by rw [hw]; exact hcalm.clock)
      ?_⟩
    rw [hw]
    cases reaction_of_react hr with
    | crash => cases hup
    | _ => exact h.sees.mono hcalm.clock

theorem since_of_onward (hmax : 1 ≤ cfg.rateLimitMax) (hwindow : 0 ≤ cfg.rateLimitWindow)
    (hon : (relay cfg).Onward staysUp x y) (h : Since cfg ip s ideal x times newer) :
    ∃ times newer, Since cfg ip s ideal y times newer := by
  induction hon with
  | refl => exact ⟨times, newer, h⟩
  | tail _ hstep ih =>
    obtain ⟨act, hup, hstep⟩ := hstep
    obtain ⟨times, newer, h⟩ := ih
    exact since_step hmax hwindow hup hstep h

/-- In a stretch no longer than the window the client is admitted at most twice the limit. -/
theorem Since.admitted_le (hmax : 1 ≤ cfg.rateLimitMax) (hwindow : 0 ≤ cfg.rateLimitWindow)
    (h : Since cfg ip s ideal x times newer) (hideal : ∀ e, ideal = some e → e.1 ≤ cfg.rateLimitMax)
    (hlen : x.world.clock - s.world.clock ≤ cfg.rateLimitWindow) :
    newer.countP (Entry.admits ip) ≤ 2 * cfg.rateLimitMax := by
  have hbound := accepted_within hmax hwindow hlen times ideal hideal h.sorted
  rw [h.admitted]
  refine Nat.le_trans (Nat.le_of_eq (List.countP_congr fun r hr => ?_)) hbound
  obtain ⟨hfrom, hto⟩ := h.within r.time (time_of_mem_run times ideal hr)
  simp [hfrom, hto]

end

/-- While the process stays up, and within the time of one window, the relay acts on at most twice the
limit of the requests of one client that arrive: every other request only asks the limiter. -/
theorem served_le (hmax : 1 ≤ cfg.rateLimitMax) (hwindow : 0 ≤ cfg.rateLimitWindow)
    (hs : Reachable cfg now s) (hon : (relay cfg).Onward staysUp s s')
    (hlen : s'.world.clock - s.world.clock ≤ cfg.rateLimitWindow) (ip : String) :
    (served s' ip s.next).length ≤ 2 * cfg.rateLimitMax := by
  obtain ⟨ideal, hsees, hideal⟩ := limited_of_reachable hmax hwindow hs ip
  have hon' : (relay cfg).Onward (fun _ _ => True) s s' := hon.mono fun _ _ _ => trivial
  obtain ⟨times, newer, hsince⟩ := since_of_onward hmax hwindow hon (since_start hsees)
  -- each request that was served has an admission of its own
  have hsub : served s' ip s.next ⊆ (newer.filter (Entry.admits ip)).map Entry.tid := by
    intro tid htid
    simp only [served, List.mem_filter, Bool.and_eq_true, decide_eq_true_eq, List.any_eq_true] at htid
    obtain ⟨-, hnew, e, he, rfl, hserves⟩ := htid
    obtain ⟨e', he', htid, hadmits⟩ := admitted_of_serves (hs.onward hon') he hserves
    rw [hsince.log] at he'
    rcases List.mem_append.1 he' with he' | hold
    · exact List.mem_map.2 ⟨e', List.mem_filter.2 ⟨he', hadmits⟩, htid⟩
    · exact absurd (tid_lt_next hs e' hold) (by omega)
  have hnodup : (served s' ip s.next).Nodup := List.nodup_range.filter _
  calc (served s' ip s.next).length
      ≤ ((newer.filter (Entry.admits ip)).map Entry.tid).length :=
        (List.subperm_of_subset hnodup hsub).length_le
    _ = newer.countP (Entry.admits ip) := by rw [List.length_map, List.countP_eq_length_filter]
    _ ≤ 2 * cfg.rateLimitMax := hsince.admitted_le hmax hwindow hideal hlen

end

set_option maxRecDepth 100000 in
/-- The first request of the devnet is served. -/
theorem served_le_first : ∃ s s', Reachable Devnet.config Devnet.startTime s ∧
    (relay Devnet.config).Onward staysUp s s' ∧ served s' "127.0.0.1" s.next = [3] ∧
    (served s' "127.0.0.1" s.next).length ≤ 2 * Devnet.config.rateLimitMax := by
  obtain ⟨s, s', hs, hon, hp⟩ := Devnet.onwardBy_of_after (fun s a => !goesDown s a) Devnet.boot
    (Devnet.swapRequest 3 1)
    (fun s s' => served s' "127.0.0.1" s.next = [3] && s'.world.clock = s.world.clock)
    (by decide +kernel)
  simp only [Bool.and_eq_true, decide_eq_true_eq] at hp
  have hs : Reachable Devnet.config Devnet.startTime s := hs.mono fun _ _ _ => trivial
  have hon : (relay Devnet.config).Onward staysUp s s' :=
    hon.mono fun _ _ h => (Bool.not_eq_true' _).mp h
  have hlen : s'.world.clock - s.world.clock ≤ Devnet.config.rateLimitWindow := by
    rw [hp.2, Int.sub_self]
    decide
  exact ⟨s, s', hs, hon, hp.1, served_le (by decide) (by decide) hs hon hlen "127.0.0.1"⟩

end LightningRelay
