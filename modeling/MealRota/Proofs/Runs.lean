import MealRota.Plan.Generate
import MealRota.Proofs.Tracing

/-!
# MealRota.Proofs.Runs

Whole runs, from the beginning to the end or to the slot where they fail: every
event is allowed at its moment, and what was taken is what the result serves.

* `Pool.Follows` — running a step follows the laws of a pool;
* `Request.generateSteps_follows` — generating a plan.
-/

namespace MealRota

open Planning

/-! ## steps that follow the laws of a pool -/

section

variable {α β : Type} {pool : Pool} {p : Progress} {R : α → List (Course × String) → Prop}
  {S : β → List (Course × String) → Prop}

/-- Running a step is told by events that are allowed at their moments, with choices in slots only;
if it succeeds, its result relates to what was taken. -/
def Pool.Follows (pool : Pool) (p : Progress) (step : Planning α)
    (R : α → List (Course × String) → Prop) : Prop :=
  ∃ events, pool.Trace p (run step p).2 events ∧ Paced none events ∧
    ∀ a, (run step p).1 = .ok a → R a (takings events)

/-- Reporting a failure adds no more than a remark. -/
theorem Pool.Trace.reporting {step : Planning α} {a : Progress} {events : List Event}
    (h : pool.Trace a (run step p).2 events) (task : Task) :
    ∃ more, pool.Trace a (run (Planning.reporting task step) p).2 (events ++ more) ∧
      ∀ e ∈ more, e.isRemark = true := by
  have hnone : ∀ e ∈ ([] : List Event), e.isRemark = true := fun e he => absurd he List.not_mem_nil
  rw [run_reporting]
  cases hstep : run step p with
  | mk result m =>
      rw [hstep] at h
      cases result with
      | ok b => exact ⟨[], (List.append_nil events).symm ▸ h, hnone⟩
      | error e =>
          simp only
          split
          · refine ⟨[.aborted task e], h.trans (Trace.remark rfl), fun e' he => ?_⟩
            rw [List.mem_singleton.mp he]
            rfl
          · exact ⟨[], (List.append_nil events).symm ▸ h, hnone⟩

namespace Pool.Follows

theorem pure {a : α} (h : R a []) : pool.Follows p (pure a) R :=
  ⟨[], Trace.refl _ _, trivial, fun _ hb => Except.ok.inj hb ▸ h⟩

theorem fail (e : PlanError) : pool.Follows p (fail e) R :=
  ⟨[], Trace.refl _ _, trivial, fun a ha => by contradiction⟩

theorem lift {x : Except PlanError α} (h : ∀ a, x = .ok a → R a []) :
    pool.Follows p (lift x) R :=
  ⟨[], Trace.refl _ _, trivial, h⟩

/-- A step that leaves no trace. -/
theorem still {step : Planning α} (h : pool.Trace p (run step p).2 []) :
    pool.Follows p step fun _ l => l = [] :=
  ⟨[], h, trivial, fun _ _ => rfl⟩

theorem remark {e : Event} (he : e.isRemark = true) :
    pool.Follows p (record e) fun _ l => l = [] :=
  ⟨[e], Trace.remark he, .quiet (takings_of_isRemark he), fun _ _ => takings_of_isRemark he⟩

/-- What follows a step goes on from where it ended, with what it took. -/
theorem bind {step : Planning α} {f : α → Planning β} (hs : pool.Follows p step R)
    (hf : ∀ a m l, run step p = (.ok a, m) → R a l →
      pool.Follows m (f a) fun b l' => S b (l ++ l')) :
    pool.Follows p (step >>= f) S := by
  obtain ⟨events, htrace, hpaced, hok⟩ := hs
  unfold Follows
  cases hrun : run step p with
  | mk result m =>
      rw [hrun] at htrace hok
      cases result with
      | error e =>
          rw [run_bind_of_error hrun]
          exact ⟨events, htrace, hpaced, fun b hb => by contradiction⟩
      | ok a =>
          obtain ⟨more, hmore, hrest, hlast⟩ := hf a m _ hrun (hok a rfl)
          rw [run_bind_of_ok hrun]
          refine ⟨events ++ more, htrace.trans hmore, hpaced.append hrest, fun b hb => ?_⟩
          rw [takings_append]
          exact hlast b hb

/-- A step that takes nothing, and what follows it. -/
theorem andThen {step : Planning α} {f : α → Planning β}
    (hs : pool.Follows p step fun _ l => l = [])
    (hf : ∀ a m, run step p = (.ok a, m) → pool.Follows m (f a) S) :
    pool.Follows p (step >>= f) S := by
  refine hs.bind fun a m l hrun hl => ?_
  rw [hl]
  exact hf a m hrun

theorem imp {step : Planning α} {R' : α → List (Course × String) → Prop}
    (h : pool.Follows p step R) (himp : ∀ a l, R a l → R' a l) : pool.Follows p step R' := by
  obtain ⟨events, htrace, hpaced, hok⟩ := h
  exact ⟨events, htrace, hpaced, fun a ha => himp a _ (hok a ha)⟩

theorem reporting {step : Planning α} (task : Task) (h : pool.Follows p step R) :
    pool.Follows p (reporting task step) R := by
  obtain ⟨events, htrace, hpaced, hok⟩ := h
  obtain ⟨more, hmore, hremarks⟩ := Trace.reporting htrace task
  unfold Follows
  cases hstep : run step p with
  | mk result m =>
      cases result with
      | ok a =>
          rw [run_reporting_ok.mpr hstep]
          rw [hstep] at htrace hok
          exact ⟨events, htrace, hpaced, hok⟩
      | error e =>
          refine ⟨_, hmore, hpaced.append (paced_of_remarks hremarks), fun a ha => ?_⟩
          rw [run_reporting, hstep] at ha
          contradiction

end Pool.Follows

end

/-! ## generating -/

/-- What a week takes from the pool: what its assignments do. -/
def Week.takings (w : Week) : List (Course × String) := w.assignments.flatMap Assignment.takings

/-- Some takings are what weeks serve, side dishes standing beside main courses only. -/
structure WeeksServe (weeks : List Week) (l : List (Course × String)) : Prop where
  takings : l = weeks.flatMap Week.takings
  daily : ∀ w ∈ weeks, ∀ a ∈ w.assignments, a.course ∈ Course.daily

theorem Kitchen.planWeeks_follows (k : Kitchen) (monday : Date) (offset count : Nat)
    (p : Progress) : k.pool.Follows p (k.planWeeks monday offset count) WeeksServe := by
  induction count generalizing offset p with
  | zero => exact .pure ⟨rfl, fun w hw => absurd hw List.not_mem_nil⟩
  | succ count ih =>
      unfold Kitchen.planWeeks
      refine .andThen (.lift fun _ _ => rfl) fun start m _ => ?_
      have hweek : k.pool.Follows m (k.planWeek start [] .idle) fun week l =>
          l = week.takings ∧ ∀ a ∈ week.assignments, a.course ∈ Course.daily :=
        k.planWeek_trace (fun id hid => absurd hid List.not_mem_nil) start .idle
      refine hweek.bind fun week m' l _ ⟨hl, hdaily⟩ => ?_
      refine (ih (offset + 1) m').bind fun weeks m'' l' _ hweeks => .pure ⟨?_, fun w hw => ?_⟩
      · rw [hl, hweeks.takings, List.append_nil]
        rfl
      · rcases List.mem_cons.mp hw with rfl | hw
        · exact hdaily
        · exact hweeks.daily w hw

namespace Request

variable (q : Request) (p : Progress)

theorem checkRotation_follows : q.pool.Follows p q.checkRotation fun _ l => l = [] :=
  .still (Pool.Trace.refl _ _)

theorem recordPool_follows : q.pool.Follows p q.recordPool fun _ l => l = [] := by
  have hremark : ∀ e ∈ Pool.ofEligibleEvents q.recipes q.rules.preferences, e.isRemark = true := by
    intro e he
    rcases List.mem_cons.mp he with rfl | he
    · rfl
    · obtain ⟨id, -, rfl⟩ := List.mem_map.mp he
      rfl
  obtain ⟨htrace, htakings⟩ := Pool.Trace.remarks (p := q.pool) hremark p
  exact ⟨_, htrace, Pool.paced_of_remarks hremark, fun _ _ => htakings⟩

theorem generateWeeks_follows (weekCount : Option Int) (start : Except PlanError Date) :
    q.pool.Follows p (q.generateWeeks weekCount start) WeeksServe := by
  unfold generateWeeks
  refine .andThen (q.checkRotation_follows p) fun _ p₁ _ => ?_
  refine .andThen (q.recordPool_follows p₁) fun _ p₂ _ => ?_
  have hweeks : ∀ p, q.pool.Follows p (do
      let weeks ← Planning.lift (weeksToPlan (q.pool.count .main) weekCount)
      let monday ← Planning.lift start
      Planning.record (.generating monday weeks q.pool.size (q.pool.count .main)
        (← Planning.rotation).cycle)
      q.kitchen.planWeeks monday 0 weeks.toNat) WeeksServe := by
    intro p
    refine .andThen (.lift fun _ _ => rfl) fun weeks p₁ _ => ?_
    refine .andThen (.lift fun _ _ => rfl) fun monday p₂ _ => ?_
    refine .andThen (.still (Pool.Trace.refl _ _)) fun t p₃ _ => ?_
    refine .andThen (.remark rfl) fun _ p₄ _ => ?_
    exact q.kitchen.planWeeks_follows monday 0 weeks.toNat p₄
  by_cases hmains : q.pool.count .main = 0
  · simp only [hmains, if_true]
    refine .andThen (.fail _) fun _ m hrun => ?_
    simp at hrun
  · simp only [hmains, if_false]
    exact hweeks p₂

/-- Generating a plan follows the laws of the pool; what it took is what the plan serves. -/
theorem generateSteps_follows (weekCount : Option Int) (start : Except PlanError Date) :
    q.pool.Follows p (q.generateSteps weekCount start) fun plan l =>
      WeeksServe plan.weeks l := by
  unfold generateSteps
  refine .bind (.reporting .generation (q.generateWeeks_follows p weekCount start))
    fun weeks p₁ l _ hl => ?_
  refine .andThen (.still (Pool.Trace.refl _ _)) fun t p₂ _ => ?_
  refine .andThen (.remark rfl) fun _ p₃ _ => .pure ?_
  rw [List.append_nil]
  exact hl

section

variable {q} {given : Option Rotation} {weekCount : Option Int} {start : Except PlanError Date}
  {plan : Plan}

/-- The run behind a generation. -/
def generation (q : Request) (given : Option Rotation) (weekCount : Option Int)
    (start : Except PlanError Date) : Except PlanError Plan × Progress :=
  run (q.generateSteps weekCount start) (q.start (given.getD .fresh))

/-- The rotation state of a generated plan is the one at the end of the run. -/
theorem rotation_of_generation {p : Progress}
    (h : q.generation given weekCount start = (.ok plan, p)) : plan.rotation = p.rotation := by
  unfold generation generateSteps at h
  obtain ⟨weeks, p₁, -, h⟩ := run_bind_ok.mp h
  obtain ⟨t, p₂, ht, h⟩ := run_bind_ok.mp h
  obtain ⟨_, p₃, hrecord, h⟩ := run_bind_ok.mp h
  rw [run_rotation] at ht
  rw [run_record] at hrecord
  rw [run_pure] at h
  obtain ⟨ht, hp₁⟩ := Prod.mk.inj ht
  obtain ⟨-, hp₂⟩ := Prod.mk.inj hrecord
  obtain ⟨hplan, hp₃⟩ := Prod.mk.inj h
  rw [← hp₃, ← hp₂, ← hp₁, ← Except.ok.inj hplan, ← Except.ok.inj ht]

/-- The journal of a generation that succeeds is lawful from the given state on, tells the state
of the plan, and takes what the weeks serve. -/
theorem generate_ok (h : (q.generate given weekCount start).result = .ok plan) :
    q.pool.Lawful (given.getD .fresh) (q.generate given weekCount start).journal ∧
      plan.rotation.SameUse
        (replay (given.getD .fresh) (q.generate given weekCount start).journal) ∧
      WeeksServe plan.weeks (takings (q.generate given weekCount start).journal) := by
  obtain ⟨events, htrace, -, hserves⟩ :=
    q.generateSteps_follows (q.start (given.getD .fresh)) weekCount start
  have hjournal : (q.generate given weekCount start).journal = events := htrace.journal_eq rfl
  have hrotation : plan.rotation = (q.generation given weekCount start).2.rotation :=
    rotation_of_generation (Prod.ext h rfl)
  rw [hjournal, hrotation]
  exact ⟨htrace.lawful, htrace.use, hserves plan h⟩

end

end Request

end MealRota
