import MealRota.Proofs.Cycles
import MealRota.Proofs.Replanning

/-!
# MealRota.Proofs.Renewal

When cycles begin anew.  In every run, up to its end or to the slot where it
fails, a course is reset only when all its recipes were used, it is reset before
the next choice once they are, and the cycle number counts the resets.

* `Pool.Renews` — the statement about one run;
* `Pool.Trace.renews` — it holds of every run that follows the laws of its pool;
* `Request.renews_in_every_run` — generating plans and planning weeks anew.
-/

namespace MealRota

open Planning

/-- How the cycles of a run from state `t` came to their ends.  The state at a moment of the run
is `t`, replayed through the events before that moment. -/
structure Pool.Renews (pool : Pool) (t : Rotation) (p : Progress) : Prop where
  /-- A course is reset only when every recipe of it was used; the cycle number rises by one. -/
  reset : ∀ before c old new size after, p.journal = before ++ .cycleReset c old new size :: after →
    pool.Exhausted (replay t before) c ∧ old = t.cycle + resetCount before ∧ new = old + 1
  /-- Where a slot is reached with every recipe of its course used, the course is reset next. -/
  slot : ∀ before c date after, p.journal = before ++ .slotReached c date :: after →
    pool.forCourse c ≠ [] → pool.Exhausted (replay t before) c → BeginsWithReset c after
  /-- Where a side dish is sought beside a main course that some suit, with every side dish used,
  the side dishes are reset next. -/
  side : ∀ before id date after main, p.journal = before ++ .sideSought id date :: after →
    pool.get? id = some main → pool.sidesFor main ≠ [] → pool.Exhausted (replay t before) .side →
      BeginsWithReset .side after
  /-- A recipe is chosen only where a slot of its course was reached or, for a side dish, one was
  sought, with nothing but resets of the course in between. -/
  choice : ∀ before c id after, p.journal = before ++ .recipeTaken c id :: after →
    ∃ earlier e resets, before = earlier ++ e :: resets ∧ e.seeks none = some c ∧
      ∀ e' ∈ resets, e'.resets c = true
  /-- Nothing but the events of the journal changes what is marked as used. -/
  marks : p.rotation.used = (replay t p.journal).used
  /-- Nothing but the resets of the journal changes the cycle number. -/
  cycle : p.rotation.cycle = t.cycle + resetCount p.journal

/-- A run that follows the laws of its pool renews the cycles as it should. -/
theorem Pool.Trace.renews {pool : Pool} {a b : Progress} {events : List Event}
    (h : pool.Trace a b events) (hpaced : Paced none events) (ha : a.journal = []) :
    pool.Renews a.rotation b := by
  have hjournal : b.journal = events := h.journal_eq ha
  have hat : ∀ before e after, b.journal = before ++ e :: after →
      pool.Allows (replay a.rotation before) e after := by
    intro before e after hsplit
    have hlawful := h.lawful
    rw [← hjournal, hsplit] at hlawful
    exact hlawful.at
  constructor
  · intro before c old new size after hsplit
    obtain ⟨hex, hold, hnew⟩ := hat before _ after hsplit
    rw [cycle_replay] at hold hnew
    exact ⟨hex, hold, by rw [hnew, hold]⟩
  · intro before c date after hsplit
    exact hat before _ after hsplit
  · intro before id date after main hsplit
    exact hat before _ after hsplit main
  · intro before c id after hsplit
    rw [hjournal] at hsplit
    rw [hsplit] at hpaced
    exact hpaced.at_taking.resolve_right fun hsought => by simp at hsought
  · rw [hjournal]
    exact h.use.used
  · rw [hjournal, h.use.cycle, cycle_replay]

theorem Rotation.giveBack_cycle (t : Rotation) (released : List String) (r : Recipe) :
    (t.giveBack released r).cycle = t.cycle := by
  unfold giveBack release discountServing
  grind

/-- An outcome is what a run came to, and a plan that comes of it has the state at its end. -/
structure Outcome.IsOf (o : Outcome Plan) (run : Except PlanError Plan × Progress) : Prop where
  result : o.result = run.1
  journal : o.journal = run.2.journal
  rotation : ∀ plan, run.1 = .ok plan → plan.rotation = run.2.rotation

namespace Request

variable {q : Request} {plan : Plan} {targets : List Nat} {t : Rotation} {p : Progress}

/-- Giving assignments back leaves the cycle number alone. -/
theorem givenBack_cycle (h : q.givenBack plan targets = .ok t) : t.cycle = plan.rotation.cycle :=
  keeps_of_release (P := fun s => s.cycle = plan.rotation.cycle)
    (fun s r hs => (s.giveBack_cycle _ r).trans hs) h rfl

/-- Every run of generating a plan, and of planning one week or all weeks from one on anew, renews
the cycles as it should, up to its end or to the slot where it fails.  Weeks are planned anew from
the state in which they are given back, with the same cycle number. -/
theorem renews_in_every_run (q : Request) :
    (∀ given weekCount start,
      (q.generate given weekCount start).IsOf (q.generation given weekCount start) ∧
      q.pool.Renews (given.getD .fresh) (q.generation given weekCount start).2) ∧
    (∀ plan index, 0 ≤ index ∧ index < plan.weeks.length →
      (q.regenerateWeek plan index).IsOf (q.regeneration plan [index.toNat]) ∧
      (q.regenerateFrom plan index).IsOf
        (q.regeneration plan ((List.range plan.weeks.length).drop index.toNat))) ∧
    (∀ plan targets, ∃ t, t.cycle = plan.rotation.cycle ∧
      (q.givenBack plan targets = .ok t ∨
        (t = plan.rotation ∧ ∀ e ∈ (q.regeneration plan targets).2.journal, e.isRemark = true)) ∧
      q.pool.Renews t (q.regeneration plan targets).2) := by
  refine ⟨fun given weekCount start => ⟨⟨rfl, rfl, fun plan h => ?_⟩, ?_⟩,
    fun plan index hindex => ⟨?_, ?_⟩, fun plan targets => ?_⟩
  · exact rotation_of_generation (Prod.ext h rfl)
  · obtain ⟨events, htrace, hpaced, -⟩ :=
      q.generateSteps_follows (q.start (given.getD .fresh)) weekCount start
    exact htrace.renews hpaced rfl
  · unfold regenerateWeek regenerate
    rw [if_pos hindex]
    exact ⟨rfl, rfl, fun plan' h => rotation_of_regeneration (Prod.ext h rfl)⟩
  · unfold regenerateFrom regenerate
    rw [if_pos hindex]
    exact ⟨rfl, rfl, fun plan' h => rotation_of_regeneration (Prod.ext h rfl)⟩
  · obtain ⟨t, events, hstart, htrace, hpaced⟩ := q.regeneration_trace plan targets
    have hjournal : (q.regeneration plan targets).2.journal = events := htrace.journal_eq rfl
    refine ⟨t, ?_, ?_, htrace.renews hpaced rfl⟩
    · rcases hstart with hback | ⟨rfl, -⟩
      · exact givenBack_cycle hback
      · rfl
    · rw [hjournal]
      exact hstart

/-- A week of three main courses, planned anew: its seven slots begin two cycles the first time,
and two more the second time. -/
theorem renews_in_every_run_three :
    let q := ofRecipes [.plain .main "a", .plain .main "b", .plain .main "c"]
    ∃ plan, (q.generate none (some 1) (.ok Date.first)).result = .ok plan ∧
      ((0 : Int) ≤ 0 ∧ (0 : Int) < plan.weeks.length) ∧
      (q.regenerateWeek plan 0).IsOf (q.regeneration plan [0]) ∧
      (∃ t, t.cycle = plan.rotation.cycle ∧ q.pool.Renews t (q.regeneration plan [0]).2) ∧
      plan.rotation.cycle = 3 ∧ (q.regeneration plan [0]).2.rotation.cycle = 5 := by
  intro q
  have hrun : ((q.generate none (some 1) (.ok Date.first)).result.toOption.any fun plan =>
      plan.weeks.length = 1 ∧ plan.rotation.cycle = 3 ∧
        (q.regeneration plan [0]).2.rotation.cycle = 5) = true := by
    decide +kernel
  obtain ⟨plan, hplan, hcycles⟩ := (Option.any_eq_true _ _).mp hrun
  obtain ⟨hlength, hcycle, hlast⟩ := of_decide_eq_true hcycles
  have hindex : (0 : Int) ≤ 0 ∧ (0 : Int) < plan.weeks.length := by
    rw [hlength]
    decide
  obtain ⟨-, hof, hregeneration⟩ := q.renews_in_every_run
  obtain ⟨t, ht, -, hrenews⟩ := hregeneration plan [0]
  exact ⟨plan, eq_ok_of_toOption hplan, hindex, (hof plan 0 hindex).1, ⟨t, ht, hrenews⟩, hcycle,
    hlast⟩

end Request

end MealRota
