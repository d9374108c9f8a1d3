import MealRota.Proofs.InStep
import MealRota.Proofs.WholePlan

/-!
# MealRota.Proofs.ConsecutiveRuns

Planning some weeks in one run or in two.  Without random numbers, filling slots
reads nothing but the rotation state; the journal is only written.  A run that takes
up the state in which another one ended goes on as that one would have done.  It
begins by checking the state and makes the pool again, and neither stops it.

* `Kitchen.planWeeks_add`, `Kitchen.planWeeks_shift` — the weeks of a run in two parts;
* `Request.weeksFrom_add` — the second part from the state that the first part left;
* `Request.generate_add` — one generation and two.
-/

namespace MealRota

open Planning

/-! ## runs without random numbers -/

/-- Being in the same state, with no source of random numbers. -/
def Likeness.unseeded : Likeness where
  rel := Eq
  source := (· = none)
  usedIds := fun h _ => by rw [h]
  servingsOf := fun h _ => by rw [h]
  last := fun h => by rw [h]
  reset := fun h _ => by rw [h]
  take := fun h _ => by rw [h]
  withComplexity := fun h _ => by rw [h]
  draw := fun h => by contradiction

namespace Kitchen

variable (k : Kitchen)

theorem alike_planWeeks {L : Likeness} (monday : Date) (offset count : Nat) :
    Alike L (k.planWeeks monday offset count) (k.planWeeks monday offset count) := by
  induction count generalizing offset with
  | zero => exact .pure []
  | succ count ih =>
      unfold planWeeks
      refine .bind (.lift _) fun start => .bind (k.alike_planWeek start [] .idle) fun week => ?_
      exact .bind (ih (offset + 1)) fun weeks => .pure _

/-! ## weeks in two parts -/

/-- The first weeks of a run are planned as if they were all, and the others after them. -/
theorem planWeeks_add (monday : Date) (offset m n : Nat) :
    k.planWeeks monday offset (m + n) = (do
      let first ← k.planWeeks monday offset m
      let second ← k.planWeeks monday (offset + m) n
      return first ++ second) := by
  induction m generalizing offset with
  | zero => simp [planWeeks]
  | succ m ih =>
      rw [Nat.succ_add]
      simp only [planWeeks, ih, bind_assoc, pure_bind, List.cons_append]
      rw [Nat.add_right_comm, Nat.add_assoc]

/-- Counting the weeks from a later Monday. -/
theorem planWeeks_shift {monday next : Date} {m : Nat}
    (h : monday.addDays? (daysPerWeek * m) = some next) (offset n : Nat) :
    k.planWeeks monday (m + offset) n = k.planWeeks next offset n := by
  have hordinal := Date.addDays?_eq_some_iff.mp h
  have hafter : ∀ offset, dateAfter monday (daysPerWeek * (m + offset)) =
      dateAfter next (daysPerWeek * offset) := by
    intro offset
    unfold dateAfter Date.addDays?
    rw [hordinal, Nat.mul_add, Nat.add_assoc]
  induction n generalizing offset with
  | zero => rfl
  | succ n ih =>
      simp only [planWeeks, hafter]
      rw [Nat.add_assoc, ih]

end Kitchen

namespace Request

variable {q : Request} {given : Option Rotation} {t : Rotation} {m n : Nat} {monday next : Date}
  {p : Progress}

/-- The weeks that a run without random numbers plans from a state, with the state in which it
ends. -/
def weeksFrom (q : Request) (t : Rotation) (monday : Date) (count : Nat) : Except PlanError Plan :=
  let out := run (q.kitchen.planWeeks monday 0 count) ⟨t, none, []⟩
  out.1.map (⟨·, out.2.rotation⟩)

/-- Weeks are planned in the same way whatever the journal says. -/
theorem weeksFrom_of_run (q : Request) (monday : Date) (n : Nat) (hsource : p.source = none) :
    (run (q.kitchen.planWeeks monday 0 n) p).1.map
        (⟨·, (run (q.kitchen.planWeeks monday 0 n) p).2.rotation⟩) =
      q.weeksFrom p.rotation monday n ∧
    (run (q.kitchen.planWeeks monday 0 n) p).2.source = none := by
  obtain ⟨hresult, hlike⟩ := q.kitchen.alike_planWeeks (L := .unseeded) monday 0 n p
    ⟨p.rotation, none, []⟩ ⟨rfl, hsource, hsource⟩
  have hrotation : (run (q.kitchen.planWeeks monday 0 n) p).2.rotation = _ := hlike.rotation
  refine ⟨?_, hlike.drawn⟩
  unfold weeksFrom
  rw [hresult, hrotation]

/-- More weeks are planned from the state that the first of them left. -/
theorem weeksFrom_add (h : monday.addDays? (daysPerWeek * m) = some next) :
    q.weeksFrom t monday (m + n) = (do
      let first ← q.weeksFrom t monday m
      let second ← q.weeksFrom first.rotation next n
      return ⟨first.weeks ++ second.weeks, second.rotation⟩) := by
  obtain ⟨-, hsource⟩ := weeksFrom_of_run (p := ⟨t, none, []⟩) q monday m rfl
  have hshift : q.kitchen.planWeeks monday m n = q.kitchen.planWeeks next 0 n :=
    q.kitchen.planWeeks_shift h 0 n
  rw [weeksFrom, weeksFrom, q.kitchen.planWeeks_add, Nat.zero_add, hshift, run_bind]
  revert hsource
  cases run (q.kitchen.planWeeks monday 0 m) ⟨t, none, []⟩ with
  | mk result p =>
      intro hsource
      cases result with
      | error e => rfl
      | ok first =>
          have hsecond : _ = q.weeksFrom p.rotation next n := (weeksFrom_of_run q next n hsource).1
          simp only [run_bind_pure]
          show _ = (q.weeksFrom p.rotation next n).bind fun second =>
            (.ok ⟨first ++ second.weeks, second.rotation⟩ : Except PlanError Plan)
          rw [← hsecond]
          cases (run (q.kitchen.planWeeks next 0 n) p).1 <;> rfl

/-- The plan of a generation is made of its weeks and the state after them. -/
theorem result_of_generateSteps (weekCount : Option Int) (start : Except PlanError Date) :
    (run (q.generateSteps weekCount start) p).1 =
      (run (q.generateWeeks weekCount start) p).1.map
        (⟨·, (run (q.generateWeeks weekCount start) p).2.rotation⟩) := by
  unfold generateSteps
  rw [run_bind, run_reporting]
  cases run (q.generateWeeks weekCount start) p with
  | mk result m => cases result <;> rfl

/-- A generation that is not refused plans its weeks from the state that is given. -/
theorem run_generateWeeks (monday : Date) {weekCount : Option Int} {count : Int}
    (hcheck : p.rotation.check q.recipes = .ok ()) (hmains : q.pool.count .main ≠ 0)
    (hcount : weeksToPlan (q.pool.count .main) weekCount = .ok count) :
    ∃ p', p'.rotation = p.rotation ∧ p'.source = p.source ∧
      run (q.generateWeeks weekCount (.ok monday)) p =
        run (q.kitchen.planWeeks monday 0 count.toNat) p' := by
  unfold generateWeeks
  rw [run_bind_of_ok (run_checkRotation_ok hcheck), run_bind_of_ok (q.run_recordPool p)]
  simp only [if_neg hmains]
  rw [hcount, run_bind_of_ok (run_lift _ _), run_bind_of_ok (run_lift _ _),
    run_bind_of_ok (run_rotation _), run_bind_of_ok (run_record _ _)]
  refine ⟨_, ?_, ?_, rfl⟩ <;> rfl

/-- A generation without random numbers plans its weeks from the state that is given, if the state
fits the recipes and there are main courses to plan with. -/
theorem result_of_generate (given : Option Rotation) (monday : Date) (hseed : q.seed = none)
    (hpos : 1 ≤ n) (hle : n ≤ 5) :
    (q.generate given (some n) (.ok monday)).result = (do
      (given.getD .fresh).check q.recipes
      if q.pool.count .main = 0 then .error (.insufficientRecipes 1 0)
      else q.weeksFrom (given.getD .fresh) monday n) := by
  show (run (q.generateSteps (some n) (.ok monday)) (q.start (given.getD .fresh))).1 = _
  rw [result_of_generateSteps]
  cases hcheck : (given.getD .fresh).check q.recipes with
  | error e =>
      have hrefused : run q.checkRotation (q.start (given.getD .fresh)) =
          (.error e, q.start (given.getD .fresh)) := congrArg (·, _) hcheck
      unfold generateWeeks
      rw [run_bind_of_error hrefused]
      rfl
  | ok _ =>
      by_cases hmains : q.pool.count .main = 0
      · unfold generateWeeks
        rw [run_bind_of_ok (run_checkRotation_ok hcheck), run_bind_of_ok (q.run_recordPool _)]
        simp only [if_pos hmains]
        rfl
      · have hcount : weeksToPlan (q.pool.count .main) (some n) = .ok (n : Int) := by
          have hbetween : minWeeks ≤ (n : Int) ∧ (n : Int) ≤ maxWeeks := by
            simp only [minWeeks, maxWeeks]
            omega
          simp only [weeksToPlan, if_pos hbetween]
        have hunseeded : (q.start (given.getD .fresh)).source = none := by simp [start, hseed]
        obtain ⟨p, hp, hsource, hrun⟩ := run_generateWeeks
          (p := q.start (given.getD .fresh)) monday hcheck hmains hcount
        have hweeks := (weeksFrom_of_run q monday n (hsource.trans hunseeded)).1
        rw [hp] at hweeks
        rw [hrun]
        simp only [if_neg hmains]
        exact hweeks

/-- Without random numbers, from recipes of which no two share an id, generating `m + n` weeks comes
to the same as generating `m` weeks and then, `m` weeks later and from the state they leave, `n`
more: the same weeks and the same state in the end, or the same failure.  The state that the first
weeks leave is always accepted. -/
theorem generate_add {q : Request} {given : Option Rotation} {monday next : Date} {m n : Nat}
    (hseed : q.seed = none) (hids : (q.recipes.map (·.id)).Nodup) (hm : 1 ≤ m) (hn : 1 ≤ n)
    (hle : m + n ≤ 5) (hnext : monday.addDays? (daysPerWeek * m) = some next) :
    (q.generate given (some (m + n : Nat)) (.ok monday)).result = (do
      let first ← (q.generate given (some m) (.ok monday)).result
      let second ← (q.generate (some first.rotation) (some n) (.ok next)).result
      return ⟨first.weeks ++ second.weeks, second.rotation⟩) ∧
    ∀ first, (q.generate given (some m) (.ok monday)).result = .ok first →
      first.rotation.check q.recipes = .ok () := by
  have hcheck : ∀ first, (q.generate given (some m) (.ok monday)).result = .ok first →
      first.rotation.check q.recipes = .ok () := fun first => check_of_generate hids
  refine ⟨?_, hcheck⟩
  have hfirst := result_of_generate given monday hseed hm (by omega)
  have hsecond : ∀ t, (q.generate (some t) (some n) (.ok next)).result = _ := fun t =>
    result_of_generate (some t) next hseed hn (by omega)
  rw [result_of_generate given monday hseed (by omega) hle, weeksFrom_add hnext]
  simp only [hsecond]
  rw [hfirst] at hcheck ⊢
  cases hgiven : (given.getD .fresh).check q.recipes with
  | error e => rfl
  | ok _ =>
      by_cases hmains : q.pool.count .main = 0
      · simp only [if_pos hmains]
        rfl
      · rw [hgiven] at hcheck
        simp only [if_neg hmains] at hcheck ⊢
        cases hweeks : q.weeksFrom (given.getD .fresh) monday m with
        | error e => rfl
        | ok first =>
            have hfits : first.rotation.check q.recipes = .ok () := hcheck first hweeks
            show _ = (do
              first.rotation.check q.recipes
              q.weeksFrom first.rotation next n).bind _
            rw [hfits]
            rfl

/-- The Monday after the first one. -/
def secondMonday : Date := ⟨8, by decide, by decide⟩

/-- Three main courses are planned for a week and then for another: the second run begins in the
third cycle and ends in the fifth, as a run of two weeks does. -/
theorem generate_add_three :
    let q := ofRecipes [.plain .main "a", .plain .main "b", .plain .main "c"]
    q.seed = none ∧ (q.recipes.map (·.id)).Nodup ∧
      Date.first.addDays? (daysPerWeek * 1) = some secondMonday ∧
      ∃ plan first second,
        (q.generate none (some (1 + 1 : Nat)) (.ok Date.first)).result = .ok plan ∧
        (q.generate none (some (1 : Nat)) (.ok Date.first)).result = .ok first ∧
        (q.generate (some first.rotation) (some (1 : Nat)) (.ok secondMonday)).result =
          .ok second ∧
        plan.weeks = first.weeks ++ second.weeks ∧ plan.rotation = second.rotation ∧
        first.rotation.cycle = 3 ∧ second.rotation.cycle = 5 := by
  intro q
  have hids : (q.recipes.map (·.id)).Nodup := by decide +kernel
  have hnext : Date.first.addDays? (daysPerWeek * 1) = some secondMonday := by decide +kernel
  have hrun : ((q.generate none (some (1 : Nat)) (.ok Date.first)).result.toOption.any fun first =>
      decide (first.rotation.cycle = 3) &&
      (q.generate (some first.rotation) (some (1 : Nat)) (.ok secondMonday)).result.toOption.any
        fun second => second.rotation.cycle = 5) = true := by
    decide +kernel
  obtain ⟨first, hfirst, hrun⟩ := (Option.any_eq_true _ _).mp hrun
  obtain ⟨hthree, hrun⟩ := Bool.and_eq_true_iff.mp hrun
  obtain ⟨second, hsecond, hfive⟩ := (Option.any_eq_true _ _).mp hrun
  have hfirst := eq_ok_of_toOption hfirst
  have hsecond := eq_ok_of_toOption hsecond
  have hplan : (q.generate none (some (1 + 1 : Nat)) (.ok Date.first)).result = _ :=
    (generate_add rfl hids (by decide) (by decide) (by decide) hnext).1
  rw [hfirst] at hplan
  simp only [bind, Except.bind, hsecond] at hplan
  exact ⟨rfl, hids, hnext, _, first, second, hplan, hfirst, hsecond, rfl, rfl,
    of_decide_eq_true hthree, of_decide_eq_true hfive⟩

end Request

end MealRota
