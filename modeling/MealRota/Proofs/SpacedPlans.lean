import MealRota.Proofs.Edits
import MealRota.Proofs.Spacing

/-!
# MealRota.Proofs.SpacedPlans

Complex recipes in plans of which weeks are planned anew.  The planner is told how
complex the assignment before a week is, which is looked up in the plan.  It knows
nothing of what was assigned before the plan, nor of what comes after the week.

* `Request.spacedAfter_of_regenerateFrom` — weeks planned anew up to the end of a plan;
* `Request.spaced_of_regenerateWeek` — a single week, and where it meets the next one;
* `Request.spaced_from_any_week`, `Request.spaced_iff_of_regenerateWeek` — the tasks, for plans as
  they were generated.
-/

namespace MealRota

open Planning

theorem take_succ_set {α : Type} {l : List α} {i : Nat} (hi : i < l.length) (a : α) :
    (l.set i a).take (i + 1) = l.take i ++ [a] := by
  rw [List.take_succ_eq_append_getElem (by rwa [List.length_set]),
    List.take_set_of_le (Nat.le_refl i), List.getElem_set_self]

namespace Request

variable {q : Request} {plan plan' : Plan} {x : Option Float} {index : Int} {i k n : Nat}
  {draft draft' : Regeneration} {m m' : Progress}

/-! ## where weeks end and begin -/

/-- Where every week has an assignment, the one before a week is the last one of all weeks before
it. -/
theorem lastBefore_eq {weeks : List Week} {i : Nat} (hfilled : ∀ w ∈ weeks, w.assignments ≠ [])
    (hi : i ≤ weeks.length) :
    lastBefore weeks i = ((weeks.take i).flatMap (·.assignments)).getLast? := by
  cases i with
  | zero => simp [lastBefore]
  | succ i =>
      have hne : weeks[i].assignments ≠ [] := hfilled _ (List.getElem_mem _)
      have hlast : lastBefore weeks (i + 1) = weeks[i].assignments.getLast? := by
        simp [lastBefore, List.getElem?_eq_getElem hi]
      rw [hlast, List.take_succ_eq_append_getElem hi, List.flatMap_append, List.flatMap_singleton,
        List.getLast?_append_of_ne_nil _ hne]

/-- Where every week has an assignment, the first one of some weeks is that of their first week. -/
theorem head?_assignments {weeks : List Week} (hfilled : ∀ w ∈ weeks, w.assignments ≠ []) :
    (weeks.flatMap (·.assignments)).head? = weeks.head?.bind fun w => w.assignments.head? := by
  cases weeks with
  | nil => rfl
  | cons w rest =>
      rw [List.flatMap_cons, List.head?_append_of_ne_nil _ (hfilled w List.mem_cons_self)]
      rfl

/-! ## parts of a plan -/

/-- The assignments of a plan are those of its first weeks and those of the others. -/
theorem assignments_split (plan : Plan) (i : Nat) :
    plan.assignments = (plan.weeks.take i).flatMap (·.assignments) ++
      (plan.weeks.drop i).flatMap (·.assignments) := by
  rw [← List.flatMap_append, List.take_append_drop]
  rfl

theorem Spaced.take (hs : q.Spaced plan.assignments) (i : Nat) :
    q.Spaced ((plan.weeks.take i).flatMap (·.assignments)) := by
  unfold Spaced at hs
  rw [assignments_split plan i] at hs
  exact hs.left_of_append

theorem Spaced.drop (hs : q.Spaced plan.assignments) (i : Nat) :
    q.Spaced ((plan.weeks.drop i).flatMap (·.assignments)) := by
  unfold Spaced at hs
  rw [assignments_split plan i] at hs
  exact hs.right_of_append

/-- Every week of a generated plan has an assignment. -/
theorem filled_of_generate {given : Option Rotation} {weekCount : Option Int}
    {start : Except PlanError Date} (h : (q.generate given weekCount start).result = .ok plan) :
    ∀ w ∈ plan.weeks, w.assignments ≠ [] := by
  obtain ⟨m, m', -, -, -, hturn, -⟩ := weeks_of_generate h
  intro w hw
  obtain ⟨p, p', hplans⟩ := hturn.of_mem hw
  exact hplans.accounted.1

section

variable (hids : (q.recipes.map (·.id)).Nodup)
  (havoid : q.rules.preferences.avoidConsecutiveComplex = true)

include hids havoid

/-! ## weeks planned anew -/

/-- A week planned anew goes on from the weeks before it.  Before the first week comes nothing, as
far as the planner knows. -/
theorem spacedAfter_of_replanWeek (hi : i < draft.weeks.length)
    (hfilled : ∀ w ∈ draft.weeks, w.assignments ≠ []) (hx : i = 0 → isComplex x = false)
    (hs : q.SpacedAfter x ((draft.weeks.take i).flatMap (·.assignments)))
    (h : run (q.replanWeek draft i) m = (.ok draft', m')) :
    ∃ w, draft'.weeks = draft.weeks.set i w ∧ w.assignments ≠ [] ∧
      q.SpacedAfter x ((draft'.weeks.take (i + 1)).flatMap (·.assignments)) := by
  obtain ⟨y, looked, hy, hlooked, ⟨hnone, -, -⟩ | ⟨old, w, -, hset, -, -, hplans⟩⟩ :=
    replanWeek_steps h
  · rw [List.getElem?_eq_getElem hi] at hnone
    contradiction
  · refine ⟨w, hset, hplans.accounted.1, ?_⟩
    have hweek : q.SpacedAfter y w.assignments := by
      have hpaces := (paces_of_planWeek hids havoid hplans).spaced
      rwa [hlooked] at hpaces
    have hlast : isComplex y =
        ((draft.weeks.take i).flatMap (·.assignments)).getLast?.elim (isComplex x)
          q.servesComplex := by
      rw [isComplex_of_complexityOf hy, lastBefore_eq hfilled (Nat.le_of_lt hi)]
      -- what precedes the first week is not looked up, so it must not have been complex
      cases i with
      | zero => exact (hx rfl).symm
      | succ j =>
          have hne : (draft.weeks.take (j + 1)).flatMap (·.assignments) ≠ [] := by
            rw [List.take_succ_eq_append_getElem (Nat.lt_of_succ_lt hi), List.flatMap_append,
              List.flatMap_singleton]
            exact List.append_ne_nil_of_right_ne_nil _ (hfilled _ (List.getElem_mem _))
          rw [List.getLast?_eq_some_getLast hne]
          rfl
    rw [hset, take_succ_set hi, List.flatMap_append, List.flatMap_singleton]
    exact hs.append hweek hlast

/-- Weeks planned anew, one after the other up to the last, go on from the weeks before them. -/
theorem spacedAfter_of_replanWeeks (hlength : draft.weeks.length = k + n)
    (hfilled : ∀ w ∈ draft.weeks, w.assignments ≠ []) (hx : k = 0 → isComplex x = false)
    (hs : q.SpacedAfter x ((draft.weeks.take k).flatMap (·.assignments)))
    (h : run ((List.range' k n).foldlM q.replanWeek draft) m = (.ok draft', m')) :
    q.SpacedAfter x (draft'.weeks.flatMap (·.assignments)) := by
  induction n generalizing k draft m with
  | zero =>
      rw [← Except.ok.inj (Prod.mk.inj h).1]
      rwa [List.take_of_length_le (by omega)] at hs
  | succ n ih =>
      rw [List.range'_succ, List.foldlM_cons] at h
      obtain ⟨next, p, hweek, hrest⟩ := run_bind_ok.mp h
      obtain ⟨w, hset, hw, hs'⟩ :=
        spacedAfter_of_replanWeek hids havoid (by omega) hfilled hx hs hweek
      refine ih ?_ ?_ (by omega) hs' hrest
      · rw [hset, List.length_set, hlength]
        omega
      · intro v hv
        rw [hset] at hv
        cases List.mem_or_eq_of_mem_set hv with
        | inl hv => exact hfilled v hv
        | inr hv => rwa [hv]

/-- The weeks of a plan from one on, planned anew, go on from the weeks that are kept. -/
theorem spacedAfter_of_regenerateFrom (hfilled : ∀ w ∈ plan.weeks, w.assignments ≠ [])
    (hx : index = 0 → isComplex x = false)
    (hs : q.SpacedAfter x ((plan.weeks.take index.toNat).flatMap (·.assignments)))
    (h : (q.regenerateFrom plan index).result = .ok plan') :
    q.SpacedAfter x plan'.assignments := by
  obtain ⟨hindex, hrun, -⟩ := regenerate_ok h
  obtain ⟨t, m, -, -, -, hsteps⟩ := replanFrom_of_regeneration hrun
  obtain ⟨draft, m', hdraft, hweeks, -⟩ := replanFrom_steps hsteps
  have htargets : (List.range plan.weeks.length).drop index.toNat =
      List.range' index.toNat (plan.weeks.length - index.toNat) := by
    rw [List.range_eq_range', List.drop_range', Nat.zero_add, Nat.mul_one]
  rw [htargets] at hdraft
  have hlength : plan.weeks.length = index.toNat + (plan.weeks.length - index.toNat) := by omega
  have hall := spacedAfter_of_replanWeeks hids havoid hlength hfilled
    (fun hfirst => hx (by omega)) hs hdraft
  rw [← hweeks] at hall
  exact hall

/-- A single week planned anew goes on from the weeks before it, and the weeks after it stay as they
are: complex recipes can only meet where the week ends. -/
theorem spaced_of_regenerateWeek (hfilled : ∀ w ∈ plan.weeks, w.assignments ≠ [])
    (hs : q.Spaced plan.assignments) (h : (q.regenerateWeek plan index).result = .ok plan') :
    ∃ w, plan'.weeks = plan.weeks.set index.toNat w ∧ w.assignments ≠ [] ∧
      q.Spaced ((plan'.weeks.take (index.toNat + 1)).flatMap (·.assignments)) ∧
      q.Spaced ((plan'.weeks.drop (index.toNat + 1)).flatMap (·.assignments)) := by
  obtain ⟨hindex, hrun, -⟩ := regenerate_ok h
  obtain ⟨t, m, -, -, -, hsteps⟩ := replanFrom_of_regeneration hrun
  obtain ⟨draft, m', hdraft, hweeks, -⟩ := replanFrom_steps hsteps
  rw [List.foldlM_cons] at hdraft
  obtain ⟨next, m₁, hweek, hnext⟩ := run_bind_ok.mp hdraft
  rw [← Except.ok.inj (Prod.mk.inj hnext).1] at hweeks
  have hin : index.toNat < plan.weeks.length := by omega
  obtain ⟨w, hset, hw, hfirst⟩ := spacedAfter_of_replanWeek hids havoid (x := none) hin hfilled
    (fun _ => rfl) (spacedAfter_none.mpr (hs.take index.toNat)) hweek
  rw [← hweeks] at hset hfirst
  have hlater : plan'.weeks.drop (index.toNat + 1) = plan.weeks.drop (index.toNat + 1) := by
    rw [hset]
    exact List.drop_set_of_lt (Nat.lt_succ_self _)
  refine ⟨w, hset, hw, hfirst.spaced, ?_⟩
  rw [hlater]
  exact hs.drop (index.toNat + 1)

end

/-! ## plans as they were generated -/

/-- Recipes of which no two share an id are planned with complex ones apart, if they are to be.  In a
generated plan no complex recipe follows another one, nor does one stand at the beginning if the last
assignment in the given state was complex.  Both stay so when the weeks from a later one on are
planned anew, as far as they are so in the weeks that are kept.  When all weeks are planned anew, no
complex recipe follows another one. -/
theorem spaced_from_any_week {q : Request} (hids : (q.recipes.map (·.id)).Nodup)
    (havoid : q.rules.preferences.avoidConsecutiveComplex = true) :
    (∀ given weekCount start plan, (q.generate given weekCount start).result = .ok plan →
      q.SpacedAfter (given.getD .fresh).lastComplexity plan.assignments) ∧
    ∀ (g : Request) given weekCount start plan index plan',
      (g.generate given weekCount start).result = .ok plan →
      (q.regenerateFrom plan index).result = .ok plan' →
        (q.Spaced ((plan.weeks.take index.toNat).flatMap (·.assignments)) →
          q.Spaced plan'.assignments) ∧
        (1 ≤ index →
          q.SpacedAfter (given.getD .fresh).lastComplexity
            ((plan.weeks.take index.toNat).flatMap (·.assignments)) →
          q.SpacedAfter (given.getD .fresh).lastComplexity plan'.assignments) := by
  refine ⟨fun given weekCount start plan h => spacedAfter_of_generate hids havoid h,
    fun g given weekCount start plan index plan' hplan h => ⟨fun hs => ?_, fun hindex hs => ?_⟩⟩
  · have hfilled := filled_of_generate hplan
    exact (spacedAfter_of_regenerateFrom hids havoid hfilled (fun _ => rfl)
      (spacedAfter_none.mpr hs) h).spaced
  · have hfilled := filled_of_generate hplan
    exact spacedAfter_of_regenerateFrom hids havoid hfilled (by omega) hs h

/-- Two main courses, of which one is complex. -/
def complexAndPlain : Request :=
  ofRecipes [{ Recipe.plain .main "a" with complexity := some 100 }, .plain .main "b"]

/-- The state in which nothing was planned but something complex. -/
def afterComplex : Rotation := { Rotation.fresh with lastComplexity := some 100 }

/-- Two weeks of two main courses that take turns.  The plain one begins, since something complex came
before; the second week, which begins with the complex one, is planned anew. -/
theorem spaced_from_any_week_two :
    let q := complexAndPlain
    (q.recipes.map (·.id)).Nodup ∧ q.rules.preferences.avoidConsecutiveComplex = true ∧
      ∃ plan plan',
        (q.generate (some afterComplex) (some 2) (.ok autumnMonday)).result = .ok plan ∧
        q.SpacedAfter afterComplex.lastComplexity plan.assignments ∧
        (q.regenerateFrom plan 1).result = .ok plan' ∧
        q.SpacedAfter afterComplex.lastComplexity plan'.assignments ∧
        plan'.assignments.map (·.recipeId) =
          ["b", "a", "b", "a", "b", "a", "b", "a", "b", "a", "b", "a", "b", "a"] := by
  intro q
  have hids : (q.recipes.map (·.id)).Nodup := by decide +kernel
  have hrun : ((q.generate (some afterComplex) (some 2) (.ok autumnMonday)).result.toOption.any
      fun plan => (q.regenerateFrom plan 1).result.toOption.any fun plan' =>
        plan'.assignments.map (·.recipeId) =
          ["b", "a", "b", "a", "b", "a", "b", "a", "b", "a", "b", "a", "b", "a"]) = true := by
    decide +kernel
  obtain ⟨plan, hplan, hrun⟩ := (Option.any_eq_true _ _).mp hrun
  obtain ⟨plan', hplan', hturns⟩ := (Option.any_eq_true _ _).mp hrun
  have hok := eq_ok_of_toOption hplan
  have hok' := eq_ok_of_toOption hplan'
  obtain ⟨hgenerated, hanew⟩ := spaced_from_any_week hids rfl
  have hs := hgenerated _ _ _ _ hok
  have hkept : q.SpacedAfter afterComplex.lastComplexity
      ((plan.weeks.take 1).flatMap (·.assignments)) := by
    refine ⟨hs.spaced.take 1, fun a ha => hs.first a ?_⟩
    rw [assignments_split plan 1, List.head?_append, Option.mem_def.mp ha]
    rfl
  exact ⟨hids, rfl, plan, plan', hok, hs, hok', (hanew q _ _ _ plan 1 plan' hok hok').2 (by decide)
    hkept, of_decide_eq_true hturns⟩

/-- When all weeks are planned anew, nothing comes before them: the complex main course begins,
although something complex was assigned before the plan was generated. -/
theorem not_spacedAfter_of_regenerateFrom :
    let q := complexAndPlain
    (q.recipes.map (·.id)).Nodup ∧ q.rules.preferences.avoidConsecutiveComplex = true ∧
      ∃ plan plan',
        (q.generate (some afterComplex) (some 1) (.ok autumnMonday)).result = .ok plan ∧
        q.SpacedAfter afterComplex.lastComplexity plan.assignments ∧
        (q.regenerateFrom plan 0).result = .ok plan' ∧
        ¬ q.SpacedAfter afterComplex.lastComplexity plan'.assignments := by
  intro q
  have hids : (q.recipes.map (·.id)).Nodup := by decide +kernel
  have hrun : ((q.generate (some afterComplex) (some 1) (.ok autumnMonday)).result.toOption.any
      fun plan => (q.regenerateFrom plan 0).result.toOption.any fun plan' =>
        plan'.assignments.head?.any q.servesComplex) = true := by
    decide +kernel
  obtain ⟨plan, hplan, hrun⟩ := (Option.any_eq_true _ _).mp hrun
  obtain ⟨plan', hplan', hrun⟩ := (Option.any_eq_true _ _).mp hrun
  obtain ⟨a, ha, hcomplex⟩ := (Option.any_eq_true _ _).mp hrun
  have hok := eq_ok_of_toOption hplan
  exact ⟨hids, rfl, plan, plan', hok, spacedAfter_of_generate hids rfl hok,
    eq_ok_of_toOption hplan', fun hs => hs.first a ha ⟨by decide +kernel, hcomplex⟩⟩

/-- In a generated plan in which no complex recipe follows another one, planning one week anew keeps
it so within the weeks up to this one and within the weeks after it.  It keeps it so in all of the
plan if and only if the week does not end with a complex recipe where the next one begins with
one. -/
theorem spaced_iff_of_regenerateWeek {q g : Request} {given : Option Rotation}
    {weekCount : Option Int} {start : Except PlanError Date} {plan plan' : Plan} {index : Int}
    (hids : (q.recipes.map (·.id)).Nodup)
    (havoid : q.rules.preferences.avoidConsecutiveComplex = true)
    (hplan : (g.generate given weekCount start).result = .ok plan)
    (hs : q.Spaced plan.assignments) (h : (q.regenerateWeek plan index).result = .ok plan') :
    q.Spaced ((plan'.weeks.take (index.toNat + 1)).flatMap (·.assignments)) ∧
    q.Spaced ((plan'.weeks.drop (index.toNat + 1)).flatMap (·.assignments)) ∧
    (q.Spaced plan'.assignments ↔
      ∀ w w', plan'.weeks[index.toNat]? = some w → plan.weeks[index.toNat + 1]? = some w' →
        ∀ a ∈ w.assignments.getLast?, ∀ b ∈ w'.assignments.head?,
          ¬ (q.servesComplex a = true ∧ q.servesComplex b = true)) := by
  have hfilled := filled_of_generate hplan
  obtain ⟨w, hset, hw, hfirst, hlater⟩ := spaced_of_regenerateWeek hids havoid hfilled hs h
  refine ⟨hfirst, hlater, ?_⟩
  have hin : index.toNat < plan.weeks.length := by
    have hindex := (regenerate_ok h).1
    omega
  have hweek : plan'.weeks[index.toNat]? = some w := by
    rw [hset]
    exact List.getElem?_set_self hin
  -- where the two parts meet, the week that was planned anew ends and the next one begins
  have hend : ((plan'.weeks.take (index.toNat + 1)).flatMap (·.assignments)).getLast? =
      w.assignments.getLast? := by
    rw [hset, take_succ_set hin, List.flatMap_append, List.flatMap_singleton,
      List.getLast?_append_of_ne_nil _ hw]
  have hbegin : ((plan'.weeks.drop (index.toNat + 1)).flatMap (·.assignments)).head? =
      plan.weeks[index.toNat + 1]?.bind fun w' => w'.assignments.head? := by
    rw [hset, List.drop_set_of_lt (Nat.lt_succ_self _),
      head?_assignments fun v hv => hfilled v (List.mem_of_mem_drop hv), List.head?_drop]
  unfold Spaced
  rw [assignments_split plan' (index.toNat + 1), List.isChain_append, hend, hbegin]
  constructor
  · rintro ⟨-, -, hmeet⟩ v w' hv hw' a ha b hb
    rw [hweek] at hv
    obtain rfl := Option.some.inj hv
    exact hmeet a ha b (by simpa [hw'] using hb)
  · intro hmeet
    refine ⟨hfirst, hlater, fun a ha b hb => ?_⟩
    obtain ⟨w', hw', hb⟩ := Option.bind_eq_some_iff.mp hb
    exact hmeet w w' hweek hw' a ha b hb

/-- Two weeks of two main courses that take turns, the complex one first.  The first week is planned
anew as it was: it ends with the complex one, and the second week begins with the plain one. -/
theorem spaced_iff_of_regenerateWeek_first :
    let q := complexAndPlain
    (q.recipes.map (·.id)).Nodup ∧ q.rules.preferences.avoidConsecutiveComplex = true ∧
      ∃ plan plan' w w' a b,
        (q.generate none (some 2) (.ok autumnMonday)).result = .ok plan ∧
        q.Spaced plan.assignments ∧ (q.regenerateWeek plan 0).result = .ok plan' ∧
        (plan'.weeks[0]? = some w ∧ w.assignments.getLast? = some a ∧ q.servesComplex a = true) ∧
        (plan.weeks[1]? = some w' ∧ w'.assignments.head? = some b ∧ q.servesComplex b = false) ∧
        q.Spaced plan'.assignments := by
  intro q
  have hids : (q.recipes.map (·.id)).Nodup := by decide +kernel
  have hrun : ((q.generate none (some 2) (.ok autumnMonday)).result.toOption.any fun plan =>
      (q.regenerateWeek plan 0).result.toOption.any fun plan' =>
        ((plan'.weeks[0]?.bind (·.assignments.getLast?)).any q.servesComplex &&
          (plan.weeks[1]?.bind (·.assignments.head?)).any fun b => !q.servesComplex b)) = true := by
    decide +kernel
  obtain ⟨plan, hplan, hrun⟩ := (Option.any_eq_true _ _).mp hrun
  obtain ⟨plan', hplan', hrun⟩ := (Option.any_eq_true _ _).mp hrun
  obtain ⟨hlast, hfirst⟩ := Bool.and_eq_true_iff.mp hrun
  obtain ⟨a, hlast, ha⟩ := (Option.any_eq_true _ _).mp hlast
  obtain ⟨w, hw, hlast⟩ := Option.bind_eq_some_iff.mp hlast
  obtain ⟨b, hfirst, hb⟩ := (Option.any_eq_true _ _).mp hfirst
  obtain ⟨w', hw', hfirst⟩ := Option.bind_eq_some_iff.mp hfirst
  have hplain : q.servesComplex b = false := (Bool.not_eq_true' _).mp hb
  have hok := eq_ok_of_toOption hplan
  have hok' := eq_ok_of_toOption hplan'
  have hs : q.Spaced plan.assignments := (spacedAfter_of_generate hids rfl hok).spaced
  obtain ⟨-, -, hspaced⟩ := spaced_iff_of_regenerateWeek hids rfl hok hs hok'
  refine ⟨hids, rfl, plan, plan', w, w', a, b, hok, hs, hok', ⟨hw, hlast, ha⟩,
    ⟨hw', hfirst, hplain⟩, hspaced.mpr fun v v' _ hv' x _ y hy hboth => ?_⟩
  obtain rfl : w' = v' := Option.some.inj (hw'.symm.trans hv')
  obtain rfl : b = y := Option.some.inj (hfirst.symm.trans hy)
  rw [hplain] at hboth
  exact Bool.false_ne_true hboth.2

/-- Two weeks of two main courses that take turns, the first of which begins with the plain one and
the second with the complex one.  Planned anew, the first week begins with the complex one and ends
with it, and so the complex main course follows itself. -/
theorem complex_follows_complex :
    let q := complexAndPlain
    (q.recipes.map (·.id)).Nodup ∧ q.rules.preferences.avoidConsecutiveComplex = true ∧
      ∃ plan plan',
        (q.generate (some afterComplex) (some 2) (.ok autumnMonday)).result = .ok plan ∧
        q.Spaced plan.assignments ∧ (q.regenerateWeek plan 0).result = .ok plan' ∧
        ¬ q.Spaced plan'.assignments := by
  intro q
  have hids : (q.recipes.map (·.id)).Nodup := by decide +kernel
  have hrun : ((q.generate (some afterComplex) (some 2) (.ok autumnMonday)).result.toOption.any
      fun plan => (q.regenerateWeek plan 0).result.toOption.any fun plan' =>
        ¬ q.Spaced plan'.assignments) = true := by
    decide +kernel
  obtain ⟨plan, hplan, hrun⟩ := (Option.any_eq_true _ _).mp hrun
  obtain ⟨plan', hplan', hmeet⟩ := (Option.any_eq_true _ _).mp hrun
  have hok := eq_ok_of_toOption hplan
  exact ⟨hids, rfl, plan, plan', hok, (spacedAfter_of_generate hids rfl hok).spaced,
    eq_ok_of_toOption hplan', of_decide_eq_true hmeet⟩

end Request

end MealRota
