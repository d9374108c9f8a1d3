import MealRota.Proofs.SlotResets

/-!
# MealRota.Proofs.SidePairing

What pairing a main course with a side dish does, in terms of the state in which it begins: when
the side dishes begin a new cycle, when use is disregarded, which side dishes pass, and when
there is none.

* `Kitchen.RenewsSides`, `Kitchen.RepeatsSides` — the two ways of running out of side dishes;
* `Kitchen.sideState`, `Kitchen.sideMeasure` — the state and the constraints of the choice;
* `Kitchen.pairing_of_assign` — the pairing when a slot is filled with a main course.
-/

namespace MealRota

open Progress

namespace Kitchen

variable (k : Kitchen) (main : Recipe) (t : Rotation)

/-- Some side dish suits the main course, and every side dish of the pool was used. -/
def RenewsSides : Prop := k.pool.sidesFor main ≠ [] ∧ k.pool.Exhausted t .side

/-- Every side dish that suits the main course was used, while some other one was not. -/
def RepeatsSides : Prop :=
  (∀ r ∈ k.pool.sidesFor main, t.isUsed .side r.id = true) ∧
    ∃ r ∈ k.pool.forCourse .side, t.isUsed .side r.id = false

instance : Decidable (k.RenewsSides main t) := inferInstanceAs (Decidable (_ ∧ _))

instance : Decidable (k.RepeatsSides main t) := inferInstanceAs (Decidable (_ ∧ _))

/-- The state in which a side dish is chosen for a main course. -/
def sideState : Rotation := if k.RenewsSides main t then t.reset .side else t

/-- The constraints on a side dish for a main course of known complexity: that complexity comes
before it, and use counts unless side dishes repeat. -/
def sideMeasure (slot : SlotContext) (x : Float) : Scorer where
  rules := k.rules
  slot := { slot with preceding := some x }
  rotation := k.sideState main t
  checksRotation := !decide (k.RepeatsSides main t)

/-! ## the moment of the choice -/

variable {k main t} {slot : SlotContext} {x : Float} {p q : Progress}

theorem sideMoment_of_renews (h : k.RenewsSides main p.rotation) : k.sideMoment slot main p =
    (p.note (.sideSought main.id slot.date)).begun .side (k.pool.forCourse .side).length :=
  if_pos h.2

theorem sideMoment_of_not_renews (hne : k.pool.sidesFor main ≠ [])
    (h : ¬ k.RenewsSides main p.rotation) :
    k.sideMoment slot main p = p.note (.sideSought main.id slot.date) :=
  if_neg fun hex => h ⟨hne, hex⟩

theorem sideMoment_rotation (hne : k.pool.sidesFor main ≠ []) :
    (k.sideMoment slot main p).rotation = k.sideState main p.rotation := by
  unfold sideState
  split
  · next h => rw [sideMoment_of_renews h, begun_rotation, Progress.note_rotation]
  · next h => rw [sideMoment_of_not_renews hne h, Progress.note_rotation]

theorem resetsOf_sideMoment (slot : SlotContext) (hne : k.pool.sidesFor main ≠ []) :
    resetsOf .side (k.sideMoment slot main p).journal =
      resetsOf .side p.journal + if k.RenewsSides main p.rotation then 1 else 0 := by
  split
  · next h =>
      rw [sideMoment_of_renews h]
      simp [resetsOf, Event.resets]
  · next h =>
      rw [sideMoment_of_not_renews hne h]
      simp [resetsOf, Event.resets]

/-- Use counts unless side dishes repeat. -/
theorem sidesChecked_eq : k.sidesChecked main t = !decide (k.RepeatsSides main t) := by
  rw [Bool.eq_iff_iff, Bool.not_eq_true', decide_eq_false_iff_not]
  refine decide_eq_true_iff.trans ⟨?_, fun hno => ?_⟩
  · rintro (hex | ⟨r, hr, hused⟩) ⟨hall, s, hs, hnot⟩
    · rw [hex s hs] at hnot
      contradiction
    · rw [hall r hr] at hused
      contradiction
  · by_contra hneither
    rw [not_or] at hneither
    refine hno ⟨fun r hr => ?_, by simpa [and_assoc] using hneither.1⟩
    by_contra hused
    exact hneither.2 ⟨r, hr, Bool.eq_false_iff.mpr hused⟩

theorem sideScorer_eq (hne : k.pool.sidesFor main ≠ []) :
    k.sideScorer slot main x p = k.sideMeasure main p.rotation slot x := by
  unfold sideScorer sideMeasure
  rw [sideMoment_rotation hne, sidesChecked_eq]

/-- Without a side dish that suits the main course the state stays as it is. -/
theorem sideState_of_nil (hnil : k.pool.sidesFor main = []) : k.sideState main t = t :=
  if_neg fun h => h.1 hnil

theorem sideState_lastComplexity : (k.sideState main t).lastComplexity = t.lastComplexity := by
  unfold sideState
  split <;> rfl

/-! ## pairing -/

namespace Pairs

variable {result : Except PlanError (Option Recipe)} {side : Recipe} {e : PlanError}

/-- The side dishes begin a new cycle, once, if one of them suits the main course and all were
used. -/
theorem resetsOf_side (h : k.Pairs slot main x p result q) :
    resetsOf .side q.journal =
      resetsOf .side p.journal + if k.RenewsSides main p.rotation then 1 else 0 := by
  cases h with
  | unsuited hnil =>
      rw [if_neg fun h : k.RenewsSides main p.rotation => h.1 hnil]
      simp [resetsOf, Event.resets]
  | unscored source hne r hr herr => exact resetsOf_sideMoment slot hne
  | unfit source hne hall =>
      rw [← resetsOf_sideMoment slot hne]
      simp [resetsOf, Event.resets]
  | paired source side hside hpass =>
      rw [← resetsOf_sideMoment slot (List.ne_nil_of_mem hside)]
      simp [resetsOf, Event.resets]

/-- The side dish of a pairing suits the main course and passes the constraints; it is marked, and
its cuisine counted. -/
theorem of_some (h : k.Pairs slot main x p (.ok (some side)) q) :
    side ∈ k.pool.sidesFor main ∧
      (k.sideMeasure main p.rotation slot x).rejection? side = .ok none ∧
      q.rotation =
        ((k.sideState main p.rotation).mark .side side.id).countServing side.cuisine := by
  cases h with
  | paired source side hside hpass =>
      have hne := List.ne_nil_of_mem hside
      have hcourse := (Pool.mem_forCourse.mp (Pool.mem_forCourse_of_mem_sidesFor hside)).2
      rw [sideScorer_eq hne] at hpass
      refine ⟨hside, hpass, ?_⟩
      rw [taking_rotation, drawn_rotation, sideMoment_rotation hne, hcourse]

/-- A pairing without a side dish has none that suits the main course, or all are turned down; no
more comes of it than a new cycle of the side dishes. -/
theorem of_none (h : k.Pairs slot main x p (.ok none) q) :
    (k.pool.sidesFor main = [] ∨ ∀ r ∈ k.pool.sidesFor main, ∃ reason,
      (k.sideMeasure main p.rotation slot x).rejection? r = .ok (some reason)) ∧
      q.rotation = k.sideState main p.rotation := by
  cases h with
  | unsuited hnil => exact ⟨Or.inl hnil, (sideState_of_nil hnil).symm⟩
  | unfit source hne hall =>
      rw [sideScorer_eq hne] at hall
      exact ⟨Or.inr hall, sideMoment_rotation hne⟩

/-- There is no side dish exactly if none suits the main course or all that suit are turned down. -/
theorem eq_none_iff {chosen : Option Recipe} (h : k.Pairs slot main x p (.ok chosen) q) :
    chosen = none ↔ k.pool.sidesFor main = [] ∨ ∀ r ∈ k.pool.sidesFor main, ∃ reason,
      (k.sideMeasure main p.rotation slot x).rejection? r = .ok (some reason) := by
  cases chosen with
  | none => exact iff_of_true rfl h.of_none.1
  | some side =>
      obtain ⟨hsuits, hpass, -⟩ := h.of_some
      refine iff_of_false (by simp) ?_
      rintro (hnil | hall)
      · exact absurd hsuits (hnil ▸ List.not_mem_nil)
      · obtain ⟨reason, hreason⟩ := hall side hsuits
        rw [hpass] at hreason
        simp at hreason

/-- A pairing fails if a side dish that suits the main course cannot be scored, and no more comes
of it either. -/
theorem of_error (h : k.Pairs slot main x p (.error e) q) :
    (∃ r ∈ k.pool.sidesFor main,
      (k.sideMeasure main p.rotation slot x).score? r = .error .numberOutOfRange) ∧
      q.rotation = k.sideState main p.rotation := by
  cases h with
  | unscored source hne r hr herr =>
      rw [sideScorer_eq hne] at herr
      exact ⟨⟨r, hr, herr⟩, sideMoment_rotation hne⟩

/-- Pairing leaves the complexity of the last assignment alone. -/
theorem lastComplexity (h : k.Pairs slot main x p result q) :
    q.rotation.lastComplexity = p.rotation.lastComplexity := by
  cases result with
  | error e => rw [h.of_error.2, sideState_lastComplexity]
  | ok chosen =>
      cases chosen with
      | none => rw [h.of_none.2, sideState_lastComplexity]
      | some side =>
          rw [h.of_some.2.2]
          exact sideState_lastComplexity

end Pairs

/-- A side dish that passes the constraints although it was used repeats. -/
theorem repeatsSides_of_passes {side : Recipe} (hside : side ∈ k.pool.sidesFor main)
    (hpass : (k.sideMeasure main t slot x).rejection? side = .ok none)
    (hused : (k.sideState main t).isUsed .side side.id = true) : k.RepeatsSides main t := by
  by_contra hno
  have hcourse := (Pool.mem_forCourse.mp (Pool.mem_forCourse_of_mem_sidesFor hside)).2
  have hfree := Scorer.not_isUsed_of_passes hpass
    (show (!decide (k.RepeatsSides main t)) = true by rw [decide_eq_false hno]; rfl)
  rw [hcourse, show (k.sideMeasure main t slot x).rotation = k.sideState main t from rfl,
    hused] at hfree
  contradiction

/-- Filling a slot with a main course that comes with a side dish is pairing it, once the main
course is marked and its complexity kept. -/
theorem Assigns.exists_pairs {reset : Bool} {result : Except PlanError Choice}
    (h : k.Assigns slot main reset p result q) (hcourse : main.course = .main)
    (hside : main.takesSide = true) (hx : main.complexityScore k.rules.formula = .ok x) :
    ∃ paired, k.Pairs slot main x ((p.taking main).after x) paired q ∧
      result = paired.map fun side => ⟨main, side, reset⟩ := by
  cases h with
  | unscored hnone =>
      rw [hx] at hnone
      contradiction
  | alone y hy hnot => exact absurd ⟨hcourse, hside⟩ hnot
  | accompanied y hy hboth paired q hpair =>
      obtain rfl := Except.ok.inj (hx.symm.trans hy)
      exact ⟨paired, hpair, rfl⟩

/-- A main course without a complexity score is marked, and nothing else. -/
theorem Assigns.of_complexityScore_error {reset : Bool} {result : Except PlanError Choice}
    {e : PlanError} (h : k.Assigns slot main reset p result q)
    (he : main.complexityScore k.rules.formula = .error e) :
    result = .error .numberOutOfRange ∧ q = p.taking main := by
  cases h with
  | unscored hnone => exact ⟨rfl, rfl⟩
  | alone y hy hnot =>
      rw [hy] at he
      contradiction
  | accompanied y hy hboth paired q hpair =>
      rw [hy] at he
      contradiction

/-- Marking a main course marks no side dish. -/
theorem taking_usedIds_side (hcourse : main.course = .main) (p : Progress) (x : Float) :
    ((p.taking main).after x).rotation.usedIds .side = p.rotation.usedIds .side := by
  change (p.rotation.mark main.course main.id).usedIds .side = _
  rw [Rotation.usedIds_mark, hcourse, if_neg (by decide)]

/-- Filling a slot with a main course that comes with a side dish.  The side dishes begin a new
cycle if and only if one of them suits the main course and all were used.  A side dish that is
taken suits the main course and passes the constraints, the main course's complexity coming
before it; it was used before in the cycle only if all that suit were, and not all others.  None
is taken if and only if none suits or all that suit are turned down, and then nothing but
that new cycle comes of the pairing.  The complexity of the main course stays the last one. -/
theorem pairing_of_assign (k : Kitchen) (slot : SlotContext) (main : Recipe)
    (hcourse : main.course = .main) (hside : main.takesSide = true) (reset : Bool) (p : Progress) :
    let out := Planning.run (k.assign slot main reset) p
    (∀ x, main.complexityScore k.rules.formula = .ok x →
      let t := ((p.taking main).after x).rotation
      let measure := k.sideMeasure main t slot x
      t.usedIds .side = p.rotation.usedIds .side ∧
      out.2.rotation.lastComplexity = some x ∧
      resetsOf .side out.2.journal =
        resetsOf .side p.journal + (if k.RenewsSides main t then 1 else 0) ∧
      (∀ choice, out.1 = .ok choice → choice.recipe = main ∧ choice.cycleReset = reset ∧
        (choice.side = none ↔ k.pool.sidesFor main = [] ∨
          ∀ r ∈ k.pool.sidesFor main, ∃ reason, measure.rejection? r = .ok (some reason)) ∧
        (choice.side = none → out.2.rotation = k.sideState main t) ∧
        ∀ side, choice.side = some side →
          side ∈ k.pool.sidesFor main ∧ measure.rejection? side = .ok none ∧
          ((k.sideState main t).isUsed .side side.id = true → k.RepeatsSides main t) ∧
          out.2.rotation =
            ((k.sideState main t).mark .side side.id).countServing side.cuisine) ∧
      ∀ e, out.1 = .error e → e = .numberOutOfRange ∧
        (∃ r ∈ k.pool.sidesFor main, measure.score? r = .error .numberOutOfRange) ∧
        out.2.rotation = k.sideState main t) ∧
    ∀ e, main.complexityScore k.rules.formula = .error e →
      out.1 = .error .numberOutOfRange ∧ out.2 = p.taking main := by
  intro out
  have hassigns : k.Assigns slot main reset p out.1 out.2 := k.assigns_assign slot main reset p
  clear_value out
  obtain ⟨result, q⟩ := out
  refine ⟨fun x hx => ?_, fun e he => hassigns.of_complexityScore_error he⟩
  obtain ⟨paired, hpair, hresult⟩ := hassigns.exists_pairs hcourse hside hx
  dsimp only at hresult
  subst hresult
  have hlast : ((p.taking main).after x).rotation.lastComplexity = some x := rfl
  refine ⟨taking_usedIds_side hcourse p x, hpair.lastComplexity.trans hlast, ?_, ?_⟩
  · rw [hpair.resetsOf_side]
    simp [resetsOf, Event.resets]
  · cases paired with
    | error e =>
        refine ⟨fun choice hok => by contradiction, fun e' herr => ?_⟩
        rw [← Except.error.inj herr]
        exact ⟨hpair.eq_of_error, hpair.of_error⟩
    | ok chosen =>
        refine ⟨fun choice hok => ?_, fun e herr => by contradiction⟩
        obtain rfl := Except.ok.inj hok
        refine ⟨rfl, rfl, hpair.eq_none_iff, fun hnone => ?_, fun side hside => ?_⟩
        · obtain rfl : chosen = none := hnone
          exact hpair.of_none.2
        · obtain rfl : chosen = some side := hside
          obtain ⟨hsuits, hpass, hstate⟩ := hpair.of_some
          exact ⟨hsuits, hpass, repeatsSides_of_passes hsuits hpass, hstate⟩

/-- The one side dish that suits a curry is paired again, another side dish being unused. -/
theorem pairing_of_assign_curry :
    let curry : Recipe :=
      { Recipe.plain .main "curry" with takesSide := true, preferredSides := [.rice] }
    let basmati : Recipe := { Recipe.plain .side "basmati" with sideCategory := some .rice }
    let k : Kitchen :=
      ⟨⟨.standard, {}⟩, Pool.ofRecipes [curry, basmati, Recipe.plain .side "fries"]⟩
    let p : Progress := ⟨Rotation.fresh.mark .side "basmati", none, []⟩
    let slot : SlotContext := slotOn Date.first p.rotation
    let t := ((p.taking curry).after 0).rotation
    curry.course = .main ∧ curry.takesSide = true ∧
    ∃ choice q, Planning.run (k.assign slot curry false) p = (.ok choice, q) ∧
      choice.side.map (·.id) = some "basmati" ∧ k.RepeatsSides curry t ∧
      resetsOf .side q.journal = 0 ∧ q.rotation.lastComplexity = some 0 := by
  intro curry basmati k p slot t
  have hcomplexity : curry.complexityScore k.rules.formula = .ok 0 := rfl
  have hok : (Planning.run (k.assign slot curry false) p).1.toOption.map
      (fun choice => choice.side.map (·.id)) = some (some "basmati") := by decide +kernel
  have hsome : (Planning.run (k.assign slot curry false) p).1.toOption.isSome = true := by
    rw [← Option.isSome_map, hok]
    rfl
  obtain ⟨choice, q, hrun⟩ := Planning.exists_run_of_isSome hsome
  rw [hrun] at hok
  have hpairing := (pairing_of_assign k slot curry rfl rfl false p).1 0 hcomplexity
  rw [hrun] at hpairing
  obtain ⟨hsame, hlast, hresets, hpaired, -⟩ := hpairing
  obtain ⟨side, hside, hid⟩ := Option.map_eq_some_iff.mp (Option.some.inj hok)
  obtain ⟨hsuits, -, hrepeats, -⟩ := (hpaired choice rfl).2.2.2.2 side hside
  have hnot : ¬ k.RenewsSides curry t := by decide +kernel
  have hused : (k.sideState curry t).isUsed .side "basmati" = true := by decide +kernel
  refine ⟨rfl, rfl, choice, q, hrun, Option.some.inj hok, ?_, ?_, hlast⟩
  · exact hrepeats (hid ▸ hused)
  · rw [hresets, if_neg hnot]
    rfl

end Kitchen

end MealRota
