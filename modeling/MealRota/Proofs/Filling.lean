import MealRota.Proofs.Choosing
import MealRota.Proofs.Replay

/-!
# MealRota.Proofs.Filling

What filling one slot can come to.  Each operation has an inductive account of
its outcomes, with the exact progress in which each of them leaves the run:

* `Kitchen.Pairs` — pairing a main course with a side dish;
* `Kitchen.Assigns` — filling a slot with a given recipe;
* `Kitchen.Selects` — filling a slot from the pool.

Later proofs go by the cases of these accounts and open none of the operations.
-/

namespace MealRota

/-! ## elementary changes of the progress -/

namespace Progress

/-- The progress after a new cycle of a course has begun. -/
def begun (p : Progress) (c : Course) (size : Int) : Progress :=
  { p with
    rotation := p.rotation.reset c
    journal := p.journal ++ [.cycleReset c p.rotation.cycle (p.rotation.cycle + 1) size] }

/-- The progress after a recipe was marked as used and its cuisine counted. -/
def taking (p : Progress) (r : Recipe) : Progress :=
  { p with
    rotation := (p.rotation.mark r.course r.id).countServing r.cuisine
    journal := p.journal ++ [.recipeTaken r.course r.id] }

/-- The progress with the complexity score of what was assigned last. -/
def after (p : Progress) (complexity : Float) : Progress :=
  { p with rotation := { p.rotation with lastComplexity := some complexity } }

/-- The progress once there is a candidate that was not used in the current cycle of its course:
a new cycle begins if there was none. -/
def renewed (p : Progress) (c : Course) (candidates : List Recipe) : Progress :=
  if ∀ r ∈ candidates, p.rotation.isUsed c r.id = true then p.begun c candidates.length else p

variable (p : Progress) (c : Course) (r : Recipe) (x : Float) (size : Int)

@[simp] theorem begun_rotation : (p.begun c size).rotation = p.rotation.reset c := rfl

@[simp] theorem begun_journal : (p.begun c size).journal =
    p.journal ++ [.cycleReset c p.rotation.cycle (p.rotation.cycle + 1) size] := rfl

@[simp] theorem taking_rotation :
    (p.taking r).rotation = (p.rotation.mark r.course r.id).countServing r.cuisine := rfl

@[simp] theorem taking_journal :
    (p.taking r).journal = p.journal ++ [.recipeTaken r.course r.id] := rfl

@[simp] theorem after_journal : (p.after x).journal = p.journal := rfl

end Progress

open Progress

namespace Kitchen

variable (k : Kitchen)

@[simp] theorem run_take (r : Recipe) (p : Progress) :
    Planning.run (k.take r) p = (r.complexityScore k.rules.formula, p.taking r) := rfl

/-- Testing whether all of some recipes were used in the cycle of a course. -/
theorem all_contains_eq (t : Rotation) (c : Course) (l : List Recipe) :
    (l.all fun r => (t.usedIds c).contains r.id) =
      decide (∀ r ∈ l, t.isUsed c r.id = true) := by
  rw [Bool.eq_iff_iff, List.all_eq_true, decide_eq_true_iff]
  exact Iff.rfl

theorem run_renewCourse (c : Course) (candidates : List Recipe) (p : Progress) :
    Planning.run (renewCourse c candidates) p =
      (.ok (decide (∀ r ∈ candidates, p.rotation.isUsed c r.id = true)),
        p.renewed c candidates) := by
  unfold renewCourse renewed
  rw [Planning.run_bind_of_ok (Planning.run_rotation p)]
  simp only [all_contains_eq, decide_eq_true_eq]
  by_cases h : ∀ r ∈ candidates, p.rotation.isUsed c r.id = true
  · rw [if_pos h, if_pos h, decide_eq_true h]
    rfl
  · rw [if_neg h, if_neg h, decide_eq_false h]
    rfl

/-! ## side dishes -/

/-- The progress once side dishes may be chosen: a new cycle begins if all of them were used. -/
def sidesRenewed (p : Progress) : Progress :=
  p.renewed .side (k.pool.forCourse .side)

/-- Whether use counts among the side dishes that suit a main course: not if they alone, and
not all side dishes, were used in the current cycle. -/
def sidesChecked (main : Recipe) (t : Rotation) : Bool :=
  decide ((∀ r ∈ k.pool.forCourse .side, t.isUsed .side r.id = true) ∨
    ∃ r ∈ k.pool.sidesFor main, t.isUsed .side r.id = false)

theorem run_renewSides (main : Recipe) (p : Progress) :
    Planning.run (k.renewSides (k.pool.sidesFor main)) p =
      (.ok (k.sidesChecked main p.rotation), k.sidesRenewed p) := by
  unfold renewSides sidesChecked sidesRenewed renewed
  rw [Planning.run_bind_of_ok (Planning.run_rotation p)]
  simp only [all_contains_eq, decide_eq_true_eq]
  by_cases hex : ∀ r ∈ k.pool.forCourse .side, p.rotation.isUsed .side r.id = true
  · have hall : ∀ r ∈ k.pool.sidesFor main, p.rotation.isUsed .side r.id = true :=
      fun r hr => hex r (Pool.mem_forCourse_of_mem_sidesFor hr)
    rw [if_pos hall, if_pos hex, if_pos hex, decide_eq_true (Or.inl hex)]
    rfl
  · by_cases hall : ∀ r ∈ k.pool.sidesFor main, p.rotation.isUsed .side r.id = true
    · have hnone : ¬ ∃ r ∈ k.pool.sidesFor main, p.rotation.isUsed .side r.id = false := by
        rintro ⟨r, hr, hused⟩
        rw [hall r hr] at hused
        contradiction
      rw [if_pos hall, if_neg hex, if_neg hex, decide_eq_false (not_or.mpr ⟨hex, hnone⟩)]
      rfl
    · have hsome : ∃ r ∈ k.pool.sidesFor main, p.rotation.isUsed .side r.id = false := by
        simpa using hall
      rw [if_neg hall, if_neg hex, decide_eq_true (Or.inr hsome)]
      rfl

/-- The progress when a side dish is chosen for a main course. -/
def sideMoment (slot : SlotContext) (main : Recipe) (p : Progress) : Progress :=
  k.sidesRenewed (p.note (.sideSought main.id slot.date))

/-- What the side dishes of a main course of known complexity are measured against. -/
def sideScorer (slot : SlotContext) (main : Recipe) (complexity : Float) (p : Progress) : Scorer :=
  ⟨k.rules, { slot with preceding := some complexity }, (k.sideMoment slot main p).rotation,
    k.sidesChecked main p.rotation⟩

/-- What pairing a main course with a side dish can come to. -/
inductive Pairs (slot : SlotContext) (main : Recipe) (complexity : Float) (p : Progress) :
    Except PlanError (Option Recipe) → Progress → Prop
  /-- No side dish of the pool suits the main course. -/
  | unsuited (h : k.pool.sidesFor main = []) :
      Pairs slot main complexity p (.ok none) (p.note (.sideSought main.id slot.date))
  /-- A side dish cannot be scored. -/
  | unscored (source : Option Twister) (h : k.pool.sidesFor main ≠ []) (r : Recipe)
      (hr : r ∈ k.pool.sidesFor main)
      (herr : (k.sideScorer slot main complexity p).score? r = .error .numberOutOfRange) :
      Pairs slot main complexity p (.error .numberOutOfRange)
        ((k.sideMoment slot main p).drawn source)
  /-- Every side dish that suits the main course is turned down. -/
  | unfit (source : Option Twister) (h : k.pool.sidesFor main ≠ [])
      (hall : ∀ r ∈ k.pool.sidesFor main, ∃ reason,
        (k.sideScorer slot main complexity p).rejection? r = .ok (some reason)) :
      Pairs slot main complexity p (.ok none)
        (((k.sideMoment slot main p).drawn source).note (.noSideFits main.id slot.date))
  /-- A side dish that passes the constraints is taken. -/
  | paired (source : Option Twister) (side : Recipe) (h : side ∈ k.pool.sidesFor main)
      (hpass : (k.sideScorer slot main complexity p).rejection? side = .ok none) :
      Pairs slot main complexity p (.ok (some side))
        (((k.sideMoment slot main p).drawn source).taking side)

theorem pairs_pairSide (slot : SlotContext) (main : Recipe) (complexity : Float) (p : Progress) :
    k.Pairs slot main complexity p (Planning.run (k.pairSide slot main complexity) p).1
      (Planning.run (k.pairSide slot main complexity) p).2 := by
  unfold pairSide
  rw [Planning.run_bind_of_ok (Planning.run_record (.sideSought main.id slot.date) p)]
  simp only [List.isEmpty_iff]
  by_cases hnil : k.pool.sidesFor main = []
  · rw [if_pos hnil]
    exact .unsuited hnil
  · rw [if_neg hnil]
    have hrenew := k.run_renewSides main (p.note (.sideSought main.id slot.date))
    rw [show ({ p with journal := p.journal ++ [.sideSought main.id slot.date] } : Progress) =
      p.note (.sideSought main.id slot.date) from rfl, Planning.run_bind_of_ok hrenew,
      Planning.run_bind_of_ok (Planning.run_rotation _)]
    obtain ⟨source, result, hchoose, hsettles⟩ := run_chooseFrom
      (k.sideScorer slot main complexity p) (k.pool.sidesFor main) (k.sideMoment slot main p)
    change k.Pairs slot main complexity p
      (Planning.run (chooseFrom (k.sideScorer slot main complexity p) (k.pool.sidesFor main) >>= _)
        (k.sideMoment slot main p)).1
      (Planning.run (chooseFrom (k.sideScorer slot main complexity p) (k.pool.sidesFor main) >>= _)
        (k.sideMoment slot main p)).2
    match result, hchoose, hsettles with
    | .error e, hchoose, ⟨he, r, hr, herr⟩ =>
        rw [Planning.run_bind_of_error hchoose]
        subst he
        exact .unscored source hnil r hr herr
    | .ok none, hchoose, hsettles =>
        rw [Planning.run_bind_of_ok hchoose]
        exact .unfit source hnil hsettles
    | .ok (some side), hchoose, hsettles =>
        rw [Planning.run_bind_of_ok hchoose]
        obtain ⟨x, hx⟩ := Scorer.complexityScore_of_passes hsettles.2
        have htake : Planning.run (k.take side) ((k.sideMoment slot main p).drawn source) =
            (.ok x, ((k.sideMoment slot main p).drawn source).taking side) := by
          rw [run_take]
          exact congrArg (·, _) hx
        have hlast : Planning.run (do let _ ← k.take side; return some side)
              ((k.sideMoment slot main p).drawn source) =
            (.ok (some side), ((k.sideMoment slot main p).drawn source).taking side) := by
          rw [Planning.run_bind_of_ok htake]
          rfl
        change k.Pairs slot main complexity p
          (Planning.run (do let _ ← k.take side; return some side)
            ((k.sideMoment slot main p).drawn source)).1
          (Planning.run (do let _ ← k.take side; return some side)
            ((k.sideMoment slot main p).drawn source)).2
        rw [hlast]
        exact .paired source side hsettles.1 hsettles.2

/-! ## a given recipe -/

/-- What filling a slot with a given recipe can come to. -/
inductive Assigns (slot : SlotContext) (r : Recipe) (reset : Bool) (p : Progress) :
    Except PlanError Choice → Progress → Prop
  /-- The recipe has no complexity score. -/
  | unscored (h : r.complexityScore k.rules.formula = .error .numberOutOfRange) :
      Assigns slot r reset p (.error .numberOutOfRange) (p.taking r)
  /-- The recipe is not a main course that comes with a side dish. -/
  | alone (x : Float) (hx : r.complexityScore k.rules.formula = .ok x)
      (h : ¬ (r.course = .main ∧ r.takesSide = true)) :
      Assigns slot r reset p (.ok ⟨r, none, reset⟩) ((p.taking r).after x)
  /-- The recipe is a main course that comes with a side dish. -/
  | accompanied (x : Float) (hx : r.complexityScore k.rules.formula = .ok x)
      (h : r.course = .main ∧ r.takesSide = true) (result : Except PlanError (Option Recipe))
      (q : Progress) (hpair : k.Pairs slot r x ((p.taking r).after x) result q) :
      Assigns slot r reset p (result.map fun side => ⟨r, side, reset⟩) q

theorem assigns_assign (slot : SlotContext) (r : Recipe) (reset : Bool) (p : Progress) :
    k.Assigns slot r reset p (Planning.run (k.assign slot r reset) p).1
      (Planning.run (k.assign slot r reset) p).2 := by
  unfold assign
  cases hx : r.complexityScore k.rules.formula with
  | error e =>
      have htake : Planning.run (k.take r) p = (.error .numberOutOfRange, p.taking r) := by
        rw [run_take, hx, Recipe.eq_of_complexityScore_error hx]
      rw [Planning.run_bind_of_error htake]
      rw [Recipe.eq_of_complexityScore_error hx] at hx
      exact .unscored hx
  | ok x =>
      have htake : Planning.run (k.take r) p = (.ok x, p.taking r) := by rw [run_take, hx]
      rw [Planning.run_bind_of_ok htake, Planning.run_bind_of_ok (Planning.run_updateRotation _ _)]
      change k.Assigns slot r reset p
        (Planning.run _ ((p.taking r).after x)).1 (Planning.run _ ((p.taking r).after x)).2
      by_cases h : r.course = .main ∧ r.takesSide = true
      · rw [if_pos h]
        have hpair := k.pairs_pairSide slot r x ((p.taking r).after x)
        rw [Planning.run_bind_pure]
        exact .accompanied x hx h _ _ hpair
      · rw [if_neg h]
        exact .alone x hx h

/-! ## a slot from the pool -/

/-- The progress when a candidate for a slot is chosen. -/
def slotMoment (c : Course) (excluded : List String) (p : Progress) : Progress :=
  p.renewed c (k.candidates c excluded)

/-- What the candidates for a slot are measured against. -/
def slotScorer (c : Course) (slot : SlotContext) (excluded : List String) (p : Progress) : Scorer :=
  ⟨k.rules, slot, (k.slotMoment c excluded p).rotation, true⟩

/-- What filling a slot from the pool can come to. -/
inductive Selects (c : Course) (slot : SlotContext) (excluded : List String) (p : Progress) :
    Except PlanError (Option Choice) → Progress → Prop
  /-- There is no candidate for a course that is required. -/
  | insufficient (h : k.candidates c excluded = []) (hreq : c.isRequired = true) :
      Selects c slot excluded p (.error (.insufficientRecipes 1 0)) p
  /-- There is no candidate for an optional course. -/
  | skipped (h : k.candidates c excluded = []) (hreq : c.isRequired = false) :
      Selects c slot excluded p (.ok none) p
  /-- A candidate cannot be scored. -/
  | unscored (source : Option Twister) (r : Recipe) (hr : r ∈ k.candidates c excluded)
      (herr : (k.slotScorer c slot excluded p).score? r = .error .numberOutOfRange) :
      Selects c slot excluded p (.error .numberOutOfRange)
        ((k.slotMoment c excluded p).drawn source)
  /-- All candidates for a course that is required are turned down. -/
  | failed (source : Option Twister) (rejections : Rejections)
      (h : k.candidates c excluded ≠ []) (hreq : c.isRequired = true)
      (hall : ∀ r ∈ k.candidates c excluded, ∃ reason,
        (k.slotScorer c slot excluded p).rejection? r = .ok (some reason))
      (hrej : (k.slotScorer c slot excluded p).rejections (k.candidates c excluded) =
        .ok rejections) :
      Selects c slot excluded p
        (.error (.searchFailed (.noCandidate c slot.date rejections)))
        ((k.slotMoment c excluded p).drawn source)
  /-- All candidates for an optional course are turned down. -/
  | leftEmpty (source : Option Twister) (rejections : Rejections)
      (h : k.candidates c excluded ≠ []) (hreq : c.isRequired = false)
      (hall : ∀ r ∈ k.candidates c excluded, ∃ reason,
        (k.slotScorer c slot excluded p).rejection? r = .ok (some reason))
      (hrej : (k.slotScorer c slot excluded p).rejections (k.candidates c excluded) =
        .ok rejections) :
      Selects c slot excluded p (.ok none)
        (((k.slotMoment c excluded p).drawn source).note
          (.slotLeftEmpty c slot.date rejections))
  /-- A candidate that passes the constraints fills the slot. -/
  | filled (source : Option Twister) (r : Recipe) (hr : r ∈ k.candidates c excluded)
      (hpass : (k.slotScorer c slot excluded p).rejection? r = .ok none)
      (result : Except PlanError Choice) (q : Progress)
      (hassign : k.Assigns slot r
        (decide (∀ r ∈ k.candidates c excluded, p.rotation.isUsed c r.id = true))
        ((k.slotMoment c excluded p).drawn source) result q) :
      Selects c slot excluded p (result.map some) q

theorem selects_select (c : Course) (slot : SlotContext) (excluded : List String) (p : Progress) :
    k.Selects c slot excluded p (Planning.run (k.select c slot excluded) p).1
      (Planning.run (k.select c slot excluded) p).2 := by
  unfold select
  simp only [List.isEmpty_iff]
  by_cases hnil : k.candidates c excluded = []
  · rw [if_pos hnil]
    cases hreq : c.isRequired with
    | true => exact .insufficient hnil hreq
    | false => exact .skipped hnil hreq
  · rw [if_neg hnil, Planning.run_bind_of_ok (run_renewCourse c (k.candidates c excluded) p),
      Planning.run_bind_of_ok (Planning.run_rotation _)]
    obtain ⟨source, result, hchoose, hsettles⟩ := run_chooseFrom
      (k.slotScorer c slot excluded p) (k.candidates c excluded) (k.slotMoment c excluded p)
    change k.Selects c slot excluded p
      (Planning.run (chooseFrom (k.slotScorer c slot excluded p) (k.candidates c excluded) >>= _)
        (k.slotMoment c excluded p)).1
      (Planning.run (chooseFrom (k.slotScorer c slot excluded p) (k.candidates c excluded) >>= _)
        (k.slotMoment c excluded p)).2
    match result, hchoose, hsettles with
    | .error e, hchoose, ⟨he, r, hr, herr⟩ =>
        rw [Planning.run_bind_of_error hchoose]
        subst he
        exact .unscored source r hr herr
    | .ok (some r), hchoose, hsettles =>
        rw [Planning.run_bind_of_ok hchoose]
        simp only
        have hassign := k.assigns_assign slot r
          (decide (∀ r ∈ k.candidates c excluded, p.rotation.isUsed c r.id = true))
          ((k.slotMoment c excluded p).drawn source)
        rw [Planning.run_bind_pure]
        exact .filled source r hsettles.1 hsettles.2 _ _ hassign
    | .ok none, hchoose, hall =>
        rw [Planning.run_bind_of_ok hchoose]
        simp only
        obtain ⟨rejections, hrej⟩ :=
          (k.slotScorer c slot excluded p).rejections_of_rejected hall
        have hlift : Planning.run (Planning.lift ((k.slotScorer c slot excluded p).rejections
              (k.candidates c excluded))) ((k.slotMoment c excluded p).drawn source) =
            (.ok rejections, (k.slotMoment c excluded p).drawn source) := by
          rw [hrej, Planning.run_lift]
        change k.Selects c slot excluded p
          (Planning.run (Planning.lift ((k.slotScorer c slot excluded p).rejections
            (k.candidates c excluded)) >>= _) ((k.slotMoment c excluded p).drawn source)).1
          (Planning.run (Planning.lift ((k.slotScorer c slot excluded p).rejections
            (k.candidates c excluded)) >>= _) ((k.slotMoment c excluded p).drawn source)).2
        rw [Planning.run_bind_of_ok hlift]
        cases hreq : c.isRequired with
        | true => exact .failed source rejections hnil hreq hall hrej
        | false => exact .leftEmpty source rejections hnil hreq hall hrej

/-! ## reading an account -/

section

variable {k} {c : Course} {slot : SlotContext} {excluded : List String} {p q : Progress}
  {choice : Choice} {e : PlanError}

theorem Pairs.eq_of_error {main : Recipe} {x : Float} (h : k.Pairs slot main x p (.error e) q) :
    e = .numberOutOfRange := by
  cases h
  rfl

theorem Assigns.eq_of_error {r : Recipe} {reset : Bool}
    (h : k.Assigns slot r reset p (.error e) q) : e = .numberOutOfRange := by
  generalize hres : (Except.error e : Except PlanError Choice) = result at h
  cases h with
  | unscored hx => exact Except.error.inj hres
  | alone x hx hside => contradiction
  | accompanied x hx hside result q hpair =>
      cases result with
      | ok side => contradiction
      | error e' =>
          rw [Except.error.inj hres]
          exact hpair.eq_of_error

/-- A given recipe is what fills the slot. -/
theorem Assigns.of_ok {r : Recipe} {reset : Bool} (h : k.Assigns slot r reset p (.ok choice) q) :
    choice.recipe = r ∧ choice.cycleReset = reset := by
  generalize hres : (Except.ok choice : Except PlanError Choice) = result at h
  cases h with
  | unscored hx => contradiction
  | alone x hx hside =>
      rw [Except.ok.inj hres]
      exact ⟨rfl, rfl⟩
  | accompanied x hx hside result q hpair =>
      cases result with
      | error e => contradiction
      | ok side =>
          rw [Except.ok.inj hres]
          exact ⟨rfl, rfl⟩

/-- A slot is filled with a candidate that passes the constraints. -/
theorem Selects.of_some (h : k.Selects c slot excluded p (.ok (some choice)) q) :
    choice.recipe ∈ k.candidates c excluded ∧
      (k.slotScorer c slot excluded p).rejection? choice.recipe = .ok none ∧
      choice.cycleReset =
        decide (∀ r ∈ k.candidates c excluded, p.rotation.isUsed c r.id = true) ∧
      ∃ source, k.Assigns slot choice.recipe choice.cycleReset
        ((k.slotMoment c excluded p).drawn source) (.ok choice) q := by
  generalize hres : (Except.ok (some choice) : Except PlanError (Option Choice)) = result at h
  cases h with
  | filled source r hr hpass result q hassign =>
      cases result with
      | error e => contradiction
      | ok choice' =>
          have hchoice : choice = choice' := Option.some.inj (Except.ok.inj hres)
          subst hchoice
          obtain ⟨hrecipe, hreset⟩ := hassign.of_ok
          subst hrecipe
          rw [← hreset] at hassign
          exact ⟨hr, hpass, hreset, source, hassign⟩
  | _ => simp at hres

/-- A course that is required is not left empty. -/
theorem Selects.optional_of_none (h : k.Selects c slot excluded p (.ok none) q) :
    c.isRequired = false := by
  generalize hres : (Except.ok none : Except PlanError (Option Choice)) = result at h
  cases h with
  | skipped h hreq => exact hreq
  | leftEmpty source rejections h hreq hall hrej => exact hreq
  | filled source r hr hpass result q hassign => cases result <;> simp [Except.map] at hres
  | _ => contradiction

/-- Filling a slot fails for want of candidates, for candidates that are all turned down, or for
a number beyond the doubles. -/
theorem Selects.of_error (h : k.Selects c slot excluded p (.error e) q) :
    (e = .insufficientRecipes 1 0 ∧ c.isRequired = true ∧ k.candidates c excluded = []) ∨
      e = .numberOutOfRange ∨
        ∃ rejections, e = .searchFailed (.noCandidate c slot.date rejections) := by
  generalize hres : (Except.error e : Except PlanError (Option Choice)) = result at h
  cases h with
  | insufficient h hreq => exact Or.inl ⟨Except.error.inj hres, hreq, h⟩
  | unscored source r hr herr => exact Or.inr (Or.inl (Except.error.inj hres))
  | failed source rejections h hreq hall hrej =>
      exact Or.inr (Or.inr ⟨rejections, Except.error.inj hres⟩)
  | filled source r hr hpass result q hassign =>
      cases result with
      | ok choice => contradiction
      | error e' =>
          rw [Except.error.inj hres]
          exact Or.inr (Or.inl hassign.eq_of_error)
  | _ => contradiction

end

end Kitchen

end MealRota
