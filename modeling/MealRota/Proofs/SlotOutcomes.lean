import Mathlib.Algebra.GroupWithZero.Nat
import MealRota.Proofs.SidePairing

/-!
# MealRota.Proofs.SlotOutcomes

What filling a slot from the pool comes to, told from its candidates and the state in which it
begins: when it fills the slot, when it does not, and what it leaves behind in either case.

* `Scorer.sum_of_rejections` — the rejections that are reported are as many as the candidates;
* `Kitchen.courseState` — the state of the choice, a new cycle having begun if need be;
* `Kitchen.Reckons` — the numbers of a slot are within the range of the doubles;
* `Kitchen.outcome_of_select` — the outcome.
-/

namespace MealRota

open Progress

/-! ## counting rejections -/

namespace Scorer

variable {s : Scorer} {reason : Rejection} {counts counts' : Rejections} {l : List Recipe}

/-- One more rejection is counted once. -/
theorem sum_countRejection (reason : Rejection) (counts : Rejections) :
    ((countRejection reason counts).map (·.2)).sum = (counts.map (·.2)).sum + 1 := by
  induction counts with
  | nil => rfl
  | cons count counts ih =>
      obtain ⟨r, n⟩ := count
      unfold countRejection
      split
      · simp only [List.map_cons, List.sum_cons]
        omega
      · simp only [List.map_cons, List.sum_cons, ih]
        omega

theorem sum_foldlM_tally (hs : s.checksRotation = true)
    (hall : ∀ r ∈ l, ∃ reason, s.rejection? r = .ok (some reason))
    (h : l.foldlM s.tally counts = .ok counts') :
    (counts'.map (·.2)).sum = (counts.map (·.2)).sum + l.length := by
  have hsame : ({ s with checksRotation := true } : Scorer) = s := by rw [← hs]
  induction l generalizing counts with
  | nil =>
      rw [← Except.ok.inj h]
      rfl
  | cons r l ih =>
      obtain ⟨reason, hr⟩ := hall r List.mem_cons_self
      have htally : s.tally counts r = .ok (countRejection reason counts) := by
        unfold tally
        rw [hsame, hr]
        rfl
      rw [List.foldlM_cons, htally] at h
      rw [ih (fun y hy => hall y (List.mem_cons_of_mem _ hy)) h, sum_countRejection,
        List.length_cons]
      omega

/-- Where every candidate is turned down, every one of them is counted. -/
theorem sum_of_rejections (hs : s.checksRotation = true)
    (hall : ∀ r ∈ l, ∃ reason, s.rejection? r = .ok (some reason))
    (h : s.rejections l = .ok counts) : (counts.map (·.2)).sum = l.length := by
  simpa using sum_foldlM_tally hs hall h

/-- What is turned down is not scored, so that choosing does not fail because of it. -/
theorem score?_of_rejected {r : Recipe} (h : s.rejection? r = .ok (some reason)) :
    s.score? r = .ok none := by
  rw [score?_eq, h]

end Scorer

/-! ## marks -/

namespace Kitchen

variable {k : Kitchen} {c d : Course} {slot : SlotContext} {excluded : List String}
  {p q : Progress} {main r : Recipe} {x : Float} {choice : Choice}

/-- Pairing leaves the used recipes of the other courses alone. -/
theorem Pairs.usedIds {result : Except PlanError (Option Recipe)}
    (h : k.Pairs slot main x p result q) (hd : d ≠ .side) :
    q.rotation.usedIds d = p.rotation.usedIds d := by
  have hstate : (k.sideState main p.rotation).usedIds d = p.rotation.usedIds d := by
    unfold sideState
    split
    · rw [Rotation.usedIds_reset, if_neg (Ne.symm hd)]
    · rfl
  cases result with
  | error e => rw [h.of_error.2, hstate]
  | ok chosen =>
      cases chosen with
      | none => rw [h.of_none.2, hstate]
      | some side =>
          rw [h.of_some.2.2]
          change ((k.sideState main p.rotation).mark .side side.id).usedIds d = _
          rw [Rotation.usedIds_mark, if_neg (Ne.symm hd), hstate]

/-- A given recipe is what is added to the used recipes of its course. -/
theorem Assigns.usedIds {reset : Bool} (h : k.Assigns slot r reset p (.ok choice) q) :
    q.rotation.usedIds r.course = (p.rotation.usedIds r.course).insert r.id := by
  have htaking : (p.taking r).rotation.usedIds r.course =
      (p.rotation.usedIds r.course).insert r.id := by
    change (p.rotation.mark r.course r.id).usedIds r.course = _
    rw [Rotation.usedIds_mark, if_pos rfl]
  generalize hres : (Except.ok choice : Except PlanError Choice) = result at h
  cases h with
  | unscored hx => contradiction
  | alone y hy hside => exact htaking
  | accompanied y hy hside result q hpair =>
      have hmain : r.course ≠ .side := by
        rw [hside.1]
        decide
      exact (hpair.usedIds hmain).trans htaking

/-! ## the state of the choice -/

/-- There are candidates for the slot, and all of them were used. -/
def RenewsCourse (k : Kitchen) (c : Course) (excluded : List String) (t : Rotation) : Prop :=
  k.candidates c excluded ≠ [] ∧ ∀ r ∈ k.candidates c excluded, t.isUsed c r.id = true

instance (k : Kitchen) (c : Course) (excluded : List String) (t : Rotation) :
    Decidable (k.RenewsCourse c excluded t) := inferInstanceAs (Decidable (_ ∧ _))

/-- The state in which a candidate for a slot is chosen. -/
def courseState (k : Kitchen) (c : Course) (excluded : List String) (t : Rotation) : Rotation :=
  if k.RenewsCourse c excluded t then t.reset c else t

theorem slotMoment_rotation (h : k.candidates c excluded ≠ []) :
    (k.slotMoment c excluded p).rotation = k.courseState c excluded p.rotation := by
  unfold courseState
  split
  · next hall =>
      have hbegun : k.slotMoment c excluded p = p.begun c (k.candidates c excluded).length :=
        if_pos hall.2
      rw [hbegun, begun_rotation]
  · next hnot =>
      have hsame : k.slotMoment c excluded p = p := if_neg fun hall => hnot ⟨h, hall⟩
      rw [hsame]

theorem slotScorer_eq (h : k.candidates c excluded ≠ []) : k.slotScorer c slot excluded p =
    ⟨k.rules, slot, k.courseState c excluded p.rotation, true⟩ := by
  unfold slotScorer
  rw [slotMoment_rotation h]

/-- Without candidates the state stays as it is. -/
theorem courseState_of_nil (h : k.candidates c excluded = []) (t : Rotation) :
    k.courseState c excluded t = t := if_neg fun hrenews => hrenews.1 h

/-! ## slots that are not filled -/

variable {result : Except PlanError (Option Choice)}

/-- A course without candidates is left empty, or refused if it is required. -/
theorem Selects.of_nil (h : k.Selects c slot excluded p result q)
    (hnil : k.candidates c excluded = []) :
    q = p ∧ result = if c = .main then .error (.insufficientRecipes 1 0) else .ok none := by
  cases h with
  | insufficient hnil' hreq => exact ⟨rfl, (if_pos (of_decide_eq_true hreq)).symm⟩
  | skipped hnil' hreq => exact ⟨rfl, (if_neg (of_decide_eq_false hreq)).symm⟩
  | unscored source r hr herr => exact absurd hr (hnil ▸ List.not_mem_nil)
  | failed source rejections hne hreq hall hrej => exact absurd hnil hne
  | leftEmpty source rejections hne hreq hall hrej => exact absurd hnil hne
  | filled source r hr hpass result q hassign => exact absurd hr (hnil ▸ List.not_mem_nil)

/-- A course whose candidates are all turned down is left empty, or refused if it is required;
every candidate is counted in the report, and no more comes of it than a new cycle. -/
theorem Selects.of_rejected (h : k.Selects c slot excluded p result q)
    (hne : k.candidates c excluded ≠ [])
    (hall : ∀ r ∈ k.candidates c excluded, ∃ reason,
      (⟨k.rules, slot, k.courseState c excluded p.rotation, true⟩ : Scorer).rejection? r =
        .ok (some reason)) :
    q.rotation = k.courseState c excluded p.rotation ∧
      ∃ rejections : Rejections,
        (rejections.map (·.2)).sum = (k.candidates c excluded).length ∧
        if c = .main then result = .error (.searchFailed (.noCandidate c slot.date rejections))
        else result = .ok none ∧
          q.journal.getLast? = some (.slotLeftEmpty c slot.date rejections) := by
  have hmoment := slotMoment_rotation (p := p) hne
  rw [← slotScorer_eq hne] at hall
  cases h with
  | insufficient hnil hreq => exact absurd hnil hne
  | skipped hnil hreq => exact absurd hnil hne
  | unscored source r hr herr =>
      obtain ⟨reason, hreason⟩ := hall r hr
      rw [Scorer.score?_of_rejected hreason] at herr
      contradiction
  | filled source r hr hpass result q hassign =>
      obtain ⟨reason, hreason⟩ := hall r hr
      rw [hpass] at hreason
      simp at hreason
  | failed source rejections hne' hreq hall' hrej =>
      refine ⟨hmoment, rejections, Scorer.sum_of_rejections rfl hall hrej, ?_⟩
      rw [if_pos (of_decide_eq_true hreq)]
  | leftEmpty source rejections hne' hreq hall' hrej =>
      refine ⟨hmoment, rejections, Scorer.sum_of_rejections rfl hall hrej, ?_⟩
      rw [if_neg (of_decide_eq_false hreq)]
      exact ⟨rfl, List.getLast?_concat⟩

/-! ## slots that are filled -/

/-- The numbers that a choice goes by are within the range of the doubles, also for a side dish,
before which one more serving of its cuisine may be counted. -/
structure Reckons (k : Kitchen) (t : Rotation) : Prop where
  /-- Every recipe has a complexity score. -/
  scored : ∀ r ∈ k.pool.recipes, ∃ x, r.complexityScore k.rules.formula = .ok x
  counted : ∀ cuisine n, n ≤ t.servingsOf cuisine + 1 → (nearestDouble n).isSome = true

namespace Reckons

variable {t : Rotation}

/-- A recipe of the pool can be scored, also when one more serving was counted. -/
theorem exists_score? (h : k.Reckons t) (hr : r ∈ k.pool.recipes) {s : Scorer}
    (hrules : s.rules = k.rules)
    (hservings : s.rotation.servingsOf r.cuisine ≤ t.servingsOf r.cuisine + 1) :
    ∃ score, s.score? r = .ok score := by
  obtain ⟨x, hx⟩ := h.scored r hr
  exact Scorer.exists_score? (hrules ▸ hx) (h.counted r.cuisine _ hservings)

end Reckons

/-- With numbers within range, filling a slot with a given recipe of the pool succeeds. -/
theorem Assigns.exists_ok {reset : Bool} {result : Except PlanError Choice} {t : Rotation}
    (h : k.Assigns slot r reset p result q) (hnum : k.Reckons t) (hr : r ∈ k.pool.recipes)
    (hservings : ∀ cuisine, p.rotation.servingsOf cuisine = t.servingsOf cuisine) :
    ∃ choice, result = .ok choice := by
  cases h with
  | unscored hnone =>
      obtain ⟨x, hx⟩ := hnum.scored r hr
      rw [hx] at hnone
      contradiction
  | alone y hy hside => exact ⟨_, rfl⟩
  | accompanied y hy hside result q hpair =>
      cases result with
      | ok chosen => exact ⟨_, rfl⟩
      | error e =>
          obtain ⟨⟨side, hsuits, herr⟩, -⟩ := hpair.of_error
          have hmem := (Pool.mem_forCourse.mp (Pool.mem_forCourse_of_mem_sidesFor hsuits)).1
          -- the main course's own serving has been counted when its side dish is scored
          have hcount : (k.sideState r ((p.taking r).after y).rotation).servingsOf side.cuisine ≤
              t.servingsOf side.cuisine + 1 := by
            have hstate : (k.sideState r ((p.taking r).after y).rotation).servingsOf side.cuisine =
                (p.rotation.countServing r.cuisine).servingsOf side.cuisine := by
              unfold sideState
              split <;> rfl
            rw [hstate, Rotation.servingsOf_countServing, hservings]
            split <;> omega
          obtain ⟨score, hscore⟩ := hnum.exists_score? hmem
            (s := k.sideMeasure r ((p.taking r).after y).rotation slot y) rfl hcount
          rw [hscore] at herr
          contradiction

/-- Where the numbers are within range and a candidate is not turned down, the slot is filled. -/
theorem Selects.exists_some (h : k.Selects c slot excluded p result q)
    (hnum : k.Reckons p.rotation) (hne : k.candidates c excluded ≠ [])
    (hsome : ¬ ∀ r ∈ k.candidates c excluded, ∃ reason,
      (⟨k.rules, slot, k.courseState c excluded p.rotation, true⟩ : Scorer).rejection? r =
        .ok (some reason)) :
    ∃ choice, result = .ok (some choice) := by
  rw [← slotScorer_eq hne] at hsome
  have hservings := k.slotMoment_servingsOf c excluded p
  cases h with
  | insufficient hnil hreq => exact absurd hnil hne
  | skipped hnil hreq => exact absurd hnil hne
  | failed source rejections hne' hreq hall hrej => exact absurd hall hsome
  | leftEmpty source rejections hne' hreq hall hrej => exact absurd hall hsome
  | unscored source r hr herr =>
      have hmem := (Pool.mem_forCourse.mp (mem_candidates.mp hr).1).1
      obtain ⟨score, hscore⟩ := hnum.exists_score? hmem (s := k.slotScorer c slot excluded p) rfl
        (Nat.le_succ_of_le (Nat.le_of_eq (hservings r.cuisine)))
      rw [hscore] at herr
      contradiction
  | filled source r hr hpass result q hassign =>
      have hmem := (Pool.mem_forCourse.mp (mem_candidates.mp hr).1).1
      obtain ⟨choice, rfl⟩ := hassign.exists_ok hnum hmem hservings
      exact ⟨choice, rfl⟩

/-- What fills a slot is a candidate that passes the constraints in the state of the choice; it
says whether a new cycle began; and it is all that is added to the used recipes of the course. -/
theorem Selects.of_filled (h : k.Selects c slot excluded p (.ok (some choice)) q) :
    choice.recipe ∈ k.candidates c excluded ∧
      (⟨k.rules, slot, k.courseState c excluded p.rotation, true⟩ : Scorer).rejection?
        choice.recipe = .ok none ∧
      choice.cycleReset = decide (k.RenewsCourse c excluded p.rotation) ∧
      q.rotation.usedIds c =
        ((k.courseState c excluded p.rotation).usedIds c).insert choice.recipe.id := by
  obtain ⟨hcand, hpass, hreset, source, hassign⟩ := h.of_some
  have hne := List.ne_nil_of_mem hcand
  have hcourse := (Pool.mem_forCourse.mp (mem_candidates.mp hcand).1).2
  rw [slotScorer_eq hne] at hpass
  refine ⟨hcand, hpass, ?_, ?_⟩
  · rw [hreset, decide_eq_decide]
    exact (and_iff_right hne).symm
  · have hused := hassign.usedIds
    rwa [hcourse, drawn_rotation, slotMoment_rotation hne] at hused

/-- The state of the choice differs from the one at the beginning exactly if a new cycle began. -/
theorem courseState_ne_iff (t : Rotation) :
    k.courseState c excluded t ≠ t ↔ k.RenewsCourse c excluded t := by
  unfold courseState
  split
  · next h =>
      refine iff_of_true (fun hsame => ?_) h
      have hcycle := congrArg Rotation.cycle hsame
      rw [Rotation.cycle_reset] at hcycle
      omega
  · next h => exact iff_of_false (fun hne => hne rfl) h

/-- Filling a slot from the pool, by its candidates and the state of the choice, which is the one
at the beginning unless there are candidates and all of them were used.  Without a candidate
that passes all constraints in that state, nothing is taken: a main course slot fails, any other
is left empty, the state stays as it is, and the rejections that are reported are as many as the
candidates.  Otherwise, the numbers being within range, a candidate that passes fills the
slot; it says whether a new cycle began, and is all that is added to the used recipes of the
course. -/
theorem outcome_of_select (k : Kitchen) (c : Course) (slot : SlotContext)
    (excluded : List String) (p : Progress) :
    let candidates := k.candidates c excluded
    let t := k.courseState c excluded p.rotation
    let measure : Scorer := ⟨k.rules, slot, t, true⟩
    let out := Planning.run (k.select c slot excluded) p
    (candidates = [] →
      out = (if c = .main then .error (.insufficientRecipes 1 0) else .ok none, p) ∧
      t = p.rotation) ∧
    (candidates ≠ [] →
      (∀ r ∈ candidates, ∃ reason, measure.rejection? r = .ok (some reason)) →
      out.2.rotation = t ∧ ∃ rejections : Rejections,
        (rejections.map (·.2)).sum = candidates.length ∧
        if c = .main then out.1 = .error (.searchFailed (.noCandidate c slot.date rejections))
        else out.1 = .ok none ∧
          out.2.journal.getLast? = some (.slotLeftEmpty c slot.date rejections)) ∧
    (k.Reckons p.rotation → candidates ≠ [] →
      (¬ ∀ r ∈ candidates, ∃ reason, measure.rejection? r = .ok (some reason)) →
      ∃ choice, out.1 = .ok (some choice) ∧ choice.recipe ∈ candidates ∧
        measure.rejection? choice.recipe = .ok none ∧
        (choice.cycleReset = true ↔ t ≠ p.rotation) ∧
        out.2.rotation.usedIds c = (t.usedIds c).insert choice.recipe.id) := by
  intro candidates t measure out
  have hselects : k.Selects c slot excluded p out.1 out.2 := k.selects_select c slot excluded p
  refine ⟨fun hnil => ?_, fun hne hall => hselects.of_rejected hne hall,
    fun hnum hne hsome => ?_⟩
  · obtain ⟨hsame, hresult⟩ := hselects.of_nil hnil
    exact ⟨Prod.ext hresult hsame, courseState_of_nil hnil _⟩
  · obtain ⟨choice, hchoice⟩ := hselects.exists_some hnum hne hsome
    rw [hchoice] at hselects
    obtain ⟨hcand, hpass, hreset, hused⟩ := hselects.of_filled
    refine ⟨choice, hchoice, hcand, hpass, ?_, hused⟩
    rw [hreset, decide_eq_true_iff, courseState_ne_iff]

/-- Of two main courses, both of them used, the quick one can be chosen in a new cycle; the slow
one is turned down, and counted. -/
theorem outcome_of_select_two :
    let slow : Recipe := { Recipe.plain .main "slow" with prepMinutes := some 1000 }
    let k : Kitchen := ⟨⟨.standard, {}⟩, Pool.ofRecipes [Recipe.plain .main "quick", slow]⟩
    let p : Progress := ⟨(Rotation.fresh.mark .main "quick").mark .main "slow", none, []⟩
    let slot : SlotContext := slotOn Date.first p.rotation
    k.Reckons p.rotation ∧
    (∃ choice, (Planning.run (k.select .main slot ["slow"]) p).1 = .ok (some choice) ∧
      choice.recipe ∈ k.candidates .main ["slow"] ∧ choice.cycleReset = true) ∧
    ∃ rejections : Rejections, (rejections.map (·.2)).sum = 1 ∧
      (Planning.run (k.select .main slot ["quick"]) p).1 =
        .error (.searchFailed (.noCandidate .main Date.first rejections)) := by
  intro slow k p slot
  have hnum : k.Reckons p.rotation := by
    refine ⟨fun r hr => ?_, fun cuisine n hn => ?_⟩
    · rcases List.mem_cons.mp (Pool.mem_of_mem_ofRecipes hr) with rfl | hr
      · exact ⟨0, rfl⟩
      · rw [List.mem_singleton.mp hr]
        exact ⟨0, rfl⟩
    · have hfew : n ≤ 1 := hn
      obtain rfl | rfl : n = 0 ∨ n = 1 := by omega
      · decide +kernel
      · decide +kernel
  have hquick : k.candidates .main ["slow"] = [Recipe.plain .main "quick"] := by decide +kernel
  have hslow : k.candidates .main ["quick"] = [slow] := by decide +kernel
  obtain ⟨-, -, hfilled⟩ := outcome_of_select k .main slot ["slow"] p
  obtain ⟨-, hrejected, -⟩ := outcome_of_select k .main slot ["quick"] p
  refine ⟨hnum, ?_, ?_⟩
  · have hpass : (⟨k.rules, slot, k.courseState .main ["slow"] p.rotation, true⟩ :
        Scorer).rejection? (Recipe.plain .main "quick") = .ok none :=
      eq_ok_of_toOption (by decide +kernel)
    have hrenews : k.RenewsCourse .main ["slow"] p.rotation := by decide +kernel
    obtain ⟨choice, hchoice, hcand, -, hreset, -⟩ := hfilled hnum (by simp [hquick]) fun hall => by
      obtain ⟨reason, hreason⟩ := hall _ (hquick ▸ List.mem_cons_self)
      rw [hpass] at hreason
      simp at hreason
    exact ⟨choice, hchoice, hcand, hreset.mpr ((courseState_ne_iff _).mpr hrenews)⟩
  · obtain ⟨-, rejections, hsum, herr⟩ := hrejected (by simp [hslow]) fun r hr => by
      rw [hslow] at hr
      rw [List.mem_singleton.mp hr]
      exact ⟨.overTimeCeiling, rfl⟩
    exact ⟨rejections, hsum.trans (by rw [hslow]; rfl), herr⟩

end Kitchen

end MealRota
