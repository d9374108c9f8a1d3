import MealRota.Proofs.Ranking
import MealRota.Proofs.SlotOutcomes

/-!
# MealRota.Proofs.SeededSlots

Filling a slot with and without a source of random numbers.  Both ways of choosing go by the
ranking of the candidates: without one that can be made, or if it is empty, nothing is chosen and
the source makes no difference; otherwise both choose from it.  The two may still come to
different ends, since the recipes that they choose may be paired with different side dishes.

* `pickAt_eq_getElem?` — the draw by its index, which is within the list;
* `Kitchen.run_select_of_unranked`, `Kitchen.run_select_of_ranked` — filling a slot by the ranking;
* `Kitchen.error_iff_of_assign` — when a chosen recipe cannot fill it;
* `Kitchen.select_seeded` — the two ways compared.
-/

namespace MealRota

open Planning Progress

/-! ## the index of a draw -/

section

variable {α : Type _}

/-- The points at which options end that lie side by side from `start` on. -/
def runningSums (start : Float) : List (Float × α) → List Float
  | [] => []
  | (w, _) :: l => (start + w) :: runningSums (start + w) l

/-- The index of the first option that ends beyond `point`, the last one at most. -/
def drawIndex (point start : Float) (options : List (Float × α)) : Nat :=
  min ((runningSums start options).findIdx fun sum => point < sum) (options.length - 1)

theorem drawIndex_lt (point start : Float) {options : List (Float × α)} (h : options ≠ []) :
    drawIndex point start options < options.length := by
  have hpos := List.length_pos_iff.mpr h
  unfold drawIndex
  omega

theorem drawIndex_cons_cons (point start w : Float) (a : α) (o : Float × α)
    (l : List (Float × α)) : drawIndex point start ((w, a) :: o :: l) =
      if point < start + w then 0 else drawIndex point (start + w) (o :: l) + 1 := by
  unfold drawIndex
  rw [runningSums, List.findIdx_cons]
  simp only [List.length_cons, Nat.add_sub_cancel]
  split
  · next h => simp [h]
  · next h =>
      simp only [h, decide_false, cond_false]
      exact Nat.add_min_add_right _ _ 1

/-- What is drawn is the option of that index. -/
theorem pickAt_eq_getElem? (point start : Float) (options : List (Float × α)) :
    pickAt point start options = options[drawIndex point start options]?.map (·.2) := by
  induction options generalizing start with
  | nil => rfl
  | cons o l ih =>
      obtain ⟨w, a⟩ := o
      cases l with
      | nil => simp [pickAt, drawIndex]
      | cons o' l =>
          rw [drawIndex_cons_cons, pickAt]
          · split
            · rfl
            · rw [ih, List.getElem?_cons_succ]
          · simp

end

/-- A ranking as options to draw from. -/
def optionsOf (ranked : List Scored) : List (Float × Recipe) :=
  ranked.map fun x => (x.score, x.recipe)

theorem pickAt_optionsOf (point start : Float) (ranked : List Scored) :
    pickAt point start (optionsOf ranked) =
      ranked[drawIndex point start (optionsOf ranked)]?.map (·.recipe) := by
  rw [pickAt_eq_getElem?]
  generalize drawIndex point start (optionsOf ranked) = i
  rw [optionsOf, List.getElem?_map, Option.map_map]
  rfl

/-- The index at which a ranking is drawn from: the first one if the scores add up to nothing. -/
def rankIndex (ranked : List Scored) (u : Float) : Nat :=
  if totalWeight (optionsOf ranked) ≤ 0 then 0
  else drawIndex (u * totalWeight (optionsOf ranked)) 0 (optionsOf ranked)

theorem rankIndex_lt {ranked : List Scored} (h : ranked ≠ []) (u : Float) :
    rankIndex ranked u < ranked.length := by
  unfold rankIndex
  split
  · exact List.length_pos_iff.mpr h
  · have hne : optionsOf ranked ≠ [] := by simpa [optionsOf] using h
    have hlt := drawIndex_lt (u * totalWeight (optionsOf ranked)) 0 hne
    simpa [optionsOf] using hlt

/-- A drawing from a ranking that is not empty gives the recipe of that index. -/
theorem run_drawRanked_eq {ranked : List Scored} (h : ranked ≠ []) {p : Progress} {t : Twister}
    (hsource : p.source = some t) : ∃ source, run (drawRanked ranked) p =
      (.ok (some (ranked.get ⟨rankIndex ranked t.nextDouble.1, rankIndex_lt h _⟩).recipe),
        p.drawn source) := by
  have hindex : ranked[rankIndex ranked t.nextDouble.1]? =
      some (ranked.get ⟨rankIndex ranked t.nextDouble.1, rankIndex_lt h _⟩) :=
    List.getElem?_eq_getElem (rankIndex_lt h t.nextDouble.1)
  generalize ranked.get ⟨rankIndex ranked t.nextDouble.1, rankIndex_lt h _⟩ = x at hindex ⊢
  cases ranked with
  | nil => contradiction
  | cons first l =>
      unfold rankIndex at hindex
      change ∃ source, run (if totalWeight (optionsOf (first :: l)) ≤ 0 then
        pure (some first.recipe) else _) p = _
      by_cases htotal : totalWeight (optionsOf (first :: l)) ≤ 0
      · rw [if_pos htotal] at hindex ⊢
        rw [← Option.some.inj hindex]
        exact ⟨p.source, rfl⟩
      · rw [if_neg htotal] at hindex ⊢
        have hdraw : run draw? p = (.ok (some t.nextDouble.1), p.drawn (some t.nextDouble.2)) := by
          change draw? p = _
          unfold draw?
          rw [hsource]
          rfl
        rw [run_bind_of_ok hdraw]
        refine ⟨some t.nextDouble.2, congrArg (fun r => (Except.ok r, _)) ?_⟩
        change pickAt (_ * totalWeight (optionsOf (first :: l))) 0 (optionsOf (first :: l)) = _
        rw [pickAt_optionsOf, hindex]
        rfl

/-! ## choosing by the ranking -/

namespace Scorer

variable {s : Scorer} {candidates : List Recipe} {ranked : List Scored} {e : PlanError}

/-- The single pass finds one of those that it goes through, if there are any. -/
theorem foldl_better?_cases (best : Option Scored) (l : List Scored) :
    (l.foldl better? best = none ∧ best = none ∧ l = []) ∨
      ∃ x, l.foldl better? best = some x ∧ (best = some x ∨ x ∈ l) := by
  induction l generalizing best with
  | nil => cases best <;> simp
  | cons a l ih =>
      rw [List.foldl_cons]
      rcases ih (better? best a) with ⟨-, hnone, -⟩ | ⟨x, hx, hfrom⟩
      · cases best with
        | none => contradiction
        | some old =>
            unfold better? at hnone
            simp only at hnone
            split at hnone <;> contradiction
      · refine Or.inr ⟨x, hx, ?_⟩
        rcases hfrom with hbetter | hin
        · rcases SettlesFrom.better?_cases best a with hnew | ⟨hold, -⟩
          · rw [Option.some.inj (hbetter.symm.trans hnew)]
            exact Or.inr List.mem_cons_self
          · exact Or.inl (hold.symm.trans hbetter)
        · exact Or.inr (List.mem_cons_of_mem a hin)

/-- The single pass fails as the ranking does. -/
theorem best?_of_rank_error (h : s.rank candidates = .error e) :
    s.best? candidates = .error e := by
  unfold rank at h
  unfold best?
  rw [foldlM_consider]
  cases hs : s.survivors candidates with
  | error e' =>
      rw [hs] at h
      exact congrArg Except.error (Except.error.inj h)
  | ok l =>
      rw [hs] at h
      contradiction

/-- The single pass finds nothing if the ranking is empty, and one of it otherwise, also where
scores are not numbers. -/
theorem best?_of_rank (h : s.rank candidates = .ok ranked) :
    (ranked = [] → s.best? candidates = .ok none) ∧
      (ranked ≠ [] → ∃ x ∈ ranked, s.best? candidates = .ok (some x.recipe)) := by
  unfold rank at h
  unfold best?
  rw [foldlM_consider]
  cases hs : s.survivors candidates with
  | error e =>
      rw [hs] at h
      contradiction
  | ok l =>
      rw [hs] at h
      obtain rfl := Except.ok.inj h
      rw [ne_eq, sortBy_eq_nil_iff]
      refine ⟨?_, fun hne => ?_⟩
      · rintro rfl
        rfl
      · obtain ⟨-, -, hl⟩ | ⟨x, hx, hin⟩ := foldl_better?_cases none l
        · exact absurd hl hne
        · refine ⟨x, (perm_sortBy _ l).mem_iff.mpr (hin.resolve_left (by simp)), ?_⟩
          exact congrArg (fun best => Except.ok (best.map (·.recipe))) hx

/-- What is ranked has a complexity score. -/
theorem exists_complexityScore_of_rank (h : s.rank candidates = .ok ranked) {x : Scored}
    (hx : x ∈ ranked) : ∃ y, x.recipe.complexityScore s.rules.formula = .ok y :=
  complexityScore_of_passes (passes_of_score? (mem_of_rank h hx).2)

end Scorer

section

variable {s : Scorer} {candidates : List Recipe} {ranked : List Scored} {e : PlanError}

theorem run_chooseFrom_of_rank_error (h : s.rank candidates = .error e) (p : Progress) :
    run (chooseFrom s candidates) p = (.error e, p) := by
  unfold chooseFrom
  rw [run_bind_of_ok (run_isRandom p)]
  cases p.source.isSome with
  | false => exact congrArg (·, p) (Scorer.best?_of_rank_error h)
  | true => exact run_bind_of_error (congrArg (·, p) h) _

theorem run_chooseFrom_of_rank_nil (h : s.rank candidates = .ok []) (p : Progress) :
    run (chooseFrom s candidates) p = (.ok none, p) := by
  unfold chooseFrom
  rw [run_bind_of_ok (run_isRandom p)]
  cases p.source.isSome with
  | false => exact congrArg (·, p) ((Scorer.best?_of_rank h).1 rfl)
  | true => exact run_bind_of_ok (congrArg (·, p) h) _

/-- From a ranking that is not empty one is chosen, in either way. -/
theorem run_chooseFrom_of_rank (h : s.rank candidates = .ok ranked) (hne : ranked ≠ [])
    (p : Progress) : ∃ x ∈ ranked, ∃ source,
      run (chooseFrom s candidates) p = (.ok (some x.recipe), p.drawn source) := by
  unfold chooseFrom
  rw [run_bind_of_ok (run_isRandom p)]
  cases hsource : p.source with
  | none =>
      obtain ⟨x, hx, hbest⟩ := (Scorer.best?_of_rank h).2 hne
      exact ⟨x, hx, p.source, congrArg (·, p) hbest⟩
  | some t =>
      obtain ⟨source, hdrawn⟩ := run_drawRanked_eq hne hsource
      refine ⟨_, List.get_mem ranked ⟨_, rankIndex_lt hne t.nextDouble.1⟩, source, ?_⟩
      exact (run_bind_of_ok (congrArg (·, p) h) _).trans hdrawn

end

/-! ## a slot by the ranking -/

namespace Kitchen

variable {k : Kitchen} {c : Course} {slot : SlotContext} {excluded : List String}
  {p q : Progress} {main r side : Recipe} {x : Float} {ranked : List Scored}
  {source : Option Twister} {result : Except PlanError (Option Choice)}

theorem slotMoment_drawn : k.slotMoment c excluded (p.drawn source) =
    (k.slotMoment c excluded p).drawn source := by
  unfold slotMoment Progress.renewed
  rw [drawn_rotation]
  split <;> rfl

theorem slotScorer_drawn : k.slotScorer c slot excluded (p.drawn source) =
    k.slotScorer c slot excluded p := by
  unfold slotScorer
  rw [slotMoment_drawn, drawn_rotation]

/-- What is done about a slot once one of its candidates, or none, was chosen. -/
def settle (k : Kitchen) (slot : SlotContext) (c : Course) (s : Scorer) (candidates : List Recipe)
    (reset : Bool) : Option Recipe → Planning (Option Choice)
  | some r => do return some (← k.assign slot r reset)
  | none => do
    let rejections ← lift (s.rejections candidates)
    if c.isRequired then fail (.searchFailed (.noCandidate c slot.date rejections))
    else
      record (.slotLeftEmpty c slot.date rejections)
      return none

/-- If nothing was chosen, the source of random numbers makes no difference. -/
theorem run_settle_none (s : Scorer) (candidates : List Recipe) (reset : Bool) (p : Progress) :
    run (k.settle slot c s candidates reset none) (p.drawn source) =
      ((run (k.settle slot c s candidates reset none) p).1,
        (run (k.settle slot c s candidates reset none) p).2.drawn source) ∧
    ∀ choice, (run (k.settle slot c s candidates reset none) p).1 ≠ .ok (some choice) := by
  unfold settle
  simp only
  rw [run_bind, run_bind, run_lift, run_lift]
  cases s.rejections candidates with
  | error e => exact ⟨rfl, by simp⟩
  | ok rejections =>
      simp only
      split
      · exact ⟨rfl, by simp⟩
      · exact ⟨rfl, fun choice hsome =>
          Option.some_ne_none choice (Except.ok.inj hsome).symm⟩

/-- If there are candidates, one is chosen once a new cycle has begun if need be. -/
theorem run_select_eq (hne : k.candidates c excluded ≠ []) (p : Progress) :
    run (k.select c slot excluded) p =
      run (chooseFrom (k.slotScorer c slot excluded p) (k.candidates c excluded) >>=
        k.settle slot c (k.slotScorer c slot excluded p) (k.candidates c excluded)
          (decide (k.RenewsCourse c excluded p.rotation))) (k.slotMoment c excluded p) := by
  have hreset : decide (∀ r ∈ k.candidates c excluded, p.rotation.isUsed c r.id = true) =
      decide (k.RenewsCourse c excluded p.rotation) :=
    decide_eq_decide.mpr (and_iff_right hne).symm
  unfold select
  simp only [List.isEmpty_iff]
  rw [if_neg hne, run_bind_of_ok (run_renewCourse c (k.candidates c excluded) p),
    run_bind_of_ok (run_rotation _), hreset]
  change run (chooseFrom (k.slotScorer c slot excluded p) _ >>= _) (k.slotMoment c excluded p) = _
  rw [run_bind, run_bind]
  cases run (chooseFrom (k.slotScorer c slot excluded p) (k.candidates c excluded))
    (k.slotMoment c excluded p) with
  | mk chosen m =>
      cases chosen with
      | error e => rfl
      | ok found => cases found <;> rfl

/-- Without a ranking to choose from, the source of random numbers makes no difference, and nothing
is chosen. -/
theorem run_select_of_unranked
    (h : ∀ ranked, (k.slotScorer c slot excluded p).rank (k.candidates c excluded) = .ok ranked →
      ranked = []) (source : Option Twister) :
    run (k.select c slot excluded) (p.drawn source) =
      ((run (k.select c slot excluded) p).1, (run (k.select c slot excluded) p).2.drawn source) ∧
    ∀ choice, (run (k.select c slot excluded) p).1 ≠ .ok (some choice) := by
  by_cases hnil : k.candidates c excluded = []
  · unfold select
    simp only [List.isEmpty_iff]
    rw [if_pos hnil]
    split
    · exact ⟨rfl, by simp⟩
    · exact ⟨rfl, by simp⟩
  · rw [run_select_eq hnil, run_select_eq hnil, slotScorer_drawn, slotMoment_drawn, drawn_rotation]
    cases hrank : (k.slotScorer c slot excluded p).rank (k.candidates c excluded) with
    | error e =>
        rw [run_bind_of_error (run_chooseFrom_of_rank_error hrank _),
          run_bind_of_error (run_chooseFrom_of_rank_error hrank _)]
        exact ⟨rfl, by simp⟩
    | ok ranked =>
        rw [h ranked hrank] at hrank
        rw [run_bind_of_ok (run_chooseFrom_of_rank_nil hrank _),
          run_bind_of_ok (run_chooseFrom_of_rank_nil hrank _)]
        exact run_settle_none _ _ _ _

/-- From a ranking that is not empty a recipe is chosen, which then is to fill the slot. -/
theorem run_select_of_ranked
    (h : (k.slotScorer c slot excluded p).rank (k.candidates c excluded) = .ok ranked)
    (hne : ranked ≠ []) : ∃ x ∈ ranked, ∃ source,
      let assigned := run (k.assign slot x.recipe (decide (k.RenewsCourse c excluded p.rotation)))
        ((k.slotMoment c excluded p).drawn source)
      run (k.select c slot excluded) p = (assigned.1.map some, assigned.2) := by
  have hcandidates : k.candidates c excluded ≠ [] := by
    intro hnil
    rw [hnil] at h
    exact hne (Except.ok.inj h).symm
  obtain ⟨x, hx, source, hchosen⟩ := run_chooseFrom_of_rank h hne (k.slotMoment c excluded p)
  refine ⟨x, hx, source, ?_⟩
  rw [run_select_eq hcandidates, run_bind_of_ok hchosen]
  exact run_bind_pure _ _ _

/-! ## a chosen recipe -/

/-- Whether pairing a main course, once it is taken, fails: one of the side dishes that suit it
cannot be scored. -/
def PairingFails (k : Kitchen) (slot : SlotContext) (t : Rotation) (r : Recipe) : Prop :=
  r.course = .main ∧ r.takesSide = true ∧ ∃ x, r.complexityScore k.rules.formula = .ok x ∧
    ∃ side ∈ k.pool.sidesFor r, ¬ (k.sideMeasure r
      { (t.mark r.course r.id).countServing r.cuisine with lastComplexity := some x }
      slot x).Scorable side

/-- If a side dish that suits the main course cannot be scored, pairing fails. -/
theorem run_pairSide_of_unscorable (hside : side ∈ k.pool.sidesFor main)
    (h : ¬ (k.sideMeasure main p.rotation slot x).Scorable side) :
    (run (k.pairSide slot main x) p).1 = .error .numberOutOfRange := by
  have hne : k.pool.sidesFor main ≠ [] := List.ne_nil_of_mem hside
  have hrank : (k.sideScorer slot main x p).rank (k.pool.sidesFor main) =
      .error .numberOutOfRange := by
    rw [sideScorer_eq hne]
    exact Scorer.rank_eq_error_iff.mpr ⟨rfl, side, hside, h⟩
  unfold pairSide
  simp only [List.isEmpty_iff]
  rw [run_bind_of_ok (run_record _ p), if_neg hne]
  change (run (k.renewSides _ >>= _) (p.note (.sideSought main.id slot.date))).1 = _
  rw [run_bind_of_ok (k.run_renewSides main _), run_bind_of_ok (run_rotation _)]
  change (run (chooseFrom (k.sideScorer slot main x p) _ >>= _) (k.sideMoment slot main p)).1 = _
  rw [run_bind_of_error (run_chooseFrom_of_rank_error hrank _)]

/-- Pairing fails just then. -/
theorem run_pairSide_error_iff {e : PlanError} : (run (k.pairSide slot main x) p).1 = .error e ↔
    e = .numberOutOfRange ∧ ∃ side ∈ k.pool.sidesFor main,
      ¬ (k.sideMeasure main p.rotation slot x).Scorable side := by
  refine ⟨fun h => ?_, ?_⟩
  · have hpairs := k.pairs_pairSide slot main x p
    rw [h] at hpairs
    obtain ⟨⟨side, hside, herr⟩, -⟩ := hpairs.of_error
    refine ⟨hpairs.eq_of_error, side, hside, ?_⟩
    rintro ⟨score, hscore⟩
    rw [hscore] at herr
    contradiction
  · rintro ⟨rfl, side, hside, hbad⟩
    exact run_pairSide_of_unscorable hside hbad

/-- Filling a slot with a recipe that has a complexity score fails just if pairing does. -/
theorem error_iff_of_assign {reset : Bool} {e : PlanError}
    (hx : r.complexityScore k.rules.formula = .ok x) :
    (run (k.assign slot r reset) p).1 = .error e ↔
      e = .numberOutOfRange ∧ k.PairingFails slot p.rotation r := by
  have htake : run (k.take r) p = (.ok x, p.taking r) := by rw [run_take, hx]
  have hstate : ((p.taking r).after x).rotation =
      { (p.rotation.mark r.course r.id).countServing r.cuisine with lastComplexity := some x } :=
    rfl
  unfold assign
  rw [run_bind_of_ok htake, run_bind_of_ok (run_updateRotation _ _)]
  change (run _ ((p.taking r).after x)).1 = _ ↔ _
  by_cases h : r.course = .main ∧ r.takesSide = true
  · rw [if_pos h, run_bind_pure]
    change (run (k.pairSide slot r x) ((p.taking r).after x)).1.map _ = _ ↔ _
    have hmap : ∀ result : Except PlanError (Option Recipe),
        (result.map fun side => (⟨r, side, reset⟩ : Choice)) = .error e ↔ result = .error e := by
      intro result
      cases result <;> simp [Except.map]
    rw [hmap, run_pairSide_error_iff, hstate]
    refine and_congr_right fun _ => ⟨fun hbad => ⟨h.1, h.2, x, hx, hbad⟩, ?_⟩
    rintro ⟨-, -, y, hy, hbad⟩
    rw [Except.ok.inj (hx.symm.trans hy)]
    exact hbad
  · rw [if_neg h]
    exact ⟨fun hbad => by contradiction, fun hbad => absurd ⟨hbad.2.1, hbad.2.2.1⟩ h⟩

/-- A slot for which a recipe was chosen: it is filled with that recipe unless pairing fails. -/
def FilledBy (k : Kitchen) (slot : SlotContext) (t : Rotation) (reset : Bool) (r : Recipe)
    (result : Except PlanError (Option Choice)) : Prop :=
  (k.PairingFails slot t r → result = .error .numberOutOfRange) ∧
    (¬ k.PairingFails slot t r → ∃ side, result = .ok (some ⟨r, side, reset⟩))

theorem filledBy_of_assign {reset : Bool} (hx : r.complexityScore k.rules.formula = .ok x) :
    k.FilledBy slot p.rotation reset r ((run (k.assign slot r reset) p).1.map some) := by
  refine ⟨fun hfails => ?_, fun hfails => ?_⟩
  · rw [(error_iff_of_assign hx).mpr ⟨rfl, hfails⟩]
    rfl
  · have hassigns := k.assigns_assign slot r reset p
    cases hrun : (run (k.assign slot r reset) p).1 with
    | error e => exact absurd ((error_iff_of_assign hx).mp hrun).2 hfails
    | ok choice =>
        rw [hrun] at hassigns
        obtain ⟨hrecipe, hreset⟩ := hassigns.of_ok
        exact ⟨choice.side, by rw [← hrecipe, ← hreset]; rfl⟩

/-! ## resets -/

/-- Filling a slot begins a new cycle of the course, once, if there are candidates and all of them
were used; whatever comes of it. -/
theorem Selects.resetsOf_course (h : k.Selects c slot excluded p result q) :
    resetsOf c q.journal =
      resetsOf c p.journal + if k.RenewsCourse c excluded p.rotation then 1 else 0 := by
  have hmoment (hne : k.candidates c excluded ≠ []) :
      resetsOf c (k.slotMoment c excluded p).journal =
        resetsOf c p.journal + if k.RenewsCourse c excluded p.rotation then 1 else 0 := by
    rw [resetsOf_slotMoment]
    exact congrArg _ (if_congr (and_iff_right hne).symm rfl rfl)
  cases h with
  | insufficient hnil hreq => rw [if_neg fun hrenews => hrenews.1 hnil, Nat.add_zero]
  | skipped hnil hreq => rw [if_neg fun hrenews => hrenews.1 hnil, Nat.add_zero]
  | unscored source r hr herr => exact hmoment (List.ne_nil_of_mem hr)
  | failed source rejections hne hreq hall hrej => exact hmoment hne
  | leftEmpty source rejections hne hreq hall hrej =>
      rw [← hmoment hne]
      simp [resetsOf, Event.resets]
  | filled source r hr hpass result q hassign =>
      have hcourse := (Pool.mem_forCourse.mp (mem_candidates.mp hr).1).2
      have hafter := hassign.resetsOf_eq
      rw [hcourse, drawn_journal] at hafter
      rw [hafter, hmoment (List.ne_nil_of_mem hr)]

/-! ## the two ways compared -/

/-- The ranking that a slot is filled by. -/
theorem rank_slotScorer (k : Kitchen) (c : Course) (slot : SlotContext) (excluded : List String)
    (p : Progress) : (k.slotScorer c slot excluded p).rank (k.candidates c excluded) =
      (⟨k.rules, slot, k.courseState c excluded p.rotation, true⟩ : Scorer).rank
        (k.candidates c excluded) := by
  by_cases hnil : k.candidates c excluded = []
  · rw [hnil]
    rfl
  · rw [slotScorer_eq hnil]

/-- From a ranking that is not empty a recipe is chosen for the slot. -/
theorem filledBy_of_select
    (h : (⟨k.rules, slot, k.courseState c excluded p.rotation, true⟩ : Scorer).rank
      (k.candidates c excluded) = .ok ranked) (hne : ranked ≠ []) :
    ∃ x ∈ ranked, k.FilledBy slot (k.courseState c excluded p.rotation)
      (decide (k.RenewsCourse c excluded p.rotation)) x.recipe
      (run (k.select c slot excluded) p).1 := by
  have hcandidates : k.candidates c excluded ≠ [] := by
    intro hnil
    rw [hnil] at h
    exact hne (Except.ok.inj h).symm
  obtain ⟨x, hx, source, hrun⟩ := run_select_of_ranked (rank_slotScorer .. ▸ h) hne
  obtain ⟨y, hy⟩ := Scorer.exists_complexityScore_of_rank h hx
  refine ⟨x, hx, ?_⟩
  rw [hrun, ← slotMoment_rotation hcandidates, ← drawn_rotation _ source]
  exact filledBy_of_assign hy

/-- Two outcomes of filling a slot are alike: the same failure, a slot that is left empty, or a slot
that is filled, with a new cycle or without one. -/
def SameEnd (a b : Except PlanError (Option Choice)) : Prop :=
  a.map (Option.map (·.cycleReset)) = b.map (Option.map (·.cycleReset))

theorem FilledBy.sameEnd {t : Rotation} {reset : Bool} {r' : Recipe}
    {result' : Except PlanError (Option Choice)} (h : k.FilledBy slot t reset r result)
    (h' : k.FilledBy slot t reset r' result')
    (hsame : k.PairingFails slot t r ↔ k.PairingFails slot t r') : SameEnd result result' := by
  by_cases hfails : k.PairingFails slot t r
  · rw [h.1 hfails, h'.1 (hsame.mp hfails)]
    rfl
  · obtain ⟨side, rfl⟩ := h.2 hfails
    obtain ⟨side', rfl⟩ := h'.2 fun hbad => hfails (hsame.mpr hbad)
    rfl

/-- What fills a slot is the recipe that was chosen for it. -/
theorem FilledBy.eq_of_some {t : Rotation} {reset : Bool} {choice : Choice}
    (h : k.FilledBy slot t reset r (.ok (some choice))) : choice.recipe = r := by
  by_cases hfails : k.PairingFails slot t r
  · exact absurd (h.1 hfails) (by simp)
  · obtain ⟨side, hside⟩ := h.2 hfails
    rw [Option.some.inj (Except.ok.inj hside)]

/-- Filling a slot from the pool with and without a source of random numbers.  If the candidates
cannot be ranked, or none of them is, nothing is chosen in either way, and both end alike in
all but the source.  Otherwise both choose a recipe of the ranking and fill the slot with it,
unless pairing it fails.  So, if pairing fails for all recipes of the ranking or for none, the
one way fails, leaves the slot empty or fills it just as the other does.  The course begins a
new cycle in both ways if it does in one.  The draw is by an index within the ranking. -/
theorem select_seeded (k : Kitchen) (c : Course) (slot : SlotContext) (excluded : List String)
    (p : Progress) (source : Twister) :
    let candidates := k.candidates c excluded
    let t := k.courseState c excluded p.rotation
    let measure : Scorer := ⟨k.rules, slot, t, true⟩
    let reset := decide (k.RenewsCourse c excluded p.rotation)
    let plain := run (k.select c slot excluded) (p.drawn none)
    let seeded := run (k.select c slot excluded) (p.drawn (some source))
    ((∀ ranked, measure.rank candidates = .ok ranked → ranked = []) →
      seeded = (plain.1, plain.2.drawn (some source)) ∧
      ∀ choice, plain.1 ≠ .ok (some choice)) ∧
    (∀ ranked, measure.rank candidates = .ok ranked → ranked ≠ [] →
      (∃ x ∈ ranked, k.FilledBy slot t reset x.recipe plain.1) ∧
      ∃ x ∈ ranked, k.FilledBy slot t reset x.recipe seeded.1) ∧
    ((∀ ranked, measure.rank candidates = .ok ranked → ∀ x ∈ ranked, ∀ y ∈ ranked,
        (k.PairingFails slot t x.recipe ↔ k.PairingFails slot t y.recipe)) →
      SameEnd plain.1 seeded.1) ∧
    (∀ choice, seeded.1 = .ok (some choice) → ∃ ranked, measure.rank candidates = .ok ranked ∧
      choice.recipe ∈ ranked.map (·.recipe)) ∧
    (resetsOf c seeded.2.journal = resetsOf c plain.2.journal ∧
      resetsOf c seeded.2.journal =
        resetsOf c p.journal + if k.RenewsCourse c excluded p.rotation then 1 else 0) ∧
    ∀ ranked (hne : ranked ≠ []) (q : Progress), q.source = some source → ∃ after,
      run (drawRanked ranked) q =
        (.ok (some (ranked.get ⟨rankIndex ranked source.nextDouble.1, rankIndex_lt hne _⟩).recipe),
          q.drawn after) := by
  intro candidates t measure reset plain seeded
  have hunranked (h : ∀ ranked, measure.rank candidates = .ok ranked → ranked = []) :
      seeded = (plain.1, plain.2.drawn (some source)) ∧
        ∀ choice, plain.1 ≠ .ok (some choice) :=
    run_select_of_unranked (p := p.drawn none) (fun ranked hrank =>
      h ranked ((rank_slotScorer k c slot excluded (p.drawn none)).symm.trans hrank)) (some source)
  have hranked (ranked : List Scored) (hrank : measure.rank candidates = .ok ranked)
      (hne : ranked ≠ []) : (∃ x ∈ ranked, k.FilledBy slot t reset x.recipe plain.1) ∧
        ∃ x ∈ ranked, k.FilledBy slot t reset x.recipe seeded.1 :=
    ⟨filledBy_of_select (p := p.drawn none) hrank hne,
      filledBy_of_select (p := p.drawn (some source)) hrank hne⟩
  have hcases : (∀ ranked, measure.rank candidates = .ok ranked → ranked = []) ∨
      ∃ ranked, measure.rank candidates = .ok ranked ∧ ranked ≠ [] := by
    by_cases h : ∃ ranked, measure.rank candidates = .ok ranked ∧ ranked ≠ []
    · exact Or.inr h
    · exact Or.inl fun ranked hrank => by_contra fun hne => h ⟨ranked, hrank, hne⟩
  refine ⟨hunranked, hranked, fun hpairing => ?_, fun choice hchoice => ?_, ?_,
    fun ranked hne q hsource => run_drawRanked_eq hne hsource⟩
  · rcases hcases with hnone | ⟨ranked, hrank, hne⟩
    · rw [(hunranked hnone).1]
      rfl
    · obtain ⟨⟨x, hx, hplain⟩, y, hy, hseeded⟩ := hranked ranked hrank hne
      exact hplain.sameEnd hseeded (hpairing ranked hrank x hx y hy)
  · rcases hcases with hnone | ⟨ranked, hrank, hne⟩
    · obtain ⟨hsame, hempty⟩ := hunranked hnone
      exact absurd ((congrArg Prod.fst hsame).symm.trans hchoice) (hempty choice)
    · obtain ⟨-, y, hy, hseeded⟩ := hranked ranked hrank hne
      rw [hchoice] at hseeded
      rw [hseeded.eq_of_some]
      exact ⟨ranked, hrank, List.mem_map_of_mem hy⟩
  · have hresets (s : Option Twister) :
        resetsOf c (run (k.select c slot excluded) (p.drawn s)).2.journal =
          resetsOf c p.journal + if k.RenewsCourse c excluded p.rotation then 1 else 0 :=
      (k.selects_select c slot excluded (p.drawn s)).resetsOf_course
    exact ⟨(hresets (some source)).trans (hresets none).symm, hresets (some source)⟩

/-- A twister all words of which are the same; its first double is above one half.  No seed is shown
to lead to it: what is said about draws is said of every twister, and to compute the words that a
seed leads to takes too long in a proof. -/
def highTwister : Twister := ⟨Array.replicate Twister.size 0x80000000, 0⟩

/-- Of two main courses the second one is drawn, although the first is the best, and paired. -/
theorem select_seeded_two :
    let curry : Recipe := { Recipe.plain .main "curry" with takesSide := true }
    let k : Kitchen := ⟨⟨.standard, {}⟩,
      Pool.ofRecipes [Recipe.plain .main "burger", curry, Recipe.plain .side "spread"]⟩
    let p : Progress := ⟨Rotation.fresh, none, []⟩
    let slot : SlotContext := slotOn Date.first p.rotation
    let t := k.courseState .main [] p.rotation
    let measure : Scorer := ⟨k.rules, slot, t, true⟩
    let plain := run (k.select .main slot []) (p.drawn none)
    let seeded := run (k.select .main slot []) (p.drawn (some highTwister))
    (∀ ranked, measure.rank (k.candidates .main []) = .ok ranked → ∀ x ∈ ranked, ∀ y ∈ ranked,
      (k.PairingFails slot t x.recipe ↔ k.PairingFails slot t y.recipe)) ∧
    SameEnd plain.1 seeded.1 ∧
    plain.1.toOption.join.map (·.recipe.id) = some "burger" ∧
    ∃ choice ranked, seeded.1 = .ok (some choice) ∧ choice.recipe.id = "curry" ∧
      measure.rank (k.candidates .main []) = .ok ranked ∧
      choice.recipe ∈ ranked.map (·.recipe) := by
  intro curry k p slot t measure plain seeded
  have hsides : ∀ side ∈ k.pool.sidesFor curry, ((k.sideMeasure curry
      { (t.mark curry.course curry.id).countServing curry.cuisine with lastComplexity := some 0 }
      slot 0).score? side).toOption.isSome = true := by decide +kernel
  have hpairs : ∀ r ∈ k.candidates .main [], ¬ k.PairingFails slot t r := by
    have hcandidates : k.candidates .main [] = [Recipe.plain .main "burger", curry] := by
      decide +kernel
    rw [hcandidates, List.forall_mem_cons, List.forall_mem_singleton]
    refine ⟨fun hburger => absurd hburger.2.1 (by decide), ?_⟩
    rintro ⟨-, -, x, hx, side, hside, hbad⟩
    obtain rfl : 0 = x := Except.ok.inj hx
    exact hbad (exists_of_isSome (hsides side hside))
  obtain ⟨-, -, halike, hranked, -, -⟩ := select_seeded k .main slot [] p highTwister
  have hsame : ∀ ranked, measure.rank (k.candidates .main []) = .ok ranked →
      ∀ x ∈ ranked, ∀ y ∈ ranked,
        (k.PairingFails slot t x.recipe ↔ k.PairingFails slot t y.recipe) := by
    intro ranked hrank x hx y hy
    exact iff_of_false (hpairs _ (Scorer.mem_of_rank hrank hx).1)
      (hpairs _ (Scorer.mem_of_rank hrank hy).1)
  have hseeded : seeded.1.toOption.join.map (·.recipe.id) = some "curry" := by decide +kernel
  obtain ⟨choice, hchoice, hcurry⟩ := Option.map_eq_some_iff.mp hseeded
  have hfilled := eq_ok_of_toOption (Option.join_eq_some_iff.mp hchoice)
  obtain ⟨ranked, hrank, hin⟩ := hranked choice hfilled
  exact ⟨hsame, halike hsame, by decide +kernel, choice, ranked, hfilled, hcurry, hrank, hin⟩

/-- Of two main courses the first is the best; the second one is drawn, and filling the slot with
it fails, since it comes with a side dish that has too many ingredients to be scored. -/
theorem not_sameEnd_of_select :
    let curry : Recipe := { Recipe.plain .main "curry" with takesSide := true }
    let spread : Recipe :=
      { Recipe.plain .side "spread" with ingredients := 10 ^ 400, complexity := none }
    let k : Kitchen :=
      ⟨⟨.standard, {}⟩, Pool.ofRecipes [Recipe.plain .main "burger", curry, spread]⟩
    let p : Progress := ⟨Rotation.fresh, none, []⟩
    let slot : SlotContext := slotOn Date.first p.rotation
    let plain := run (k.select .main slot []) (p.drawn none)
    let seeded := run (k.select .main slot []) (p.drawn (some highTwister))
    plain.1.toOption.join.map (·.recipe.id) = some "burger" ∧
    seeded.1 = .error .numberOutOfRange ∧ ¬ SameEnd plain.1 seeded.1 := by
  intro curry spread k p slot plain seeded
  have hplain : plain.1.toOption.join.map (·.recipe.id) = some "burger" := by decide +kernel
  have hseeded : (match seeded.1 with
      | .error .numberOutOfRange => true
      | _ => false) = true := by decide +kernel
  split at hseeded
  · next hfails =>
      refine ⟨hplain, hfails, ?_⟩
      rw [hfails]
      intro hsame
      cases hp : plain.1 with
      | error e =>
          rw [hp] at hplain
          contradiction
      | ok choice =>
          rw [hp] at hsame
          contradiction
  · contradiction

end Kitchen

end MealRota
