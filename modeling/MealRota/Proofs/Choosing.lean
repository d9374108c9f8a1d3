import MealRota.Proofs.Sorting
import MealRota.Proofs.Steps
import MealRota.Selection

/-!
# MealRota.Proofs.Choosing

What choosing one of several candidates can come to, with and without a source
of random numbers: a candidate that passes the constraints, nothing if all of
them are turned down, or a failure because of a number beyond the doubles.

* `Scorer.Settles` — these three outcomes;
* `run_chooseFrom` — choosing ends in one of them and leaves all but the source alone.
-/

namespace MealRota

/-! ## constraints -/

/-- A complexity score is missing only for numbers beyond the doubles. -/
theorem Recipe.eq_of_complexityScore_error {f : Formula} {r : Recipe} {e : PlanError}
    (h : r.complexityScore f = .error e) : e = .numberOutOfRange := by
  unfold Recipe.complexityScore at h
  split at h
  · contradiction
  · unfold Formula.score at h
    simp only at h
    split at h
    · contradiction
    · exact (Except.error.inj h).symm

namespace Scorer

variable {s : Scorer} {r : Recipe} {e : PlanError}

/-- A recipe that passes the constraints has a complexity score. -/
theorem complexityScore_of_passes (h : s.rejection? r = .ok none) :
    ∃ x, r.complexityScore s.rules.formula = .ok x := by
  unfold rejection? at h
  split at h
  · simp at h
  · split at h
    · simp at h
    · cases hx : r.complexityScore s.rules.formula with
      | ok x => exact ⟨x, rfl⟩
      | error e =>
          rw [hx] at h
          contradiction

/-- A recipe that passes constraints that include the rotation was not used in the cycle. -/
theorem not_isUsed_of_passes (h : s.rejection? r = .ok none) (hc : s.checksRotation = true) :
    s.rotation.isUsed r.course r.id = false := by
  unfold rejection? at h
  split at h
  · simp at h
  · split at h
    · simp at h
    · next hused =>
        cases hu : s.rotation.isUsed r.course r.id with
        | false => rfl
        | true => exact absurd ⟨hc, hu⟩ hused

/-- The constraints cannot be tested only for numbers beyond the doubles. -/
theorem eq_of_rejection?_error (h : s.rejection? r = .error e) : e = .numberOutOfRange := by
  unfold rejection? at h
  split at h
  · contradiction
  · split at h
    · contradiction
    · cases hx : r.complexityScore s.rules.formula with
      | ok x =>
          rw [hx] at h
          contradiction
      | error e' =>
          rw [hx] at h
          rw [← Except.error.inj h]
          exact Recipe.eq_of_complexityScore_error hx

/-! ## scores -/

theorem eq_of_novelty_error {n : Nat} (h : novelty n = .error e) : e = .numberOutOfRange := by
  unfold novelty at h
  split at h
  · contradiction
  · exact (Except.error.inj h).symm

/-- The score by cases of the constraints. -/
theorem score?_eq (s : Scorer) (r : Recipe) :
    s.score? r = match s.rejection? r with
      | .error e => .error e
      | .ok (some _) => .ok none
      | .ok none => (novelty (s.rotation.servingsOf r.cuisine)).map fun n =>
          some (weigh s.rules.preferences.varietyWeight n (timeFit s.ceiling r.totalMinutes)) := by
  unfold score?
  cases s.rejection? r with
  | error e => rfl
  | ok reason =>
      cases reason with
      | some reason => rfl
      | none =>
          simp only [bind, Except.bind]
          cases novelty (s.rotation.servingsOf r.cuisine) <;> rfl

/-- Only a recipe that passes the constraints is scored. -/
theorem passes_of_score? {x : Float} (h : s.score? r = .ok (some x)) :
    s.rejection? r = .ok none := by
  rw [score?_eq] at h
  split at h
  · contradiction
  · simp at h
  · assumption

/-- A recipe has no score because a constraint turns it down. -/
theorem rejected_of_score? (h : s.score? r = .ok none) :
    ∃ reason, s.rejection? r = .ok (some reason) := by
  rw [score?_eq] at h
  split at h
  · contradiction
  · next reason hr => exact ⟨reason, hr⟩
  · cases hn : novelty (s.rotation.servingsOf r.cuisine) with
    | error e =>
        rw [hn] at h
        contradiction
    | ok n =>
        rw [hn] at h
        simp [Except.map] at h

/-- Scoring fails only for numbers beyond the doubles. -/
theorem eq_of_score?_error (h : s.score? r = .error e) : e = .numberOutOfRange := by
  rw [score?_eq] at h
  split at h
  · next hr =>
      rw [← Except.error.inj h]
      exact eq_of_rejection?_error hr
  · contradiction
  · cases hn : novelty (s.rotation.servingsOf r.cuisine) with
    | error e' =>
        rw [hn] at h
        rw [← Except.error.inj h]
        exact eq_of_novelty_error hn
    | ok n =>
        rw [hn] at h
        contradiction

/-! ## what choosing can come to -/

/-- What a choice from candidates can come to: one of them that passes the constraints; nothing,
all of them being turned down; or a failure to score one of them. -/
def Settles (s : Scorer) (candidates : List Recipe) : Except PlanError (Option Recipe) → Prop
  | .ok (some r) => r ∈ candidates ∧ s.rejection? r = .ok none
  | .ok none => ∀ r ∈ candidates, ∃ reason, s.rejection? r = .ok (some reason)
  | .error e => e = .numberOutOfRange ∧ ∃ r ∈ candidates, s.score? r = .error e

/-! ## the best candidate -/

/-- What comparing candidates with the best so far can come to: the best so far or a candidate that
passes; nothing, if there was nothing and all are turned down; or a failure to score one. -/
def SettlesFrom (s : Scorer) (best : Option Scored) (candidates : List Recipe) :
    Except PlanError (Option Scored) → Prop
  | .ok (some x) => best = some x ∨ (x.recipe ∈ candidates ∧ s.rejection? x.recipe = .ok none)
  | .ok none => best = none ∧ ∀ r ∈ candidates, ∃ reason, s.rejection? r = .ok (some reason)
  | .error e => e = .numberOutOfRange ∧ ∃ r ∈ candidates, s.score? r = .error e

namespace SettlesFrom

variable {s : Scorer} {best : Option Scored} {r : Recipe} {l : List Recipe} {x : Scored}
  {result : Except PlanError (Option Scored)}

/-- A candidate that is turned down changes nothing. -/
theorem cons_rejected (h : s.SettlesFrom best l result) {reason : Rejection}
    (hr : s.rejection? r = .ok (some reason)) : s.SettlesFrom best (r :: l) result := by
  cases result with
  | error e =>
      obtain ⟨he, y, hy, hye⟩ := h
      exact ⟨he, y, List.mem_cons_of_mem _ hy, hye⟩
  | ok last =>
      cases last with
      | none =>
          refine ⟨h.1, fun y hy => ?_⟩
          rcases List.mem_cons.mp hy with rfl | hy
          · exact ⟨reason, hr⟩
          · exact h.2 y hy
      | some x => exact h.imp id fun hx => ⟨List.mem_cons_of_mem _ hx.1, hx.2⟩

/-- The better of two is one of them. -/
theorem better?_cases (best : Option Scored) (x : Scored) :
    better? best x = some x ∨ (better? best x = best ∧ best ≠ none) := by
  cases best with
  | none => exact Or.inl rfl
  | some old =>
      simp only [better?]
      split
      · exact Or.inl rfl
      · exact Or.inr ⟨rfl, by simp⟩

/-- A candidate that passes is the best so far, or something is already. -/
theorem cons_better (h : s.SettlesFrom (better? best x) l result)
    (hpass : s.rejection? x.recipe = .ok none) : s.SettlesFrom best (x.recipe :: l) result := by
  have hbetter := better?_cases best x
  cases result with
  | error e =>
      obtain ⟨he, y, hy, hye⟩ := h
      exact ⟨he, y, List.mem_cons_of_mem _ hy, hye⟩
  | ok last =>
      cases last with
      | none =>
          rcases hbetter with hnew | ⟨hold, hne⟩
          · exact absurd (hnew.symm.trans h.1) (by simp)
          · exact absurd (hold.symm.trans h.1) hne
      | some y =>
          rcases h with hbest | hy
          · rcases hbetter with hnew | ⟨hold, -⟩
            · have hyx : y = x := Option.some.inj (hbest.symm.trans hnew)
              rw [hyx]
              exact Or.inr ⟨List.mem_cons_self, hpass⟩
            · exact Or.inl (hold.symm.trans hbest)
          · exact Or.inr ⟨List.mem_cons_of_mem _ hy.1, hy.2⟩

end SettlesFrom

/-- Comparing candidates one after the other. -/
theorem settlesFrom_foldlM (s : Scorer) (candidates : List Recipe) (best : Option Scored) :
    s.SettlesFrom best candidates (candidates.foldlM s.consider best) := by
  induction candidates generalizing best with
  | nil =>
      cases best with
      | none => exact ⟨rfl, fun r hr => absurd hr List.not_mem_nil⟩
      | some x => exact Or.inl rfl
  | cons r l ih =>
      rw [List.foldlM_cons]
      cases hr : s.score? r with
      | error e =>
          have hc : s.consider best r = .error e := by simp [consider, hr, bind, Except.bind]
          rw [hc]
          exact ⟨eq_of_score?_error hr, r, List.mem_cons_self, hr⟩
      | ok score =>
          cases score with
          | none =>
              have hc : s.consider best r = .ok best := by
                simp [consider, hr, bind, Except.bind, pure, Except.pure]
              rw [hc]
              obtain ⟨reason, hreason⟩ := rejected_of_score? hr
              exact (ih best).cons_rejected hreason
          | some score =>
              have hc : s.consider best r = .ok (better? best ⟨score, r⟩) := by
                simp [consider, hr, bind, Except.bind, pure, Except.pure]
              rw [hc]
              exact (ih (better? best ⟨score, r⟩)).cons_better (passes_of_score? hr)

/-- The single pass settles on a candidate. -/
theorem settles_best? (s : Scorer) (candidates : List Recipe) :
    s.Settles candidates (s.best? candidates) := by
  have h := settlesFrom_foldlM s candidates none
  unfold best?
  cases hf : candidates.foldlM s.consider none with
  | error e =>
      rw [hf] at h
      exact h
  | ok best =>
      rw [hf] at h
      cases best with
      | none => exact h.2
      | some x => exact h.resolve_left (by simp)

/-! ## the ranking -/

/-- The survivors are the candidates that pass; there are none only if all are turned down. -/
theorem survivors_cases (s : Scorer) (candidates : List Recipe) :
    match s.survivors candidates with
    | .ok l => (∀ x ∈ l, x.recipe ∈ candidates ∧ s.rejection? x.recipe = .ok none) ∧
        (l = [] → ∀ r ∈ candidates, ∃ reason, s.rejection? r = .ok (some reason))
    | .error e => e = .numberOutOfRange ∧ ∃ r ∈ candidates, s.score? r = .error e := by
  induction candidates with
  | nil =>
      exact ⟨fun x hx => absurd hx List.not_mem_nil, fun _ r hr => absurd hr List.not_mem_nil⟩
  | cons r l ih =>
      unfold survivors
      cases hr : s.score? r with
      | error e =>
          simp only [bind, Except.bind]
          exact ⟨eq_of_score?_error hr, r, List.mem_cons_self, hr⟩
      | ok score =>
          cases score with
          | none =>
              simp only [bind, Except.bind]
              cases hl : s.survivors l with
              | error e =>
                  rw [hl] at ih
                  obtain ⟨he, y, hy, hye⟩ := ih
                  exact ⟨he, y, List.mem_cons_of_mem _ hy, hye⟩
              | ok m =>
                  rw [hl] at ih
                  refine ⟨fun x hx => ⟨List.mem_cons_of_mem _ (ih.1 x hx).1, (ih.1 x hx).2⟩, ?_⟩
                  intro hm y hy
                  rcases List.mem_cons.mp hy with rfl | hy
                  · exact rejected_of_score? hr
                  · exact ih.2 hm y hy
          | some score =>
              simp only [bind, Except.bind]
              cases hl : s.survivors l with
              | error e =>
                  rw [hl] at ih
                  obtain ⟨he, y, hy, hye⟩ := ih
                  exact ⟨he, y, List.mem_cons_of_mem _ hy, hye⟩
              | ok m =>
                  rw [hl] at ih
                  refine ⟨?_, fun hm => absurd hm (List.cons_ne_nil _ _)⟩
                  intro x hx
                  rcases List.mem_cons.mp hx with rfl | hx
                  · exact ⟨List.mem_cons_self, passes_of_score? hr⟩
                  · exact ⟨List.mem_cons_of_mem _ (ih.1 x hx).1, (ih.1 x hx).2⟩

/-! ## counting rejections -/

/-- Where every candidate is turned down, use included, the rejections can be counted. -/
theorem rejections_of_rejected (s : Scorer) {candidates : List Recipe}
    (h : ∀ r ∈ candidates, ∃ reason,
      ({ s with checksRotation := true } : Scorer).rejection? r = .ok (some reason)) :
    ∃ counts, s.rejections candidates = .ok counts := by
  have go : ∀ (l : List Recipe) (counts : Rejections), (∀ r ∈ l, ∃ reason,
      ({ s with checksRotation := true } : Scorer).rejection? r = .ok (some reason)) →
      ∃ counts', l.foldlM s.tally counts = .ok counts' := by
    intro l
    induction l with
    | nil => exact fun counts _ => ⟨counts, rfl⟩
    | cons r l ih =>
        intro counts hl
        obtain ⟨reason, hr⟩ := hl r List.mem_cons_self
        have htally : s.tally counts r = .ok (countRejection reason counts) := by
          simp only [tally, hr, bind, Except.bind]
          rfl
        rw [List.foldlM_cons, htally]
        exact ih _ fun y hy => hl y (List.mem_cons_of_mem _ hy)
  exact go candidates [] h

end Scorer

/-- Drawing from a ranking that is not empty gives one of its recipes and changes at most the
source of random numbers. -/
theorem run_drawRanked (ranked : List Scored) (p : Progress) :
    ∃ source result, Planning.run (drawRanked ranked) p = (.ok result, p.drawn source) ∧
      (ranked = [] → result = none) ∧
      (ranked ≠ [] → ∃ x ∈ ranked, result = some x.recipe) := by
  cases ranked with
  | nil => exact ⟨p.source, none, rfl, fun _ => rfl, fun h => absurd rfl h⟩
  | cons first l =>
      have hfirst : ∃ x ∈ first :: l, some first.recipe = some x.recipe :=
        ⟨first, List.mem_cons_self, rfl⟩
      unfold drawRanked
      simp only
      by_cases ht : totalWeight ((first :: l).map fun x => (x.score, x.recipe)) ≤ 0
      · simp only [ht, if_true]
        exact ⟨p.source, some first.recipe, rfl, by simp, fun _ => hfirst⟩
      · simp only [ht, if_false]
        cases hsrc : p.source with
        | none =>
            have hdraw : Planning.run Planning.draw? p = (.ok none, p) := by
              show Planning.draw? p = _
              unfold Planning.draw?
              rw [hsrc]
            refine ⟨p.source, some first.recipe, ?_, by simp, fun _ => hfirst⟩
            exact Planning.run_bind_of_ok hdraw _
        | some t =>
            have hdraw : Planning.run Planning.draw? p =
                (.ok (some t.nextDouble.1), { p with source := some t.nextDouble.2 }) := by
              show Planning.draw? p = _
              unfold Planning.draw?
              rw [hsrc]
            have hpick : (pickAt (t.nextDouble.1 *
                totalWeight ((first :: l).map fun x => (x.score, x.recipe))) 0
              ((first :: l).map fun x => (x.score, x.recipe))).isSome = true :=
              pickAt_isSome (by simp)
            obtain ⟨r, hr⟩ := Option.isSome_iff_exists.mp hpick
            obtain ⟨w, hw⟩ := mem_of_pickAt hr
            obtain ⟨x, hx, hxw⟩ := List.mem_map.mp hw
            refine ⟨some t.nextDouble.2, some r, ?_, by simp, fun _ => ⟨x, hx, ?_⟩⟩
            · rw [Planning.run_bind_of_ok hdraw, ← hr]
              rfl
            · rw [← (Prod.mk.inj hxw).2]

/-- Choosing settles on a candidate and changes at most the source of random numbers. -/
theorem run_chooseFrom (s : Scorer) (candidates : List Recipe) (p : Progress) :
    ∃ source result, Planning.run (chooseFrom s candidates) p = (result, p.drawn source) ∧
      s.Settles candidates result := by
  unfold chooseFrom
  rw [Planning.run_bind_of_ok (Planning.run_isRandom p)]
  cases hsrc : p.source.isSome with
  | false =>
      exact ⟨p.source, s.best? candidates, rfl, s.settles_best? candidates⟩
  | true =>
      simp only [if_true]
      have hsurv := s.survivors_cases candidates
      cases hs : s.survivors candidates with
      | error e =>
          rw [hs] at hsurv
          have hrank : s.rank candidates = .error e := by simp [Scorer.rank, hs, Except.map]
          refine ⟨p.source, .error e, ?_, hsurv⟩
          exact Planning.run_bind_of_error (by rw [hrank, Planning.run_lift]; rfl) _
      | ok l =>
          rw [hs] at hsurv
          have hrank : s.rank candidates = .ok (sortBy Scored.mayPrecede l) := by
            simp [Scorer.rank, hs, Except.map]
          have hlift : Planning.run (Planning.lift (s.rank candidates)) p =
              (.ok (sortBy Scored.mayPrecede l), p) := by rw [hrank, Planning.run_lift]
          rw [Planning.run_bind_of_ok hlift]
          obtain ⟨source, result, hrun, hnone, hsome⟩ :=
            run_drawRanked (sortBy Scored.mayPrecede l) p
          refine ⟨source, .ok result, hrun, ?_⟩
          by_cases hl : l = []
          · rw [hnone (sortBy_eq_nil_iff.mpr hl)]
            exact hsurv.2 hl
          · obtain ⟨x, hx, hres⟩ := hsome (mt sortBy_eq_nil_iff.mp hl)
            rw [hres]
            exact hsurv.1 x ((perm_sortBy _ l).mem_iff.mp hx)

end MealRota
