import MealRota.Proofs.DistinctIds
import MealRota.Proofs.KeptWeeks
import MealRota.Proofs.Renewal
import MealRota.Proofs.Servings
import MealRota.Proofs.Suitability

/-!
# MealRota.Proofs.WholePlan

Giving a whole plan back.  A plan generated from the fresh state has marked and
counted nothing but what it serves.  Giving all of it back leaves no mark and no
serving, whatever was cleared by resets in between: a mark that a reset took is not
missed, and every serving is taken back as often as it was counted.

* `Request.served_of_generate`, `Request.marked_of_generate` — what a generated plan has counted
  and marked;
* `Request.check_of_generate` — the state of a generated plan fits the recipes;
* `Request.givenBack_all` — what is left when all of it is given back.
-/

namespace MealRota

open Planning

/-! ## giving recipes back -/

/-- Giving a mark back takes no serving back. -/
theorem Rotation.release_servings (t : Rotation) (c : Course) (id : String) :
    (t.release c id).servings = t.servings := by
  unfold release
  split <;> rfl

/-- A recipe that is given back, with its mark or without, takes one serving of its cuisine with
it. -/
theorem Rotation.giveBack_servings (t : Rotation) (released : List String) (r : Recipe) :
    (t.giveBack released r).servings = (t.discountServing r.cuisine).servings := by
  have hsame : ∀ t' : Rotation, t'.servings = t.servings →
      (t'.discountServing r.cuisine).servings = (t.discountServing r.cuisine).servings := by
    intro t' ht'
    unfold discountServing servingsOf
    rw [ht']
    split <;> rfl
  unfold giveBack
  refine hsame _ ?_
  split
  · rfl
  · exact t.release_servings r.course r.id

theorem Rotation.Tallied.giveBack {t : Rotation} {n : Cuisine → Nat} (h : t.Tallied n)
    (released : List String) (r : Recipe) :
    (t.giveBack released r).Tallied fun c => n c - if r.cuisine = c then 1 else 0 := by
  intro c
  rw [t.giveBack_servings released r]
  exact h.discountServing r.cuisine c

/-- Every recipe given back takes one serving of its cuisine with it. -/
theorem Rotation.Tallied.giveBackAll {t : Rotation} {n : Cuisine → Nat} (h : t.Tallied n)
    (released : List String) (rs : List Recipe) :
    (rs.foldl (Rotation.giveBack · released) t).Tallied fun c => n c - cuisineCount rs c := by
  induction rs generalizing t n with
  | nil => simpa using h
  | cons r rs ih =>
      simpa [cuisineCount_cons, Nat.sub_sub, Nat.add_comm] using ih (h.giveBack released r)

/-- Recipes whose ids name them can be given back by their ids. -/
theorem Request.giveBackIds_of_recipes {q : Request} {rs : List Recipe}
    (h : ∀ r ∈ rs, findLast? q.recipes r.id = some r) (released : List String) (t : Rotation) :
    (rs.map (·.id)).foldlM (q.giveBackId released) t =
      .ok (rs.foldl (Rotation.giveBack · released) t) := by
  induction rs generalizing t with
  | nil => rfl
  | cons r rs ih =>
      have hback : q.giveBackId released t r.id = .ok (t.giveBack released r) := by
        unfold giveBackId
        rw [h r List.mem_cons_self]
      rw [List.map_cons, List.foldlM_cons, hback]
      exact ih (fun s hs => h s (List.mem_cons_of_mem _ hs)) _

/-! ## all weeks -/

/-- The assignments of all weeks are those of the plan. -/
theorem Request.assignmentsOf_all (plan : Plan) :
    assignmentsOf plan (plan.indicesFrom 0) = plan.assignments := by
  have helim : ∀ i : Nat, ((plan.weeks[i]?).map (·.assignments)).getD [] =
      (plan.weeks[i]?).elim [] (·.assignments) := by
    intro i
    cases plan.weeks[i]? <;> rfl
  unfold assignmentsOf
  simp only [helim]
  exact flatMap_range_elim plan.weeks (·.assignments)

/-- Every week that holds a main course is among all weeks. -/
theorem mem_indices_of_mem_currentMains {plan : Plan} {t : Rotation} {id : String} {i : Nat}
    (h : (id, i) ∈ currentMains plan.weeks t) : i ∈ plan.indicesFrom 0 := by
  obtain ⟨-, w, hw, -⟩ := mem_currentMains h
  exact Plan.mem_indicesFrom.mpr ⟨Nat.zero_le i, (List.getElem?_eq_some_iff.mp hw).1⟩

/-- What an assignment takes, it serves, and is a recipe of the course for which it is taken. -/
theorem Kitchen.Serves.of_mem_takings {k : Kitchen} {a : Assignment} {c : Course} {id : String}
    (h : k.Serves a) (hid : (c, id) ∈ a.takings) :
    id ∈ a.ids ∧ ∃ r ∈ k.pool.forCourse c, r.id = id := by
  obtain ⟨r, side, hrecipe, hside, hsuits⟩ := h
  unfold Assignment.takings at hid
  unfold Assignment.ids
  rcases List.mem_cons.mp hid with hid | hid
  · obtain ⟨rfl, rfl⟩ := Prod.mk.inj hid
    exact ⟨List.mem_cons_self, r, hsuits.mem, hrecipe.symm⟩
  · obtain ⟨s, hs, heq⟩ := List.mem_map.mp hid
    obtain ⟨rfl, rfl⟩ := Prod.mk.inj heq
    refine ⟨List.mem_cons_of_mem _ hs, ?_⟩
    rw [hside] at hs
    obtain ⟨r', hr', rfl⟩ := Option.map_eq_some_iff.mp (Option.mem_toList.mp hs)
    exact ⟨r', (hsuits.accompanied r' hr').mem, rfl⟩

namespace Request

variable {q : Request} {given : Option Rotation} {weekCount : Option Int}
  {start : Except PlanError Date} {plan : Plan}

/-- The ids of recipes of the pool name them among all recipes. -/
theorem findLast?_of_mem_pool (hids : (q.recipes.map (·.id)).Nodup) {r : Recipe}
    (hr : r ∈ q.pool.recipes) : findLast? q.recipes r.id = some r :=
  (findLast?_eq_some_iff hids).mpr
    ⟨(List.mem_filter.mp ((Pool.mem_ofEligible hids).mp hr)).1, rfl⟩

/-- How complex an assignment of a recipe of the pool is. -/
theorem complexityOf_of_mem_pool (hids : (q.recipes.map (·.id)).Nodup) {r : Recipe}
    {a : Assignment} {x : Float} (hr : r ∈ q.pool.recipes) (hid : a.recipeId = r.id)
    (hx : r.complexityScore q.rules.formula = .ok x) : q.complexityOf (some a) = .ok (some x) := by
  unfold complexityOf
  simp only [hid, findLast?_of_mem_pool hids hr, hx]
  rfl

/-- What a generation takes stands in the plan, and is the id of a recipe of the pool, of the course
for which it is taken. -/
theorem pool_of_takings (h : (q.generate given weekCount start).result = .ok plan) {c : Course}
    {id : String} (htaken : (c, id) ∈ takings (q.generate given weekCount start).journal) :
    id ∈ plan.assignments.flatMap (·.ids) ∧ ∃ r ∈ q.pool.recipes, r.course = c ∧ r.id = id := by
  rw [(generate_ok h).2.2.takings] at htaken
  obtain ⟨w, hw, htaken⟩ := List.mem_flatMap.mp htaken
  obtain ⟨a, ha, htaken⟩ := List.mem_flatMap.mp htaken
  obtain ⟨hin, r, hr, hid⟩ := (serves_of_generation h w hw a ha).of_mem_takings htaken
  obtain ⟨hpool, hcourse⟩ := Pool.mem_forCourse.mp hr
  exact ⟨List.mem_flatMap.mpr ⟨a, List.mem_flatMap.mpr ⟨w, hw, ha⟩, hin⟩, r, hpool, hcourse, hid⟩

/-- Where no two recipes share an id, what a generation takes is found by its id. -/
theorem named_of_takings (hids : (q.recipes.map (·.id)).Nodup)
    (h : (q.generate given weekCount start).result = .ok plan) {c : Course} {id : String}
    (htaken : (c, id) ∈ takings (q.generate given weekCount start).journal) :
    id ∈ plan.assignments.flatMap (·.ids) ∧
      ∃ r, findLast? q.recipes id = some r ∧ r.course = c := by
  obtain ⟨hin, r, hpool, hcourse, rfl⟩ := pool_of_takings h htaken
  exact ⟨hin, r, findLast?_of_mem_pool hids hpool, hcourse⟩

theorem mem_takings_of_mem_lastCycle {c : Course} {id : String} {journal : List Event}
    (h : id ∈ lastCycleOf c journal) : (c, id) ∈ takings journal := by
  obtain ⟨x, hx, rfl⟩ := List.mem_map.mp ((lastCycleOf_suffix c journal).subset h)
  obtain ⟨hx, hc⟩ := List.mem_filter.mp hx
  rwa [← of_decide_eq_true hc]

/-- A generation that succeeds was given a state that fits the recipes. -/
theorem given_check_of_generate (h : (q.generate given weekCount start).result = .ok plan) :
    (given.getD .fresh).check q.recipes = .ok () := by
  have hrun : q.generation given weekCount start =
      (.ok plan, (q.generation given weekCount start).2) := Prod.ext h rfl
  obtain ⟨weeks, m, hweeks, -⟩ := run_bind_ok.mp hrun
  obtain ⟨_, _, hcheck, -⟩ := run_bind_ok.mp (run_reporting_ok.mp hweeks)
  exact (Prod.mk.inj hcheck).1

/-- The state of a generated plan fits the recipes. -/
theorem check_of_generate (hids : (q.recipes.map (·.id)).Nodup)
    (h : (q.generate given weekCount start).result = .ok plan) :
    plan.rotation.check q.recipes = .ok () := by
  refine Rotation.check_ok_iff.mpr fun c id hused => ?_
  rcases (isUsed_of_generate h c id).mp hused with hlast | ⟨-, hbefore⟩
  · exact (named_of_takings hids h (mem_takings_of_mem_lastCycle hlast)).2
  · exact Rotation.check_ok_iff.mp (given_check_of_generate h) c id hbefore

section

variable (hids : (q.recipes.map (·.id)).Nodup) (hfresh : given.getD .fresh = .fresh)
  (h : (q.generate given weekCount start).result = .ok plan)

include hids hfresh h

/-- A plan generated from the fresh state has counted the recipes that it serves, and no others. -/
theorem served_of_generate : ∃ rs : List Recipe,
    (∀ r ∈ rs, findLast? q.recipes r.id = some r) ∧
      rs.map (·.id) = plan.assignments.flatMap (·.ids) ∧
        plan.rotation.Tallied (cuisineCount rs) := by
  obtain ⟨m, m', hm, -, -, hturn, hrotation⟩ := weeks_of_generate h
  obtain ⟨rs, hmem, hserved, hserves⟩ := hturn.accounted.served
  refine ⟨rs, fun r hr => findLast?_of_mem_pool hids (hmem r hr), hserved, ?_⟩
  rw [hfresh] at hm
  have hcount := hserves.tallied (n := fun _ => 0) (by rw [hm]; exact .fresh)
  rw [hrotation]
  simpa using hcount

/-- A plan generated from the fresh state has marked recipes that it serves, each for its own
course, and of the main courses only those taken since their last reset. -/
theorem marked_of_generate {c : Course} {id : String} (hused : plan.rotation.isUsed c id = true) :
    id ∈ plan.assignments.flatMap (·.ids) ∧
      (∃ r, findLast? q.recipes id = some r ∧ r.course = c) ∧
      (c = .main → id ∈ releasedMains plan (plan.indicesFrom 0)) := by
  have hlast : id ∈ lastCycleOf c (q.generate given weekCount start).journal := by
    refine ((isUsed_of_generate h c id).mp hused).resolve_right fun hbefore => ?_
    rw [hfresh] at hbefore
    exact absurd hbefore.2 (by simp [Rotation.isUsed, Rotation.usedIds, Rotation.fresh])
  obtain ⟨hin, hnamed⟩ := named_of_takings hids h (mem_takings_of_mem_lastCycle hlast)
  refine ⟨hin, hnamed, fun hc => ?_⟩
  subst hc
  rw [← Plan.map_fst_currentSlots (takenOf_main_of_generate h)] at hlast
  obtain ⟨⟨id, i⟩, hslot, hid⟩ := List.mem_map.mp hlast
  have hcurrent : (id, i) ∈ currentMains plan.weeks plan.rotation := by
    rw [currentMains_of_generate h]
    exact List.mem_reverse.mpr hslot
  rw [← hid]
  exact (mem_releasedMains h).mpr ⟨i, hslot, mem_indices_of_mem_currentMains hcurrent⟩

/-- A plan generated from the fresh state can be given back as a whole, and nothing is left of it
but its cycle number. -/
theorem givenBack_all : ∃ t, q.givenBack plan (plan.indicesFrom 0) = .ok t ∧
    (∀ c, t.usedIds c = TextSet.empty) ∧ (∀ k, t.servings.get? k = none) ∧
      t.cycle = plan.rotation.cycle := by
  obtain ⟨rs, hnamed, hserved, htally⟩ := served_of_generate hids hfresh h
  let released := releasedMains plan (plan.indicesFrom 0)
  have hback : q.givenBack plan (plan.indicesFrom 0) =
      .ok (rs.foldl (Rotation.giveBack · released) plan.rotation) := by
    unfold givenBack release
    rw [assignmentsOf_all, ← hserved]
    exact giveBackIds_of_recipes hnamed released _
  refine ⟨_, hback, fun c => TextSet.ext fun id => ?_, fun k => ?_, givenBack_cycle hback⟩
  · unfold givenBack release at hback
    rw [assignmentsOf_all] at hback
    rw [← Rotation.isUsed_iff_mem, isUsed_of_giveBackIds hback]
    refine ⟨fun hid => ?_, fun hid => absurd hid TextSet.not_mem_empty⟩
    obtain ⟨hin, hr, hmain⟩ := marked_of_generate hids hfresh h hid.1
    exact absurd ⟨hin, hmain, hr⟩ hid.2
  · simpa using htally.giveBackAll released rs k

end

end Request

end MealRota
