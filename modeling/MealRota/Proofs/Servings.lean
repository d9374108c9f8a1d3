import MealRota.Plan.Release
import MealRota.Proofs.PlannedWeeks

/-!
# MealRota.Proofs.Servings

What a run enters of the recipes that it serves besides their marks: how often each
cuisine was served, and how complex the last assignment was.

* `Rotation.Tallied` — the servings of a state, and what counting and giving back do to them;
* `Progress.Serves` — a stretch of a run counts the recipes that it serves, and no others;
* `Kitchen.Accounted` — what filling slots preserves of a week in the making;
* `Kitchen.PlansInTurn.accounted` — weeks planned in turn.
-/

namespace MealRota

open Planning

/-! ## the servings of a state -/

/-- How many of some recipes are of a cuisine. -/
def cuisineCount (rs : List Recipe) (c : Cuisine) : Nat := rs.countP fun r => r.cuisine = c

@[simp] theorem cuisineCount_nil (c : Cuisine) : cuisineCount [] c = 0 := rfl

theorem cuisineCount_cons (r : Recipe) (rs : List Recipe) (c : Cuisine) :
    cuisineCount (r :: rs) c = cuisineCount rs c + if r.cuisine = c then 1 else 0 := by
  simp [cuisineCount, List.countP_cons]

@[simp] theorem cuisineCount_append (rs rs' : List Recipe) (c : Cuisine) :
    cuisineCount (rs ++ rs') c = cuisineCount rs c + cuisineCount rs' c := List.countP_append

namespace Rotation

/-- The cuisines were served so often; those that were not have no entry. -/
def Tallied (t : Rotation) (n : Cuisine → Nat) : Prop :=
  ∀ c, t.servings.get? c = if n c = 0 then none else some (n c)

namespace Tallied

variable {t : Rotation} {n : Cuisine → Nat}

theorem fresh : Rotation.fresh.Tallied fun _ => 0 := fun _ => rfl

theorem servingsOf (h : t.Tallied n) (c : Cuisine) : t.servingsOf c = n c := by
  unfold Rotation.servingsOf
  rw [h c]
  by_cases hc : n c = 0 <;> simp [hc]

theorem countServing (h : t.Tallied n) (k : Cuisine) :
    (t.countServing k).Tallied fun c => n c + if k = c then 1 else 0 := by
  intro c
  have hold := h c
  have hcount := h.servingsOf k
  simp only [Rotation.countServing, Table.get?_set, hcount]
  grind

/-- The last serving of a cuisine takes its entry with it. -/
theorem discountServing (h : t.Tallied n) (k : Cuisine) :
    (t.discountServing k).Tallied fun c => n c - if k = c then 1 else 0 := by
  intro c
  have hold := h c
  have hcount := h.servingsOf k
  unfold Rotation.discountServing
  rw [hcount]
  split
  · simp only [Table.get?_set]
    grind
  · simp only [Table.get?_erase]
    grind

end Tallied

end Rotation

/-! ## stretches of a run -/

/-- A stretch of a run counts the cuisines of some recipes, and of no others; it makes entries for
those only. -/
def Progress.Serves (p q : Progress) (rs : List Recipe) : Prop :=
  (∀ c, q.rotation.servingsOf c = p.rotation.servingsOf c + cuisineCount rs c) ∧
    ∀ n, p.rotation.Tallied n → q.rotation.Tallied fun c => n c + cuisineCount rs c

namespace Progress.Serves

variable {p m q : Progress} {rs rs' : List Recipe}

theorem servingsOf (h : p.Serves q rs) (c : Cuisine) :
    q.rotation.servingsOf c = p.rotation.servingsOf c + cuisineCount rs c := h.1 c

theorem tallied {n : Cuisine → Nat} (h : p.Serves q rs) (hn : p.rotation.Tallied n) :
    q.rotation.Tallied fun c => n c + cuisineCount rs c := h.2 n hn

theorem still (h : q.rotation.servings = p.rotation.servings) : p.Serves q [] := by
  refine ⟨fun c => ?_, fun n hn c => ?_⟩
  · simp [Rotation.servingsOf, h]
  · rw [h]
    exact hn c

theorem taking (p : Progress) (r : Recipe) : p.Serves (p.taking r) [r] := by
  refine ⟨fun c => ?_, fun n hn => ?_⟩
  · have hmark : (p.rotation.mark r.course r.id).servingsOf c = p.rotation.servingsOf c := rfl
    simp [cuisineCount_cons, hmark]
  · have hmark : (p.rotation.mark r.course r.id).Tallied n := hn
    simpa [cuisineCount_cons] using hmark.countServing r.cuisine

theorem trans (h : p.Serves m rs) (h' : m.Serves q rs') : p.Serves q (rs ++ rs') := by
  refine ⟨fun c => ?_, fun n hn => ?_⟩
  · rw [h'.servingsOf, h.servingsOf, cuisineCount_append, Nat.add_assoc]
  · simpa [Nat.add_assoc] using h'.tallied (h.tallied hn)

end Progress.Serves

/-! ## one slot -/

/-- The recipes of a choice: its own and the side dish. -/
def Choice.recipes (choice : Choice) : List Recipe := choice.recipe :: choice.side.toList

theorem Progress.renewed_servings (p : Progress) (c : Course) (candidates : List Recipe) :
    (p.renewed c candidates).rotation.servings = p.rotation.servings := by
  unfold Progress.renewed
  split <;> rfl

theorem Progress.renewed_lastComplexity (p : Progress) (c : Course) (candidates : List Recipe) :
    (p.renewed c candidates).rotation.lastComplexity = p.rotation.lastComplexity := by
  unfold Progress.renewed
  split <;> rfl

namespace Kitchen

variable {k : Kitchen} {c : Course} {slot : SlotContext} {p m q : Progress} {main r : Recipe}
  {excluded locked : List String} {x : Float} {choice : Choice}

/-- Pairing a main course serves the side dish, if there is one. -/
theorem Pairs.serves {side : Option Recipe} (h : k.Pairs slot main x p (.ok side) q) :
    p.Serves q side.toList ∧ q.rotation.lastComplexity = p.rotation.lastComplexity ∧
      ∀ r ∈ side.toList, r ∈ k.pool.recipes := by
  have hservings : (k.sideMoment slot main p).rotation.servings = p.rotation.servings :=
    Progress.renewed_servings _ _ _
  have hlast : (k.sideMoment slot main p).rotation.lastComplexity = p.rotation.lastComplexity :=
    Progress.renewed_lastComplexity _ _ _
  cases h with
  | unsuited hnil => exact ⟨.still rfl, rfl, by simp⟩
  | unfit source hne hall => exact ⟨.still hservings, hlast, by simp⟩
  | paired source side hside hpass =>
      have hmem := (Pool.mem_forCourse.mp (Pool.mem_forCourse_of_mem_sidesFor hside)).1
      exact ⟨(Progress.Serves.still hservings).trans (.taking _ side), hlast, by simpa using hmem⟩

/-- A slot filled with a given recipe serves it, and it is what was assigned last. -/
theorem Assigns.serves {reset : Bool} (hr : r ∈ k.pool.recipes)
    (h : k.Assigns slot r reset p (.ok choice) q) :
    p.Serves q choice.recipes ∧ (∀ r ∈ choice.recipes, r ∈ k.pool.recipes) ∧
      ∃ x, r.complexityScore k.rules.formula = .ok x ∧ q.rotation.lastComplexity = some x := by
  generalize hres : (Except.ok choice : Except PlanError Choice) = result at h
  cases h with
  | unscored hx => contradiction
  | alone x hx hside =>
      rw [Except.ok.inj hres]
      have htaking : p.Serves ((p.taking r).after x) [r] := Progress.Serves.taking p r
      exact ⟨htaking, by simpa [Choice.recipes] using hr, x, hx, rfl⟩
  | accompanied x hx hside result q hpair =>
      cases result with
      | error e => contradiction
      | ok side =>
          have hchoice : choice = ⟨r, side, reset⟩ := Except.ok.inj hres
          obtain ⟨hserves, hlast, hmem⟩ := hpair.serves
          have htaking : p.Serves ((p.taking r).after x) [r] := Progress.Serves.taking p r
          rw [hchoice]
          refine ⟨htaking.trans hserves, ?_, x, hx, hlast⟩
          simpa [Choice.recipes, hr] using hmem

/-- A slot filled from the pool serves what is chosen for it. -/
theorem Selects.serves (h : k.Selects c slot excluded p (.ok (some choice)) q) :
    p.Serves q choice.recipes ∧ (∀ r ∈ choice.recipes, r ∈ k.pool.recipes) ∧
      ∃ x, choice.recipe.complexityScore k.rules.formula = .ok x ∧
        q.rotation.lastComplexity = some x := by
  obtain ⟨hcand, -, -, source, hassign⟩ := h.of_some
  obtain ⟨hserves, hmem, hlast⟩ :=
    hassign.serves (Pool.mem_forCourse.mp (mem_candidates.mp hcand).1).1
  have hmoment : p.Serves ((k.slotMoment c excluded p).drawn source) [] :=
    .still (Progress.renewed_servings _ _ _)
  exact ⟨hmoment.trans hserves, hmem, hlast⟩

/-- A slot that stays empty serves nothing. -/
theorem Selects.serves_none (h : k.Selects c slot excluded p (.ok none) q) :
    p.Serves q [] ∧ q.rotation.lastComplexity = p.rotation.lastComplexity := by
  generalize hres : (Except.ok none : Except PlanError (Option Choice)) = result at h
  cases h with
  | skipped hnil hreq => exact ⟨.still rfl, rfl⟩
  | leftEmpty source rejections hne hreq hall hrej =>
      exact ⟨.still (Progress.renewed_servings _ _ _), Progress.renewed_lastComplexity _ _ _⟩
  | filled source r hr hpass result q hassign => cases result <;> simp [Except.map] at hres
  | _ => contradiction

theorem Readies.serves {draft : WeekDraft} (h : k.Readies draft c p (excluded, locked) m) :
    p.Serves m [] ∧ m.rotation.lastComplexity = p.rotation.lastComplexity := by
  cases h with
  | optional hc => exact ⟨.still rfl, rfl⟩
  | main hc out m hex => cases hex <;> exact ⟨.still rfl, rfl⟩

/-! ## weeks -/

/-- What is entered of some assignments between two moments of a run: their recipes, which are in
the pool, are counted, and the last of them left its complexity. -/
structure Accounted (k : Kitchen) (assignments : List Assignment) (p q : Progress) : Prop where
  served : ∃ rs : List Recipe, (∀ r ∈ rs, r ∈ k.pool.recipes) ∧
    rs.map (·.id) = assignments.flatMap (·.ids) ∧ p.Serves q rs
  last : ∀ a, assignments.getLast? = some a → ∃ r ∈ k.pool.recipes, r.id = a.recipeId ∧
    ∃ x, r.complexityScore k.rules.formula = .ok x ∧ q.rotation.lastComplexity = some x

namespace Accounted

variable {assignments new : List Assignment}

theorem nil (k : Kitchen) (p : Progress) : k.Accounted [] p p :=
  ⟨⟨[], by simp, rfl, .still rfl⟩, by simp⟩

theorem still (h : k.Accounted assignments p m) (hserves : m.Serves q [])
    (hlast : q.rotation.lastComplexity = m.rotation.lastComplexity) :
    k.Accounted assignments p q := by
  obtain ⟨rs, hmem, hids, hrs⟩ := h.served
  refine ⟨⟨rs, hmem, hids, ?_⟩, fun a ha => ?_⟩
  · simpa using hrs.trans hserves
  · rw [hlast]
    exact h.last a ha

/-- Assignments of which there is at least one are entered after others. -/
theorem append (h : k.Accounted assignments p m) (h' : k.Accounted new m q) (hnew : new ≠ []) :
    k.Accounted (assignments ++ new) p q := by
  obtain ⟨rs, hmem, hids, hrs⟩ := h.served
  obtain ⟨rs', hmem', hids', hrs'⟩ := h'.served
  refine ⟨⟨rs ++ rs', ?_, by simp [hids, hids'], hrs.trans hrs'⟩, fun a ha => h'.last a ?_⟩
  · grind
  · rwa [List.getLast?_append_of_ne_nil _ hnew] at ha

end Accounted

/-- The assignment that a choice makes is entered with the choice. -/
theorem accounted_of_choice {a : Assignment}
    (h : p.Serves q choice.recipes ∧ (∀ r ∈ choice.recipes, r ∈ k.pool.recipes) ∧
      ∃ x, choice.recipe.complexityScore k.rules.formula = .ok x ∧
        q.rotation.lastComplexity = some x)
    (hrecipe : a.recipeId = choice.recipe.id) (hside : a.sideId = choice.side.map (·.id)) :
    k.Accounted [a] p q := by
  obtain ⟨hserves, hmem, x, hx, hlast⟩ := h
  refine ⟨⟨choice.recipes, hmem, ?_, hserves⟩, fun b hb => ?_⟩
  · simp [Choice.recipes, Assignment.ids, hrecipe, hside, Option.toList_map]
  · have hb : a = b := by simpa using hb
    rw [← hb, hrecipe]
    exact ⟨choice.recipe, hmem _ List.mem_cons_self, rfl, x, hx, hlast⟩

/-- Filling a slot enters what it adds to the week. -/
theorem fillSlot_accounted {draft draft' : WeekDraft} {place : Date × Course}
    (hd : k.Accounted draft.assignments p m)
    (h : run (k.fillSlot draft place) m = (.ok draft', q)) :
    k.Accounted draft'.assignments p q := by
  obtain ⟨day, c⟩ := place
  obtain ⟨excluded, locked, m', result, q', hready, hselects, hrun⟩ := k.run_fillSlot draft day c m
  rw [hrun] at h
  obtain ⟨hresult, rfl⟩ := Prod.mk.inj h
  obtain ⟨hserves, hlast⟩ := hready.serves
  have hready' : k.Accounted draft.assignments p m' := hd.still hserves hlast
  cases result with
  | error e => contradiction
  | ok chosen =>
      cases chosen with
      | none =>
          rw [← Except.ok.inj hresult]
          exact hready'.still hselects.serves_none.1 hselects.serves_none.2
      | some choice =>
          obtain ⟨a, -, -, hrecipe, hside, hassign, -⟩ := addChoice_ok hresult
          rw [hassign]
          exact hready'.append (accounted_of_choice hselects.serves hrecipe hside) (by simp)

/-- A planned week has assignments, and all of them are entered. -/
theorem Plans.accounted {w : Week} (h : k.Plans locked w p q) :
    w.assignments ≠ [] ∧ k.Accounted w.assignments p q := by
  obtain ⟨days, draft, m, hrun, hdays, hassign, hrotation, -⟩ := h.slots
  have hmains := (orderly_of_run hrun).2
  have hslots : k.Accounted draft.assignments p m :=
    run_foldlM_ok (fun _ d m => k.Accounted d.assignments p m)
      (fun done place rest _ d p d' q hd hslot => fillSlot_accounted hd hslot)
      (.nil k p) hrun
  rw [hassign]
  refine ⟨fun hnil => ?_, hslots.still (.still (by rw [hrotation])) (by rw [hrotation])⟩
  rw [hdays, hnil] at hmains
  contradiction

/-- Of weeks planned in turn all assignments are entered. -/
theorem PlansInTurn.accounted {weeks : List Week} (h : k.PlansInTurn weeks p q) :
    k.Accounted (weeks.flatMap (·.assignments)) p q := by
  induction h with
  | none p => exact .nil k p
  | next h hrest ih =>
      rw [List.flatMap_cons]
      cases hrest with
      | none => simpa using h.accounted.2
      | next h' hrest' =>
          refine h.accounted.2.append ih ?_
          simp [h'.accounted.1]

end Kitchen

end MealRota
