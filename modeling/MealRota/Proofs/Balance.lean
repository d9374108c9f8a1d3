import Mathlib.Data.List.Flatten
import MealRota.Proofs.EditedPlans
import MealRota.Proofs.WholePlan

/-!
# MealRota.Proofs.Balance

The servings that a plan's state counts, and what the plan serves.  A run counts the
cuisine of everything with which it fills a slot.  Before slots are filled anew, the
servings of what they held are taken back; since those are still counted, nothing is
lost where a count cannot go below zero.  So the two balance, whatever is edited, and
whichever recipes keep their marks.

* `servingsIn` — how often assignments serve a cuisine;
* `Kitchen.Accounted.counted` — a run counts what it serves;
* `Request.counted_of_regeneration`, `Request.counted_of_replacement` — what edits change;
* `Request.servings_of_editedFrom` — the balance of every plan that edits lead to.
-/

namespace MealRota

open Planning

/-! ## what assignments serve -/

/-- Every id in the assignments of a plan is that of a recipe. -/
def Plan.Named (recipes : List Recipe) (plan : Plan) : Prop :=
  ∀ a ∈ plan.assignments, ∀ id ∈ a.ids, ∃ r, findLast? recipes id = some r

/-- How often some assignments serve a cuisine: so many of their recipes and side dishes are of
it. -/
def servingsIn (recipes : List Recipe) (assignments : List Assignment) (c : Cuisine) : Nat :=
  (assignments.flatMap (·.ids)).countP fun id => (findLast? recipes id).any (·.cuisine = c)

section

variable {recipes : List Recipe} {assignments assignments' : List Assignment} {c : Cuisine}

@[simp] theorem servingsIn_nil : servingsIn recipes [] c = 0 := rfl

@[simp] theorem servingsIn_append : servingsIn recipes (assignments ++ assignments') c =
    servingsIn recipes assignments c + servingsIn recipes assignments' c := by
  simp [servingsIn]

/-- What some recipes are of is what is served by assignments of which they are the recipes. -/
theorem servingsIn_of_recipes {rs : List Recipe}
    (hnamed : ∀ r ∈ rs, findLast? recipes r.id = some r)
    (hserved : rs.map (·.id) = assignments.flatMap (·.ids)) (c : Cuisine) :
    servingsIn recipes assignments c = cuisineCount rs c := by
  unfold servingsIn cuisineCount
  rw [← hserved, List.countP_map]
  exact List.countP_congr fun r hr => by simp [hnamed r hr]

theorem servingsIn_le_of_sublist (h : assignments.Sublist assignments') :
    servingsIn recipes assignments c ≤ servingsIn recipes assignments' c :=
  (h.flatMap _).countP_le

/-- Something put in the place of something else brings what it serves and takes away what the
other one served. -/
theorem servingsIn_flatMap_set {α : Type} (recipes : List Recipe) (f : α → List Assignment)
    {l : List α} {i : Nat} {a : α} (h : l[i]? = some a) (b : α) (c : Cuisine) :
    servingsIn recipes ((l.set i b).flatMap f) c + servingsIn recipes (f a) c =
      servingsIn recipes (l.flatMap f) c + servingsIn recipes (f b) c := by
  induction l generalizing i with
  | nil => simp at h
  | cons x l ih =>
      cases i with
      | zero =>
          obtain rfl : x = a := by simpa using h
          simp only [List.set_cons_zero, List.flatMap_cons, servingsIn_append]
          omega
      | succ i =>
          have hrest := ih (by simpa using h)
          simp only [List.set_cons_succ, List.flatMap_cons, servingsIn_append]
          omega

theorem servingsIn_set (recipes : List Recipe) {i : Nat} {a : Assignment}
    (h : assignments[i]? = some a) (b : Assignment) (c : Cuisine) :
    servingsIn recipes (assignments.set i b) c + servingsIn recipes [a] c =
      servingsIn recipes assignments c + servingsIn recipes [b] c := by
  simpa using servingsIn_flatMap_set recipes (fun a => [a]) h b c

end

/-! ## taking servings back -/

theorem Rotation.servingsOf_giveBack (t : Rotation) (released : List String) (r : Recipe)
    (c : Cuisine) :
    (t.giveBack released r).servingsOf c = t.servingsOf c - if r.cuisine = c then 1 else 0 := by
  rw [← servingsOf_discountServing]
  unfold servingsOf
  rw [t.giveBack_servings released r]

namespace Request

variable {q : Request} {released : List String} {s t : Rotation}

theorem servingsOf_of_giveBackIds {ids : List String}
    (h : ids.foldlM (q.giveBackId released) s = .ok t) (c : Cuisine) :
    t.servingsOf c =
      s.servingsOf c - ids.countP fun id => (findLast? q.recipes id).any (·.cuisine = c) := by
  induction ids generalizing s with
  | nil =>
      rw [← Except.ok.inj h]
      rfl
  | cons id ids ih =>
      rw [List.foldlM_cons] at h
      unfold giveBackId at h
      cases hr : findLast? q.recipes id with
      | none =>
          rw [hr] at h
          contradiction
      | some r =>
          rw [hr] at h
          rw [ih h, Rotation.servingsOf_giveBack, List.countP_cons, hr]
          simp [Nat.sub_sub, Nat.add_comm]

/-- Giving assignments back takes back as many servings of a cuisine as they serve, if so many are
counted. -/
theorem servingsOf_of_release {assignments : List Assignment}
    (h : q.release released assignments s = .ok t) (c : Cuisine) :
    t.servingsOf c = s.servingsOf c - servingsIn q.recipes assignments c :=
  servingsOf_of_giveBackIds h c

end Request

/-! ## counting servings -/

namespace Kitchen.Accounted

variable {q : Request} {assignments : List Assignment} {p p' : Progress}

/-- What a run enters of assignments are the servings of their cuisines. -/
theorem counted (hids : (q.recipes.map (·.id)).Nodup) (h : q.kitchen.Accounted assignments p p')
    (c : Cuisine) :
    p'.rotation.servingsOf c = p.rotation.servingsOf c + servingsIn q.recipes assignments c := by
  obtain ⟨rs, hpool, hserved, hserves⟩ := h.served
  have hnamed : ∀ r ∈ rs, findLast? q.recipes r.id = some r := fun r hr =>
    Request.findLast?_of_mem_pool hids (hpool r hr)
  rw [hserves.servingsOf, servingsIn_of_recipes hnamed hserved]

/-- The ids in assignments that are entered are those of recipes. -/
theorem named (hids : (q.recipes.map (·.id)).Nodup) (h : q.kitchen.Accounted assignments p p') :
    ∀ id ∈ assignments.flatMap (·.ids), ∃ r, findLast? q.recipes id = some r := by
  obtain ⟨rs, hpool, hserved, -⟩ := h.served
  rw [← hserved]
  intro id hid
  obtain ⟨r, hr, rfl⟩ := List.mem_map.mp hid
  exact ⟨r, Request.findLast?_of_mem_pool hids (hpool r hr)⟩

end Kitchen.Accounted

/-! ## weeks planned anew -/

/-- The assignments of the weeks of some indices. -/
def assignmentsAt (weeks : List Week) (targets : List Nat) : List Assignment :=
  targets.flatMap fun i => (weeks[i]?.map (·.assignments)).getD []

theorem assignmentsOf_eq (plan : Plan) (targets : List Nat) :
    Request.assignmentsOf plan targets = assignmentsAt plan.weeks targets := rfl

theorem assignmentsAt_cons (weeks : List Week) (i : Nat) (targets : List Nat) :
    assignmentsAt weeks (i :: targets) = assignmentsAt weeks [i] ++ assignmentsAt weeks targets := by
  simp [assignmentsAt]

/-- What other weeks have is not changed with a week. -/
theorem assignmentsAt_set {weeks : List Week} {targets : List Nat} {i : Nat} (hi : i ∉ targets)
    (w : Week) : assignmentsAt (weeks.set i w) targets = assignmentsAt weeks targets := by
  refine List.flatMap_congr fun j hj => ?_
  have hne : i ≠ j := fun hij => hi (hij ▸ hj)
  rw [List.getElem?_set_ne hne]

theorem assignmentsAt_of_getElem? {weeks : List Week} {i : Nat} {w : Week}
    (h : weeks[i]? = some w) : assignmentsAt weeks [i] = w.assignments := by
  simp [assignmentsAt, h]

namespace Request

variable {q : Request} {plan plan' : Plan} {targets : List Nat} {p p' : Progress}

/-- A week that is planned anew is counted, beside what the weeks served before. -/
theorem counted_of_replanWeek {draft draft' : Regeneration} {i : Nat}
    (hids : (q.recipes.map (·.id)).Nodup)
    (h : run (q.replanWeek draft i) p = (.ok draft', p')) (c : Cuisine) :
    p'.rotation.servingsOf c + servingsIn q.recipes (draft.weeks.flatMap (·.assignments)) c =
        p.rotation.servingsOf c + servingsIn q.recipes (assignmentsAt draft.weeks [i]) c +
          servingsIn q.recipes (draft'.weeks.flatMap (·.assignments)) c ∧
      ∀ targets, i ∉ targets →
        assignmentsAt draft'.weeks targets = assignmentsAt draft.weeks targets := by
  obtain ⟨x, looked, -, hlooked, ⟨hnone, hsame, hp⟩ | ⟨old, w, hold, hset, -, -, hplans⟩⟩ :=
    replanWeek_steps h
  · have hnothing : assignmentsAt draft.weeks [i] = [] := by simp [assignmentsAt, hnone]
    have hservings : p'.rotation.servingsOf c = p.rotation.servingsOf c := by
      rw [hp, hlooked]
      rfl
    rw [hsame, hnothing, hservings]
    exact ⟨by simp, fun _ _ => rfl⟩
  · have hcount := hplans.accounted.2.counted hids c
    have hservings : looked.rotation.servingsOf c = p.rotation.servingsOf c := by
      rw [hlooked]
      rfl
    have hchange := servingsIn_flatMap_set q.recipes (·.assignments) hold w c
    rw [hset, assignmentsAt_of_getElem? hold]
    refine ⟨?_, fun targets hi => assignmentsAt_set hi w⟩
    omega

/-- What a run of the planner over some weeks counts is what these weeks serve in the end. -/
theorem counted_of_replanWeeks {draft draft' : Regeneration}
    (hids : (q.recipes.map (·.id)).Nodup) (hnodup : targets.Nodup)
    (h : run (targets.foldlM q.replanWeek draft) p = (.ok draft', p')) (c : Cuisine) :
    p'.rotation.servingsOf c + servingsIn q.recipes (draft.weeks.flatMap (·.assignments)) c =
      p.rotation.servingsOf c + servingsIn q.recipes (assignmentsAt draft.weeks targets) c +
        servingsIn q.recipes (draft'.weeks.flatMap (·.assignments)) c := by
  induction targets generalizing draft p with
  | nil =>
      obtain ⟨hdraft, rfl⟩ := Prod.mk.inj h
      rw [← Except.ok.inj hdraft]
      rfl
  | cons i targets ih =>
      rw [List.nodup_cons] at hnodup
      rw [List.foldlM_cons] at h
      obtain ⟨next, m, hweek, hrest⟩ := run_bind_ok.mp h
      obtain ⟨hfirst, hothers⟩ := counted_of_replanWeek hids hweek c
      have hlater := ih hnodup.2 hrest
      rw [hothers targets hnodup.1] at hlater
      rw [assignmentsAt_cons, servingsIn_append]
      omega

/-- Planning weeks anew changes the servings by what their new assignments serve, less what the old
ones did. -/
theorem counted_of_regeneration (hids : (q.recipes.map (·.id)).Nodup)
    (htargets : targets.Sublist (plan.indicesFrom 0))
    (h : q.regeneration plan targets = (.ok plan', p)) {c : Cuisine}
    (hle : servingsIn q.recipes plan.assignments c ≤ plan.rotation.servingsOf c) :
    plan'.rotation.servingsOf c + servingsIn q.recipes plan.assignments c =
      plan.rotation.servingsOf c + servingsIn q.recipes plan'.assignments c := by
  obtain ⟨t, m, hback, hm, -, hrun⟩ := replanFrom_of_regeneration h
  obtain ⟨draft, m', hdraft, hweeks, hrotation⟩ := replanFrom_steps hrun
  have hnodup : targets.Nodup := (plan.nodup_indicesFrom 0).sublist htargets
  have hcount : m'.rotation.servingsOf c + servingsIn q.recipes plan.assignments c =
      m.rotation.servingsOf c + servingsIn q.recipes (assignmentsAt plan.weeks targets) c +
        servingsIn q.recipes (draft.weeks.flatMap (·.assignments)) c :=
    counted_of_replanWeeks hids hnodup hdraft c
  have hbegin : m.rotation.servingsOf c = plan.rotation.servingsOf c -
      servingsIn q.recipes (assignmentsAt plan.weeks targets) c := by
    rw [hm, ← assignmentsOf_eq]
    exact servingsOf_of_release hback c
  have hend : plan'.rotation.servingsOf c = m'.rotation.servingsOf c := by
    rw [hrotation]
    rfl
  have hpart : servingsIn q.recipes (assignmentsAt plan.weeks targets) c ≤
      servingsIn q.recipes plan.assignments c := by
    rw [← assignmentsOf_all, assignmentsOf_eq]
    exact servingsIn_le_of_sublist (htargets.flatMap _)
  have hnew : plan'.assignments = draft.weeks.flatMap (·.assignments) := by
    rw [← hweeks]
    rfl
  rw [hnew]
  omega

/-! ## slots refilled -/

/-- What takes the slot of a replacement is entered. -/
theorem chooseFor_accounted {t : Rotation} {context : SlotContext} {course course' : Course}
    {excluded : List String} {newId : Option String} {choice : Choice} {a : Assignment}
    (h : run (q.chooseFor t context course excluded newId) p = (.ok choice, p'))
    (ha : choice.toAssignment q.rules.formula course' context = .ok a) :
    q.kitchen.Accounted [a] p p' := by
  obtain ⟨-, -, hrecipe, hside⟩ := Choice.toAssignment_ok ha
  refine Kitchen.accounted_of_choice ?_ hrecipe hside
  cases newId with
  | none => exact (bestAlternative_ok h).serves
  | some id =>
      obtain ⟨r, m, hr, hassign⟩ := run_bind_ok.mp h
      obtain ⟨hchosen, rfl⟩ := run_lift_ok hr
      have hassigns := q.kitchen.assigns_assign context r false p
      rw [hassign] at hassigns
      have hserves := hassigns.serves (chosenRecipe_ok hchosen).1
      rwa [← hassigns.of_ok.1] at hserves

/-- A replacement that succeeds refills a slot of the plan, once it is given back, with an assignment
that is entered. -/
theorem replacement_accounted {date : Date} {course : Course} {newId : Option String}
    (h : q.replacement plan date course newId = (.ok plan', p)) :
    ∃ slot a t m m', plan.HasSlot slot ∧ plan' = plan.refill slot a plan'.rotation ∧
      q.release (releasedMain plan slot) [slot.assignment] plan.rotation = .ok t ∧
      m.rotation = t ∧ q.kitchen.Accounted [a] m m' ∧
      plan'.rotation = { m'.rotation with lastComplexity := t.lastComplexity } := by
  obtain ⟨slot, context, choice, a, m, hchoice, hassign, hplan, hrotation, -⟩ := replacement_steps h
  obtain ⟨hfound, -, -, t, excluded, m₁, m₂, hback, hpool, hchosen, rfl⟩ :=
    replaceChoice_steps hchoice
  obtain ⟨-, rfl⟩ := Prod.mk.inj hpool
  exact ⟨slot, a, t, _, m₂, (findSlot_ok hfound).1, hplan, hback, rfl,
    chooseFor_accounted hchosen hassign, hrotation⟩

/-- A slot that is refilled serves what its new assignment does, and no more what the old one did. -/
theorem servingsIn_refill (recipes : List Recipe) {slot : FilledSlot} (hslot : plan.HasSlot slot)
    (a : Assignment) (t : Rotation) (c : Cuisine) :
    servingsIn recipes (plan.refill slot a t).assignments c +
        servingsIn recipes [slot.assignment] c =
      servingsIn recipes plan.assignments c + servingsIn recipes [a] c := by
  let week : Week := { slot.week with assignments := slot.week.assignments.set slot.position a }
  have hweek := servingsIn_flatMap_set recipes (·.assignments) hslot.week week c
  have hplace : servingsIn recipes week.assignments c + servingsIn recipes [slot.assignment] c =
      servingsIn recipes slot.week.assignments c + servingsIn recipes [a] c :=
    servingsIn_set recipes hslot.assignment a c
  show servingsIn recipes ((plan.weeks.set slot.weekIndex week).flatMap (·.assignments)) c + _ =
    servingsIn recipes (plan.weeks.flatMap (·.assignments)) c + _
  omega

/-- Replacing the recipe of a slot changes the servings by what the new assignment serves, less what
the old one did. -/
theorem counted_of_replacement {date : Date} {course : Course} {newId : Option String}
    (hids : (q.recipes.map (·.id)).Nodup)
    (h : q.replacement plan date course newId = (.ok plan', p)) {c : Cuisine}
    (hle : servingsIn q.recipes plan.assignments c ≤ plan.rotation.servingsOf c) :
    plan'.rotation.servingsOf c + servingsIn q.recipes plan.assignments c =
      plan.rotation.servingsOf c + servingsIn q.recipes plan'.assignments c := by
  obtain ⟨slot, a, t, m, m', hslot, hplan, hback, hm, haccounted, hrotation⟩ :=
    replacement_accounted h
  have hcount := haccounted.counted hids c
  have hbegin : m.rotation.servingsOf c = plan.rotation.servingsOf c -
      servingsIn q.recipes [slot.assignment] c := by
    rw [hm]
    exact servingsOf_of_release hback c
  have hend : plan'.rotation.servingsOf c = m'.rotation.servingsOf c := by
    rw [hrotation]
    rfl
  have hpart : servingsIn q.recipes [slot.assignment] c ≤
      servingsIn q.recipes plan.assignments c :=
    servingsIn_le_of_sublist (List.singleton_sublist.mpr hslot.mem)
  have hchange := servingsIn_refill q.recipes hslot a plan'.rotation c
  rw [← hplan] at hchange
  omega

/-! ## recipes that are known -/

/-- Whatever weeks are planned anew, every id in the plan stays that of a recipe. -/
theorem named_of_regeneration (hids : (q.recipes.map (·.id)).Nodup)
    (h : q.regeneration plan targets = (.ok plan', p))
    (hnamed : plan.Named q.recipes) : plan'.Named q.recipes := by
  have hweeks : ∀ w ∈ plan'.weeks, ∀ a ∈ w.assignments, ∀ id ∈ a.ids,
      ∃ r, findLast? q.recipes id = some r := by
    refine (replanned_of_regeneration h).forall_mem (fun w locked m m' hplans a ha id hid => ?_)
      fun w hw a ha => hnamed a (List.mem_flatMap.mpr ⟨w, hw, ha⟩)
    exact hplans.accounted.2.named hids id (List.mem_flatMap.mpr ⟨a, ha, hid⟩)
  intro a ha
  obtain ⟨w, hw, ha⟩ := List.mem_flatMap.mp ha
  exact hweeks w hw a ha

/-- Whatever slot is refilled, every id in the plan stays that of a recipe. -/
theorem named_of_replacement {date : Date} {course : Course} {newId : Option String}
    (hids : (q.recipes.map (·.id)).Nodup)
    (h : q.replacement plan date course newId = (.ok plan', p))
    (hnamed : plan.Named q.recipes) : plan'.Named q.recipes := by
  obtain ⟨slot, a, t, m, m', hslot, hplan, -, -, haccounted, -⟩ := replacement_accounted h
  rw [hplan]
  intro b hb id hid
  obtain ⟨w, hw, hb⟩ := List.mem_flatMap.mp hb
  cases List.mem_or_eq_of_mem_set hw with
  | inl hw => exact hnamed b (List.mem_flatMap.mpr ⟨w, hw, hb⟩) id hid
  | inr hw =>
      subst hw
      cases List.mem_or_eq_of_mem_set hb with
      | inl hb =>
          exact hnamed b (List.mem_flatMap.mpr ⟨_, List.mem_of_getElem? hslot.week, hb⟩) id hid
      | inr hb =>
          subst hb
          exact haccounted.named hids id (by simpa using hid)

end Request

/-! ## the balance -/

/-- A plan that was generated from recipes of which no two share an id, and then edited in any way,
names only recipes among them; and its state counts every cuisine as often as the state from which
it was generated did, and once more for every recipe and every side dish of that cuisine in the
plan. -/
theorem EditedFrom.balanced {recipes : List Recipe} {before : Rotation} {plan : Plan}
    (hids : (recipes.map (·.id)).Nodup)
    (h : EditedFrom (fun q => q.recipes = recipes) before plan) :
    plan.Named recipes ∧ ∀ c, plan.rotation.servingsOf c =
      before.servingsOf c + servingsIn recipes plan.assignments c := by
  -- the servings of the plan are among those counted, so what an edit takes back is there to be
  -- taken: this carries the balance from one edit to the next
  induction h with
  | generated hq hgiven h =>
      subst hq
      obtain ⟨m, m', hm, -, -, hturn, hrotation⟩ := Request.weeks_of_generate h
      refine ⟨fun a ha id hid => ?_, fun c => ?_⟩
      · exact hturn.accounted.named hids id (List.mem_flatMap.mpr ⟨a, ha, hid⟩)
      · rw [hrotation, hturn.accounted.counted hids c, hm, hgiven]
        rfl
  | edited hq hplan h ih =>
      subst hq
      obtain ⟨hnamed, hservings⟩ := ih
      rcases Request.edit_cases h with ⟨targets, p, htargets, hrun⟩ | ⟨date, course, newId, p, hrun⟩
      · refine ⟨Request.named_of_regeneration hids hrun hnamed, fun c => ?_⟩
        have hbefore := hservings c
        have hchange := Request.counted_of_regeneration hids htargets hrun (c := c) (by omega)
        omega
      · refine ⟨Request.named_of_replacement hids hrun hnamed, fun c => ?_⟩
        have hbefore := hservings c
        have hchange := Request.counted_of_replacement hids hrun (c := c) (by omega)
        omega

/-- Eight main courses, of which one is Italian and one comes with an Italian side dish, fill a week.
It is planned anew by a cook who looks at time only, and its first main course is replaced.  Of the
three Italian servings that are counted in the end, one was counted before. -/
theorem EditedFrom.balanced_eight :
    let recipes := ["a", "b", "c", "d", "e", "f"].map (Recipe.plain .main) ++
      [{ Recipe.plain .main "g" with takesSide := true },
        { Recipe.plain .main "h" with cuisine := .italian },
        { Recipe.plain .side "s" with cuisine := .italian }]
    let before := Rotation.fresh.countServing .italian
    (recipes.map (·.id)).Nodup ∧ ∃ plan, EditedFrom (fun q => q.recipes = recipes) before plan ∧
      plan.rotation.servingsOf .italian =
        before.servingsOf .italian + servingsIn recipes plan.assignments .italian ∧
      plan.rotation.servingsOf .italian = 3 := by
  intro recipes before
  have hids : (recipes.map (·.id)).Nodup := by decide +kernel
  let q := Request.ofRecipes recipes
  let hasty : Request := { q with rules := ⟨.standard, { varietyWeight := 0 }⟩ }
  let edits : List (Request × Edit) := [(hasty, .week 0), (q, .meal Date.first .main none)]
  have hrun : ((q.generate (some before) (some 1) (.ok Date.first)).result.toOption.any fun first =>
      (first.editedBy edits).toOption.any fun plan =>
        plan.rotation.servingsOf .italian = 3) = true := by
    decide +kernel
  obtain ⟨first, hfirst, hrun⟩ := (Option.any_eq_true _ _).mp hrun
  obtain ⟨plan, hplan, hthree⟩ := (Option.any_eq_true _ _).mp hrun
  have hgenerated : EditedFrom (fun q => q.recipes = recipes) before first :=
    .generated rfl rfl (eq_ok_of_toOption hfirst)
  have hedited : EditedFrom (fun q => q.recipes = recipes) before plan := by
    refine hgenerated.editedBy (fun e he => ?_) (eq_ok_of_toOption hplan)
    simp only [edits, List.mem_cons, List.not_mem_nil, or_false] at he
    rcases he with rfl | rfl <;> rfl
  exact ⟨hids, plan, hedited, (EditedFrom.balanced hids hedited).2 .italian,
    of_decide_eq_true hthree⟩

end MealRota
