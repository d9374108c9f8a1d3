import MealRota.Plan.Week
import MealRota.Proofs.Filling

/-!
# MealRota.Proofs.WeekSlots

What filling the next slot of a week can come to, and what a week is made of.

* `Kitchen.Excludes` — what the main course slots leave out, in three cases;
* `Kitchen.run_fillSlot` — a slot is made ready, filled from the pool, and entered;
* `Kitchen.PlansWeek` — a week is planned by a run through all of its slots.
-/

namespace MealRota

open Progress

/-- The main courses of some assignments, in slot order. -/
def mainIdsOf (assignments : List Assignment) : List String :=
  (assignments.filter fun a => a.course = .main).map (·.recipeId)

@[simp] theorem mainIdsOf_append (l m : List Assignment) :
    mainIdsOf (l ++ m) = mainIdsOf l ++ mainIdsOf m := by
  simp [mainIdsOf]

theorem Week.mainIds_eq (w : Week) : w.mainIds = mainIdsOf w.assignments := rfl

/-! ## wording -/

theorem numberText_error {n : Nat} {e : PlanError} (h : numberText n = .error e) :
    e = .numberTooLong := by
  unfold numberText at h
  split at h
  · contradiction
  · exact (Except.error.inj h).symm

theorem fitReason_error {level : Complexity} {c : Course} {slot : SlotContext} {n : Nat}
    {e : PlanError} (h : fitReason level c slot n = .error e) : e = .numberTooLong := by
  unfold fitReason at h
  simp only at h
  cases hm : numberText n with
  | error e' =>
      rw [hm] at h
      rw [← numberText_error hm]
      split at h
      · exact (Except.error.inj h).symm
      · split at h
        · exact (Except.error.inj h).symm
        · contradiction
  | ok text =>
      rw [hm] at h
      split at h
      · contradiction
      · split at h <;> contradiction

/-- A sentence is missing only for numbers that are too large. -/
theorem reasoning_error {f : Formula} {r : Recipe} {c : Course} {slot : SlotContext}
    {e : PlanError} (h : reasoning f r c slot = .error e) :
    e = .numberOutOfRange ∨ e = .numberTooLong := by
  unfold reasoning at h
  simp only at h
  split at h
  · cases hx : r.complexityScore f with
    | error e' =>
        rw [hx] at h
        rw [← Except.error.inj h]
        exact Or.inl (Recipe.eq_of_complexityScore_error hx)
    | ok x =>
        rw [hx] at h
        exact Or.inr (fitReason_error h)
  · cases hm : numberText (r.advanceHours.getD 0) with
    | error e' =>
        rw [hm] at h
        rw [← Except.error.inj h]
        exact Or.inr (numberText_error hm)
    | ok text =>
        rw [hm] at h
        contradiction

/-- The assignment that a choice makes of a slot. -/
theorem Choice.toAssignment_ok {f : Formula} {choice : Choice} {c : Course} {slot : SlotContext}
    {a : Assignment} (h : choice.toAssignment f c slot = .ok a) :
    a.date = slot.date ∧ a.course = c ∧ a.recipeId = choice.recipe.id ∧
      a.sideId = choice.side.map (·.id) := by
  unfold toAssignment at h
  cases hreason : reasoning f choice.recipe c slot with
  | error e =>
      rw [hreason] at h
      contradiction
  | ok reason =>
      rw [hreason] at h
      rw [← Except.ok.inj h]
      exact ⟨rfl, rfl, rfl, rfl⟩

namespace Kitchen

variable (k : Kitchen)

@[simp] theorem mem_candidates {k : Kitchen} {c : Course} {excluded : List String} {r : Recipe} :
    r ∈ k.candidates c excluded ↔ r ∈ k.pool.forCourse c ∧ r.id ∉ excluded := by
  simp [candidates]

/-! ## what a main course slot leaves out -/

/-- The main courses that a slot leaves out and the locks that still hold, together with the
progress once they are found. -/
inductive Excludes (draft : WeekDraft) (p : Progress) : List String × List String → Progress → Prop
  /-- There is a main course that is neither locked nor in the week. -/
  | fresh (id : String) (hid : id ∈ k.pool.idsOf .main) (hl : id ∉ draft.locked)
      (hm : id ∉ draft.mains) :
      Excludes draft p (draft.locked ++ draft.mains, draft.locked) p
  /-- The locks leave nothing new to the week, so they lapse with a new cycle. -/
  | lapsed (hall : ∀ id ∈ k.pool.idsOf .main, id ∈ draft.locked ∨ id ∈ draft.mains)
      (hl : draft.locked ≠ []) (hlt : draft.mains.length < k.pool.count .main) :
      Excludes draft p (draft.mains, []) (p.begun .main (k.pool.count .main))
  /-- The week has every main course already, so they may repeat. -/
  | repeating (hall : ∀ id ∈ k.pool.idsOf .main, id ∈ draft.locked ∨ id ∈ draft.mains)
      (h : draft.locked = [] ∨ k.pool.count .main ≤ draft.mains.length) :
      Excludes draft p (draft.locked, draft.locked) p

theorem run_mainExclusions (draft : WeekDraft) (p : Progress) :
    ∃ out q, Planning.run (k.mainExclusions draft) p = (.ok out, q) ∧ k.Excludes draft p out q := by
  unfold mainExclusions
  change ∃ out q, Planning.run (if ((k.pool.idsOf .main).any fun id =>
    !draft.locked.contains id && !draft.mains.contains id) = true then _ else _) p = _ ∧ _
  cases hany : (k.pool.idsOf .main).any fun id =>
      !draft.locked.contains id && !draft.mains.contains id with
  | true =>
      obtain ⟨id, hid, hnew⟩ := List.any_eq_true.mp hany
      simp only [Bool.and_eq_true, Bool.not_eq_true', List.contains_eq_mem,
        decide_eq_false_iff_not] at hnew
      exact ⟨_, _, rfl, .fresh id hid hnew.1 hnew.2⟩
  | false =>
      have hall : ∀ id ∈ k.pool.idsOf .main, id ∈ draft.locked ∨ id ∈ draft.mains := by
        intro id hid
        have hold := List.any_eq_false.mp hany id hid
        simp only [Bool.and_eq_true, Bool.not_eq_true', List.contains_eq_mem,
          decide_eq_false_iff_not, not_and, Decidable.not_not] at hold
        by_cases hl : id ∈ draft.locked
        · exact Or.inl hl
        · exact Or.inr (hold hl)
      have hlen : ((k.pool.forCourse .main).map (·.id)).length = k.pool.count .main :=
        k.pool.length_idsOf .main
      simp only [Bool.false_eq_true, if_false, hlen]
      by_cases hlapse : draft.locked ≠ [] ∧ draft.mains.length < k.pool.count .main
      · have htest : (!draft.locked.isEmpty &&
            decide (draft.mains.length < k.pool.count .main)) = true := by
          simpa using hlapse
        rw [if_pos htest]
        exact ⟨_, _, rfl, .lapsed hall hlapse.1 hlapse.2⟩
      · have htest : ¬ (!draft.locked.isEmpty &&
            decide (draft.mains.length < k.pool.count .main)) = true := by
          simpa using hlapse
        rw [if_neg htest]
        refine ⟨_, _, rfl, .repeating hall ?_⟩
        by_cases hl : draft.locked = []
        · exact Or.inl hl
        · exact Or.inr (Nat.le_of_not_lt fun hlt => hlapse ⟨hl, hlt⟩)

/-- What is left out of the next slot, and the locks that still hold. -/
inductive Readies (draft : WeekDraft) (c : Course) (p : Progress) :
    List String × List String → Progress → Prop
  | main (hc : c = .main) (out : List String × List String) (q : Progress)
      (h : k.Excludes draft p out q) : Readies draft c p out q
  | optional (hc : c ≠ .main) : Readies draft c p ([], draft.locked) p

/-! ## entering a choice -/

/-- A choice is entered as an assignment of its slot. -/
theorem addChoice_ok {k : Kitchen} {draft draft' : WeekDraft} {c : Course} {slot : SlotContext}
    {choice : Choice} (h : k.addChoice draft c slot choice = .ok draft') :
    ∃ a : Assignment, a.date = slot.date ∧ a.course = c ∧ a.recipeId = choice.recipe.id ∧
      a.sideId = choice.side.map (·.id) ∧ draft'.assignments = draft.assignments ++ [a] ∧
      draft'.mains = (if c = .main ∧ choice.recipe.id ∉ draft.mains then
        draft.mains ++ [choice.recipe.id] else draft.mains) ∧
      draft'.locked = (if c = .main ∧ choice.cycleReset = true then [] else draft.locked) := by
  unfold addChoice at h
  cases ha : choice.toAssignment k.rules.formula c slot with
  | error e =>
      rw [ha] at h
      contradiction
  | ok a =>
      rw [ha] at h
      obtain ⟨hdate, hcourse, hid, hside⟩ := Choice.toAssignment_ok ha
      have hd := (Except.ok.inj h).symm
      subst hd
      exact ⟨a, hdate, hcourse, hid, hside, rfl, by simp [List.contains_eq_mem], rfl⟩

/-- A choice cannot be worded only for numbers that are too large. -/
theorem addChoice_error {k : Kitchen} {draft : WeekDraft} {c : Course} {slot : SlotContext}
    {choice : Choice} {e : PlanError} (h : k.addChoice draft c slot choice = .error e) :
    e = .numberOutOfRange ∨ e = .numberTooLong := by
  unfold addChoice Choice.toAssignment at h
  cases hr : reasoning k.rules.formula choice.recipe c slot with
  | error e' =>
      rw [hr] at h
      rw [← Except.error.inj h]
      exact reasoning_error hr
  | ok reason =>
      rw [hr] at h
      contradiction

/-- The draft after a slot was filled or left empty. -/
def entered (draft : WeekDraft) (c : Course) (slot : SlotContext) :
    Option Choice → Except PlanError WeekDraft
  | none => .ok draft
  | some choice => k.addChoice draft c slot choice

/-- The slot of a day as it is found in a state. -/
def slotOn (day : Date) (t : Rotation) : SlotContext := ⟨day, day.isWeekend, t.lastComplexity⟩

/-- What is chosen from the pool for a slot that is ready is entered into the draft. -/
theorem run_select_entered (draft : WeekDraft) (c : Course) (slot : SlotContext)
    (excluded : List String) (m : Progress) :
    Planning.run (do
        match ← k.select c slot excluded with
        | none => return draft
        | some choice => Planning.lift (k.addChoice draft c slot choice)) m =
      ((Planning.run (k.select c slot excluded) m).1.bind (k.entered draft c slot),
        (Planning.run (k.select c slot excluded) m).2) := by
  rw [Planning.run_bind]
  cases Planning.run (k.select c slot excluded) m with
  | mk result q =>
      cases result with
      | error e => rfl
      | ok choice => cases choice <;> rfl

/-- Filling a slot makes it ready, fills it from the pool, and enters what was chosen. -/
theorem run_fillSlot (draft : WeekDraft) (day : Date) (c : Course) (p : Progress) :
    ∃ excluded locked m result q,
      k.Readies draft c (p.note (.slotReached c day)) (excluded, locked) m ∧
      k.Selects c (slotOn day p.rotation) excluded m result q ∧
      Planning.run (k.fillSlot draft (day, c)) p =
        (result.bind (k.entered { draft with locked } c (slotOn day p.rotation)), q) := by
  unfold fillSlot
  simp only
  rw [Planning.run_bind_of_ok (Planning.run_record _ _),
    Planning.run_bind_of_ok (Planning.run_rotation _)]
  by_cases hc : c = .main
  · obtain ⟨out, m, hrun, hex⟩ := k.run_mainExclusions draft (p.note (.slotReached c day))
    refine ⟨out.1, out.2, m, _, _, .main hc out m hex,
      k.selects_select c (slotOn day p.rotation) out.1 m, ?_⟩
    rw [if_pos hc]
    change Planning.run (k.mainExclusions draft >>= _) (p.note (.slotReached c day)) = _
    rw [Planning.run_bind_of_ok hrun]
    exact k.run_select_entered { draft with locked := out.2 } c (slotOn day p.rotation) out.1 m
  · refine ⟨[], draft.locked, p.note (.slotReached c day), _, _, .optional hc,
      k.selects_select c (slotOn day p.rotation) [] _, ?_⟩
    rw [if_neg hc]
    exact k.run_select_entered draft c (slotOn day p.rotation) [] _

/-! ## a whole week -/

/-- What planning a week can come to. -/
inductive PlansWeek (start : Date) (locked : List String) (status : WeekStatus) (p : Progress) :
    Except PlanError Week → Progress → Prop
  /-- The week would not begin on a Monday. -/
  | notMonday (hm : start.isMonday = false) :
      PlansWeek start locked status p (.error (.invalidDate (.notMonday start))) p
  /-- The week would go beyond the calendar. -/
  | beyond (hm : start.isMonday = true) (hd : start.weekDates? = none) :
      PlansWeek start locked status p (.error .dateOutOfRange) p
  /-- A slot cannot be filled. -/
  | failed (days : List Date) (hm : start.isMonday = true) (hd : start.weekDates? = some days)
      (e : PlanError) (q : Progress)
      (hrun : Planning.run ((slotsOf days).foldlM k.fillSlot ⟨[], [], locked⟩) p = (.error e, q)) :
      PlansWeek start locked status p (.error e) q
  /-- A main course stands in the week twice without need. -/
  | clashing (days : List Date) (hm : start.isMonday = true) (hd : start.weekDates? = some days)
      (draft : WeekDraft) (q : Progress)
      (hrun : Planning.run ((slotsOf days).foldlM k.fillSlot ⟨[], [], locked⟩) p = (.ok draft, q))
      (e : PlanError)
      (hcheck : checkMainsDistinct start draft.assignments (k.pool.count .main) = .error e) :
      PlansWeek start locked status p (.error e) q
  /-- Every slot was filled or left empty. -/
  | planned (days : List Date) (hm : start.isMonday = true) (hd : start.weekDates? = some days)
      (draft : WeekDraft) (q : Progress)
      (hrun : Planning.run ((slotsOf days).foldlM k.fillSlot ⟨[], [], locked⟩) p = (.ok draft, q))
      (hcheck : checkMainsDistinct start draft.assignments (k.pool.count .main) = .ok ()) :
      PlansWeek start locked status p
        (.ok ⟨start, days.getLastD start, draft.assignments, status⟩)
        (q.note (.weekPlanned start draft.assignments.length q.rotation.cycle))

theorem plansWeek_planWeek (start : Date) (locked : List String) (status : WeekStatus)
    (p : Progress) :
    k.PlansWeek start locked status p (Planning.run (k.planWeek start locked status) p).1
      (Planning.run (k.planWeek start locked status) p).2 := by
  unfold planWeek
  cases hm : start.isMonday with
  | false =>
      have hstart : Planning.run (Planning.lift (asWeekStart start)) p =
          (.error (.invalidDate (.notMonday start)), p) := by
        simp [asWeekStart, hm]
      rw [Planning.run_bind_of_error hstart]
      exact .notMonday hm
  | true =>
      have hstart : Planning.run (Planning.lift (asWeekStart start)) p = (.ok start, p) := by
        simp [asWeekStart, hm]
      rw [Planning.run_bind_of_ok hstart]
      cases hd : start.weekDates? with
      | none =>
          have hdays : Planning.run (Planning.lift (datesOfWeek start)) p =
              (.error .dateOutOfRange, p) := by
            simp [datesOfWeek, hd]
          rw [Planning.run_bind_of_error hdays]
          exact .beyond hm hd
      | some days =>
          have hdays : Planning.run (Planning.lift (datesOfWeek start)) p = (.ok days, p) := by
            simp [datesOfWeek, hd]
          rw [Planning.run_bind_of_ok hdays]
          cases hrun : Planning.run ((slotsOf days).foldlM k.fillSlot ⟨[], [], locked⟩) p with
          | mk result q =>
              cases result with
              | error e =>
                  rw [Planning.run_bind_of_error hrun]
                  exact .failed days hm hd e q hrun
              | ok draft =>
                  rw [Planning.run_bind_of_ok hrun]
                  cases hcheck :
                      checkMainsDistinct start draft.assignments (k.pool.count .main) with
                  | error e =>
                      rw [Planning.run_bind_of_error (Planning.run_lift (.error e) q)]
                      exact .clashing days hm hd draft q hrun e hcheck
                  | ok _ =>
                      rw [Planning.run_bind_of_ok (Planning.run_lift (.ok ()) q),
                        Planning.run_bind_of_ok (Planning.run_rotation q)]
                      exact .planned days hm hd draft q hrun hcheck

end Kitchen

/-! ## the slots of a week -/

/-- The days of a week follow each other from the first one on. -/
theorem ordinals_of_weekDates? {start : Date} {days : List Date}
    (h : start.weekDates? = some days) :
    days.map (·.ordinal) = (List.range daysPerWeek).map (start.ordinal + ·) := by
  have hfrom : ∀ {l : List Nat} {days : List Date}, l.mapM start.addDays? = some days →
      days.map (·.ordinal) = l.map (start.ordinal + ·) := by
    intro l
    induction l with
    | nil =>
        intro days hl
        rw [List.mapM_nil] at hl
        rw [← Option.some.inj hl]
        rfl
    | cons n l ih =>
        intro days hl
        rw [List.mapM_cons] at hl
        obtain ⟨d, hd, hrest⟩ := Option.bind_eq_some_iff.mp hl
        obtain ⟨ds, hds, hcons⟩ := Option.bind_eq_some_iff.mp hrest
        rw [← Option.some.inj hcons, List.map_cons, List.map_cons, ih hds,
          Date.addDays?_eq_some_iff.mp hd]
  exact hfrom h

theorem length_of_weekDates? {start : Date} {days : List Date}
    (h : start.weekDates? = some days) : days.length = daysPerWeek := by
  have hlength := congrArg List.length (ordinals_of_weekDates? h)
  rwa [List.length_map, List.length_map, List.length_range] at hlength

/-- Every day has one main course slot. -/
theorem count_main_slotsOf (days : List Date) :
    ((slotsOf days).countP fun s => s.2 = .main) = days.length := by
  induction days with
  | nil => rfl
  | cons d days ih =>
      have hcons : slotsOf (d :: days) =
          [(d, .appetizer), (d, .main), (d, .dessert)] ++ slotsOf days := rfl
      rw [hcons, List.countP_append, ih, List.length_cons, Nat.add_comm]
      rfl

end MealRota
