import MealRota.Proofs.Runs

/-!
# MealRota.Proofs.Cycles

The cycles of a course within a run.  What was taken for the course is cut at
each reset of the course; the pieces are the cycles.

* `isUsed_replay_iff` — what counts as used is what was taken in the last cycle;
* `Pool.Lawful.nodup_cycles` — within a cycle nothing is taken twice, and nothing that was used
  before;
* `Request.cycles_of_generate` — a generated plan, read as its cycles.
-/

namespace MealRota

/-! ## cutting a journal -/

/-- What was taken for a course, in order. -/
def takenOf (c : Course) (events : List Event) : List String :=
  ((takings events).filter fun x => x.1 = c).map (·.2)

/-- What was taken for a course, cut at each reset of the course. -/
def cyclesOf (c : Course) (events : List Event) : List (List String) :=
  (events.splitOnP (Event.resets c)).map (takenOf c)

/-- What was taken for a course before its first reset. -/
def firstCycleOf (c : Course) (events : List Event) : List String := (cyclesOf c events).headD []

/-- What was taken for a course since its last reset. -/
def lastCycleOf (c : Course) (events : List Event) : List String := (cyclesOf c events).getLastD []

variable {c : Course} {e : Event} {l events : List Event} {id : String}

@[simp] theorem takenOf_nil : takenOf c [] = [] := rfl

@[simp] theorem takenOf_append (l m : List Event) :
    takenOf c (l ++ m) = takenOf c l ++ takenOf c m := by
  simp [takenOf]

/-- An event takes one recipe of a course, or none. -/
theorem takenOf_cases (c : Course) (e : Event) :
    takenOf c [e] = [] ∨ ∃ id, e = .recipeTaken c id ∧ takenOf c [e] = [id] := by
  cases e with
  | recipeTaken d id =>
      by_cases hd : d = c
      · subst hd
        exact Or.inr ⟨id, rfl, by simp [takenOf, takings, Event.taking?]⟩
      · exact Or.inl (by simp [takenOf, takings, Event.taking?, hd])
  | _ => exact Or.inl rfl

theorem takenOf_of_resets (h : e.resets c = true) : takenOf c [e] = [] := by
  cases e <;> first | rfl | simp [Event.resets] at h

@[simp] theorem cyclesOf_nil : cyclesOf c [] = [[]] := rfl

/-- A reset begins a new piece. -/
theorem cyclesOf_cons_of_resets (h : e.resets c = true) :
    cyclesOf c (e :: l) = [] :: cyclesOf c l := by
  unfold cyclesOf
  rw [List.splitOnP_cons_eq_if_modifyHead, if_pos h]
  rfl

/-- Any other event belongs to the first piece. -/
theorem cyclesOf_cons (h : e.resets c = false) :
    ∃ first rest, cyclesOf c l = first :: rest ∧
      cyclesOf c (e :: l) = (takenOf c [e] ++ first) :: rest := by
  unfold cyclesOf
  rw [List.splitOnP_cons_eq_if_modifyHead, h]
  simp only [Bool.false_eq_true, if_false]
  cases hl : l.splitOnP (Event.resets c) with
  | nil => exact absurd hl (List.splitOnP_ne_nil _ _)
  | cons first rest =>
      refine ⟨takenOf c first, rest.map (takenOf c), rfl, ?_⟩
      change takenOf c ([e] ++ first) :: rest.map (takenOf c) = _
      rw [takenOf_append]

theorem resetsOf_cons : resetsOf c (e :: l) = resetsOf c l + if e.resets c = true then 1 else 0 :=
  List.countP_cons

/-- There is one piece more than there are resets. -/
theorem length_cyclesOf (c : Course) (events : List Event) :
    (cyclesOf c events).length = resetsOf c events + 1 := by
  induction events with
  | nil => rfl
  | cons e l ih =>
      rw [resetsOf_cons]
      cases h : e.resets c with
      | true => rw [cyclesOf_cons_of_resets h, List.length_cons, ih, if_pos rfl]
      | false =>
          obtain ⟨first, rest, hl, hcons⟩ := cyclesOf_cons (l := l) h
          rw [hl] at ih
          rw [hcons, List.length_cons, if_neg Bool.false_ne_true]
          exact ih

/-- The pieces, one after the other, are all that was taken. -/
theorem flatten_cyclesOf (c : Course) (events : List Event) :
    (cyclesOf c events).flatten = takenOf c events := by
  induction events with
  | nil => rfl
  | cons e l ih =>
      change _ = takenOf c ([e] ++ l)
      rw [takenOf_append]
      cases h : e.resets c with
      | true => rw [cyclesOf_cons_of_resets h, List.flatten_cons, ih, takenOf_of_resets h]
      | false =>
          obtain ⟨first, rest, hl, hcons⟩ := cyclesOf_cons (l := l) h
          rw [hl, List.flatten_cons] at ih
          rw [hcons, List.flatten_cons, List.append_assoc, ih]

/-- Without a reset, all that was taken is the last piece. -/
theorem lastCycleOf_of_no_resets (h : resetsOf c events = 0) :
    lastCycleOf c events = takenOf c events := by
  have hone := length_cyclesOf c events
  rw [h, Nat.zero_add, List.length_eq_one_iff] at hone
  obtain ⟨piece, hpiece⟩ := hone
  have hflat := flatten_cyclesOf c events
  unfold lastCycleOf
  rw [hpiece] at hflat ⊢
  simpa using hflat

/-! ## marks and cycles -/

/-- What one event other than a reset of the course does to the marks of the course. -/
theorem isUsed_act (h : e.resets c = false) (t : Rotation) :
    (e.act t).isUsed c id = true ↔ t.isUsed c id = true ∨ id ∈ takenOf c [e] := by
  cases e with
  | recipeTaken d x =>
      change (t.mark d x).isUsed c id = true ↔ _
      rw [Rotation.isUsed_mark]
      by_cases hd : d = c
      · simp [takenOf, takings, Event.taking?, hd]
      · simp [takenOf, takings, Event.taking?, hd, Ne.symm hd]
  | cycleReset d old new size =>
      have hd : c ≠ d := of_decide_eq_false h
      change (t.reset d).isUsed c id = true ↔ _
      rw [Rotation.isUsed_reset]
      simp [takenOf, takings, Event.taking?, hd]
  | _ => simp [Event.act, takenOf, takings, Event.taking?]

theorem isUsed_act_of_resets (h : e.resets c = true) (t : Rotation) :
    (e.act t).isUsed c id = false := by
  cases e with
  | cycleReset d old new size =>
      have hd : c = d := of_decide_eq_true h
      change (t.reset d).isUsed c id = false
      rw [Bool.eq_false_iff, Ne, Rotation.isUsed_reset]
      exact fun hused => hused.1 hd
  | _ => simp [Event.resets] at h

/-- After some events, what counts as used for a course is what was taken since its last reset;
if it never was reset, also what counted as used at the beginning. -/
theorem isUsed_replay_iff (c : Course) (t : Rotation) (events : List Event) (id : String) :
    (replay t events).isUsed c id = true ↔
      id ∈ lastCycleOf c events ∨ (resetsOf c events = 0 ∧ t.isUsed c id = true) := by
  induction events generalizing t with
  | nil => simp [lastCycleOf, resetsOf]
  | cons e l ih =>
      rw [replay_cons, ih, resetsOf_cons]
      unfold lastCycleOf
      cases h : e.resets c with
      | true =>
          rw [cyclesOf_cons_of_resets h, List.getLastD_cons, isUsed_act_of_resets h]
          simp
      | false =>
          obtain ⟨first, rest, hl, hcons⟩ := cyclesOf_cons (l := l) h
          have hlen := length_cyclesOf c l
          rw [hcons, hl, isUsed_act h, if_neg Bool.false_ne_true, Nat.add_zero]
          rw [hl, List.length_cons] at hlen
          cases rest with
          | nil =>
              have hzero : resetsOf c l = 0 := (Nat.succ.inj hlen).symm
              simp only [hzero, true_and, List.getLastD_cons, List.getLastD_nil, List.mem_append]
              grind
          | cons second rest =>
              have hpos : resetsOf c l ≠ 0 := by
                rw [List.length_cons] at hlen
                omega
              simp only [hpos, false_and, or_false, List.getLastD_cons]

namespace Pool.Lawful

variable {pool : Pool} {t : Rotation}

/-- In a lawful journal nothing but a side dish is taken twice within a cycle, nor taken in the
first cycle after it was used before. -/
theorem nodup_cycles (h : pool.Lawful t events) (hc : c ≠ .side) :
    (∀ piece ∈ cyclesOf c events, piece.Nodup) ∧
      ∀ id ∈ firstCycleOf c events, t.isUsed c id = false := by
  induction events generalizing t with
  | nil => simp [firstCycleOf]
  | cons e l ih =>
      obtain ⟨hallows, hrest⟩ := h
      obtain ⟨hpieces, hfirst⟩ := ih hrest
      unfold firstCycleOf at hfirst ⊢
      cases hreset : e.resets c with
      | true =>
          rw [cyclesOf_cons_of_resets hreset]
          refine ⟨fun piece hpiece => ?_, fun id hid => absurd hid List.not_mem_nil⟩
          rcases List.mem_cons.mp hpiece with rfl | hpiece
          · exact List.nodup_nil
          · exact hpieces piece hpiece
      | false =>
          obtain ⟨first, rest, hl, hcons⟩ := cyclesOf_cons (l := l) hreset
          rw [hl] at hpieces hfirst
          rw [hcons]
          have hnew : ∀ id ∈ first, t.isUsed c id = false ∧ id ∉ takenOf c [e] := by
            intro id hid
            have hunused := hfirst id hid
            rw [Bool.eq_false_iff, Ne, isUsed_act hreset, not_or] at hunused
            exact ⟨Bool.eq_false_iff.mpr hunused.1, hunused.2⟩
          have htaken : (takenOf c [e]).Nodup ∧ ∀ id ∈ takenOf c [e], t.isUsed c id = false := by
            rcases takenOf_cases c e with hnone | ⟨x, rfl, hone⟩
            · rw [hnone]
              exact ⟨List.nodup_nil, fun id hid => absurd hid List.not_mem_nil⟩
            · rw [hone]
              refine ⟨List.nodup_singleton x, fun id hid => ?_⟩
              rw [List.mem_singleton.mp hid]
              exact hallows hc
          refine ⟨fun piece hpiece => ?_, fun id hid => ?_⟩
          · rcases List.mem_cons.mp hpiece with rfl | hpiece
            · refine List.nodup_append.mpr ⟨htaken.1, hpieces first List.mem_cons_self, ?_⟩
              rintro a ha b hb rfl
              exact (hnew a hb).2 ha
            · exact hpieces piece (List.mem_cons_of_mem _ hpiece)
          · rcases List.mem_append.mp hid with hid | hid
            · exact htaken.2 id hid
            · exact (hnew id hid).1

end Pool.Lawful

/-! ## the cycles of a plan -/

/-- What assignments take for a course other than side dishes are the recipes assigned to it. -/
theorem takings_of_course (hc : c ≠ .side) (l : List Assignment) :
    ((l.flatMap Assignment.takings).filter fun x => x.1 = c).map (·.2) =
      (l.filter fun a => a.course = c).map (·.recipeId) := by
  induction l with
  | nil => rfl
  | cons a l ih =>
      have hside : ((a.sideId.toList.map fun id => (Course.side, id)).filter
          fun x => x.1 = c) = [] := by
        rw [List.filter_eq_nil_iff]
        rintro x hx hxc
        obtain ⟨id, -, rfl⟩ := List.mem_map.mp hx
        exact hc (of_decide_eq_true hxc).symm
      rw [List.flatMap_cons, List.filter_append, List.map_append, ih]
      unfold Assignment.takings
      by_cases h : a.course = c <;> simp [h, hside]

/-- What assignments of the daily courses take for side dishes are the sides paired with them. -/
theorem takings_of_sides {l : List Assignment} (h : ∀ a ∈ l, a.course ∈ Course.daily) :
    ((l.flatMap Assignment.takings).filter fun x => x.1 = .side).map (·.2) =
      l.filterMap (·.sideId) := by
  induction l with
  | nil => rfl
  | cons a l ih =>
      have hcourse : a.course ≠ .side := by
        intro hside
        have hdaily := h a List.mem_cons_self
        rw [hside] at hdaily
        revert hdaily
        decide
      rw [List.flatMap_cons, List.filter_append, List.map_append,
        ih fun b hb => h b (List.mem_cons_of_mem _ hb)]
      unfold Assignment.takings
      cases hid : a.sideId <;> simp [hcourse, hid]

namespace Request

variable {q : Request} {given : Option Rotation} {weekCount : Option Int}
  {start : Except PlanError Date} {plan : Plan}

/-- A generated plan read as its cycles.  For each daily course, the recipes assigned to it, cut
at each reset of the course, repeat in no piece; the first piece has none that was used at the
beginning; and what is used at the end is the last piece, together with what was used at the
beginning if the course was never reset.  The side dishes used at the end are likewise those
paired since their last reset. -/
theorem cycles_of_generate (h : (q.generate given weekCount start).result = .ok plan) :
    let journal := (q.generate given weekCount start).journal
    let before := given.getD .fresh
    (∀ c ∈ Course.daily,
      (cyclesOf c journal).flatten =
        (plan.assignments.filter fun a => a.course = c).map (·.recipeId) ∧
      (∀ piece ∈ cyclesOf c journal, piece.Nodup) ∧
      (∀ id ∈ firstCycleOf c journal, id ∉ before.usedIds c) ∧
      ∀ id, id ∈ plan.rotation.usedIds c ↔
        id ∈ lastCycleOf c journal ∨ (resetsOf c journal = 0 ∧ id ∈ before.usedIds c)) ∧
    (cyclesOf .side journal).flatten = plan.assignments.filterMap (·.sideId) ∧
    ∀ id, id ∈ plan.rotation.usedIds .side ↔
      id ∈ lastCycleOf .side journal ∨
        (resetsOf .side journal = 0 ∧ id ∈ before.usedIds .side) := by
  intro journal before
  obtain ⟨hlawful, huse, hserves⟩ := generate_ok h
  have hassignments : takings journal = plan.assignments.flatMap Assignment.takings := by
    rw [hserves.takings]
    exact (List.flatMap_assoc).symm
  have hdaily : ∀ a ∈ plan.assignments, a.course ∈ Course.daily := by
    intro a ha
    obtain ⟨w, hw, ha⟩ := List.mem_flatMap.mp ha
    exact hserves.daily w hw a ha
  have hused : ∀ c id, id ∈ plan.rotation.usedIds c ↔
      id ∈ lastCycleOf c journal ∨ (resetsOf c journal = 0 ∧ id ∈ before.usedIds c) := by
    intro c id
    rw [← Rotation.isUsed_iff_mem, ← Rotation.isUsed_iff_mem]
    exact (Bool.eq_iff_iff.mp (huse.isUsed c id)).trans (isUsed_replay_iff c _ journal id)
  refine ⟨fun c hc => ?_, ?_, hused .side⟩
  · have hside : c ≠ .side := by
      rintro rfl
      revert hc
      decide
    obtain ⟨hnodup, hfresh⟩ := hlawful.nodup_cycles hside
    refine ⟨?_, hnodup, fun id hid hold => ?_, hused c⟩
    · rw [flatten_cyclesOf, takenOf, hassignments, takings_of_course hside]
    · have hfree := hfresh id hid
      rw [show before.isUsed c id = true from Rotation.isUsed_iff_mem.mpr hold] at hfree
      contradiction
  · rw [flatten_cyclesOf, takenOf, hassignments, takings_of_sides hdaily]

/-- A request without wishes, to be met without random numbers. -/
def ofRecipes (recipes : List Recipe) : Request where
  recipes
  rules := ⟨.standard, {}⟩
  seed := none

/-- Three main courses, of which one was used and one comes with a side dish, fill a week in three
cycles. -/
theorem cycles_of_generate_three :
    let q := ofRecipes [.plain .main "a", .plain .main "b",
      { Recipe.plain .main "c" with takesSide := true }, .plain .side "s", .plain .dessert "z"]
    let used := Rotation.fresh.mark .main "b"
    let journal := (q.generate (some used) (some 1) (.ok Date.first)).journal
    ∃ plan, (q.generate (some used) (some 1) (.ok Date.first)).result = .ok plan ∧
      (cyclesOf .main journal).flatten =
        (plan.assignments.filter fun a => a.course = .main).map (·.recipeId) ∧
      (∀ piece ∈ cyclesOf .main journal, piece.Nodup) ∧
      (∀ id ∈ firstCycleOf .main journal, id ∉ used.usedIds .main) ∧
      cyclesOf .main journal = [["a", "c"], ["b", "a", "c"], ["a", "b"]] := by
  intro q used journal
  have hok : (q.generate (some used) (some 1) (.ok Date.first)).result.toOption.isSome = true := by
    decide +kernel
  have hcycles : cyclesOf .main journal = [["a", "c"], ["b", "a", "c"], ["a", "b"]] := by
    decide +kernel
  obtain ⟨plan, hplan⟩ := exists_of_isSome hok
  obtain ⟨hflat, hnodup, hfirst, -⟩ := (cycles_of_generate hplan).1 .main (by decide)
  exact ⟨plan, hplan, hflat, hnodup, hfirst, hcycles⟩

end Request

end MealRota
