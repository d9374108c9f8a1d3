import MealRota.Proofs.KeptMarks
import MealRota.Proofs.LockedMains
import MealRota.Proofs.Timetable

/-!
# MealRota.Proofs.Placements

Where the main courses of a generated plan were placed.  The journal of the run tells which slot
was being filled when a main course was taken, and which main courses were taken since their last
reset.  The plan does not record the reset, yet the weeks that hold the main courses of the
current cycle are recovered from it as the journal has them.

* `placements` — the main courses that were taken, each with the slot reached last;
* `mem_placements`, `exists_lastCycle` — what the journal says of them and of the last cycle;
* `Kitchen.placements_fillSlot`, `Request.placements_of_generate` — they are the main courses of
  the plan, each in its own slot;
* `Request.holders_of_generate` — the recovery, by the journal.
-/

namespace MealRota

open Planning

variable {c : Course} {e : Event} {l m : List Event} {s t : Option (Date × Course)} {id : String}

/-! ## the slots of a journal -/

theorem lastSlot?_cons (e : Event) (l : List Event) :
    lastSlot? (e :: l) = (lastSlot? l).or e.slot? := by
  unfold lastSlot?
  cases h : e.slot? <;> simp [h, List.getLast?_cons]

theorem lastSlot?_append (l m : List Event) :
    lastSlot? (l ++ m) = (lastSlot? m).or (lastSlot? l) := by
  simp [lastSlot?]

/-- The main courses that some events take, each with the slot reached last, `s` being the one
reached before all of them. -/
def placements (s : Option (Date × Course)) :
    List Event → List (String × Option (Date × Course))
  | [] => []
  | e :: l => (takenOf .main [e]).map (fun id => (id, s)) ++ placements (e.slot?.or s) l

@[simp] theorem placements_append (s : Option (Date × Course)) (l m : List Event) :
    placements s (l ++ m) = placements s l ++ placements ((lastSlot? l).or s) m := by
  induction l generalizing s with
  | nil => rfl
  | cons e l ih => simp [placements, ih, lastSlot?_cons, Option.or_assoc]

theorem map_fst_placements (s : Option (Date × Course)) (l : List Event) :
    (placements s l).map (·.1) = takenOf .main l := by
  induction l generalizing s with
  | nil => rfl
  | cons e l ih =>
      rw [← List.singleton_append, takenOf_append, ← ih (e.slot?.or s)]
      simp [placements, Function.comp_def]

theorem length_placements (s : Option (Date × Course)) (l : List Event) :
    (placements s l).length = (takenOf .main l).length := by
  rw [← map_fst_placements s, List.length_map]

/-- A main course has its place where it was taken. -/
theorem mem_placements : (id, t) ∈ placements s l ↔
    ∃ before later, l = before ++ .recipeTaken .main id :: later ∧
      t = (lastSlot? before).or s := by
  constructor
  · intro h
    induction l generalizing s with
    | nil => exact absurd h List.not_mem_nil
    | cons e l ih =>
        rcases List.mem_append.mp h with h | h
        · rcases takenOf_cases .main e with hnone | ⟨x, rfl, hone⟩
          · simp [hnone] at h
          · simp only [hone, List.map_cons, List.map_nil, List.mem_singleton, Prod.mk.injEq] at h
            obtain ⟨rfl, rfl⟩ := h
            exact ⟨[], l, rfl, rfl⟩
        · obtain ⟨before, later, rfl, rfl⟩ := ih h
          exact ⟨e :: before, later, rfl, by rw [lastSlot?_cons, Option.or_assoc]⟩
  · rintro ⟨before, later, rfl, rfl⟩
    rw [placements_append]
    exact List.mem_append_right _ List.mem_cons_self

/-- While one slot is being filled, everything is placed there. -/
theorem placements_slot {day : Date} (h : ∀ e ∈ l, e.During c) :
    placements s (.slotReached c day :: l) =
      (takenOf .main l).map fun id => (id, some (day, c)) := by
  show placements (some (day, c)) l = _
  induction l with
  | nil => rfl
  | cons e l ih =>
      have hnone : e.slot? = none := (h e List.mem_cons_self).slot?_eq_none
      rw [placements, hnone, Option.none_or, ih fun e he => h e (List.mem_cons_of_mem _ he),
        ← List.map_append, ← takenOf_append, List.singleton_append]

/-! ## the last cycle of a journal -/

/-- Events before the last reset do not matter for the last cycle. -/
theorem lastCycleOf_cons (h : resetsOf c (e :: l) ≠ 0) :
    lastCycleOf c (e :: l) = lastCycleOf c l := by
  have hlength := length_cyclesOf c l
  rw [resetsOf_cons] at h
  unfold lastCycleOf
  cases hreset : e.resets c with
  | true =>
      rw [cyclesOf_cons_of_resets hreset]
      cases hcycles : cyclesOf c l with
      | nil => simp [hcycles] at hlength
      | cons first rest => simp
  | false =>
      obtain ⟨first, rest, hl, hcycles⟩ := cyclesOf_cons (l := l) hreset
      rw [hcycles, hl]
      cases rest with
      | nil =>
          simp only [hreset, Bool.false_eq_true, if_false] at h
          rw [hl, List.length_singleton] at hlength
          omega
      | cons second rest => simp

/-- The last cycle begins at a reset, or with the events themselves. -/
theorem exists_lastCycle (c : Course) (events : List Event) :
    ∃ front back, events = front ++ back ∧ lastCycleOf c events = takenOf c back ∧
      resetsOf c back = 0 ∧ ∀ l m, front = l ++ m → resetsOf c m = 0 → m = [] := by
  induction events with
  | nil => exact ⟨[], [], rfl, rfl, rfl, fun l m h _ => (List.append_eq_nil_iff.mp h.symm).2⟩
  | cons e events ih =>
      by_cases hnone : resetsOf c (e :: events) = 0
      · refine ⟨[], _, rfl, lastCycleOf_of_no_resets hnone, hnone, fun l m h _ => ?_⟩
        exact (List.append_eq_nil_iff.mp h.symm).2
      · obtain ⟨front, back, rfl, hlast, hback, hfront⟩ := ih
        refine ⟨e :: front, back, rfl, (lastCycleOf_cons hnone).trans hlast, hback,
          fun l m h hm => ?_⟩
        cases l with
        | nil =>
            rw [List.nil_append] at h
            rw [← List.cons_append, h, resetsOf_append, hm, hback] at hnone
            exact absurd rfl hnone
        | cons e' l => exact hfront l m (List.cons_eq_cons.mp h).2 hm

/-- What was placed since the last reset is what no reset comes after. -/
theorem mem_lastPlacements {events : List Event} :
    (id, t) ∈ (placements none events).drop
        ((placements none events).length - (lastCycleOf .main events).length) ↔
      ∃ before later, events = before ++ .recipeTaken .main id :: later ∧
        resetsOf .main later = 0 ∧ t = lastSlot? before := by
  obtain ⟨front, back, rfl, hlast, hback, hfront⟩ := exists_lastCycle .main events
  have hdrop : (placements none (front ++ back)).drop ((placements none (front ++ back)).length -
      (lastCycleOf .main (front ++ back)).length) = placements (lastSlot? front) back := by
    rw [hlast, ← length_placements (lastSlot? front) back, placements_append, Option.or_none,
      List.length_append, Nat.add_sub_cancel, List.drop_left]
  rw [hdrop, mem_placements]
  constructor
  · rintro ⟨before, later, rfl, rfl⟩
    rw [resetsOf_append, resetsOf_cons] at hback
    exact ⟨front ++ before, later, (List.append_assoc ..).symm, by omega,
      (lastSlot?_append front before).symm⟩
  · rintro ⟨before, later, hsplit, hlater, rfl⟩
    rcases List.append_eq_append_iff.mp hsplit with ⟨rest, rfl, hrest⟩ | ⟨rest, hbefore, hrest⟩
    · exact ⟨rest, later, hrest, lastSlot?_append front rest⟩
    · -- nothing that the front ends with has no reset
      cases rest with
      | nil =>
          rw [List.append_nil] at hbefore
          exact ⟨[], later, hrest.symm, by rw [hbefore]; rfl⟩
      | cons first rest =>
          obtain ⟨rfl, hafter⟩ := List.cons_eq_cons.mp hrest
          have hnone : resetsOf .main (.recipeTaken .main id :: rest) = 0 := by
            rw [hafter, List.append_eq, resetsOf_append] at hlater
            rw [resetsOf_cons]
            simp only [Event.resets, Bool.false_eq_true, if_false]
            omega
          exact absurd (hfront before _ hbefore hnone) (List.cons_ne_nil _ _)

/-! ## filling slots -/

/-- The main courses of assignments, each with its slot. -/
def mainPlaces (assignments : List Assignment) : List (String × Option (Date × Course)) :=
  (assignments.filter fun a => a.course = .main).map fun a => (a.recipeId, some a.slot)

@[simp] theorem mainPlaces_append (l m : List Assignment) :
    mainPlaces (l ++ m) = mainPlaces l ++ mainPlaces m := by
  simp [mainPlaces]

theorem map_fst_mainPlaces (l : List Assignment) : (mainPlaces l).map (·.1) = mainIdsOf l := by
  simp [mainPlaces, mainIdsOf, Function.comp_def]

/-- A stretch of a run places the main courses of some assignments. -/
def Progress.Places (p q : Progress) (assignments : List Assignment) : Prop :=
  ∃ events, q.journal = p.journal ++ events ∧ ∀ s, placements s events = mainPlaces assignments

namespace Progress.Places

variable {p q r : Progress} {assignments : List Assignment}

theorem refl (p : Progress) : p.Places p [] :=
  ⟨[], (List.append_nil _).symm, fun _ => rfl⟩

theorem trans {more : List Assignment} (h : p.Places q assignments) (h' : q.Places r more) :
    p.Places r (assignments ++ more) := by
  obtain ⟨l, hl, hplaces⟩ := h
  obtain ⟨m, hm, hplaces'⟩ := h'
  refine ⟨l ++ m, by rw [hm, hl, List.append_assoc], fun s => ?_⟩
  rw [placements_append, hplaces, hplaces', mainPlaces_append]

end Progress.Places

namespace Kitchen

variable {k : Kitchen} {p q : Progress} {draft draft' : WeekDraft} {locked : List String}
  {weeks : List Week} {w : Week} {place : Date × Course}

/-- Filling a slot places its main course there. -/
theorem places_fillSlot (h : run (k.fillSlot draft place) p = (.ok draft', q)) :
    ∃ added, draft'.assignments = draft.assignments ++ added ∧ p.Places q added := by
  obtain ⟨events, hlocks⟩ : ∃ events, SlotHoldsLocks place.2 place.1 draft draft' p q events :=
    k.fillSlot_holdsLocks h
  obtain ⟨added, hadded, hslot⟩ : ∃ added, draft'.assignments = draft.assignments ++ added ∧
      ∀ a ∈ added, a.slot = place := by
    rcases slot_of_fillSlot h with ⟨a, rfl, hadded⟩ | ⟨-, hsame⟩
    · exact ⟨[a], hadded, fun b hb => by rw [List.mem_singleton.mp hb]⟩
    · exact ⟨[], by rw [hsame, List.append_nil], fun b hb => absurd hb List.not_mem_nil⟩
  refine ⟨added, hadded, .slotReached place.2 place.1 :: events, hlocks.trace.journal,
    fun s => ?_⟩
  have htaken : mainIdsOf added = takenOf .main events := by
    have hids := hlocks.taken
    rw [hadded, mainIdsOf_append] at hids
    exact List.append_cancel_left hids
  rw [placements_slot hlocks.during, ← htaken, mainIdsOf, List.map_map, mainPlaces]
  refine List.map_congr_left fun a ha => ?_
  rw [Function.comp_apply, hslot a (List.mem_of_mem_filter ha)]

/-- Filling slots one after the other. -/
theorem places_of_run {slots : List (Date × Course)}
    (h : run (slots.foldlM k.fillSlot ⟨[], [], locked⟩) p = (.ok draft, q)) :
    p.Places q draft.assignments := by
  refine run_foldlM_ok (fun _ d m => p.Places m d.assignments) ?_ (.refl p) h
  intro _ _ _ d d' m m' _ hd hslot
  obtain ⟨added, hadded, hplaces⟩ := places_fillSlot hslot
  rw [hadded]
  exact hd.trans hplaces

theorem Plans.places (h : k.Plans locked w p q) : p.Places q w.assignments := by
  have hweek := k.plansWeek_planWeek w.start locked w.status p
  rw [show run (k.planWeek w.start locked w.status) p = (.ok w, q) from h] at hweek
  generalize hres : (Except.ok w : Except PlanError Week) = result at hweek
  cases hweek with
  | planned days hm hd draft m hrun hcheck =>
      have hreport : m.Places (m.note (.weekPlanned w.start draft.assignments.length
          m.rotation.cycle)) [] := ⟨_, rfl, fun _ => rfl⟩
      have hplaces := (places_of_run hrun).trans hreport
      rw [List.append_nil] at hplaces
      rw [Except.ok.inj hres]
      exact hplaces
  | _ => contradiction

theorem PlansInTurn.places (h : k.PlansInTurn weeks p q) :
    p.Places q (weeks.flatMap (·.assignments)) := by
  induction h with
  | none p => exact .refl p
  | next h hrest ih => exact h.places.trans ih

end Kitchen

/-! ## the weeks of the current cycle -/

theorem Plan.mainIds_eq (plan : Plan) : plan.mainIds = mainIdsOf plan.assignments := by
  unfold Plan.mainIds Plan.assignments mainIdsOf
  rw [List.filter_flatMap, List.map_flatMap]
  rfl

section

variable {plan : Plan} {monday : Date} (h : plan.Timetable monday)

include h

/-- An assignment stands in the week of its day. -/
theorem Plan.Timetable.weekIndexFor?_date {i : Nat} {w : Week} {a : Assignment}
    (hw : plan.weeks[i]? = some w) (ha : a ∈ w.assignments) :
    plan.weekIndexFor? a.date = some i := by
  have hcovers := ((h.week w (List.mem_of_getElem? hw)).within a.slot (List.mem_map_of_mem ha)).1
  exact h.weekIndexFor?_eq_some_iff.mpr ⟨(List.getElem?_eq_some_iff.mp hw).1,
    (h.covers_iff hw a.date).mp hcovers⟩

/-- The main course slots have the weeks of their days. -/
theorem Plan.Timetable.map_mainSlots :
    (plan.mainSlots.map fun x => (x.1, some x.2)) =
      (mainPlaces plan.assignments).map fun x =>
        (x.1, x.2.bind fun place => plan.weekIndexFor? place.1) := by
  unfold Plan.mainSlots mainPlaces Plan.assignments Week.mainIds
  simp only [List.filter_flatMap, List.map_flatMap, List.map_map]
  rw [← Plan.flatMap_zipIdx plan.weeks]
  refine List.flatMap_congr fun ⟨w, i⟩ hw => List.map_congr_left fun a ha => ?_
  have hindex : plan.weekIndexFor? a.slot.1 = some i :=
    h.weekIndexFor?_date (List.mem_zipIdx_iff_getElem?.mp hw) (List.mem_of_mem_filter ha)
  simp [hindex]

/-- The current slots are those of what was placed since the last reset. -/
theorem Plan.Timetable.map_currentSlots {journal : List Event}
    (hplaces : placements none journal = mainPlaces plan.assignments) :
    ((plan.currentSlots journal).map fun x => (x.1, some x.2)) =
      ((placements none journal).drop ((placements none journal).length -
        (lastCycleOf .main journal).length)).map fun x =>
          (x.1, x.2.bind fun place => plan.weekIndexFor? place.1) := by
  have hslots := h.map_mainSlots
  have hlength := congrArg List.length hslots
  rw [List.length_map, List.length_map, ← hplaces] at hlength
  rw [Plan.currentSlots, List.map_drop, List.map_drop, hslots, hlength, hplaces]

end

namespace Request

variable {q : Request} {given : Option Rotation} {weekCount : Option Int}
  {start : Except PlanError Date} {plan : Plan}

/-- The main courses of a generated plan were taken in their own slots, one after the other. -/
theorem placements_of_generate (h : (q.generate given weekCount start).result = .ok plan) :
    placements none (q.generate given weekCount start).journal =
      mainPlaces plan.assignments := by
  obtain ⟨monday, n, p, p', -, -, -, -, hrun, -, hjournal⟩ := generating_of_generate h
  obtain ⟨events, hevents, hplaces⟩ : p.Places p' plan.assignments :=
    (Kitchen.plansInTurn_of_planWeeks hrun).2.places
  have hweeks : takenOf .main events = plan.mainIds := by
    rw [← map_fst_placements none, hplaces, map_fst_mainPlaces, plan.mainIds_eq]
  -- the main courses are all accounted for, so that none was taken before the weeks
  have hbefore : takenOf .main p.journal = [] := by
    have htaken := takenOf_main_of_generate h
    have hreport : takenOf .main [.generated plan.weeks.length plan.assignments.length
        plan.rotation.cycle] = [] := rfl
    rw [hjournal, hevents, takenOf_append, takenOf_append, hweeks, hreport,
      List.append_nil] at htaken
    exact List.append_left_eq_self.mp htaken
  have hnone : placements none p.journal = [] := by
    rw [← List.length_eq_zero_iff, length_placements, hbefore, List.length_nil]
  rw [hjournal, hevents, placements_append, placements_append, hnone, hplaces, List.nil_append]
  exact List.append_nil _

/-- Each main course that is taken has its assignment in the slot that is being filled. -/
theorem exists_assignment_of_recipeTaken
    (h : (q.generate given weekCount start).result = .ok plan) {before later : List Event}
    (hsplit : (q.generate given weekCount start).journal =
      before ++ .recipeTaken .main id :: later) :
    ∃ a ∈ plan.assignments, a.course = .main ∧ a.recipeId = id ∧
      lastSlot? before = some (a.date, .main) := by
  have hplace : (id, lastSlot? before) ∈ mainPlaces plan.assignments := by
    rw [← placements_of_generate h]
    exact mem_placements.mpr ⟨before, later, hsplit, Option.or_none.symm⟩
  obtain ⟨a, ha, hsame⟩ := List.mem_map.mp hplace
  obtain ⟨hin, hcourse⟩ := List.mem_filter.mp ha
  have hmain : a.course = .main := of_decide_eq_true hcourse
  obtain ⟨hid, hslot⟩ := Prod.mk.inj hsame
  exact ⟨a, hin, hmain, hid, by rw [← hslot, Assignment.slot, hmain]⟩

/-- What is recovered as the current cycle was placed since the last reset, each main course in the
week of its day. -/
theorem mem_currentMains_iff (h : (q.generate given weekCount start).result = .ok plan) {i : Nat} :
    (id, i) ∈ currentMains plan.weeks plan.rotation ↔
      ∃ before later day,
        (q.generate given weekCount start).journal = before ++ .recipeTaken .main id :: later ∧
        resetsOf .main later = 0 ∧ lastSlot? before = some (day, .main) ∧
        plan.weekIndexFor? day = some i := by
  obtain ⟨monday, -, -, -, rfl, -⟩ := generating_of_generate h
  have hcurrent := (Plan.Timetable.of_generate h).map_currentSlots (placements_of_generate h)
  rw [currentMains_of_generate h, List.mem_reverse]
  have hmem : ∀ journal, (id, i) ∈ plan.currentSlots journal ↔
      (id, some i) ∈ (plan.currentSlots journal).map fun x => (x.1, some x.2) := by simp
  rw [hmem, hcurrent, List.mem_map]
  constructor
  · rintro ⟨⟨id', t⟩, hplace, hsame⟩
    obtain ⟨rfl, hindex⟩ := Prod.mk.inj hsame
    obtain ⟨before, later, hsplit, hlater, rfl⟩ := mem_lastPlacements.mp hplace
    obtain ⟨a, -, -, -, hslot⟩ := exists_assignment_of_recipeTaken h hsplit
    rw [hslot] at hindex
    exact ⟨before, later, a.date, hsplit, hlater, hslot, hindex⟩
  · rintro ⟨before, later, day, hsplit, hlater, hslot, hindex⟩
    exact ⟨(id, lastSlot? before), mem_lastPlacements.mpr ⟨before, later, hsplit, hlater, rfl⟩,
      by simp [hslot, hindex]⟩

/-- Which weeks hold the main courses of the current cycle, for a plan as it was generated.  Each
main course that the run took is that of the slot that was being filled, in the week of its day;
together they are the main courses of the plan.  Recovered are, without repetition, those that
were taken since the last reset, each with the week in which it was placed then, and all main
courses of the plan if there was no reset. -/
theorem holders_of_generate (h : (q.generate given weekCount start).result = .ok plan) :
    let journal := (q.generate given weekCount start).journal
    let held := currentMains plan.weeks plan.rotation
    takenOf .main journal = plan.mainIds ∧
      (∀ before id later, journal = before ++ .recipeTaken .main id :: later →
        ∃ day i w a, lastSlot? before = some (day, .main) ∧ plan.weekIndexFor? day = some i ∧
          plan.weeks[i]? = some w ∧ w.assignmentFor? day .main = some a ∧ a.recipeId = id) ∧
      (held.map (·.1)).Nodup ∧
      (∀ id i, holder? held id = some i ↔ ∃ before later day,
        journal = before ++ .recipeTaken .main id :: later ∧ resetsOf .main later = 0 ∧
          lastSlot? before = some (day, .main) ∧ plan.weekIndexFor? day = some i) ∧
      (resetsOf .main journal = 0 → held = mainsBackwards plan.weeks) := by
  intro journal held
  have htaken := takenOf_main_of_generate h
  refine ⟨htaken, fun before id later hsplit => ?_, nodup_takeHeld List.nodup_nil,
    fun id i => holder?_currentMains.trans (mem_currentMains_iff h), fun hnone => ?_⟩
  · obtain ⟨a, ha, hmain, hid, hslot⟩ := exists_assignment_of_recipeTaken h hsplit
    obtain ⟨w, hw, haw⟩ := List.mem_flatMap.mp ha
    obtain ⟨i, hi⟩ := List.mem_iff_getElem?.mp hw
    obtain ⟨monday, -, -, -, rfl, -⟩ := generating_of_generate h
    have htimetable := Plan.Timetable.of_generate h
    have hfound := htimetable.assignmentFor?_eq hw haw
    rw [hmain] at hfound
    exact ⟨a.date, i, w, a, hslot, htimetable.weekIndexFor?_date hi haw, hi, hfound, hid⟩
  · -- without a reset, the current slots are all of them
    have hlength : plan.mainSlots.length = (lastCycleOf .main journal).length := by
      rw [lastCycleOf_of_no_resets hnone, htaken, ← Plan.map_fst_mainSlots, List.length_map]
    show currentMains plan.weeks plan.rotation = _
    rw [currentMains_of_generate h, Plan.currentSlots, hlength, Nat.sub_self, List.drop_zero]
    rfl

/-- Two weeks of nine main courses, which begin a new cycle on the third day of the second week:
the first main course is held by the second week only, although it stands in both. -/
theorem holders_of_generate_nine :
    let q := ofRecipes (["a", "b", "c", "d", "e", "f", "g", "h", "i"].map (Recipe.plain .main))
    let journal := (q.generate none (some 2) (.ok Date.first)).journal
    ∃ plan, (q.generate none (some 2) (.ok Date.first)).result = .ok plan ∧
      plan.weeks.map (·.mainIds) =
        [["a", "b", "c", "d", "e", "f", "g"], ["h", "i", "a", "b", "c", "d", "e"]] ∧
      holder? (currentMains plan.weeks plan.rotation) "i" = none ∧
      ∃ before later day, journal = before ++ .recipeTaken .main "a" :: later ∧
        resetsOf .main later = 0 ∧ lastSlot? before = some (day, .main) ∧
        plan.weekIndexFor? day = some 1 := by
  intro q journal
  have hrun : ((q.generate none (some 2) (.ok Date.first)).result.toOption.any fun plan =>
      plan.weeks.map (·.mainIds) =
          [["a", "b", "c", "d", "e", "f", "g"], ["h", "i", "a", "b", "c", "d", "e"]] ∧
        holder? (currentMains plan.weeks plan.rotation) "i" = none ∧
        holder? (currentMains plan.weeks plan.rotation) "a" = some 1) = true := by
    decide +kernel
  obtain ⟨plan, hplan, hheld⟩ := (Option.any_eq_true _ _).mp hrun
  obtain ⟨hmains, hearly, hlate⟩ := of_decide_eq_true hheld
  have hok := eq_ok_of_toOption hplan
  exact ⟨plan, hok, hmains, hearly, ((holders_of_generate hok).2.2.2.1 "a" 1).mp hlate⟩

end Request

end MealRota
