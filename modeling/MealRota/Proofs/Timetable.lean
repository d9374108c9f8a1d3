import MealRota.Proofs.EditedPlans
import MealRota.Proofs.Refilling

/-!
# MealRota.Proofs.Timetable

The slots of a plan.  The planner fills the slots of a week in order and may leave
optional ones empty; weeks that are planned anew and slots that are refilled keep
their days.  So the assignments of a plan stand in the order of their slots, no slot is
filled twice, and a slot is found by its day and its course, however the plan was edited.

* `Precedes` — the order of slots;
* `Week.Timetable`, `Kitchen.Plans.timetable` — the slots of a planned week;
* `Plan.Timetable`, `EditedFrom.timetable` — those of a plan, kept by every edit;
* `EditedFrom.found_by_slot` — what follows for the look-ups.
-/

namespace MealRota

open Planning

/-! ## the days of a week -/

section

variable {start : Date} {days : List Date} (h : start.weekDates? = some days)

include h

theorem ascending_of_weekDates? : (days.map (·.ordinal)).Pairwise (· < ·) := by
  rw [ordinals_of_weekDates? h, List.pairwise_map]
  exact List.pairwise_lt_range.imp fun hlt => Nat.add_lt_add_left hlt _

theorem mem_weekDates? {day : Date} :
    day ∈ days ↔ start.ordinal ≤ day.ordinal ∧ day.ordinal ≤ start.ordinal + 6 := by
  have hmem : day ∈ days ↔ day.ordinal ∈ days.map (·.ordinal) := by
    refine ⟨List.mem_map_of_mem, fun hday => ?_⟩
    obtain ⟨day', hday', hsame⟩ := List.mem_map.mp hday
    rwa [← Date.ext hsame]
  rw [hmem, ordinals_of_weekDates? h]
  simp only [List.mem_map, List.mem_range, daysPerWeek]
  exact ⟨by omega, fun hday => ⟨day.ordinal - start.ordinal, by omega⟩⟩

theorem last_of_weekDates? : (days.getLastD start).ordinal = start.ordinal + 6 := by
  have hlast := congrArg List.getLast? (ordinals_of_weekDates? h)
  rw [List.getLast?_map, List.getLast?_map] at hlast
  obtain ⟨day, hday, hordinal⟩ := Option.map_eq_some_iff.mp hlast
  rw [List.getLastD_eq_getLast?, hday]
  exact hordinal

end

/-! ## the order of slots -/

/-- A slot comes before another one: it is of an earlier day, or of an earlier course of the same
day. -/
def Precedes (s t : Date × Course) : Prop :=
  s.1.ordinal < t.1.ordinal ∨
    s.1.ordinal = t.1.ordinal ∧ Course.daily.idxOf s.2 < Course.daily.idxOf t.2

theorem Precedes.ne {s t : Date × Course} (h : Precedes s t) : s ≠ t := by
  rintro rfl
  unfold Precedes at h
  omega

/-- The slots of days that follow each other are in order. -/
theorem pairwise_slotsOf {days : List Date} (h : (days.map (·.ordinal)).Pairwise (· < ·)) :
    (slotsOf days).Pairwise Precedes := by
  rw [List.pairwise_map] at h
  unfold slotsOf
  rw [List.pairwise_flatMap]
  refine ⟨fun day _ => ?_, h.imp fun hlt s hs t ht => ?_⟩
  · rw [List.pairwise_map]
    have hcourses : Course.daily.Pairwise fun c d =>
        Course.daily.idxOf c < Course.daily.idxOf d := by decide
    exact hcourses.imp fun hlt => Or.inr ⟨rfl, hlt⟩
  · obtain ⟨c, -, rfl⟩ := List.mem_map.mp hs
    obtain ⟨d, -, rfl⟩ := List.mem_map.mp ht
    exact Or.inl hlt

theorem mem_slotsOf {days : List Date} {s : Date × Course} :
    s ∈ slotsOf days ↔ s.1 ∈ days ∧ s.2 ∈ Course.daily := by
  simp only [slotsOf, List.mem_flatMap, List.mem_map, Prod.ext_iff]
  constructor
  · rintro ⟨day, hday, c, hc, rfl, rfl⟩
    exact ⟨hday, hc⟩
  · rintro ⟨hday, hc⟩
    exact ⟨s.1, hday, s.2, hc, rfl, rfl⟩

/-- The slot that an assignment fills. -/
def Assignment.slot (a : Assignment) : Date × Course := (a.date, a.course)

theorem Assignment.fills_iff {a : Assignment} {date : Date} {course : Course} :
    a.fills date course = true ↔ a.slot = (date, course) := by
  simp [fills, slot]

/-! ## the slots of a week -/

/-- The slots of a week that are filled, in the order of its assignments. -/
def Week.slots (w : Week) : List (Date × Course) := w.assignments.map (·.slot)

/-- A week goes from a Monday to the Sunday after it.  Its slots are filled in order; they are slots
of its days, and each of these has a main course. -/
structure Week.Timetable (w : Week) : Prop where
  monday : w.start.isMonday = true
  finish : w.finish.ordinal = w.start.ordinal + 6
  ordered : w.slots.Pairwise Precedes
  within : ∀ s ∈ w.slots, w.covers s.1 = true ∧ s.2 ∈ Course.daily
  mains : ∀ day, w.covers day = true → (day, Course.main) ∈ w.slots

/-- The timetable of a week is a matter of its ends and its slots. -/
theorem Week.Timetable.congr {w w' : Week} (h : w.Timetable) (hstart : w'.start = w.start)
    (hfinish : w'.finish = w.finish) (hslots : w'.slots = w.slots) : w'.Timetable := by
  have hcovers : w'.covers = w.covers := by
    funext day
    unfold Week.covers
    rw [hstart, hfinish]
  obtain ⟨hmonday, hfinish', hordered, hwithin, hmains⟩ := h
  exact ⟨hstart ▸ hmonday, by rw [hstart, hfinish, hfinish'], hslots ▸ hordered,
    by rwa [hslots, hcovers], by rwa [hslots, hcovers]⟩

namespace Kitchen

variable {k : Kitchen} {locked : List String} {p q : Progress} {w : Week}

/-- Filling a slot adds an assignment of this slot; only an optional one may stay empty. -/
theorem slot_of_fillSlot {draft draft' : WeekDraft} {place : Date × Course}
    (h : run (k.fillSlot draft place) p = (.ok draft', q)) :
    (∃ a : Assignment, a.slot = place ∧ draft'.assignments = draft.assignments ++ [a]) ∨
      place.2 ≠ .main ∧ draft'.assignments = draft.assignments := by
  obtain ⟨day, c⟩ := place
  obtain ⟨excluded, locked, m, result, q', -, hselects, hrun⟩ := k.run_fillSlot draft day c p
  rw [hrun] at h
  obtain ⟨hresult, rfl⟩ := Prod.mk.inj h
  cases result with
  | error e => contradiction
  | ok chosen =>
      cases chosen with
      | none =>
          have hoptional : c ≠ .main := by
            rintro rfl
            exact absurd hselects.optional_of_none (by decide)
          rw [← Except.ok.inj hresult]
          exact Or.inr ⟨hoptional, rfl⟩
      | some choice =>
          obtain ⟨a, hdate, hcourse, -, -, hassign, -⟩ := addChoice_ok hresult
          exact Or.inl ⟨a, Prod.ext hdate hcourse, hassign⟩

/-- The assignments of a week in the making fill some of the slots that are done, in order, and all
those of main courses. -/
structure Fills (done : List (Date × Course)) (slots : List (Date × Course)) : Prop where
  sublist : slots.Sublist done
  mains : ∀ s ∈ done, s.2 = .main → s ∈ slots

theorem Fills.step {done : List (Date × Course)} {place : Date × Course} {d d' : WeekDraft}
    (hd : Fills done (d.assignments.map (·.slot)))
    (h : run (k.fillSlot d place) p = (.ok d', q)) :
    Fills (done ++ [place]) (d'.assignments.map (·.slot)) := by
  rcases slot_of_fillSlot h with ⟨a, rfl, hassign⟩ | ⟨hoptional, hassign⟩
  · rw [hassign, List.map_append]
    refine ⟨hd.sublist.append (List.Sublist.refl _), fun s hs hmain => ?_⟩
    rcases List.mem_append.mp hs with hs | hs
    · exact List.mem_append_left _ (hd.mains s hs hmain)
    · exact List.mem_append_right _ hs
  · rw [hassign]
    refine ⟨hd.sublist.trans (List.sublist_append_left _ _), fun s hs hmain => ?_⟩
    rcases List.mem_append.mp hs with hs | hs
    · exact hd.mains s hs hmain
    · rw [List.mem_singleton.mp hs] at hmain
      exact absurd hmain hoptional

/-- Filling the slots of some days, one after the other. -/
theorem fills_of_run {days : List Date} {draft : WeekDraft}
    (h : run ((slotsOf days).foldlM k.fillSlot ⟨[], [], locked⟩) p = (.ok draft, q)) :
    Fills (slotsOf days) (draft.assignments.map (·.slot)) :=
  run_foldlM_ok (fun done d _ => Fills done (d.assignments.map (·.slot)))
    (fun _ _ _ _ _ _ _ _ hd hslot => hd.step hslot)
    ⟨List.Sublist.refl _, fun _ hs => absurd hs List.not_mem_nil⟩ h

/-- A planned week has a timetable. -/
theorem Plans.timetable (h : k.Plans locked w p q) : w.Timetable := by
  have hweek := k.plansWeek_planWeek w.start locked w.status p
  rw [show run (k.planWeek w.start locked w.status) p = (.ok w, q) from h] at hweek
  generalize hres : (Except.ok w : Except PlanError Week) = result at hweek
  cases hweek with
  | planned days hmonday hdays draft m hrun hcheck =>
      have hfills := fills_of_run hrun
      have hslots : w.slots = draft.assignments.map (·.slot) := by
        unfold Week.slots
        rw [Except.ok.inj hres]
      have hfinish : w.finish.ordinal = w.start.ordinal + 6 := by
        rw [congrArg Week.finish (Except.ok.inj hres)]
        exact last_of_weekDates? hdays
      have hcovers : ∀ day, w.covers day = true ↔ day ∈ days := by
        intro day
        simp only [mem_weekDates? hdays, Week.covers, hfinish, Bool.and_eq_true, decide_eq_true_eq]
      refine ⟨hmonday, hfinish, ?_, fun s hs => ?_, fun day hday => ?_⟩
      · rw [hslots]
        exact (pairwise_slotsOf (ascending_of_weekDates? hdays)).sublist hfills.sublist
      · rw [hslots] at hs
        obtain ⟨hday, hcourse⟩ := mem_slotsOf.mp (hfills.sublist.subset hs)
        exact ⟨(hcovers _).mpr hday, hcourse⟩
      · rw [hslots]
        have hmain : Course.main ∈ Course.daily := by decide
        exact hfills.mains _ (mem_slotsOf.mpr ⟨(hcovers day).mp hday, hmain⟩) rfl
  | _ => contradiction

/-- Weeks that are planned one after the other begin seven days after each other. -/
theorem starts_of_planWeeks {monday : Date} {offset count : Nat} {weeks : List Week}
    (h : run (k.planWeeks monday offset count) p = (.ok weeks, q)) :
    ∀ i w, weeks[i]? = some w → w.start.ordinal = monday.ordinal + daysPerWeek * (offset + i) := by
  induction count generalizing offset weeks p with
  | zero =>
      rw [← Except.ok.inj (Prod.mk.inj h).1]
      simp
  | succ count ih =>
      unfold planWeeks at h
      obtain ⟨start, m, hstart, h⟩ := run_bind_ok.mp h
      obtain ⟨hafter, rfl⟩ := run_lift_ok hstart
      obtain ⟨week, m, hweek, h⟩ := run_bind_ok.mp h
      obtain ⟨rest, m', hrest, h⟩ := run_bind_ok.mp h
      obtain ⟨hweeks, rfl⟩ := Prod.mk.inj h
      rw [← Except.ok.inj hweeks]
      intro i w hw
      cases i with
      | zero =>
          obtain rfl : week = w := Option.some.inj hw
          rw [(plans_of_planWeek hweek).1]
          unfold dateAfter at hafter
          split at hafter
          · next date hdate =>
              rw [← Except.ok.inj hafter]
              exact Date.addDays?_eq_some_iff.mp hdate
          · contradiction
      | succ i =>
          rw [ih hrest i w hw, Nat.add_right_comm offset, Nat.add_assoc]

end Kitchen

/-! ## the slots of a plan -/

/-- The weeks of a plan follow each other from a Monday on, and each of them has a timetable. -/
structure Plan.Timetable (plan : Plan) (monday : Date) : Prop where
  weeks : plan.weeks ≠ []
  starts : ∀ i w, plan.weeks[i]? = some w → w.start.ordinal = monday.ordinal + daysPerWeek * i
  week : ∀ w ∈ plan.weeks, w.Timetable

namespace Plan.Timetable

variable {plan : Plan} {monday : Date}

/-- The first day of a plan is a Monday. -/
theorem isMonday (h : plan.Timetable monday) : monday.isMonday = true := by
  obtain ⟨w, hw⟩ := List.exists_mem_of_ne_nil _ h.weeks
  obtain ⟨i, hi⟩ := List.mem_iff_getElem?.mp hw
  have hweek := (h.week w hw).monday
  have hstart : w.start.ordinal = monday.ordinal + 7 * i := h.starts i w hi
  have hremainder : (w.start.ordinal + 6) % 7 = 0 := of_decide_eq_true hweek
  exact decide_eq_true (show (monday.ordinal + 6) % 7 = 0 by omega)

/-- A week of the plan has the seven days that its index says. -/
theorem covers_iff (h : plan.Timetable monday) {i : Nat} {w : Week} (hw : plan.weeks[i]? = some w)
    (day : Date) : w.covers day = true ↔
      monday.ordinal + daysPerWeek * i ≤ day.ordinal ∧
        day.ordinal < monday.ordinal + daysPerWeek * (i + 1) := by
  have hstart := h.starts i w hw
  have hfinish := (h.week w (List.mem_of_getElem? hw)).finish
  simp only [Week.covers, Bool.and_eq_true, decide_eq_true_eq, hfinish, hstart, daysPerWeek]
  omega

/-- The week of a day is found by counting. -/
theorem weekIndexFor?_eq_some_iff (h : plan.Timetable monday) {day : Date} {i : Nat} :
    plan.weekIndexFor? day = some i ↔ i < plan.weeks.length ∧
      monday.ordinal + daysPerWeek * i ≤ day.ordinal ∧
        day.ordinal < monday.ordinal + daysPerWeek * (i + 1) := by
  unfold Plan.weekIndexFor?
  rw [List.findIdx?_eq_some_iff_getElem]
  constructor
  · rintro ⟨hi, hcovers, -⟩
    exact ⟨hi, (h.covers_iff (List.getElem?_eq_getElem hi) day).mp hcovers⟩
  · rintro ⟨hi, hday⟩
    refine ⟨hi, (h.covers_iff (List.getElem?_eq_getElem hi) day).mpr hday, fun j hj hcovers => ?_⟩
    have hearlier := (h.covers_iff (List.getElem?_eq_getElem (Nat.lt_trans hj hi)) day).mp hcovers
    have hnext : daysPerWeek * (j + 1) ≤ daysPerWeek * i := Nat.mul_le_mul_left _ hj
    omega

/-- Only the days outside the plan have no week. -/
theorem weekIndexFor?_eq_none_iff (h : plan.Timetable monday) {day : Date} :
    plan.weekIndexFor? day = none ↔ day.ordinal < monday.ordinal ∨
      monday.ordinal + daysPerWeek * plan.weeks.length ≤ day.ordinal := by
  rw [← not_iff_not, ← Ne, Option.ne_none_iff_exists']
  simp only [h.weekIndexFor?_eq_some_iff, daysPerWeek]
  constructor
  · omega
  · exact fun hday => ⟨(day.ordinal - monday.ordinal) / 7, by omega⟩

/-- The filled slots of the plan are in order, also where one week meets the next. -/
theorem ordered (h : plan.Timetable monday) :
    (plan.assignments.map (·.slot)).Pairwise Precedes := by
  have hslots : plan.assignments.map (·.slot) = plan.weeks.flatMap (·.slots) := List.map_flatMap
  rw [hslots, List.pairwise_flatMap]
  refine ⟨fun w hw => (h.week w hw).ordered, List.pairwise_iff_getElem.mpr ?_⟩
  intro i j hi hj hij s hs t ht
  have hfirst := (h.covers_iff (List.getElem?_eq_getElem hi) s.1).mp
    ((h.week _ (List.getElem_mem hi)).within s hs).1
  have hsecond := (h.covers_iff (List.getElem?_eq_getElem hj) t.1).mp
    ((h.week _ (List.getElem_mem hj)).within t ht).1
  have hnext : daysPerWeek * (i + 1) ≤ daysPerWeek * j := Nat.mul_le_mul_left _ hij
  exact Or.inl (by omega)

/-- No slot is filled twice. -/
theorem nodup (h : plan.Timetable monday) : (plan.assignments.map (·.slot)).Nodup :=
  h.ordered.imp Precedes.ne

theorem countP_fills (plan : Plan) (day : Date) (c : Course) :
    plan.assignments.countP (·.fills day c) =
      (plan.assignments.map (·.slot)).count (day, c) := by
  rw [List.count, List.countP_map]
  refine List.countP_congr fun a _ => ?_
  rw [Assignment.fills_iff, Function.comp_apply, beq_iff_eq]

/-- A day of the plan has one main course. -/
theorem one_main (h : plan.Timetable monday) {day : Date} (hday : plan.weekIndexFor? day ≠ none) :
    plan.assignments.countP (·.fills day .main) = 1 := by
  obtain ⟨i, hi⟩ := Option.ne_none_iff_exists'.mp hday
  obtain ⟨hin, hcovers⟩ := h.weekIndexFor?_eq_some_iff.mp hi
  have hweek := List.getElem?_eq_getElem hin
  have hslot := (h.week _ (List.getElem_mem hin)).mains day ((h.covers_iff hweek day).mpr hcovers)
  rw [countP_fills]
  refine List.count_eq_one_of_mem h.nodup ?_
  obtain ⟨a, ha, hfills⟩ := List.mem_map.mp hslot
  exact List.mem_map.mpr ⟨a, List.mem_flatMap.mpr ⟨_, List.getElem_mem hin, ha⟩, hfills⟩

/-- An assignment is found in its week by its slot. -/
theorem assignmentFor?_eq (h : plan.Timetable monday) {w : Week} (hw : w ∈ plan.weeks)
    {a : Assignment} (ha : a ∈ w.assignments) : w.assignmentFor? a.date a.course = some a := by
  unfold Week.assignmentFor?
  have hfound : (w.assignments.find? (·.fills a.date a.course)).isSome = true :=
    List.find?_isSome.mpr ⟨a, ha, Assignment.fills_iff.mpr rfl⟩
  obtain ⟨b, hb⟩ := Option.isSome_iff_exists.mp hfound
  have hslot : b.slot = a.slot := Assignment.fills_iff.mp (by simpa using List.find?_some hb)
  have hnodup : w.slots.Nodup := (h.week w hw).ordered.imp Precedes.ne
  rw [hb, List.inj_on_of_nodup_map hnodup (List.mem_of_find?_eq_some hb) ha hslot]

/-! ## edits -/

variable {q : Request} {plan' : Plan} {p : Progress}

theorem of_generate {given : Option Rotation} {weekCount : Option Int}
    (h : (q.generate given weekCount (.ok monday)).result = .ok plan) : plan.Timetable monday := by
  obtain ⟨monday', n, m, m', hmonday, hpos, -, -, hrun, -⟩ := Request.planWeeks_of_generate h
  obtain rfl : monday = monday' := Except.ok.inj hmonday
  obtain ⟨hlength, hturn⟩ := Kitchen.plansInTurn_of_planWeeks hrun
  refine ⟨List.length_pos_iff.mp (by omega), fun i w hw => ?_, fun w hw => ?_⟩
  · rw [Kitchen.starts_of_planWeeks hrun i w hw, Nat.zero_add]
  · obtain ⟨p, p', hplans⟩ := hturn.of_mem hw
    exact hplans.timetable

theorem regeneration {targets : List Nat} (h : plan.Timetable monday)
    (hrun : q.regeneration plan targets = (.ok plan', p)) : plan'.Timetable monday := by
  have hreplanned := Request.replanned_of_regeneration hrun
  have hlength := hreplanned.length
  refine ⟨?_, fun i w hw => ?_,
    hreplanned.forall_mem (fun _ _ _ _ hplans => hplans.timetable) h.week⟩
  · have hpos := List.length_pos_iff.mpr h.weeks
    exact List.length_pos_iff.mp (hlength ▸ hpos)
  · have hi : i < plan.weeks.length := hlength ▸ (List.getElem?_eq_some_iff.mp hw).1
    have hold := List.getElem?_eq_getElem hi
    obtain ⟨new, hnew, hstart, -⟩ := hreplanned.kept i _ hold
    obtain rfl : w = new := Option.some.inj (hw.symm.trans hnew)
    rw [hstart, h.starts i _ hold]

theorem replacement {date : Date} {course : Course} {newId : Option String}
    (h : plan.Timetable monday)
    (hrun : q.replacement plan date course newId = (.ok plan', p)) : plan'.Timetable monday := by
  obtain ⟨slot, a, -, hslot, hplan, hdate, hcourse⟩ := Request.replacement_refills hrun
  have hold := h.week slot.week (List.mem_of_getElem? hslot.week)
  -- the new assignment fills the slot of the old one
  have hslots : (slot.week.assignments.set slot.position a).map (·.slot) =
      slot.week.assignments.map (·.slot) := by
    have hget : (slot.week.assignments.map (·.slot))[slot.position]? = some a.slot := by
      rw [List.getElem?_map, hslot.assignment]
      exact congrArg some (Prod.ext hdate.symm hcourse.symm)
    obtain ⟨hplace, hsame⟩ := List.getElem?_eq_some_iff.mp hget
    rw [List.map_set, ← hsame, List.set_getElem_self]
  rw [hplan]
  refine ⟨?_, fun i w hw => ?_, fun w hw => ?_⟩
  · simpa [Plan.refill] using h.weeks
  · by_cases hi : i = slot.weekIndex
    · subst hi
      have hin : slot.weekIndex < plan.weeks.length := (List.getElem?_eq_some_iff.mp hslot.week).1
      rw [Plan.refill, List.getElem?_set_self hin] at hw
      have hstart := h.starts _ _ hslot.week
      rwa [← Option.some.inj hw]
    · rw [Plan.refill, List.getElem?_set_ne (Ne.symm hi)] at hw
      exact h.starts i w hw
  · cases List.mem_or_eq_of_mem_set hw with
    | inl hw => exact h.week w hw
    | inr hw =>
        rw [hw]
        exact hold.congr rfl rfl hslots

end Plan.Timetable

variable {allowed : Request → Prop} {before : Rotation} {plan : Plan}

/-- Whatever edits are made, the plan keeps the days of its weeks, and they have timetables. -/
theorem EditedFrom.timetable (h : EditedFrom allowed before plan) :
    ∃ monday, plan.Timetable monday := by
  induction h with
  | @generated q given weekCount start plan hq hgiven h =>
      obtain ⟨monday, -, -, -, rfl, -⟩ := Request.planWeeks_of_generate h
      exact ⟨monday, .of_generate h⟩
  | edited hq hplan h ih =>
      obtain ⟨monday, htimetable⟩ := ih
      rcases Request.edit_cases h with ⟨targets, p, -, hrun⟩ | ⟨date, course, newId, p, hrun⟩
      · exact ⟨monday, htimetable.regeneration hrun⟩
      · exact ⟨monday, htimetable.replacement hrun⟩

/-- A plan that was generated and then edited in any way has weeks that follow each other from a
Monday on.  Its assignments stand in the order of their days and, within a day, of their courses;
every day has one main course, and no slot is filled twice.  So the week of a day, and in it the
assignment of a slot, are found, and days outside the plan have no week. -/
theorem EditedFrom.found_by_slot (h : EditedFrom allowed before plan) :
    plan.weeks ≠ [] ∧ ∃ monday : Date, monday.isMonday = true ∧
      (∀ i w, plan.weeks[i]? = some w →
        w.start.ordinal = monday.ordinal + 7 * i ∧ w.finish.ordinal = w.start.ordinal + 6 ∧
        ∀ a ∈ w.assignments, w.covers a.date = true ∧ a.course ∈ Course.daily ∧
          plan.weekIndexFor? a.date = some i ∧ w.assignmentFor? a.date a.course = some a) ∧
      plan.assignments.Pairwise (fun a b => Precedes a.slot b.slot) ∧
      (∀ day, plan.weekIndexFor? day = none ↔ day.ordinal < monday.ordinal ∨
        monday.ordinal + 7 * plan.weeks.length ≤ day.ordinal) ∧
      (∀ day, plan.weekIndexFor? day ≠ none →
        plan.assignments.countP (·.fills day .main) = 1) ∧
      ∀ day c, plan.assignments.countP (·.fills day c) ≤ 1 := by
  obtain ⟨monday, ht⟩ := h.timetable
  refine ⟨ht.weeks, monday, ht.isMonday, fun i w hw => ?_, List.pairwise_map.mp ht.ordered,
    fun day => ht.weekIndexFor?_eq_none_iff, fun day => ht.one_main, fun day c => ?_⟩
  · have hweek := List.mem_of_getElem? hw
    refine ⟨ht.starts i w hw, (ht.week w hweek).finish, fun a ha => ?_⟩
    obtain ⟨hcovers, hcourse⟩ := (ht.week w hweek).within a.slot (List.mem_map_of_mem ha)
    have hin : i < plan.weeks.length := (List.getElem?_eq_some_iff.mp hw).1
    exact ⟨hcovers, hcourse,
      ht.weekIndexFor?_eq_some_iff.mpr ⟨hin, (ht.covers_iff hw a.date).mp hcovers⟩,
      ht.assignmentFor?_eq hweek ha⟩
  · rw [Plan.Timetable.countP_fills]
    exact List.nodup_iff_count_le_one.mp ht.nodup _

/-- Two weeks of mains and desserts, of which the first week is planned anew and then a dessert of
the second one is replaced: the second Tuesday is in the second week, with one main course. -/
theorem EditedFrom.found_by_slot_tuesday :
    let q := Request.ofRecipes [.plain .main "a", .plain .main "b", .plain .dessert "y",
      .plain .dessert "z"]
    let tuesday := Request.autumnDay 8
    ∃ plan, EditedFrom (fun r => r = q) .fresh plan ∧ plan.weekIndexFor? tuesday = some 1 ∧
      plan.assignments.countP (·.fills tuesday .main) = 1 ∧
      plan.assignments.countP (·.fills tuesday .dessert) ≤ 1 := by
  intro q tuesday
  let edits : List (Request × Edit) := [(q, .week 0), (q, .meal tuesday .dessert none)]
  have hrun : ((q.generate none (some 2) (.ok Request.autumnMonday)).result.toOption.any
      fun first => (first.editedBy edits).toOption.any fun plan =>
        plan.weekIndexFor? tuesday = some 1) = true := by
    decide +kernel
  obtain ⟨first, hfirst, hrun⟩ := (Option.any_eq_true _ _).mp hrun
  obtain ⟨plan, hplan, hindex⟩ := (Option.any_eq_true _ _).mp hrun
  have hindex := of_decide_eq_true hindex
  have hgenerated : EditedFrom (fun r => r = q) .fresh first :=
    .generated rfl rfl (eq_ok_of_toOption hfirst)
  have hedited : EditedFrom (fun r => r = q) .fresh plan := by
    refine hgenerated.editedBy (fun e he => ?_) (eq_ok_of_toOption hplan)
    simp only [edits, List.mem_cons, List.not_mem_nil, or_false] at he
    rcases he with rfl | rfl <;> rfl
  obtain ⟨-, monday, -, -, -, -, hmain, honce⟩ := EditedFrom.found_by_slot hedited
  exact ⟨plan, hedited, hindex, hmain tuesday (by rw [hindex]; exact Option.some_ne_none 1),
    honce tuesday .dessert⟩

end MealRota
