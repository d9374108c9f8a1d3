import MealRota.Proofs.Suitability

/-!
# MealRota.Proofs.Refilling

A plan around one of its slots.  Refilling a slot changes one assignment: those before
it and those after it stay where they are.  The planner is told of the assignment
before the slot, as long as it is in the same week.

* `Plan.HasSlot.assignments_eq`, `Plan.HasSlot.assignments_refill` — a plan and the refilled plan,
  cut at the slot;
* `Request.complexityOf_preceding` — what the planner is told of what comes before;
* `Request.replacement_refills` — a replacement refills a slot of its day and its course.
-/

namespace MealRota

open Planning

/-- The assignment before a slot in its week. -/
def FilledSlot.preceding (slot : FilledSlot) : Option Assignment :=
  if slot.position = 0 then none else slot.week.assignments[slot.position - 1]?

namespace Plan

/-- The assignments of a plan that come before a slot. -/
def before (plan : Plan) (slot : FilledSlot) : List Assignment :=
  (plan.weeks.take slot.weekIndex).flatMap (·.assignments) ++
    slot.week.assignments.take slot.position

/-- The assignments of a plan that come after a slot. -/
def after (plan : Plan) (slot : FilledSlot) : List Assignment :=
  slot.week.assignments.drop (slot.position + 1) ++
    (plan.weeks.drop (slot.weekIndex + 1)).flatMap (·.assignments)

namespace HasSlot

variable {plan : Plan} {slot : FilledSlot}

/-- Refilling a slot changes nothing before and nothing after it. -/
theorem assignments_refill (h : plan.HasSlot slot) (a : Assignment) (t : Rotation) :
    (plan.refill slot a t).assignments = plan.before slot ++ a :: plan.after slot := by
  have hweek : slot.weekIndex < plan.weeks.length := (List.getElem?_eq_some_iff.mp h.week).1
  have hplace : slot.position < slot.week.assignments.length :=
    (List.getElem?_eq_some_iff.mp h.assignment).1
  unfold refill assignments before after
  simp only [List.set_eq_take_append_cons_drop, if_pos hweek, if_pos hplace, List.flatMap_append,
    List.flatMap_cons, List.append_assoc, List.cons_append]

/-- A slot refilled with what it holds is as it was. -/
theorem refill_self (h : plan.HasSlot slot) :
    plan.refill slot slot.assignment plan.rotation = plan := by
  obtain ⟨hi, hassignment⟩ := List.getElem?_eq_some_iff.mp h.assignment
  obtain ⟨hj, hweek⟩ := List.getElem?_eq_some_iff.mp h.week
  have hsame : slot.week.assignments.set slot.position slot.assignment =
      slot.week.assignments := by
    rw [← hassignment, List.set_getElem_self]
  unfold refill
  simp only [hsame]
  rw [show plan.weeks.set slot.weekIndex slot.week = plan.weeks by
    rw [← hweek, List.set_getElem_self]]

/-- The assignments of a plan are those before a slot, the slot's own and those after it. -/
theorem assignments_eq (h : plan.HasSlot slot) :
    plan.assignments = plan.before slot ++ slot.assignment :: plan.after slot := by
  rw [← h.assignments_refill slot.assignment plan.rotation, h.refill_self]

/-- Where a slot is not the first of its week, what precedes it there precedes it in the plan. -/
theorem getLast?_before (h : plan.HasSlot slot) (hplace : slot.position ≠ 0) :
    (plan.before slot).getLast? = slot.preceding := by
  have hin : slot.position - 1 < slot.week.assignments.length := by
    have := (List.getElem?_eq_some_iff.mp h.assignment).1
    omega
  have htake : (slot.week.assignments.take slot.position).getLast? = slot.preceding := by
    rw [List.getLast?_take, FilledSlot.preceding, if_neg hplace, if_neg hplace,
      List.getElem?_eq_getElem hin, Option.some_or]
  have hsome : slot.preceding.isSome = true := by
    rw [FilledSlot.preceding, if_neg hplace, List.getElem?_eq_getElem hin]
    rfl
  rw [before, List.getLast?_append, htake, Option.or_of_isSome hsome]

end HasSlot

end Plan

namespace Request

variable {q : Request} {plan plan' : Plan} {p : Progress}

/-- The slot as the planner sees it, once the assignment before it in its week is looked up. -/
theorem contextOf_eq (q : Request) (slot : FilledSlot) :
    q.contextOf slot = (q.complexityOf slot.preceding).map
      fun preceding => ⟨slot.assignment.date, slot.assignment.date.isWeekend, preceding⟩ := rfl

/-- The planner is told how complex the assignment before the slot in its week is. -/
theorem complexityOf_preceding {slot : FilledSlot} {context : SlotContext}
    (h : q.contextOf slot = .ok context) :
    q.complexityOf slot.preceding = .ok context.preceding := by
  rw [contextOf_eq] at h
  cases hpreceding : q.complexityOf slot.preceding with
  | error e =>
      rw [hpreceding] at h
      contradiction
  | ok preceding =>
      rw [hpreceding] at h
      rw [← Except.ok.inj h]

/-- A replacement that succeeds refills a slot of the plan with an assignment of the same day and
the same course. -/
theorem replacement_refills {date : Date} {course : Course} {newId : Option String}
    (h : q.replacement plan date course newId = (.ok plan', p)) :
    ∃ slot a, plan.findSlot date course = .ok slot ∧ plan.HasSlot slot ∧
      plan' = plan.refill slot a plan'.rotation ∧
      a.date = slot.assignment.date ∧ a.course = slot.assignment.course := by
  obtain ⟨slot, context, choice, a, m, hchoice, hassign, hplan, -⟩ := replacement_steps h
  obtain ⟨hfound, -, hcontext, -⟩ := replaceChoice_steps hchoice
  obtain ⟨hday, hcourse, -⟩ := Choice.toAssignment_ok hassign
  exact ⟨slot, a, hfound, (findSlot_ok hfound).1, hplan, hday.trans (contextOf_ok hcontext).1,
    hcourse⟩

end Request

end MealRota
