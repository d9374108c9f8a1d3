import MealRota.Proofs.Edits
import MealRota.Proofs.PlannedWeeks

/-!
# MealRota.Proofs.EditedPlans

Plans that are generated and then edited, in whatever order and as often as one
likes.  Every run may be asked for by another request: what is chosen by and from
can change from one edit to the next, as far as it is allowed to.

* `EditedFrom` — the plans that edits lead to;
* `Request.edit_cases` — an edit plans some weeks anew or refills one slot.
-/

namespace MealRota

/-- The plans that come of one generated from the state `before` by edits that succeed, each asked
for by a request that is allowed. -/
inductive EditedFrom (allowed : Request → Prop) (before : Rotation) : Plan → Prop
  | generated {q : Request} {given : Option Rotation} {weekCount : Option Int}
      {start : Except PlanError Date} {plan : Plan} (hq : allowed q)
      (hgiven : given.getD .fresh = before)
      (h : (q.generate given weekCount start).result = .ok plan) : EditedFrom allowed before plan
  | edited {q : Request} {plan plan' : Plan} {e : Edit} (hq : allowed q)
      (hplan : EditedFrom allowed before plan) (h : (q.edit plan e).result = .ok plan') :
      EditedFrom allowed before plan'

/-- A plan after some edits, one after the other. -/
def Plan.editedBy (plan : Plan) (edits : List (Request × Edit)) : Except PlanError Plan :=
  edits.foldlM (fun plan e => (e.1.edit plan e.2).result) plan

variable {allowed : Request → Prop} {before : Rotation} {q : Request} {plan plan' : Plan} {e : Edit}

theorem EditedFrom.editedBy {edits : List (Request × Edit)} (h : EditedFrom allowed before plan)
    (hallowed : ∀ e ∈ edits, allowed e.1) (hedits : plan.editedBy edits = .ok plan') :
    EditedFrom allowed before plan' := by
  unfold Plan.editedBy at hedits
  induction edits generalizing plan with
  | nil => exact Except.ok.inj hedits ▸ h
  | cons e edits ih =>
      rw [List.foldlM_cons] at hedits
      cases hedit : (e.1.edit plan e.2).result with
      | error failure =>
          rw [hedit] at hedits
          contradiction
      | ok next =>
          rw [hedit] at hedits
          exact ih (.edited (hallowed e List.mem_cons_self) h hedit)
            (fun e' he' => hallowed e' (List.mem_cons_of_mem _ he')) hedits

/-- An edit that succeeds plans some of the weeks anew, from front to back, or refills one slot. -/
theorem Request.edit_cases (h : (q.edit plan e).result = .ok plan') :
    (∃ targets p, targets.Sublist (plan.indicesFrom 0) ∧
      q.regeneration plan targets = (.ok plan', p)) ∨
    ∃ date course newId p, q.replacement plan date course newId = (.ok plan', p) := by
  cases e with
  | week index =>
      obtain ⟨hindex, hrun, -⟩ := regenerate_ok h
      refine Or.inl ⟨_, _, ?_, hrun⟩
      exact List.singleton_sublist.mpr (Plan.mem_indicesFrom.mpr ⟨Nat.zero_le _, by omega⟩)
  | weeksFrom index => exact Or.inl ⟨_, _, List.drop_sublist _ _, (regenerate_ok h).2.1⟩
  | meal date course newId => exact Or.inr ⟨date, course, newId, _, Prod.ext h rfl⟩

end MealRota
