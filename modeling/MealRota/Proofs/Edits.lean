import MealRota.Proofs.Relabelling

/-!
# MealRota.Proofs.Edits

Plans that are edited again and again.  Weeks hold the main courses of the
current cycle, but a plan does not say which of its slots were filled in that
cycle; an edit takes the last run of marked main courses for them.  Where that is
wrong, an edit may give back a main course that another slot still holds.

* `Request.Reached` — the plans that edits lead to, with the labels of their main courses;
* `Request.Careful` — an edit gives nothing back that is still held, or begins a new cycle;
* `Request.held_once_of_careful` — careful edits, and no others, keep every main course of the
  current cycle held once and marked;
* `Request.held_twice` — edits that lead to a plan that holds main courses twice.
-/

namespace MealRota

open Planning

/-! ## edits -/

/-- An edit of a plan. -/
inductive Edit where
  | week (index : Int)
  | weeksFrom (index : Int)
  | meal (date : Date) (course : Course) (newId : Option String)

namespace Edit

/-- The main courses that an edit gives back. -/
def released (plan : Plan) : Edit → List String
  | week index => Request.releasedMains plan [index.toNat]
  | weeksFrom index => Request.releasedMains plan (plan.indicesFrom index)
  | meal date course _ =>
      match plan.findSlot date course with
      | .ok slot => Request.releasedMain plan slot
      | .error _ => []

/-- The labels of the slots that an edit leaves alone. -/
def untouched (plan : Plan) (labels : Labels) : Edit → Labels
  | week index => labels.emptied [index.toNat]
  | weeksFrom index => labels.emptied (plan.indicesFrom index)
  | meal date course _ =>
      match plan.findSlot date course with
      | .ok slot => if course = .main then labels.refill slot [] else labels
      | .error _ => labels

/-- A labelled plan after an edit whose run led to `plan`. -/
def apply (s : LabelledPlan) (plan : Plan) (journal : List Event) : Edit → LabelledPlan
  | week index => s.replanned plan [index.toNat] journal
  | weeksFrom index => s.replanned plan (s.plan.indicesFrom index) journal
  | meal date course _ =>
      match s.plan.findSlot date course with
      | .ok slot => s.refilled plan slot course journal
      | .error _ => s

end Edit

namespace Request

/-- What an edit of a plan comes to. -/
def edit (q : Request) (plan : Plan) : Edit → Outcome Plan
  | .week index => q.regenerateWeek plan index
  | .weeksFrom index => q.regenerateFrom plan index
  | .meal date course newId => q.replace plan (.ok date) (.ok course) newId

/-- A generated plan with its labels. -/
def firstPlan (q : Request) (given : Option Rotation) (weekCount : Option Int)
    (start : Except PlanError Date) : Option LabelledPlan :=
  let outcome := q.generate given weekCount start
  outcome.result.toOption.map fun plan =>
    (LabelledPlan.unplanned (given.getD .fresh) plan.weeks.length).replanned plan
      (List.range plan.weeks.length) outcome.journal

/-- An edited plan with its labels. -/
def editPlan (q : Request) (s : LabelledPlan) (e : Edit) : Option LabelledPlan :=
  let outcome := q.edit s.plan e
  outcome.result.toOption.map fun plan => e.apply s plan outcome.journal

/-- The request with another seed. -/
def seeded (q : Request) (seed : Option Int) : Request := { q with seed }

/-- The plans that come of a generated one by edits that are allowed, for the same recipes and
rules, each run with a seed of its own. -/
inductive Reached (q : Request) (allowed : Request → LabelledPlan → Edit → Prop) :
    LabelledPlan → Prop
  | generated {seed : Option Int} {given : Option Rotation} {weekCount : Option Int}
      {start : Except PlanError Date} {s : LabelledPlan}
      (h : (q.seeded seed).firstPlan given weekCount start = some s) : Reached q allowed s
  | edited {seed : Option Int} {s s' : LabelledPlan} {e : Edit} (hs : Reached q allowed s)
      (ha : allowed (q.seeded seed) s e) (h : (q.seeded seed).editPlan s e = some s') :
      Reached q allowed s'

/-- An edit begins a new cycle of the main courses, or gives back none that a slot which it leaves
alone holds in the current cycle. -/
def Careful (q : Request) (s : LabelledPlan) (e : Edit) : Prop :=
  resetsOf .main (q.edit s.plan e).journal ≠ 0 ∨
    ∀ id ∈ e.released s.plan, id ∉ currentOf s.cycle (e.untouched s.plan s.labels).flatten

instance (q : Request) (s : LabelledPlan) (e : Edit) : Decidable (q.Careful s e) :=
  inferInstanceAs (Decidable (_ ∨ _))

end Request

/-! ## one edit -/

namespace Request

variable {q : Request} {s s' : LabelledPlan} {e : Edit}

/-- A generated plan comes of labelling it all. -/
theorem relabelling_of_firstPlan {given : Option Rotation} {weekCount : Option Int}
    {start : Except PlanError Date} (h : q.firstPlan given weekCount start = some s) :
    ∃ s₀ untouched, s₀.HeldOnce ∧
      Relabelling s₀ s [] untouched (q.generate given weekCount start).journal := by
  obtain ⟨plan, hplan, rfl⟩ := Option.map_eq_some_iff.mp h
  have hok : (q.generate given weekCount start).result = .ok plan :=
    eq_ok_of_toOption hplan
  exact ⟨_, _, LabelledPlan.heldOnce_unplanned _ _, relabelling_of_generation hok⟩

/-- An edit that succeeds labels what it took and leaves the other labels alone. -/
theorem relabelling_of_edit (hfit : s.labels.Fit s.plan.weeks) (h : q.editPlan s e = some s') :
    Relabelling s s' (e.released s.plan) (e.untouched s.plan s.labels)
      (q.edit s.plan e).journal := by
  obtain ⟨plan, hplan, rfl⟩ := Option.map_eq_some_iff.mp h
  have hok : (q.edit s.plan e).result = .ok plan := eq_ok_of_toOption hplan
  cases e with
  | week index =>
      obtain ⟨hindex, hrun, hjournal⟩ := regenerate_ok hok
      have hin : ∀ i ∈ [index.toNat], i < s.plan.weeks.length := by
        intro i hi
        rw [List.mem_singleton.mp hi]
        omega
      have hlabels := relabelling_of_regeneration hfit (List.nodup_singleton _) hin hrun
      rw [← hjournal] at hlabels
      exact hlabels
  | weeksFrom index =>
      obtain ⟨-, hrun, hjournal⟩ := regenerate_ok hok
      have hlabels := relabelling_of_regeneration hfit (s.plan.nodup_indicesFrom index)
        (fun i hi => (Plan.mem_indicesFrom.mp hi).2) hrun
      rw [← hjournal] at hlabels
      exact hlabels
  | meal date course newId =>
      obtain ⟨slot, hfound, hlabels⟩ :=
        relabelling_of_replacement (p := (q.replacement s.plan date course newId).2) hfit
          (Prod.ext hok rfl)
      unfold Edit.released Edit.untouched Edit.apply
      simp only [hfound]
      exact hlabels

/-! ## many edits -/

/-- A generated plan after some edits, one after the other and all of them allowed. -/
def editedPlan (q : Request) (allowed : Request → LabelledPlan → Edit → Prop)
    [∀ s e, Decidable (allowed q s e)] (weekCount : Option Int) (start : Except PlanError Date)
    (edits : List Edit) : Option LabelledPlan :=
  (q.firstPlan none weekCount start).bind fun s =>
    edits.foldlM (fun s e => if allowed q s e then q.editPlan s e else none) s

/-- Such a plan is one that allowed edits lead to. -/
theorem Reached.of_editedPlan {allowed : Request → LabelledPlan → Edit → Prop}
    [∀ s e, Decidable (allowed q s e)] {weekCount : Option Int} {start : Except PlanError Date}
    {edits : List Edit} (h : q.editedPlan allowed weekCount start edits = some s) :
    q.Reached allowed s := by
  obtain ⟨s₁, hfirst, hedits⟩ := Option.bind_eq_some_iff.mp h
  have hs₁ : q.Reached allowed s₁ := .generated hfirst
  clear h hfirst
  induction edits generalizing s₁ with
  | nil => exact Option.some.inj hedits ▸ hs₁
  | cons e edits ih =>
      obtain ⟨s₂, hedit, hrest⟩ := Option.bind_eq_some_iff.mp hedits
      simp only at hedit
      split at hedit
      · next hallowed => exact ih s₂ hrest (.edited hs₁ hallowed hedit)
      · contradiction

/-- What careful edits lead to holds every main course of the current cycle once, and marked. -/
theorem Reached.heldOnce (h : q.Reached Careful s) :
    s.HeldOnce ∧ s.labels.Fit s.plan.weeks := by
  induction h with
  | generated h =>
      obtain ⟨s₀, untouched, hs₀, hlabels⟩ := relabelling_of_firstPlan h
      refine ⟨(hlabels.heldOnce_iff hs₀).mpr (Or.inr fun id hid => ?_), hlabels.fit⟩
      exact absurd hid List.not_mem_nil
  | edited _ hcareful h ih =>
      have hlabels := relabelling_of_edit ih.2 h
      exact ⟨(hlabels.heldOnce_iff ih.1).mpr hcareful, hlabels.fit⟩

/-- As long as the edits of a generated plan are careful, no main course is held twice in the
current cycle, and all that are held are marked.  A further edit keeps it so if and only if it is
careful as well; it makes a main course held twice if and only if, without beginning a new cycle,
it gives one back that a slot which it leaves alone holds, and takes it again. -/
theorem held_once_of_careful (h : q.Reached Careful s) :
    s.HeldOnce ∧ s.labels.Fit s.plan.weeks ∧
      ∀ seed e s', (q.seeded seed).editPlan s e = some s' →
        s'.labels.Fit s'.plan.weeks ∧ (s'.HeldOnce ↔ (q.seeded seed).Careful s e) ∧
          (¬ (currentOf s'.cycle s'.labels.flatten).Nodup ↔
            resetsOf .main ((q.seeded seed).edit s.plan e).journal = 0 ∧
              ∃ id ∈ e.released s.plan,
                id ∈ currentOf s.cycle (e.untouched s.plan s.labels).flatten ∧
                  id ∈ takenOf .main ((q.seeded seed).edit s.plan e).journal) := by
  obtain ⟨hheld, hfit⟩ := h.heldOnce
  refine ⟨hheld, hfit, fun seed e s' hedit => ?_⟩
  have hlabels := relabelling_of_edit hfit hedit
  refine ⟨hlabels.fit, hlabels.heldOnce_iff hheld, ?_⟩
  rw [hlabels.nodup_iff hheld]
  push Not
  rfl

/-- Seven main courses, as many as a week has. -/
def sevenMains : Request :=
  ofRecipes (["a", "b", "c", "d", "e", "f", "g"].map (Recipe.plain .main))

/-- Monday, 27 October 2025. -/
def autumnMonday : Date := ⟨739551, by decide, by decide⟩

/-- A day of the two weeks that begin on this Monday. -/
def autumnDay (day : Fin 14) : Date :=
  ⟨autumnMonday.ordinal + day, by decide +revert, by decide +revert⟩

/-- Two weeks of seven main courses, of which the second is planned anew: the first was filled in
an earlier cycle, and so all main courses are free for the second. -/
theorem held_once_of_careful_seven :
    ∃ s, sevenMains.Reached Careful s ∧ s.HeldOnce ∧ s.plan.weeks.length = 2 ∧
      currentOf s.cycle s.labels.flatten = ["a", "b", "c", "d", "e", "f", "g"] := by
  have hrun : ((sevenMains.editedPlan Careful (some 2) (.ok autumnMonday) [.week 1]).any fun s =>
      s.plan.weeks.length = 2 ∧
        currentOf s.cycle s.labels.flatten = ["a", "b", "c", "d", "e", "f", "g"]) = true := by
    decide +kernel
  obtain ⟨s, hs, hcurrent⟩ := (Option.any_eq_true _ _).mp hrun
  have hreached := Reached.of_editedPlan hs
  exact ⟨s, hreached, (held_once_of_careful hreached).1, of_decide_eq_true hcurrent⟩

/-- Not all edits are careful.  Two weeks of seven main courses are planned anew, one after the
other.  The first of them begins a new cycle and takes all main courses; those of the second are
still marked, and so they are given back although the first week holds them, and are taken again. -/
theorem held_twice :
    (sevenMains.recipes.map (·.id)).Nodup ∧
      ∃ s, sevenMains.Reached (fun _ _ _ => True) s ∧
        ¬ (currentOf s.cycle s.labels.flatten).Nodup := by
  have hrun : ((sevenMains.editedPlan (fun _ _ _ => True) (some 2) (.ok autumnMonday)
      [.week 0, .week 1]).any fun s => ¬ (currentOf s.cycle s.labels.flatten).Nodup) = true := by
    decide +kernel
  obtain ⟨s, hs, htwice⟩ := (Option.any_eq_true _ _).mp hrun
  exact ⟨by decide +kernel, s, Reached.of_editedPlan hs, of_decide_eq_true htwice⟩

end Request

end MealRota
