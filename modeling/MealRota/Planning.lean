import MealRota.Draw.Twister
import MealRota.Journal
import MealRota.Rotation.Basic

/-!
# MealRota.Planning

Steps of planning.  A step reads and changes the progress of a run: the rotation
state, the source of random numbers and the journal.  A step that fails keeps
what was changed before it failed.

The lemmas say what each elementary step does to the progress; later proofs need
no more of the monad than these and `run_bind`.
-/

namespace MealRota

/-- How far a run has come. -/
structure Progress where
  rotation : Rotation
  /-- The source of random numbers; without one, choices are deterministic. -/
  source : Option Twister
  /-- What happened so far, the oldest first. -/
  journal : List Event

/-- A step of planning. -/
abbrev Planning (α : Type) := ExceptT PlanError (StateM Progress) α

namespace Planning

variable {α β : Type}

/-- The outcome of a step and the progress after it. -/
def run (step : Planning α) (p : Progress) : Except PlanError α × Progress := step p

/-- Fail. -/
def fail (e : PlanError) : Planning α := throw e

/-- A result that does not depend on the progress. -/
def lift (x : Except PlanError α) : Planning α := fun p => (x, p)

/-- Enter an event into the journal. -/
def record (e : Event) : Planning Unit :=
  fun p => (.ok (), { p with journal := p.journal ++ [e] })

/-- Enter several events into the journal. -/
def recordAll (es : List Event) : Planning Unit :=
  fun p => (.ok (), { p with journal := p.journal ++ es })

/-- The rotation state. -/
def rotation : Planning Rotation := fun p => (.ok p.rotation, p)

/-- Change the rotation state. -/
def updateRotation (f : Rotation → Rotation) : Planning Unit :=
  fun p => (.ok (), { p with rotation := f p.rotation })

/-- A random double, if there is a source of random numbers. -/
def draw? : Planning (Option Float) := fun p =>
  match p.source with
  | none => (.ok none, p)
  | some t => (.ok (some t.nextDouble.1), { p with source := some t.nextDouble.2 })

/-- Whether choices are drawn at random. -/
def isRandom : Planning Bool := fun p => (.ok p.source.isSome, p)

/-- Do a task; if it fails in a way that callers are expected to handle, say so in the journal. -/
def reporting (task : Task) (step : Planning α) : Planning α := fun p =>
  match step.run p with
  | (.ok a, q) => (.ok a, q)
  | (.error e, q) =>
      (.error e, if e.isPlanning then { q with journal := q.journal ++ [.aborted task e] } else q)

/-! ## what the steps do -/

@[simp] theorem run_pure (a : α) (p : Progress) : run (pure a) p = (.ok a, p) := rfl

@[simp] theorem run_fail (e : PlanError) (p : Progress) :
    run (fail e : Planning α) p = (.error e, p) := rfl

@[simp] theorem run_lift (x : Except PlanError α) (p : Progress) : run (lift x) p = (x, p) := rfl

@[simp] theorem run_record (e : Event) (p : Progress) :
    run (record e) p = (.ok (), { p with journal := p.journal ++ [e] }) := rfl

@[simp] theorem run_rotation (p : Progress) : run rotation p = (.ok p.rotation, p) := rfl

@[simp] theorem run_updateRotation (f : Rotation → Rotation) (p : Progress) :
    run (updateRotation f) p = (.ok (), { p with rotation := f p.rotation }) := rfl

theorem run_bind (step : Planning α) (f : α → Planning β) (p : Progress) :
    run (step >>= f) p =
      match run step p with
      | (.ok a, q) => run (f a) q
      | (.error e, q) => (.error e, q) := by
  show (ExceptT.bind step f : StateM Progress (Except PlanError β)) p = _
  unfold run
  cases h : step p with
  | mk r q =>
      cases r with
      | ok a => simp [ExceptT.bind, ExceptT.mk, bind, StateT.bind, h, ExceptT.bindCont]
      | error e =>
          simp [ExceptT.bind, ExceptT.mk, bind, StateT.bind, h, ExceptT.bindCont]
          rfl

end Planning

end MealRota
