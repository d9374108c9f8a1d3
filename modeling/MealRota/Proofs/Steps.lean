import MealRota.Plan.Request

/-!
# MealRota.Proofs.Steps

What running steps of planning one after the other comes to, whether the run
succeeds or fails on the way.

* `run_bind_ok`, `run_bind_error` — how a sequence of two steps ends;
* `run_foldlM_ok`, `run_foldlM_error` — an invariant carried through a list of steps, up to
  the last of them or to the one that fails;
* `run_reporting` — what reporting a failure adds.
-/

namespace MealRota

theorem eq_ok_of_toOption {α : Type} {x : Except PlanError α} {a : α}
    (h : x.toOption = some a) : x = .ok a := by
  cases x with
  | ok b => exact congrArg Except.ok (Option.some.inj h)
  | error e => contradiction

/-- A result that is there. -/
theorem exists_of_isSome {α : Type} {x : Except PlanError α} (h : x.toOption.isSome = true) :
    ∃ a, x = .ok a := by
  obtain ⟨a, ha⟩ := Option.isSome_iff_exists.mp h
  exact ⟨a, eq_ok_of_toOption ha⟩

/-! ## progress -/

/-- The progress with one more event in its journal. -/
def Progress.note (p : Progress) (e : Event) : Progress := { p with journal := p.journal ++ [e] }

@[simp] theorem Progress.note_rotation (p : Progress) (e : Event) :
    (p.note e).rotation = p.rotation := rfl

@[simp] theorem Progress.note_journal (p : Progress) (e : Event) :
    (p.note e).journal = p.journal ++ [e] := rfl

/-- The progress with another source of random numbers. -/
def Progress.drawn (p : Progress) (source : Option Twister) : Progress := { p with source }

@[simp] theorem Progress.drawn_rotation (p : Progress) (source : Option Twister) :
    (p.drawn source).rotation = p.rotation := rfl

@[simp] theorem Progress.drawn_journal (p : Progress) (source : Option Twister) :
    (p.drawn source).journal = p.journal := rfl

namespace Planning

variable {α β : Type}

/-! ## two steps -/

/-- After a step that succeeds, a sequence goes on with its second step. -/
theorem run_bind_of_ok {step : Planning α} {p m : Progress} {a : α}
    (h : run step p = (.ok a, m)) (f : α → Planning β) : run (step >>= f) p = run (f a) m := by
  rw [run_bind, h]

/-- A sequence ends with a first step that fails. -/
theorem run_bind_of_error {step : Planning α} {p m : Progress} {e : PlanError}
    (h : run step p = (.error e, m)) (f : α → Planning β) :
    run (step >>= f) p = (.error e, m) := by
  rw [run_bind, h]

/-- A sequence succeeds if both of its steps do. -/
theorem run_bind_ok {step : Planning α} {f : α → Planning β} {p q : Progress} {b : β} :
    run (step >>= f) p = (.ok b, q) ↔
      ∃ a m, run step p = (.ok a, m) ∧ run (f a) m = (.ok b, q) := by
  rw [run_bind]
  constructor
  · intro h
    cases hs : run step p with
    | mk r m =>
        rw [hs] at h
        cases r with
        | ok a => exact ⟨a, m, rfl, h⟩
        | error e => simp at h
  · rintro ⟨a, m, hs, hf⟩
    rw [hs]
    exact hf

/-- A sequence fails if its first step does, or its second after the first. -/
theorem run_bind_error {step : Planning α} {f : α → Planning β} {p q : Progress} {e : PlanError} :
    run (step >>= f) p = (.error e, q) ↔
      run step p = (.error e, q) ∨
        ∃ a m, run step p = (.ok a, m) ∧ run (f a) m = (.error e, q) := by
  rw [run_bind]
  constructor
  · intro h
    cases hs : run step p with
    | mk r m =>
        rw [hs] at h
        cases r with
        | ok a => exact Or.inr ⟨a, m, rfl, h⟩
        | error e' => exact Or.inl (by simpa using h)
  · rintro (hs | ⟨a, m, hs, hf⟩)
    · rw [hs]
    · rw [hs]
      exact hf

/-- A result that does not depend on the progress leaves it alone. -/
theorem run_lift_ok {x : Except PlanError α} {p q : Progress} {a : α}
    (h : run (lift x) p = (.ok a, q)) : x = .ok a ∧ p = q := Prod.mk.inj h

theorem run_lift_of_ok {x : Except PlanError α} {a : α} (h : x = .ok a) (p : Progress) :
    run (lift x) p = (.ok a, p) := by
  rw [run_lift, h]

/-- A step whose result is passed through a function. -/
theorem run_bind_pure (step : Planning α) (f : α → β) (p : Progress) :
    run (step >>= fun a => pure (f a)) p = ((run step p).1.map f, (run step p).2) := by
  rw [run_bind]
  cases run step p with
  | mk r m => cases r <;> rfl

@[simp] theorem run_isRandom (p : Progress) : run isRandom p = (.ok p.source.isSome, p) := rfl

theorem exists_run_of_isSome {step : Planning α} {p : Progress}
    (h : (run step p).1.toOption.isSome = true) : ∃ a q, run step p = (.ok a, q) := by
  obtain ⟨a, ha⟩ := exists_of_isSome h
  exact ⟨a, (run step p).2, Prod.ext ha rfl⟩

/-! ## lists of steps -/

/-- An invariant of the steps already done holds of all of them once the list succeeds. -/
theorem run_foldlM_ok {f : β → α → Planning β} (Inv : List α → β → Progress → Prop)
    {l : List α} {b b' : β} {p q : Progress}
    (hstep : ∀ done x rest, l = done ++ x :: rest → ∀ b p b' q, Inv done b p →
      run (f b x) p = (.ok b', q) → Inv (done ++ [x]) b' q)
    (h0 : Inv [] b p) (h : run (l.foldlM f b) p = (.ok b', q)) : Inv l b' q := by
  have go : ∀ (rest done : List α) (b : β) (p : Progress), l = done ++ rest → Inv done b p →
      run (rest.foldlM f b) p = (.ok b', q) → Inv l b' q := by
    intro rest
    induction rest with
    | nil =>
        intro done b p hl hinv hrun
        rw [List.foldlM_nil, run_pure] at hrun
        obtain ⟨hb, hp⟩ := Prod.mk.inj hrun
        rw [hl, List.append_nil, ← Except.ok.inj hb, ← hp]
        exact hinv
    | cons x rest ih =>
        intro done b p hl hinv hrun
        rw [List.foldlM_cons] at hrun
        obtain ⟨b₁, m, hx, hrest⟩ := run_bind_ok.mp hrun
        have hinv' : Inv (done ++ [x]) b₁ m := hstep done x rest hl b p b₁ m hinv hx
        exact ih (done ++ [x]) b₁ m (by rw [hl, List.append_assoc]; rfl) hinv' hrest
  exact go l [] b p rfl h0 h

/-- A list of steps fails at one of them, which is reached with the invariant. -/
theorem run_foldlM_error {f : β → α → Planning β} (Inv : List α → β → Progress → Prop)
    {l : List α} {b : β} {p q : Progress} {e : PlanError}
    (hstep : ∀ done x rest, l = done ++ x :: rest → ∀ b p b' q, Inv done b p →
      run (f b x) p = (.ok b', q) → Inv (done ++ [x]) b' q)
    (h0 : Inv [] b p) (h : run (l.foldlM f b) p = (.error e, q)) :
    ∃ done x rest b₁ p₁, l = done ++ x :: rest ∧ Inv done b₁ p₁ ∧
      run (f b₁ x) p₁ = (.error e, q) := by
  have go : ∀ (rest done : List α) (b : β) (p : Progress), l = done ++ rest → Inv done b p →
      run (rest.foldlM f b) p = (.error e, q) →
      ∃ done x rest b₁ p₁, l = done ++ x :: rest ∧ Inv done b₁ p₁ ∧
        run (f b₁ x) p₁ = (.error e, q) := by
    intro rest
    induction rest with
    | nil =>
        intro done b p _ _ hrun
        rw [List.foldlM_nil, run_pure] at hrun
        simp at hrun
    | cons x rest ih =>
        intro done b p hl hinv hrun
        rw [List.foldlM_cons] at hrun
        rcases run_bind_error.mp hrun with hx | ⟨b₁, m, hx, hrest⟩
        · exact ⟨done, x, rest, b, p, hl, hinv, hx⟩
        · have hinv' : Inv (done ++ [x]) b₁ m := hstep done x rest hl b p b₁ m hinv hx
          exact ih (done ++ [x]) b₁ m (by rw [hl, List.append_assoc]; rfl) hinv' hrest
  exact go l [] b p rfl h0 h

/-! ## reports of failure -/

/-- A failure that callers are expected to handle is noted when the step has failed. -/
theorem run_reporting (task : Task) (step : Planning α) (p : Progress) :
    run (reporting task step) p = match run step p with
      | (.ok a, m) => (.ok a, m)
      | (.error e, m) => (.error e, if e.isPlanning then m.note (.aborted task e) else m) := rfl

/-- A step that is reported succeeds as it does by itself. -/
theorem run_reporting_ok {task : Task} {step : Planning α} {p q : Progress} {a : α} :
    run (reporting task step) p = (.ok a, q) ↔ run step p = (.ok a, q) := by
  rw [run_reporting]
  cases h : run step p with
  | mk r m =>
      cases r with
      | ok b => exact Iff.rfl
      | error e => simp

end Planning

end MealRota
