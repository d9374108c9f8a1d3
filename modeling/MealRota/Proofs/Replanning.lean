import MealRota.Plan.Regenerate
import MealRota.Proofs.Runs

/-!
# MealRota.Proofs.Replanning

Planning weeks of a plan anew: the run follows the laws of the pool from the
state in which the weeks are given back, the other weeks stay as they are, and
what was taken is what the new weeks serve.

* `Replans` — what becomes of the weeks of a plan;
* `Request.regeneration_trace` — a whole run.
-/

namespace MealRota

open Planning

/-! ## the weeks of a plan -/

/-- What the week of an index takes from the pool. -/
def takingsAt (weeks : List Week) (index : Nat) : List (Course × String) :=
  (weeks[index]?).elim [] Week.takings

/-- Going through all indices is going through all weeks. -/
theorem flatMap_range_elim {β : Type} (weeks : List Week) (f : Week → List β) :
    ((List.range weeks.length).flatMap fun i => (weeks[i]?).elim [] f) = weeks.flatMap f := by
  induction weeks with
  | nil => rfl
  | cons w weeks ih =>
      rw [List.length_cons, List.range_succ_eq_map, List.flatMap_cons, List.flatMap_map,
        List.flatMap_cons, ← ih]
      rfl

/-- Weeks become others where they are planned anew, and these serve what was taken. -/
structure Replans (weeks weeks' : List Week) (targets : List Nat) (l : List (Course × String)) :
    Prop where
  length : weeks'.length = weeks.length
  untouched : ∀ i, i ∉ targets → weeks'[i]? = weeks[i]?
  takings : l = targets.flatMap (takingsAt weeks')

namespace Replans

variable {weeks weeks' weeks'' : List Week} {i : Nat} {targets : List Nat}
  {l l' : List (Course × String)}

theorem nil (weeks : List Week) : Replans weeks weeks [] [] := ⟨rfl, fun _ _ => rfl, rfl⟩

/-- Planning anew what is not there changes nothing. -/
theorem missing (h : weeks[i]? = none) : Replans weeks weeks [i] [] :=
  ⟨rfl, fun _ _ => rfl, by simp [takingsAt, h]⟩

theorem set {w : Week} (h : i < weeks.length) : Replans weeks (weeks.set i w) [i] w.takings where
  length := List.length_set
  untouched := fun j hj => List.getElem?_set_ne fun hij => hj (List.mem_singleton.mpr hij.symm)
  takings := by simp [takingsAt, h]

theorem cons (h : Replans weeks weeks' [i] l) (h' : Replans weeks' weeks'' targets l')
    (hi : i ∉ targets) : Replans weeks weeks'' (i :: targets) (l ++ l') where
  length := h'.length.trans h.length
  untouched := fun j hj => by
    rw [List.mem_cons, not_or] at hj
    rw [h'.untouched j hj.2, h.untouched j fun hij => hj.1 (List.mem_singleton.mp hij)]
  takings := by
    have hfirst : takingsAt weeks' i = takingsAt weeks'' i := by
      unfold takingsAt
      rw [h'.untouched i hi]
    rw [h.takings, h'.takings]
    simp only [List.flatMap_cons, List.flatMap_nil, List.append_nil, hfirst]

end Replans

namespace Request

variable {q : Request} {plan plan' : Plan} {targets : List Nat} {t : Rotation} {p : Progress}

/-- Planning a week of a plan anew follows the laws of the pool: the locks are narrowed down to
the main courses that are still used. -/
theorem replanWeek_follows (draft : Regeneration) (index : Nat) (p : Progress) :
    q.pool.Follows p (q.replanWeek draft index) fun draft' l =>
      Replans draft.weeks draft'.weeks [index] l := by
  unfold replanWeek
  refine .andThen (.still (Pool.Trace.refl _ _)) fun t p₁ ht => ?_
  refine .andThen (.lift fun _ _ => rfl) fun preceding p₂ hpreceding => ?_
  refine .andThen (.still (Pool.Trace.silent rfl ⟨rfl, rfl⟩)) fun _ p₃ hupdate => ?_
  have hused : ∀ id, p₃.rotation.isUsed .main id = t.isUsed .main id := by
    intro id
    rw [run_rotation] at ht
    rw [run_lift] at hpreceding
    rw [run_updateRotation] at hupdate
    obtain ⟨hresult, hp₁⟩ := Prod.mk.inj ht
    obtain ⟨-, hp₂⟩ := Prod.mk.inj hpreceding
    obtain ⟨-, hp₃⟩ := Prod.mk.inj hupdate
    rw [← hp₃, ← hp₂, ← hp₁, ← Except.ok.inj hresult]
    rfl
  split
  · next hnone => exact .pure (Replans.missing hnone)
  · next old hold =>
      have hindex : index < draft.weeks.length := (List.getElem?_eq_some_iff.mp hold).1
      have hlocked : ∀ id ∈ draft.locked.filter (t.isUsed .main ·),
          p₃.rotation.isUsed .main id = true := by
        intro id hid
        rw [hused]
        exact (List.mem_filter.mp hid).2
      have hweek : q.pool.Follows p₃ (q.kitchen.planWeek old.start
          (draft.locked.filter (t.isUsed .main ·)) old.status) fun week l =>
            l = week.takings ∧ ∀ a ∈ week.assignments, a.course ∈ Course.daily :=
        q.kitchen.planWeek_trace hlocked old.start old.status
      refine hweek.bind fun week m l _ ⟨hl, _⟩ => .pure ?_
      rw [hl, List.append_nil]
      exact Replans.set hindex

/-- Planning several weeks of a plan anew, one after the other. -/
theorem replanWeeks_follows (targets : List Nat) (draft : Regeneration) (p : Progress) :
    q.pool.Follows p (targets.foldlM q.replanWeek draft) fun draft' l =>
      targets.Nodup → Replans draft.weeks draft'.weeks targets l := by
  induction targets generalizing draft p with
  | nil => exact .pure fun _ => Replans.nil draft.weeks
  | cons i targets ih =>
      rw [List.foldlM_cons]
      refine (replanWeek_follows draft i p).bind fun draft' p₁ l _ hfirst => ?_
      refine .imp (ih draft' p₁) fun draft'' l' hrest hnodup => ?_
      rw [List.nodup_cons] at hnodup
      exact hfirst.cons (hrest hnodup.2) hnodup.1

/-- The main courses that weeks of a plan give back before they are planned anew. -/
def releasedMains (plan : Plan) (targets : List Nat) : List String :=
  ((currentMains plan.weeks plan.rotation).filter fun p => targets.contains p.2).map (·.1)

/-- The assignments of weeks of a plan. -/
def assignmentsOf (plan : Plan) (targets : List Nat) : List Assignment :=
  targets.flatMap fun i => (plan.weeks[i]?.map (·.assignments)).getD []

/-- The rotation state from which weeks of a plan are planned anew, what they hold being given
back. -/
def givenBack (q : Request) (plan : Plan) (targets : List Nat) : Except PlanError Rotation :=
  q.release (releasedMains plan targets) (assignmentsOf plan targets) plan.rotation

/-- What giving back one recipe keeps, giving back assignments keeps. -/
theorem keeps_of_release {released : List String} {l : List Assignment} {s t : Rotation}
    {P : Rotation → Prop} (hstep : ∀ t r, P t → P (t.giveBack released r))
    (h : q.release released l s = .ok t) (hs : P s) : P t := by
  unfold release at h
  generalize l.flatMap (·.ids) = ids at h
  induction ids generalizing s with
  | nil => exact Except.ok.inj h ▸ hs
  | cons id ids ih =>
      rw [List.foldlM_cons] at h
      unfold giveBackId at h
      cases hr : findLast? q.recipes id with
      | none =>
          rw [hr] at h
          contradiction
      | some r =>
          rw [hr] at h
          exact ih (hstep s r hs) h

/-- Giving assignments back changes the rotation state of the run, unless it fails. -/
theorem run_releaseAll (released : List String) (assignments : List Assignment) (p : Progress) :
    run (q.releaseAll released assignments) p =
      match q.release released assignments p.rotation with
      | .ok t => (.ok (), { p with rotation := t })
      | .error e => (.error e, p) := by
  unfold releaseAll
  rw [run_bind_of_ok (run_rotation p), run_bind, run_lift]
  cases q.release released assignments p.rotation <;> rfl

theorem run_releaseAll_ok {released : List String} {assignments : List Assignment} {p m : Progress}
    (h : run (q.releaseAll released assignments) p = (.ok (), m)) :
    ∃ t, q.release released assignments p.rotation = .ok t ∧ m = { p with rotation := t } := by
  rw [run_releaseAll] at h
  cases hback : q.release released assignments p.rotation with
  | error e =>
      rw [hback] at h
      simp at h
  | ok t =>
      rw [hback] at h
      exact ⟨t, rfl, (Prod.mk.inj h).2.symm⟩

/-- Planning weeks anew is refused at the beginning, or goes on from the state in which everything
is given back with a step that follows the laws of the pool. -/
theorem regenerateSteps_follows (plan : Plan) (targets : List Nat)
    (hp : p.rotation = plan.rotation) :
    (∃ e, run (q.regenerateSteps plan targets) p = (.error e, p)) ∨
      ∃ t step, q.givenBack plan targets = .ok t ∧ plan.rotation.check q.recipes = .ok () ∧
        run (q.regenerateSteps plan targets) p = run step { p with rotation := t } ∧
        q.pool.Follows { p with rotation := t } step fun plan' l =>
          targets.Nodup → Replans plan.weeks plan'.weeks targets l := by
  unfold regenerateSteps
  have hcheck : run q.checkRotation p = (plan.rotation.check q.recipes, p) := by
    rw [← hp]
    rfl
  cases hresult : plan.rotation.check q.recipes with
  | error e =>
      rw [hresult] at hcheck
      rw [run_bind_of_error hcheck]
      exact Or.inl ⟨e, rfl⟩
  | ok _ =>
      rw [hresult] at hcheck
      rw [run_bind_of_ok hcheck]
      simp only
      have hrelease := q.run_releaseAll (releasedMains plan targets) (assignmentsOf plan targets) p
      rw [hp] at hrelease
      cases hback : q.givenBack plan targets with
      | error e =>
          rw [show q.release _ _ plan.rotation = .error e from hback] at hrelease
          unfold releasedMains assignmentsOf at hrelease
          rw [run_bind_of_error hrelease]
          exact Or.inl ⟨e, rfl⟩
      | ok t =>
          rw [show q.release _ _ plan.rotation = .ok t from hback] at hrelease
          unfold releasedMains assignmentsOf at hrelease
          refine Or.inr ⟨t, _, rfl, trivial, run_bind_of_ok hrelease _, ?_⟩
          refine .andThen (.still (Pool.Trace.refl _ _)) fun before p₁ _ => ?_
          refine .andThen (.remark rfl) fun _ p₂ _ => ?_
          refine .andThen (q.recordPool_follows p₂) fun _ p₃ _ => ?_
          refine .bind (replanWeeks_follows targets _ p₃) fun draft p₄ l _ hreplans => ?_
          have hlast : ∀ m, q.pool.Follows m (do return (⟨draft.weeks, ← rotation⟩ : Plan))
              fun plan' l' => targets.Nodup →
                Replans plan.weeks plan'.weeks targets (l ++ l') := by
            intro m
            refine .andThen (.still (Pool.Trace.refl _ _)) fun _ m' _ => .pure ?_
            rw [List.append_nil]
            exact hreplans
          split
          · refine .andThen (.still (Pool.Trace.silent rfl ⟨rfl, rfl⟩)) fun _ p₅ _ => ?_
            exact hlast p₅
          · exact hlast p₄

/-- The run behind planning weeks of a plan anew. -/
def regeneration (q : Request) (plan : Plan) (targets : List Nat) :
    Except PlanError Plan × Progress :=
  run (reporting .regeneration (q.regenerateSteps plan targets)) (q.start plan.rotation)

/-- The rotation state of a plan with weeks planned anew is the one at the end of the run. -/
theorem rotation_of_regeneration {plan' : Plan}
    (h : q.regeneration plan targets = (.ok plan', p)) : plan'.rotation = p.rotation := by
  unfold regeneration regenerateSteps at h
  obtain ⟨_, p₁, -, h⟩ := run_bind_ok.mp (run_reporting_ok.mp h)
  obtain ⟨_, p₂, -, h⟩ := run_bind_ok.mp h
  obtain ⟨_, p₃, -, h⟩ := run_bind_ok.mp h
  obtain ⟨_, p₄, -, h⟩ := run_bind_ok.mp h
  obtain ⟨_, p₅, -, h⟩ := run_bind_ok.mp h
  obtain ⟨draft, p₆, -, h⟩ := run_bind_ok.mp h
  have hlast : ∀ m, run (do return (⟨draft.weeks, ← rotation⟩ : Plan)) m = (.ok plan', p) →
      plan'.rotation = p.rotation := by
    intro m hm
    obtain ⟨hplan, hp⟩ := Prod.mk.inj hm
    rw [← hp, ← Except.ok.inj hplan]
  split at h
  · obtain ⟨_, p₇, -, h⟩ := run_bind_ok.mp h
    exact hlast p₇ h
  · exact hlast p₆ h

/-- Planning weeks anew follows the laws of the pool from the state in which everything is given
back; if it is refused before, nothing happens. -/
theorem regeneration_trace (q : Request) (plan : Plan) (targets : List Nat) :
    ∃ t events, (q.givenBack plan targets = .ok t ∨
        (t = plan.rotation ∧ ∀ e ∈ events, e.isRemark = true)) ∧
      q.pool.Trace { q.start plan.rotation with rotation := t } (q.regeneration plan targets).2
        events ∧ Paced none events := by
  rcases regenerateSteps_follows (q := q) (p := q.start plan.rotation) plan targets rfl with
    ⟨e, hrefused⟩ | ⟨t, step, hback, -, hrun, events, htrace, hpaced, -⟩
  · have hnothing : q.pool.Trace (q.start plan.rotation)
        (run (q.regenerateSteps plan targets) (q.start plan.rotation)).2 [] := by
      rw [hrefused]
      exact Pool.Trace.refl _ _
    obtain ⟨more, hmore, hremarks⟩ := hnothing.reporting .regeneration
    exact ⟨plan.rotation, more, Or.inr ⟨rfl, hremarks⟩, hmore, Pool.paced_of_remarks hremarks⟩
  · rw [← hrun] at htrace
    obtain ⟨more, hmore, hremarks⟩ := htrace.reporting .regeneration
    exact ⟨t, events ++ more, Or.inl hback, hmore, hpaced.append (Pool.paced_of_remarks hremarks)⟩

/-! ## one week, and all weeks from one on -/

/-- Planning weeks anew succeeds only from a week of the plan on. -/
theorem regenerate_ok {plan plan' : Plan} {first : Int} {targets : List Nat}
    (h : (q.regenerate plan first targets).result = .ok plan') :
    (0 ≤ first ∧ first < plan.weeks.length) ∧
      q.regeneration plan targets = (.ok plan', (q.regeneration plan targets).2) ∧
      (q.regenerate plan first targets).journal = (q.regeneration plan targets).2.journal := by
  unfold regenerate at h ⊢
  by_cases hfirst : 0 ≤ first ∧ first < plan.weeks.length
  · rw [if_pos hfirst] at h ⊢
    exact ⟨hfirst, Prod.ext h rfl, rfl⟩
  · rw [if_neg hfirst] at h
    contradiction

end Request

/-- The indices of the weeks from one on. -/
def Plan.indicesFrom (plan : Plan) (index : Int) : List Nat :=
  (List.range plan.weeks.length).drop index.toNat

namespace Plan

variable {plan : Plan} {index : Int} {i : Nat}

theorem nodup_indicesFrom (plan : Plan) (index : Int) : (plan.indicesFrom index).Nodup :=
  List.nodup_range.sublist (List.drop_sublist _ _)

theorem mem_indicesFrom : i ∈ plan.indicesFrom index ↔ index.toNat ≤ i ∧ i < plan.weeks.length := by
  rw [indicesFrom, List.mem_drop_iff_getElem]
  simp only [List.length_range, List.getElem_range]
  constructor
  · rintro ⟨j, hj, rfl⟩
    omega
  · intro h
    exact ⟨i - index.toNat, by omega, by omega⟩

end Plan

end MealRota
