import Mathlib.Data.List.Chain
import MealRota.Proofs.Suitability
import MealRota.Proofs.WholePlan

/-!
# MealRota.Proofs.Spacing

Complex recipes that must not follow each other.  A candidate for a slot is compared
with what was assigned last, whatever lies between: slots that stay empty, side
dishes, cycles that begin anew, the end of a week.  The rotation state carries its
complexity over all of these.

* `Request.Spaced`, `Request.SpacedAfter` — no complex recipe follows another one;
* `Request.Paces` — a stretch of a run keeps complex recipes apart, closed under composition;
* `Request.paces_of_planWeek`, `Request.paces_of_generate` — a week, and a whole plan.
-/

namespace MealRota

open Planning

namespace Request

/-! ## complex assignments -/

/-- Whether an assignment serves a complex recipe. -/
def servesComplex (q : Request) (a : Assignment) : Bool :=
  match q.complexityOf (some a) with
  | .ok score => isComplex score
  | .error _ => false

/-- No complex recipe follows another one. -/
def Spaced (q : Request) (l : List Assignment) : Prop :=
  l.IsChain fun a b => ¬ (q.servesComplex a = true ∧ q.servesComplex b = true)

instance (q : Request) (l : List Assignment) : Decidable (q.Spaced l) :=
  inferInstanceAs (Decidable (List.IsChain _ l))

/-- No complex recipe follows another one, nor something complex that comes before all. -/
structure SpacedAfter (q : Request) (preceding : Option Float) (l : List Assignment) : Prop where
  spaced : q.Spaced l
  first : ∀ a ∈ l.head?, ¬ (isComplex preceding = true ∧ q.servesComplex a = true)

variable {q : Request} {l l' : List Assignment} {a : Assignment} {x y : Option Float}
  {p m p' : Progress}

/-- An assignment that was looked up is complex as far as its score is. -/
theorem isComplex_of_complexityOf {o : Option Assignment} (h : q.complexityOf o = .ok x) :
    isComplex x = o.elim false q.servesComplex := by
  cases o with
  | none =>
      rw [← Except.ok.inj h]
      rfl
  | some a => simp [servesComplex, h]

/-- A recipe of the pool that an assignment names makes it as complex as its score says. -/
theorem servesComplex_of_mem_pool (hids : (q.recipes.map (·.id)).Nodup) {r : Recipe} {x : Float}
    (hr : r ∈ q.pool.recipes) (hid : a.recipeId = r.id)
    (hx : r.complexityScore q.rules.formula = .ok x) : q.servesComplex a = isComplex (some x) := by
  unfold servesComplex
  rw [complexityOf_of_mem_pool hids hr hid hx]

theorem spacedAfter_none : q.SpacedAfter none l ↔ q.Spaced l :=
  ⟨SpacedAfter.spaced, fun h => ⟨h, by simp [isComplex]⟩⟩

/-- What follows some assignments is spaced from the last of them. -/
theorem SpacedAfter.append (h : q.SpacedAfter x l) (h' : q.SpacedAfter y l')
    (hlast : isComplex y = l.getLast?.elim (isComplex x) q.servesComplex) :
    q.SpacedAfter x (l ++ l') where
  spaced := by
    refine List.isChain_append.mpr ⟨h.spaced, h'.spaced, fun a ha b hb => ?_⟩
    have hcarried : isComplex y = q.servesComplex a := by
      rw [hlast, Option.mem_def.mp ha]
      rfl
    rw [← hcarried]
    exact h'.first b hb
  first := fun a ha => by
    cases l with
    | nil =>
        rw [← show isComplex y = isComplex x from hlast]
        exact h'.first a ha
    | cons b l => exact h.first a (by simpa using ha)

/-! ## stretches of a run -/

/-- A stretch of a run assigns no complex recipe after another one, nor after what was assigned
before it, and ends with the complexity of what it assigned last. -/
structure Paces (q : Request) (l : List Assignment) (p p' : Progress) : Prop where
  spaced : q.SpacedAfter p.rotation.lastComplexity l
  last : isComplex p'.rotation.lastComplexity =
    l.getLast?.elim (isComplex p.rotation.lastComplexity) q.servesComplex

namespace Paces

theorem nil (h : p'.rotation.lastComplexity = p.rotation.lastComplexity) : q.Paces [] p p' where
  spaced := ⟨List.isChain_nil, by simp⟩
  last := by rw [h]; rfl

theorem append (h : q.Paces l p m) (h' : q.Paces l' m p') : q.Paces (l ++ l') p p' where
  spaced := h.spaced.append h'.spaced h.last
  last := by
    rw [h'.last, h.last, List.getLast?_append]
    cases l'.getLast? <;> rfl

/-- One more assignment, of a recipe that is not the second of two complex ones. -/
theorem single (hlast : isComplex p'.rotation.lastComplexity = q.servesComplex a)
    (hrow : ¬ (q.servesComplex a = true ∧ isComplex p.rotation.lastComplexity = true)) :
    q.Paces [a] p p' where
  spaced := ⟨List.isChain_singleton a, fun b hb => by
    obtain rfl : a = b := by simpa using hb
    exact fun hboth => hrow hboth.symm⟩
  last := hlast

end Paces

/-! ## slots and weeks -/

section

variable (hids : (q.recipes.map (·.id)).Nodup)
  (havoid : q.rules.preferences.avoidConsecutiveComplex = true)

include hids havoid

/-- Filling a slot keeps complex recipes apart, whether something is assigned or not. -/
theorem paces_of_fillSlot {draft draft' : WeekDraft} {place : Date × Course}
    (hd : q.Paces draft.assignments p m)
    (h : run (q.kitchen.fillSlot draft place) m = (.ok draft', p')) :
    q.Paces draft'.assignments p p' := by
  obtain ⟨day, c⟩ := place
  obtain ⟨excluded, locked, m', result, q', hready, hselects, hrun⟩ :=
    q.kitchen.run_fillSlot draft day c m
  rw [hrun] at h
  obtain ⟨hresult, rfl⟩ := Prod.mk.inj h
  have hbefore : m'.rotation.lastComplexity = m.rotation.lastComplexity := hready.serves.2
  cases result with
  | error e => contradiction
  | ok chosen =>
      cases chosen with
      | none =>
          have hkept : q'.rotation.lastComplexity = m.rotation.lastComplexity :=
            hselects.serves_none.2.trans hbefore
          rw [← Except.ok.inj hresult]
          simpa using hd.append (.nil hkept)
      | some choice =>
          obtain ⟨a, -, -, hrecipe, -, hassign, -⟩ := Kitchen.addChoice_ok hresult
          obtain ⟨-, hmem, x, hx, hlast⟩ := hselects.serves
          have hcomplex : q.servesComplex a = isComplex (some x) :=
            servesComplex_of_mem_pool hids (hmem _ List.mem_cons_self) hrecipe hx
          have hrow : ¬ (isComplex (some x) = true ∧
              isComplex m.rotation.lastComplexity = true) :=
            (Scorer.allow_of_passes hselects.of_some.2.1 rfl).2 havoid x hx
          rw [hassign]
          refine hd.append (.single ?_ ?_)
          · rw [hlast, hcomplex]
          · rwa [hcomplex]

/-- A planned week keeps complex recipes apart. -/
theorem paces_of_planWeek {locked : List String} {w : Week}
    (h : q.kitchen.Plans locked w p p') : q.Paces w.assignments p p' := by
  obtain ⟨days, draft, m, hrun, -, hassign, hrotation, -⟩ := h.slots
  have hslots : q.Paces draft.assignments p m :=
    run_foldlM_ok (fun _ d m => q.Paces d.assignments p m)
      (fun done place rest _ d m d' m' hd hslot => paces_of_fillSlot hids havoid hd hslot)
      (.nil rfl) hrun
  rw [hassign]
  exact ⟨hslots.spaced, by rw [hrotation, hslots.last]⟩

/-- Weeks planned in turn keep complex recipes apart, also where one week meets the next. -/
theorem paces_of_plansInTurn {weeks : List Week} (h : q.kitchen.PlansInTurn weeks p p') :
    q.Paces (weeks.flatMap (·.assignments)) p p' := by
  induction h with
  | none p => exact .nil rfl
  | next h hrest ih => exact (paces_of_planWeek hids havoid h).append ih

/-- A generated plan keeps complex recipes apart, and its first assignment from what was assigned
last in the state that was given. -/
theorem spacedAfter_of_generate {given : Option Rotation} {weekCount : Option Int}
    {start : Except PlanError Date} {plan : Plan}
    (h : (q.generate given weekCount start).result = .ok plan) :
    q.SpacedAfter (given.getD .fresh).lastComplexity plan.assignments := by
  obtain ⟨m, m', hm, -, -, hturn, -⟩ := weeks_of_generate h
  rw [← hm]
  exact (paces_of_plansInTurn hids havoid hturn).spaced

end

end Request

end MealRota
