import MealRota.Plan.Week
import MealRota.Proofs.Filling

/-!
# MealRota.Proofs.InStep

Two runs in step.  Filling slots reads of the rotation state only which recipes are
used, how often the cuisines were served and how complex the last assignment was.
Two runs that begin with the same of these, and with the same source of random
numbers, make the same choices and end in step again, however far their cycle
numbers and their journals are apart.

* `Likeness` — what two runs may have in common that filling slots keeps;
* `Planning.Alike` — steps that do alike from there, closed under composition;
* `Kitchen.alike_planWeek` — planning a week;
* `Kitchen.inStep_planWeek` — planning a week in states that are some cycles apart.
-/

namespace MealRota

/-! ## what two runs have in common -/

/-- What two runs have in common: a relation between their rotation states, and what is known of
the source of random numbers from which both draw.  States that are related look the same to
whoever fills a slot, and whatever filling a slot does to both leaves them related. -/
structure Likeness where
  rel : Rotation → Rotation → Prop
  source : Option Twister → Prop
  usedIds : ∀ {s t}, rel s t → ∀ c, s.usedIds c = t.usedIds c
  servingsOf : ∀ {s t}, rel s t → ∀ k, s.servingsOf k = t.servingsOf k
  last : ∀ {s t}, rel s t → s.lastComplexity = t.lastComplexity
  reset : ∀ {s t}, rel s t → ∀ c, rel (s.reset c) (t.reset c)
  take : ∀ {s t}, rel s t → ∀ r : Recipe,
    rel ((s.mark r.course r.id).countServing r.cuisine)
      ((t.mark r.course r.id).countServing r.cuisine)
  withComplexity : ∀ {s t}, rel s t → ∀ x,
    rel { s with lastComplexity := x } { t with lastComplexity := x }
  draw : ∀ {s}, source (some s) → source (some s.nextDouble.2)

theorem Likeness.isUsed (L : Likeness) {s t : Rotation} (h : L.rel s t) (c : Course)
    (id : String) : s.isUsed c id = t.isUsed c id := by
  simp only [Rotation.isUsed, L.usedIds h]

/-- Two runs are in states that are alike and draw from the same source of random numbers. -/
structure Progress.Like (L : Likeness) (p q : Progress) : Prop where
  rotation : L.rel p.rotation q.rotation
  source : p.source = q.source
  drawn : L.source p.source

/-! ## states in step -/

/-- Two states count the same as used and as served, and the second is `d` cycles ahead. -/
structure Rotation.InStep (d : Nat) (s t : Rotation) : Prop where
  used : ∀ c, s.usedIds c = t.usedIds c
  servings : ∀ k, s.servings.get? k = t.servings.get? k
  last : s.lastComplexity = t.lastComplexity
  cycle : t.cycle = s.cycle + d

/-- Two runs are in states in step and draw from the same source of random numbers. -/
structure Progress.InStep (d : Nat) (p q : Progress) : Prop where
  rotation : p.rotation.InStep d q.rotation
  source : p.source = q.source

namespace Rotation.InStep

variable {d : Nat} {s t : Rotation}

theorem servingsOf (h : s.InStep d t) (k : Cuisine) : s.servingsOf k = t.servingsOf k := by
  simp only [Rotation.servingsOf, h.servings]

theorem reset (h : s.InStep d t) (c : Course) : (s.reset c).InStep d (t.reset c) where
  used := fun c' => by simp only [Rotation.usedIds_reset, h.used]
  servings := h.servings
  last := h.last
  cycle := by simp only [Rotation.cycle_reset, h.cycle]; omega

theorem take (h : s.InStep d t) (r : Recipe) :
    ((s.mark r.course r.id).countServing r.cuisine).InStep d
      ((t.mark r.course r.id).countServing r.cuisine) where
  used := fun c => by
    show (s.mark r.course r.id).usedIds c = (t.mark r.course r.id).usedIds c
    simp only [Rotation.usedIds_mark, h.used]
  servings := fun k => by
    have hcount : (s.mark r.course r.id).servingsOf r.cuisine =
        (t.mark r.course r.id).servingsOf r.cuisine := h.servingsOf r.cuisine
    have hold : (s.mark r.course r.id).servings.get? k = (t.mark r.course r.id).servings.get? k :=
      h.servings k
    simp only [Rotation.countServing, Table.get?_set, hcount, hold]
  last := h.last
  cycle := h.cycle

theorem withComplexity (h : s.InStep d t) (x : Option Float) :
    ({ s with lastComplexity := x } : Rotation).InStep d { t with lastComplexity := x } :=
  ⟨h.used, h.servings, rfl, h.cycle⟩

end Rotation.InStep

/-- Being in step, whatever the source of random numbers. -/
def Likeness.inStep (d : Nat) : Likeness where
  rel := Rotation.InStep d
  source := fun _ => True
  usedIds := Rotation.InStep.used
  servingsOf := Rotation.InStep.servingsOf
  last := Rotation.InStep.last
  reset := Rotation.InStep.reset
  take := Rotation.InStep.take
  withComplexity := Rotation.InStep.withComplexity
  draw := fun _ => trivial

/-! ## scores in states that are alike -/

namespace Scorer

variable {s : Scorer} {L : Likeness} {t : Rotation}

/-- The same recipe against another state. -/
def inState (s : Scorer) (t : Rotation) : Scorer := { s with rotation := t }

theorem rejection?_inState (h : L.rel s.rotation t) :
    (s.inState t).rejection? = s.rejection? := by
  funext r
  simp only [rejection?, inState, L.isUsed h]
  rfl

theorem score?_inState (h : L.rel s.rotation t) : (s.inState t).score? = s.score? := by
  funext r
  simp only [score?_eq, rejection?_inState h]
  simp only [inState, L.servingsOf h]
  rfl

theorem best?_inState (h : L.rel s.rotation t) : (s.inState t).best? = s.best? := by
  have hconsider : (s.inState t).consider = s.consider := by
    funext best r
    simp only [consider, score?_inState h]
  funext candidates
  simp only [best?, hconsider]

theorem rank_inState (h : L.rel s.rotation t) : (s.inState t).rank = s.rank := by
  have hsurvivors : ∀ l, (s.inState t).survivors l = s.survivors l := by
    intro l
    induction l with
    | nil => rfl
    | cons r l ih => simp only [survivors, score?_inState h, ih]
  funext candidates
  simp only [rank, hsurvivors]

theorem rejections_inState (h : L.rel s.rotation t) :
    (s.inState t).rejections = s.rejections := by
  have htally : (s.inState t).tally = s.tally := by
    funext counts r
    have hreject := rejection?_inState (s := { s with checksRotation := true }) h
    simp only [tally]
    rw [← hreject]
    rfl
  funext candidates
  simp only [rejections, htally]

end Scorer

/-! ## steps that do alike -/

namespace Planning

variable {α β : Type} {L : Likeness}

/-- Two steps do alike in runs that are alike: they have the same result, and leave the runs
alike. -/
def Alike (L : Likeness) (f g : Planning α) : Prop :=
  ∀ p q, p.Like L q → (run f p).1 = (run g q).1 ∧ (run f p).2.Like L (run g q).2

namespace Alike

variable {f g : Planning α} {f' g' : α → Planning β}

theorem pure (a : α) : Alike L (pure a : Planning α) (Pure.pure a) := fun _ _ h => ⟨rfl, h⟩

theorem fail (e : PlanError) : Alike L (Planning.fail e : Planning α) (Planning.fail e) :=
  fun _ _ h => ⟨rfl, h⟩

theorem lift (x : Except PlanError α) : Alike L (Planning.lift x) (Planning.lift x) :=
  fun _ _ h => ⟨rfl, h⟩

/-- The journals may tell different things. -/
theorem record (e e' : Event) : Alike L (Planning.record e) (Planning.record e') :=
  fun _ _ h => ⟨rfl, h.rotation, h.source, h.drawn⟩

theorem updateRotation {u v : Rotation → Rotation}
    (h : ∀ s t, L.rel s t → L.rel (u s) (v t)) :
    Alike L (Planning.updateRotation u) (Planning.updateRotation v) :=
  fun _ _ hpq => ⟨rfl, h _ _ hpq.rotation, hpq.source, hpq.drawn⟩

theorem isRandom : Alike L Planning.isRandom Planning.isRandom := fun p q h => by
  simp only [run_isRandom, h.source, true_and]
  exact h

theorem draw? : Alike L Planning.draw? Planning.draw? := fun p q h => by
  obtain ⟨t, source, journal⟩ := p
  obtain ⟨t', source', journal'⟩ := q
  obtain ⟨hrotation, rfl, hdrawn⟩ := h
  cases source with
  | none => exact ⟨rfl, hrotation, rfl, hdrawn⟩
  | some s => exact ⟨rfl, hrotation, rfl, L.draw hdrawn⟩

theorem bind (h : Alike L f g) (h' : ∀ a, Alike L (f' a) (g' a)) :
    Alike L (f >>= f') (g >>= g') := by
  intro p q hpq
  obtain ⟨hresult, hstep⟩ := h p q hpq
  rw [run_bind, run_bind]
  revert hresult hstep
  generalize run f p = out, run g q = out'
  intro hresult hstep
  obtain ⟨result, m⟩ := out
  obtain ⟨result', m'⟩ := out'
  simp only at hresult
  subst hresult
  cases result with
  | error e => exact ⟨rfl, hstep⟩
  | ok a => exact h' a m m' hstep

/-- Steps that read the state do alike if they do for states that are alike. -/
theorem rotation_bind {f g : Rotation → Planning β}
    (h : ∀ s t, L.rel s t → Alike L (f s) (g t)) :
    Alike L (Planning.rotation >>= f) (Planning.rotation >>= g) := fun p q hpq => by
  rw [run_bind_of_ok (run_rotation p), run_bind_of_ok (run_rotation q)]
  exact h _ _ hpq.rotation p q hpq

theorem foldlM {f : β → α → Planning β} (h : ∀ b a, Alike L (f b a) (f b a)) (l : List α) (b : β) :
    Alike L (l.foldlM f b) (l.foldlM f b) := by
  induction l generalizing b with
  | nil => exact .pure b
  | cons a l ih =>
      rw [List.foldlM_cons]
      exact (h b a).bind ih

theorem ite {c : Prop} [Decidable c] {f₁ f₂ g₁ g₂ : Planning α} (h₁ : Alike L f₁ g₁)
    (h₂ : Alike L f₂ g₂) : Alike L (if c then f₁ else f₂) (if c then g₁ else g₂) := by
  split
  · exact h₁
  · exact h₂

end Alike

end Planning

open Planning

/-! ## choices that are alike -/

variable {L : Likeness}

theorem alike_drawRanked (ranked : List Scored) :
    Alike L (drawRanked ranked) (drawRanked ranked) := by
  unfold drawRanked
  cases ranked with
  | nil => exact .pure none
  | cons first l =>
      refine .ite (.pure _) (.bind .draw? fun u => ?_)
      cases u with
      | none => exact .pure _
      | some u => exact .pure _

theorem alike_chooseFrom {s : Scorer} {t : Rotation} (h : L.rel s.rotation t)
    (candidates : List Recipe) :
    Alike L (chooseFrom s candidates) (chooseFrom (s.inState t) candidates) := by
  unfold chooseFrom
  rw [Scorer.rank_inState h, Scorer.best?_inState h]
  exact .bind .isRandom fun random =>
    .ite (.bind (.lift _) alike_drawRanked) (.lift _)

theorem alike_beginCycle (c : Course) (size : Int) :
    Alike L (beginCycle c size) (beginCycle c size) :=
  .rotation_bind fun _ _ _ => .bind (.updateRotation fun _ _ h => L.reset h c) fun _ => .record _ _

namespace Kitchen

variable (k : Kitchen)

theorem alike_take (r : Recipe) : Alike L (k.take r) (k.take r) :=
  .bind (.updateRotation fun _ _ h => L.take h r) fun _ => .bind (.record _ _) fun _ => .lift _

theorem alike_renewSides (candidates : List Recipe) :
    Alike L (k.renewSides candidates) (k.renewSides candidates) := by
  unfold renewSides
  refine .rotation_bind fun s t h => ?_
  rw [L.usedIds h]
  exact .ite (.ite (.bind (alike_beginCycle _ _) fun _ => .pure _) (.pure _)) (.pure _)

theorem alike_pairSide (slot : SlotContext) (main : Recipe) (x : Float) :
    Alike L (k.pairSide slot main x) (k.pairSide slot main x) := by
  unfold pairSide
  refine .bind (.record _ _) fun _ => ?_
  refine .ite (.pure none) (.bind (k.alike_renewSides _) fun checks => ?_)
  refine .rotation_bind fun s t h => .bind (alike_chooseFrom h _) fun side => ?_
  cases side with
  | none => exact .bind (.record _ _) fun _ => .pure _
  | some side => exact .bind (k.alike_take side) fun _ => .pure _

theorem alike_assign (slot : SlotContext) (r : Recipe) (reset : Bool) :
    Alike L (k.assign slot r reset) (k.assign slot r reset) := by
  unfold assign
  refine .bind (k.alike_take r) fun x => ?_
  refine .bind (.updateRotation fun _ _ h => L.withComplexity h _) fun _ => ?_
  refine .ite (.bind (k.alike_pairSide slot r x) fun side => .pure _) ?_
  exact .bind (.pure none) fun _ => .pure _

theorem alike_renewCourse (c : Course) (candidates : List Recipe) :
    Alike L (renewCourse c candidates) (renewCourse c candidates) := by
  unfold renewCourse
  refine .rotation_bind fun s t h => ?_
  rw [L.usedIds h]
  exact .ite (.bind (alike_beginCycle _ _) fun _ => .pure _) (.pure _)

theorem alike_select (c : Course) (slot : SlotContext) (excluded : List String) :
    Alike L (k.select c slot excluded) (k.select c slot excluded) := by
  unfold select
  refine .ite (.ite (.fail _) (.pure none)) (.bind (alike_renewCourse c _) fun reset => ?_)
  refine .rotation_bind fun s t h => .bind (alike_chooseFrom h _) fun chosen => ?_
  cases chosen with
  | some r => exact .bind (k.alike_assign slot r reset) fun _ => .pure _
  | none =>
      have hsame := Scorer.rejections_inState (s := ⟨k.rules, slot, s, true⟩) h
      simp only [Scorer.inState] at hsame
      rw [hsame]
      exact .bind (.lift _) fun _ => .ite (.fail _) (.bind (.record _ _) fun _ => .pure _)

theorem alike_mainExclusions (draft : WeekDraft) :
    Alike L (k.mainExclusions draft) (k.mainExclusions draft) := by
  unfold mainExclusions
  exact .ite (.pure _) (.ite (.bind (alike_beginCycle _ _) fun _ => .pure _) (.pure _))

theorem alike_enter (draft : WeekDraft) (c : Course) (slot : SlotContext) (chosen : Option Choice) :
    Alike L
      (match chosen with
        | none => return draft
        | some choice => Planning.lift (k.addChoice draft c slot choice))
      (match chosen with
        | none => return draft
        | some choice => Planning.lift (k.addChoice draft c slot choice)) := by
  cases chosen with
  | none => exact .pure _
  | some choice => exact .lift _

theorem alike_fillSlot (draft : WeekDraft) (place : Date × Course) :
    Alike L (k.fillSlot draft place) (k.fillSlot draft place) := by
  unfold fillSlot
  refine .bind (.record _ _) fun _ => .rotation_bind fun s t h => ?_
  rw [L.last h]
  refine .ite (.bind (k.alike_mainExclusions draft) fun out => ?_) (.bind (.pure _) fun out => ?_)
  · exact .bind (k.alike_select _ _ _) (k.alike_enter _ _ _)
  · exact .bind (k.alike_select _ _ _) (k.alike_enter _ _ _)

/-- Planning a week makes the same week in runs that are alike, and keeps them alike. -/
theorem alike_planWeek (start : Date) (locked : List String) (status : WeekStatus) :
    Alike L (k.planWeek start locked status) (k.planWeek start locked status) := by
  unfold planWeek
  refine .bind (.lift _) fun start => .bind (.lift _) fun days => ?_
  refine .bind (.foldlM k.alike_fillSlot _ _) fun draft => .bind (.lift _) fun _ => ?_
  exact .rotation_bind fun s t h => .bind (.record _ _) fun _ => .pure _

/-- Planning a week makes the same week in runs that are in step, and keeps them in step. -/
theorem inStep_planWeek {d : Nat} {p q : Progress} (h : p.InStep d q) (start : Date)
    (locked : List String) (status : WeekStatus) :
    (run (k.planWeek start locked status) p).1 = (run (k.planWeek start locked status) q).1 ∧
      (run (k.planWeek start locked status) p).2.InStep d
        (run (k.planWeek start locked status) q).2 := by
  obtain ⟨hresult, hlike⟩ := k.alike_planWeek (L := .inStep d) start locked status p q
    ⟨h.rotation, h.source, trivial⟩
  exact ⟨hresult, hlike.rotation, hlike.source⟩

end Kitchen

end MealRota
