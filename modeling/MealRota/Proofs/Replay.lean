import MealRota.Proofs.Pool
import MealRota.Proofs.Steps

/-!
# MealRota.Proofs.Replay

The journal of a run tells what happened to the marks of the rotation state: the
state at any moment is the first state, replayed through the events so far.

* `replay` — the marks and the cycle number after some events;
* `Pool.Lawful` — every event of a journal is one that the pool allows at its moment;
* `Paced` — recipes are taken only in slots that were reached;
* `Pool.Trace` — how a stretch of a run is told by its events;
* `Pool.Lawful.at`, `Paced.at_taking` — such journals read moment by moment.
-/

namespace MealRota

/-! ## replaying events -/

/-- What an event does to the marks and the cycle number of a rotation state. -/
def Event.act : Event → Rotation → Rotation
  | .recipeTaken c id, t => t.mark c id
  | .cycleReset c _ _ _, t => t.reset c
  | _, t => t

/-- The marks and the cycle number after some events. -/
def replay (t : Rotation) (events : List Event) : Rotation :=
  events.foldl (fun t e => e.act t) t

@[simp] theorem replay_nil (t : Rotation) : replay t [] = t := rfl

@[simp] theorem replay_cons (t : Rotation) (e : Event) (l : List Event) :
    replay t (e :: l) = replay (e.act t) l := rfl

@[simp] theorem replay_append (t : Rotation) (l m : List Event) :
    replay t (l ++ m) = replay (replay t l) m := by
  simp [replay, List.foldl_append]

/-- Whether an event begins a new cycle of a course. -/
def Event.resets (c : Course) : Event → Bool
  | .cycleReset d _ _ _ => c = d
  | _ => false

/-- Whether an event begins a new cycle of any course. -/
def Event.isReset : Event → Bool
  | .cycleReset .. => true
  | _ => false

/-- How often a new cycle of a course began. -/
def resetsOf (c : Course) (events : List Event) : Nat := events.countP (Event.resets c)

@[simp] theorem resetsOf_append (c : Course) (l m : List Event) :
    resetsOf c (l ++ m) = resetsOf c l + resetsOf c m := List.countP_append

/-- How often a new cycle began. -/
def resetCount (events : List Event) : Nat := events.countP Event.isReset

/-- What an event takes: a recipe of a course. -/
def Event.taking? : Event → Option (Course × String)
  | .recipeTaken c id => some (c, id)
  | _ => none

/-- What some events take, in order. -/
def takings (events : List Event) : List (Course × String) := events.filterMap Event.taking?

@[simp] theorem takings_nil : takings [] = [] := rfl

@[simp] theorem takings_append (l m : List Event) : takings (l ++ m) = takings l ++ takings m := by
  simp [takings]

/-- The cycle number counts the resets. -/
theorem cycle_replay (t : Rotation) (events : List Event) :
    (replay t events).cycle = t.cycle + resetCount events := by
  induction events generalizing t with
  | nil => rfl
  | cons e l ih =>
      rw [replay_cons, ih, resetCount, resetCount, List.countP_cons]
      cases e with
      | cycleReset c old new size =>
          simp only [Event.act, Rotation.cycle_reset, Event.isReset, if_true]
          omega
      | _ => rfl

/-! ## states with the same marks -/

namespace Rotation

/-- Two states have the same marks and the same cycle number. -/
structure SameUse (s t : Rotation) : Prop where
  cycle : s.cycle = t.cycle
  used : s.used = t.used

namespace SameUse

variable {s t u : Rotation}

theorem refl (t : Rotation) : SameUse t t := ⟨rfl, rfl⟩

theorem symm (h : SameUse s t) : SameUse t s := ⟨h.cycle.symm, h.used.symm⟩

theorem trans (h : SameUse s t) (h' : SameUse t u) : SameUse s u :=
  ⟨h.cycle.trans h'.cycle, h.used.trans h'.used⟩

theorem usedIds (h : SameUse s t) (c : Course) : s.usedIds c = t.usedIds c := by
  simp only [Rotation.usedIds, h.used]

theorem isUsed (h : SameUse s t) (c : Course) (id : String) : s.isUsed c id = t.isUsed c id := by
  simp only [Rotation.isUsed, h.usedIds]

theorem exhausted (h : SameUse s t) {p : Pool} {c : Course} (ht : p.Exhausted t c) :
    p.Exhausted s c := by
  intro r hr
  rw [h.isUsed]
  exact ht r hr

/-- Events keep states with the same marks alike. -/
theorem act (h : SameUse s t) (e : Event) : SameUse (e.act s) (e.act t) := by
  cases e with
  | recipeTaken c id => exact ⟨h.cycle, by simp only [Event.act, mark, h.usedIds, h.used]⟩
  | cycleReset c old new size =>
      exact ⟨by simp only [Event.act, reset, h.cycle], by simp only [Event.act, reset, h.used]⟩
  | _ => exact h

theorem replay (h : SameUse s t) (events : List Event) :
    SameUse (MealRota.replay s events) (MealRota.replay t events) := by
  induction events generalizing s t with
  | nil => exact h
  | cons e l ih => exact ih (h.act e)

end SameUse

end Rotation

/-! ## lawful journals -/

/-- The events begin with a reset of the course. -/
def BeginsWithReset (c : Course) (events : List Event) : Prop :=
  ∃ old new size rest, events = .cycleReset c old new size :: rest

theorem BeginsWithReset.append {c : Course} {l : List Event} (h : BeginsWithReset c l)
    (m : List Event) : BeginsWithReset c (l ++ m) := by
  obtain ⟨old, new, size, rest, rfl⟩ := h
  exact ⟨old, new, size, rest ++ m, rfl⟩

namespace Pool

/-- What a pool allows to happen in a state, given what happens next.

* Only side dishes may be taken again within a cycle.
* A cycle ends when all recipes of the course were used, and the cycle number rises by one.
* Where a slot is reached or a side dish sought with all recipes used, a reset comes next. -/
def Allows (p : Pool) (t : Rotation) : Event → List Event → Prop
  | .recipeTaken c id, _ => c ≠ .side → t.isUsed c id = false
  | .cycleReset c old new _, _ => p.Exhausted t c ∧ old = t.cycle ∧ new = t.cycle + 1
  | .slotReached c _, rest => p.forCourse c ≠ [] → p.Exhausted t c → BeginsWithReset c rest
  | .sideSought mainId _, rest =>
      ∀ main, p.get? mainId = some main → p.sidesFor main ≠ [] → p.Exhausted t .side →
        BeginsWithReset .side rest
  | _, _ => True

/-- Every event is allowed at its moment. -/
def Lawful (p : Pool) : Rotation → List Event → Prop
  | _, [] => True
  | t, e :: l => p.Allows t e l ∧ p.Lawful (e.act t) l

variable {p : Pool} {s t : Rotation} {e : Event} {l m : List Event}

/-- What is allowed stays allowed when more happens later. -/
theorem Allows.append (h : p.Allows t e l) (m : List Event) : p.Allows t e (l ++ m) := by
  cases e with
  | recipeTaken c id => exact h
  | cycleReset c old new size => exact h
  | slotReached c date => exact fun hne hex => (h hne hex).append m
  | sideSought id date => exact fun main hget hne hex => (h main hget hne hex).append m
  | _ => exact trivial

theorem Allows.congr (hst : s.SameUse t) (h : p.Allows t e l) : p.Allows s e l := by
  cases e with
  | recipeTaken c id =>
      intro hc
      rw [hst.isUsed]
      exact h hc
  | cycleReset c old new size =>
      obtain ⟨hex, hold, hnew⟩ := h
      exact ⟨hst.exhausted hex, by rw [hold, hst.cycle], by rw [hnew, hst.cycle]⟩
  | slotReached c date => exact fun hne hex => h hne (hst.symm.exhausted hex)
  | sideSought id date =>
      exact fun main hget hne hex => h main hget hne (hst.symm.exhausted hex)
  | _ => exact trivial

theorem Lawful.congr (hst : s.SameUse t) (h : p.Lawful t l) : p.Lawful s l := by
  induction l generalizing s t with
  | nil => exact trivial
  | cons e l ih => exact ⟨Allows.congr hst h.1, ih (hst.act e) h.2⟩

theorem Lawful.append (hl : p.Lawful t l) (hm : p.Lawful (replay t l) m) :
    p.Lawful t (l ++ m) := by
  induction l generalizing t with
  | nil => exact hm
  | cons e l ih => exact ⟨hl.1.append m, ih hl.2 hm⟩

/-- In a lawful journal, each event is allowed in the state that those before it lead to. -/
theorem Lawful.at {before after : List Event} (h : p.Lawful t (before ++ e :: after)) :
    p.Allows (replay t before) e after := by
  induction before generalizing t with
  | nil => exact h.1
  | cons e' l ih => exact ih h.2

end Pool

/-! ## the slot being filled -/

/-- The course that is chosen for after an event, if it was `sought` before: a slot is reached or a
side dish sought, and only resets of the course may come before the choice. -/
def Event.seeks (sought : Option Course) : Event → Option Course
  | .slotReached c _ => some c
  | .sideSought _ _ => some .side
  | .cycleReset c _ _ _ => if sought = some c then sought else none
  | _ => none

/-- Recipes are taken only for the course that is chosen for. -/
def Paced : Option Course → List Event → Prop
  | _, [] => True
  | sought, e :: l => (∀ x ∈ takings [e], sought = some x.1) ∧ Paced (e.seeks sought) l

namespace Paced

variable {sought : Option Course} {c : Course} {l m : List Event}

/-- What may happen outside of slots may happen anywhere. -/
theorem of_none (h : Paced none l) (sought : Option Course) : Paced sought l := by
  induction l generalizing sought with
  | nil => exact trivial
  | cons e l ih =>
      refine ⟨fun x hx => absurd (h.1 x hx) (by simp), ?_⟩
      cases e with
      | cycleReset c old new size => exact ih h.2 _
      | _ => exact h.2

theorem append (h : Paced sought l) (hm : Paced none m) : Paced sought (l ++ m) := by
  induction l generalizing sought with
  | nil => exact hm.of_none sought
  | cons e l ih => exact ⟨h.1, ih h.2⟩

/-- An event that takes nothing may happen anywhere. -/
theorem quiet {e : Event} (h : takings [e] = []) : Paced sought [e] := by
  refine ⟨fun x hx => ?_, trivial⟩
  rw [h] at hx
  exact absurd hx List.not_mem_nil

/-- A choice may wait for resets of its course. -/
theorem after_resets (hl : ∀ e ∈ l, e.resets c = true) (hm : Paced (some c) m) :
    Paced (some c) (l ++ m) := by
  induction l with
  | nil => exact hm
  | cons e l ih =>
      have hrest := ih fun e' he' => hl e' (List.mem_cons_of_mem _ he')
      have he := hl e List.mem_cons_self
      cases e with
      | cycleReset d old new size =>
          have hd : c = d := of_decide_eq_true he
          refine ⟨fun x hx => absurd hx List.not_mem_nil, ?_⟩
          rw [Event.seeks, if_pos (congrArg some hd)]
          exact hrest
      | _ => simp [Event.resets] at he

/-- A recipe is taken where a slot of its course was reached or, for a side dish, one was sought,
with nothing but resets of the course in between. -/
theorem at_taking {before after : List Event} {id : String}
    (h : Paced sought (before ++ .recipeTaken c id :: after)) :
    (∃ earlier e resets, before = earlier ++ e :: resets ∧ e.seeks none = some c ∧
      ∀ e' ∈ resets, e'.resets c = true) ∨
    (sought = some c ∧ ∀ e ∈ before, e.resets c = true) := by
  induction before generalizing sought with
  | nil => exact Or.inr ⟨h.1 (c, id) List.mem_cons_self, fun e he => absurd he List.not_mem_nil⟩
  | cons e before ih =>
      rcases ih h.2 with ⟨earlier, e', resets, rfl, hseeks, hresets⟩ | ⟨hseeks, hresets⟩
      · exact Or.inl ⟨e :: earlier, e', resets, rfl, hseeks, hresets⟩
      · cases e with
        | slotReached d date => exact Or.inl ⟨[], _, before, rfl, hseeks, hresets⟩
        | sideSought main date => exact Or.inl ⟨[], _, before, rfl, hseeks, hresets⟩
        | cycleReset d old new size =>
            simp only [Event.seeks] at hseeks
            split at hseeks
            · next hd =>
                rw [hd] at hseeks
                refine Or.inr ⟨hd.trans hseeks, fun e he => ?_⟩
                rcases List.mem_cons.mp he with rfl | he
                · exact decide_eq_true (Option.some.inj hseeks).symm
                · exact hresets e he
            · contradiction
        | _ => contradiction

end Paced

theorem takings_of_resets {c : Course} {l : List Event} (h : ∀ e ∈ l, e.resets c = true) :
    takings l = [] := by
  unfold takings
  rw [List.filterMap_eq_nil_iff]
  intro e he
  have hreset := h e he
  cases e <;> first | rfl | simp [Event.resets] at hreset

/-! ## stretches of a run -/

namespace Pool

variable {p : Pool} {l m : List Event} {e : Event}

/-- The events that a stretch of a run adds to the journal tell what it does to the marks, and
each is allowed at its moment. -/
structure Trace (p : Pool) (a b : Progress) (events : List Event) : Prop where
  journal : b.journal = a.journal ++ events
  use : b.rotation.SameUse (replay a.rotation events)
  lawful : p.Lawful a.rotation events

namespace Trace

variable {a b c : Progress}

theorem refl (p : Pool) (a : Progress) : p.Trace a a [] :=
  ⟨(List.append_nil _).symm, Rotation.SameUse.refl _, trivial⟩

theorem journal_eq (h : p.Trace a b l) (ha : a.journal = []) : b.journal = l := by
  rw [h.journal, ha, List.nil_append]

/-- A change of anything but marks, cycle number and journal leaves no trace. -/
theorem silent (hj : b.journal = a.journal) (hu : b.rotation.SameUse a.rotation) :
    p.Trace a b [] :=
  ⟨by rw [hj, List.append_nil], hu, trivial⟩

theorem trans (h : p.Trace a b l) (h' : p.Trace b c m) : p.Trace a c (l ++ m) where
  journal := by rw [h'.journal, h.journal, List.append_assoc]
  use := by
    rw [replay_append]
    exact h'.use.trans (h.use.replay m)
  lawful := h.lawful.append (Lawful.congr h.use.symm h'.lawful)

/-- An event that leaves the marks alone, given what happens next. -/
theorem note (he : ∀ t, e.act t = t) (hallow : p.Allows a.rotation e l)
    (h : p.Trace (a.note e) b l) : p.Trace a b (e :: l) where
  journal := by
    rw [h.journal, Progress.note_journal, List.append_assoc]
    rfl
  use := by
    rw [replay_cons, he]
    exact h.use
  lawful := ⟨hallow, by rw [he]; exact h.lawful⟩

end Trace

end Pool

/-- An event that is neither a taking nor a reset, nor one that asks for a reset. -/
def Event.isRemark : Event → Bool
  | .recipeTaken .. | .cycleReset .. | .slotReached .. | .sideSought .. => false
  | _ => true

namespace Pool

variable {p : Pool} {a b : Progress} {e : Event} {l : List Event}

/-- A remark may be made at any moment. -/
theorem allows_of_isRemark (he : e.isRemark = true) (t : Rotation) (l : List Event) :
    p.Allows t e l ∧ e.act t = t := by
  cases e <;> first | exact ⟨trivial, rfl⟩ | simp [Event.isRemark] at he

theorem takings_of_isRemark (he : e.isRemark = true) : takings [e] = [] := by
  cases e <;> first | rfl | simp [Event.isRemark] at he

theorem Trace.remark (he : e.isRemark = true) : p.Trace a (a.note e) [e] :=
  Trace.note (fun t => (allows_of_isRemark (p := p) he t []).2)
    (allows_of_isRemark he a.rotation []).1 (Trace.refl p _)

/-- Remarks may be made outside of slots. -/
theorem paced_of_remarks {es : List Event} (h : ∀ e ∈ es, e.isRemark = true) :
    Paced none es := by
  induction es with
  | nil => exact trivial
  | cons e l ih =>
      have he := h e List.mem_cons_self
      have hrest := ih fun x hx => h x (List.mem_cons_of_mem _ hx)
      refine ⟨fun x hx => ?_, hrest.of_none _⟩
      rw [takings_of_isRemark he] at hx
      exact absurd hx List.not_mem_nil

/-- Remarks may be made at any moment, and take nothing. -/
theorem Trace.remarks {es : List Event} (h : ∀ e ∈ es, e.isRemark = true) (a : Progress) :
    p.Trace a { a with journal := a.journal ++ es } es ∧ takings es = [] := by
  induction es generalizing a with
  | nil =>
      refine ⟨?_, rfl⟩
      rw [List.append_nil]
      exact Trace.refl p a
  | cons e l ih =>
      have he := h e List.mem_cons_self
      obtain ⟨hrest, htakings⟩ := ih (fun x hx => h x (List.mem_cons_of_mem _ hx)) (a.note e)
      have hassoc : { a.note e with journal := (a.note e).journal ++ l } =
          { a with journal := a.journal ++ e :: l } := by
        simp [Progress.note]
      rw [hassoc] at hrest
      refine ⟨(Trace.remark he).trans hrest, ?_⟩
      change takings ([e] ++ l) = []
      rw [takings_append, htakings, takings_of_isRemark he]
      rfl

end Pool

end MealRota
