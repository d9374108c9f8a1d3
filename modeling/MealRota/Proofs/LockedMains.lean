import MealRota.Proofs.SlotResets

/-!
# MealRota.Proofs.LockedMains

When a week serves a locked main course.  Locks hold until the main courses begin
a new cycle, which they do only while a main course slot is being filled; so a
locked main course comes after such a reset, and a week without one has none.

* `Event.During` — what can happen while a slot of a course is being filled;
* `SlotHoldsLocks`, `Kitchen.fillSlot_holdsLocks` — one slot;
* `HoldsLocks` — what filling slots preserves of the events of a week so far;
* `Kitchen.locked_mains_of_planWeek` — the main courses of a whole week.
-/

namespace MealRota

open Progress

variable {c d : Course} {e : Event} {l m events : List Event} {id : String}

/-! ## the first cycle of a stretch -/

/-- The first cycle of two stretches goes on into the second if the first has no reset. -/
theorem firstCycleOf_append (c : Course) (l m : List Event) :
    firstCycleOf c (l ++ m) =
      firstCycleOf c l ++ if resetsOf c l = 0 then firstCycleOf c m else [] := by
  induction l with
  | nil => rfl
  | cons e l ih =>
      unfold firstCycleOf at ih ⊢
      rw [List.cons_append, resetsOf_cons]
      cases h : e.resets c with
      | true =>
          rw [cyclesOf_cons_of_resets h, cyclesOf_cons_of_resets h, if_pos rfl,
            if_neg (Nat.succ_ne_zero _)]
          rfl
      | false =>
          obtain ⟨first, rest, hl, hcons⟩ := cyclesOf_cons (l := l) h
          obtain ⟨first', rest', hl', hcons'⟩ := cyclesOf_cons (l := l ++ m) h
          rw [hl, hl', List.headD_cons, List.headD_cons] at ih
          rw [hcons, hcons', List.headD_cons, List.headD_cons, ih, if_neg Bool.false_ne_true,
            Nat.add_zero, List.append_assoc]

/-- What is taken in the first cycle is taken. -/
theorem mem_takenOf_of_mem_firstCycleOf (h : id ∈ firstCycleOf c events) :
    id ∈ takenOf c events := by
  rw [← flatten_cyclesOf]
  unfold firstCycleOf at h
  cases hcycles : cyclesOf c events with
  | nil =>
      rw [hcycles] at h
      exact absurd h List.not_mem_nil
  | cons first rest =>
      rw [hcycles] at h
      exact List.mem_append_left _ h

/-- Before something is taken that the first cycle does not have, there is a reset. -/
theorem exists_reset_of_not_mem_firstCycleOf
    (h : id ∉ firstCycleOf c (l ++ .recipeTaken c id :: m)) :
    ∃ earlier reset later, l = earlier ++ reset :: later ∧ reset.resets c = true := by
  have hresets : resetsOf c l ≠ 0 := by
    intro hnone
    apply h
    have hfirst := firstCycleOf_append c [.recipeTaken c id] m
    have htaken : firstCycleOf c [.recipeTaken c id] = [id] := by
      simp [firstCycleOf, cyclesOf, Event.resets, takenOf, takings, Event.taking?,
        List.splitOnP_cons_eq_if_modifyHead]
    rw [firstCycleOf_append, if_pos hnone, ← List.singleton_append, hfirst, htaken]
    exact List.mem_append_right _ List.mem_cons_self
  obtain ⟨reset, hmem, hreset⟩ := List.countP_pos_iff.mp (Nat.pos_of_ne_zero hresets)
  obtain ⟨earlier, later, hl⟩ := List.append_of_mem hmem
  exact ⟨earlier, reset, later, hl, hreset⟩

/-- Each recipe that was taken for a course was taken by an event, after those that come before it
in order. -/
theorem exists_recipeTaken {i : Nat} (h : (takenOf c events)[i]? = some id) :
    ∃ before after, events = before ++ .recipeTaken c id :: after ∧
      takenOf c before = (takenOf c events).take i := by
  induction events generalizing i with
  | nil => simp at h
  | cons e l ih =>
      rw [← List.singleton_append, takenOf_append] at h ⊢
      rcases takenOf_cases c e with hnone | ⟨x, rfl, hone⟩
      · rw [hnone, List.nil_append] at h ⊢
        obtain ⟨before, after, rfl, hbefore⟩ := ih h
        refine ⟨e :: before, after, rfl, ?_⟩
        rw [← List.singleton_append, takenOf_append, hnone, List.nil_append, hbefore]
      · rw [hone, List.singleton_append] at h ⊢
        cases i with
        | zero =>
            have hx : x = id := Option.some.inj h
            subst hx
            exact ⟨[], l, rfl, rfl⟩
        | succ i =>
            obtain ⟨before, after, rfl, hbefore⟩ := ih (i := i) (by simpa using h)
            refine ⟨.recipeTaken c x :: before, after, rfl, ?_⟩
            rw [← List.singleton_append, takenOf_append, hone, hbefore]
            rfl

/-! ## the slot at hand -/

/-- The slot that an event is the beginning of. -/
def Event.slot? : Event → Option (Date × Course)
  | .slotReached c day => some (day, c)
  | _ => none

/-- The slot that was reached last. -/
def lastSlot? (events : List Event) : Option (Date × Course) :=
  (events.filterMap Event.slot?).getLast?

/-- Whether an event can happen while a slot of a course is being filled: it begins no other slot,
and a new cycle only for the course itself and for the side dishes that go with main courses. -/
def Event.During (c : Course) : Event → Prop
  | .cycleReset d _ _ _ => d = c ∨ d = .side
  | .slotReached .. => False
  | _ => True

theorem Event.During.slot?_eq_none (h : e.During c) : e.slot? = none := by
  cases e <;> first | rfl | exact absurd h id

/-- Within one slot, the slot reached last is that one. -/
theorem lastSlot?_append_cons {day : Date} (hl : ∀ e ∈ l, e.During c) :
    lastSlot? (events ++ .slotReached c day :: l) = some (day, c) := by
  have hnone : l.filterMap Event.slot? = [] :=
    List.filterMap_eq_nil_iff.mpr fun e he => (hl e he).slot?_eq_none
  unfold lastSlot?
  rw [List.filterMap_append, List.filterMap_cons, hnone]
  exact List.getLast?_concat

/-- A slot of another course begins no new cycle of the main courses. -/
theorem resetsOf_main_of_during (hl : ∀ e ∈ l, e.During c) (hc : c ≠ .main) :
    resetsOf .main l = 0 := by
  rw [resetsOf, List.countP_eq_zero]
  intro e he hreset
  have hduring := hl e he
  cases e with
  | cycleReset d old new size =>
      have hd : Course.main = d := of_decide_eq_true hreset
      subst hd
      rcases hduring with hsame | hside
      · exact hc hsame.symm
      · contradiction
  | _ => contradiction

/-- A stretch of a run that goes by events of one slot. -/
def Progress.Passes (c : Course) (p q : Progress) : Prop :=
  ∃ events, q.journal = p.journal ++ events ∧ ∀ e ∈ events, e.During c

namespace Progress.Passes

variable {p q s : Progress}

theorem refl (c : Course) (p : Progress) : p.Passes c p :=
  ⟨[], (List.append_nil _).symm, fun _ he => absurd he List.not_mem_nil⟩

theorem trans (h : p.Passes c q) (h' : q.Passes c s) : p.Passes c s := by
  obtain ⟨l, hl, hduring⟩ := h
  obtain ⟨m, hm, hduring'⟩ := h'
  refine ⟨l ++ m, by rw [hm, hl, List.append_assoc], fun e he => ?_⟩
  exact (List.mem_append.mp he).elim (hduring e) (hduring' e)

theorem note (h : e.During c) (p : Progress) : p.Passes c (p.note e) :=
  ⟨[e], rfl, fun _ he => List.mem_singleton.mp he ▸ h⟩

/-- Taking a recipe is one event. -/
theorem taking (c : Course) (p : Progress) (r : Recipe) : p.Passes c (p.taking r) :=
  ⟨[.recipeTaken r.course r.id], rfl, fun _ he => List.mem_singleton.mp he ▸ trivial⟩

/-- So is a new cycle of the slot's course or of the side dishes. -/
theorem renewed (h : d = c ∨ d = .side) (p : Progress) (candidates : List Recipe) :
    p.Passes c (p.renewed d candidates) := by
  unfold Progress.renewed
  split
  · exact ⟨[.cycleReset d p.rotation.cycle (p.rotation.cycle + 1) candidates.length], rfl,
      fun _ he => List.mem_singleton.mp he ▸ h⟩
  · exact refl c p

/-- The events of such a stretch can happen while the slot is being filled. -/
theorem during (h : p.Passes c q) (hjournal : q.journal = p.journal ++ events) :
    ∀ e ∈ events, e.During c := by
  obtain ⟨l, hl, hduring⟩ := h
  have hsame : events = l := List.append_cancel_left (hjournal.symm.trans hl)
  rw [hsame]
  exact hduring

end Progress.Passes

namespace Kitchen

variable {k : Kitchen} {slot : SlotContext} {p q : Progress} {main r : Recipe}
  {excluded : List String} {x : Float}

theorem Pairs.passes {result : Except PlanError (Option Recipe)}
    (h : k.Pairs slot main x p result q) (c : Course) : p.Passes c q := by
  have hsought : p.Passes c (p.note (.sideSought main.id slot.date)) :=
    .note (e := .sideSought _ _) trivial p
  have hmoment : p.Passes c (k.sideMoment slot main p) :=
    hsought.trans (.renewed (Or.inr rfl) _ _)
  cases h with
  | unsuited hnil => exact hsought
  | unscored source hne => exact hmoment
  | unfit source hne hall => exact hmoment.trans (.note (e := .noSideFits _ _) trivial _)
  | paired source side hside hpass => exact hmoment.trans (.taking c _ side)

theorem Assigns.passes {reset : Bool} {result : Except PlanError Choice}
    (h : k.Assigns slot r reset p result q) (c : Course) : p.Passes c q := by
  have htaking : p.Passes c (p.taking r) := .taking c p r
  cases h with
  | unscored hx => exact htaking
  | alone y hy hside => exact htaking
  | accompanied y hy hside result q hpair => exact htaking.trans (hpair.passes c)

/-- Filling a slot from the pool goes by events of that slot. -/
theorem Selects.passes {result : Except PlanError (Option Choice)}
    (h : k.Selects c slot excluded p result q) : p.Passes c q := by
  have hmoment : p.Passes c (k.slotMoment c excluded p) := .renewed (Or.inl rfl) _ _
  cases h with
  | insufficient hnil hreq => exact .refl c p
  | skipped hnil hreq => exact .refl c p
  | unscored source r hr herr => exact hmoment
  | failed source rejections hne hreq hall hrej => exact hmoment
  | leftEmpty source rejections hne hreq hall hrej =>
      exact hmoment.trans (.note (e := .slotLeftEmpty _ _ _) trivial _)
  | filled source r hr hpass result q hassign => exact hmoment.trans (hassign.passes c)

/-- A slot that is left empty takes nothing. -/
theorem Selects.mainsTrace_of_none (h : k.Selects c slot excluded p (.ok none) q) :
    ∃ events, MainsTrace p q events ∧ takings events = [] := by
  generalize hres : (Except.ok none : Except PlanError (Option Choice)) = result at h
  cases h with
  | skipped hnil hreq => exact ⟨[], (Pool.Trace.refl k.pool p).mainsTrace, rfl⟩
  | leftEmpty source rejections hne hreq hall hrej =>
      obtain ⟨events, htrace, hnone⟩ := MainsTrace.renewed p c (k.candidates c excluded)
      have hremark := ((Pool.Trace.drawn k.pool (k.slotMoment c excluded p) source).trans
        (Pool.Trace.remark (e := .slotLeftEmpty c slot.date rejections) rfl)).mainsTrace
      refine ⟨_, htrace.trans hremark, ?_⟩
      rw [takings_append, hnone]
      rfl
  | filled source r hr hpass result q hassign => cases result <;> simp [Except.map] at hres
  | _ => contradiction

/-- Finding what a main course slot leaves out takes nothing; unless the main courses begin a new
cycle for it, it leaves the locks as they are. -/
theorem Excludes.mainsTrace {draft : WeekDraft} {locked : List String}
    (h : k.Excludes draft p (excluded, locked) q) :
    ∃ events, MainsTrace p q events ∧ takings events = [] ∧ (∀ e ∈ events, e.During .main) ∧
      (resetsOf .main events = 0 → locked = draft.locked) := by
  have hnone : ∀ e ∈ ([] : List Event), e.During .main := fun e he => absurd he List.not_mem_nil
  cases h with
  | fresh id hid hl hm =>
      exact ⟨[], (Pool.Trace.refl k.pool p).mainsTrace, rfl, hnone, fun _ => rfl⟩
  | repeating hall hrep =>
      exact ⟨[], (Pool.Trace.refl k.pool p).mainsTrace, rfl, hnone, fun _ => rfl⟩
  | lapsed hall hl hlt =>
      refine ⟨[.cycleReset .main p.rotation.cycle (p.rotation.cycle + 1) (k.pool.count .main)],
        ⟨rfl, Rotation.SameUse.refl _, ⟨fun id hid => absurd hid List.not_mem_nil, trivial⟩⟩, rfl,
        fun e he => ?_, fun hno => ?_⟩
      · rw [List.mem_singleton.mp he]
        exact Or.inl rfl
      · simp [resetsOf, Event.resets] at hno

/-- A choice for which the course began no new cycle says so. -/
theorem Selects.cycleReset_eq_false {choice : Choice}
    (h : k.Selects c slot excluded p (.ok (some choice)) q)
    (hjournal : q.journal = p.journal ++ events) (hresets : resetsOf c events = 0) :
    choice.cycleReset = false := by
  have hcount := h.resetsOf_eq
  rw [hjournal, resetsOf_append, hresets] at hcount
  rw [h.of_some.2.2.1, decide_eq_false_iff_not]
  intro hall
  rw [if_pos hall] at hcount
  omega

/-- A choice that is entered adds to the main courses what was taken of them. -/
theorem mainIdsOf_addChoice {draft draft' : WeekDraft} {choice : Choice}
    (h : k.addChoice draft c slot choice = .ok draft')
    (htakings : takings events = choice.takings c) :
    mainIdsOf draft'.assignments = mainIdsOf draft.assignments ++ takenOf .main events := by
  obtain ⟨a, _, hcourse, hrecipe, _, hassign, -, -⟩ := addChoice_ok h
  rw [hassign, mainIdsOf_append, takenOf_main_of_choice htakings]
  by_cases hc : c = .main <;> simp [mainIdsOf, hcourse, hrecipe, hc]

end Kitchen

/-! ## one slot -/

/-- What the events of one slot tell of the main courses and the locks: they add to the main
courses what they take, none of it marked; and until the main courses begin a new cycle the locks
stay and nothing locked is taken. -/
structure SlotHoldsLocks (c : Course) (day : Date) (draft draft' : WeekDraft) (p q : Progress)
    (events : List Event) : Prop where
  trace : MainsTrace p q (.slotReached c day :: events)
  during : ∀ e ∈ events, e.During c
  taken : mainIdsOf draft'.assignments = mainIdsOf draft.assignments ++ takenOf .main events
  kept : resetsOf .main events = 0 → draft'.locked = draft.locked
  free : ∀ id ∈ firstCycleOf .main events, id ∉ draft.locked

namespace Kitchen

variable {k : Kitchen} {p q : Progress} {draft draft' : WeekDraft} {day : Date}

theorem mainsTrace_slotReached (c : Course) (day : Date) (p : Progress) :
    MainsTrace p (p.note (.slotReached c day)) [.slotReached c day] :=
  ⟨rfl, Rotation.SameUse.refl _, fun _ hid => absurd hid List.not_mem_nil, trivial⟩

/-- A slot of another course has nothing to do with the main courses. -/
theorem optional_holdsLocks {slot : SlotContext} {result : Except PlanError (Option Choice)}
    (hc : c ≠ .main)
    (hselects : k.Selects c slot [] (p.note (.slotReached c day)) result q)
    (h : result.bind (k.entered draft c slot) = .ok draft') :
    ∃ events, SlotHoldsLocks c day draft draft' p q events := by
  have hfree : ∀ {events : List Event}, takenOf .main events = [] →
      ∀ id ∈ firstCycleOf .main events, id ∉ draft.locked := by
    intro events hnone id hid
    have hin := mem_takenOf_of_mem_firstCycleOf hid
    rw [hnone] at hin
    exact absurd hin List.not_mem_nil
  cases result with
  | error e => contradiction
  | ok chosen =>
      cases chosen with
      | none =>
          obtain ⟨events, htrace, hnone⟩ := hselects.mainsTrace_of_none
          obtain rfl : draft = draft' := Except.ok.inj h
          have htaken : takenOf .main events = [] := by rw [takenOf, hnone]; rfl
          refine ⟨events, (mainsTrace_slotReached c day p).trans htrace,
            hselects.passes.during htrace.journal, ?_, fun _ => rfl, hfree htaken⟩
          rw [htaken, List.append_nil]
      | some choice =>
          obtain ⟨events, htrace, htakings⟩ := hselects.mainsTrace
          have htaken := takenOf_main_of_choice htakings
          rw [if_neg hc] at htaken
          obtain ⟨-, -, -, -, -, -, -, hlocked⟩ := addChoice_ok h
          refine ⟨events, (mainsTrace_slotReached c day p).trans htrace,
            hselects.passes.during htrace.journal, mainIdsOf_addChoice h htakings, fun _ => ?_,
            hfree htaken⟩
          rw [hlocked, if_neg fun hboth => hc hboth.1]

/-- A main course slot takes no locked main course, unless the main courses begin a new cycle for
it. -/
theorem main_holdsLocks {slot : SlotContext} {excluded locked : List String} {m : Progress}
    {choice : Choice}
    (hex : k.Excludes draft (p.note (.slotReached .main day)) (excluded, locked) m)
    (hselects : k.Selects .main slot excluded m (.ok (some choice)) q)
    (h : k.addChoice { draft with locked } .main slot choice = .ok draft') :
    ∃ events, SlotHoldsLocks .main day draft draft' p q events := by
  obtain ⟨before, hbefore, hnone, hduring, hlocks⟩ := hex.mainsTrace
  obtain ⟨events, htrace, htakings⟩ := hselects.mainsTrace
  obtain ⟨-, -, -, -, -, -, -, hlocked⟩ := addChoice_ok h
  have hbeforeTaken : takenOf .main before = [] := by rw [takenOf, hnone]; rfl
  have htaken := takenOf_main_of_choice htakings
  rw [if_pos rfl] at htaken
  refine ⟨before ++ events, (mainsTrace_slotReached .main day p).trans (hbefore.trans htrace),
    fun e he => (List.mem_append.mp he).elim (hduring e)
      (hselects.passes.during htrace.journal e), ?_, fun hresets => ?_, fun id hid => ?_⟩
  · have hids := mainIdsOf_addChoice h htakings
    rw [takenOf_append, hbeforeTaken, List.nil_append]
    exact hids
  · rw [resetsOf_append, Nat.add_eq_zero_iff] at hresets
    have hnot := hselects.cycleReset_eq_false htrace.journal hresets.2
    rw [hlocked, hnot, if_neg fun hboth => Bool.false_ne_true hboth.2]
    exact hlocks hresets.1
  · -- what is taken before a reset is the choice, and the locks are still those of the draft
    have hin := mem_takenOf_of_mem_firstCycleOf hid
    rw [takenOf_append, hbeforeTaken, htaken, List.nil_append, List.mem_singleton] at hin
    subst hin
    have hresets : resetsOf .main before = 0 := by
      by_contra hno
      rw [firstCycleOf_append, if_neg hno, List.append_nil] at hid
      have hearly := mem_takenOf_of_mem_firstCycleOf hid
      rw [hbeforeTaken] at hearly
      exact absurd hearly List.not_mem_nil
    rw [← hlocks hresets]
    exact hex.not_mem_locked hselects.of_some.1

/-- Filling a slot of a week. -/
theorem fillSlot_holdsLocks (h : Planning.run (k.fillSlot draft (day, c)) p = (.ok draft', q)) :
    ∃ events, SlotHoldsLocks c day draft draft' p q events := by
  obtain ⟨excluded, locked, m, result, q', hready, hselects, hrun⟩ := k.run_fillSlot draft day c p
  rw [hrun] at h
  obtain ⟨hresult, rfl⟩ := Prod.mk.inj h
  cases hready with
  | optional hc => exact optional_holdsLocks hc hselects hresult
  | main hc out m hex =>
      subst hc
      cases result with
      | error e => contradiction
      | ok chosen =>
          cases chosen with
          | none => exact absurd hselects.optional_of_none (by decide)
          | some choice => exact main_holdsLocks hex hselects hresult

end Kitchen

/-! ## a whole week -/

/-- The main courses begin a new cycle only while a slot of theirs is being filled. -/
def MainResetsPlaced (events : List Event) : Prop :=
  ∀ earlier e later, events = earlier ++ e :: later → e.resets .main = true →
    ∃ day, lastSlot? earlier = some (day, .main)

/-- The events of one more slot keep this. -/
theorem MainResetsPlaced.append_slot {day : Date} (h : MainResetsPlaced events)
    (hl : ∀ e ∈ l, e.During c) : MainResetsPlaced (events ++ .slotReached c day :: l) := by
  intro earlier e later hsplit hreset
  rcases List.append_eq_append_iff.mp hsplit with ⟨rest, hearlier, hrest⟩ | ⟨rest, hevents, hrest⟩
  · cases rest with
    | nil =>
        rw [← (List.cons_eq_cons.mp hrest).1] at hreset
        contradiction
    | cons first rest =>
        -- the reset is within the slot, which therefore is one for a main course
        obtain ⟨rfl, hsplit'⟩ : first = .slotReached c day ∧ l = rest ++ e :: later :=
          ⟨(List.cons_eq_cons.mp hrest).1.symm, (List.cons_eq_cons.mp hrest).2⟩
        have hc : c = .main := by
          by_contra hc
          have hnone := resetsOf_main_of_during hl hc
          rw [hsplit', resetsOf_append, resetsOf_cons, if_pos hreset] at hnone
          omega
        subst hc
        refine ⟨day, ?_⟩
        rw [hearlier]
        refine lastSlot?_append_cons fun e' he' => hl e' ?_
        rw [hsplit']
        exact List.mem_append_left _ he'
  · cases rest with
    | nil =>
        rw [(List.cons_eq_cons.mp hrest).1] at hreset
        contradiction
    | cons first rest =>
        obtain ⟨rfl, -⟩ := List.cons_eq_cons.mp hrest
        exact h earlier e rest hevents hreset

/-- What the events of a week so far tell of its locks: they take its main courses, in order and
none of them marked; the main courses begin a new cycle only in slots of their own; and until
then the locks are those at the beginning and nothing locked is taken. -/
structure HoldsLocks (locked : List String) (p : Progress) (d : WeekDraft) (m : Progress)
    (events : List Event) : Prop where
  trace : MainsTrace p m events
  taken : takenOf .main events = mainIdsOf d.assignments
  placed : MainResetsPlaced events
  kept : resetsOf .main events = 0 → d.locked = locked
  free : ∀ id ∈ firstCycleOf .main events, id ∉ locked

namespace HoldsLocks

variable {locked : List String} {d d' : WeekDraft} {p q m : Progress} {k : Kitchen}

theorem empty (locked : List String) (p : Progress) :
    HoldsLocks locked p ⟨[], [], locked⟩ p [] where
  trace := ⟨(List.append_nil _).symm, Rotation.SameUse.refl _, trivial⟩
  taken := rfl
  placed := fun earlier e later hsplit => by simp at hsplit
  kept := fun _ => rfl
  free := fun id hid => absurd hid List.not_mem_nil

/-- Filling one more slot keeps it. -/
theorem fillSlot (h : HoldsLocks locked p d m events) {day : Date}
    (hrun : Planning.run (k.fillSlot d (day, c)) m = (.ok d', q)) :
    ∃ events', HoldsLocks locked p d' q events' := by
  obtain ⟨l, htrace, hduring, hids, hlocked, hfree⟩ := k.fillSlot_holdsLocks hrun
  have hreached : resetsOf .main (.slotReached c day :: l) = resetsOf .main l := resetsOf_cons
  refine ⟨events ++ .slotReached c day :: l, h.trace.trans htrace, ?_,
    h.placed.append_slot hduring, fun hno => ?_, fun id hid => ?_⟩
  · rw [takenOf_append, h.taken, hids]
    rfl
  · rw [resetsOf_append, hreached, Nat.add_eq_zero_iff] at hno
    rw [hlocked hno.2, h.kept hno.1]
  · rw [firstCycleOf_append] at hid
    rcases List.mem_append.mp hid with hid | hid
    · exact h.free id hid
    · split at hid
      · next hno =>
          rw [← List.singleton_append, firstCycleOf_append] at hid
          rw [← h.kept hno]
          exact hfree id hid
      · exact absurd hid List.not_mem_nil

/-- A locked main course that was taken comes after a reset, in a main course slot. -/
theorem exists_reset (h : HoldsLocks locked p d m events) {i : Nat}
    (hid : (mainIdsOf d.assignments)[i]? = some id) (hlocked : id ∈ locked) :
    ∃ earlier reset later after day,
      events = earlier ++ reset :: later ++ .recipeTaken .main id :: after ∧
      reset.resets .main = true ∧ lastSlot? earlier = some (day, .main) ∧
      takenOf .main (earlier ++ reset :: later) = (mainIdsOf d.assignments).take i := by
  rw [← h.taken] at hid ⊢
  obtain ⟨before, after, hevents, hbefore⟩ := exists_recipeTaken hid
  have hlate : id ∉ firstCycleOf .main (before ++ .recipeTaken .main id :: after) := by
    rw [← hevents]
    exact fun hin => h.free id hin hlocked
  obtain ⟨earlier, reset, later, rfl, hreset⟩ := exists_reset_of_not_mem_firstCycleOf hlate
  obtain ⟨day, hday⟩ := h.placed earlier reset (later ++ .recipeTaken .main id :: after)
    (by rw [hevents]; simp) hreset
  exact ⟨earlier, reset, later, after, day, hevents, hreset, hday, hbefore⟩

end HoldsLocks

namespace Kitchen

variable {k : Kitchen} {p q : Progress} {draft : WeekDraft} {locked : List String}

/-- The slots of a week, filled one after the other. -/
theorem holdsLocks_of_run {slots : List (Date × Course)}
    (h : Planning.run (slots.foldlM k.fillSlot ⟨[], [], locked⟩) p = (.ok draft, q)) :
    ∃ events, HoldsLocks locked p draft q events :=
  Planning.run_foldlM_ok (fun _ d m => ∃ events, HoldsLocks locked p d m events)
    (fun _ _ _ _ _ _ _ _ hd hrun => hd.elim fun _ h => h.fillSlot hrun)
    ⟨[], HoldsLocks.empty locked p⟩ h

/-- Whatever is locked and whatever was used before, the events of a planned week take its main
courses in order; before a locked one is taken the main courses began a new cycle, in the slot
of that main course or in an earlier one of theirs; and if they began none, the week has seven
different main courses, none of them locked and none of them marked before. -/
theorem locked_mains_of_planWeek {start : Date} {status : WeekStatus} {week : Week}
    (h : Planning.run (k.planWeek start locked status) p = (.ok week, q)) :
    ∃ events, q.journal = p.journal ++ events ∧ takenOf .main events = week.mainIds ∧
      (∀ i id, week.mainIds[i]? = some id → id ∈ locked →
        ∃ earlier reset later after day,
          events = earlier ++ reset :: later ++ .recipeTaken .main id :: after ∧
          reset.resets .main = true ∧ lastSlot? earlier = some (day, .main) ∧
          takenOf .main (earlier ++ reset :: later) = week.mainIds.take i) ∧
      (resetsOf .main events = 0 → week.mainIds.length = 7 ∧ week.mainIds.Nodup ∧
        ∀ id ∈ week.mainIds, id ∉ locked ∧ p.rotation.isUsed .main id = false) := by
  have hweek := k.plansWeek_planWeek start locked status p
  rw [h] at hweek
  cases hweek with
  | planned days hm hd draft q hslots hcheck =>
      obtain ⟨events, hlocks⟩ := holdsLocks_of_run hslots
      have hplanned : resetsOf .main [.weekPlanned start draft.assignments.length
        q.rotation.cycle] = 0 := rfl
      refine ⟨events ++ [.weekPlanned start draft.assignments.length q.rotation.cycle], ?_, ?_,
        fun i id hid hlocked => ?_, fun hno => ?_⟩
      · change q.journal ++ _ = _
        rw [hlocks.trace.journal, List.append_assoc]
      · rw [takenOf_append, hlocks.taken]
        exact List.append_nil _
      · obtain ⟨earlier, reset, later, after, day, hevents, hrest⟩ :=
          hlocks.exists_reset hid hlocked
        refine ⟨earlier, reset, later,
          after ++ [.weekPlanned start draft.assignments.length q.rotation.cycle], day, ?_, hrest⟩
        rw [hevents, List.append_assoc, List.cons_append]
      · rw [resetsOf_append, hplanned, Nat.add_zero] at hno
        obtain ⟨hnodup, hfree⟩ := hlocks.trace.free.nodup hno
        rw [hlocks.taken] at hnodup hfree
        refine ⟨?_, hnodup, fun id hid => ⟨fun hlocked => ?_, hfree id hid⟩⟩
        · exact (orderly_of_run hslots).2.trans (length_of_weekDates? hd)
        · obtain ⟨i, hi⟩ := List.mem_iff_getElem?.mp hid
          obtain ⟨earlier, reset, later, after, day, hevents, hreset, -⟩ :=
            hlocks.exists_reset hi hlocked
          rw [hevents, resetsOf_append, resetsOf_append, resetsOf_cons, if_pos hreset] at hno
          omega

/-- With one of three main courses locked, a week has the two others first; the locked one comes
third, the main courses having begun a new cycle. -/
theorem locked_main_of_planWeek_three :
    let k := ofMains ["a", "b", "c"]
    let p : Progress := ⟨Rotation.fresh.mark .main "a", none, []⟩
    ∃ week q, Planning.run (k.planWeek Date.first ["a", "x"] .active) p = (.ok week, q) ∧
      week.mainIds = ["b", "c", "a", "b", "c", "a", "b"] ∧
      ∃ earlier reset later after day,
        q.journal = earlier ++ reset :: later ++ .recipeTaken .main "a" :: after ∧
        reset.resets .main = true ∧ lastSlot? earlier = some (day, .main) ∧
        takenOf .main (earlier ++ reset :: later) = ["b", "c"] := by
  intro k p
  have hids : (Planning.run (k.planWeek Date.first ["a", "x"] .active) p).1.toOption.map
      Week.mainIds = some ["b", "c", "a", "b", "c", "a", "b"] := by decide +kernel
  have hok : (Planning.run (k.planWeek Date.first ["a", "x"] .active) p).1.toOption.isSome =
      true := by
    rw [← Option.isSome_map, hids]
    rfl
  obtain ⟨week, q, hrun⟩ := Planning.exists_run_of_isSome hok
  rw [hrun] at hids
  have hmains := Option.some.inj hids
  obtain ⟨events, hjournal, -, hlocked, -⟩ := locked_mains_of_planWeek hrun
  obtain ⟨earlier, reset, later, after, day, hevents, hreset, hday, htaken⟩ :=
    hlocked 2 "a" (by rw [hmains]; rfl) List.mem_cons_self
  refine ⟨week, q, hrun, hmains, earlier, reset, later, after, day, ?_, hreset, hday, ?_⟩
  · rw [hjournal, hevents]
    rfl
  · rw [htaken, hmains]
    rfl

end Kitchen

end MealRota
