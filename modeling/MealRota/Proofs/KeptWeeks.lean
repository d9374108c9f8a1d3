import MealRota.Proofs.CurrentCycle
import MealRota.Proofs.PlannedWeeks
import MealRota.Proofs.Relabelling

/-!
# MealRota.Proofs.KeptWeeks

Weeks of a generated plan planned anew while the others are kept.  What the kept
weeks took since the last reset of the main courses stays theirs until the next:
it is not taken again before, and it counts as used after.

* `Plan.currentOutside` — what the kept weeks took since the last reset;
* `Plan.Continues` — what becomes of a plan and of its used main courses;
* `Request.continues_of_generate` — for every generated plan.
-/

namespace MealRota

/-- The main courses that the weeks other than some took since the last reset of the main courses,
given the journal of the run that filled all slots in their order. -/
def Plan.currentOutside (plan : Plan) (journal : List Event) (targets : List Nat) : List String :=
  ((plan.currentSlots journal).filter fun x => !targets.contains x.2).map (·.1)

/-- The main courses that counted as used before a run and were never reset in it. -/
def usedBefore (before : Rotation) (journal : List Event) : List String :=
  if resetsOf .main journal = 0 then (before.usedIds .main).toList else []

theorem mem_usedBefore {before : Rotation} {journal : List Event} {id : String} :
    id ∈ usedBefore before journal ↔
      resetsOf .main journal = 0 ∧ before.isUsed .main id = true := by
  unfold usedBefore
  split <;> simp [*, Rotation.isUsed_iff_mem, TextSet.mem_def]

theorem nodup_usedBefore (before : Rotation) (journal : List Event) :
    (usedBefore before journal).Nodup := by
  unfold usedBefore
  split
  · exact TextSet.nodup_toList _
  · exact List.nodup_nil

/-- What becomes of a plan, generated from the state `before` with a journal, when weeks of it are
planned anew in a run with another journal. -/
structure Plan.Continues (plan plan' : Plan) (targets : List Nat) (before : Rotation)
    (journal journal' : List Event) : Prop where
  length : plan'.weeks.length = plan.weeks.length
  /-- The other weeks are as they were. -/
  untouched : ∀ i, i ∉ targets → plan'.weeks[i]? = plan.weeks[i]?
  /-- The weeks planned anew begin and end as they did, and keep their status. -/
  kept : ∀ i ∈ targets, ∀ old, plan.weeks[i]? = some old → ∃ new, plan'.weeks[i]? = some new ∧
    new.start = old.start ∧ new.finish = old.finish ∧ new.status = old.status
  /-- What the run takes for main courses is placed in the weeks planned anew. -/
  placed : takenOf .main journal' = targets.flatMap (mainsAt plan'.weeks)
  /-- Before the first reset nothing is placed that the other weeks took in the current cycle. -/
  first : ∀ id ∈ firstCycleOf .main journal', id ∉ plan.currentOutside journal targets
  /-- Without a reset, what counts as used is what the other weeks took in the current cycle, what
  is placed in the weeks planned anew and, if the generation had no reset either, what was used
  before it; all of these are distinct. -/
  same : resetsOf .main journal' = 0 →
    let used := plan.currentOutside journal targets ++ targets.flatMap (mainsAt plan'.weeks) ++
      usedBefore before journal
    used.Nodup ∧ ∀ id, id ∈ plan'.rotation.usedIds .main ↔ id ∈ used
  /-- With a reset, what counts as used is what was placed since the last one. -/
  anew : resetsOf .main journal' ≠ 0 →
    ∀ id, id ∈ plan'.rotation.usedIds .main ↔ id ∈ lastCycleOf .main journal'

namespace Request

variable {q q' : Request} {given : Option Rotation} {weekCount : Option Int}
  {start : Except PlanError Date} {plan plan' : Plan} {targets : List Nat} {t : Rotation}

/-- The weeks of a generated plan end on the last of their days. -/
theorem dated_of_generate (h : (q.generate given weekCount start).result = .ok plan) {w : Week}
    (hw : w ∈ plan.weeks) : w.Dated := by
  obtain ⟨m, m', -, -, -, hturn, -⟩ := weeks_of_generate h
  obtain ⟨_, _, hplans⟩ := hturn.of_mem hw
  exact hplans.dated

section

variable (h : (q.generate given weekCount start).result = .ok plan)

include h

/-- What weeks of a generated plan give back are the main courses that they took since the last
reset. -/
theorem mem_releasedMains {id : String} :
    id ∈ releasedMains plan targets ↔ ∃ i,
      (id, i) ∈ plan.currentSlots (q.generate given weekCount start).journal ∧ i ∈ targets := by
  unfold releasedMains
  rw [currentMains_of_generate h]
  simp

/-- What the other weeks took since the last reset is what was taken since then and is not given
back. -/
theorem mem_currentOutside {id : String} :
    id ∈ plan.currentOutside (q.generate given weekCount start).journal targets ↔
      id ∈ lastCycleOf .main (q.generate given weekCount start).journal ∧
        id ∉ releasedMains plan targets := by
  have hnodup := (nodup_lastCycle_of_generate h).1
  have hids := Plan.map_fst_currentSlots (takenOf_main_of_generate h)
  rw [← hids] at hnodup
  rw [mem_releasedMains h, ← hids]
  unfold Plan.currentOutside
  constructor
  · intro hid
    obtain ⟨⟨id, i⟩, hslot, rfl⟩ := List.mem_map.mp hid
    obtain ⟨hslot, hout⟩ := List.mem_filter.mp hslot
    refine ⟨List.mem_map_of_mem hslot, ?_⟩
    rintro ⟨j, hj, hin⟩
    -- a main course of the current cycle stands in one slot only
    have hsame := List.inj_on_of_nodup_map hnodup hslot hj rfl
    simp [(Prod.mk.inj hsame).2, hin] at hout
  · rintro ⟨hid, hkept⟩
    obtain ⟨⟨id, i⟩, hslot, rfl⟩ := List.mem_map.mp hid
    refine List.mem_map_of_mem (List.mem_filter.mpr ⟨hslot, ?_⟩)
    simpa using fun hin => hkept ⟨i, hslot, hin⟩

theorem nodup_currentOutside :
    (plan.currentOutside (q.generate given weekCount start).journal targets).Nodup := by
  have hnodup := (nodup_lastCycle_of_generate h).1
  rw [← Plan.map_fst_currentSlots (takenOf_main_of_generate h)] at hnodup
  exact hnodup.sublist (List.filter_sublist.map _)

/-- What was taken since the last reset was not used before. -/
theorem not_mem_usedBefore {id : String}
    (hid : id ∈ lastCycleOf .main (q.generate given weekCount start).journal) :
    id ∉ usedBefore (given.getD .fresh) (q.generate given weekCount start).journal := by
  rw [mem_usedBefore]
  rintro ⟨hresets, hused⟩
  have hfree := (nodup_lastCycle_of_generate h).2 hresets id hid
  simp [hused] at hfree

/-- Once weeks of a generated plan are given back, what counts as used is what the other weeks took
since the last reset and, if there was none, what was used before the plan. -/
theorem isUsed_givenBack_iff (hback : q'.givenBack plan targets = .ok t)
    (hcheck : plan.rotation.check q'.recipes = .ok ()) (id : String) :
    t.isUsed .main id = true ↔
      id ∈ plan.currentOutside (q.generate given weekCount start).journal targets ∨
        id ∈ usedBefore (given.getD .fresh) (q.generate given weekCount start).journal := by
  have hreleased : id ∈ releasedMains plan targets →
      id ∈ lastCycleOf .main (q.generate given weekCount start).journal := by
    rw [mem_releasedMains h, ← Plan.map_fst_currentSlots (takenOf_main_of_generate h)]
    rintro ⟨i, hslot, -⟩
    exact List.mem_map_of_mem hslot
  rw [isUsed_of_givenBack hback hcheck, isUsed_of_generate h, mem_currentOutside h,
    ← mem_usedBefore]
  constructor
  · rintro ⟨hlast | hbefore, hkept⟩
    · exact Or.inl ⟨hlast, hkept⟩
    · exact Or.inr hbefore
  · rintro (⟨hlast, hkept⟩ | hbefore)
    · exact ⟨Or.inl hlast, hkept⟩
    · exact ⟨Or.inr hbefore, fun hin => not_mem_usedBefore h (hreleased hin) hbefore⟩

/-- Weeks of a generated plan planned anew, whatever the preferences are by then. -/
theorem continues_of_regenerate {first : Int} (hnodup : targets.Nodup)
    (h' : (q'.regenerate plan first targets).result = .ok plan') :
    plan.Continues plan' targets (given.getD .fresh) (q.generate given weekCount start).journal
      (q'.regenerate plan first targets).journal := by
  obtain ⟨-, hrun, hjournal⟩ := regenerate_ok h'
  rw [hjournal]
  generalize (q'.regeneration plan targets).2 = p at hrun ⊢
  obtain ⟨t, hback, hcheck, hlawful, huse, hok⟩ := regeneration_ok hrun
  have hreplanned := replanned_of_regeneration hrun
  have hplaced : takenOf .main p.journal = targets.flatMap (mainsAt plan'.weeks) :=
    takenOf_main_of_takings (hok hnodup).takings
  have hbegun := isUsed_givenBack_iff h hback hcheck
  have hused : ∀ id, id ∈ plan'.rotation.usedIds .main ↔
      id ∈ lastCycleOf .main p.journal ∨
        (resetsOf .main p.journal = 0 ∧ t.isUsed .main id = true) := by
    intro id
    rw [← Rotation.isUsed_iff_mem, huse.isUsed, isUsed_replay_iff]
  refine ⟨hreplanned.length, hreplanned.untouched, fun i hi old hold => ?_, hplaced,
    fun id hid => ?_, fun hresets => ?_, fun hresets id => ?_⟩
  · exact hreplanned.finish_eq hi hold (dated_of_generate h (List.mem_of_getElem? hold))
  · intro hkept
    have hfree := (hlawful.nodup_cycles (c := .main) (by decide)).2 id hid
    rw [(hbegun id).mpr (Or.inl hkept)] at hfree
    contradiction
  · intro used
    obtain ⟨hdistinct, hfree⟩ := hlawful.mainsFree.nodup hresets
    have hlast := lastCycleOf_of_no_resets hresets
    rw [hplaced] at hdistinct hfree hlast
    have hnone : ∀ id ∈ targets.flatMap (mainsAt plan'.weeks), id ∉ plan.currentOutside
        (q.generate given weekCount start).journal targets ∧
          id ∉ usedBefore (given.getD .fresh) (q.generate given weekCount start).journal := by
      intro id hid
      have hout := hfree id hid
      rw [Bool.eq_false_iff, Ne, hbegun, not_or] at hout
      exact hout
    have hbefore : ∀ id ∈ plan.currentOutside (q.generate given weekCount start).journal targets,
        id ∉ usedBefore (given.getD .fresh) (q.generate given weekCount start).journal :=
      fun id hid => not_mem_usedBefore h ((mem_currentOutside h).mp hid).1
    have hones : (plan.currentOutside (q.generate given weekCount start).journal targets).Nodup :=
      nodup_currentOutside h
    have holds := nodup_usedBefore (given.getD .fresh) (q.generate given weekCount start).journal
    constructor
    · grind [List.nodup_append]
    · intro id
      rw [hused, hlast, hbegun]
      simp only [used, List.mem_append, hresets, true_and]
      grind
  · rw [hused]
    simp [hresets]

end

/-- A generated plan of which a week, or all weeks from one on, are planned anew, whatever the
preferences are by then.  The other weeks stay as they are, and so do both ends and the status of
the weeks planned anew.  What the other weeks took since the last reset of the main courses is not
placed again before the next reset; without one, it counts as used together with what is placed and
what was used before the plan if it still is, all of these distinct; and with one, what counts as
used is what was placed since. -/
theorem continues_of_generate (h : (q.generate given weekCount start).result = .ok plan) :
    let before := given.getD .fresh
    let journal := (q.generate given weekCount start).journal
    (plan.currentSlots journal).map (·.1) = lastCycleOf .main journal ∧
    (∀ (q' : Request) index plan', (q'.regenerateWeek plan index).result = .ok plan' →
      plan.Continues plan' [index.toNat] before journal (q'.regenerateWeek plan index).journal) ∧
    (∀ (q' : Request) index plan', (q'.regenerateFrom plan index).result = .ok plan' →
      plan.Continues plan' (plan.indicesFrom index) before journal
        (q'.regenerateFrom plan index).journal) := by
  intro before journal
  refine ⟨Plan.map_fst_currentSlots (takenOf_main_of_generate h), fun q' index plan' h' => ?_,
    fun q' index plan' h' => ?_⟩
  · exact continues_of_regenerate h (List.nodup_singleton _) h'
  · exact continues_of_regenerate h (plan.nodup_indicesFrom index) h'

/-- Two weeks of nine main courses, of which the first is planned anew: the five that the second
took since the last reset stay its own, and only the other four are placed before the next reset. -/
theorem continues_of_generate_nine :
    let q := ofRecipes (["a", "b", "c", "d", "e", "f", "g", "h", "i"].map (Recipe.plain .main))
    let journal := (q.generate none (some 2) (.ok Date.first)).journal
    ∃ plan plan', (q.generate none (some 2) (.ok Date.first)).result = .ok plan ∧
      (q.regenerateWeek plan 0).result = .ok plan' ∧
      plan.Continues plan' [0] .fresh journal (q.regenerateWeek plan 0).journal ∧
      plan.currentOutside journal [0] = ["a", "b", "c", "d", "e"] ∧
      firstCycleOf .main (q.regenerateWeek plan 0).journal = ["f", "g", "h", "i"] := by
  intro q journal
  have hrun : ((q.generate none (some 2) (.ok Date.first)).result.toOption.any fun plan =>
      (q.regenerateWeek plan 0).result.toOption.isSome ∧
        plan.currentOutside journal [0] = ["a", "b", "c", "d", "e"] ∧
        firstCycleOf .main (q.regenerateWeek plan 0).journal = ["f", "g", "h", "i"]) = true := by
    decide +kernel
  obtain ⟨plan, hplan, hweek⟩ := (Option.any_eq_true _ _).mp hrun
  obtain ⟨hok, hkept, hfirst⟩ := of_decide_eq_true hweek
  obtain ⟨plan', hplan'⟩ := exists_of_isSome hok
  exact ⟨plan, plan', eq_ok_of_toOption hplan, hplan',
    (continues_of_generate (eq_ok_of_toOption hplan)).2.1 q 0 plan' hplan', hkept, hfirst⟩

end Request

end MealRota
