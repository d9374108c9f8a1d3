import MealRota.Proofs.WeekMains

/-!
# MealRota.Proofs.Tracing

The events of each operation tell what it does to the marks, and each of them is
allowed at its moment.

* `Kitchen.Pairs.trace`, `Kitchen.Assigns.trace`, `Kitchen.Selects.trace` — filling one slot;
* `WeekDraft.Marked` — how the locks and the main courses of a week in the making are marked;
* `Kitchen.fillSlot_trace`, `Kitchen.planWeek_trace` — a slot of a week, and a whole week.
-/

namespace MealRota

open Progress

/-! ## elementary changes -/

namespace Pool.Trace

variable {pool : Pool} {p : Progress} {c : Course} {r : Recipe}

theorem begun (h : pool.Exhausted p.rotation c) (size : Int) :
    pool.Trace p (p.begun c size)
      [.cycleReset c p.rotation.cycle (p.rotation.cycle + 1) size] :=
  ⟨rfl, Rotation.SameUse.refl _, ⟨h, rfl, rfl⟩, trivial⟩

theorem taking (h : r.course ≠ .side → p.rotation.isUsed r.course r.id = false) :
    pool.Trace p (p.taking r) [.recipeTaken r.course r.id] :=
  ⟨rfl, ⟨rfl, rfl⟩, h, trivial⟩

theorem drawn (pool : Pool) (p : Progress) (source : Option Twister) :
    pool.Trace p (p.drawn source) [] :=
  silent rfl (Rotation.SameUse.refl _)

theorem after (pool : Pool) (p : Progress) (x : Float) : pool.Trace p (p.after x) [] :=
  silent rfl ⟨rfl, rfl⟩

/-- Where all candidates were used only if the whole course was, a cycle is begun lawfully. -/
theorem renewed {candidates : List Recipe}
    (h : (∀ r ∈ candidates, p.rotation.isUsed c r.id = true) → pool.Exhausted p.rotation c) :
    ∃ events, pool.Trace p (p.renewed c candidates) events ∧
      (∀ e ∈ events, e.resets c = true) ∧
      ((∀ r ∈ candidates, p.rotation.isUsed c r.id = true) → BeginsWithReset c events) := by
  unfold Progress.renewed
  by_cases hall : ∀ r ∈ candidates, p.rotation.isUsed c r.id = true
  · rw [if_pos hall]
    refine ⟨_, begun (h hall) candidates.length, fun e he => ?_, fun _ => ⟨_, _, _, [], rfl⟩⟩
    rw [List.mem_singleton.mp he]
    exact decide_eq_true rfl
  · rw [if_neg hall]
    exact ⟨[], refl pool p, fun e he => absurd he List.not_mem_nil, fun hall' => absurd hall' hall⟩

end Pool.Trace

/-! ## filling one slot -/

/-- What an assignment takes from the pool: its recipe and its side dish. -/
def Assignment.takings (a : Assignment) : List (Course × String) :=
  (a.course, a.recipeId) :: a.sideId.toList.map fun id => (.side, id)

/-- What a choice for a course takes from the pool. -/
def Choice.takings (choice : Choice) (c : Course) : List (Course × String) :=
  (c, choice.recipe.id) :: choice.side.toList.map fun r => (.side, r.id)

namespace Kitchen

variable {k : Kitchen} {c : Course} {slot : SlotContext} {p q : Progress} {main r : Recipe}
  {excluded : List String} {x : Float}

/-- What happens once a side dish was looked for, all side dishes being renewed if need be. -/
theorem sought_trace {tail : List Event}
    (h : k.pool.Trace (k.sideMoment slot main p) q tail) (hpaced : Paced (some .side) tail) :
    ∃ events, k.pool.Trace p q events ∧ Paced none events ∧ takings events = takings tail := by
  have hrenew : (∀ r ∈ k.pool.forCourse .side,
      (p.note (.sideSought main.id slot.date)).rotation.isUsed .side r.id = true) →
        k.pool.Exhausted (p.note (.sideSought main.id slot.date)).rotation .side := id
  obtain ⟨events, htrace, hresets, hbegins⟩ := Pool.Trace.renewed hrenew
  refine ⟨.sideSought main.id slot.date :: (events ++ tail), ?_, ?_, ?_⟩
  · refine Pool.Trace.note (fun _ => rfl) ?_ (htrace.trans h)
    exact fun main' hget hne hex => (hbegins hex).append tail
  · exact ⟨fun x hx => absurd hx List.not_mem_nil, hpaced.after_resets hresets⟩
  · change takings (events ++ tail) = takings tail
    rw [takings_append, takings_of_resets hresets, List.nil_append]

/-- Pairing a main course of the pool takes the side dish, if one is found. -/
theorem Pairs.trace {result : Except PlanError (Option Recipe)} (hmain : main ∈ k.pool.recipes)
    (h : k.Pairs slot main x p result q) :
    ∃ events, k.pool.Trace p q events ∧ Paced none events ∧
      ∀ side, result = .ok side → takings events = side.toList.map fun r => (.side, r.id) := by
  cases h with
  | unsuited hnil =>
      refine ⟨_, Pool.Trace.note (fun _ => rfl) ?_ (Pool.Trace.refl _ _), ?_, ?_⟩
      · intro main' hget hne
        rw [Pool.get?_of_mem hmain] at hget
        rw [← Option.some.inj hget] at hne
        exact absurd hnil hne
      · exact .quiet rfl
      · intro side hside
        rw [← Except.ok.inj hside]
        rfl
  | unscored source hne =>
      obtain ⟨events, htrace, hpaced, -⟩ := sought_trace (Pool.Trace.drawn k.pool _ source) trivial
      exact ⟨events, htrace, hpaced, fun side hside => by contradiction⟩
  | unfit source hne hall =>
      obtain ⟨events, htrace, hpaced, htakings⟩ := sought_trace
        ((Pool.Trace.drawn k.pool (k.sideMoment slot main p) source).trans
          (Pool.Trace.remark (e := .noSideFits main.id slot.date) rfl))
        (.quiet rfl)
      refine ⟨events, htrace, hpaced, fun side hside => ?_⟩
      rw [htakings, ← Except.ok.inj hside]
      rfl
  | paired source side hside hpass =>
      have hcourse : side.course = .side :=
        (Pool.mem_forCourse.mp (Pool.mem_forCourse_of_mem_sidesFor hside)).2
      have hpaced : Paced (some .side) [.recipeTaken side.course side.id] := by
        refine ⟨fun x hx => ?_, trivial⟩
        rw [List.mem_singleton.mp hx, hcourse]
      obtain ⟨events, htrace, hpaced, htakings⟩ := sought_trace
        ((Pool.Trace.drawn k.pool (k.sideMoment slot main p) source).trans
          (Pool.Trace.taking (r := side) fun hne => absurd hcourse hne)) hpaced
      refine ⟨events, htrace, hpaced, fun side' hside' => ?_⟩
      rw [htakings, ← Except.ok.inj hside', hcourse]
      rfl

/-- Filling a slot with a recipe of the pool that is not used takes it and its side dish. -/
theorem Assigns.trace {reset : Bool} {result : Except PlanError Choice}
    (hr : r ∈ k.pool.recipes) (hfree : p.rotation.isUsed r.course r.id = false)
    (h : k.Assigns slot r reset p result q) :
    ∃ events, k.pool.Trace p q events ∧ Paced (some r.course) events ∧
      ∀ choice, result = .ok choice → takings events = choice.takings r.course := by
  have htaking : k.pool.Trace p (p.taking r) [.recipeTaken r.course r.id] :=
    Pool.Trace.taking fun _ => hfree
  have hpaced : Paced (some r.course) [.recipeTaken r.course r.id] := by
    refine ⟨fun x hx => ?_, trivial⟩
    rw [List.mem_singleton.mp hx]
  cases h with
  | unscored hx => exact ⟨_, htaking, hpaced, fun choice hc => by contradiction⟩
  | alone y hy hside =>
      refine ⟨_, htaking.trans (Pool.Trace.after _ _ y), hpaced, fun choice hc => ?_⟩
      rw [← Except.ok.inj hc]
      rfl
  | accompanied y hy hside result q hpair =>
      obtain ⟨events, htrace, hrest, htakings⟩ := hpair.trace hr
      refine ⟨_, (htaking.trans (Pool.Trace.after _ _ y)).trans htrace, hpaced.append hrest,
        fun choice hc => ?_⟩
      cases result with
      | error e => contradiction
      | ok side =>
          rw [takings_append, htakings side rfl, ← Except.ok.inj hc]
          rfl

/-- Filling a slot from the pool takes what is chosen; a new cycle begins first if all candidates
were used. -/
theorem Selects.trace {result : Except PlanError (Option Choice)}
    (h : k.Selects c slot excluded p result q)
    (hall : k.candidates c excluded ≠ [] →
      (∀ r ∈ k.candidates c excluded, p.rotation.isUsed c r.id = true) →
        k.pool.Exhausted p.rotation c) :
    ∃ events, k.pool.Trace p q events ∧ Paced (some c) events ∧
      (k.candidates c excluded ≠ [] →
        (∀ r ∈ k.candidates c excluded, p.rotation.isUsed c r.id = true) →
          BeginsWithReset c events) ∧
      ∀ chosen, result = .ok chosen →
        takings events = chosen.toList.flatMap fun choice => choice.takings c := by
  -- with candidates, every outcome comes after the same beginning
  have hmoment : ∀ {tail : List Event}, k.candidates c excluded ≠ [] →
      k.pool.Trace (k.slotMoment c excluded p) q tail → Paced (some c) tail →
      ∃ events, k.pool.Trace p q events ∧ Paced (some c) events ∧
        ((∀ r ∈ k.candidates c excluded, p.rotation.isUsed c r.id = true) →
          BeginsWithReset c events) ∧ takings events = takings tail := by
    intro tail hne htail hpaced
    obtain ⟨events, htrace, hresets, hbegins⟩ := Pool.Trace.renewed (hall hne)
    refine ⟨events ++ tail, htrace.trans htail, hpaced.after_resets hresets,
      fun hused => (hbegins hused).append tail, ?_⟩
    rw [takings_append, takings_of_resets hresets, List.nil_append]
  cases h with
  | insufficient hnil hreq =>
      exact ⟨[], Pool.Trace.refl _ _, trivial, fun hne => absurd hnil hne,
        fun chosen hc => by contradiction⟩
  | skipped hnil hreq =>
      refine ⟨[], Pool.Trace.refl _ _, trivial, fun hne => absurd hnil hne, fun chosen hc => ?_⟩
      rw [← Except.ok.inj hc]
      rfl
  | unscored source r hr herr =>
      have hne := List.ne_nil_of_mem hr
      obtain ⟨events, htrace, hpaced, hbegins, -⟩ :=
        hmoment hne (Pool.Trace.drawn _ _ source) trivial
      exact ⟨events, htrace, hpaced, fun _ => hbegins, fun chosen hc => by contradiction⟩
  | failed source rejections hne hreq hrej hcount =>
      obtain ⟨events, htrace, hpaced, hbegins, -⟩ :=
        hmoment hne (Pool.Trace.drawn _ _ source) trivial
      exact ⟨events, htrace, hpaced, fun _ => hbegins, fun chosen hc => by contradiction⟩
  | leftEmpty source rejections hne hreq hrej hcount =>
      obtain ⟨events, htrace, hpaced, hbegins, htakings⟩ := hmoment hne
        ((Pool.Trace.drawn _ _ source).trans
          (Pool.Trace.remark (e := .slotLeftEmpty c slot.date rejections) rfl))
        (.quiet rfl)
      refine ⟨events, htrace, hpaced, fun _ => hbegins, fun chosen hc => ?_⟩
      rw [htakings, ← Except.ok.inj hc]
      rfl
  | filled source r hr hpass result q hassign =>
      have hne := List.ne_nil_of_mem hr
      obtain ⟨hmem, hcourse⟩ := Pool.mem_forCourse.mp (mem_candidates.mp hr).1
      have hfree : ((k.slotMoment c excluded p).drawn source).rotation.isUsed r.course r.id =
          false := Scorer.not_isUsed_of_passes hpass rfl
      obtain ⟨tail, htail, hfills, htakings⟩ := hassign.trace hmem hfree
      rw [hcourse] at hfills
      obtain ⟨events, htrace, hpaced, hbegins, hsame⟩ :=
        hmoment hne ((Pool.Trace.drawn _ _ source).trans htail) hfills
      refine ⟨events, htrace, hpaced, fun _ => hbegins, fun chosen hc => ?_⟩
      cases result with
      | error e => contradiction
      | ok choice =>
          rw [hsame, takings_append, htakings choice rfl, hcourse, ← Except.ok.inj hc]
          simp

/-! ## the marks after a slot was filled -/

/-- Pairing leaves the marks of the other courses alone. -/
theorem Pairs.isUsed {result : Except PlanError (Option Recipe)}
    (h : k.Pairs slot main x p result q) (hc : c ≠ .side) (id : String) :
    q.rotation.isUsed c id = p.rotation.isUsed c id := by
  have hmoment : (k.sideMoment slot main p).rotation.isUsed c id = p.rotation.isUsed c id := by
    unfold sideMoment sidesRenewed Progress.renewed
    split
    · rw [Bool.eq_iff_iff, begun_rotation, Rotation.isUsed_reset]
      exact and_iff_right hc
    · rfl
  cases h with
  | unsuited hnil => rfl
  | unscored source hne => exact hmoment
  | unfit source hne hall => exact hmoment
  | paired source side hside hpass =>
      have hcourse : side.course = .side :=
        (Pool.mem_forCourse.mp (Pool.mem_forCourse_of_mem_sidesFor hside)).2
      rw [← hmoment, Bool.eq_iff_iff, taking_rotation, Rotation.isUsed_countServing,
        Rotation.isUsed_mark, hcourse]
      exact or_iff_left fun hside => hc hside.1

/-- A given recipe is marked, and nothing else but a side dish. -/
theorem Assigns.isUsed {reset : Bool} {choice : Choice}
    (h : k.Assigns slot r reset p (.ok choice) q) (hc : c ≠ .side) (id : String) :
    q.rotation.isUsed c id = true ↔
      p.rotation.isUsed c id = true ∨ (c = r.course ∧ id = r.id) := by
  have htaking : (p.taking r).rotation.isUsed c id = true ↔
      p.rotation.isUsed c id = true ∨ (c = r.course ∧ id = r.id) := by
    rw [taking_rotation, Rotation.isUsed_countServing, Rotation.isUsed_mark]
  generalize hres : (Except.ok choice : Except PlanError Choice) = result at h
  cases h with
  | unscored hx => contradiction
  | alone y hy hside => exact htaking
  | accompanied y hy hside result q hpair =>
      rw [hpair.isUsed hc]
      exact htaking

/-- The marks when a candidate for a slot is chosen: none of the course if all candidates were
used, and else those from before. -/
theorem slotMoment_isUsed (d : Course) (id : String) :
    (k.slotMoment c excluded p).rotation.isUsed d id = true ↔
      p.rotation.isUsed d id = true ∧
        (d = c → ¬ ∀ r ∈ k.candidates c excluded, p.rotation.isUsed c r.id = true) := by
  unfold slotMoment Progress.renewed
  by_cases hall : ∀ r ∈ k.candidates c excluded, p.rotation.isUsed c r.id = true
  · rw [if_pos hall, begun_rotation, Rotation.isUsed_reset]
    constructor
    · exact fun h => ⟨h.2, fun hd => absurd hd h.1⟩
    · exact fun h => ⟨fun hd => h.2 hd hall, h.1⟩
  · rw [if_neg hall]
    exact (and_iff_left fun _ => hall).symm

end Kitchen

/-! ## the marks within a week -/

/-- How the main courses are marked while a week is being planned: what is locked or in the week
counts as used; or else a new cycle began within the week, nothing is locked any more, and only
main courses of the week count as used. -/
def WeekDraft.Marked (k : Kitchen) (d : WeekDraft) (t : Rotation) : Prop :=
  (∀ id, id ∈ d.locked ∨ id ∈ d.mains → t.isUsed .main id = true) ∨
    (d.locked = [] ∧ ∀ id ∈ k.pool.idsOf .main, t.isUsed .main id = true → id ∈ d.mains)

namespace WeekDraft.Marked

variable {k : Kitchen} {d : WeekDraft} {p m q : Progress} {excluded locked : List String}

/-- Finding what to leave out begins a new cycle only if all main courses were used. -/
theorem excludes (hd : d.Marked k p.rotation) (h : k.Excludes d p (excluded, locked) m) :
    WeekDraft.Marked k { d with locked } m.rotation ∧
      ∃ events, k.pool.Trace p m events ∧ (∀ e ∈ events, e.resets .main = true) ∧
        (k.pool.Exhausted p.rotation .main →
          BeginsWithReset .main events ∨ (events = [] ∧ m = p)) := by
  have hnone : ∀ e ∈ ([] : List Event), e.resets .main = true :=
    fun e he => absurd he List.not_mem_nil
  cases h with
  | fresh id hid hl hm => exact ⟨hd, [], Pool.Trace.refl _ _, hnone, fun _ => Or.inr ⟨rfl, rfl⟩⟩
  | repeating hall hrep =>
      exact ⟨hd, [], Pool.Trace.refl _ _, hnone, fun _ => Or.inr ⟨rfl, rfl⟩⟩
  | lapsed hall hl hlt =>
      have hex : k.pool.Exhausted p.rotation .main := by
        rcases hd with hused | hanew
        · exact Pool.exhausted_iff.mpr fun id hid => hused id (hall id hid)
        · exact absurd hanew.1 hl
      refine ⟨Or.inr ⟨rfl, fun id _ hid => ?_⟩, _, Pool.Trace.begun hex _, fun e he => ?_,
        fun _ => Or.inl ⟨_, _, _, [], rfl⟩⟩
      · rw [begun_rotation, Rotation.isUsed_reset] at hid
        exact absurd rfl hid.1
      · rw [List.mem_singleton.mp he]
        rfl

/-- If all candidates for a main course slot were used, all main courses were. -/
theorem exhausted (hd : d.Marked k p.rotation) (h : k.Excludes d p (excluded, locked) m)
    (hne : k.candidates .main excluded ≠ [])
    (hused : ∀ r ∈ k.candidates .main excluded, m.rotation.isUsed .main r.id = true) :
    k.pool.Exhausted m.rotation .main := by
  have hcand : ∀ id ∈ k.pool.idsOf .main, id ∉ excluded → m.rotation.isUsed .main id = true := by
    intro id hid hout
    obtain ⟨r, hr, rfl⟩ := Pool.mem_idsOf.mp hid
    exact hused r (Kitchen.mem_candidates.mpr ⟨hr, hout⟩)
  rw [Pool.exhausted_iff]
  intro id hid
  cases h with
  | fresh id' hid' hl hm =>
      rcases hd with hmarks | ⟨hnone, hweek⟩
      · by_cases hin : id ∈ d.locked ∨ id ∈ d.mains
        · exact hmarks id hin
        · exact hcand id hid fun hex => hin (List.mem_append.mp hex)
      · have hout : id' ∉ d.locked ++ d.mains := fun hex => (List.mem_append.mp hex).elim hl hm
        exact absurd (hweek id' hid' (hcand id' hid' hout)) hm
  | lapsed hall hl hlt =>
      obtain ⟨r, hr⟩ := List.exists_mem_of_ne_nil _ hne
      have hreset := hused r hr
      rw [begun_rotation, Rotation.isUsed_reset] at hreset
      exact absurd rfl hreset.1
  | repeating hall hrep =>
      rcases hd with hmarks | ⟨hnone, hweek⟩
      · exact hmarks id (hall id hid)
      · refine hcand id hid ?_
        rw [hnone]
        exact List.not_mem_nil

/-- What a main course slot is filled with keeps the marks of the week. -/
theorem select (hd : WeekDraft.Marked k { d with locked } m.rotation) {slot : SlotContext}
    {choice : Choice} (h : k.Selects .main slot excluded m (.ok (some choice)) q)
    {d' : WeekDraft}
    (hmains : d'.mains =
      if choice.recipe.id ∉ d.mains then d.mains ++ [choice.recipe.id] else d.mains)
    (hlocked : d'.locked = if choice.cycleReset = true then [] else locked) :
    d'.Marked k q.rotation := by
  obtain ⟨hcand, -, hreset, source, hassign⟩ := h.of_some
  have hcourse : choice.recipe.course = .main :=
    (Pool.mem_forCourse.mp (Kitchen.mem_candidates.mp hcand).1).2
  have hin : choice.recipe.id ∈ d'.mains := by
    rw [hmains]
    split
    · exact List.mem_append_right _ List.mem_cons_self
    · next hold => exact Decidable.not_not.mp hold
  have hsub : ∀ id ∈ d.mains, id ∈ d'.mains := by
    intro id hid
    rw [hmains]
    split
    · exact List.mem_append_left _ hid
    · exact hid
  have hback : ∀ id ∈ d'.mains, id ∈ d.mains ∨ id = choice.recipe.id := by
    intro id hid
    rw [hmains] at hid
    split at hid
    · exact (List.mem_append.mp hid).imp_right List.mem_singleton.mp
    · exact Or.inl hid
  have hmark : ∀ id, q.rotation.isUsed .main id = true ↔
      (m.rotation.isUsed .main id = true ∧ choice.cycleReset = false) ∨
        id = choice.recipe.id := by
    intro id
    rw [hassign.isUsed (by decide) id, hcourse, drawn_rotation, Kitchen.slotMoment_isUsed, hreset]
    simp
  cases hnew : choice.cycleReset with
  | true =>
      rw [hnew, if_pos rfl] at hlocked
      refine Or.inr ⟨hlocked, fun id _ hused => ?_⟩
      rcases (hmark id).mp hused with ⟨-, hfalse⟩ | rfl
      · rw [hnew] at hfalse
        contradiction
      · exact hin
  | false =>
      rw [hnew] at hlocked
      simp only [Bool.false_eq_true, if_false] at hlocked
      rcases hd with hmarks | ⟨hnone, hweek⟩
      · refine Or.inl fun id hid => (hmark id).mpr ?_
        rw [hlocked] at hid
        rcases hid with hl | hm
        · exact Or.inl ⟨hmarks id (Or.inl hl), hnew⟩
        · exact (hback id hm).imp_left fun hold => ⟨hmarks id (Or.inr hold), hnew⟩
      · refine Or.inr ⟨hlocked.trans hnone, fun id hid hused => ?_⟩
        rcases (hmark id).mp hused with ⟨hold, -⟩ | rfl
        · exact hsub id (hweek id hid hold)
        · exact hin

end WeekDraft.Marked

/-! ## slots of a week -/

namespace Kitchen

variable {k : Kitchen} {c : Course} {slot : SlotContext} {p m q : Progress} {d : WeekDraft}
  {excluded locked : List String}

/-- Filling a slot of another course leaves the marks of the main courses alone. -/
theorem Selects.isUsed_main {chosen : Option Choice}
    (h : k.Selects c slot excluded p (.ok chosen) q) (hc : c ≠ .main) (id : String) :
    q.rotation.isUsed .main id = p.rotation.isUsed .main id := by
  have hmoment : (k.slotMoment c excluded p).rotation.isUsed .main id =
      p.rotation.isUsed .main id := by
    rw [Bool.eq_iff_iff, slotMoment_isUsed]
    exact and_iff_left fun hmain => absurd hmain.symm hc
  generalize hres : (Except.ok chosen : Except PlanError (Option Choice)) = result at h
  cases h with
  | insufficient hnil hreq => rfl
  | skipped hnil hreq => rfl
  | unscored source r hr herr => exact hmoment
  | failed source rejections hne hreq hall hcount => exact hmoment
  | leftEmpty source rejections hne hreq hall hcount => exact hmoment
  | filled source r hr hpass result q hassign =>
      cases result with
      | error e => contradiction
      | ok choice =>
          have hcourse : r.course = c := (Pool.mem_forCourse.mp (mem_candidates.mp hr).1).2
          rw [← hmoment, Bool.eq_iff_iff, hassign.isUsed (by decide) id, hcourse]
          exact or_iff_left fun hmain => hc hmain.1.symm

/-- Making a slot ready and filling it is told by events, of which a reset is the first if all
recipes of the course were used. -/
theorem readied_trace (hord : d.Orderly k) (hmark : d.Marked k p.rotation)
    (hready : k.Readies d c p (excluded, locked) m) {result : Except PlanError (Option Choice)}
    (hselects : k.Selects c slot excluded m result q) :
    ∃ events, k.pool.Trace p q events ∧ Paced (some c) events ∧
      (k.pool.forCourse c ≠ [] → k.pool.Exhausted p.rotation c → BeginsWithReset c events) ∧
      ∀ chosen, result = .ok chosen →
        takings events = chosen.toList.flatMap fun choice => choice.takings c := by
  cases hready with
  | main hc out m hex =>
      subst hc
      obtain ⟨-, before, hbefore, hresets, hbegins⟩ := hmark.excludes hex
      obtain ⟨after, hafter, hpaced, hrenew, htakings⟩ := hselects.trace (hmark.exhausted hex)
      refine ⟨before ++ after, hbefore.trans hafter, hpaced.after_resets hresets,
        fun hpool hexhausted => ?_, ?_⟩
      · rcases hbegins hexhausted with hfirst | ⟨rfl, rfl⟩
        · exact hfirst.append after
        · have hcount : 0 < k.pool.count .main := List.length_pos_iff.mpr hpool
          exact hrenew (hord.candidates_ne_nil hex hcount) fun r hr =>
            hexhausted r (mem_candidates.mp hr).1
      · intro chosen hchosen
        rw [takings_append, takings_of_resets hresets, List.nil_append, htakings chosen hchosen]
  | optional hc =>
      have hcandidates : k.candidates c [] = k.pool.forCourse c := by simp [candidates]
      obtain ⟨events, htrace, hpaced, hrenew, htakings⟩ := hselects.trace (by
        rw [hcandidates]
        exact fun _ hused => hused)
      rw [hcandidates] at hrenew
      exact ⟨events, htrace, hpaced, hrenew, htakings⟩

/-- Filling a slot of a week is told by events, which take what is entered into the week. -/
theorem fillSlot_trace (hord : d.Orderly k) (hmark : d.Marked k p.rotation)
    (place : Date × Course) :
    ∃ events, k.pool.Trace p (Planning.run (k.fillSlot d place) p).2 events ∧ Paced none events ∧
      ∀ d', (Planning.run (k.fillSlot d place) p).1 = .ok d' →
        d'.Marked k (Planning.run (k.fillSlot d place) p).2.rotation ∧
          ∃ new, d'.assignments = d.assignments ++ new ∧ (∀ a ∈ new, a.course = place.2) ∧
            takings events = new.flatMap Assignment.takings := by
  obtain ⟨day, c⟩ := place
  obtain ⟨excluded, locked, m, result, q, hready, hselects, hrun⟩ := k.run_fillSlot d day c p
  obtain ⟨events, htrace, hpaced, hbegins, htakings⟩ :=
    readied_trace (p := p.note (.slotReached c day)) hord hmark hready hselects
  rw [hrun]
  refine ⟨.slotReached c day :: events, Pool.Trace.note (fun _ => rfl) hbegins htrace,
    ⟨fun x hx => absurd hx List.not_mem_nil, hpaced⟩, ?_⟩
  intro d' hd'
  cases result with
  | error e => contradiction
  | ok chosen =>
      have htaken := htakings chosen rfl
      cases chosen with
      | none =>
          have hopt := hselects.optional_of_none
          cases hready with
          | main hc out q hex =>
              rw [hc] at hopt
              contradiction
          | optional hc =>
              have hsame : d = d' := Except.ok.inj hd'
              subst hsame
              refine ⟨?_, [], (List.append_nil _).symm, fun a ha => absurd ha List.not_mem_nil,
                htaken⟩
              simp only [WeekDraft.Marked, hselects.isUsed_main hc]
              exact hmark
      | some choice =>
          obtain ⟨a, -, hcourse, hrecipe, hside, hassign, hmains, hlocked⟩ := addChoice_ok hd'
          refine ⟨?_, [a], hassign, fun a' ha => List.mem_singleton.mp ha ▸ hcourse, ?_⟩
          · cases hready with
            | main hc out q hex =>
                subst hc
                simp only [true_and] at hmains hlocked
                have hready := WeekDraft.Marked.excludes (p := p.note (.slotReached .main day))
                  hmark hex
                exact WeekDraft.Marked.select hready.1 hselects hmains hlocked
            | optional hc =>
                simp only [hc, false_and, if_false] at hmains hlocked
                simp only [WeekDraft.Marked, hmains, hlocked, hselects.isUsed_main hc]
                exact hmark
          · change takings events = _
            rw [htaken]
            simp [Assignment.takings, Choice.takings, hcourse, hrecipe, hside, Option.toList_map]

/-- What holds after some slots of a week that began in a given progress. -/
structure TracedFrom (k : Kitchen) (p : Progress) (d : WeekDraft) (m : Progress) : Prop where
  orderly : d.Orderly k
  marked : d.Marked k m.rotation
  daily : ∀ a ∈ d.assignments, a.course ∈ Course.daily
  trace : ∃ events, k.pool.Trace p m events ∧ Paced none events ∧
    takings events = d.assignments.flatMap Assignment.takings

theorem TracedFrom.fillSlot {place : Date × Course} {d' : WeekDraft} (h : k.TracedFrom p d m)
    (hplace : place.2 ∈ Course.daily)
    (hrun : Planning.run (k.fillSlot d place) m = (.ok d', q)) : k.TracedFrom p d' q := by
  obtain ⟨events, htrace, hpaced, htakings⟩ := h.trace
  obtain ⟨more, hmore, hslot, hok⟩ := fillSlot_trace h.orderly h.marked place
  rw [hrun] at hmore hok
  obtain ⟨hmarked, new, hassign, hcourse, hnew⟩ := hok d' rfl
  refine ⟨(h.orderly.fillSlot hrun).1, hmarked, fun a ha => ?_, events ++ more,
    htrace.trans hmore, hpaced.append hslot, ?_⟩
  · rw [hassign] at ha
    rcases List.mem_append.mp ha with hold | ha
    · exact h.daily a hold
    · rw [hcourse a ha]
      exact hplace
  · rw [takings_append, htakings, hnew, hassign, List.flatMap_append]

theorem mem_daily_of_mem_slotsOf {days : List Date} {place : Date × Course}
    (h : place ∈ slotsOf days) : place.2 ∈ Course.daily := by
  obtain ⟨day, -, hday⟩ := List.mem_flatMap.mp h
  obtain ⟨c, hc, rfl⟩ := List.mem_map.mp hday
  exact hc

/-- Planning a week is told by events, which take what the week serves. -/
theorem planWeek_trace {locked : List String}
    (hlocked : ∀ id ∈ locked, p.rotation.isUsed .main id = true) (start : Date)
    (status : WeekStatus) :
    ∃ events, k.pool.Trace p (Planning.run (k.planWeek start locked status) p).2 events ∧
      Paced none events ∧ ∀ week, (Planning.run (k.planWeek start locked status) p).1 = .ok week →
        takings events = week.assignments.flatMap Assignment.takings ∧
          ∀ a ∈ week.assignments, a.course ∈ Course.daily := by
  have hmarked : WeekDraft.Marked k ⟨[], [], locked⟩ p.rotation :=
    Or.inl fun id hid => hid.elim (hlocked id) fun hnone => absurd hnone List.not_mem_nil
  have hempty : k.TracedFrom p ⟨[], [], locked⟩ p :=
    ⟨WeekDraft.Orderly.empty k locked, hmarked, fun a ha => absurd ha List.not_mem_nil, [],
      Pool.Trace.refl _ _, trivial, rfl⟩
  have hstep : ∀ {days : List Date} done place rest, slotsOf days = done ++ place :: rest →
      ∀ d m d' q, k.TracedFrom p d m → Planning.run (k.fillSlot d place) m = (.ok d', q) →
        k.TracedFrom p d' q := by
    intro days done place rest hslots d m d' q h hrun
    have hmem : place ∈ slotsOf days := by
      rw [hslots]
      exact List.mem_append_right _ List.mem_cons_self
    exact h.fillSlot (mem_daily_of_mem_slotsOf hmem) hrun
  have hweek := k.plansWeek_planWeek start locked status p
  generalize Planning.run (k.planWeek start locked status) p = out at hweek
  obtain ⟨result, q⟩ := out
  cases hweek with
  | notMonday hm => exact ⟨[], Pool.Trace.refl _ _, trivial, fun week hweek => by contradiction⟩
  | beyond hm hd => exact ⟨[], Pool.Trace.refl _ _, trivial, fun week hweek => by contradiction⟩
  | failed days hm hd e q hrun =>
      obtain ⟨done, place, rest, d, m, -, hreached, hslot⟩ :=
        Planning.run_foldlM_error (fun _ d m => k.TracedFrom p d m) hstep hempty hrun
      obtain ⟨events, htrace, hpaced, -⟩ := hreached.trace
      obtain ⟨more, hmore, hlast, -⟩ := fillSlot_trace hreached.orderly hreached.marked place
      rw [hslot] at hmore
      exact ⟨events ++ more, htrace.trans hmore, hpaced.append hlast,
        fun week hweek => by contradiction⟩
  | clashing days hm hd draft q hrun e hcheck =>
      rw [(orderly_of_run hrun).1.checkMainsDistinct start] at hcheck
      contradiction
  | planned days hm hd draft q hrun hcheck =>
      have hdone := Planning.run_foldlM_ok (fun _ d m => k.TracedFrom p d m) hstep hempty hrun
      obtain ⟨events, htrace, hpaced, htakings⟩ := hdone.trace
      refine ⟨_, htrace.trans (Pool.Trace.remark rfl),
        hpaced.append (.quiet rfl), fun week hweek => ?_⟩
      rw [takings_append, htakings, ← Except.ok.inj hweek]
      exact ⟨List.append_nil _, hdone.daily⟩

end Kitchen

end MealRota
