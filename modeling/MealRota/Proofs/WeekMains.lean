import Mathlib.Algebra.Group.Nat.Defs
import MealRota.Proofs.DistinctMains

/-!
# MealRota.Proofs.WeekMains

How many main courses a planned week has, and when there is none.

* `WeekDraft.Orderly.checkMainsDistinct` — the check of a finished week never refuses;
* `Kitchen.no_mains_of_insufficient`, `Kitchen.insufficient_of_no_mains` — a week wants for
  recipes exactly if the pool has no main course;
* `Kitchen.mains_of_planWeek` — seven main courses, as many of them different as can be.
-/

namespace MealRota

/-! ## counting different main courses -/

/-- Lists without repeats that have the same members are equally long. -/
theorem length_eq_of_nodup {l m : List String} (hl : l.Nodup) (hm : m.Nodup)
    (h : ∀ id, id ∈ l ↔ id ∈ m) : l.length = m.length :=
  ((List.perm_ext_iff_of_nodup hl hm).mpr h).length_eq

theorem TextSet.nodup_toList (s : TextSet) : s.toList.Nodup :=
  s.ascending.imp fun h => String.ne_of_lt h

namespace WeekDraft.Orderly

variable {k : Kitchen} {d : WeekDraft}

/-- The main courses of an orderly week, repeats left out. -/
theorem length_dedup (h : Orderly k d) :
    (mainIdsOf d.assignments).dedup.length =
      min (mainIdsOf d.assignments).length (k.pool.count .main) := by
  have hlen : (mainIdsOf d.assignments).dedup.length = d.mains.length :=
    length_eq_of_nodup (List.nodup_dedup _) h.nodup fun id => by
      rw [List.mem_dedup, h.members]
  rw [hlen, h.size]

/-- The check of a finished week finds nothing in an orderly one. -/
theorem checkMainsDistinct (h : Orderly k d) (start : Date) :
    checkMainsDistinct start d.assignments (k.pool.count .main) = .ok () := by
  have hsize : (TextSet.ofList (mainIdsOf d.assignments)).size = d.mains.length :=
    length_eq_of_nodup (TextSet.nodup_toList _) h.nodup fun id => by
      rw [← TextSet.mem_def, TextSet.mem_ofList, h.members]
  have henough : ¬ ((TextSet.ofList (mainIdsOf d.assignments)).size : Int) <
      min ((mainIdsOf d.assignments).length : Int) (k.pool.count .main) := by
    have := h.size
    rw [hsize]
    omega
  unfold MealRota.checkMainsDistinct
  change (if (!(repeatedIds (mainIdsOf d.assignments)).isEmpty &&
    decide (((TextSet.ofList (mainIdsOf d.assignments)).size : Int) <
      min ((mainIdsOf d.assignments).length : Int) (k.pool.count .main))) = true then _ else _) = _
  rw [decide_eq_false henough, Bool.and_false]
  rfl

end WeekDraft.Orderly

/-! ## numbers small enough -/

theorem isWritable_iff_lt {n : Nat} : isWritable n = true ↔ n < 10 ^ mostDigits :=
  decide_eq_true_iff.trans (Nat.length_repr_le_iff (by decide))

theorem numberText_of_lt {n : Nat} (h : n < 10 ^ mostDigits) :
    numberText n = .ok (toString n) := by
  unfold numberText
  rw [if_pos (isWritable_iff_lt.mpr h)]

/-- A sentence can be written for a recipe with a complexity score if its numbers can. -/
theorem exists_reasoning {f : Formula} {r : Recipe} {x : Float} (hx : r.complexityScore f = .ok x)
    (hminutes : r.totalMinutes < 10 ^ mostDigits)
    (hhours : r.advanceHours.getD 0 < 10 ^ mostDigits) (c : Course) (slot : SlotContext) :
    ∃ text, reasoning f r c slot = .ok text := by
  unfold reasoning fitReason
  simp only [hx, numberText_of_lt hminutes, numberText_of_lt hhours, Except.bind]
  split
  · split
    · exact ⟨_, rfl⟩
    · split <;> exact ⟨_, rfl⟩
  · exact ⟨_, rfl⟩

/-- A recipe can be scored if it has a complexity score and its cuisine's servings can be counted
in doubles. -/
theorem Scorer.exists_score? {s : Scorer} {r : Recipe} {x : Float}
    (hx : r.complexityScore s.rules.formula = .ok x)
    (hn : (nearestDouble (s.rotation.servingsOf r.cuisine)).isSome = true) :
    ∃ score, s.score? r = .ok score := by
  obtain ⟨n, hn⟩ := Option.isSome_iff_exists.mp hn
  have hnovelty : novelty (s.rotation.servingsOf r.cuisine) = .ok (1 / (1 + n)) := by
    unfold novelty
    rw [hn]
  have hreject : ∃ reason, s.rejection? r = .ok reason := by
    unfold rejection?
    rw [hx]
    split
    · exact ⟨_, rfl⟩
    · split <;> exact ⟨_, rfl⟩
  obtain ⟨reason, hreason⟩ := hreject
  rw [score?_eq, hreason, hnovelty]
  cases reason <;> exact ⟨_, rfl⟩

/-- The numbers that a slot is filled by are small enough: scores and servings have doubles, and
the minutes and hours, which are written out, no more digits than a text may have.  The doubles end
long before, at `2 ^ 1024`. -/
structure Kitchen.Measures (k : Kitchen) (t : Rotation) : Prop where
  /-- Every recipe has a complexity score. -/
  scored : ∀ r ∈ k.pool.recipes, ∃ x, r.complexityScore k.rules.formula = .ok x
  counted : ∀ c : Cuisine, (nearestDouble (t.servingsOf c)).isSome = true
  timed : ∀ r ∈ k.pool.recipes, r.totalMinutes < 10 ^ mostDigits
  prepared : ∀ r ∈ k.pool.recipes, r.advanceHours.getD 0 < 10 ^ mostDigits

namespace Kitchen.Measures

variable {k : Kitchen} {t : Rotation} {r : Recipe}

/-- A recipe of the pool can be scored. -/
theorem score? (h : k.Measures t) {s : Scorer} (hrules : s.rules = k.rules)
    (hservings : ∀ c, s.rotation.servingsOf c = t.servingsOf c) (hr : r ∈ k.pool.recipes) :
    ∃ x, s.score? r = .ok x := by
  obtain ⟨x, hx⟩ := h.scored r hr
  refine Scorer.exists_score? (hrules ▸ hx) ?_
  rw [hservings]
  exact h.counted r.cuisine

end Kitchen.Measures

/-! ## slots of a pool without main courses -/

namespace Kitchen

variable {k : Kitchen} {p q : Progress} {draft draft' : WeekDraft} {locked : List String}

theorem slotMoment_servingsOf (c : Course) (excluded : List String) (p : Progress) (x : Cuisine) :
    (k.slotMoment c excluded p).rotation.servingsOf x = p.rotation.servingsOf x := by
  unfold slotMoment Progress.renewed
  split <;> rfl

/-- A slot of an optional course that comes without side dishes is filled or left empty. -/
theorem fillSlot_optional (draft : WeekDraft) (h : k.Measures p.rotation) {c : Course}
    (hc : c ≠ .main) (day : Date) :
    ∃ draft' q, Planning.run (k.fillSlot draft (day, c)) p = (.ok draft', q) := by
  obtain ⟨excluded, locked, m, result, q, hready, hselects, hrun⟩ := k.run_fillSlot draft day c p
  rw [hrun]
  cases hready with
  | main hmain out q hex => exact absurd hmain hc
  | optional hopt =>
      have hreq : c.isRequired = false := decide_eq_false hc
      cases hselects with
      | insufficient hnil hreq' =>
          rw [hreq] at hreq'
          contradiction
      | failed source rejections hne hreq' hall hrej =>
          rw [hreq] at hreq'
          contradiction
      | skipped hnil hreq' => exact ⟨_, _, rfl⟩
      | leftEmpty source rejections hne hreq' hall hrej => exact ⟨_, _, rfl⟩
      | unscored source r hr herr =>
          have hmem := (Pool.mem_forCourse.mp (mem_candidates.mp hr).1).1
          obtain ⟨x, hx⟩ := h.score? (s := k.slotScorer c (slotOn day p.rotation) []
            (p.note (.slotReached c day))) rfl
            (fun x => k.slotMoment_servingsOf c [] (p.note (.slotReached c day)) x) hmem
          rw [hx] at herr
          contradiction
      | filled source r hr hpass result q hassign =>
          obtain ⟨hmem, hcourse⟩ := Pool.mem_forCourse.mp (mem_candidates.mp hr).1
          obtain ⟨x, hx⟩ := h.scored r hmem
          cases hassign with
          | unscored hnone =>
              rw [hx] at hnone
              contradiction
          | accompanied y hy hside result q hpair =>
              rw [hcourse] at hside
              exact absurd hside.1 hc
          | alone y hy hside =>
              obtain ⟨text, htext⟩ :=
                exists_reasoning hx (h.timed r hmem) (h.prepared r hmem) c (slotOn day p.rotation)
              simp only [Except.map, Except.bind, entered, addChoice, Choice.toAssignment, htext]
              exact ⟨_, _, rfl⟩

/-- A main course slot of a pool without main courses cannot be filled. -/
theorem fillSlot_main_of_none (draft : WeekDraft) (h : k.pool.count .main = 0) (day : Date) :
    ∃ q, Planning.run (k.fillSlot draft (day, .main)) p =
      (.error (.insufficientRecipes 1 0), q) := by
  obtain ⟨excluded, locked, m, result, q, hready, hselects, hrun⟩ :=
    k.run_fillSlot draft day .main p
  have hnil : k.candidates .main excluded = [] := by
    have hpool : k.pool.forCourse .main = [] := List.length_eq_zero_iff.mp h
    simp [candidates, hpool]
  have herr : result = .error (.insufficientRecipes 1 0) := by
    cases hselects with
    | insufficient hnil' hreq => rfl
    | skipped hnil' hreq => contradiction
    | unscored source r hr herr =>
        rw [hnil] at hr
        exact absurd hr List.not_mem_nil
    | failed source rejections hne hreq hall hrej => exact absurd hnil hne
    | leftEmpty source rejections hne hreq hall hrej => exact absurd hnil hne
    | filled source r hr hpass result q hassign =>
        rw [hnil] at hr
        exact absurd hr List.not_mem_nil
  rw [hrun, herr]
  exact ⟨q, rfl⟩

/-- A slot for which there are no recipes is a main course slot of a pool without main courses. -/
theorem no_mains_of_fillSlot {day : Date} {c : Course} {required available : Int}
    (hd : draft.Orderly k)
    (h : Planning.run (k.fillSlot draft (day, c)) p =
      (.error (.insufficientRecipes required available), q)) : k.pool.count .main = 0 := by
  obtain ⟨excluded, locked, m, result, q', hready, hselects, hrun⟩ := k.run_fillSlot draft day c p
  rw [hrun] at h
  obtain ⟨hresult, -⟩ := Prod.mk.inj h
  cases result with
  | ok chosen =>
      cases chosen with
      | none => contradiction
      | some choice =>
          rcases addChoice_error hresult with he | he <;> contradiction
  | error e =>
      have he : e = .insufficientRecipes required available := Except.error.inj hresult
      rcases hselects.of_error with ⟨-, hreq, hnil⟩ | hnum | ⟨rejections, hnone⟩
      · cases hready with
        | main hc out q hex =>
            by_contra hn
            subst hc
            exact hd.candidates_ne_nil hex (Nat.pos_of_ne_zero hn) hnil
        | optional hc => exact absurd (of_decide_eq_true hreq) hc
      · rw [hnum] at he
        contradiction
      · rw [hnone] at he
        contradiction

/-! ## whole weeks -/

theorem weekDates?_of_le {start : Date} (h : start.ordinal + 6 ≤ lastOrdinal) :
    ∃ first rest, start.weekDates? = some (first :: rest) := by
  have hall : ∀ l : List Nat, (∀ n ∈ l, n ≤ 6) → ∃ days, l.mapM start.addDays? = some days := by
    intro l
    induction l with
    | nil => exact fun _ => ⟨[], rfl⟩
    | cons n l ih =>
        intro hl
        have hn : start.addDays? n ≠ none := by
          rw [Ne, Date.addDays?_eq_none_iff]
          have := hl n List.mem_cons_self
          omega
        obtain ⟨day, hday⟩ := Option.ne_none_iff_exists'.mp hn
        obtain ⟨days, hdays⟩ := ih fun m hm => hl m (List.mem_cons_of_mem _ hm)
        rw [List.mapM_cons, hday, hdays]
        exact ⟨day :: days, rfl⟩
  have hrange : ∀ n ∈ List.range daysPerWeek, n ≤ 6 :=
    fun n hn => Nat.le_of_lt_succ (List.mem_range.mp hn)
  obtain ⟨days, hdays⟩ := hall (List.range daysPerWeek) hrange
  have hlen : days.length = 7 := length_of_weekDates? hdays
  match days, hlen, hdays with
  | first :: rest, _, hdays => exact ⟨first, rest, hdays⟩

/-- No week can be planned from a pool without main courses. -/
theorem insufficient_of_no_mains (hn : k.pool.count .main = 0) {start : Date}
    (hm : start.isMonday = true) (hlast : start.ordinal + 6 ≤ lastOrdinal)
    (h : k.Measures p.rotation) (locked : List String) (status : WeekStatus) :
    ∃ q, Planning.run (k.planWeek start locked status) p =
      (.error (.insufficientRecipes 1 0), q) := by
  obtain ⟨first, rest, hdays⟩ := weekDates?_of_le hlast
  obtain ⟨draft, m, happetizer⟩ :=
    fillSlot_optional ⟨[], [], locked⟩ h (c := .appetizer) (by decide) first
  obtain ⟨q, hmain⟩ := fillSlot_main_of_none (p := m) draft hn first
  have hslots : Planning.run ((slotsOf (first :: rest)).foldlM k.fillSlot ⟨[], [], locked⟩) p =
      (.error (.insufficientRecipes 1 0), q) := by
    change Planning.run (((first, .appetizer) :: (first, .main) :: (first, .dessert) ::
      slotsOf rest).foldlM k.fillSlot ⟨[], [], locked⟩) p = _
    rw [List.foldlM_cons, Planning.run_bind_of_ok happetizer, List.foldlM_cons,
      Planning.run_bind_of_error hmain]
  have hweek := k.plansWeek_planWeek start locked status p
  refine ⟨(Planning.run (k.planWeek start locked status) p).2, ?_⟩
  generalize Planning.run (k.planWeek start locked status) p = out at hweek
  obtain ⟨result, q'⟩ := out
  cases hweek with
  | notMonday hm' =>
      rw [hm] at hm'
      contradiction
  | beyond hm' hnone =>
      rw [hdays] at hnone
      contradiction
  | failed days hm' hd e q' hrun =>
      rw [hdays] at hd
      rw [← Option.some.inj hd, hslots] at hrun
      rw [← Except.error.inj (Prod.mk.inj hrun).1]
  | clashing days hm' hd draft q' hrun e hcheck =>
      rw [hdays] at hd
      rw [← Option.some.inj hd, hslots] at hrun
      simp at hrun
  | planned days hm' hd draft q' hrun hcheck =>
      rw [hdays] at hd
      rw [← Option.some.inj hd, hslots] at hrun
      simp at hrun

/-- A week wants for recipes only if the pool has no main course. -/
theorem no_mains_of_insufficient {start : Date} {status : WeekStatus} {required available : Int}
    (h : Planning.run (k.planWeek start locked status) p =
      (.error (.insufficientRecipes required available), q)) : k.pool.count .main = 0 := by
  have hweek := k.plansWeek_planWeek start locked status p
  rw [h] at hweek
  generalize hres : (Except.error (.insufficientRecipes required available) :
    Except PlanError Week) = result at hweek
  cases hweek with
  | notMonday hm => simp at hres
  | beyond hm hd => simp at hres
  | planned days hm hd draft q hrun hcheck => contradiction
  | clashing days hm hd draft q hrun e hcheck =>
      rw [(orderly_of_run hrun).1.checkMainsDistinct start] at hcheck
      contradiction
  | failed days hm hd e q hrun =>
      rw [← Except.error.inj hres] at hrun
      obtain ⟨done, ⟨day, c⟩, rest, d, m, hl, hd', hslot⟩ :=
        Planning.run_foldlM_error (fun done d _ => k.OrderlyAfter done d)
          (fun done place rest _ d p d' q hd hrun => orderlyAfter_step hd hrun)
          ⟨WeekDraft.Orderly.empty k locked, rfl⟩ hrun
      exact no_mains_of_fillSlot hd'.1 hslot

/-- Whatever is locked and whatever was used before, a planned week has a main course on each of
its seven days, as many of them different as the pool allows; it wants for recipes exactly if the
pool has no main course; and the check of the finished week never refuses it. -/
theorem mains_of_planWeek (k : Kitchen) (p : Progress) (start : Date) (locked : List String)
    (status : WeekStatus) (hm : start.isMonday = true) (hlast : start.ordinal + 6 ≤ lastOrdinal)
    (h : k.Measures p.rotation) :
    (∀ week q, Planning.run (k.planWeek start locked status) p = (.ok week, q) →
      week.mainIds.length = 7 ∧ week.mainIds.dedup.length = min 7 (k.pool.count .main)) ∧
    ((∃ required available q, Planning.run (k.planWeek start locked status) p =
      (.error (.insufficientRecipes required available), q)) ↔ k.pool.count .main = 0) ∧
    (∀ days draft q, start.weekDates? = some days →
      Planning.run ((slotsOf days).foldlM k.fillSlot ⟨[], [], locked⟩) p = (.ok draft, q) →
      checkMainsDistinct start draft.assignments (k.pool.count .main) = .ok ()) := by
  refine ⟨fun week q hrun => ?_, ⟨?_, fun hn => ?_⟩, fun days draft q _ hrun => ?_⟩
  · have hweek := k.plansWeek_planWeek start locked status p
    rw [hrun] at hweek
    cases hweek with
    | planned days hm hd draft q hslots hcheck =>
        obtain ⟨hord, hlen⟩ := orderly_of_run hslots
        rw [length_of_weekDates? hd] at hlen
        have hdistinct := hord.length_dedup
        rw [hlen] at hdistinct
        exact ⟨hlen, hdistinct⟩
  · rintro ⟨required, available, q, hrun⟩
    exact no_mains_of_insufficient hrun
  · obtain ⟨q, hrun⟩ := insufficient_of_no_mains hn hm hlast h locked status
    exact ⟨1, 0, q, hrun⟩
  · exact (orderly_of_run hrun).1.checkMainsDistinct start

/-- A kitchen with nothing but plain main courses. -/
def ofMains (ids : List String) : Kitchen where
  rules := ⟨.standard, {}⟩
  pool := Pool.ofRecipes (ids.map (Recipe.plain .main))

theorem measures_ofMains (ids : List String) {t : Rotation} (h : ∀ c, t.servingsOf c = 0) :
    (ofMains ids).Measures t := by
  have hplain : ∀ r ∈ (ofMains ids).pool.recipes, ∃ id, r = Recipe.plain .main id := by
    intro r hr
    obtain ⟨id, _, hid⟩ := List.mem_map.mp (Pool.mem_of_mem_ofRecipes hr)
    exact ⟨id, hid.symm⟩
  have hpos : 0 < 10 ^ mostDigits := Nat.pow_pos (by decide)
  refine ⟨fun r hr => ?_, fun c => ?_, fun r hr => ?_, fun r hr => ?_⟩
  · obtain ⟨id, rfl⟩ := hplain r hr
    exact ⟨0, rfl⟩
  · rw [h c]
    decide +kernel
  · obtain ⟨id, rfl⟩ := hplain r hr
    exact hpos
  · obtain ⟨id, rfl⟩ := hplain r hr
    exact hpos

/-- With one of three main courses locked and another used, a week still has all three of them. -/
theorem mains_of_planWeek_locked :
    let k := ofMains ["a", "b", "c"]
    let p : Progress := ⟨Rotation.fresh.mark .main "b", none, []⟩
    Date.first.isMonday = true ∧ Date.first.ordinal + 6 ≤ lastOrdinal ∧ k.Measures p.rotation ∧
    ∃ week q, Planning.run (k.planWeek Date.first ["a", "x"] .active) p = (.ok week, q) ∧
      week.mainIds.length = 7 ∧ week.mainIds.dedup.length = 3 := by
  intro k p
  have hmonday : Date.first.isMonday = true := by decide
  have hlast : Date.first.ordinal + 6 ≤ lastOrdinal := by decide
  have hnum : k.Measures p.rotation := measures_ofMains _ fun c => rfl
  have hcount : k.pool.count .main = 3 := by decide
  have hok : (Planning.run (k.planWeek Date.first ["a", "x"] .active) p).1.toOption.isSome =
      true := by decide +kernel
  refine ⟨hmonday, hlast, hnum, ?_⟩
  obtain ⟨week, q, hrun⟩ := Planning.exists_run_of_isSome hok
  have hweek := (mains_of_planWeek k p Date.first ["a", "x"] .active hmonday hlast hnum).1 week q
    hrun
  rw [hcount] at hweek
  exact ⟨week, q, hrun, hweek⟩

end Kitchen

end MealRota
