import Mathlib.Data.List.Dedup
import Mathlib.Data.List.Perm.Subperm
import MealRota.Proofs.WeekSlots

/-!
# MealRota.Proofs.DistinctMains

The main courses of one week.  Whatever is locked or was used before, a week has
a main course on each of its seven days, and as many different ones as the pool
allows.

* `WeekDraft.Orderly` — what filling slots preserves of a week in the making;
* `WeekDraft.Orderly.fillSlot` — one slot;
* `Kitchen.orderly_of_run` — all slots of a week.
-/

namespace MealRota

/-! ## the invariant -/

/-- A week in the making knows its main courses: each of them once, none of them locked, and as
many as there are main course slots so far, or as the pool has. -/
structure WeekDraft.Orderly (k : Kitchen) (d : WeekDraft) : Prop where
  nodup : d.mains.Nodup
  members : ∀ id, id ∈ d.mains ↔ id ∈ mainIdsOf d.assignments
  stocked : ∀ id ∈ d.mains, id ∈ k.pool.idsOf .main
  unlocked : ∀ id ∈ d.mains, id ∉ d.locked
  size : d.mains.length = min (mainIdsOf d.assignments).length (k.pool.count .main)

namespace WeekDraft.Orderly

variable {k : Kitchen} {d d' : WeekDraft} {p q : Progress} {r : Recipe}
  {excluded locked : List String}

/-- An empty week is orderly, whatever is locked. -/
theorem empty (k : Kitchen) (locked : List String) : Orderly k ⟨[], [], locked⟩ where
  nodup := List.nodup_nil
  members := fun id => Iff.rfl
  stocked := fun id hid => absurd hid List.not_mem_nil
  unlocked := fun id hid => absurd hid List.not_mem_nil
  size := by simp [mainIdsOf]

theorem length_le (h : Orderly k d) : d.mains.length ≤ k.pool.count .main := by
  rw [← k.pool.length_idsOf .main]
  exact (List.subperm_of_subset h.nodup h.stocked).length_le

/-- A week that has every main course of the pool is full. -/
theorem full_of_all (h : Orderly k d) (hall : ∀ id ∈ k.pool.idsOf .main, id ∈ d.mains) :
    d.mains.length = k.pool.count .main := by
  have hle : (k.pool.idsOf .main).length ≤ d.mains.length :=
    (List.subperm_of_subset (k.pool.nodup_idsOf .main) hall).length_le
  rw [k.pool.length_idsOf] at hle
  exact Nat.le_antisymm h.length_le hle

/-- A full week has every main course of the pool. -/
theorem all_of_full (h : Orderly k d) (hfull : k.pool.count .main ≤ d.mains.length) :
    ∀ id ∈ k.pool.idsOf .main, id ∈ d.mains := by
  have hsub : d.mains.Subperm (k.pool.idsOf .main) := List.subperm_of_subset h.nodup h.stocked
  rw [← k.pool.length_idsOf .main] at hfull
  exact fun id hid => (hsub.perm_of_length_le hfull).mem_iff.mpr hid

/-! ## what the next main course slot leaves out -/

/-- As long as there are main courses at all, there is a candidate for the next slot. -/
theorem candidates_ne_nil (hd : Orderly k d) (h : k.Excludes d p (excluded, locked) q)
    (hn : 0 < k.pool.count .main) : k.candidates .main excluded ≠ [] := by
  have hmem : ∀ id ∈ k.pool.idsOf .main, id ∉ excluded → k.candidates .main excluded ≠ [] := by
    intro id hid hout hnil
    obtain ⟨r, hr, rfl⟩ := Pool.mem_idsOf.mp hid
    have hcand : r ∈ k.candidates .main excluded := Kitchen.mem_candidates.mpr ⟨hr, hout⟩
    rw [hnil] at hcand
    exact absurd hcand List.not_mem_nil
  cases h with
  | fresh id hid hl hm =>
      exact hmem id hid fun hin => (List.mem_append.mp hin).elim hl hm
  | lapsed hall hl hlt =>
      have hex : ∃ id ∈ k.pool.idsOf .main, id ∉ d.mains := by
        by_contra hno
        have hfull := hd.full_of_all fun id hid => by
          by_contra hout
          exact hno ⟨id, hid, hout⟩
        exact Nat.lt_irrefl _ (hfull ▸ hlt)
      obtain ⟨id, hid, hout⟩ := hex
      exact hmem id hid hout
  | repeating hall hrep =>
      obtain ⟨id, hid⟩ : ∃ id, id ∈ k.pool.idsOf .main :=
        List.exists_mem_of_length_pos (by rw [k.pool.length_idsOf]; exact hn)
      rcases hrep with hl | hfull
      · exact hmem id hid (by rw [hl]; exact List.not_mem_nil)
      · exact hmem id hid (hd.unlocked id (hd.all_of_full hfull id hid))

/-- A candidate for the next slot is new to the week, or the week has them all. -/
theorem new_or_full (hd : Orderly k d) (h : k.Excludes d p (excluded, locked) q)
    (hr : r ∈ k.candidates .main excluded) :
    r.id ∉ d.mains ∨ d.mains.length = k.pool.count .main := by
  have hout : r.id ∉ excluded := (Kitchen.mem_candidates.mp hr).2
  cases h with
  | fresh id hid hl hm => exact Or.inl fun hin => hout (List.mem_append_right _ hin)
  | lapsed hall hl hlt => exact Or.inl hout
  | repeating hall hrep =>
      refine Or.inr ?_
      rcases hrep with hl | hfull
      · refine hd.full_of_all fun id hid => (hall id hid).resolve_left ?_
        rw [hl]
        exact List.not_mem_nil
      · exact Nat.le_antisymm hd.length_le hfull

end WeekDraft.Orderly

namespace Kitchen.Excludes

variable {k : Kitchen} {d : WeekDraft} {p q : Progress} {r : Recipe}
  {excluded locked : List String}

/-- The locks still hold, or have lapsed altogether. -/
theorem locked_cases (h : k.Excludes d p (excluded, locked) q) :
    locked = d.locked ∨ locked = [] := by
  cases h with
  | fresh id hid hl hm => exact Or.inl rfl
  | lapsed hall hl hlt => exact Or.inr rfl
  | repeating hall hrep => exact Or.inl rfl

/-- No candidate for the next slot is locked. -/
theorem not_mem_locked (h : k.Excludes d p (excluded, locked) q)
    (hr : r ∈ k.candidates .main excluded) : r.id ∉ locked := by
  have hout : r.id ∉ excluded := (Kitchen.mem_candidates.mp hr).2
  cases h with
  | fresh id hid hl hm => exact fun hin => hout (List.mem_append_left _ hin)
  | lapsed hall hl hlt => exact List.not_mem_nil
  | repeating hall hrep => exact hout

end Kitchen.Excludes

/-! ## filling slots -/

namespace WeekDraft.Orderly

variable {k : Kitchen} {d d' : WeekDraft} {p q : Progress} {excluded locked : List String}

/-- A main course that is new to the week leaves room for it. -/
theorem length_lt (hd : Orderly k d) {id : String} (hid : id ∈ k.pool.idsOf .main)
    (hnew : id ∉ d.mains) : d.mains.length < k.pool.count .main := by
  have hcons : (id :: d.mains).Nodup := List.nodup_cons.mpr ⟨hnew, hd.nodup⟩
  have hsubset : id :: d.mains ⊆ k.pool.idsOf .main := by
    intro id' hid'
    rcases List.mem_cons.mp hid' with rfl | hid'
    · exact hid
    · exact hd.stocked id' hid'
  have hle := (List.subperm_of_subset hcons hsubset).length_le
  rw [k.pool.length_idsOf, List.length_cons] at hle
  exact hle

/-- What is in the week is not locked for the next slot either. -/
theorem not_mem_locked_after (hd : Orderly k d) (h : k.Excludes d p (excluded, locked) q) :
    ∀ id ∈ d.mains, id ∉ locked := by
  intro id hid
  rcases h.locked_cases with hl | hl
  · rw [hl]
    exact hd.unlocked id hid
  · rw [hl]
    exact List.not_mem_nil

/-- A main course that a candidate adds keeps the week orderly. -/
theorem add (hd : Orderly k d) (h : k.Excludes d p (excluded, locked) q) {r : Recipe}
    (hr : r ∈ k.candidates .main excluded) (reset : Bool) {assignments : List Assignment}
    (hids : mainIdsOf assignments = mainIdsOf d.assignments ++ [r.id]) :
    Orderly k
      { assignments
        mains := if r.id ∉ d.mains then d.mains ++ [r.id] else d.mains
        locked := if reset = true then [] else locked } := by
  have hstock : r.id ∈ k.pool.idsOf .main :=
    Pool.mem_idsOf.mpr ⟨r, (Kitchen.mem_candidates.mp hr).1, rfl⟩
  have hsub : ∀ id, id ∈ (if reset = true then [] else locked) → id ∈ locked := by
    intro id hid
    split at hid
    · exact absurd hid List.not_mem_nil
    · exact hid
  have hfree := hd.not_mem_locked_after h
  have hlen : (mainIdsOf assignments).length = (mainIdsOf d.assignments).length + 1 := by
    rw [hids, List.length_append, List.length_singleton]
  have hsize := hd.size
  by_cases hnew : r.id ∈ d.mains
  · have hfull : d.mains.length = k.pool.count .main :=
      (hd.new_or_full h hr).resolve_left fun hno => hno hnew
    simp only [hnew, not_true_eq_false, if_false]
    refine ⟨hd.nodup, fun id => ?_, hd.stocked, fun id hid hin => hfree id hid (hsub id hin), ?_⟩
    · rw [hids, List.mem_append, List.mem_singleton, ← hd.members]
      constructor
      · exact Or.inl
      · rintro (hid | rfl)
        · exact hid
        · exact hnew
    · simp only
      omega
  · have hroom : d.mains.length < k.pool.count .main := hd.length_lt hstock hnew
    simp only [hnew, not_false_eq_true, if_true]
    refine ⟨?_, fun id => ?_, fun id hid => ?_, fun id hid hin => ?_, ?_⟩
    · refine List.nodup_append.mpr ⟨hd.nodup, List.nodup_singleton _, ?_⟩
      intro a ha b hb hab
      rw [List.mem_singleton] at hb
      exact hnew (hb ▸ hab ▸ ha)
    · rw [hids, List.mem_append, List.mem_append, hd.members]
    · rcases List.mem_append.mp hid with hid | hid
      · exact hd.stocked id hid
      · rw [List.mem_singleton.mp hid]
        exact hstock
    · rcases List.mem_append.mp hid with hid | hid
      · exact hfree id hid (hsub id hin)
      · rw [List.mem_singleton.mp hid] at hin
        exact h.not_mem_locked hr (hsub _ hin)
    · simp only [List.length_append, List.length_singleton]
      omega

/-- Filling a slot keeps the week orderly; a main course slot adds one main course. -/
theorem fillSlot (hd : Orderly k d) {place : Date × Course}
    (h : Planning.run (k.fillSlot d place) p = (.ok d', q)) :
    Orderly k d' ∧ (mainIdsOf d'.assignments).length =
      (mainIdsOf d.assignments).length + if place.2 = .main then 1 else 0 := by
  obtain ⟨day, c⟩ := place
  obtain ⟨excluded, locked, m, result, q', hready, hselects, hrun⟩ := k.run_fillSlot d day c p
  rw [hrun] at h
  obtain ⟨hresult, rfl⟩ := Prod.mk.inj h
  cases result with
  | error e => contradiction
  | ok chosen =>
      cases chosen with
      | none =>
          have hopt := hselects.optional_of_none
          cases hready with
          | main hc out q hex =>
              rw [hc] at hopt
              contradiction
          | optional hc =>
              have hd' : d = d' := Except.ok.inj hresult
              subst hd'
              exact ⟨hd, by rw [if_neg hc, Nat.add_zero]⟩
      | some choice =>
          obtain ⟨a, _, hcourse, hrecipe, _, hassign, hmains, hlocked⟩ :=
            Kitchen.addChoice_ok hresult
          cases hready with
          | main hc out q hex =>
              subst hc
              have hids : mainIdsOf d'.assignments =
                  mainIdsOf d.assignments ++ [choice.recipe.id] := by
                rw [hassign, mainIdsOf_append]
                simp [mainIdsOf, hcourse, hrecipe]
              have hadd := hd.add hex hselects.of_some.1 choice.cycleReset hids
              have heq : d' = ⟨d'.assignments, d'.mains, d'.locked⟩ := rfl
              rw [heq, hmains, hlocked]
              simp only [true_and]
              refine ⟨hadd, ?_⟩
              rw [hids, List.length_append, List.length_singleton, if_true]
          | optional hc =>
              have hids : mainIdsOf d'.assignments = mainIdsOf d.assignments := by
                rw [hassign, mainIdsOf_append]
                simp [mainIdsOf, hcourse, hc]
              simp only [hc, false_and, if_false] at hmains hlocked
              rw [hids, if_neg hc, Nat.add_zero]
              refine ⟨⟨?_, ?_, ?_, ?_, ?_⟩, rfl⟩
              · rw [hmains]
                exact hd.nodup
              · rw [hmains, hids]
                exact hd.members
              · rw [hmains]
                exact hd.stocked
              · rw [hmains, hlocked]
                exact hd.unlocked
              · rw [hmains, hids]
                exact hd.size

end WeekDraft.Orderly

/-! ## whole weeks -/

namespace Kitchen

variable {k : Kitchen} {p q : Progress} {draft : WeekDraft} {locked : List String}

/-- What holds of a week in the making after the slots that are done. -/
def OrderlyAfter (k : Kitchen) (done : List (Date × Course)) (d : WeekDraft) : Prop :=
  d.Orderly k ∧ (mainIdsOf d.assignments).length = done.countP fun s => s.2 = .main

theorem orderlyAfter_step {done : List (Date × Course)} {place : Date × Course}
    {d d' : WeekDraft} (hd : k.OrderlyAfter done d)
    (h : Planning.run (k.fillSlot d place) p = (.ok d', q)) :
    k.OrderlyAfter (done ++ [place]) d' := by
  obtain ⟨hord, hcount⟩ := hd.1.fillSlot h
  refine ⟨hord, ?_⟩
  rw [hcount, hd.2, List.countP_append, List.countP_singleton]
  simp

/-- A week whose slots were all filled or left empty is orderly and has a main course on each
of its days. -/
theorem orderly_of_run {days : List Date}
    (h : Planning.run ((slotsOf days).foldlM k.fillSlot ⟨[], [], locked⟩) p = (.ok draft, q)) :
    draft.Orderly k ∧ (mainIdsOf draft.assignments).length = days.length := by
  have hinv : k.OrderlyAfter (slotsOf days) draft :=
    Planning.run_foldlM_ok (fun done d _ => k.OrderlyAfter done d)
      (fun done place rest _ d p d' q hd hrun => orderlyAfter_step hd hrun)
      ⟨WeekDraft.Orderly.empty k locked, rfl⟩ h
  exact ⟨hinv.1, hinv.2.trans (count_main_slotsOf days)⟩

end Kitchen

end MealRota
