import MealRota.Proofs.Cycles

/-!
# MealRota.Proofs.Labels

Main courses labelled with the cycle in which they were taken, a cycle being
numbered by the main course resets before it.  A plan does not record these
labels; they are read off the journals of the runs that made it.

* `HeldOnce` — a main course is held at most once in the current cycle, and is marked;
* `HeldOnce.events` — what a run takes keeps this;
* `heldOnce_iff`, `nodup_currentOf_iff` — what has to be true of the main courses given back
  before the run.
-/

namespace MealRota

/-! ## labels -/

/-- The main courses that some events take, each with the number of resets before it, of which
there were `n` before all of them. -/
def labelled (n : Nat) : List Event → List (String × Nat)
  | [] => []
  | e :: l =>
      if e.resets .main then labelled (n + 1) l
      else (takenOf .main [e]).map (fun id => (id, n)) ++ labelled n l

/-- The main courses that carry a label. -/
def currentOf (n : Nat) (labels : List (String × Nat)) : List String :=
  (labels.filter fun x => x.2 = n).map (·.1)

variable {n : Nat} {labels untouched : List (String × Nat)} {t s : Rotation} {l : List Event}
  {e : Event} {id : String}

@[simp] theorem currentOf_append (n : Nat) (l m : List (String × Nat)) :
    currentOf n (l ++ m) = currentOf n l ++ currentOf n m := by
  simp [currentOf]

@[simp] theorem mem_currentOf : id ∈ currentOf n labels ↔ (id, n) ∈ labels := by
  simp [currentOf]

theorem currentOf_map (n : Nat) (ids : List String) :
    currentOf n (ids.map fun id => (id, n)) = ids := by
  induction ids with
  | nil => rfl
  | cons id ids ih =>
      change currentOf n ([(id, n)] ++ ids.map fun id => (id, n)) = id :: ids
      rw [currentOf_append, ih]
      simp [currentOf]

theorem currentOf_eq_nil (h : ∀ x ∈ labels, x.2 < n) : currentOf n labels = [] := by
  rw [List.eq_nil_iff_forall_not_mem]
  intro id hid
  exact Nat.lt_irrefl n (h _ (mem_currentOf.mp hid))

theorem labelled_cons_of_resets (h : e.resets .main = true) (n : Nat) (l : List Event) :
    labelled n (e :: l) = labelled (n + 1) l := by
  rw [labelled, if_pos h]

theorem labelled_cons (h : e.resets .main = false) (n : Nat) (l : List Event) :
    labelled n (e :: l) = (takenOf .main [e]).map (fun id => (id, n)) ++ labelled n l := by
  rw [labelled, h]
  simp

/-- Labels left out, these are the main courses taken. -/
theorem map_fst_labelled (n : Nat) (l : List Event) :
    (labelled n l).map (·.1) = takenOf .main l := by
  induction l generalizing n with
  | nil => rfl
  | cons e l ih =>
      change _ = takenOf .main ([e] ++ l)
      rw [takenOf_append]
      cases h : e.resets .main with
      | true => rw [labelled_cons_of_resets h, ih, takenOf_of_resets h, List.nil_append]
      | false =>
          rw [labelled_cons h, List.map_append, ih, List.map_map]
          exact congrArg (· ++ takenOf .main l) (List.map_id _)

/-- Without a reset, whatever is taken belongs to the current cycle. -/
theorem currentOf_labelled (h : resetsOf .main l = 0) (n : Nat) :
    currentOf n (labelled n l) = takenOf .main l := by
  induction l with
  | nil => rfl
  | cons e l ih =>
      rw [resetsOf_cons] at h
      have hreset : e.resets .main = false := by
        cases hr : e.resets .main with
        | false => rfl
        | true =>
            rw [hr] at h
            simp at h
      rw [hreset] at h
      change _ = takenOf .main ([e] ++ l)
      rw [takenOf_append, labelled_cons hreset, currentOf_append, ih (by simpa using h),
        currentOf_map]

/-! ## the invariant -/

/-- The main courses of the current cycle: none is held twice, all of them are marked as used, and
no label is later than the current cycle. -/
structure HeldOnce (labels : List (String × Nat)) (n : Nat) (t : Rotation) : Prop where
  nodup : (currentOf n labels).Nodup
  marked : ∀ id ∈ currentOf n labels, t.isUsed .main id = true
  le : ∀ x ∈ labels, x.2 ≤ n

/-- No main course is taken while it is marked as used. -/
def MainsFree : Rotation → List Event → Prop
  | _, [] => True
  | t, e :: l => (∀ id ∈ takenOf .main [e], t.isUsed .main id = false) ∧ MainsFree (e.act t) l

theorem MainsFree.append {m : List Event} (hl : MainsFree t l) (hm : MainsFree (replay t l) m) :
    MainsFree t (l ++ m) := by
  induction l generalizing t with
  | nil => exact hm
  | cons e l ih => exact ⟨hl.1, ih hl.2 hm⟩

/-- A run that follows the laws of a pool takes no main course that is marked. -/
theorem Pool.Lawful.mainsFree {pool : Pool} (h : pool.Lawful t l) : MainsFree t l := by
  induction l generalizing t with
  | nil => exact trivial
  | cons e l ih =>
      refine ⟨fun id hid => ?_, ih h.2⟩
      rcases takenOf_cases .main e with hnone | ⟨x, rfl, hone⟩
      · rw [hnone] at hid
        exact absurd hid List.not_mem_nil
      · rw [hone] at hid
        rw [List.mem_singleton.mp hid]
        exact h.1 (by decide)

theorem MainsFree.congr (hst : s.SameUse t) (h : MainsFree t l) : MainsFree s l := by
  induction l generalizing s t with
  | nil => exact trivial
  | cons e l ih =>
      refine ⟨fun id hid => ?_, ih (hst.act e) h.2⟩
      rw [hst.isUsed]
      exact h.1 id hid

namespace HeldOnce

theorem nil (n : Nat) (t : Rotation) : HeldOnce [] n t :=
  ⟨List.nodup_nil, fun _ hid => absurd hid List.not_mem_nil,
    fun _ hx => absurd hx List.not_mem_nil⟩

/-- At the beginning of a cycle nothing is held in it yet. -/
theorem anew (h : ∀ x ∈ labels, x.2 ≤ n) (t : Rotation) : HeldOnce labels (n + 1) t := by
  have hnone : currentOf (n + 1) labels = [] :=
    currentOf_eq_nil fun x hx => Nat.lt_succ_of_le (h x hx)
  refine ⟨?_, ?_, fun x hx => Nat.le_succ_of_le (h x hx)⟩
  · rw [hnone]
    exact List.nodup_nil
  · rw [hnone]
    exact fun id hid => absurd hid List.not_mem_nil

theorem mono (h : HeldOnce labels n t) (hmarks : ∀ id, t.isUsed .main id = true →
    s.isUsed .main id = true) : HeldOnce labels n s :=
  ⟨h.nodup, fun id hid => hmarks id (h.marked id hid), h.le⟩

theorem perm {labels' : List (String × Nat)} (h : HeldOnce labels n t)
    (hperm : labels.Perm labels') : HeldOnce labels' n t := by
  have hcurrent : (currentOf n labels).Perm (currentOf n labels') := (hperm.filter _).map _
  exact ⟨hcurrent.nodup_iff.mp h.nodup, fun id hid => h.marked id (hcurrent.mem_iff.mpr hid),
    fun x hx => h.le x (hperm.mem_iff.mpr hx)⟩

/-- Fewer labelled main courses are held once, too. -/
theorem subperm (h : HeldOnce labels n t) (hsub : untouched.Subperm labels) :
    HeldOnce untouched n t := by
  obtain ⟨kept, hperm, hkept⟩ := hsub
  have hcurrent : (currentOf n kept).Sublist (currentOf n labels) := (hkept.filter _).map _
  have hheld : HeldOnce kept n t :=
    ⟨h.nodup.sublist hcurrent, fun id hid => h.marked id (hcurrent.subset hid),
      fun x hx => h.le x (hkept.subset hx)⟩
  exact hheld.perm hperm

/-- One event that is not a reset keeps the invariant. -/
theorem event (h : HeldOnce labels n t) (hreset : e.resets .main = false)
    (hfree : ∀ id ∈ takenOf .main [e], t.isUsed .main id = false) :
    HeldOnce (labels ++ (takenOf .main [e]).map fun id => (id, n)) n (e.act t) := by
  have hmarks : ∀ id, t.isUsed .main id = true → (e.act t).isUsed .main id = true :=
    fun id hid => (isUsed_act hreset t).mpr (Or.inl hid)
  rcases takenOf_cases .main e with hnone | ⟨x, rfl, hone⟩
  · rw [hnone]
    exact (List.append_nil labels).symm ▸ h.mono hmarks
  · rw [hone] at hfree ⊢
    have hx : t.isUsed .main x = false := hfree x List.mem_cons_self
    have hcurrent : currentOf n (labels ++ [(x, n)]) = currentOf n labels ++ [x] := by
      simp [currentOf]
    refine ⟨?_, ?_, fun y hy => ?_⟩
    · rw [List.map_singleton, hcurrent]
      refine List.nodup_append.mpr ⟨h.nodup, List.nodup_singleton x, ?_⟩
      rintro a ha b hb rfl
      rw [List.mem_singleton.mp hb] at ha
      rw [h.marked x ha] at hx
      contradiction
    · rw [List.map_singleton, hcurrent]
      intro id hid
      rcases List.mem_append.mp hid with hold | hnew
      · exact hmarks id (h.marked id hold)
      · refine (isUsed_act hreset t).mpr (Or.inr ?_)
        rw [hone]
        exact hnew
    · rcases List.mem_append.mp hy with hold | hnew
      · exact h.le y hold
      · rw [List.map_singleton, List.mem_singleton] at hnew
        subst hnew
        exact Nat.le_refl n

/-- A run in which no main course is taken while marked keeps the invariant. -/
theorem events (h : HeldOnce labels n t) (hfree : MainsFree t l) :
    HeldOnce (labels ++ labelled n l) (n + resetsOf .main l) (replay t l) := by
  induction l generalizing labels n t with
  | nil => exact (List.append_nil labels).symm ▸ h
  | cons e l ih =>
      rw [replay_cons, resetsOf_cons]
      cases hreset : e.resets .main with
      | true =>
          rw [labelled_cons_of_resets hreset, if_pos rfl, Nat.add_comm (resetsOf .main l),
            ← Nat.add_assoc]
          exact ih (anew h.le _) hfree.2
      | false =>
          rw [labelled_cons hreset, ← List.append_assoc]
          exact ih (h.event hreset hfree.1) hfree.2

/-- A run with a reset establishes the invariant, whatever was held before. -/
theorem events_of_resets (hle : ∀ x ∈ labels, x.2 ≤ n) (hfree : MainsFree t l)
    (hresets : resetsOf .main l ≠ 0) :
    HeldOnce (labels ++ labelled n l) (n + resetsOf .main l) (replay t l) := by
  induction l generalizing labels t with
  | nil => exact absurd rfl hresets
  | cons e l ih =>
      rw [replay_cons]
      rw [resetsOf_cons] at hresets ⊢
      cases hreset : e.resets .main with
      | true =>
          rw [labelled_cons_of_resets hreset, if_pos rfl, Nat.add_comm (resetsOf .main l),
            ← Nat.add_assoc]
          exact (anew hle _).events hfree.2
      | false =>
          rw [hreset] at hresets
          rw [labelled_cons hreset, ← List.append_assoc]
          refine ih (fun x hx => ?_) hfree.2 (by simpa using hresets)
          rcases List.mem_append.mp hx with hold | hnew
          · exact hle x hold
          · obtain ⟨id, -, rfl⟩ := List.mem_map.mp hnew
            exact Nat.le_refl n

end HeldOnce

/-- Without a reset, a run that takes no marked main course takes none twice. -/
theorem MainsFree.nodup (h : MainsFree t l) (hresets : resetsOf .main l = 0) :
    (takenOf .main l).Nodup ∧ ∀ id ∈ takenOf .main l, t.isUsed .main id = false := by
  have hnodup := ((HeldOnce.nil 0 t).events h).nodup
  rw [hresets, List.nil_append, currentOf_labelled hresets] at hnodup
  refine ⟨hnodup, fun id hid => Bool.eq_false_iff.mpr fun hused => ?_⟩
  -- a marked main course, held before the run, is not taken again
  have hheld : HeldOnce [(id, 0)] 0 t := by
    refine ⟨List.nodup_singleton id, fun x hx => ?_, fun x hx => ?_⟩
    · rw [List.mem_singleton.mp hx]
      exact hused
    · exact Nat.le_of_eq (congrArg (·.2) (List.mem_singleton.mp hx))
  have hafter := (hheld.events h).nodup
  rw [hresets, currentOf_append, currentOf_labelled hresets] at hafter
  exact (List.nodup_append.mp hafter).2.2 id (mem_currentOf.mpr List.mem_cons_self) id hid rfl

section

/-! ## giving back before a run

Before a run, some labelled main courses are left untouched and the marks of others are given
back. -/

variable (h : HeldOnce labels n s) (hsub : untouched.Subperm labels) {released : List String}
  (hmarks : ∀ id, t.isUsed .main id = true ↔ s.isUsed .main id = true ∧ id ∉ released)
  (hfree : MainsFree t l)

include h hsub hmarks hfree

/-- After the run every main course of the current cycle is held once and marked if and only if
the cycle began anew or nothing was given back that is still held. -/
theorem heldOnce_iff :
    HeldOnce (untouched ++ labelled n l) (n + resetsOf .main l) (replay t l) ↔
      resetsOf .main l ≠ 0 ∨ ∀ id ∈ released, id ∉ currentOf n untouched := by
  have hkept := h.subperm hsub
  by_cases hresets : resetsOf .main l = 0
  · rw [hresets, Nat.add_zero]
    constructor
    · intro hafter
      refine Or.inr fun id hid hheld => ?_
      -- a mark that was given back can only come from taking the main course again
      have hmarked : (replay t l).isUsed .main id = true := by
        refine hafter.marked id ?_
        rw [currentOf_append]
        exact List.mem_append_left _ hheld
      have hunmarked : ¬ t.isUsed .main id = true := fun hused => ((hmarks id).mp hused).2 hid
      rw [isUsed_replay_iff, lastCycleOf_of_no_resets hresets] at hmarked
      have htaken : id ∈ takenOf .main l := hmarked.resolve_right fun hused => hunmarked hused.2
      have hnodup := hafter.nodup
      rw [currentOf_append, currentOf_labelled hresets] at hnodup
      exact (List.nodup_append.mp hnodup).2.2 id hheld id htaken rfl
    · rintro (hno | hnone)
      · exact absurd rfl hno
      · have hbefore : HeldOnce untouched n t := by
          refine ⟨hkept.nodup, fun id hid => (hmarks id).mpr ⟨hkept.marked id hid, ?_⟩, hkept.le⟩
          exact fun hrel => hnone id hrel hid
        have hafter := hbefore.events hfree
        rw [hresets, Nat.add_zero] at hafter
        exact hafter
  · exact ⟨fun _ => Or.inl hresets, fun _ => HeldOnce.events_of_resets hkept.le hfree hresets⟩

/-- After the run no main course is held twice in the current cycle if and only if the cycle began
anew or nothing was taken again that was given back and is still held. -/
theorem nodup_currentOf_iff :
    (currentOf (n + resetsOf .main l) (untouched ++ labelled n l)).Nodup ↔
      resetsOf .main l ≠ 0 ∨
        ∀ id ∈ released, id ∈ currentOf n untouched → id ∉ takenOf .main l := by
  have hkept := h.subperm hsub
  by_cases hresets : resetsOf .main l = 0
  · rw [hresets, Nat.add_zero, currentOf_append, currentOf_labelled hresets, List.nodup_append]
    obtain ⟨hnodup, hunmarked⟩ := hfree.nodup hresets
    constructor
    · exact fun hafter => Or.inr fun id _ hheld htaken => hafter.2.2 id hheld id htaken rfl
    · rintro (hno | hnone)
      · exact absurd rfl hno
      · refine ⟨hkept.nodup, hnodup, ?_⟩
        rintro id hheld _ htaken rfl
        have hreleased : id ∈ released := by
          by_contra hrel
          have hfreed := hunmarked id htaken
          rw [(hmarks id).mpr ⟨hkept.marked id hheld, hrel⟩] at hfreed
          contradiction
        exact hnone id hreleased hheld htaken
  · refine ⟨fun _ => Or.inl hresets, fun _ => ?_⟩
    exact (HeldOnce.events_of_resets hkept.le hfree hresets).nodup

end

end MealRota
