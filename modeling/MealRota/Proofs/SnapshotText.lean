import MealRota.Proofs.Snapshots
import MealRota.Proofs.Sorting

/-!
# MealRota.Proofs.SnapshotText

The snapshot of a state is determined by its content.  Courses and cuisines keep
the order in which they were first entered, but a snapshot is written from what
the tables have for each name, names in ascending order; and a set of ids is
its ascending list.  So the history of a state leaves no trace in its snapshot.

* `Rotation.Agrees` — the same content, whatever the order of entry;
* `Rotation.Agrees.changes`, `Rotation.agrees_of_perm` — the same changes keep states in
  agreement, and so do marks and servings in any other order;
* `Rotation.usedFields_eq_sortBy`, `Rotation.servingFields_eq_sortBy` — it is written from the
  entries of the tables, sorted by name;
* `Rotation.toJson_eq`, `Rotation.lists` — the text of a snapshot, and what stands in it;
* `Rotation.toJson_of_agrees` — it is the same for states that agree.
-/

namespace MealRota

/-- Two ids may be entered in any order. -/
theorem TextSet.insert_comm (s : TextSet) (a b : String) :
    (s.insert a).insert b = (s.insert b).insert a := by
  refine TextSet.ext fun x => ?_
  rw [mem_insert, mem_insert, mem_insert, mem_insert]
  exact or_left_comm

theorem Course.ascending_all : Course.all.Pairwise fun c d => c.name < d.name := by decide

theorem Cuisine.ascending_all : Cuisine.all.Pairwise fun j k => j.name < k.name := by decide

/-- Pairs of a function are in the order of their keys. -/
theorem pairwise_pairsOf {κ ν : Type} {g : κ → Option ν} {name : κ → String}
    {keys : List κ} (h : keys.Pairwise fun j k => name j < name k) :
    (pairsOf g keys).Pairwise fun p q => name p.1 < name q.1 := by
  refine List.Pairwise.filterMap _ (fun j k hlt p hp q hq => ?_) h
  obtain ⟨v, -, rfl⟩ := Option.map_eq_some_iff.mp hp
  obtain ⟨w, -, rfl⟩ := Option.map_eq_some_iff.mp hq
  exact hlt

/-- The pairs of a table by the names of their keys are its entries sorted by these names. -/
theorem pairsOf_eq_sortBy {κ ν : Type} [DecidableEq κ] (t : Table κ ν) {name : κ → String}
    {keys : List κ} (hall : ∀ k, k ∈ keys) (h : keys.Pairwise fun j k => name j < name k) :
    pairsOf t.get? keys = sortBy (fun p q => name p.1 ≤ name q.1) t.entries := by
  have hascending : (pairsOf t.get? keys).Pairwise fun p q => name p.1 < name q.1 :=
    pairwise_pairsOf h
  have hdistinct := hascending.imp fun hlt => String.ne_of_lt hlt
  have hsame : (pairsOf t.get? keys).Perm t.entries := by
    refine (List.perm_ext_iff_of_nodup (hdistinct.imp fun hne => ?_) t.nodup.of_map).mpr fun p => ?_
    · exact fun heq => hne (heq ▸ rfl)
    · rw [mem_pairsOf, Table.get?_eq_some_iff]
      exact and_iff_right (hall p.1)
  have hsorted : (sortBy (fun p q => name p.1 ≤ name q.1) t.entries).Pairwise
      fun p q => name p.1 ≤ name q.1 := by
    refine (pairwise_sortBy (List.pairwise_of_forall fun p q => ?_) ?_).imp of_decide_eq_true
    · simpa using String.le_total (name p.1) (name q.1)
    · intro p _ q _ r _ hpq hqr
      exact decide_eq_true (String.le_trans (of_decide_eq_true hpq) (of_decide_eq_true hqr))
  have hperm := hsame.trans (perm_sortBy (fun p q => name p.1 ≤ name q.1) t.entries).symm
  refine hperm.eq_of_pairwise (fun p q hp hq hpq hqp => ?_)
    (hascending.imp fun hlt => String.not_lt.mp (String.lt_asymm hlt)) hsorted
  have : Std.Symm fun p q : κ × ν => name p.1 ≠ name q.1 := ⟨fun _ _ => Ne.symm⟩
  by_contra hne
  exact hdistinct.forall hp (hperm.mem_iff.mpr hq) hne (String.le_antisymm hpq hqp)

/-- The ways in which a rotation state is changed. -/
inductive Change where
  | mark (c : Course) (id : String)
  | unmark (c : Course) (id : String)
  | reset (c : Course)
  | countServing (k : Cuisine)
  | discountServing (k : Cuisine)

/-- Whether a change adds something and takes nothing away. -/
def Change.adds : Change → Bool
  | .mark _ _ | .countServing _ => true
  | _ => false

namespace Rotation

/-- The state after a change; a recipe that is not marked cannot be given back, which leaves the
state as it is. -/
def change (t : Rotation) : Change → Rotation
  | .mark c id => t.mark c id
  | .unmark c id =>
    match t.unmark c id with
    | .ok u => u
    | .error _ => t
  | .reset c => t.reset c
  | .countServing k => t.countServing k
  | .discountServing k => t.discountServing k

/-- The state after one change after the other. -/
def changes (t : Rotation) (l : List Change) : Rotation := l.foldl change t

/-! ## the same content -/

/-- Two states have the same content: the same cycle number and last complexity, the same courses
with the same used recipes, and the same cuisines with the same servings.  A complexity of zero is
not the same as its negative, which is written with a sign. -/
structure Agrees (s t : Rotation) : Prop where
  cycle : s.cycle = t.cycle
  lastComplexity : s.lastComplexity = t.lastComplexity
  courses : ∀ c, (s.used.get? c).isSome = (t.used.get? c).isSome
  isUsed : ∀ c id, s.isUsed c id = t.isUsed c id
  servings : ∀ k, s.servings.get? k = t.servings.get? k

namespace Agrees

variable {s t u : Rotation}

theorem refl (t : Rotation) : t.Agrees t :=
  ⟨rfl, rfl, fun _ => rfl, fun _ _ => rfl, fun _ => rfl⟩

theorem trans (h : s.Agrees t) (h' : t.Agrees u) : s.Agrees u :=
  ⟨h.cycle.trans h'.cycle, h.lastComplexity.trans h'.lastComplexity,
    fun c => (h.courses c).trans (h'.courses c),
    fun c id => (h.isUsed c id).trans (h'.isUsed c id),
    fun k => (h.servings k).trans (h'.servings k)⟩

/-- The sets themselves are the same. -/
theorem used (h : s.Agrees t) (c : Course) : s.used.get? c = t.used.get? c := by
  have hcourse := h.courses c
  have hused := h.isUsed c
  unfold Rotation.isUsed usedIds at hused
  cases hs : s.used.get? c with
  | none =>
      rw [hs, Option.isSome_none] at hcourse
      exact (Option.not_isSome_iff_eq_none.mp (Bool.eq_false_iff.mp hcourse.symm)).symm
  | some ids =>
      rw [hs, Option.isSome_some] at hcourse
      obtain ⟨ids', ht⟩ := Option.isSome_iff_exists.mp hcourse.symm
      rw [ht]
      refine congrArg some (TextSet.ext fun id => ?_)
      have hid := hused id
      rw [hs, ht, Bool.eq_iff_iff, TextSet.contains_iff, TextSet.contains_iff] at hid
      exact hid

/-- States whose tables have the same for every key agree. -/
theorem of_get? (hcycle : s.cycle = t.cycle) (hlast : s.lastComplexity = t.lastComplexity)
    (hused : ∀ c, s.used.get? c = t.used.get? c)
    (hservings : ∀ k, s.servings.get? k = t.servings.get? k) : s.Agrees t := by
  refine ⟨hcycle, hlast, fun c => by rw [hused], fun c id => ?_, hservings⟩
  unfold Rotation.isUsed usedIds
  rw [hused]

theorem usedIds (h : s.Agrees t) (c : Course) : s.usedIds c = t.usedIds c := by
  unfold Rotation.usedIds
  rw [h.used]

theorem servingsOf (h : s.Agrees t) (k : Cuisine) : s.servingsOf k = t.servingsOf k := by
  unfold Rotation.servingsOf
  rw [h.servings]

/-- To enter the same set in both states keeps them in agreement. -/
theorem setUsed (h : s.Agrees t) (c : Course) (ids : TextSet) :
    Agrees { s with used := s.used.set c ids } { t with used := t.used.set c ids } := by
  refine of_get? h.cycle h.lastComplexity (fun d => ?_) h.servings
  simp only [Table.get?_set, h.used]

/-- And so does the same change, also one that fails. -/
theorem change (h : s.Agrees t) (a : Change) : (s.change a).Agrees (t.change a) := by
  cases a with
  | mark c id =>
      simp only [Rotation.change, mark, h.usedIds c]
      exact h.setUsed c _
  | unmark c id =>
      simp only [Rotation.change, unmark, h.isUsed c id, h.usedIds c]
      cases t.isUsed c id
      · exact h
      · exact h.setUsed c _
  | reset c =>
      have hset := h.setUsed c TextSet.empty
      exact ⟨congrArg (· + 1) h.cycle, hset.lastComplexity, hset.courses, hset.isUsed,
        hset.servings⟩
  | countServing k =>
      refine of_get? h.cycle h.lastComplexity h.used fun j => ?_
      simp only [Rotation.change, countServing, Table.get?_set, h.servings, h.servingsOf]
  | discountServing k =>
      simp only [Rotation.change, discountServing, h.servingsOf k]
      split
      · refine of_get? h.cycle h.lastComplexity h.used fun j => ?_
        simp only [Table.get?_set, h.servings]
      · refine of_get? h.cycle h.lastComplexity h.used fun j => ?_
        simp only [Table.get?_erase, h.servings]

/-- States that agree still do after the same changes. -/
theorem changes (h : s.Agrees t) (l : List Change) : (s.changes l).Agrees (t.changes l) := by
  induction l generalizing s t with
  | nil => exact h
  | cons a l ih => exact ih (h.change a)

end Agrees

/-! ## the order of changes -/

theorem used_get?_mark (t : Rotation) (c d : Course) (id : String) :
    (t.mark c id).used.get? d =
      if c = d then some ((t.usedIds c).insert id) else t.used.get? d :=
  Table.get?_set ..

theorem servings_get?_countServing (t : Rotation) (j k : Cuisine) :
    (t.countServing j).servings.get? k =
      if j = k then some (t.servingsOf j + 1) else t.servings.get? k :=
  Table.get?_set ..

/-- Two recipes may be marked in either order. -/
theorem agrees_mark_mark (t : Rotation) (c d : Course) (id id' : String) :
    ((t.mark c id).mark d id').Agrees ((t.mark d id').mark c id) := by
  refine .of_get? rfl rfl (fun e => ?_) fun _ => rfl
  simp only [used_get?_mark, usedIds_mark]
  by_cases hc : c = e <;> by_cases hd : d = e
  · subst hc hd
    simp only [if_true, TextSet.insert_comm]
  · subst hc
    simp only [if_true, if_neg hd, if_neg (Ne.symm hd)]
  · subst hd
    simp only [if_true, if_neg hc, if_neg (Ne.symm hc)]
  · simp only [if_neg hc, if_neg hd]

/-- Two servings may be counted in either order. -/
theorem agrees_countServing_countServing (t : Rotation) (j k : Cuisine) :
    ((t.countServing j).countServing k).Agrees ((t.countServing k).countServing j) := by
  refine .of_get? rfl rfl (fun _ => rfl) fun i => ?_
  simp only [servings_get?_countServing, servingsOf_countServing]
  by_cases hj : j = i <;> by_cases hk : k = i
  · subst hj hk
    rfl
  · subst hj
    simp only [if_true, if_neg hk, if_neg (Ne.symm hk), Nat.add_zero]
  · subst hk
    simp only [if_true, if_neg hj, if_neg (Ne.symm hj), Nat.add_zero]
  · simp only [if_neg hj, if_neg hk]

/-- Two changes that only add may change places. -/
theorem agrees_of_swap (t : Rotation) {a b : Change} (ha : a.adds = true) (hb : b.adds = true) :
    ((t.change a).change b).Agrees ((t.change b).change a) := by
  cases a with
  | mark c id =>
      cases b with
      | mark d id' => exact agrees_mark_mark t c d id id'
      | countServing k => exact .refl _
      | _ => contradiction
  | countServing j =>
      cases b with
      | mark d id => exact .refl _
      | countServing k => exact agrees_countServing_countServing t j k
      | _ => contradiction
  | _ => contradiction

/-- Marks and servings may be entered in any order. -/
theorem agrees_of_perm {l m : List Change} (h : l.Perm m) (hadds : ∀ a ∈ l, a.adds = true)
    (t : Rotation) : (t.changes l).Agrees (t.changes m) := by
  induction h generalizing t with
  | nil => exact .refl t
  | cons a _ ih => exact ih (fun b hb => hadds b (List.mem_cons_of_mem a hb)) (t.change a)
  | swap a b l =>
      rw [List.forall_mem_cons, List.forall_mem_cons] at hadds
      exact (agrees_of_swap t hadds.1 hadds.2.1).changes l
  | trans hlm _ ih ih' =>
      exact (ih hadds t).trans (ih' (fun a ha => hadds a (hlm.mem_iff.mpr ha)) t)

/-! ## the text of a snapshot -/

/-- The text with these courses and their ids, and these cuisines and their servings, in the order
of the lists. -/
def textOf (cycle : Nat) (courses : List (Course × List String)) (cuisines : List (Cuisine × Nat))
    (lastComplexity : Option Float) : String :=
  String.ofList <| Json.write .snapshot <| .record
    [("cycle_number", .ofNat cycle),
     ("used_recipe_ids", .record (courses.map fun p => (p.1.name, .list (p.2.map .text)))),
     ("cuisine_usage_counts", .record (cuisines.map fun p => (p.1.name, .ofNat p.2))),
     ("last_assignment_complexity", (lastComplexity.map Value.ofDouble).getD .null)]

/-- The lists hold what a state has for its courses and cuisines, ids in strictly ascending order,
courses and cuisines in strictly ascending order of their names. -/
structure Lists (t : Rotation) (courses : List (Course × List String))
    (cuisines : List (Cuisine × Nat)) : Prop where
  courses_ascending : courses.Pairwise fun p q => p.1.name < q.1.name
  ids_ascending : ∀ p ∈ courses, p.2.Pairwise (· < ·)
  cuisines_ascending : cuisines.Pairwise fun p q => p.1.name < q.1.name
  mem_courses : ∀ c, (∃ ids, (c, ids) ∈ courses) ↔ (t.used.get? c).isSome = true
  mem_ids : ∀ p ∈ courses, ∀ id, id ∈ p.2 ↔ t.isUsed p.1 id = true
  mem_cuisines : ∀ p, p ∈ cuisines ↔ t.servings.get? p.1 = some p.2

section Text

variable (t : Rotation)

/-- The ids of each course, courses in ascending order of their names. -/
def usedLists : List (Course × List String) :=
  (pairsOf t.used.get? Course.all).map fun p => (p.1, p.2.toList)

/-- The servings of each cuisine, cuisines in ascending order of their names. -/
def servingPairs : List (Cuisine × Nat) := pairsOf t.servings.get? Cuisine.all

/-- What is written of the used recipes are the entries, sorted by the names of their courses. -/
theorem usedFields_eq_sortBy :
    t.usedFields = (sortBy (fun p q => p.1.name ≤ q.1.name) t.used.entries).map fun p =>
      (p.1.name, .list (p.2.toList.map .text)) := by
  rw [usedFields_eq, pairsOf_eq_sortBy t.used Course.mem_all Course.ascending_all]

/-- What is written of the servings are the entries, sorted by the names of their cuisines. -/
theorem servingFields_eq_sortBy :
    t.servingFields = (sortBy (fun p q => p.1.name ≤ q.1.name) t.servings.entries).map fun p =>
      (p.1.name, .ofNat p.2) := by
  rw [servingFields_eq, pairsOf_eq_sortBy t.servings Cuisine.mem_all Cuisine.ascending_all]

theorem toJson_eq : t.toJson = textOf t.cycle t.usedLists t.servingPairs t.lastComplexity := by
  have hused : t.usedFields = t.usedLists.map fun p => (p.1.name, .list (p.2.map .text)) := by
    rw [usedFields_eq, usedLists, List.map_map]
    rfl
  rw [toJson, toValue, hused, servingFields_eq]
  rfl

theorem mem_usedLists {c : Course} {l : List String} :
    (c, l) ∈ t.usedLists ↔ ∃ ids, t.used.get? c = some ids ∧ ids.toList = l := by
  unfold usedLists
  rw [List.mem_map]
  constructor
  · rintro ⟨p, hp, heq⟩
    obtain ⟨rfl, rfl⟩ := Prod.mk.inj heq
    exact ⟨p.2, (mem_pairsOf.mp hp).2, rfl⟩
  · rintro ⟨ids, hids, rfl⟩
    exact ⟨(c, ids), mem_pairsOf.mpr ⟨Course.mem_all c, hids⟩, rfl⟩

theorem lists : t.Lists t.usedLists t.servingPairs where
  courses_ascending := List.pairwise_map.mpr (pairwise_pairsOf Course.ascending_all)
  ids_ascending := by
    rintro ⟨c, l⟩ hp
    obtain ⟨ids, -, rfl⟩ := t.mem_usedLists.mp hp
    exact ids.ascending
  cuisines_ascending := pairwise_pairsOf Cuisine.ascending_all
  mem_courses := by
    intro c
    simp only [mem_usedLists, Option.isSome_iff_exists]
    constructor
    · rintro ⟨l, ids, hids, -⟩
      exact ⟨ids, hids⟩
    · rintro ⟨ids, hids⟩
      exact ⟨ids.toList, ids, hids, rfl⟩
  mem_ids := by
    rintro ⟨c, l⟩ hp id
    obtain ⟨ids, hids, rfl⟩ := t.mem_usedLists.mp hp
    rw [isUsed, usedIds, hids, TextSet.contains_iff]
    rfl
  mem_cuisines := by
    intro p
    rw [servingPairs, mem_pairsOf]
    exact and_iff_right (Cuisine.mem_all p.1)

end Text

/-- Whatever changes they went through, and in which order, two states with the same content have
the same snapshot.  It lists what the states have, ids in strictly ascending order and courses and
cuisines in strictly ascending order of their names. -/
theorem toJson_of_agrees {s₀ t₀ : Rotation} {l m : List Change}
    (h : (s₀.changes l).Agrees (t₀.changes m)) :
    (s₀.changes l).toJson = (t₀.changes m).toJson ∧
      ∃ courses cuisines, (s₀.changes l).Lists courses cuisines ∧
        (t₀.changes m).Lists courses cuisines ∧
        (s₀.changes l).toJson =
          textOf (s₀.changes l).cycle courses cuisines (s₀.changes l).lastComplexity := by
  have hused : (s₀.changes l).usedLists = (t₀.changes m).usedLists := by
    rw [usedLists, funext h.used, usedLists]
  have hservings : (s₀.changes l).servingPairs = (t₀.changes m).servingPairs := by
    rw [servingPairs, funext h.servings, servingPairs]
  have hlists := (t₀.changes m).lists
  rw [← hused, ← hservings] at hlists
  refine ⟨?_, _, _, (s₀.changes l).lists, hlists, (s₀.changes l).toJson_eq⟩
  rw [toJson_eq, toJson_eq, hused, hservings, h.cycle, h.lastComplexity]

/-- Two recipes and two cuisines, entered in opposite orders.  The tables of cuisines differ, the
snapshots do not. -/
theorem toJson_of_agrees_reverse :
    let l : List Change := [.mark .main "b", .mark .main "a", .countServing .thai,
      .countServing .italian]
    (fresh.changes l).Agrees (fresh.changes l.reverse) ∧
      (fresh.changes l).servings ≠ (fresh.changes l.reverse).servings ∧
      (fresh.changes l).toJson = (fresh.changes l.reverse).toJson ∧
      (fresh.changes l).toJson =
        "\x7b\"cycle_number\":1,\"used_recipe_ids\":\x7b\"main_course\":[\"a\",\"b\"]\x7d," ++
        "\"cuisine_usage_counts\":\x7b\"italian\":1,\"thai\":1\x7d," ++
        "\"last_assignment_complexity\":null\x7d" := by
  intro l
  have hagrees : (fresh.changes l).Agrees (fresh.changes l.reverse) :=
    agrees_of_perm (List.reverse_perm l).symm (by decide) fresh
  exact ⟨hagrees, by decide, (toJson_of_agrees hagrees).1, by decide +kernel⟩

end Rotation

end MealRota
