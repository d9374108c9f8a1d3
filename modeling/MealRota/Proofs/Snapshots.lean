import MealRota.Proofs.WrittenValues
import MealRota.Rotation.Snapshot

/-!
# MealRota.Proofs.Snapshots

Storing a rotation state and loading it again.

* `Rotation.asLoaded` — the state without a last complexity that is not finite, for which a
  snapshot has no number;
* `Rotation.FewDigits` — the states of whose whole numbers a snapshot reader takes the digits;
* `Rotation.loaded_of_stored` — the snapshot of a state with few digits is loaded as the same
  state, but for such a complexity; any other snapshot is refused.
-/

namespace MealRota

open Form Json

/-! ## tables from lists -/

section Tables

variable {κ ν : Type} [DecidableEq κ] {g : κ → Option ν}

/-- Entering pairs of a function makes a table agree with the function on their keys. -/
theorem Table.get?_foldl_set {l : List (κ × ν)} (h : ∀ p ∈ l, g p.1 = some p.2) (t : Table κ ν)
    (k : κ) :
    (l.foldl (fun t p => t.set p.1 p.2) t).get? k =
      if k ∈ l.map Prod.fst then g k else t.get? k := by
  induction l generalizing t with
  | nil => rfl
  | cons p l ih =>
      obtain ⟨hp, hl⟩ := List.forall_mem_cons.mp h
      rw [List.foldl_cons, ih hl, Table.get?_set]
      simp only [List.map_cons, List.mem_cons]
      by_cases hk : k ∈ l.map Prod.fst
      · simp only [hk, or_true, if_true]
      · by_cases heq : p.1 = k
        · subst heq
          simp only [hk, true_or, if_true, if_false, hp]
        · simp only [hk, heq, Ne.symm heq, or_self, if_false]

/-- A table of all pairs of a function is the function. -/
theorem Table.get?_ofList {l : List (κ × ν)} (h : ∀ p ∈ l, g p.1 = some p.2)
    (hall : ∀ k, g k ≠ none → k ∈ l.map Prod.fst) (k : κ) : (Table.ofList l).get? k = g k := by
  rw [Table.ofList, Table.get?_foldl_set h]
  by_cases hk : g k = none
  · rw [hk, Table.get?_empty, ite_self]
  · rw [if_pos (hall k hk)]

/-- The pairs of a function, for the keys of a list. -/
def pairsOf (g : κ → Option ν) (keys : List κ) : List (κ × ν) :=
  keys.filterMap fun k => (g k).map (Prod.mk k)

omit [DecidableEq κ] in
theorem mem_pairsOf {keys : List κ} {p : κ × ν} :
    p ∈ pairsOf g keys ↔ p.1 ∈ keys ∧ g p.1 = some p.2 := by
  obtain ⟨k, v⟩ := p
  simp only [pairsOf, List.mem_filterMap, Option.map_eq_some_iff, Prod.mk.injEq]
  constructor
  · rintro ⟨k, hk, v, hv, rfl, rfl⟩
    exact ⟨hk, hv⟩
  · rintro ⟨hk, hv⟩
    exact ⟨k, hk, v, hv, rfl, rfl⟩

theorem Table.get?_ofList_pairsOf {keys : List κ} (hkeys : ∀ k, k ∈ keys) (k : κ) :
    (Table.ofList (pairsOf g keys)).get? k = g k := by
  refine Table.get?_ofList (fun p hp => (mem_pairsOf.mp hp).2) (fun k hk => ?_) k
  obtain ⟨v, hv⟩ := Option.ne_none_iff_exists'.mp hk
  exact List.mem_map.mpr ⟨(k, v), mem_pairsOf.mpr ⟨hkeys k, hv⟩, rfl⟩

end Tables

/-- The set of the members of a set. -/
theorem TextSet.ofList_toList (s : TextSet) : TextSet.ofList s.toList = s :=
  TextSet.ext fun _ => TextSet.mem_ofList

/-! ## what comes back of a snapshot -/

section AsRead

variable {limits : Limits} {f : Layout}

theorem itemsAsRead_texts (l : List String) :
    itemsAsRead limits f (l.map .text) = .ok (l.map .text) := by
  induction l with
  | nil => rfl
  | cons s l ih =>
      rw [List.map_cons, itemsAsRead, ih]
      rfl

/-- If all fields come back as they are, so does the record. -/
theorem fieldsAsRead_of_forall {l : List (String × Value)}
    (h : ∀ p ∈ l, asRead limits f p.2 = .ok p.2) : fieldsAsRead limits f l = .ok l := by
  induction l with
  | nil => rfl
  | cons p l ih =>
      obtain ⟨hp, hl⟩ := List.forall_mem_cons.mp h
      rw [fieldsAsRead, hp, ih hl]
      rfl

/-- If a field is not read, neither is the record. -/
theorem fieldsAsRead_of_exists {l : List (String × Value)}
    (h : ∃ p ∈ l, ∃ problem, asRead limits f p.2 = .error problem) :
    ∃ problem, fieldsAsRead limits f l = .error problem := by
  induction l with
  | nil =>
      obtain ⟨p, hp, -⟩ := h
      exact absurd hp List.not_mem_nil
  | cons p l ih =>
      rw [fieldsAsRead]
      cases hp : asRead limits f p.2 with
      | error problem => exact ⟨problem, rfl⟩
      | ok w =>
          obtain ⟨q, hq, problem, hproblem⟩ := h
          rcases List.mem_cons.mp hq with rfl | hq
          · rw [hp] at hproblem
            contradiction
          · obtain ⟨problem, hl⟩ := ih ⟨q, hq, problem, hproblem⟩
            rw [hl]
            exact ⟨problem, rfl⟩

end AsRead

/-- A natural number is read from a snapshot if it has few enough digits. -/
theorem asRead_ofNat (n : Nat) :
    asRead Rotation.snapshotLimits .snapshot (.ofNat n) =
      if n < 10 ^ mostDigits then .ok (.ofNat n) else .error .malformed := by
  have hdigits : (Nat.toDigits 10 n).length ≤ mostDigits ↔ n < 10 ^ mostDigits :=
    Nat.length_toDigits_le_iff (by decide) (by decide)
  rw [Value.ofNat, asRead, scalar?_whole]
  simp only [Rotation.snapshotLimits, Option.all_some, Int.natAbs_natCast, decide_eq_true_eq,
    hdigits]
  split_ifs <;> rfl

/-- A double is read from a snapshot, but null in place of one that is not finite. -/
theorem asRead_ofDouble (x : Float) :
    asRead Rotation.snapshotLimits .snapshot (.ofDouble x) =
      .ok (if x.isFinite then .ofDouble x else .null) := by
  rw [Value.ofDouble, asRead, scalar?_real (by decide)]
  rfl

namespace Rotation

/-- The states of whose whole numbers a snapshot reader takes the digits. -/
structure FewDigits (t : Rotation) : Prop where
  cycle : t.cycle < 10 ^ mostDigits
  servings : ∀ k, t.servingsOf k < 10 ^ mostDigits

/-- The state that is loaded in place of a stored one: the same state, but without a last
complexity that is not finite. -/
def asLoaded (t : Rotation) : Rotation :=
  { t with lastComplexity := t.lastComplexity.filter (·.isFinite) }

section Stored

variable {t : Rotation}

theorem usedFields_eq (t : Rotation) :
    t.usedFields = (pairsOf t.used.get? Course.all).map fun p =>
      (p.1.name, .list (p.2.toList.map .text)) := by
  rw [usedFields, pairsOf, List.map_filterMap]
  simp only [Option.map_map]
  rfl

theorem servingFields_eq (t : Rotation) :
    t.servingFields = (pairsOf t.servings.get? Cuisine.all).map fun p =>
      (p.1.name, .ofNat p.2) := by
  rw [servingFields, pairsOf, List.map_filterMap]
  simp only [Option.map_map]
  rfl

theorem fieldsAsRead_usedFields (t : Rotation) :
    fieldsAsRead snapshotLimits .snapshot t.usedFields = .ok t.usedFields := by
  refine fieldsAsRead_of_forall fun p hp => ?_
  rw [usedFields_eq] at hp
  obtain ⟨q, -, rfl⟩ := List.mem_map.mp hp
  rw [asRead, itemsAsRead_texts]
  rfl

theorem depth_toValue (t : Rotation) : t.toValue.depth ≤ 3 := by
  have hused : (Value.record t.usedFields).depth ≤ 2 := by
    rw [Value.depth, Value.fieldsDepth_le_iff, usedFields_eq, List.forall_mem_map]
    intro p _
    have hids : (Value.list (p.2.toList.map .text)).depth ≤ 1 := by
      rw [Value.depth, Value.itemsDepth_le_iff, List.forall_mem_map]
      exact fun _ _ => le_refl 1
    exact Nat.succ_le_succ hids
  have hservings : (Value.record t.servingFields).depth ≤ 2 := by
    rw [Value.depth, Value.fieldsDepth_le_iff, servingFields_eq, List.forall_mem_map]
    exact fun _ _ => Nat.succ_le_succ (Nat.zero_le 1)
  have hlast : ((t.lastComplexity.map Value.ofDouble).getD .null).depth = 0 := by
    cases t.lastComplexity <;> rfl
  rw [toValue, Value.depth, Value.fieldsDepth_le_iff]
  simp only [List.forall_mem_cons, hlast]
  exact ⟨Nat.succ_le_succ (Nat.zero_le 2), Nat.succ_le_succ hused, Nat.succ_le_succ hservings,
    Nat.succ_le_succ (Nat.zero_le 2), nofun⟩

theorem admits_toValue (t : Rotation) : snapshotLimits.Admits 0 t.toValue.depth := by
  have hdepth := depth_toValue t
  exact decide_eq_true (by omega)

theorem asRead_lastComplexity (t : Rotation) :
    Json.asRead snapshotLimits .snapshot ((t.lastComplexity.map Value.ofDouble).getD .null) =
      .ok ((t.asLoaded.lastComplexity.map Value.ofDouble).getD .null) := by
  unfold asLoaded
  cases t.lastComplexity with
  | none => rfl
  | some x =>
      simp only [Option.map_some, Option.getD_some, asRead_ofDouble, Option.filter_some]
      split_ifs <;> rfl

/-- The data of a state with few digits comes back. -/
theorem FewDigits.asRead (h : t.FewDigits) :
    Json.asRead snapshotLimits .snapshot t.toValue = .ok t.asLoaded.toValue := by
  have hservings : fieldsAsRead snapshotLimits .snapshot t.servingFields = .ok t.servingFields := by
    refine fieldsAsRead_of_forall fun p hp => ?_
    rw [servingFields_eq] at hp
    obtain ⟨q, hq, rfl⟩ := List.mem_map.mp hp
    have hcount := h.servings q.1
    rw [servingsOf, (mem_pairsOf.mp hq).2, Option.getD_some] at hcount
    rw [asRead_ofNat, if_pos hcount]
  rw [toValue, Json.asRead]
  simp only [fieldsAsRead, asRead_ofNat, if_pos h.cycle, Json.asRead, fieldsAsRead_usedFields,
    hservings, asRead_lastComplexity]
  rfl

/-- The data of any other state does not. -/
theorem asRead_of_not_fewDigits (h : ¬ t.FewDigits) :
    ∃ problem, Json.asRead snapshotLimits .snapshot t.toValue = .error problem := by
  have hfield : ∃ p ∈ [("cycle_number", Value.ofNat t.cycle),
      ("used_recipe_ids", .record t.usedFields), ("cuisine_usage_counts", .record t.servingFields),
      ("last_assignment_complexity", (t.lastComplexity.map Value.ofDouble).getD .null)],
      ∃ problem, Json.asRead snapshotLimits .snapshot p.2 = .error problem := by
    by_cases hcycle : t.cycle < 10 ^ mostDigits
    · obtain ⟨k, hk⟩ : ∃ k, ¬ t.servingsOf k < 10 ^ mostDigits := by
        by_contra hall
        exact h ⟨hcycle, fun k => by_contra fun hk => hall ⟨k, hk⟩⟩
      obtain ⟨n, hn⟩ : ∃ n, t.servings.get? k = some n := by
        refine Option.ne_none_iff_exists'.mp fun hnone => hk ?_
        rw [servingsOf, hnone, Option.getD_none]
        exact Nat.pow_pos (by decide)
      rw [servingsOf, hn, Option.getD_some] at hk
      have hcount : ∃ p ∈ t.servingFields, ∃ problem,
          Json.asRead snapshotLimits .snapshot p.2 = .error problem := by
        rw [servingFields_eq]
        have hmem : (k, n) ∈ pairsOf t.servings.get? Cuisine.all :=
          mem_pairsOf.mpr ⟨Cuisine.mem_all k, hn⟩
        refine ⟨_, List.mem_map_of_mem hmem, .malformed, ?_⟩
        rw [asRead_ofNat, if_neg hk]
      obtain ⟨problem, hproblem⟩ := fieldsAsRead_of_exists hcount
      refine ⟨_, List.mem_cons_of_mem _ (List.mem_cons_of_mem _ List.mem_cons_self), problem, ?_⟩
      rw [Json.asRead, hproblem]
      rfl
    · refine ⟨_, List.mem_cons_self, .malformed, ?_⟩
      rw [asRead_ofNat, if_neg hcycle]
  obtain ⟨problem, hproblem⟩ := fieldsAsRead_of_exists hfield
  rw [toValue, Json.asRead, hproblem]
  exact ⟨problem, rfl⟩

end Stored

/-! ## reading the form -/

theorem items_texts (l : List String) (start : Nat) :
    Checked.items text start (l.map .text) = .ok l := by
  induction l generalizing start with
  | nil => rfl
  | cons s l ih =>
      rw [List.map_cons, Checked.items, ih]
      rfl

theorem textSet_toList (s : TextSet) : textSet (.list (s.toList.map .text)) = .ok s := by
  rw [textSet, Form.setOf, items_texts, Checked.map, TextSet.ofList_toList]

theorem wholeFrom_ofNat {least n : Nat} (h : least ≤ n) : wholeFrom least (.ofNat n) = .ok n :=
  if_pos (Int.ofNat_le.mpr h)

/-- Entries are read if each name is that of its key and each value is read. -/
theorem entries_map {κ ν : Type} (name : κ → String) (value : ν → Value)
    {ofName? : String → Option κ} {check : Value → Checked ν} {l : List (κ × ν)}
    (hname : ∀ p ∈ l, ofName? (name p.1) = some p.1)
    (hcheck : ∀ p ∈ l, check (value p.2) = .ok p.2) :
    entries ofName? check (l.map fun p => (name p.1, value p.2)) = .ok l := by
  induction l with
  | nil => rfl
  | cons p l ih =>
      obtain ⟨hp, hl⟩ := List.forall_mem_cons.mp hname
      obtain ⟨hc, hcl⟩ := List.forall_mem_cons.mp hcheck
      rw [List.map_cons, entries, ih hl hcl, hc, member, hp]
      rfl

/-- The state of a state's own data: the same, its tables entered anew. -/
theorem ofValueBy_toValue {t : Rotation} (h : 1 ≤ t.cycle) :
    ofValueBy boundlessDouble t.toValue =
      .ok ⟨t.cycle, .ofList (pairsOf t.used.get? Course.all),
        .ofList (pairsOf t.servings.get? Cuisine.all), t.lastComplexity⟩ := by
  have hused : table Course.ofName? textSet (.record t.usedFields) =
      .ok (pairsOf t.used.get? Course.all) := by
    rw [table, usedFields_eq]
    refine entries_map Course.name (fun ids => .list (ids.toList.map .text)) (fun p _ => ?_)
      fun p _ => textSet_toList p.2
    cases p.1 <;> decide
  have hservings : table Cuisine.ofName? (wholeFrom 0) (.record t.servingFields) =
      .ok (pairsOf t.servings.get? Cuisine.all) := by
    rw [table, servingFields_eq]
    refine entries_map Cuisine.name Value.ofNat (fun p _ => ?_)
      fun p _ => wholeFrom_ofNat (Nat.zero_le p.2)
    cases p.1 <;> decide
  have hlast : nullable boundlessDouble ((t.lastComplexity.map Value.ofDouble).getD .null) =
      .ok t.lastComplexity := by
    cases t.lastComplexity <;> rfl
  simp only [toValue, ofValueBy, Form.optional, Value.lookup, String.reduceEq, if_true, if_false,
    Option.or_self, Option.or_some, Option.or_none, Option.getD_none, wholeFrom_ofNat h, hused,
    hservings, hlast, Checked.under]
  rfl

/-! ## storing and loading -/

/-- The snapshot of a state with few digits is loaded. -/
theorem FewDigits.ofJson_toJson {t : Rotation} (h : t.FewDigits) (hcycle : 1 ≤ t.cycle) :
    ofJson t.toJson =
      .ok ⟨t.cycle, .ofList (pairsOf t.used.get? Course.all),
        .ofList (pairsOf t.servings.get? Cuisine.all), t.asLoaded.lastComplexity⟩ := by
  unfold ofJson toJson
  rw [read_write _ (admits_toValue t), h.asRead]
  simp only [ofValueBy_toValue (t := t.asLoaded) hcycle]
  rfl

/-- The snapshot of any other state is refused. -/
theorem ofJson_toJson_of_not_fewDigits {t : Rotation} (h : ¬ t.FewDigits) :
    ofJson t.toJson = .error (.invalidRotation (.malformed 1)) := by
  obtain ⟨problem, hproblem⟩ := asRead_of_not_fewDigits h
  unfold ofJson toJson
  rw [read_write _ (admits_toValue t), hproblem]

/-- States with the same numbers and sets have the same content if their last complexities do. -/
theorem sameContent_iff {t u : Rotation} (hcycle : u.cycle = t.cycle)
    (hused : ∀ c, u.used.get? c = t.used.get? c)
    (hservings : ∀ k, u.servings.get? k = t.servings.get? k)
    (hlast : u.lastComplexity = t.lastComplexity.filter (·.isFinite)) :
    u.sameContent t = true ↔ ∀ x ∈ t.lastComplexity, x.isFinite = true := by
  have hcourses : (Course.all.all fun c => u.used.get? c = t.used.get? c) = true :=
    List.all_eq_true.mpr fun c _ => decide_eq_true (hused c)
  have hcuisines : (Cuisine.all.all fun k => u.servings.get? k = t.servings.get? k) = true :=
    List.all_eq_true.mpr fun k _ => decide_eq_true (hservings k)
  unfold sameContent
  rw [hcourses, hcuisines, decide_eq_true hcycle, hlast]
  cases t.lastComplexity with
  | none => exact iff_of_true rfl nofun
  | some x =>
      rw [Option.filter_some]
      cases hx : x.isFinite with
      | true =>
          refine iff_of_true (beq_self_of_isFinite hx) ?_
          intro y hy
          obtain rfl := Option.mem_some.mp hy
          exact hx
      | false =>
          refine iff_of_false Bool.false_ne_true fun hfinite => ?_
          rw [hfinite x rfl] at hx
          contradiction

/-- The snapshot of a state whose whole numbers have few digits is loaded as a state with the same
cycle number, the same sets of used recipes and the same servings.  Only a last complexity that is
not finite is lost, and then the loaded state is another one.  Any other snapshot is refused. -/
theorem loaded_of_stored (t : Rotation) (h : 1 ≤ t.cycle) :
    (t.FewDigits → ∃ u, ofJson t.toJson = .ok u ∧ u.cycle = t.cycle ∧
      (∀ c, u.used.get? c = t.used.get? c) ∧ (∀ k, u.servings.get? k = t.servings.get? k) ∧
      u.lastComplexity = t.lastComplexity.filter (·.isFinite) ∧
      (u.sameContent t = true ↔ ∀ x ∈ t.lastComplexity, x.isFinite = true)) ∧
    (¬ t.FewDigits → ofJson t.toJson = .error (.invalidRotation (.malformed 1))) := by
  refine ⟨fun hfew => ⟨_, hfew.ofJson_toJson h, ?_⟩, ofJson_toJson_of_not_fewDigits⟩
  have hused := Table.get?_ofList_pairsOf (g := t.used.get?) Course.mem_all
  have hservings := Table.get?_ofList_pairsOf (g := t.servings.get?) Cuisine.mem_all
  exact ⟨rfl, hused, hservings, rfl, sameContent_iff rfl hused hservings rfl⟩

/-- Ids with a quote, a line break and a letter beyond ASCII, a course whose cycle has begun anew,
and a last complexity of a tenth come back; an infinite last complexity is lost. -/
theorem loaded_of_stored_tenth :
    let marked := ((fresh.mark .main "a\"\n").mark .main "é").reset .side
    let t (x : Float) : Rotation := { marked.countServing .thai with lastComplexity := some x }
    (∀ x, 1 ≤ (t x).cycle ∧ (t x).FewDigits) ∧
      (∃ u, ofJson (t 0.1).toJson = .ok u ∧ u.usedIds .side = .empty ∧
        u.usedIds .main = .ofList ["a\"\n", "é"] ∧ u.servingsOf .thai = 1 ∧
        u.sameContent (t 0.1) = true) ∧
      ∃ u, ofJson (t (1 / 0)).toJson = .ok u ∧ u.lastComplexity = none ∧
        u.sameContent (t (1 / 0)) = false := by
  intro marked t
  have hsmall : ∀ n < 10, n < 10 ^ mostDigits := fun n hn =>
    hn.trans_le (Nat.le_self_pow (by decide) 10)
  have hfew : ∀ x, (t x).FewDigits := fun x => by
    refine ⟨hsmall 2 (by decide), fun k => ?_⟩
    change (marked.countServing .thai).servingsOf k < _
    rw [servingsOf_countServing]
    split
    · exact hsmall 1 (by decide)
    · exact hsmall 0 (by decide)
  refine ⟨fun x => ⟨Nat.le_add_left 1 1, hfew x⟩, ?_, ?_⟩
  · obtain ⟨u, hload, -, hused, hservings, -, hsame⟩ :=
      (loaded_of_stored (t 0.1) (Nat.le_add_left 1 1)).1 (hfew 0.1)
    refine ⟨u, hload, ?_, ?_, ?_, hsame.mpr ?_⟩
    · rw [usedIds, hused]
      decide
    · rw [usedIds, hused]
      decide
    · rw [servingsOf, hservings]
      decide
    · intro x hx
      obtain rfl := Option.mem_some.mp hx
      decide
  · obtain ⟨u, hload, -, -, -, hlast, hsame⟩ :=
      (loaded_of_stored (t (1 / 0)) (Nat.le_add_left 1 1)).1 (hfew (1 / 0))
    refine ⟨u, hload, hlast.trans (by decide), Bool.eq_false_iff.mpr fun heq => ?_⟩
    exact absurd (hsame.mp heq (1 / 0) rfl) (by decide)

/-- A cycle number of 4301 digits can be stored but not loaded. -/
theorem not_loaded_of_stored_long :
    let t : Rotation := ⟨10 ^ mostDigits, .empty, .empty, none⟩
    1 ≤ t.cycle ∧ ¬ ∃ u, ofJson t.toJson = .ok u := by
  intro t
  refine ⟨Nat.one_le_pow mostDigits 10 (by decide), ?_⟩
  rintro ⟨u, hu⟩
  have hmany : ¬ t.FewDigits := fun h => Nat.lt_irrefl _ h.cycle
  rw [ofJson_toJson_of_not_fewDigits hmany] at hu
  contradiction

end Rotation

end MealRota
