/-!
# MealRota.Order.Table

Finite tables: each key has at most one value, and keys keep the order in which
they were first entered.  The view of a table is `get?`; the order shows in
`keys` alone.

* `get?_set`, `get?_erase` — the view after each operation;
* `keys_set` — a new key goes to the end, a known one keeps its place.
-/

namespace MealRota

/-- A table from `κ` to `ν` in order of first entry, without repeated keys. -/
structure Table (κ : Type _) (ν : Type _) where
  entries : List (κ × ν)
  nodup : (entries.map Prod.fst).Nodup

namespace Table

variable {κ ν : Type _} [DecidableEq κ]

instance [DecidableEq ν] : DecidableEq (Table κ ν) := fun s t =>
  if h : s.entries = t.entries then
    isTrue (by cases s; cases t; simp_all)
  else
    isFalse (fun e => h (congrArg entries e))

/-- The table without entries. -/
def empty : Table κ ν := ⟨[], List.Pairwise.nil⟩

instance : Inhabited (Table κ ν) := ⟨⟨[], List.Pairwise.nil⟩⟩

/-- The keys in order of first entry. -/
def keys (t : Table κ ν) : List κ := t.entries.map Prod.fst

/-! ## looking up -/

/-- The value beside `k` in a list of pairs. -/
def find (k : κ) : List (κ × ν) → Option ν
  | [] => none
  | (j, v) :: l => if j = k then some v else find k l

/-- The value of a key, if the table has one. -/
def get? (t : Table κ ν) (k : κ) : Option ν := find k t.entries

theorem find_eq_some_iff {k : κ} {v : ν} {l : List (κ × ν)} (h : (l.map Prod.fst).Nodup) :
    find k l = some v ↔ (k, v) ∈ l := by
  induction l with
  | nil => simp [find]
  | cons p l ih =>
      obtain ⟨j, w⟩ := p
      rw [List.map_cons, List.nodup_cons] at h
      by_cases hj : j = k
      · subst hj
        have hout : (j, v) ∉ l := fun hin => h.1 (List.mem_map.mpr ⟨_, hin, rfl⟩)
        simp [find, hout, eq_comm]
      · simp [find, hj, Ne.symm hj, ih h.2]

theorem get?_eq_some_iff {t : Table κ ν} {k : κ} {v : ν} :
    t.get? k = some v ↔ (k, v) ∈ t.entries :=
  find_eq_some_iff t.nodup

/-! ## entering a value -/

/-- Replace the value beside `k`, or add the pair at the end. -/
def setList (k : κ) (v : ν) : List (κ × ν) → List (κ × ν)
  | [] => [(k, v)]
  | (j, w) :: l => if j = k then (j, v) :: l else (j, w) :: setList k v l

theorem keys_setList (k : κ) (v : ν) (l : List (κ × ν)) :
    (setList k v l).map Prod.fst =
      if k ∈ l.map Prod.fst then l.map Prod.fst else l.map Prod.fst ++ [k] := by
  induction l with
  | nil => simp [setList]
  | cons p l ih =>
      obtain ⟨j, w⟩ := p
      by_cases h : j = k
      · simp [setList, h]
      · by_cases hm : k ∈ l.map Prod.fst
        · simp [setList, h, ih, hm]
        · simp [setList, h, ih, hm, Ne.symm h]

theorem nodup_setList (k : κ) (v : ν) {l : List (κ × ν)} (h : (l.map Prod.fst).Nodup) :
    ((setList k v l).map Prod.fst).Nodup := by
  rw [keys_setList]
  split
  · exact h
  · next hk =>
      refine List.nodup_append.mpr ⟨h, by simp, ?_⟩
      intro a ha b hb
      rw [List.mem_singleton] at hb
      subst hb
      exact fun e => hk (e ▸ ha)

/-- The table with `v` as the value of `k`. -/
def set (t : Table κ ν) (k : κ) (v : ν) : Table κ ν :=
  ⟨setList k v t.entries, nodup_setList k v t.nodup⟩

theorem keys_set (t : Table κ ν) (k : κ) (v : ν) :
    (t.set k v).keys = if k ∈ t.keys then t.keys else t.keys ++ [k] :=
  keys_setList k v t.entries

theorem find_setList (k : κ) (v : ν) (l : List (κ × ν)) (j : κ) :
    find j (setList k v l) = if k = j then some v else find j l := by
  induction l with
  | nil => simp [setList, find]
  | cons p l ih =>
      obtain ⟨i, w⟩ := p
      by_cases hi : i = k
      · subst hi
        by_cases hj : i = j <;> simp [setList, find, hj]
      · by_cases hj : i = j
        · subst hj
          simp [setList, find, hi, Ne.symm hi]
        · simp [setList, find, hi, hj, ih]

@[simp] theorem get?_set (t : Table κ ν) (k : κ) (v : ν) (j : κ) :
    (t.set k v).get? j = if k = j then some v else t.get? j :=
  find_setList k v t.entries j

@[simp] theorem get?_empty (k : κ) : (empty : Table κ ν).get? k = none := rfl

/-! ## striking out an entry -/

/-- The table without an entry for `k`. -/
def erase (t : Table κ ν) (k : κ) : Table κ ν :=
  ⟨t.entries.filter (fun p => !decide (p.1 = k)),
    t.nodup.sublist (List.Sublist.map _ List.filter_sublist)⟩

theorem find_filter (k j : κ) (l : List (κ × ν)) :
    find j (l.filter (fun p => !decide (p.1 = k))) = if k = j then none else find j l := by
  induction l with
  | nil => simp [find]
  | cons p l ih =>
      obtain ⟨i, w⟩ := p
      by_cases hi : i = k
      · subst hi
        by_cases hj : i = j <;> simp_all [find]
      · by_cases hj : i = j
        · subst hj
          simp [find, hi, Ne.symm hi]
        · by_cases hkj : k = j <;> simp_all [find]

@[simp] theorem get?_erase (t : Table κ ν) (k j : κ) :
    (t.erase k).get? j = if k = j then none else t.get? j :=
  find_filter k j t.entries

/-! ## tables from lists -/

/-- Enter the pairs of a list in turn, a later value for a key replacing an earlier one. -/
def ofList (l : List (κ × ν)) : Table κ ν := l.foldl (fun t p => t.set p.1 p.2) empty

end Table

end MealRota
