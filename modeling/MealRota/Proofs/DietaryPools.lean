import Mathlib.Data.List.Forall2
import MealRota.Form.Recipe
import MealRota.Pool
import MealRota.Proofs.Tags

/-!
# MealRota.Proofs.DietaryPools

Which recipes a pool is made of, told from the labels as they are written in the forms of the
recipes and of the preferences.  The labels of recipes are brought into normal form once, those
asked for twice; since a normal form is its own normal form, either way two labels
are compared by their normal forms.

* `Form.labelSet_ok` — the labels of a field, in normal form;
* `meetsDiet_iff` — the restrictions by normal forms;
* `Pool.get?_ofRecipes` — of recipes that share an id the first is kept;
* `Pool.get?_ofEligible_forms` — what a pool has for an id.
-/

namespace MealRota

open Form Text

/-! ## labels as they are written -/

namespace Form

/-- The text of a value, if it is one. -/
def textOf? : Value → Option String
  | .text s => some s
  | _ => none

/-- The labels of a field as they are written: none if the field is left out or null. -/
def rawLabels (fields : List (String × Value)) (key : String) : List String :=
  match Value.lookup key fields with
  | none => []
  | some v =>
    match parts v with
    | .ok l => l.filterMap textOf?
    | .error _ => []

/-- The labels of a form as they are written. -/
def rawLabelsOf (key : String) : Value → List String
  | .record fields => rawLabels fields key
  | _ => []

theorem mapM_label_ok {l : List Value} {names : List String} (h : l.mapM label = .ok names) :
    names = (l.filterMap textOf?).map normalizeTag := by
  induction l generalizing names with
  | nil => exact (Except.ok.inj h).symm
  | cons v l ih =>
      rw [List.mapM_cons] at h
      cases v with
      | text s =>
          cases hl : l.mapM label with
          | error f =>
              rw [hl] at h
              contradiction
          | ok rest =>
              rw [hl] at h
              rw [← Except.ok.inj h, ih hl]
              rfl
      | _ => contradiction

/-- The labels of a field that can be read are the normal forms of those that are written. -/
theorem labelSet_ok {fields : List (String × Value)} {key : String} {labels : TextSet}
    (h : labelSet fields key = .ok labels) :
    labels = TextSet.ofList ((rawLabels fields key).map normalizeTag) := by
  have hread (v : Value) (hv : (Form.labels v).map TextSet.ofList = .ok labels)
      (hfield : Value.lookup key fields = some v) :
      labels = TextSet.ofList ((rawLabels fields key).map normalizeTag) := by
    unfold rawLabels
    unfold Form.labels at hv
    simp only [hfield]
    cases hparts : parts v with
    | error f =>
        rw [hparts] at hv
        contradiction
    | ok l =>
        rw [hparts] at hv
        simp only [bind, Except.bind] at hv ⊢
        cases hnames : l.mapM label with
        | error f =>
            rw [hnames] at hv
            contradiction
        | ok names =>
            rw [hnames] at hv
            rw [← Except.ok.inj hv, mapM_label_ok hnames]
  unfold labelSet at h
  split at h
  · next hnone =>
      rw [rawLabels, hnone, ← Except.ok.inj h]
      rfl
  · next hnull =>
      rw [rawLabels, hnull, ← Except.ok.inj h]
      rfl
  · next v _ hfield => exact hread v h hfield

/-! ## forms -/

/-- Whether all that a check can read has a property. -/
def Checked.Ensures {α : Type} (P : α → Prop) (x : Checked α) : Prop := ∀ a, x = .ok a → P a

variable {α β : Type} {P : β → Prop}

theorem Checked.Ensures.map {f : α → β} (h : ∀ a, P (f a)) (x : Checked α) :
    (f <$> x).Ensures P := by
  cases x with
  | ok a =>
      rintro b ⟨⟩
      exact h a
  | bad l => exact fun b hb => by contradiction

theorem Checked.Ensures.seq {f : Checked (α → β)} (h : f.Ensures fun g => ∀ a, P (g a))
    (x : Checked α) : (f <*> x).Ensures P := by
  cases f with
  | ok g =>
      cases x with
      | ok a =>
          rintro b ⟨⟩
          exact h g rfl a
      | bad l => exact fun b hb => by contradiction
  | bad l => cases x <;> exact fun b hb => by contradiction

end Form

/-- The labels of a recipe are those of its form, in normal form. -/
theorem Recipe.tags_of_ofValue {form : Value} {r : Recipe} (h : Recipe.ofValue form = .ok r) :
    r.tags = TextSet.ofList ((rawLabelsOf "dietary_tags" form).map normalizeTag) := by
  have hfields (fields : List (String × Value)) (tags : TextSet) :
      (Recipe.ofFields fields tags).Ensures fun r => r.tags = tags := by
    unfold Recipe.ofFields
    iterate 12 apply Checked.Ensures.seq
    exact Checked.Ensures.map (fun _ _ _ _ _ _ _ _ _ _ _ _ _ => rfl) _
  cases form with
  | record fields =>
      unfold Recipe.ofValue at h
      simp only at h
      split at h
      · contradiction
      · next tags htags =>
          rw [rawLabelsOf, ← labelSet_ok htags]
          cases hr : Recipe.ofFields fields tags with
          | bad l =>
              rw [hr] at h
              contradiction
          | ok r' =>
              rw [hr] at h
              rw [← Except.ok.inj h]
              exact hfields fields tags r' hr
  | _ => contradiction

/-- The labels that preferences ask for are those of their form, in normal form. -/
theorem Preferences.restrictions_of_ofValue {form : Value} {prefs : Preferences}
    (h : Preferences.ofValue form = .ok prefs) : prefs.restrictions =
      TextSet.ofList ((rawLabelsOf "dietary_restrictions" form).map normalizeTag) := by
  have hfields (fields : List (String × Value)) (restrictions : TextSet) :
      (Preferences.ofFields fields restrictions).Ensures
        fun p => p.restrictions = restrictions := by
    unfold Preferences.ofFields
    iterate 5 apply Checked.Ensures.seq
    exact Checked.Ensures.map (fun _ _ _ _ _ _ => rfl) _
  cases form with
  | record fields =>
      unfold Preferences.ofValue at h
      simp only at h
      split at h
      · contradiction
      · next restrictions hrestrictions =>
          rw [rawLabelsOf, ← labelSet_ok hrestrictions]
          cases hp : Preferences.ofFields fields restrictions with
          | bad l =>
              rw [hp] at h
              contradiction
          | ok p =>
              rw [hp] at h
              simp only [Checked.andThen, Preferences.checkCeilings] at h
              split at h
              · contradiction
              · rw [← Except.ok.inj h]
                exact hfields fields restrictions p hp
  | _ => contradiction

/-! ## the restrictions -/

/-- Whether labels answer to those that are wanted, compared by their normal forms: every one that
is wanted is among them, or at least one is, if any is wanted. -/
def Answers (mode : DietMode) (wanted labels : List String) : Prop :=
  match mode with
  | .all => ∀ w ∈ wanted, ∃ l ∈ labels, normalizeTag l = normalizeTag w
  | .any => wanted = [] ∨ ∃ w ∈ wanted, ∃ l ∈ labels, normalizeTag l = normalizeTag w

instance (mode : DietMode) (wanted labels : List String) :
    Decidable (Answers mode wanted labels) := by
  cases mode
  · exact inferInstanceAs (Decidable (∀ w ∈ wanted, ∃ l ∈ labels, _))
  · exact inferInstanceAs (Decidable (wanted = [] ∨ ∃ w ∈ wanted, ∃ l ∈ labels, _))

theorem mem_normalForms {x : String} {labels : List String} :
    x ∈ TextSet.ofList (labels.map normalizeTag) ↔ ∃ l ∈ labels, normalizeTag l = x := by
  simp

/-- The labels asked for do not change when they are brought into normal form again. -/
theorem normalForms_again (labels : List String) :
    TextSet.ofList ((TextSet.ofList (labels.map normalizeTag)).toList.map normalizeTag) =
      TextSet.ofList (labels.map normalizeTag) := by
  refine TextSet.ext fun x => ?_
  rw [mem_normalForms]
  constructor
  · rintro ⟨l, hl, rfl⟩
    obtain ⟨w, hw, rfl⟩ := mem_normalForms.mp (TextSet.mem_def.mpr hl)
    rw [normalizeTag_normalizeTag]
    exact mem_normalForms.mpr ⟨w, hw, rfl⟩
  · intro hx
    obtain ⟨w, -, rfl⟩ := mem_normalForms.mp hx
    exact ⟨_, TextSet.mem_def.mp hx, normalizeTag_normalizeTag w⟩

theorem isEmpty_normalForms (labels : List String) :
    (TextSet.ofList (labels.map normalizeTag)).isEmpty = true ↔ labels = [] := by
  constructor
  · intro h
    cases labels with
    | nil => rfl
    | cons l labels =>
        have hin : normalizeTag l ∈ TextSet.ofList ((l :: labels).map normalizeTag) :=
          mem_normalForms.mpr ⟨l, List.mem_cons_self, rfl⟩
        rw [TextSet.mem_def, List.isEmpty_iff.mp h] at hin
        exact absurd hin List.not_mem_nil
  · rintro rfl
    rfl

/-- A recipe whose labels are the normal forms of `labels` meets the restrictions exactly if those
answer to what is wanted. -/
theorem meetsDiet_iff {r : Recipe} {wanted labels : List String} {mode : DietMode}
    (hr : r.tags = TextSet.ofList (labels.map normalizeTag)) :
    meetsDiet (TextSet.ofList (wanted.map normalizeTag)) mode r = true ↔
      Answers mode wanted labels := by
  unfold meetsDiet
  rw [Bool.or_eq_true, isEmpty_normalForms, hr]
  cases mode with
  | all =>
      simp only [TextSet.isSubset_iff, mem_normalForms, Answers]
      constructor
      · rintro (rfl | hall) w hw
        · exact absurd hw List.not_mem_nil
        · exact hall _ ⟨w, hw, rfl⟩
      · rintro hall
        refine Or.inr fun x hx => ?_
        obtain ⟨w, hw, rfl⟩ := hx
        exact hall w hw
  | any =>
      simp only [TextSet.meets_iff, mem_normalForms, Answers]
      refine or_congr_right ⟨?_, ?_⟩
      · rintro ⟨x, ⟨w, hw, rfl⟩, hlabel⟩
        exact ⟨w, hw, hlabel⟩
      · rintro ⟨w, hw, hlabel⟩
        exact ⟨_, ⟨w, hw, rfl⟩, hlabel⟩

/-! ## the pool -/

namespace Pool

variable {id : String} {r : Recipe} {l recipes : List Recipe}

/-- An insertion makes a difference to no other id, and to none that is there. -/
theorem find?_insertById (h : l.Pairwise (·.id < ·.id)) :
    (insertById r l).find? (fun s => s.id = id) =
      (l.find? fun s => s.id = id).or (if r.id = id then some r else none) := by
  induction l with
  | nil => by_cases hid : r.id = id <;> simp [insertById, hid]
  | cons s l ih =>
      rw [List.pairwise_cons] at h
      unfold insertById
      split
      · next hlt =>
          -- an id that is found further on is greater than the one inserted here
          by_cases hid : r.id = id
          · have hnone : (s :: l).find? (fun s => s.id = id) = none := by
              refine List.find?_eq_none.mpr fun x hx => ?_
              have hgreater : r.id < x.id := by
                rcases List.mem_cons.mp hx with rfl | hx
                · exact hlt
                · exact String.lt_trans hlt (h.1 x hx)
              simpa [← hid] using (String.ne_of_lt hgreater).symm
            rw [hnone, List.find?_cons_of_pos (by simpa using hid), if_pos hid]
            rfl
          · rw [List.find?_cons_of_neg (by simpa using hid), if_neg hid, Option.or_none]
      · split
        · next hsame =>
            by_cases hid : r.id = id
            · rw [List.find?_cons_of_pos (by simpa [← hsame] using hid)]
              rfl
            · rw [if_neg hid, Option.or_none]
        · by_cases hid : s.id = id
          · rw [List.find?_cons_of_pos (by simpa using hid),
              List.find?_cons_of_pos (by simpa using hid)]
            rfl
          · rw [List.find?_cons_of_neg (by simpa using hid),
              List.find?_cons_of_neg (by simpa using hid), ih h.2]

/-- Of recipes that share an id the first is kept. -/
theorem get?_ofRecipes (recipes : List Recipe) (id : String) :
    (ofRecipes recipes).get? id = recipes.find? fun r => r.id = id := by
  have go : ∀ (l : List Recipe) (p : Pool),
      (l.foldl add p).get? id = (p.get? id).or (l.find? fun r => r.id = id) := by
    intro l
    induction l with
    | nil => exact fun p => Option.or_none.symm
    | cons r l ih =>
        intro p
        have hadd : (p.add r).get? id = (p.get? id).or (if r.id = id then some r else none) :=
          find?_insertById p.ascending
        rw [List.foldl_cons, ih, hadd, Option.or_assoc, List.find?_cons]
        congr 1
        by_cases hid : r.id = id <;> simp [hid]
  exact go recipes empty

/-- What the pool of the eligible recipes has for an id. -/
theorem get?_ofEligible (recipes : List Recipe) (prefs : Preferences) (id : String) :
    (ofEligible recipes prefs).get? id = recipes.find? fun r => decide (r.id = id) &&
      meetsDiet (TextSet.ofList (prefs.restrictions.toList.map normalizeTag)) prefs.mode r := by
  unfold ofEligible eligible filterByDiet
  rw [get?_ofRecipes, List.find?_filter]
  congr 1
  funext r
  rw [Bool.eq_iff_iff]
  simp [and_comm]

end Pool

/-! ## pools of forms -/

/-- What is read from a list of forms is read from one form after the other. -/
theorem forall₂_of_mapM {α β ε : Type} {f : α → Except ε β} {l : List α} {m : List β}
    (h : l.mapM f = .ok m) : List.Forall₂ (fun a b => f a = .ok b) l m := by
  induction l generalizing m with
  | nil =>
      rw [← Except.ok.inj h]
      exact .nil
  | cons a l ih =>
      rw [List.mapM_cons] at h
      cases ha : f a with
      | error e =>
          rw [ha] at h
          contradiction
      | ok b =>
          cases hl : l.mapM f with
          | error e =>
              rw [ha, hl] at h
              contradiction
          | ok m' =>
              rw [ha, hl] at h
              rw [← Except.ok.inj h]
              exact .cons ha (ih hl)

/-- Searching what was read is searching it along with the forms that it was read from. -/
theorem find?_of_forall₂ {α β : Type} {R : α → β → Prop} {l : List α} {m : List β} {p : β → Bool}
    {q : α × β → Bool} (h : List.Forall₂ R l m) (hsame : ∀ a b, R a b → p b = q (a, b)) :
    m.find? p = ((l.zip m).find? q).map (·.2) := by
  induction h with
  | nil => rfl
  | @cons a b l m hab _ ih =>
      rw [List.zip_cons_cons, List.find?_cons, List.find?_cons, hsame a b hab]
      cases q (a, b)
      · exact ih
      · rfl

namespace Pool

theorem contains_iff {p : Pool} {id : String} :
    p.contains id = true ↔ (p.get? id).isSome = true := by
  unfold contains get?
  rw [List.any_eq_true, List.find?_isSome]

/-- A pool of recipes that were read from forms, by the labels that are written there.  The normal
form of a label is its own normal form.  If no label is wanted, the pool has every id.  If all
that are wanted must match, it has an id exactly if some recipe with that id has, for each of
them, a label with the same normal form; if any may match, exactly if some recipe with that id
has a label with the same normal form as one of them.  Of the recipes with that id the pool has
the first one, in the order of the forms, that meets this condition. -/
theorem get?_ofEligible_forms {forms : List Value} {wish : Value} {recipes : List Recipe}
    {prefs : Preferences} (hforms : forms.mapM Recipe.ofValue = .ok recipes)
    (hwish : Preferences.ofValue wish = .ok prefs) :
    let pool := ofEligible recipes prefs
    let wanted := rawLabelsOf "dietary_restrictions" wish
    let labels := rawLabelsOf "dietary_tags"
    (∀ tag, normalizeTag (normalizeTag tag) = normalizeTag tag) ∧
    (wanted = [] → ∀ id, pool.contains id = true ↔ ∃ r ∈ recipes, r.id = id) ∧
    (prefs.mode = .all → ∀ id, pool.contains id = true ↔ ∃ x ∈ forms.zip recipes,
      x.2.id = id ∧ ∀ w ∈ wanted, ∃ l ∈ labels x.1, normalizeTag l = normalizeTag w) ∧
    (prefs.mode = .any → wanted ≠ [] → ∀ id, pool.contains id = true ↔
      ∃ x ∈ forms.zip recipes,
        x.2.id = id ∧ ∃ w ∈ wanted, ∃ l ∈ labels x.1, normalizeTag l = normalizeTag w) ∧
    ∀ id, pool.get? id = ((forms.zip recipes).find? fun x =>
      decide (x.2.id = id) && decide (Answers prefs.mode wanted (labels x.1))).map (·.2) := by
  intro pool wanted labels
  have hread := forall₂_of_mapM hforms
  have hget (id : String) : pool.get? id = ((forms.zip recipes).find? fun x =>
      decide (x.2.id = id) && decide (Answers prefs.mode wanted (labels x.1))).map (·.2) := by
    rw [get?_ofEligible, Preferences.restrictions_of_ofValue hwish, normalForms_again]
    refine find?_of_forall₂ hread fun form r hr => ?_
    congr 1
    rw [Bool.eq_iff_iff, meetsDiet_iff (Recipe.tags_of_ofValue hr), decide_eq_true_iff]
  have hcontains (id : String) : pool.contains id = true ↔ ∃ x ∈ forms.zip recipes,
      x.2.id = id ∧ Answers prefs.mode wanted (labels x.1) := by
    rw [contains_iff, hget, Option.isSome_map, List.find?_isSome]
    simp only [Bool.and_eq_true, decide_eq_true_eq]
  refine ⟨normalizeTag_normalizeTag, fun hnone id => ?_, fun hall id => ?_, fun hany hne id => ?_,
    hget⟩
  · have hanswers (l : List String) : Answers prefs.mode [] l := by
      cases prefs.mode with
      | all => exact fun w hw => absurd hw List.not_mem_nil
      | any => exact Or.inl rfl
    rw [hcontains, hnone]
    constructor
    · rintro ⟨x, hx, hid, -⟩
      exact ⟨x.2, (List.of_mem_zip hx).2, hid⟩
    · rintro ⟨r, hr, hid⟩
      have hzip : (forms.zip recipes).map (·.2) = recipes :=
        List.map_snd_zip (Nat.le_of_eq hread.length_eq.symm)
      obtain ⟨x, hx, rfl⟩ := List.mem_map.mp (hzip ▸ hr)
      exact ⟨x, hx, hid, hanswers _⟩
  · rw [hcontains, hall]
    exact Iff.rfl
  · rw [hcontains, hany]
    simp only [Answers, hne, false_or]

/-- Three recipes share an id; the first one lacks a label, and the other two have it, written in
different ways. -/
theorem get?_ofEligible_forms_three :
    let form (title : String) (tags : List String) : Value := .record
      [("id", .text "rice"), ("title", .text title), ("recipe_type", .text "main_course"),
        ("dietary_tags", .list (tags.map .text))]
    let forms := [form "first" ["vegan"], form "second" ["Vegan", " GLUTEN free\t"],
      form "third" ["gluten_free"]]
    let wish : Value := .record [("dietary_restrictions", .list [.text "Gluten-Free"])]
    let recipes := (forms.mapM Recipe.ofValue).toOption.getD []
    let prefs := (Preferences.ofValue wish).toOption.getD {}
    forms.mapM Recipe.ofValue = .ok recipes ∧ Preferences.ofValue wish = .ok prefs ∧
      ((ofEligible recipes prefs).get? "rice").map (·.title) = some "second" := by
  intro form forms wish recipes prefs
  have hread {α : Type} {x : Except Refusal α} (a : α) (h : x.toOption.isSome = true) :
      x = .ok (x.toOption.getD a) := by
    cases x with
    | ok b => rfl
    | error e => contradiction
  have hforms : forms.mapM Recipe.ofValue = .ok recipes := hread [] (by decide +kernel)
  have hwish : Preferences.ofValue wish = .ok prefs := hread {} (by decide +kernel)
  obtain ⟨-, -, -, -, hget⟩ := get?_ofEligible_forms hforms hwish
  refine ⟨hforms, hwish, ?_⟩
  rw [hget]
  decide +kernel

end Pool

end MealRota
