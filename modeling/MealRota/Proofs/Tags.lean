import MealRota.Text.Tag

/-!
# MealRota.Proofs.Tags

The normal form of a label is its own normal form.  Lower case leaves only
characters that it would leave alone, wherever they stand; it makes no blank of
what is none, so trimming finds nothing more to do; and what joins words is
neither a capital nor a blank.

* `caseRuns_avoid` — no small letter of the table is again a capital of the table;
* `settled_lower`, `lowerFrom_of_settled` — lower case, and lower case once more;
* `normalizeTag_normalizeTag` — the normal form.
-/

namespace MealRota.Text

/-! ## the table of small letters -/

namespace CaseRun

/-- The code point of the first small letter of a run. -/
def low (r : CaseRun) : Nat := (r.first + r.shift).toNat

/-- The code point of the last small letter of a run. -/
def high (r : CaseRun) : Nat := (r.last + r.shift).toNat

/-- Whether the small letters of a run lie outside of a range. -/
def misses (r : CaseRun) (range : Nat × Nat) : Bool := r.high < range.1 || range.2 < r.low

/-- Whether no small letter of a run is a capital of another one: they lie before or after its
capitals, or between them, every second code point being one. -/
def avoids (r q : CaseRun) : Bool :=
  r.misses (q.first, q.last) ||
    ((r.first = r.last || r.step = 2) && q.step = 2 && (r.low + q.first) % 2 = 1)

/-- Whether all small letters of a run are characters, and neither blank nor one of the two
capitals that have no small letter of the usual kind. -/
def plain (r : CaseRun) : Bool :=
  0 ≤ r.first + r.shift && r.high < 0x110000 && r.misses (0xD800, 0xDFFF) &&
    r.misses (0x130, 0x130) && r.misses (0x3A3, 0x3A3) &&
    (whiteSpaceRanges.all r.misses && r.misses (0x1C, 0x1F))

variable {r q : CaseRun} {n : Nat} {range : Nat × Nat}

/-- The small letter of a capital lies between the first and the last one, and every second code
point is one if every second is a capital. -/
theorem between (h : r.contains n = true) (hr : 0 ≤ r.first + r.shift) :
    r.low ≤ (n + r.shift).toNat ∧ (n + r.shift).toNat ≤ r.high ∧
      (r.first = r.last ∨ r.step = 2 → ((n + r.shift).toNat + r.low) % 2 = 0) := by
  simp only [contains, Bool.and_eq_true, decide_eq_true_eq] at h
  obtain ⟨⟨hfirst, hlast⟩, hstep⟩ := h
  unfold low high
  refine ⟨by omega, by omega, ?_⟩
  rintro (hone | htwo)
  · omega
  · rw [htwo] at hstep
    omega

theorem not_mem_of_misses (h : r.contains n = true) (hr : 0 ≤ r.first + r.shift)
    (hmiss : r.misses range = true) :
    ¬ (range.1 ≤ (n + r.shift).toNat ∧ (n + r.shift).toNat ≤ range.2) := by
  obtain ⟨hlow, hhigh, -⟩ := between h hr
  simp only [misses, Bool.or_eq_true, decide_eq_true_eq] at hmiss
  omega

theorem not_contains_of_avoids (h : r.contains n = true) (hr : 0 ≤ r.first + r.shift)
    (havoids : r.avoids q = true) : q.contains (n + r.shift).toNat = false := by
  rw [Bool.eq_false_iff]
  intro hq
  simp only [contains, Bool.and_eq_true, decide_eq_true_eq] at hq
  rw [avoids, Bool.or_eq_true] at havoids
  rcases havoids with hmiss | hbetween
  · exact not_mem_of_misses h hr hmiss hq.1
  · simp only [Bool.and_eq_true, Bool.or_eq_true, decide_eq_true_eq] at hbetween
    obtain ⟨⟨hkind, htwo⟩, hodd⟩ := hbetween
    have hparity := (between h hr).2.2 hkind
    rw [htwo] at hq
    omega

end CaseRun

/-- No small letter is again a capital. -/
theorem caseRuns_avoid : (caseRuns.all fun r => caseRuns.all r.avoids) = true := by decide +kernel

theorem caseRuns_plain : caseRuns.all CaseRun.plain = true := by decide +kernel

/-! ## settled characters -/

/-- A character that lower case leaves alone, wherever it stands. -/
def IsSettled (c : Char) : Prop :=
  c ≠ '\u0130' ∧ c ≠ '\u03A3' ∧ ∀ r ∈ caseRuns, r.contains c.toNat = false

instance (c : Char) : Decidable (IsSettled c) := inferInstanceAs (Decidable (_ ∧ _))

/-- A character has a small letter of the table, or is its own. -/
theorem smallLetter_cases (c : Char) :
    (∃ r ∈ caseRuns, r.contains c.toNat = true ∧
      smallLetter c = Char.ofNat (c.toNat + r.shift).toNat) ∨
    (smallLetter c = c ∧ ∀ r ∈ caseRuns, r.contains c.toNat = false) := by
  unfold smallLetter
  split
  · next r hr =>
      have hcontains := List.find?_some hr
      exact Or.inl ⟨r, List.mem_of_find?_eq_some hr, hcontains, rfl⟩
  · next hnone =>
      exact Or.inr ⟨rfl, fun r hr => Bool.eq_false_iff.mpr (List.find?_eq_none.mp hnone r hr)⟩

/-- A small letter of the table is a character that is settled and is no blank. -/
theorem settled_of_contains {r : CaseRun} {n : Nat} (hr : r ∈ caseRuns)
    (h : r.contains n = true) : IsSettled (Char.ofNat (n + r.shift).toNat) ∧
      isBlank (Char.ofNat (n + r.shift).toNat) = false := by
  have hplain := List.all_eq_true.mp caseRuns_plain r hr
  simp only [CaseRun.plain, Bool.and_eq_true, decide_eq_true_eq, List.all_eq_true] at hplain
  obtain ⟨⟨⟨⟨⟨hpos, hbound⟩, hsurrogate⟩, hdotted⟩, hsigma⟩, hspace, hseparator⟩ := hplain
  have hmisses (range : Nat × Nat) (hmiss : r.misses range = true) :=
    CaseRun.not_mem_of_misses h hpos hmiss
  have hcode : (Char.ofNat (n + r.shift).toNat).toNat = (n + r.shift).toNat := by
    have hhigh := (CaseRun.between h hpos).2.1
    have hout := hmisses _ hsurrogate
    have hvalid : (n + r.shift).toNat.isValidChar := by
      unfold Nat.isValidChar
      omega
    rw [Char.ofNat, dif_pos hvalid]
    rfl
  have hranges (ranges : List (Nat × Nat)) (hall : ∀ range ∈ ranges, r.misses range = true) :
      inRanges ranges (Char.ofNat (n + r.shift).toNat) = false := by
    rw [Bool.eq_false_iff]
    intro hin
    obtain ⟨range, hrange, hin⟩ := inRanges_iff.mp hin
    rw [hcode] at hin
    exact hmisses range (hall range hrange) hin
  refine ⟨⟨?_, ?_, fun q hq => ?_⟩, ?_⟩
  · intro heq
    have hout := hmisses _ hdotted
    rw [← hcode, heq] at hout
    exact hout (by decide)
  · intro heq
    have hout := hmisses _ hsigma
    rw [← hcode, heq] at hout
    exact hout (by decide)
  · rw [hcode]
    exact CaseRun.not_contains_of_avoids h hpos
      (List.all_eq_true.mp (List.all_eq_true.mp caseRuns_avoid r hr) q hq)
  · rw [isBlank, isWhiteSpace, hranges _ hspace, hranges [(0x1C, 0x1F)] (by simpa using hseparator)]
    rfl

/-! ## lower case -/

/-- Lower case makes settled characters of every character, and no blanks of one that is none. -/
theorem settled_lowerAt (before after : List Char) (c : Char) :
    ∀ d ∈ lowerAt before c after, IsSettled d ∧ (isBlank c = false → isBlank d = false) := by
  have hspecial : ∀ d ∈ ['i', '\u0307', '\u03C2', '\u03C3'],
      IsSettled d ∧ isBlank d = false := by
    rw [List.forall_mem_cons, List.forall_mem_cons, List.forall_mem_cons, List.forall_mem_singleton]
    decide +kernel
  intro d hd
  unfold lowerAt at hd
  split at hd
  · have hin : d ∈ ['i', '\u0307', '\u03C2', '\u03C3'] := by
      simp only [List.mem_cons, List.not_mem_nil, or_false] at hd ⊢
      exact hd.imp id Or.inl
    exact (hspecial d hin).imp id fun h _ => h
  · split at hd
    · have hin : d ∈ ['i', '\u0307', '\u03C2', '\u03C3'] := by
        rw [List.mem_singleton] at hd
        split at hd <;> subst hd <;> decide
      exact (hspecial d hin).imp id fun h _ => h
    · next hdotted hsigma =>
        rw [List.mem_singleton.mp hd]
        rcases smallLetter_cases c with ⟨r, hr, hcontains, heq⟩ | ⟨heq, hnone⟩
        · rw [heq]
          exact (settled_of_contains hr hcontains).imp id fun h _ => h
        · rw [heq]
          exact ⟨⟨hdotted, hsigma, hnone⟩, id⟩

theorem lowerAt_of_settled {c : Char} (h : IsSettled c) (before after : List Char) :
    lowerAt before c after = [c] := by
  obtain ⟨hdotted, hsigma, hnone⟩ := h
  unfold lowerAt
  rw [if_neg hdotted, if_neg hsigma]
  rcases smallLetter_cases c with ⟨r, hr, hcontains, -⟩ | ⟨heq, -⟩
  · rw [hnone r hr] at hcontains
    contradiction
  · rw [heq]

theorem lowerAt_ne_nil (before after : List Char) (c : Char) : lowerAt before c after ≠ [] := by
  unfold lowerAt
  split
  · simp
  · split <;> simp

theorem settled_lowerFrom (before l : List Char) : ∀ d ∈ lowerFrom before l, IsSettled d := by
  induction l generalizing before with
  | nil => exact fun d hd => absurd hd List.not_mem_nil
  | cons c l ih =>
      intro d hd
      rcases List.mem_append.mp hd with hd | hd
      · exact (settled_lowerAt before l c d hd).1
      · exact ih _ d hd

/-- Settled characters stay as they are. -/
theorem lowerFrom_of_settled {l : List Char} (h : ∀ c ∈ l, IsSettled c) (before : List Char) :
    lowerFrom before l = l := by
  induction l generalizing before with
  | nil => rfl
  | cons c l ih =>
      rw [List.forall_mem_cons] at h
      rw [lowerFrom, lowerAt_of_settled h.1, ih h.2]
      rfl

/-- Lower case makes no blank of the first character. -/
theorem head_lowerFrom {before l : List Char} (h : ∀ c, l.head? = some c → isBlank c = false) :
    ∀ d, (lowerFrom before l).head? = some d → isBlank d = false := by
  cases l with
  | nil => nofun
  | cons c l =>
      intro d hd
      have hd' : (lowerAt before c l).head? = some d := by
        cases hfirst : (lowerAt before c l).head? with
        | none => exact absurd (List.head?_eq_none_iff.mp hfirst) (lowerAt_ne_nil before l c)
        | some e =>
            rw [lowerFrom, List.head?_append, hfirst] at hd
            exact hd
      exact (settled_lowerAt before l c d (List.mem_of_mem_head? hd')).2 (h c rfl)

/-- Lower case makes no blank of the last character. -/
theorem last_lowerFrom {before l : List Char} (h : ∀ c, l.getLast? = some c → isBlank c = false) :
    ∀ d, (lowerFrom before l).getLast? = some d → isBlank d = false := by
  induction l generalizing before with
  | nil => nofun
  | cons c l ih =>
      intro d hd
      cases l with
      | nil =>
          rw [lowerFrom, lowerFrom, List.append_nil] at hd
          exact (settled_lowerAt before [] c d (List.mem_of_getLast? hd)).2 (h c rfl)
      | cons c' l =>
          have hne : lowerFrom (c :: before) (c' :: l) ≠ [] :=
            List.append_ne_nil_of_left_ne_nil (lowerAt_ne_nil _ l c') _
          have hrest : (lowerFrom (c :: before) (c' :: l)).getLast? = some d → isBlank d = false :=
            ih (fun e he => h e (by rwa [List.getLast?_cons_cons])) d
          apply hrest
          cases hlast : (lowerFrom (c :: before) (c' :: l)).getLast? with
          | none => exact absurd (List.getLast?_eq_none_iff.mp hlast) hne
          | some e =>
              rw [lowerFrom, List.getLast?_append, hlast] at hd
              exact hd

/-! ## the normal form -/

theorem settled_joinWords {c : Char} (h : IsSettled c) : IsSettled (joinWords c) := by
  unfold joinWords
  split
  · decide +kernel
  · exact h

theorem isBlank_joinWords {c : Char} (h : isBlank c = false) : isBlank (joinWords c) = false := by
  unfold joinWords
  split
  · decide +kernel
  · exact h

theorem joinWords_joinWords (c : Char) : joinWords (joinWords c) = joinWords c := by
  by_cases h : c = '-' ∨ c = ' '
  · have hjoin : joinWords c = '_' := if_pos h
    rw [hjoin]
    rfl
  · have hsame : joinWords c = c := if_neg h
    rw [hsame, hsame]

/-- The normal form of a label is its own normal form. -/
theorem normalizeTag_normalizeTag (tag : String) :
    normalizeTag (normalizeTag tag) = normalizeTag tag := by
  have hnormal : ∃ l : List Char, normalizeTag tag = String.ofList (l.map joinWords) ∧
      (∀ c ∈ l, IsSettled c) ∧ (∀ c, l.head? = some c → isBlank c = false) ∧
      ∀ c, l.getLast? = some c → isBlank c = false := by
    refine ⟨lowerFrom [] (dropEnds isBlank tag.toList), ?_, settled_lowerFrom _ _,
      head_lowerFrom head_dropEnds, last_lowerFrom last_dropEnds⟩
    simp only [normalizeTag, lower, trim, String.toList_ofList]
  obtain ⟨l, hl, hsettled, hhead, hlast⟩ := hnormal
  have hsettled' : ∀ c ∈ l.map joinWords, IsSettled c := by
    intro c hc
    obtain ⟨d, hd, rfl⟩ := List.mem_map.mp hc
    exact settled_joinWords (hsettled d hd)
  have htrim : dropEnds isBlank (l.map joinWords) = l.map joinWords := by
    refine dropEnds_eq_self (fun c hc => ?_) fun c hc => ?_
    · rw [List.head?_map] at hc
      obtain ⟨d, hd, rfl⟩ := Option.map_eq_some_iff.mp hc
      exact isBlank_joinWords (hhead d hd)
    · rw [List.getLast?_map] at hc
      obtain ⟨d, hd, rfl⟩ := Option.map_eq_some_iff.mp hc
      exact isBlank_joinWords (hlast d hd)
  rw [hl]
  simp only [normalizeTag, lower, trim, String.toList_ofList, htrim,
    lowerFrom_of_settled hsettled' [], List.map_map]
  congr 2
  funext c
  exact joinWords_joinWords c

/-- A capital dotted i becomes two characters, and the sigma that ends the label a final one. -/
example : normalizeTag " \u0130-\u0391\u03A3 " = "i\u0307_\u03B1\u03C2" := by decide +kernel

end MealRota.Text
