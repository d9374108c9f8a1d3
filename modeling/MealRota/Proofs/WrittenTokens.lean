import MealRota.Json.Reader
import MealRota.Json.Writer
import MealRota.Proofs.WrittenNumbers

/-!
# MealRota.Proofs.WrittenTokens

A written value is cut into the tokens of its parts: texts come out of their escapes as they went
in, and a number is one word, which ends at the punctuation after it.

* `tokensOf` — the tokens of a value, by recursion on it;
* `tokens_write` — the tokens of its written form.

After a value the cutter may still be inside a word that the next character ends.  `Stands` covers
both: whether the last token is done already or is the word being read makes no difference to what
follows.
-/

namespace MealRota.Json

/-! ## words -/

/-- Whether all characters of a list belong to a word. -/
def IsWord (l : List Char) : Prop := ∀ c ∈ l, isWordChar c = true

instance (l : List Char) : Decidable (IsWord l) :=
  decidable_of_iff (l.all isWordChar = true) List.all_eq_true

namespace IsWord

theorem append {l m : List Char} (hl : IsWord l) (hm : IsWord m) : IsWord (l ++ m) :=
  fun c hc => (List.mem_append.mp hc).elim (hl c) (hm c)

theorem cons {c : Char} {l : List Char} (hc : isWordChar c = true) (hl : IsWord l) :
    IsWord (c :: l) := List.forall_mem_cons.mpr ⟨hc, hl⟩

theorem of_allDigits {l : List Char} (h : AllDigits l) : IsWord l := by
  intro c hc
  have hdigit := h c hc
  have hne : ∀ d : Char, d.isDigit = false → c ≠ d := by
    rintro d hd rfl
    rw [hd] at hdigit
    contradiction
  simp [isWordChar, isSpace, punctuation?, hne]

theorem toDigits (n : Nat) : IsWord (Nat.toDigits 10 n) := of_allDigits (AllDigits.toDigits n)

theorem withPoint {l : List Char} (h : AllDigits l) (n : Nat) : IsWord (Layout.withPoint n l) :=
  (of_allDigits (h.take n)).append (cons rfl (of_allDigits (h.drop n)))

theorem positional {digits : List Char} (h : AllDigits digits) (power : Int) :
    IsWord (Layout.positional digits power) := by
  unfold Layout.positional
  simp only
  split_ifs
  · exact withPoint ((AllDigits.zeros _).append h) 1
  · exact (of_allDigits (h.append (AllDigits.zeros _))).append (by decide)
  · exact withPoint h _

theorem scientific (f : Layout) {digits : List Char} (h : AllDigits digits) (power : Int) :
    IsWord (f.scientific digits power) := by
  have hmantissa : IsWord (if digits.length ≤ 1 then digits else Layout.withPoint 1 digits) := by
    split_ifs
    · exact of_allDigits h
    · exact withPoint h 1
  have hexponent : IsWord (Layout.padLeft f.exponentDigits (Nat.toDigits 10 power.natAbs)) :=
    of_allDigits ((AllDigits.zeros _).append (AllDigits.toDigits _))
  refine hmantissa.append (cons rfl (cons ?_ hexponent))
  split_ifs <;> rfl

theorem ofDecimal (f : Layout) (d : Decimal) : IsWord (f.ofDecimal d) := by
  unfold Layout.ofDecimal
  simp only
  split_ifs
  · exact positional (AllDigits.toDigits _) _
  · exact scientific f (AllDigits.toDigits _) _

/-- A written number is a word. -/
theorem writeNumber (f : Layout) (n : Number) : IsWord (writeNumber f n) := by
  cases n with
  | whole n =>
      rw [Json.writeNumber, Int.toString_eq_repr, Int.repr_eq_if]
      split_ifs
      · rw [Nat.toList_repr]
        exact toDigits _
      · rw [String.toList_append, Nat.toList_repr]
        exact cons rfl (toDigits _)
  | real x =>
      unfold Json.writeNumber
      simp only
      split_ifs
      · rw [Layout.write, String.toList_ofList]
        refine append ?_ (ofDecimal f _)
        split_ifs
        · exact List.forall_mem_nil _
        · decide
      · decide

end IsWord

/-! ## where the cutter stands -/

/-- The cutter has passed the tokens `done`, the last of them perhaps a word that has yet to end. -/
inductive Stands (done : List Token) : Mode × List Token → Prop
  | between : Stands done (.between, done)
  | word (acc : List Char) (earlier : List Token) (h : done = .word acc.reverse :: earlier) :
      Stands done (.word acc, earlier)

namespace Stands

variable {done : List Token} {state : Mode × List Token}

theorem isSpace_of_punctuation {c : Char} {t : Token} (h : punctuation? c = some t) :
    isSpace c = false := by
  unfold punctuation? at h
  split_ifs at h <;> subst_vars <;> rfl

/-- Punctuation ends a word and is a token of its own. -/
theorem punctuation (h : Stands done state) {c : Char} {t : Token}
    (hc : punctuation? c = some t) : takeChar state c = (.between, t :: done) := by
  have hspace := isSpace_of_punctuation hc
  cases h with
  | between => simp [takeChar, beginToken, hspace, hc]
  | word acc earlier h => simp [takeChar, beginToken, isWordChar, hspace, hc, h]

theorem finish (h : Stands done state) : finish state = (done.reverse, true) := by
  cases h with
  | between => rfl
  | word acc earlier h =>
      rw [h]
      rfl

end Stands

/-- The characters of a word are gathered. -/
theorem foldl_word {l : List Char} (h : IsWord l) (acc : List Char) (done : List Token) :
    l.foldl takeChar (.word acc, done) = (.word (l.reverse ++ acc), done) := by
  induction l generalizing acc with
  | nil => rfl
  | cons c l ih =>
      obtain ⟨hc, hl⟩ := List.forall_mem_cons.mp h
      rw [List.foldl_cons, List.reverse_cons, List.append_assoc, List.singleton_append, ← ih hl]
      simp [takeChar, hc]

theorem stands_word {l : List Char} (h : IsWord l) (hne : l ≠ []) (done : List Token) :
    Stands (.word l :: done) (l.foldl takeChar (.between, done)) := by
  obtain ⟨c, l, rfl⟩ := List.exists_cons_of_ne_nil hne
  obtain ⟨hc, hl⟩ := List.forall_mem_cons.mp h
  have hbegin : takeChar (.between, done) c = (.word [c], done) := by
    simp only [isWordChar, Bool.and_eq_true, Bool.not_eq_true', Option.isNone_iff_eq_none,
      bne_iff_ne] at hc
    simp [takeChar, beginToken, hc]
  rw [List.foldl_cons, hbegin, foldl_word hl]
  exact .word _ _ (by simp)

/-! ## quoted texts -/

theorem hexDigit?_hexDigit : ∀ n : Fin 16, hexDigit? (hexDigit n) = some n.val := by decide

/-- A character comes out of its escape as it went in. -/
theorem foldl_escapeChar (c : Char) (acc : List Char) (done : List Token) :
    (escapeChar c).foldl takeChar (.text acc, done) = (.text (c :: acc), done) := by
  unfold escapeChar
  split_ifs with hmark hbackspace hfeed hline hreturn htab hcontrol
  · rcases hmark with rfl | rfl <;> rfl
  · subst hbackspace
    rfl
  · subst hfeed
    rfl
  · subst hline
    rfl
  · subst hreturn
    rfl
  · subst htab
    rfl
  · have hcode : c.toNat < 32 := hcontrol
    have hhigh := hexDigit?_hexDigit ⟨c.toNat / 16, by omega⟩
    have hlow := hexDigit?_hexDigit ⟨c.toNat % 16, by omega⟩
    have hunit : 16 * (c.toNat / 16) + c.toNat % 16 = c.toNat := Nat.div_add_mod _ _
    have hopen : ['\\', 'u', '0', '0'].foldl takeChar (.text acc, done) =
        (.digits acc none 2 0, done) := rfl
    have hafter : afterUnit acc none c.toNat = .text (c :: acc) := by
      unfold afterUnit
      simp only
      rw [if_neg (by omega), if_neg (by omega), Char.ofNat_toNat]
    change (['\\', 'u', '0', '0'] ++ [hexDigit (c.toNat / 16), hexDigit (c.toNat % 16)]).foldl
      takeChar (.text acc, done) = _
    rw [List.foldl_append, hopen]
    simp only [List.foldl_cons, List.foldl_nil, takeChar, hhigh, hlow, Nat.mul_zero, Nat.zero_add,
      hunit, hafter, Nat.one_lt_ofNat, Nat.lt_irrefl, if_true, if_false, Nat.add_one_sub_one]
  · simp [takeChar, not_or.mp hmark, hcontrol]

theorem foldl_escapes (l : List Char) (acc : List Char) (done : List Token) :
    (l.flatMap escapeChar).foldl takeChar (.text acc, done) = (.text (l.reverse ++ acc), done) := by
  induction l generalizing acc with
  | nil => rfl
  | cons c l ih =>
      rw [List.flatMap_cons, List.foldl_append, foldl_escapeChar, ih, List.reverse_cons,
        List.append_assoc, List.singleton_append]

/-- A quoted text is one token. -/
theorem foldl_quote (s : String) (done : List Token) :
    (quote s).foldl takeChar (.between, done) = (.between, .text s :: done) := by
  have hopen : takeChar (.between, done) '"' = (.text [], done) := rfl
  rw [quote, List.cons_append, List.foldl_cons, hopen, List.foldl_append, foldl_escapes,
    List.append_nil]
  simp [takeChar]

/-! ## values -/

mutual

/-- The tokens of a value. -/
def tokensOf (f : Layout) : Value → List Token
  | .null => [.word ['n', 'u', 'l', 'l']]
  | .bool true => [.word ['t', 'r', 'u', 'e']]
  | .bool false => [.word ['f', 'a', 'l', 's', 'e']]
  | .number n => [.word (writeNumber f n)]
  | .text s => [.text s]
  | .list [] => [.openList, .closeList]
  | .list (v :: l) => .openList :: tokensOf f v ++ itemTokens f l
  | .record [] => [.openRecord, .closeRecord]
  | .record ((k, v) :: l) =>
      .openRecord :: .text k :: .colon :: tokensOf f v ++ fieldTokens f l

/-- The tokens of the items after the first one, and the end of the list. -/
def itemTokens (f : Layout) : List Value → List Token
  | [] => [.closeList]
  | v :: l => .comma :: tokensOf f v ++ itemTokens f l

/-- The tokens of the fields after the first one, and the end of the record. -/
def fieldTokens (f : Layout) : List (String × Value) → List Token
  | [] => [.closeRecord]
  | (k, v) :: l => .comma :: .text k :: .colon :: tokensOf f v ++ fieldTokens f l

end

theorem ofDecimal_ne_nil (f : Layout) (d : Decimal) : f.ofDecimal d ≠ [] := by
  unfold Layout.ofDecimal Layout.positional Layout.scientific Layout.withPoint
  simp only
  split_ifs <;> simp

theorem writeNumber_ne_nil (f : Layout) (n : Number) : writeNumber f n ≠ [] := by
  cases n with
  | whole n =>
      rw [writeNumber, Int.toString_eq_repr, Int.repr_eq_if]
      split_ifs
      · rw [Nat.toList_repr]
        exact Nat.toDigits_ne_nil
      · rw [String.toList_append]
        exact List.append_ne_nil_of_left_ne_nil (by decide) _
  | real x =>
      unfold writeNumber
      simp only
      split_ifs
      · rw [Layout.write, String.toList_ofList]
        exact List.append_ne_nil_of_right_ne_nil _ (ofDecimal_ne_nil f _)
      · exact List.cons_ne_nil _ _

/-- The name of a field and the colon after it are two tokens. -/
theorem foldl_name (k : String) (rest : List Char) (done : List Token) :
    (quote k ++ ':' :: rest).foldl takeChar (.between, done) =
      rest.foldl takeChar (.between, .colon :: .text k :: done) := by
  rw [List.foldl_append, foldl_quote, List.foldl_cons]
  rfl

mutual

/-- A written value is cut into its tokens. -/
theorem stands_write (f : Layout) : ∀ (v : Value) (done : List Token),
    Stands ((tokensOf f v).reverse ++ done) ((write f v).foldl takeChar (.between, done))
  | .null, done => stands_word (l := ['n', 'u', 'l', 'l']) (by decide) nofun done
  | .bool true, done => stands_word (l := ['t', 'r', 'u', 'e']) (by decide) nofun done
  | .bool false, done => stands_word (l := ['f', 'a', 'l', 's', 'e']) (by decide) nofun done
  | .number n, done => stands_word (IsWord.writeNumber f n) (writeNumber_ne_nil f n) done
  | .text s, done => by
      rw [write, foldl_quote]
      exact .between
  | .list [], done => .between
  | .list (v :: l), done => by
      have hitems := foldl_writeItems f l (stands_write f v (.openList :: done))
      have hwrite : (write f (.list (v :: l))).foldl takeChar (.between, done) =
          (writeItems f l).foldl takeChar
            ((write f v).foldl takeChar (.between, .openList :: done)) :=
        List.foldl_append
      rw [hwrite, hitems, tokensOf]
      simp only [List.reverse_append, List.reverse_cons, List.append_assoc, List.cons_append,
        List.nil_append]
      exact .between
  | .record [], done => .between
  | .record ((k, v) :: l), done => by
      have hfields := foldl_writeFields f l
        (stands_write f v (.colon :: .text k :: .openRecord :: done))
      have hwrite : (write f (.record ((k, v) :: l))).foldl takeChar (.between, done) =
          (quote k ++ ':' :: (write f v ++ writeFields f l)).foldl takeChar
            (.between, .openRecord :: done) := by
        simp only [write, List.append_assoc, List.cons_append]
        rfl
      rw [hwrite, foldl_name, List.foldl_append, hfields, tokensOf]
      simp only [List.reverse_append, List.reverse_cons, List.append_assoc, List.cons_append,
        List.nil_append]
      exact .between

theorem foldl_writeItems (f : Layout) : ∀ (l : List Value) {done : List Token}
    {state : Mode × List Token}, Stands done state →
    (writeItems f l).foldl takeChar state = (.between, (itemTokens f l).reverse ++ done)
  | [], done, state, h => h.punctuation rfl
  | v :: l, done, state, h => by
      have hcomma : takeChar state ',' = (.between, .comma :: done) := h.punctuation rfl
      have hitems := foldl_writeItems f l (stands_write f v (.comma :: done))
      rw [writeItems, List.cons_append, List.foldl_cons, hcomma, List.foldl_append, hitems,
        itemTokens]
      simp only [List.reverse_append, List.reverse_cons, List.append_assoc, List.cons_append,
        List.nil_append]

theorem foldl_writeFields (f : Layout) : ∀ (l : List (String × Value)) {done : List Token}
    {state : Mode × List Token}, Stands done state →
    (writeFields f l).foldl takeChar state = (.between, (fieldTokens f l).reverse ++ done)
  | [], done, state, h => h.punctuation rfl
  | (k, v) :: l, done, state, h => by
      have hcomma : takeChar state ',' = (.between, .comma :: done) := h.punctuation rfl
      have hfields := foldl_writeFields f l
        (stands_write f v (.colon :: .text k :: .comma :: done))
      rw [writeFields, List.append_assoc, List.cons_append, List.foldl_cons, hcomma,
        List.cons_append, foldl_name, List.foldl_append, hfields, fieldTokens]
      simp only [List.reverse_append, List.reverse_cons, List.append_assoc, List.cons_append,
        List.nil_append]

end

/-- The tokens of a written value. -/
theorem tokens_write (f : Layout) (v : Value) : tokens (write f v) = (tokensOf f v, true) := by
  have hstands := stands_write f v []
  rw [List.append_nil] at hstands
  rw [tokens, hstands.finish, List.reverse_reverse]

end MealRota.Json
