import MealRota.Proofs.WrittenTokens

/-!
# MealRota.Proofs.WrittenValues

Reading the written form of a value.

* `asRead` — what comes back of a value: texts, lists and records as they are, a number if the
  reader admits so many digits, and null in place of a double that is not finite;
* `Value.depth` — how many lists and records enclose a part of a value;
* `read_write` — a value of no greater depth than the reader puts up with is read as `asRead`
  says, and is not read if it holds a number that is not.

The reader is a fold with the open lists and records on a stack.  What it does with the tokens of
a value depends on the stack through its height alone: it hands the value that comes back to what
is on top.
-/

namespace MealRota

/-! ## how deep a value is -/

namespace Value

mutual

/-- How many lists and records enclose the innermost part of a value. -/
def depth : Value → Nat
  | .list l => itemsDepth l
  | .record l => fieldsDepth l
  | _ => 0

/-- The depth of a list with these items. -/
def itemsDepth : List Value → Nat
  | [] => 0
  | v :: l => max (v.depth + 1) (itemsDepth l)

/-- The depth of a record with these fields. -/
def fieldsDepth : List (String × Value) → Nat
  | [] => 0
  | (_, v) :: l => max (v.depth + 1) (fieldsDepth l)

end

theorem itemsDepth_le_iff {l : List Value} {n : Nat} :
    itemsDepth l ≤ n ↔ ∀ v ∈ l, v.depth + 1 ≤ n := by
  induction l with
  | nil => simp [itemsDepth]
  | cons v l ih => rw [itemsDepth, Nat.max_le, ih, List.forall_mem_cons]

theorem fieldsDepth_le_iff {l : List (String × Value)} {n : Nat} :
    fieldsDepth l ≤ n ↔ ∀ f ∈ l, f.2.depth + 1 ≤ n := by
  induction l with
  | nil => simp [fieldsDepth]
  | cons f l ih => rw [fieldsDepth, Nat.max_le, ih, List.forall_mem_cons]

end Value

namespace Json

/-! ## numbers -/

section Numbers

variable {limits : Limits}

/-- A numeral is none of the words that stand for something else. -/
theorem scalar?_of_parts? {word : List Char} {n : Numeral}
    (h : Numeral.parts? false word = some n) :
    scalar? limits word = (Numeral.strict? limits.admitsDigits word).map .number := by
  have hword : ∀ w, Numeral.parts? false w = none → word ≠ w := by
    rintro w hw rfl
    rw [hw] at h
    contradiction
  unfold scalar?
  rw [if_neg (hword _ rfl), if_neg (hword _ rfl), if_neg (hword _ rfl), if_neg (hword _ rfl),
    if_neg (hword _ rfl), if_neg (hword _ rfl)]

/-- A whole number is read as it is, if it has not too many digits. -/
theorem scalar?_whole (f : Layout) (n : Int) :
    scalar? limits (writeNumber f (.whole n)) =
      if limits.wholeDigits.all (fun most => (Nat.toDigits 10 n.natAbs).length ≤ most) then
        some (.ofInt n)
      else none := by
  rw [writeNumber, scalar?_of_parts? (Numeral.parts?_ofInt n), Numeral.strict?_ofInt]
  exact apply_ite _ _ _ _

/-- A double is read as it is, or as null if it is not finite. -/
theorem scalar?_real (hlimits : limits.realDigits.all (2048 ≤ ·)) (x : Float) :
    scalar? limits (writeNumber .snapshot (.real x)) =
      some (if x.isFinite then .ofDouble x else .null) := by
  have hadmits : ∀ n : Numeral, n.isWhole = false → n.wholeDigits.length ≤ 2048 →
      limits.admitsDigits n = true := by
    intro n hreal hshort
    unfold Limits.admitsDigits
    rw [hreal]
    cases hmost : limits.realDigits with
    | none => rfl
    | some most =>
        rw [hmost] at hlimits
        exact decide_eq_true (hshort.trans (of_decide_eq_true hlimits))
  unfold writeNumber
  simp only
  split_ifs with hfinite
  · have hstrict := Numeral.strict?_snapshot hadmits hfinite
    obtain ⟨n, hn⟩ : ∃ n, Numeral.parts? false (Layout.snapshot.write x).toList = some n := by
      cases hparts : Numeral.parts? false (Layout.snapshot.write x).toList with
      | none =>
          rw [Numeral.strict?, hparts] at hstrict
          contradiction
      | some n => exact ⟨n, rfl⟩
    rw [scalar?_of_parts? hn, hstrict]
    rfl
  · rfl

end Numbers

/-! ## what comes back -/

mutual

/-- What a written value is read as. -/
def asRead (limits : Limits) (f : Layout) : Value → Except ReadProblem Value
  | .null => .ok .null
  | .bool b => .ok (.bool b)
  | .number n =>
      match scalar? limits (writeNumber f n) with
      | some v => .ok v
      | none => .error .malformed
  | .text s => .ok (.text s)
  | .list l => .list <$> itemsAsRead limits f l
  | .record l => .record <$> fieldsAsRead limits f l

/-- What written items are read as. -/
def itemsAsRead (limits : Limits) (f : Layout) : List Value → Except ReadProblem (List Value)
  | [] => .ok []
  | v :: l => do return (← asRead limits f v) :: (← itemsAsRead limits f l)

/-- What written fields are read as. -/
def fieldsAsRead (limits : Limits) (f : Layout) :
    List (String × Value) → Except ReadProblem (List (String × Value))
  | [] => .ok []
  | (k, v) :: l => do return (k, ← asRead limits f v) :: (← fieldsAsRead limits f l)

end

/-! ## the fold over the tokens -/

section Fold

variable {limits : Limits} {f : Layout}

/-- Whether a value of this depth may stand on a stack of this height. -/
def Limits.Admits (limits : Limits) (height depth : Nat) : Prop :=
  limits.depth.all (height + depth ≤ ·) = true

theorem Limits.Admits.excess? {stack : List Frame} {depth : Nat}
    (h : limits.Admits stack.length depth) : limits.excess? stack = none := by
  unfold Admits at h
  unfold Limits.excess?
  cases hdepth : limits.depth with
  | none => rfl
  | some most =>
      rw [hdepth] at h
      have hle : stack.length + depth ≤ most := of_decide_eq_true h
      exact if_pos (decide_eq_true (by omega))

theorem Limits.Admits.mono {height depth height' depth' : Nat} (h : limits.Admits height depth)
    (hle : height' + depth' ≤ height + depth) : limits.Admits height' depth' := by
  unfold Admits at *
  cases hdepth : limits.depth with
  | none => rfl
  | some most =>
      rw [hdepth] at h
      exact decide_eq_true (hle.trans (of_decide_eq_true h))

/-- Where a value may begin, so may the first item of a list: its tokens do not start with the end
of the list. -/
theorem foldlM_firstItem (v : Value) (rest : List Token) (stack : List Frame) :
    (tokensOf f v ++ rest).foldlM (takeToken limits) (stack, .firstItem) =
      (tokensOf f v ++ rest).foldlM (takeToken limits) (.list [] :: stack, .value) := by
  have hfirst : ∃ t l, tokensOf f v = t :: l ∧ t ≠ .closeList := by
    unfold tokensOf
    split
    all_goals exact ⟨_, _, rfl, by simp⟩
  obtain ⟨t, l, hl, ht⟩ := hfirst
  rw [hl, List.cons_append, List.foldlM_cons, List.foldlM_cons]
  cases t with
  | closeList => contradiction
  | _ => rfl

/-- A word where a value may begin. -/
theorem foldlM_word {stack : List Frame} {depth : Nat} (h : limits.Admits stack.length depth)
    (cs : List Char) :
    [Token.word cs].foldlM (takeToken limits) (stack, .value) =
      match scalar? limits cs with
      | some v => .ok (deliver v stack)
      | none => .error .malformed := by
  rw [List.foldlM_cons, takeToken, beginValue, h.excess?]
  simp only
  cases scalar? limits cs with
  | none => rfl
  | some v => rfl

mutual

/-- From the tokens of a value the reader gets what comes back of it. -/
theorem foldlM_tokensOf : ∀ (v : Value) (stack : List Frame),
    limits.Admits stack.length v.depth →
    (tokensOf f v).foldlM (takeToken limits) (stack, .value) =
      (fun w => deliver w stack) <$> asRead limits f v
  | .null, stack, h => foldlM_word h _
  | .bool true, stack, h => foldlM_word h _
  | .bool false, stack, h => foldlM_word h _
  | .number n, stack, h => by
      rw [tokensOf, foldlM_word h, asRead]
      cases scalar? limits (writeNumber f n) with
      | none => rfl
      | some v => rfl
  | .text s, stack, h => by
      rw [tokensOf, List.foldlM_cons, takeToken, beginValue, h.excess?]
      rfl
  | .list [], stack, h => by
      rw [tokensOf, List.foldlM_cons, takeToken, beginValue, h.excess?]
      rfl
  | .list (v :: l), stack, h => by
      have hitem : limits.Admits (stack.length + 1) v.depth := h.mono (by
        rw [Value.depth, Value.itemsDepth]
        omega)
      have hitems : limits.Admits stack.length (Value.itemsDepth l) := h.mono (by
        rw [Value.depth, Value.itemsDepth]
        omega)
      have hopen : takeToken limits (stack, .value) .openList = .ok (stack, .firstItem) := by
        rw [takeToken, beginValue, h.excess?]
      rw [tokensOf, List.cons_append, List.foldlM_cons, hopen]
      change (tokensOf f v ++ itemTokens f l).foldlM (takeToken limits) (stack, .firstItem) = _
      rw [foldlM_firstItem, List.foldlM_append, foldlM_tokensOf v (.list [] :: stack) hitem, asRead,
        itemsAsRead]
      cases asRead limits f v with
      | error problem => rfl
      | ok w =>
          refine (foldlM_itemTokens l [w] stack hitems).trans ?_
          cases itemsAsRead limits f l with
          | error problem => rfl
          | ok ws => rfl
  | .record [], stack, h => by
      rw [tokensOf, List.foldlM_cons, takeToken, beginValue, h.excess?]
      rfl
  | .record ((k, v) :: l), stack, h => by
      have hfield : limits.Admits (stack.length + 1) v.depth := h.mono (by
        rw [Value.depth, Value.fieldsDepth]
        omega)
      have hfields : limits.Admits stack.length (Value.fieldsDepth l) := h.mono (by
        rw [Value.depth, Value.fieldsDepth]
        omega)
      have hopen : takeToken limits (stack, .value) .openRecord = .ok (stack, .firstKey) := by
        rw [takeToken, beginValue, h.excess?]
      rw [tokensOf, List.cons_append, List.foldlM_cons, hopen]
      change (tokensOf f v ++ fieldTokens f l).foldlM (takeToken limits)
        (.record [] k :: stack, .value) = _
      rw [List.foldlM_append, foldlM_tokensOf v (.record [] k :: stack) hfield, asRead,
        fieldsAsRead]
      cases asRead limits f v with
      | error problem => rfl
      | ok w =>
          refine (foldlM_fieldTokens l [(k, w)] stack hfields).trans ?_
          cases fieldsAsRead limits f l with
          | error problem => rfl
          | ok ws => rfl

theorem foldlM_itemTokens : ∀ (l : List Value) (items : List Value) (stack : List Frame),
    limits.Admits stack.length (Value.itemsDepth l) →
    (itemTokens f l).foldlM (takeToken limits) (stack, .afterItem items) =
      (fun ws => deliver (.list (items.reverse ++ ws)) stack) <$> itemsAsRead limits f l
  | [], items, stack, h => by
      change Except.ok (deliver (.list items.reverse) stack) =
        Except.ok (deliver (.list (items.reverse ++ [])) stack)
      rw [List.append_nil]
  | v :: l, items, stack, h => by
      have hitem : limits.Admits (stack.length + 1) v.depth := h.mono (by
        rw [Value.itemsDepth]
        omega)
      have hitems : limits.Admits stack.length (Value.itemsDepth l) := h.mono (by
        rw [Value.itemsDepth]
        omega)
      rw [itemTokens, List.cons_append, List.foldlM_cons]
      change (tokensOf f v ++ itemTokens f l).foldlM (takeToken limits)
        (.list items :: stack, .value) = _
      rw [List.foldlM_append, foldlM_tokensOf v (.list items :: stack) hitem, itemsAsRead]
      cases asRead limits f v with
      | error problem => rfl
      | ok w =>
          refine (foldlM_itemTokens l (w :: items) stack hitems).trans ?_
          rw [List.reverse_cons]
          cases itemsAsRead limits f l with
          | error problem => rfl
          | ok ws =>
              exact congrArg (fun items => Except.ok (deliver (.list items) stack))
                (List.append_assoc items.reverse [w] ws)

theorem foldlM_fieldTokens : ∀ (l : List (String × Value)) (fields : List (String × Value))
    (stack : List Frame), limits.Admits stack.length (Value.fieldsDepth l) →
    (fieldTokens f l).foldlM (takeToken limits) (stack, .afterField fields) =
      (fun ws => deliver (.record (fields.reverse ++ ws)) stack) <$> fieldsAsRead limits f l
  | [], fields, stack, h => by
      change Except.ok (deliver (.record fields.reverse) stack) =
        Except.ok (deliver (.record (fields.reverse ++ [])) stack)
      rw [List.append_nil]
  | (k, v) :: l, fields, stack, h => by
      have hfield : limits.Admits (stack.length + 1) v.depth := h.mono (by
        rw [Value.fieldsDepth]
        omega)
      have hfields : limits.Admits stack.length (Value.fieldsDepth l) := h.mono (by
        rw [Value.fieldsDepth]
        omega)
      rw [fieldTokens, List.cons_append, List.foldlM_cons]
      change (tokensOf f v ++ fieldTokens f l).foldlM (takeToken limits)
        (.record fields k :: stack, .value) = _
      rw [List.foldlM_append, foldlM_tokensOf v (.record fields k :: stack) hfield, fieldsAsRead]
      cases asRead limits f v with
      | error problem => rfl
      | ok w =>
          refine (foldlM_fieldTokens l ((k, w) :: fields) stack hfields).trans ?_
          rw [List.reverse_cons]
          cases fieldsAsRead limits f l with
          | error problem => rfl
          | ok ws =>
              exact congrArg (fun fields => Except.ok (deliver (.record fields) stack))
                (List.append_assoc fields.reverse [(k, w)] ws)

end

end Fold

/-- A written value is read as what comes back of it. -/
theorem read_write {limits : Limits} (f : Layout) {v : Value} (h : limits.Admits 0 v.depth) :
    read limits (String.ofList (write f v)) = asRead limits f v := by
  unfold read ofTokens
  rw [String.toList_ofList, tokens_write]
  simp only
  rw [foldlM_tokensOf v [] h]
  cases asRead limits f v with
  | ok w => rfl
  | error problem => rfl

end Json

end MealRota
