import MealRota.Proofs.DoubleOrder
import MealRota.Proofs.WeekSlots

/-!
# MealRota.Proofs.Ranking

The ranking of the candidates for a slot, and the choice of the best of them.
Where the scores are numbers, `Scored.mayPrecede` is the linear order of the
standings of scored recipes; a ranking is the candidates that pass, sorted by
standing and then by position, and the single pass finds the first of it.

* `Scored.mayPrecede_iff` — preceding is having no later standing;
* `Scorer.survivors_of_scorable` — which candidates are ranked;
* `Scorer.best?_eq_rank` — the best candidate is the first of the ranking;
* `Scorer.rank_perm` — candidates with distinct ids are ranked alike in every input order.
-/

namespace MealRota

/-! ## standings -/

namespace Scored

/-- Where a scored recipe stands: a higher score is earlier, then a smaller id. -/
def standing (a : Scored) : (ℤ ×ₗ ℤ ×ₗ ℤ)ᵒᵈ ×ₗ String :=
  toLex (OrderDual.toDual (place a.score), a.recipe.id)

/-- A scored recipe and its position come before another: by a higher score; at the same score
by a smaller id; at the same id by an earlier position. -/
def StandsBefore (a b : Scored × Nat) : Prop :=
  b.1.score < a.1.score ∨ ((a.1.score == b.1.score) = true ∧
    (a.1.recipe.id < b.1.recipe.id ∨ (a.1.recipe.id = b.1.recipe.id ∧ a.2 < b.2)))

/-- The order by standing, and of equal standings by position. -/
def mayPrecedeAt (a b : Scored × Nat) : Bool :=
  toLex (a.1.standing, a.2) ≤ toLex (b.1.standing, b.2)

variable {a b c : Scored}

section

variable (ha : a.score.isNaN = false) (hb : b.score.isNaN = false)

include ha hb

theorem mayPrecede_iff : a.mayPrecede b = true ↔ a.standing ≤ b.standing := by
  unfold mayPrecede standing
  rw [Bool.or_eq_true, Bool.and_eq_true, decide_eq_true_iff, decide_eq_true_iff,
    lt_iff_place hb ha, beq_iff_place ha hb, Prod.Lex.toLex_le_toLex]
  exact Iff.rfl

theorem outranks_eq : a.outranks b = !b.mayPrecede a := by
  rw [Bool.eq_iff_iff, Bool.not_eq_true', ← Bool.not_eq_true, mayPrecede_iff hb ha, not_le]
  unfold outranks standing
  rw [Bool.or_eq_true, Bool.and_eq_true, decide_eq_true_iff, decide_eq_true_iff,
    lt_iff_place hb ha, beq_iff_place ha hb, Prod.Lex.toLex_lt_toLex]
  exact Iff.rfl

/-- Standings and positions tell who comes first. -/
theorem standsBefore_iff (i j : Nat) :
    StandsBefore (a, i) (b, j) ↔ toLex (a.standing, i) < toLex (b.standing, j) := by
  unfold StandsBefore
  rw [lt_iff_place hb ha, beq_iff_place ha hb, Prod.Lex.toLex_lt_toLex]
  unfold standing
  simp only [Prod.Lex.toLex_lt_toLex, toLex_inj, Prod.mk.injEq, OrderDual.toDual_lt_toDual,
    OrderDual.toDual_inj]
  tauto

end

variable {l : List Scored} (hnum : ∀ x ∈ l, x.score.isNaN = false)

include hnum

theorem mayPrecede_total : l.Pairwise fun a b => a.mayPrecede b = true ∨ b.mayPrecede a = true :=
  List.pairwise_of_forall_mem_list fun a ha b hb => by
    rw [mayPrecede_iff (hnum a ha) (hnum b hb), mayPrecede_iff (hnum b hb) (hnum a ha)]
    exact le_total _ _

theorem mayPrecede_trans (ha : a ∈ l) (hb : b ∈ l) (hc : c ∈ l) (hab : a.mayPrecede b = true)
    (hbc : b.mayPrecede c = true) : a.mayPrecede c = true := by
  rw [mayPrecede_iff (hnum a ha) (hnum b hb)] at hab
  rw [mayPrecede_iff (hnum b hb) (hnum c hc)] at hbc
  exact (mayPrecede_iff (hnum a ha) (hnum c hc)).mpr (hab.trans hbc)

theorem pairwise_standing_sortBy :
    (sortBy mayPrecede l).Pairwise fun a b => a.standing ≤ b.standing := by
  have hsorted := pairwise_sortBy (mayPrecede_total hnum) fun a ha b hb c hc =>
    mayPrecede_trans hnum ha hb hc
  have hin : ∀ x ∈ sortBy mayPrecede l, x.score.isNaN = false := fun x hx =>
    hnum x ((perm_sortBy mayPrecede l).mem_iff.mp hx)
  exact hsorted.imp_of_mem fun ha hb => (mayPrecede_iff (hin _ ha) (hin _ hb)).mp

end Scored

open Scored

/-! ## the candidates that are ranked -/

namespace Scorer

/-- Whether a recipe passes the constraints. -/
def passes (s : Scorer) (r : Recipe) : Bool :=
  match s.rejection? r with
  | .ok none => true
  | _ => false

/-- A recipe with its score, if it has one. -/
def entry? (s : Scorer) (r : Recipe) : Option Scored :=
  match s.score? r with
  | .ok (some score) => some ⟨score, r⟩
  | _ => none

/-- Whether scoring a recipe succeeds, with a score or without one. -/
def Scorable (s : Scorer) (r : Recipe) : Prop := ∃ score, s.score? r = .ok score

variable {s : Scorer} {r : Recipe} {candidates others : List Recipe} {x : Scored} {e : PlanError}

theorem entry?_eq_some : s.entry? r = some x ↔ x.recipe = r ∧ s.score? r = .ok (some x.score) := by
  unfold entry?
  split
  · next score hscore =>
      rw [hscore]
      cases x
      simp only [Option.some.injEq, Scored.mk.injEq, Except.ok.injEq]
      tauto
  · next hscore => exact ⟨fun h => by contradiction, fun h => absurd h.2 (hscore _)⟩

/-- Those that pass are those with a score. -/
theorem passes_of_scorable (h : s.Scorable r) : s.passes r = (s.entry? r).isSome := by
  obtain ⟨score, hscore⟩ := h
  unfold passes entry?
  rw [hscore]
  cases score with
  | none =>
      obtain ⟨reason, hreason⟩ := rejected_of_score? hscore
      rw [hreason]
      rfl
  | some score =>
      rw [passes_of_score? hscore]
      rfl

theorem survivors_cons_of_ok {score : Option Float} (h : s.score? r = .ok score) :
    s.survivors (r :: candidates) =
      (s.survivors candidates).map fun l => (s.entry? r).toList ++ l := by
  rw [survivors, entry?, h]
  cases score <;> cases s.survivors candidates <;> rfl

/-- If all candidates can be scored, those with a score are ranked, in input order so far. -/
theorem survivors_of_scorable (h : ∀ r ∈ candidates, s.Scorable r) :
    s.survivors candidates = .ok (candidates.filterMap s.entry?) := by
  induction candidates with
  | nil => rfl
  | cons r l ih =>
      rw [List.forall_mem_cons] at h
      obtain ⟨score, hscore⟩ := h.1
      rw [survivors_cons_of_ok hscore, ih h.2, List.filterMap_cons]
      cases s.entry? r <;> rfl

/-- If one of them cannot, there is no ranking. -/
theorem survivors_of_unscorable (h : ¬ ∀ r ∈ candidates, s.Scorable r) :
    s.survivors candidates = .error .numberOutOfRange := by
  have hcases := s.survivors_cases candidates
  cases hs : s.survivors candidates with
  | error e =>
      rw [hs] at hcases
      rw [hcases.1]
  | ok l =>
      exfalso
      apply h
      clear h hcases
      induction candidates generalizing l with
      | nil => exact fun r hr => absurd hr List.not_mem_nil
      | cons r rest ih =>
          cases hr : s.score? r with
          | error e =>
              unfold survivors at hs
              rw [hr] at hs
              contradiction
          | ok score =>
              rw [survivors_cons_of_ok hr] at hs
              cases hrest : s.survivors rest with
              | error e =>
                  rw [hrest] at hs
                  contradiction
              | ok m => exact List.forall_mem_cons.mpr ⟨⟨score, hr⟩, ih m hrest⟩

/-- A ranking fails exactly for a candidate that cannot be scored. -/
theorem rank_eq_error_iff : s.rank candidates = .error e ↔
    e = .numberOutOfRange ∧ ∃ r ∈ candidates, ¬ s.Scorable r := by
  unfold rank
  by_cases h : ∀ r ∈ candidates, s.Scorable r
  · rw [survivors_of_scorable h]
    exact ⟨fun he => by contradiction, fun ⟨_, r, hr, hbad⟩ => absurd (h r hr) hbad⟩
  · rw [survivors_of_unscorable h]
    simp only [not_forall, ← exists_prop] at h ⊢
    refine ⟨fun he => ⟨(Except.error.inj he).symm, h⟩, ?_⟩
    rintro ⟨rfl, -⟩
    rfl

theorem scorable_of_rank {ranked : List Scored} (h : s.rank candidates = .ok ranked) :
    (∀ r ∈ candidates, s.Scorable r) ∧
      ranked = sortBy mayPrecede (candidates.filterMap s.entry?) := by
  unfold rank at h
  by_cases hall : ∀ r ∈ candidates, s.Scorable r
  · rw [survivors_of_scorable hall] at h
    exact ⟨hall, (Except.ok.inj h).symm⟩
  · rw [survivors_of_unscorable hall] at h
    contradiction

/-- What is ranked is a candidate with its score. -/
theorem mem_of_rank {ranked : List Scored} (h : s.rank candidates = .ok ranked)
    (hx : x ∈ ranked) : x.recipe ∈ candidates ∧ s.score? x.recipe = .ok (some x.score) := by
  obtain ⟨-, rfl⟩ := scorable_of_rank h
  obtain ⟨r, hr, hentry⟩ := List.mem_filterMap.mp ((perm_sortBy _ _).mem_iff.mp hx)
  obtain ⟨rfl, hscore⟩ := entry?_eq_some.mp hentry
  exact ⟨hr, hscore⟩

/-! ## the best candidate is the first of the ranking -/

theorem foldlM_consider (s : Scorer) (candidates : List Recipe) (best : Option Scored) :
    candidates.foldlM s.consider best =
      (s.survivors candidates).map fun l => l.foldl better? best := by
  induction candidates generalizing best with
  | nil => rfl
  | cons r l ih =>
      rw [List.foldlM_cons]
      cases hr : s.score? r with
      | error e =>
          unfold consider survivors
          rw [hr]
          rfl
      | ok score =>
          have hstep : s.consider best r = .ok ((s.entry? r).toList.foldl better? best) := by
            unfold consider entry?
            rw [hr]
            cases score <;> rfl
          rw [hstep, survivors_cons_of_ok hr]
          change l.foldlM s.consider _ = _
          rw [ih]
          cases s.survivors l with
          | error e => rfl
          | ok m =>
              exact congrArg Except.ok (List.foldl_append.symm)

/-- Where the scores are numbers, keeping the better of two is keeping the one that precedes. -/
theorem foldl_better? {a : Scored} {l : List Scored}
    (hnum : ∀ x ∈ a :: l, x.score.isNaN = false) :
    l.foldl better? (some a) = some (l.foldl (earlier mayPrecede) a) := by
  induction l generalizing a with
  | nil => rfl
  | cons b l ih =>
      rw [List.forall_mem_cons, List.forall_mem_cons] at hnum
      obtain ⟨ha, hb, hl⟩ := hnum
      have hbetter : better? (some a) b = some (earlier mayPrecede a b) := by
        unfold better? earlier
        simp only [outranks_eq hb ha]
        cases a.mayPrecede b <;> rfl
      have hfirst : (earlier mayPrecede a b).score.isNaN = false := by
        unfold earlier
        split
        · exact ha
        · exact hb
      rw [List.foldl_cons, List.foldl_cons, hbetter]
      exact ih (List.forall_mem_cons.mpr ⟨hfirst, hl⟩)

theorem foldl_better?_none {l : List Scored} (hnum : ∀ x ∈ l, x.score.isNaN = false) :
    l.foldl better? none = (sortBy mayPrecede l).head? := by
  cases l with
  | nil => rfl
  | cons a l =>
      have hl : ∀ x ∈ l, x.score.isNaN = false := fun x hx => hnum x (List.mem_cons_of_mem _ hx)
      change l.foldl better? (some a) = _
      rw [foldl_better? hnum, foldl_earlier (mayPrecede_total hl) fun b hb c hc d hd =>
        mayPrecede_trans hnum hb (List.mem_cons_of_mem _ hc) (List.mem_cons_of_mem _ hd)]
      exact (head?_orderedInsert mayPrecede a _).symm

/-- Whether all scores that candidates have are numbers. -/
def ScoresNumbers (s : Scorer) (candidates : List Recipe) : Prop :=
  ∀ r ∈ candidates, ∀ x, s.score? r = .ok (some x) → x.isNaN = false

theorem ScoresNumbers.of_entries (h : s.ScoresNumbers candidates) :
    ∀ x ∈ candidates.filterMap s.entry?, x.score.isNaN = false := by
  intro x hx
  obtain ⟨r, hr, hentry⟩ := List.mem_filterMap.mp hx
  exact h r hr x.score (entry?_eq_some.mp hentry).2

/-- The single pass finds the first of the ranking. -/
theorem best?_eq_rank (h : s.ScoresNumbers candidates) :
    s.best? candidates = (s.rank candidates).map fun ranked => ranked.head?.map (·.recipe) := by
  have hfold := s.foldlM_consider candidates none
  unfold best? rank
  rw [hfold]
  by_cases hall : ∀ r ∈ candidates, s.Scorable r
  · rw [survivors_of_scorable hall]
    exact congrArg (fun best => Except.ok (best.map (·.recipe))) (foldl_better?_none h.of_entries)
  · rw [survivors_of_unscorable hall]
    rfl

/-! ## positions -/

/-- The candidates with a score, with their positions. -/
def entriesAt (s : Scorer) (candidates : List Recipe) : List (Scored × Nat) :=
  candidates.zipIdx.filterMap fun p => (s.entry? p.1).map fun x => (x, p.2)

theorem map_fst_entriesAt (s : Scorer) (candidates : List Recipe) :
    (s.entriesAt candidates).map (·.1) = candidates.filterMap s.entry? := by
  unfold entriesAt
  rw [List.map_filterMap]
  conv_rhs => rw [← List.zipIdx_map_fst 0 candidates, List.filterMap_map]
  refine List.filterMap_congr fun p _ => ?_
  cases h : s.entry? p.1 <;> simp [h]

/-- They are the candidates that pass, each where the input has it. -/
theorem map_recipe_entriesAt (h : ∀ r ∈ candidates, s.Scorable r) :
    (s.entriesAt candidates).map (fun x => (x.1.recipe, x.2)) =
      candidates.zipIdx.filter fun p => s.passes p.1 := by
  unfold entriesAt
  rw [List.map_filterMap, ← List.filterMap_eq_filter]
  refine List.filterMap_congr fun p hp => ?_
  have hpasses := passes_of_scorable (h p.1 (List.fst_mem_of_mem_zipIdx hp))
  cases hentry : s.entry? p.1 with
  | none => simp [Option.guard, hpasses, hentry]
  | some x => simp [Option.guard, hpasses, hentry, (entry?_eq_some.mp hentry).1]

theorem pairwise_position_entriesAt (s : Scorer) (candidates : List Recipe) :
    (s.entriesAt candidates).Pairwise fun a b => a.2 < b.2 := by
  have hidx : candidates.zipIdx.Pairwise fun p q => p.2 < q.2 := by
    rw [← List.pairwise_map (f := Prod.snd), List.zipIdx_map_snd]
    exact List.pairwise_lt_range'
  refine hidx.filterMap _ fun p q hpq a ha b hb => ?_
  obtain ⟨x, -, rfl⟩ := Option.map_eq_some_iff.mp ha
  obtain ⟨y, -, rfl⟩ := Option.map_eq_some_iff.mp hb
  exact hpq

theorem ScoresNumbers.of_entriesAt (h : s.ScoresNumbers candidates) :
    ∀ x ∈ s.entriesAt candidates, x.1.score.isNaN = false := fun x hx =>
  h.of_entries x.1 (by rw [← map_fst_entriesAt]; exact List.mem_map_of_mem hx)

/-- The sort by standing leaves equal standings in their input order. -/
theorem map_sortBy_entriesAt (h : s.ScoresNumbers candidates) :
    (sortBy mayPrecedeAt (s.entriesAt candidates)).map (·.1) =
      sortBy mayPrecede (candidates.filterMap s.entry?) := by
  rw [← map_fst_entriesAt]
  refine map_sortBy ((s.pairwise_position_entriesAt candidates).imp_of_mem ?_)
  intro a b ha hb hlt
  rw [Bool.eq_iff_iff, mayPrecede_iff (h.of_entriesAt a ha) (h.of_entriesAt b hb)]
  unfold mayPrecedeAt
  rw [decide_eq_true_iff, Prod.Lex.toLex_le_toLex, le_iff_lt_or_eq (a := a.1.standing)]
  exact or_congr_right ⟨fun heq => heq.1, fun heq => ⟨heq, hlt.le⟩⟩

theorem pairwise_sortBy_entriesAt (h : s.ScoresNumbers candidates) :
    (sortBy mayPrecedeAt (s.entriesAt candidates)).Pairwise StandsBefore := by
  have hperm := perm_sortBy mayPrecedeAt (s.entriesAt candidates)
  have hsorted : (sortBy mayPrecedeAt (s.entriesAt candidates)).Pairwise fun a b =>
      mayPrecedeAt a b = true := by
    refine pairwise_sortBy (List.pairwise_of_forall fun a b => ?_) fun a _ b _ c _ hab hbc => ?_
    · simp only [mayPrecedeAt, decide_eq_true_iff]
      exact le_total _ _
    · simp only [mayPrecedeAt, decide_eq_true_iff] at hab hbc ⊢
      exact hab.trans hbc
  have hdistinct : (sortBy mayPrecedeAt (s.entriesAt candidates)).Pairwise fun a b => a.2 ≠ b.2 :=
    (hperm.pairwise_iff fun {_ _} hne => hne.symm).mpr
      ((s.pairwise_position_entriesAt candidates).imp fun hlt => hlt.ne)
  refine (hsorted.and hdistinct).imp_of_mem fun {a b} ha hb hab => ?_
  refine (standsBefore_iff (h.of_entriesAt a (hperm.mem_iff.mp ha))
    (h.of_entriesAt b (hperm.mem_iff.mp hb)) a.2 b.2).mpr ?_
  refine lt_of_le_of_ne (decide_eq_true_iff.mp hab.1) fun heq => hab.2 ?_
  exact (Prod.mk.inj (toLex_inj.mp heq)).2

/-! ## the order of the input -/

/-- Candidates with distinct ids are ranked alike in whatever order they are given. -/
theorem rank_perm (h : s.ScoresNumbers candidates) (hperm : candidates.Perm others)
    (hids : (candidates.map (·.id)).Nodup) : s.rank others = s.rank candidates := by
  unfold rank
  by_cases hall : ∀ r ∈ candidates, s.Scorable r
  · have hentries : (candidates.filterMap s.entry?).Perm (others.filterMap s.entry?) :=
      hperm.filterMap s.entry?
    rw [survivors_of_scorable hall,
      survivors_of_scorable fun r hr => hall r (hperm.mem_iff.mpr hr)]
    change Except.ok _ = Except.ok _
    have hnum := h.of_entries
    have hnum' : ∀ x ∈ others.filterMap s.entry?, x.score.isNaN = false :=
      fun x hx => hnum x (hentries.mem_iff.mpr hx)
    congr 1
    have hsorted := perm_sortBy mayPrecede (candidates.filterMap s.entry?)
    have hsorted' := (perm_sortBy mayPrecede (others.filterMap s.entry?)).trans hentries.symm
    refine List.Perm.eq_of_pairwise ?_ (pairwise_standing_sortBy hnum')
      (pairwise_standing_sortBy hnum) (hsorted'.trans hsorted.symm)
    intro a b ha hb hab hba
    obtain ⟨r, hr, hra⟩ := List.mem_filterMap.mp (hsorted'.mem_iff.mp ha)
    obtain ⟨r', hr', hrb⟩ := List.mem_filterMap.mp (hsorted.mem_iff.mp hb)
    have hid : a.recipe.id = b.recipe.id :=
      (Prod.mk.inj (toLex_inj.mp (le_antisymm hab hba))).2
    rw [(entry?_eq_some.mp hra).1, (entry?_eq_some.mp hrb).1] at hid
    have hsame : r = r' := List.inj_on_of_nodup_map hids hr hr' hid
    rw [hsame, hrb] at hra
    exact (Option.some.inj hra).symm
  · rw [survivors_of_unscorable hall,
      survivors_of_unscorable fun hothers => hall fun r hr => hothers r (hperm.mem_iff.mp hr)]

/-! ## ranking and choosing -/

/-- Where the scores are numbers, a ranking has exactly the candidates that pass, each as often as
the input has it, by descending score, then by ascending id, then in input order; it fails exactly
for a candidate that cannot be scored.  The best candidate is the first of the ranking, and there
is none exactly if the ranking is empty.  If the ids are distinct, the input order makes no
difference to either. -/
theorem rank_and_best (s : Scorer) (candidates : List Recipe) (h : s.ScoresNumbers candidates) :
    (∀ ranked, s.rank candidates = .ok ranked → ∃ placed : List (Scored × Nat),
      ranked = placed.map (·.1) ∧
      (placed.map fun x => (x.1.recipe, x.2)).Perm
        (candidates.zipIdx.filter fun p => s.passes p.1) ∧
      (∀ x ∈ placed, s.score? x.1.recipe = .ok (some x.1.score)) ∧
      placed.Pairwise StandsBefore) ∧
    (∀ e, s.rank candidates = .error e ↔
      e = .numberOutOfRange ∧ ∃ r ∈ candidates, ¬ s.Scorable r) ∧
    (s.best? candidates = (s.rank candidates).map fun ranked => ranked.head?.map (·.recipe)) ∧
    (s.best? candidates = .ok none ↔ s.rank candidates = .ok []) ∧
    ∀ others, candidates.Perm others → (candidates.map (·.id)).Nodup →
      s.rank others = s.rank candidates ∧ s.best? others = s.best? candidates := by
  have hbest := best?_eq_rank h
  refine ⟨fun ranked hranked => ?_, fun e => rank_eq_error_iff, hbest, ?_, ?_⟩
  · obtain ⟨hall, rfl⟩ := scorable_of_rank hranked
    have hperm := perm_sortBy mayPrecedeAt (s.entriesAt candidates)
    refine ⟨sortBy mayPrecedeAt (s.entriesAt candidates), (map_sortBy_entriesAt h).symm, ?_, ?_,
      pairwise_sortBy_entriesAt h⟩
    · rw [← map_recipe_entriesAt hall]
      exact hperm.map _
    · intro x hx
      obtain ⟨p, -, hentry⟩ := List.mem_filterMap.mp (hperm.mem_iff.mp hx)
      obtain ⟨y, hy, rfl⟩ := Option.map_eq_some_iff.mp hentry
      obtain ⟨hrecipe, hscore⟩ := entry?_eq_some.mp hy
      rw [hrecipe]
      exact hscore
  · rw [hbest]
    cases s.rank candidates with
    | error e => exact ⟨fun he => by contradiction, fun he => by contradiction⟩
    | ok ranked => cases ranked <;> simp [Except.map]
  · intro others hperm hids
    have hothers : s.ScoresNumbers others := fun r hr => h r (hperm.mem_iff.mpr hr)
    have hrank := rank_perm h hperm hids
    exact ⟨hrank, by rw [hbest, best?_eq_rank hothers, hrank]⟩

/-- Of five candidates one takes too long.  The one that makes most of its time comes first; the
others have the same score, and two of them the same id. -/
theorem rank_and_best_five :
    let taking (minutes : Nat) (id title : String) : Recipe :=
      { Recipe.plain .main id with prepMinutes := some minutes, title }
    let slot := Kitchen.slotOn Date.first Rotation.fresh
    let s : Scorer := ⟨⟨.standard, {}⟩, slot, Rotation.fresh, true⟩
    let candidates := [taking 10 "b" "rice", taking 1000 "c" "roast", taking 20 "d" "stew",
      taking 10 "a" "soup", taking 10 "b" "pasta"]
    s.ScoresNumbers candidates ∧
    ((s.rank candidates).toOption.map fun ranked => ranked.map (·.recipe.title)) =
      some ["stew", "soup", "rice", "pasta"] ∧
    ∃ placed : List (Scored × Nat), s.rank candidates = .ok (placed.map (·.1)) ∧
      (placed.map fun x => (x.1.recipe, x.2)).Perm
        (candidates.zipIdx.filter fun p => s.passes p.1) ∧
      placed.Pairwise StandsBefore ∧
      (s.best? candidates).toOption.join.map (·.title) = some "stew" := by
  intro taking slot s candidates
  have hnum : s.ScoresNumbers candidates := by
    have hall : ∀ r ∈ candidates,
        ((s.score? r).toOption.join.map Float.isNaN).getD false = false := by decide +kernel
    intro r hr x hx
    have hnan := hall r hr
    rw [hx] at hnan
    exact hnan
  have hrank : ((s.rank candidates).toOption.map fun ranked => ranked.map (·.recipe.title)) =
      some ["stew", "soup", "rice", "pasta"] := by decide +kernel
  obtain ⟨ranked, hranked, -⟩ := Option.map_eq_some_iff.mp hrank
  obtain ⟨hplaced, -, -, -, -⟩ := rank_and_best s candidates hnum
  obtain ⟨placed, rfl, hperm, -, hbefore⟩ := hplaced ranked (eq_ok_of_toOption hranked)
  exact ⟨hnum, hrank, placed, eq_ok_of_toOption hranked, hperm, hbefore, by decide +kernel⟩

end Scorer

end MealRota
