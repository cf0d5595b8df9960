import Reckoner.MathFunction
import Reckoner.Proofs.Number.Order

/-!
# The greatest and the least of a list

An extremum is found by a fold that starts at an infinity and at every step keeps one of two
numbers. What is kept only has to be equal to the later of the two in the order, so it does not
matter which of the two zeros a comparison prefers. The place of the answer is then the last one
among the places of the start and of the values (`foldl_isGreatest`), and since no number lies
outside the infinities, the start is not seen in the answer for a list with values. All other
properties follow from this one, because a set of places has at most one last element: neither
the order of the values nor their repetition matters, and the parts of a list can be dealt with
separately.
-/

set_option autoImplicit false

namespace Reckoner.Number

open Float.Model.UnpackedFloat (Sign)

/-- The numbers are equal, where NaN is taken to be equal to itself. -/
def Agree (x y : Float) : Prop :=
  (x == y) = true ∨ x.isNaN = true ∧ y.isNaN = true

/-- Of two numbers, neither of them NaN, the function gives one that is equal to the later in
the order. -/
def ChoosesLater (le : Float → Float → Prop) (choose : Float → Float → Float) : Prop :=
  ∀ a b, a.isNaN = false → b.isNaN = false → le a b →
    (choose a b == b) = true ∧ (choose b a == b) = true

/-- The function gives the last number in the order from a list, and NaN if NaN is in the list. -/
structure FindsLast (le : Float → Float → Prop) (f : List Float → Float) : Prop where
  /-- NaN anywhere in the list makes the answer NaN. -/
  isNaN_of_mem (xs : List Float) : (∃ x ∈ xs, x.isNaN = true) → (f xs).isNaN = true
  /-- Otherwise the answer is equal to a value of the list, and no value is later. -/
  isLast (xs : List Float) : xs ≠ [] → (∀ x ∈ xs, x.isNaN = false) →
    (∃ x ∈ xs, (f xs == x) = true) ∧ ∀ x ∈ xs, le x (f xs)
  /-- The answer depends on the values only, not on their order or repetition. -/
  agree_of_mem_iff (xs ys : List Float) : (∀ x, x ∈ xs ↔ x ∈ ys) → Agree (f xs) (f ys)
  /-- The answer for a list can be found from the answers for its parts. -/
  agree_append (xs ys : List Float) : Agree (f (xs ++ ys)) (f [f xs, f ys])

/-- An order of numbers is that of their ranks, and the numbers of one rank are equal. -/
structure RankedBy {ρ : Type} [LinearOrder ρ] (le : Float → Float → Prop) (rank : Float → ρ) :
    Prop where
  le_iff {x y : Float} : x.isNaN = false → y.isNaN = false → (le x y ↔ rank x ≤ rank y)
  beq_iff {x y : Float} : x.isNaN = false → y.isNaN = false →
    ((x == y) = true ↔ rank x = rank y)

/-- Numbers are ordered by their places. -/
theorem rankedBy_place : RankedBy (· ≤ ·) place where
  le_iff := le_iff_place_le
  beq_iff := beq_iff_place_eq

/-- The reverse order of numbers is that of the places from the other end. -/
theorem rankedBy_toDual_place : RankedBy (· ≥ ·) (OrderDual.toDual ∘ place) where
  le_iff hx hy := by
    rw [ge_iff_le, le_iff_place_le hy hx]
    rfl
  beq_iff := beq_iff_place_eq

/-- One walk along a list, which stops without an answer at the first NaN. -/
def walk (choose : Float → Float → Float) (start : Float) (xs : List Float) : Option Float :=
  xs.foldlM (fun found x => if x.isNaN then none else some (choose found x)) start

/-- The walk finds the extremum, if stopping is taken for the answer NaN. -/
theorem getD_walk (choose : Float → Float → Float) (start : Float) (xs : List Float) :
    (walk choose start xs).getD nan = extremum choose start xs := by
  unfold walk extremum
  induction xs generalizing start with
  | nil => rfl
  | cons x xs ih =>
    rw [List.foldlM_cons, List.any_cons, List.foldl_cons]
    cases hx : x.isNaN with
    | true => rfl
    | false => exact ih (choose start x)

section Ranks

variable {ρ : Type}

/-- The ranks of the values. -/
def ranks (rank : Float → ρ) (xs : List Float) : Set ρ :=
  {r | ∃ x ∈ xs, rank x = r}

/-- One value has one rank. -/
theorem ranks_singleton (rank : Float → ρ) (x : Float) : ranks rank [x] = {rank x} := by
  ext r
  simp [ranks, eq_comm]

/-- The values of two lists have the ranks of both. -/
theorem ranks_append (rank : Float → ρ) (xs ys : List Float) :
    ranks rank (xs ++ ys) = ranks rank xs ∪ ranks rank ys := by
  ext r
  simp [ranks, or_and_right, exists_or]

/-- Lists of the same values have the same ranks. -/
theorem ranks_congr (rank : Float → ρ) {xs ys : List Float} (h : ∀ x, x ∈ xs ↔ x ∈ ys) :
    ranks rank xs = ranks rank ys := by
  simp [ranks, h]

end Ranks

section Fold

variable {ρ : Type} [LinearOrder ρ] {le : Float → Float → Prop} {rank : Float → ρ}
  {choose : Float → Float → Float} {start : Float} {xs ys : List Float}

/-- What is chosen from two numbers is a number, and has the greater of their ranks. -/
theorem RankedBy.rank_choose (hrank : RankedBy le rank) (hchoose : ChoosesLater le choose)
    {a b : Float} (ha : a.isNaN = false) (hb : b.isNaN = false) :
    (choose a b).isNaN = false ∧ rank (choose a b) = max (rank a) (rank b) := by
  obtain hle | hle := le_total (rank a) (rank b)
  · have hbeq := (hchoose a b ha hb ((hrank.le_iff ha hb).mpr hle)).1
    obtain ⟨hnumber, -⟩ := isNaN_eq_false_of_beq hbeq
    rw [max_eq_right hle]
    exact ⟨hnumber, (hrank.beq_iff hnumber hb).mp hbeq⟩
  · have hbeq := (hchoose b a hb ha ((hrank.le_iff hb ha).mpr hle)).2
    obtain ⟨hnumber, -⟩ := isNaN_eq_false_of_beq hbeq
    rw [max_eq_left hle]
    exact ⟨hnumber, (hrank.beq_iff hnumber ha).mp hbeq⟩

/-- A fold has the greatest rank of its start and the values. -/
theorem RankedBy.foldl_isGreatest (hrank : RankedBy le rank) (hchoose : ChoosesLater le choose)
    (hstart : start.isNaN = false) (hxs : ∀ x ∈ xs, x.isNaN = false) :
    (xs.foldl choose start).isNaN = false ∧
      IsGreatest (ranks rank (start :: xs)) (rank (xs.foldl choose start)) := by
  -- from the end, where the last choice was made
  induction xs using List.reverseRecOn with
  | nil =>
    refine ⟨hstart, ?_⟩
    simp [ranks]
  | append_singleton xs x ih =>
    obtain ⟨hxs, hx⟩ := List.forall_mem_append.mp hxs
    obtain ⟨hnumber, hgreatest⟩ := ih hxs
    obtain ⟨hchosen, hmax⟩ := hrank.rank_choose hchoose hnumber (hx x List.mem_cons_self)
    rw [List.foldl_append, List.foldl_cons, List.foldl_nil]
    refine ⟨hchosen, ?_⟩
    rw [hmax, max_comm, ← List.cons_append, ranks_append, Set.union_comm, ranks_singleton]
    exact hgreatest.insert (rank x)

/-- NaN anywhere in the list is the answer. -/
theorem isNaN_extremum (h : ∃ x ∈ xs, x.isNaN = true) :
    (extremum choose start xs).isNaN = true := by
  rw [extremum, if_pos (List.any_eq_true.mpr h)]
  rfl

/-- Without NaN the answer is what is left of choosing again and again. -/
theorem extremum_eq_foldl (h : ∀ x ∈ xs, x.isNaN = false) :
    extremum choose start xs = xs.foldl choose start := by
  have hnone : xs.any Float.isNaN = false :=
    List.any_eq_false.mpr fun x hx => Bool.eq_false_iff.mp (h x hx)
  simp only [extremum, hnone, Bool.false_eq_true, if_false]

/-- A list without NaN has an extremum with the greatest rank of the start and the values. -/
theorem RankedBy.extremum_isGreatest (hrank : RankedBy le rank)
    (hchoose : ChoosesLater le choose) (hstart : start.isNaN = false)
    (hxs : ∀ x ∈ xs, x.isNaN = false) :
    (extremum choose start xs).isNaN = false ∧
      IsGreatest (ranks rank (start :: xs)) (rank (extremum choose start xs)) := by
  rw [extremum_eq_foldl hxs]
  exact hrank.foldl_isGreatest hchoose hstart hxs

/-- The start is not seen if there are values and none of them is before it. -/
theorem isGreatest_of_cons (hne : xs ≠ []) (hfirst : ∀ x, rank start ≤ rank x) {r : ρ}
    (h : IsGreatest (ranks rank (start :: xs)) r) : IsGreatest (ranks rank xs) r := by
  obtain ⟨⟨x, hx, rfl⟩, hupper⟩ := h
  have hvalues : ∀ y ∈ xs, rank y ≤ rank x := fun y hy =>
    hupper ⟨y, List.mem_cons_of_mem _ hy, rfl⟩
  refine ⟨?_, ?_⟩
  · rcases List.mem_cons.mp hx with rfl | hx
    · obtain ⟨y, hy⟩ := List.exists_mem_of_ne_nil xs hne
      exact ⟨y, hy, le_antisymm (hvalues y hy) (hfirst y)⟩
    · exact ⟨x, hx, rfl⟩
  · rintro r ⟨y, hy, rfl⟩
    exact hvalues y hy

/-- The extremum of two parts of a list has the rank of the extremum of the list. -/
theorem RankedBy.rank_extremum_append (hrank : RankedBy le rank)
    (hchoose : ChoosesLater le choose) (hstart : start.isNaN = false)
    (hfirst : ∀ x, rank start ≤ rank x) (hxs : ∀ x ∈ xs, x.isNaN = false)
    (hys : ∀ y ∈ ys, y.isNaN = false) :
    let parts := [extremum choose start xs, extremum choose start ys]
    (∀ x ∈ parts, x.isNaN = false) ∧
      rank (extremum choose start (xs ++ ys)) = rank (extremum choose start parts) := by
  intro parts
  obtain ⟨hx, hleft⟩ := hrank.extremum_isGreatest hchoose hstart hxs
  obtain ⟨hy, hright⟩ := hrank.extremum_isGreatest hchoose hstart hys
  have hwhole :=
    (hrank.extremum_isGreatest hchoose hstart (List.forall_mem_append.mpr ⟨hxs, hys⟩)).2
  have hparts : ∀ x ∈ parts, x.isNaN = false :=
    List.forall_mem_cons.mpr ⟨hx, List.forall_mem_singleton.mpr hy⟩
  have hpair := (hrank.extremum_isGreatest hchoose hstart hparts).2
  refine ⟨hparts, ?_⟩
  have hunion : ranks rank (start :: (xs ++ ys)) =
      ranks rank (start :: xs) ∪ ranks rank (start :: ys) := by
    rw [← ranks_append]
    exact ranks_congr rank fun x => by simp; tauto
  have hset : ranks rank parts =
      {rank (extremum choose start xs), rank (extremum choose start ys)} := by
    show ranks rank ([_] ++ [_]) = _
    rw [ranks_append, ranks_singleton, ranks_singleton, Set.singleton_union]
  rw [hunion] at hwhole
  have hpair := isGreatest_of_cons (List.cons_ne_nil _ _) hfirst hpair
  rw [hset] at hpair
  exact (hwhole.unique (hleft.union hright)).trans (isGreatest_pair.unique hpair)

/-- A list holds NaN or not. -/
theorem nan_or_numbers (xs : List Float) :
    (∃ x ∈ xs, x.isNaN = true) ∨ ∀ x ∈ xs, x.isNaN = false := by
  cases h : xs.any Float.isNaN with
  | true => exact .inl (List.any_eq_true.mp h)
  | false => exact .inr fun x hx => Bool.eq_false_iff.mpr (List.any_eq_false.mp h x hx)

/-- Numbers of one rank are equal. -/
theorem RankedBy.agree_of_rank_eq (hrank : RankedBy le rank) {x y : Float}
    (hx : x.isNaN = false) (hy : y.isNaN = false) (h : rank x = rank y) : Agree x y :=
  .inl ((hrank.beq_iff hx hy).mpr h)

/-- From a start that no number is before, the fold finds the last number of a list. -/
theorem RankedBy.findsLast_extremum (hrank : RankedBy le rank) (hchoose : ChoosesLater le choose)
    (hstart : start.isNaN = false) (hfirst : ∀ x, rank start ≤ rank x) :
    FindsLast le (extremum choose start) where
  isNaN_of_mem xs h := isNaN_extremum h
  isLast xs hne hxs := by
    obtain ⟨hnumber, hgreatest⟩ := hrank.extremum_isGreatest hchoose hstart hxs
    obtain ⟨⟨x, hx, heq⟩, hupper⟩ := isGreatest_of_cons hne hfirst hgreatest
    refine ⟨⟨x, hx, (hrank.beq_iff hnumber (hxs x hx)).mpr heq.symm⟩, ?_⟩
    intro y hy
    exact (hrank.le_iff (hxs y hy) hnumber).mpr (hupper ⟨y, hy, rfl⟩)
  agree_of_mem_iff xs ys hmem := by
    rcases nan_or_numbers xs with ⟨x, hx, hnan⟩ | hxs
    · exact .inr ⟨isNaN_extremum ⟨x, hx, hnan⟩, isNaN_extremum ⟨x, (hmem x).mp hx, hnan⟩⟩
    · have hys : ∀ y ∈ ys, y.isNaN = false := fun y hy => hxs y ((hmem y).mpr hy)
      obtain ⟨hx, hleft⟩ := hrank.extremum_isGreatest hchoose hstart hxs
      obtain ⟨hy, hright⟩ := hrank.extremum_isGreatest hchoose hstart hys
      have hranks : ranks rank (start :: xs) = ranks rank (start :: ys) :=
        ranks_congr rank fun x => by simp [hmem]
      rw [hranks] at hleft
      exact hrank.agree_of_rank_eq hx hy (hleft.unique hright)
  agree_append xs ys := by
    rcases nan_or_numbers (xs ++ ys) with ⟨x, hx, hnan⟩ | hnumbers
    · refine .inr ⟨isNaN_extremum ⟨x, hx, hnan⟩, isNaN_extremum ?_⟩
      rcases List.mem_append.mp hx with hx | hx
      · exact ⟨_, List.mem_cons_self, isNaN_extremum ⟨x, hx, hnan⟩⟩
      · exact ⟨_, List.mem_cons_of_mem _ List.mem_cons_self, isNaN_extremum ⟨x, hx, hnan⟩⟩
    · obtain ⟨hxs, hys⟩ := List.forall_mem_append.mp hnumbers
      obtain ⟨hparts, heq⟩ := hrank.rank_extremum_append hchoose hstart hfirst hxs hys
      have hwhole := (hrank.extremum_isGreatest hchoose hstart hnumbers).1
      have hpair := (hrank.extremum_isGreatest hchoose hstart hparts).1
      exact hrank.agree_of_rank_eq hwhole hpair heq

end Fold

/-! ## The greatest and the least -/

/-- The infinities are numbers. -/
theorem isNaN_infinity (sign : Sign) : (infinity sign).isNaN = false := by
  cases sign <;> rfl

/-- Choosing the greater of two numbers from minus infinity on finds the greatest. -/
theorem findsLast_greatest {choose : Float → Float → Float} (h : ChoosesLater (· ≤ ·) choose) :
    FindsLast (· ≤ ·) (extremum choose (infinity .negative)) :=
  rankedBy_place.findsLast_extremum h (isNaN_infinity _) place_infinity_negative_le

/-- Choosing the smaller of two numbers from infinity on finds the least. -/
theorem findsLast_least {choose : Float → Float → Float} (h : ChoosesLater (· ≥ ·) choose) :
    FindsLast (· ≥ ·) (extremum choose (infinity .positive)) :=
  rankedBy_toDual_place.findsLast_extremum h (isNaN_infinity _)
    fun x => place_le_infinity_positive x

/-- A number is equal to itself. -/
theorem beq_self_of_number {x : Float} (h : x.isNaN = false) : (x == x) = true :=
  (beq_iff_place_eq h h).mpr rfl

/-- Two numbers, neither of which is greater, are equal. -/
theorem beq_of_le_of_le {x y : Float} (hx : x.isNaN = false) (hy : y.isNaN = false) (hle : x ≤ y)
    (hge : y ≤ x) : (x == y) = true :=
  (beq_iff_place_eq hx hy).mpr
    (le_antisymm ((le_iff_place_le hx hy).mp hle) ((le_iff_place_le hy hx).mp hge))

/-- To prefer the second of two numbers unless it is smaller is to choose the greater. -/
theorem choosesLater_greater : ChoosesLater (· ≤ ·) fun a b => if a ≤ b then b else a := by
  intro a b ha hb hle
  dsimp only
  rw [if_pos hle]
  refine ⟨beq_self_of_number hb, ?_⟩
  split
  case isTrue hge => exact beq_of_le_of_le ha hb hle hge
  case isFalse => exact beq_self_of_number hb

/-- To prefer the first of two numbers unless it is greater is to choose the smaller. -/
theorem choosesLater_less : ChoosesLater (· ≥ ·) fun a b => if a ≤ b then a else b := by
  intro a b ha hb hge
  dsimp only
  rw [if_pos hge]
  refine ⟨?_, beq_self_of_number hb⟩
  split
  case isTrue hle => exact beq_of_le_of_le ha hb hle hge
  case isFalse => exact beq_self_of_number hb

/-- Keeping the first of equal numbers is as good as keeping the second. -/
theorem choosesLater_first : ChoosesLater (· ≤ ·) fun a b => if a < b then b else a := by
  intro a b ha hb hle
  have hnot : ¬ b < a := by
    rw [lt_iff_place_lt hb ha, not_lt, ← le_iff_place_le ha hb]
    exact hle
  dsimp only
  rw [if_neg hnot]
  refine ⟨?_, beq_self_of_number hb⟩
  split
  case isTrue => exact beq_self_of_number hb
  case isFalse hge =>
    rw [lt_iff_place_lt ha hb, not_lt, ← le_iff_place_le hb ha] at hge
    exact beq_of_le_of_le ha hb hle hge

/-- **The greatest and the least of any list.** Whichever of two equal numbers is kept at a step,
a fold from the infinity below all numbers finds the greatest of a list: NaN if NaN is in the
list, wherever it stands, and otherwise a number that is equal to a value of the list and not less
than any value, even if all values are infinite. It depends neither on the order of the values nor
on their repetition, and can be found from the greatest of the parts of the list. In the same way a
fold from the infinity above all numbers finds the least. The functions of formulas are such
folds, and the walk that stops at the first NaN finds the same as a fold over the whole list. -/
theorem extrema_of_lists :
    (∀ choose, ChoosesLater (· ≤ ·) choose →
      FindsLast (· ≤ ·) (extremum choose (infinity .negative))) ∧
    (∀ choose, ChoosesLater (· ≥ ·) choose →
      FindsLast (· ≥ ·) (extremum choose (infinity .positive))) ∧
    (∀ sample, FindsLast (· ≤ ·) (MathFunction.max.call sample) ∧
      FindsLast (· ≥ ·) (MathFunction.min.call sample)) ∧
    ∀ choose start xs, (walk choose start xs).getD nan = extremum choose start xs := by
  refine ⟨fun _ => findsLast_greatest, fun _ => findsLast_least, fun sample => ⟨?_, ?_⟩,
    getD_walk⟩
  · exact findsLast_greatest choosesLater_greater
  · exact findsLast_least choosesLater_less

/-- The first of two equal numbers is kept here. The answers for the same values in two orders
are different zeros, but equal numbers. -/
theorem extrema_of_lists_zeros :
    let choose : Float → Float → Float := fun a b => if a < b then b else a
    let xs : List Float := [infinity .negative, -0, 0]
    let ys : List Float := [0, 0, infinity .negative, -0]
    ChoosesLater (· ≤ ·) choose ∧
      extremum choose (infinity .negative) xs = -0 ∧
      extremum choose (infinity .negative) ys = 0 ∧
      Agree (extremum choose (infinity .negative) xs) (extremum choose (infinity .negative) ys) ∧
      (extremum choose (infinity .negative) (xs ++ nan :: ys)).isNaN = true := by
  intro choose xs ys
  have hgreatest := extrema_of_lists.1 choose choosesLater_first
  have hmem : ∀ x, x ∈ xs ↔ x ∈ ys := by
    intro x
    simp only [xs, ys, List.mem_cons, List.not_mem_nil, or_false]
    tauto
  have hnan : ∃ x ∈ xs ++ nan :: ys, x.isNaN = true := ⟨nan, by simp, rfl⟩
  exact ⟨choosesLater_first, by decide, by decide, hgreatest.agree_of_mem_iff xs ys hmem,
    hgreatest.isNaN_of_mem _ hnan⟩

end Reckoner.Number
