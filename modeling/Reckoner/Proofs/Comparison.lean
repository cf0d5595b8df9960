import Reckoner.Proofs.RoundTrip.Reading

/-!
# Comparing trees

`Expr.identical` and `Expr.alike` are one walk along two trees that differs in how the literals
at the same place are compared, and the walk decides the relation `Expr.Matches`: the trees have
the same form and the same names, and their literals are related place by place. Compared by
their bits the trees are the same. Compared as numbers they need not be: `0` and `-0` are equal
numbers, and NaN is not equal to itself.

Without signs only the second of these is left. No number of a formula has a sign, so two trees
that are read without folding and compare as alike are the same tree, and a tree is alike to
itself exactly if no literal in it is NaN.
-/

set_option autoImplicit false

namespace Reckoner

namespace Expr

/-- The trees agree in everything but their literals, and `R` holds of the literals that stand
at the same place. -/
inductive Matches (R : Float → Float → Prop) : Expr → Expr → Prop
  | literal {x y : Float} (h : R x y) : Matches R (literal x) (literal y)
  | var (name : String) : Matches R (var name) (var name)
  | neg {a b : Expr} (h : Matches R a b) : Matches R (neg a) (neg b)
  | binary (op : BinaryOp) {a b a' b' : Expr} (hleft : Matches R a a') (hright : Matches R b b') :
    Matches R (binary op a b) (binary op a' b')
  | call (name : String) {args args' : List Expr} (h : List.Forall₂ (Matches R) args args') :
    Matches R (call name args) (call name args')

variable {same : Float → Float → Bool}

mutual

/-- The walk along two trees decides whether they match. -/
theorem eqWith_iff_matches :
    ∀ a b : Expr, eqWith same a b = true ↔ Matches (fun x y => same x y = true) a b
  | literal x, b => by
    cases b with
    | literal y => exact ⟨fun h => .literal h, fun | .literal h => h⟩
    | _ => exact ⟨nofun, nofun⟩
  | var x, b => by
    cases b with
    | var y =>
      rw [eqWith, beq_iff_eq]
      exact ⟨fun h => h ▸ .var x, fun | .var _ => rfl⟩
    | _ => exact ⟨nofun, nofun⟩
  | neg a, b => by
    cases b with
    | neg b =>
      rw [eqWith, eqWith_iff_matches a b]
      exact ⟨.neg, fun | .neg h => h⟩
    | _ => exact ⟨nofun, nofun⟩
  | binary op a b, c => by
    cases c with
    | binary op' a' b' =>
      rw [eqWith, Bool.and_eq_true, Bool.and_eq_true, beq_iff_eq, eqWith_iff_matches a a',
        eqWith_iff_matches b b', and_assoc]
      constructor
      · rintro ⟨rfl, hleft, hright⟩
        exact .binary op hleft hright
      · rintro (_ | _ | _ | ⟨_, hleft, hright⟩)
        exact ⟨rfl, hleft, hright⟩
    | _ => exact ⟨nofun, nofun⟩
  | call name args, b => by
    cases b with
    | call name' args' =>
      rw [eqWith, Bool.and_eq_true, beq_iff_eq, eqWithList_iff_forall₂ args args']
      constructor
      · rintro ⟨rfl, hargs⟩
        exact .call name hargs
      · rintro (_ | _ | _ | _ | ⟨_, hargs⟩)
        exact ⟨rfl, hargs⟩
    | _ => exact ⟨nofun, nofun⟩

/-- Lists agree exactly if they are equally long and match at every place. -/
theorem eqWithList_iff_forall₂ :
    ∀ as bs : List Expr, eqWithList same as bs = true ↔
      List.Forall₂ (Matches fun x y => same x y = true) as bs
  | [], bs => by
    cases bs with
    | nil => exact iff_of_true rfl .nil
    | cons b bs => exact ⟨nofun, nofun⟩
  | a :: as, bs => by
    cases bs with
    | nil => exact ⟨nofun, nofun⟩
    | cons b bs =>
      rw [eqWithList, Bool.and_eq_true, eqWith_iff_matches a b, eqWithList_iff_forall₂ as bs,
        List.forall₂_cons]

end

mutual

/-- Trees match as one if their literals only match if they are one. -/
theorem eq_of_eqWith : ∀ a b : Expr,
    (∀ x ∈ a.literals, ∀ y ∈ b.literals, same x y = true → x = y) →
    eqWith same a b = true → a = b
  | literal x, b, hsame, h => by
    cases b with
    | literal y => rw [hsame x List.mem_cons_self y List.mem_cons_self h]
    | _ => contradiction
  | var x, b, _, h => by
    cases b with
    | var y => rw [eq_of_beq h]
    | _ => contradiction
  | neg a, b, hsame, h => by
    cases b with
    | neg b => rw [eq_of_eqWith a b hsame h]
    | _ => contradiction
  | binary op a b, c, hsame, h => by
    cases c with
    | binary op' a' b' =>
      simp only [eqWith, Bool.and_eq_true, beq_iff_eq] at h
      simp only [literals, List.forall_mem_append] at hsame
      obtain ⟨⟨rfl, hleft⟩, hright⟩ := h
      have ha := eq_of_eqWith a a' (fun x hx => (hsame.1 x hx).1) hleft
      have hb := eq_of_eqWith b b' (fun x hx => (hsame.2 x hx).2) hright
      rw [ha, hb]
    | _ => contradiction
  | call name args, b, hsame, h => by
    cases b with
    | call name' args' =>
      simp only [eqWith, Bool.and_eq_true, beq_iff_eq] at h
      rw [h.1, eq_of_eqWithList args args' hsame h.2]
    | _ => contradiction

/-- Lists that agree are equal if `same` tells their literals apart. -/
theorem eq_of_eqWithList : ∀ as bs : List Expr,
    (∀ x ∈ literalsList as, ∀ y ∈ literalsList bs, same x y = true → x = y) →
    eqWithList same as bs = true → as = bs
  | [], bs, _, h => by
    cases bs with
    | nil => rfl
    | cons b bs => contradiction
  | a :: as, bs, hsame, h => by
    cases bs with
    | nil => contradiction
    | cons b bs =>
      simp only [eqWithList, Bool.and_eq_true] at h
      simp only [literalsList, List.forall_mem_append] at hsame
      have ha := eq_of_eqWith a b (fun x hx => (hsame.1 x hx).1) h.1
      have has := eq_of_eqWithList as bs (fun x hx => (hsame.2 x hx).2) h.2
      rw [ha, has]

end

mutual

/-- A tree matches itself exactly if its literals do. -/
theorem eqWith_self_iff :
    ∀ e : Expr, eqWith same e e = true ↔ ∀ x ∈ e.literals, same x x = true
  | literal x => by
    rw [literals, List.forall_mem_singleton]
    rfl
  | var name => by
    rw [eqWith, literals]
    exact iff_of_true (beq_self_eq_true name) (List.forall_mem_nil _)
  | neg e => eqWith_self_iff e
  | binary op a b => by
    rw [eqWith, beq_self_eq_true, Bool.true_and, Bool.and_eq_true, eqWith_self_iff a,
      eqWith_self_iff b, literals, List.forall_mem_append]
  | call name args => by
    rw [eqWith, beq_self_eq_true, Bool.true_and, eqWithList_self_iff args, literals]

/-- A list of trees agrees with itself exactly if all its literals do. -/
theorem eqWithList_self_iff :
    ∀ es : List Expr, eqWithList same es es = true ↔ ∀ x ∈ literalsList es, same x x = true
  | [] => iff_of_true rfl (List.forall_mem_nil _)
  | e :: es => by
    rw [eqWithList, Bool.and_eq_true, eqWith_self_iff e, eqWithList_self_iff es, literalsList,
      List.forall_mem_append]

end

/-- Comparing the bits of the literals decides whether trees match to the bit. -/
theorem identical_iff_matches {a b : Expr} :
    a.identical b = true ↔ a.Matches (fun x y => x.toBits = y.toBits) b := by
  rw [identical, eqWith_iff_matches]
  simp only [beq_iff_eq]

/-- A tree is alike to itself exactly if none of its literals is NaN. -/
theorem alike_self_iff {e : Expr} : e.alike e = true ↔ ∀ x ∈ e.literals, x.isNaN = false := by
  rw [alike, eqWith_self_iff]
  simp only [Float.beq_self_iff, Float.isNaN_eq_decide_eq_nan, decide_eq_false_iff_not, ne_eq]

end Expr

/-- Equal numbers without a sign are the same number. -/
theorem Number.eq_of_beq {x y : Float} (hx : isNegative x = false) (hy : isNegative y = false)
    (h : (x == y) = true) : x = y := by
  obtain ⟨-, -, h | ⟨-, rfl⟩ | ⟨rfl, -⟩⟩ := Float.beq_iff_ne_nan_and_eq.mp h
  · exact h
  · contradiction
  · contradiction

/-- Plain trees that are alike are the same tree, and have no literal NaN. -/
theorem Expr.IsPlain.alike_iff {a b : Expr} (ha : a.IsPlain) (hb : b.IsPlain) :
    a.alike b = true ↔ a = b ∧ ∀ x ∈ a.literals, x.isNaN = false := by
  constructor
  · intro h
    have heq : a = b := by
      apply Expr.eq_of_eqWith a b _ h
      intro x hx y hy hbeq
      exact Number.eq_of_beq (ha.isNegative_literal x hx) (hb.isNegative_literal y hy) hbeq
    subst heq
    exact ⟨rfl, Expr.alike_self_iff.mp h⟩
  · rintro ⟨rfl, hnan⟩
    exact Expr.alike_self_iff.mpr hnan

/-- Without folding a tree is plain as it was read. -/
theorem Settings.isPlain_of_parse {settings : Settings} (hfolding : settings.folding = false)
    {text : String} {e : Expr} (h : settings.parse text = .ok e) : e.IsPlain := by
  obtain ⟨tree, rfl, -, hplain⟩ := exists_finished h
  rw [finished, hfolding]
  exact hplain

/-- **Equal trees that were read are the same tree.** Two texts are read without folding, each
as strictly and with such a limit as one likes. Their trees are alike, that is equal with the
literals compared as numbers, exactly if they are the same to the bit and no literal is NaN; and
a single tree is alike to itself exactly if none of its literals is NaN. Trees that are alike
have the same text, the same variables and the same called functions, and in every context they
are evaluated to the same value or error with the same trace. -/
theorem alike_trees_are_identical {strictness strictness' : Strictness} {limit limit' : Nat}
    {s t : String} {p q : Expr}
    (hp : ({ strictness, depthLimit := limit } : Settings).parse s = .ok p)
    (hq : ({ strictness := strictness', depthLimit := limit' } : Settings).parse t = .ok q) :
    (p.alike q = true ↔ p.identical q = true ∧ ∀ x ∈ p.literals, x.isNaN = false) ∧
    (p.alike p = true ↔ ∀ x ∈ p.literals, x.isNaN = false) ∧
    (p.alike q = true →
      p.text = q.text ∧ p.variableNames = q.variableNames ∧ p.calledNames = q.calledNames ∧
        ∀ context : Context, p.run context = q.run context) := by
  have halike :=
    (Settings.isPlain_of_parse rfl hp).alike_iff (Settings.isPlain_of_parse rfl hq)
  refine ⟨?_, Expr.alike_self_iff, ?_⟩
  · rw [halike, Expr.identical_iff]
  · intro h
    obtain ⟨rfl, -⟩ := halike.mp h
    exact ⟨rfl, rfl, rfl, fun _ => rfl⟩

/-- The first two texts, one of which is only read leniently, have one tree. The third has a
literal NaN, so its tree is not alike to itself. -/
theorem alike_trees_are_identical_mended :
    let lenient : Settings := { strictness := .lenient, depthLimit := 4 }
    (∃ p q, Expr.parse "x / -0" = .ok p ∧ lenient.parse "(x $ / (-.0.1))" = .ok q ∧
      p.alike q = true ∧ p.identical q = true ∧ p.text = q.text ∧
      ∀ context : Context, p.run context = q.run context) ∧
    ∃ r, lenient.parse "0. / .." = .ok r ∧ r.identical r = true ∧ r.alike r = false := by
  intro lenient
  refine ⟨?_, ?_⟩
  · let p : Expr := .binary .div (.var "x") (.neg (.literal 0))
    have hp : Expr.parse "x / -0" = .ok p := by decide +kernel
    have hq : lenient.parse "(x $ / (-.0.1))" = .ok p := by decide +kernel
    have halike : p.alike p = true := by decide +kernel
    obtain ⟨hidentical, -, hsame⟩ := alike_trees_are_identical hp hq
    obtain ⟨htext, -, -, hrun⟩ := hsame halike
    exact ⟨p, p, hp, hq, halike, (hidentical.mp halike).1, htext, hrun⟩
  · let r : Expr := .binary .div (.literal 0) (.literal Number.nan)
    have hr : lenient.parse "0. / .." = .ok r := by decide +kernel
    have hnan : Number.nan ∈ r.literals := List.mem_cons_of_mem _ List.mem_cons_self
    obtain ⟨-, hself, -⟩ := alike_trees_are_identical hr hr
    refine ⟨r, hr, Expr.identical_iff.mpr rfl, Bool.eq_false_iff.mpr ?_⟩
    intro halike
    have hnumber := hself.mp halike Number.nan hnan
    contradiction

end Reckoner
