import Reckoner.Proofs.Grammar.Recognition
import Reckoner.Proofs.Number.Sign
import Reckoner.Proofs.Scan.Contents

/-!
# The leaves of a tree and its tokens

A formula gives its tree nothing but what is in its tokens: the literals are numbers among
them, the variables are identifiers, and the functions are identifiers or members of `Math`.
The tokens of a text are plain, however strictly it is read: no number has a sign, and all
names are names of formulas. So are the leaves of every tree that is read from a text.
-/

set_option autoImplicit false

namespace Reckoner

namespace Expr

mutual

/-- The literals of the tree from left to right, as often as they occur. -/
def literals : Expr → List Float
  | literal value => [value]
  | var _ => []
  | neg operand => operand.literals
  | binary _ left right => left.literals ++ right.literals
  | call _ args => literalsList args

/-- The literals of the trees, one tree after the other. -/
def literalsList : List Expr → List Float
  | [] => []
  | e :: es => e.literals ++ literalsList es

end

/-- The literals of trees are those of each tree, in the order of the trees. -/
theorem literalsList_eq (es : List Expr) : literalsList es = es.flatMap literals := by
  induction es with
  | nil => rfl
  | cons e es ih => rw [literalsList, ih, List.flatMap_cons]

/-- The leaves of the tree and the names of its functions are among the tokens. -/
structure MadeOf (tokens : List Token) (e : Expr) : Prop where
  literal_mem : ∀ value ∈ e.literals, .number value ∈ tokens
  variable_mem : ∀ name ∈ e.variableOccurrences, .identifier name ∈ tokens
  call_mem : ∀ name ∈ e.callOccurrences, .identifier name ∈ tokens ∨ .member name ∈ tokens

/-- A tree that is made of some tokens is made of more. -/
theorem MadeOf.mono {tokens more : List Token} {e : Expr} (h : e.MadeOf tokens)
    (hsub : tokens ⊆ more) : e.MadeOf more := by
  refine ⟨?_, ?_, ?_⟩
  · intro value hvalue
    exact hsub (h.literal_mem value hvalue)
  · intro name hname
    exact hsub (h.variable_mem name hname)
  · intro name hname
    exact (h.call_mem name hname).imp (@hsub _) (@hsub _)

/-- An operation is made of what its operands are made of. -/
theorem MadeOf.binary {tokens : List Token} {op : BinaryOp} {a b : Expr} (ha : a.MadeOf tokens)
    (hb : b.MadeOf tokens) : (Expr.binary op a b).MadeOf tokens := by
  refine ⟨?_, ?_, ?_⟩
  · intro value hvalue
    exact (List.mem_append.mp hvalue).elim (ha.literal_mem value) (hb.literal_mem value)
  · intro name hname
    exact (List.mem_append.mp hname).elim (ha.variable_mem name) (hb.variable_mem name)
  · intro name hname
    exact (List.mem_append.mp hname).elim (ha.call_mem name) (hb.call_mem name)

/-- A call is made of what its arguments are made of, and of its name. -/
theorem MadeOf.call {tokens : List Token} {name : String} {args : List Expr}
    (hname : .identifier name ∈ tokens ∨ .member name ∈ tokens)
    (hargs : ∀ e ∈ args, e.MadeOf tokens) : (Expr.call name args).MadeOf tokens := by
  refine ⟨?_, ?_, ?_⟩
  · intro value hvalue
    rw [Expr.literals, literalsList_eq, List.mem_flatMap] at hvalue
    obtain ⟨e, he, hvalue⟩ := hvalue
    exact (hargs e he).literal_mem value hvalue
  · intro other hother
    rw [variableOccurrences, variableOccurrencesList_eq, List.mem_flatMap] at hother
    obtain ⟨e, he, hother⟩ := hother
    exact (hargs e he).variable_mem other hother
  · intro other hother
    rw [callOccurrences, callOccurrencesList_eq, List.mem_cons, List.mem_flatMap] at hother
    obtain rfl | ⟨e, he, hother⟩ := hother
    · exact hname
    · exact (hargs e he).call_mem other hother

end Expr

namespace Grammar

/-- The tokens of an argument are among those of all arguments. -/
theorem Argument.tokens_subset_separated {x : Argument} {args : List Argument} (h : x ∈ args) :
    x.tokens ⊆ separated args := by
  induction args with
  | nil => contradiction
  | cons y ys ih =>
    by_cases hlast : ys = []
    · subst hlast
      obtain rfl := List.mem_singleton.mp h
      rw [separated_singleton]
      exact List.Subset.refl _
    · rw [separated_cons hlast]
      obtain rfl | h := List.mem_cons.mp h
      · exact List.subset_append_left _ _
      · exact fun token htoken =>
          List.mem_append_right _ (List.mem_cons_of_mem _ (ih h htoken))

/-- A phrase has the leaves of its tree among its tokens. -/
theorem Derives.madeOf {symbol : Symbol} {tokens : List Token} {tree : Expr} {nesting : Nat}
    (h : Derives symbol tokens tree nesting) : tree.MadeOf tokens := by
  induction h with
  | operand _ ih => exact ih
  | operation _ _ _ ihleft ihright =>
    apply Expr.MadeOf.binary
    · exact ihleft.mono (List.subset_append_left _ _)
    · exact ihright.mono fun token htoken =>
        List.mem_append_right _ (List.mem_cons_of_mem _ htoken)
  | minus _ ih =>
    have hmore := ih.mono (List.subset_cons_self (.operator .minus) _)
    exact ⟨hmore.literal_mem, hmore.variable_mem, hmore.call_mem⟩
  | unsigned _ ih => exact ih
  | number value => exact ⟨by simp [Expr.literals], nofun, nofun⟩
  | var name => exact ⟨nofun, by simp [Expr.variableOccurrences], nofun⟩
  | call hhead _ ih =>
    apply Expr.MadeOf.call
    · cases hhead with
      | identifier name => exact .inl List.mem_cons_self
      | member name => exact .inr List.mem_cons_self
    · intro e he
      obtain ⟨x, hx, rfl⟩ := List.mem_map.mp he
      apply (ih x hx).mono
      intro token htoken
      have hseparated := Argument.tokens_subset_separated hx htoken
      simp [hseparated]
  | group _ ih =>
    apply ih.mono
    intro token htoken
    simp [htoken]

end Grammar

/-- Numbers without a sign and names of formulas. -/
def Token.IsPlain : Token → Prop
  | number value => Number.isNegative value = false
  | identifier name => IsName name
  | member name => IsName name
  | _ => True

/-- The literals of the tree have no sign, and its names are names of formulas. -/
structure Expr.IsPlain (e : Expr) : Prop where
  isNegative_literal : ∀ value ∈ e.literals, Number.isNegative value = false
  isName_variable : ∀ name ∈ e.variableOccurrences, IsName name
  isName_call : ∀ name ∈ e.callOccurrences, IsName name

/-- A tree that is made of plain tokens is plain. -/
theorem Expr.MadeOf.isPlain {tokens : List Token} {e : Expr} (h : e.MadeOf tokens)
    (htokens : ∀ token ∈ tokens, token.IsPlain) : e.IsPlain := by
  refine ⟨?_, ?_, ?_⟩
  · intro value hvalue
    exact htokens _ (h.literal_mem value hvalue)
  · intro name hname
    exact htokens _ (h.variable_mem name hname)
  · intro name hname
    exact (h.call_mem name hname).elim (htokens _) (htokens _)

/-- A lexeme is a plain token. -/
theorem IsLexeme.isPlain {text behind : List Char} {token : Token}
    (h : IsLexeme text token behind) : token.IsPlain := by
  cases h with
  | number _ _ _ _ => exact Decimal.isNegative_toFloat _
  | member f _ => exact f.isName_name
  | identifier hname _ _ => exact hname
  | _ => exact trivial

/-- What a lenient reading makes of an anomaly is a plain token. -/
theorem Anomaly.isPlain_of_mended {anomaly : Anomaly} {token : Token}
    (h : anomaly.mended = some token) : token.IsPlain := by
  cases anomaly with
  | malformedNumber run =>
    unfold mended at h
    dsimp only at h
    split at h
    case h_1 d _ =>
      obtain rfl := Option.some.inj h
      exact d.isNegative_toFloat
    case h_2 =>
      obtain rfl := Option.some.inj h
      exact Number.isNegative_nan
  | _ => contradiction

/-- The tokens that are found in characters are plain. -/
theorem isPlain_of_mem_scanFrom (p : Nat) (cs : List Char) :
    ∀ lexeme ∈ (scanFrom p cs).lexemes, ∀ token, lexeme.value = .ok token → token.IsPlain := by
  induction p, cs using scanFrom.induct with
  | case1 p => simp [scanFrom]
  | case2 p c cs hblank ih =>
    rw [scanFrom, if_pos hblank]
    exact ih
  | case3 p c cs hblank lexeme ih =>
    rw [scanFrom, if_neg hblank]
    intro found hfound token htoken
    obtain rfl | hfound := List.mem_cons.mp hfound
    · exact (Lexeme.sound_first c cs token htoken).isPlain
    · exact ih found hfound token htoken

/-- However strictly a text is read, its tokens are plain. -/
theorem Settings.isPlain_of_tokens {settings : Settings} {text : String} {stream : TokenStream}
    (h : settings.tokens (scan text) = .ok stream) :
    ∀ token ∈ stream.tokens, token.value.IsPlain := by
  have hscan := isPlain_of_mem_scanFrom 0 text.toList
  obtain rfl := Settings.lenient_eq_of_tokens h
  intro token htoken
  obtain ⟨⟨content, position⟩, hfound, hkept⟩ := List.mem_filterMap.mp htoken
  cases content with
  | ok found =>
    obtain rfl := Option.some.inj hkept
    exact hscan _ hfound _ rfl
  | error anomaly =>
    obtain ⟨mended, hmended, rfl⟩ := Option.map_eq_some_iff.mp hkept
    exact Anomaly.isPlain_of_mended hmended

end Reckoner
