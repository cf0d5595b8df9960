import Mathlib.Data.List.TakeWhile
import Reckoner.Token.Scan

/-!
# Lexemes by a grammar

What a lexeme is, is said here without a scanner: `IsLexeme text token behind` says that in
front of `behind` the characters `text` are a lexeme that stands for the token. What stands
behind matters because a lexeme takes in all that it can: no number is followed by a digit or
a point, no name by a character of a name, and no single star by another. What starts with
`Math.` is the name of a function on the allow-list and nothing else.

The scanner agrees. A lexeme of the grammar is the first lexeme of the text that it starts
(`IsLexeme.first_eq`), and the first lexeme of a text is one of the grammar unless something
is wrong with it (`Lexeme.sound_first`).
-/

set_option autoImplicit false

namespace Reckoner

/-- The characters do not start with one of the class. -/
def Stops (p : Char → Bool) (behind : List Char) : Prop :=
  ∀ c, behind.head? = some c → p c = false

/-- A run stops in front of a character that does not belong to it. -/
theorem stops_cons {p : Char → Bool} {c : Char} (h : p c = false) (cs : List Char) :
    Stops p (c :: cs) := by
  intro d hd
  obtain rfl := Option.some.inj hd
  exact h

/-- A name as formulas can hold it: a letter or underscore, then letters, digits and
underscores. -/
def IsName (name : String) : Prop :=
  ∃ c cs, name.toList = c :: cs ∧ isNameStart c = true ∧ ∀ d ∈ cs, isNameChar d = true

/-- In front of the characters `behind`, the characters `text` are a lexeme that stands for
the token. -/
inductive IsLexeme : List Char → Token → List Char → Prop where
  | openParen (behind : List Char) : IsLexeme ['('] .openParen behind
  | closeParen (behind : List Char) : IsLexeme [')'] .closeParen behind
  | comma (behind : List Char) : IsLexeme [','] .comma behind
  | operator (sign : Operator) {behind : List Char}
      (hbehind : sign = .star → Stops (· == '*') behind) :
      IsLexeme sign.text.toList (.operator sign) behind
  | number {run behind : List Char} (hrun : ∀ c ∈ run, isNumberChar c = true)
      (hdigit : ∃ c ∈ run, c.isDigit = true) (hpoints : run.count '.' ≤ 1)
      (hbehind : Stops isNumberChar behind) :
      IsLexeme run (.number (Decimal.ofChars run).toFloat) behind
  | member (f : MathFunction) {behind : List Char} (hbehind : Stops isNameChar behind) :
      IsLexeme ("Math." ++ f.name).toList (.member f.name) behind
  | identifier {name : String} {behind : List Char} (hname : IsName name)
      (hbehind : Stops isNameChar behind) (hmath : ¬ "Math.".toList <+: name.toList ++ behind) :
      IsLexeme name.toList (.identifier name) behind

/-- A run that stops in front of the rest is just what is taken. -/
theorem takeWhile_append_boundary {p : Char → Bool} {word rest : List Char}
    (hword : ∀ c ∈ word, p c = true) (hrest : Stops p rest) :
    (word ++ rest).takeWhile p = word ∧ (word ++ rest).dropWhile p = rest := by
  rw [List.takeWhile_append_of_pos hword, List.dropWhile_append_of_pos hword]
  cases rest with
  | nil => simp
  | cons c cs => simp [hrest c rfl]

/-- Characters are divided in one way only where a class of characters ends. -/
theorem append_injective_of_stops {p : Char → Bool} {word word' rest rest' : List Char}
    (hword : ∀ c ∈ word, p c = true) (hword' : ∀ c ∈ word', p c = true) (hrest : Stops p rest)
    (hrest' : Stops p rest') (h : word ++ rest = word' ++ rest') : word = word' ∧ rest = rest' := by
  obtain ⟨htake, hdrop⟩ := takeWhile_append_boundary hword hrest
  obtain ⟨htake', hdrop'⟩ := takeWhile_append_boundary hword' hrest'
  rw [h] at htake hdrop
  exact ⟨htake.symm.trans htake', hdrop.symm.trans hdrop'⟩

/-- What is taken stops in front of what is left. -/
theorem stops_dropWhile (p : Char → Bool) (cs : List Char) : Stops p (cs.dropWhile p) := by
  intro c hc
  have hhead := List.head?_dropWhile_not p cs
  rw [hc] at hhead
  exact hhead

/-- Punctuation is not blank. -/
theorem isBlank_of_punctuation? {c : Char} {token : Token} (h : punctuation? c = some token) :
    isBlank c = false := by
  unfold punctuation? at h
  split at h
  all_goals first | rfl | contradiction

/-- The codes of the letters. -/
theorem toNat_of_isAlpha {c : Char} (h : c.isAlpha = true) :
    (65 ≤ c.toNat ∧ c.toNat ≤ 90) ∨ (97 ≤ c.toNat ∧ c.toNat ≤ 122) := by
  have hletter : (decide (c.val ≥ 'A'.val ∧ c.val ≤ 'Z'.val) ||
      (decide (c.val ≥ 'a'.val) && decide (c.val ≤ 'z'.val))) = true := h
  simp only [Bool.or_eq_true, Bool.and_eq_true, decide_eq_true_eq, ge_iff_le,
    UInt32.le_iff_toNat_le] at hletter
  exact hletter

/-- Nothing begins both a name and a number. -/
theorem isNumberChar_eq_false_of_isNameStart {c : Char} (h : isNameStart c = true) :
    isNumberChar c = false := by
  rw [isNumberChar, Bool.or_eq_false_iff]
  rw [isNameStart, Bool.or_eq_true, beq_iff_eq] at h
  rcases h with halpha | rfl
  · have hcode := toNat_of_isAlpha halpha
    constructor
    · rw [Bool.eq_false_iff]
      intro hdigit
      obtain ⟨-, hle⟩ := Char.isDigit_iff_toNat.mp hdigit
      have hnine : '9'.toNat = 57 := rfl
      omega
    · rw [beq_eq_false_iff_ne]
      rintro rfl
      contradiction
  · exact ⟨rfl, rfl⟩

/-- Characters of names and numbers are not blank and are no tokens of their own. -/
theorem not_special {c : Char} (h : isNumberChar c = true ∨ isNameStart c = true) :
    isBlank c = false ∧ c ≠ '*' ∧ punctuation? c = none := by
  refine ⟨?_, ?_, ?_⟩
  · cases hblank : isBlank c with
    | false => rfl
    | true =>
      simp only [isBlank, Bool.or_eq_true, beq_iff_eq] at hblank
      rcases hblank with (((rfl | rfl) | rfl) | rfl) | rfl
      all_goals rcases h with h | h <;> contradiction
  · rintro rfl
    rcases h with h | h <;> contradiction
  · unfold punctuation?
    split
    all_goals first | rfl | (rcases h with h | h <;> contradiction)

/-- A name consists of name characters. -/
theorem IsName.isNameChar {name : String} (h : IsName name) :
    ∀ c ∈ name.toList, isNameChar c = true := by
  obtain ⟨c, cs, hchars, hstart, htail⟩ := h
  intro d hd
  rw [hchars] at hd
  rcases List.mem_cons.mp hd with rfl | hd
  · exact Lexeme.isNameChar_of_isNameStart hstart
  · exact htail d hd

/-- The functions have names that can be written. -/
theorem MathFunction.isName_name (f : MathFunction) : IsName f.name := by
  have hstart : ∀ f : MathFunction, ∃ c cs, f.name.toList = c :: cs ∧ isNameStart c = true ∧
      cs.all isNameChar = true := by
    intro f
    cases f <;> exact ⟨_, _, rfl, rfl, rfl⟩
  obtain ⟨c, cs, hchars, hc, hcs⟩ := hstart f
  exact ⟨c, cs, hchars, hc, List.all_eq_true.mp hcs⟩

/-- There is nothing behind a prefix that is not there. -/
theorem afterMath?_eq_none_iff {cs : List Char} :
    afterMath? cs = none ↔ ¬ "Math.".toList <+: cs := by
  constructor
  · rintro hnone ⟨rest, rfl⟩
    contradiction
  · intro hmath
    cases hsome : afterMath? cs with
    | none => rfl
    | some rest =>
      rw [Lexeme.afterMath?_eq_some hsome] at hmath
      exact absurd ⟨rest, rfl⟩ hmath

/-- A word at which a text reads `Math.` is `Math`, with a point behind it. -/
theorem math_prefix_iff {word rest : List Char} (hword : ∀ c ∈ word, isNameChar c = true)
    (hrest : Stops isNameChar rest) :
    "Math.".toList <+: word ++ rest ↔ word = "Math".toList ∧ rest.head? = some '.' := by
  constructor
  · rintro ⟨behind, hbehind⟩
    have hmath : ∀ c ∈ "Math".toList, isNameChar c = true := List.all_eq_true.mp rfl
    have hpoint : Stops isNameChar ('.' :: behind) := stops_cons rfl behind
    obtain ⟨rfl, rfl⟩ := append_injective_of_stops hmath hword hpoint hrest hbehind
    exact ⟨rfl, rfl⟩
  · rintro ⟨rfl, hpoint⟩
    obtain ⟨behind, rfl⟩ := List.head?_eq_some_iff.mp hpoint
    exact ⟨behind, rfl⟩

/-- A run is a decimal if it has a digit and at most one point. -/
theorem Decimal.ofRun?_eq_some_iff {run : List Char} {d : Decimal} :
    ofRun? run = some d ↔ (∃ c ∈ run, c.isDigit = true) ∧ run.count '.' ≤ 1 ∧ ofChars run = d := by
  simp [ofRun?, and_assoc]

namespace Lexeme

/-- A character of punctuation is a lexeme, whatever follows. -/
theorem first_punctuation {c : Char} {token : Token} (h : punctuation? c = some token)
    (cs : List Char) : first c cs = ⟨.ok token, [c], cs⟩ := by
  have hstar : c ≠ '*' := by
    rintro rfl
    contradiction
  simp [first, hstar, h]

/-- A star without another one behind it is a lexeme. -/
theorem first_star {cs : List Char} (hcs : Stops (· == '*') cs) :
    first '*' cs = ⟨.ok (.operator .star), ['*'], cs⟩ := by
  rw [first, if_pos rfl]
  unfold ofStar
  split
  case h_1 => exact absurd (hcs '*' rfl) (by decide)
  case h_2 => rfl

/-- What begins with a number character is a number. -/
theorem first_number {c : Char} (h : isNumberChar c = true) (cs : List Char) :
    first c cs = ofNumber (c :: cs) := by
  obtain ⟨-, hstar, hpunctuation⟩ := not_special (.inl h)
  simp [first, hstar, hpunctuation, h]

/-- What begins as names do is a name or a member. -/
theorem first_name {c : Char} (h : isNameStart c = true) (cs : List Char) :
    first c cs = ofName (c :: cs) := by
  obtain ⟨-, hstar, hpunctuation⟩ := not_special (.inr h)
  have hnumber := isNumberChar_eq_false_of_isNameStart h
  simp [first, hstar, hpunctuation, hnumber, h]

/-- A run that is a decimal is read up to where it stops. -/
theorem ofNumber_append {run behind : List Char} (hrun : ∀ c ∈ run, isNumberChar c = true)
    (hbehind : Stops isNumberChar behind) {d : Decimal} (hd : Decimal.ofRun? run = some d) :
    ofNumber (run ++ behind) = ⟨.ok (.number d.toFloat), run, behind⟩ := by
  obtain ⟨htake, hdrop⟩ := takeWhile_append_boundary hrun hbehind
  simp [ofNumber, htake, hdrop, hd]

/-- A name that is no member is read up to where it stops. -/
theorem ofName_append {name : String} (hname : ∀ c ∈ name.toList, isNameChar c = true)
    {behind : List Char} (hbehind : Stops isNameChar behind)
    (hmath : ¬ "Math.".toList <+: name.toList ++ behind) :
    ofName (name.toList ++ behind) = ⟨.ok (.identifier name), name.toList, behind⟩ := by
  obtain ⟨htake, hdrop⟩ := takeWhile_append_boundary hname hbehind
  simp [ofName, afterMath?_eq_none_iff.mpr hmath, htake, hdrop]

/-- Behind `Math.` the whole name is taken, whatever it is. -/
theorem ofName_math {name : String} (hname : ∀ c ∈ name.toList, isNameChar c = true)
    {behind : List Char} (hbehind : Stops isNameChar behind) :
    ofName (("Math." ++ name).toList ++ behind) =
      ⟨if MathFunction.isAllowed name then .ok (.member name) else .error (.unknownMember name),
        ("Math." ++ name).toList, behind⟩ := by
  obtain ⟨htake, hdrop⟩ := takeWhile_append_boundary hname hbehind
  have hmath : afterMath? (("Math." ++ name).toList ++ behind) = some (name.toList ++ behind) := by
    rw [String.toList_append, List.append_assoc]
    rfl
  simp only [ofName, hmath, htake, hdrop, String.ofList_toList]
  rw [String.toList_append]
  rfl

/-- A function of the allow-list is read as a member. -/
theorem ofName_member (f : MathFunction) {behind : List Char} (hbehind : Stops isNameChar behind) :
    ofName (("Math." ++ f.name).toList ++ behind) =
      ⟨.ok (.member f.name), ("Math." ++ f.name).toList, behind⟩ := by
  have hallowed : MathFunction.isAllowed f.name = true := by
    rw [MathFunction.isAllowed, MathFunction.ofName?_eq_some_iff.mpr rfl]
    rfl
  rw [ofName_math f.isName_name.isNameChar hbehind, if_pos hallowed]

end Lexeme

/-- A lexeme of the grammar is the first lexeme of the text that it starts. -/
theorem IsLexeme.first_eq {text behind : List Char} {token : Token}
    (h : IsLexeme text token behind) :
    ∃ c cs, text ++ behind = c :: cs ∧ isBlank c = false ∧
      Lexeme.first c cs = ⟨.ok token, text, behind⟩ := by
  have hsingle : ∀ {c : Char} {token : Token}, punctuation? c = some token →
      ∃ d ds, [c] ++ behind = d :: ds ∧ isBlank d = false ∧
        Lexeme.first d ds = ⟨.ok token, [c], behind⟩ := by
    intro c token hc
    exact ⟨c, behind, rfl, isBlank_of_punctuation? hc, Lexeme.first_punctuation hc behind⟩
  cases h with
  | openParen => exact hsingle rfl
  | closeParen => exact hsingle rfl
  | comma => exact hsingle rfl
  | operator sign hbehind =>
    cases sign with
    | star => exact ⟨'*', behind, rfl, rfl, Lexeme.first_star (hbehind rfl)⟩
    | starStar => exact ⟨'*', '*' :: behind, rfl, rfl, rfl⟩
    | _ => exact hsingle rfl
  | number hrun hdigit hpoints hbehind =>
    have hread := Decimal.ofRun?_eq_some_iff.mpr ⟨hdigit, hpoints, rfl⟩
    obtain ⟨d, hd, -⟩ := hdigit
    obtain ⟨c, cs, rfl⟩ := List.exists_cons_of_ne_nil (List.ne_nil_of_mem hd)
    have hc := hrun c List.mem_cons_self
    refine ⟨c, cs ++ behind, rfl, (not_special (.inl hc)).1, ?_⟩
    rw [Lexeme.first_number hc, ← List.cons_append]
    exact Lexeme.ofNumber_append hrun hbehind hread
  | member f hbehind =>
    have hmember := Lexeme.ofName_member f hbehind
    rw [String.toList_append] at hmember ⊢
    refine ⟨'M', _, rfl, rfl, ?_⟩
    rw [Lexeme.first_name rfl]
    exact hmember
  | @identifier name _ hname hbehind hmath =>
    have hidentifier := Lexeme.ofName_append hname.isNameChar hbehind hmath
    obtain ⟨c, cs, hchars, hstart, -⟩ := hname
    rw [hchars] at hidentifier ⊢
    refine ⟨c, cs ++ behind, rfl, (not_special (.inr hstart)).1, ?_⟩
    rw [Lexeme.first_name hstart]
    exact hidentifier

/-- Punctuation is a lexeme of the grammar. -/
theorem isLexeme_of_punctuation? {c : Char} {token : Token} (h : punctuation? c = some token)
    (behind : List Char) : IsLexeme [c] token behind := by
  unfold punctuation? at h
  split at h
  case h_9 => contradiction
  all_goals obtain rfl := Option.some.inj h
  case h_1 => exact .openParen behind
  case h_2 => exact .closeParen behind
  case h_3 => exact .comma behind
  case h_4 => exact .operator .plus nofun
  case h_5 => exact .operator .minus nofun
  case h_6 => exact .operator .slash nofun
  case h_7 => exact .operator .percent nofun
  case h_8 => exact .operator .caret nofun

namespace Lexeme

/-- The lexeme is one of the grammar, unless something is wrong with it. -/
def Sound (lexeme : Lexeme) : Prop :=
  ∀ token, lexeme.content = .ok token → IsLexeme lexeme.text token lexeme.rest

/-- One star or two are a lexeme of the grammar. -/
theorem sound_ofStar (cs : List Char) : (ofStar cs).Sound := by
  unfold ofStar
  split
  case h_1 =>
    intro token h
    obtain rfl := Except.ok.inj h
    exact .operator .starStar nofun
  case h_2 hstar =>
    intro token h
    obtain rfl := Except.ok.inj h
    apply IsLexeme.operator .star
    intro _ c hc
    obtain ⟨cs, rfl⟩ := List.head?_eq_some_iff.mp hc
    rw [beq_eq_false_iff_ne]
    rintro rfl
    exact hstar cs rfl

/-- A number that is read is a lexeme of the grammar. -/
theorem sound_ofNumber (cs : List Char) : (ofNumber cs).Sound := by
  intro token h
  unfold ofNumber at h
  dsimp only at h
  split at h
  case h_2 => contradiction
  case h_1 d hd =>
    obtain rfl := Except.ok.inj h
    obtain ⟨hdigit, hpoints, rfl⟩ := Decimal.ofRun?_eq_some_iff.mp hd
    exact .number (fun c hc => List.mem_takeWhile_imp hc) hdigit hpoints (stops_dropWhile _ cs)

/-- A name or member that is read is a lexeme of the grammar. -/
theorem sound_ofName {c : Char} (hc : isNameStart c = true) (cs : List Char) :
    (ofName (c :: cs)).Sound := by
  unfold ofName
  split
  case h_1 rest hmath =>
    intro token h
    dsimp only at h
    split at h
    case isFalse => contradiction
    case isTrue hallowed =>
      obtain rfl := Except.ok.inj h
      obtain ⟨f, hf⟩ := Option.isSome_iff_exists.mp hallowed
      have hname := MathFunction.ofName?_eq_some_iff.mp hf
      have hlexeme := IsLexeme.member f (stops_dropWhile isNameChar rest)
      rw [hname] at hlexeme
      simp only [String.toList_append, String.toList_ofList] at hlexeme
      exact hlexeme
  case h_2 hmath =>
    intro token h
    obtain rfl := Except.ok.inj h
    have hname : IsName (String.ofList ((c :: cs).takeWhile isNameChar)) := by
      refine ⟨c, cs.takeWhile isNameChar, ?_, hc, fun d hd => List.mem_takeWhile_imp hd⟩
      simp [isNameChar_of_isNameStart hc]
    have hlexeme := IsLexeme.identifier hname (stops_dropWhile isNameChar (c :: cs))
    simp only [String.toList_ofList, List.takeWhile_append_dropWhile] at hlexeme
    exact hlexeme (afterMath?_eq_none_iff.mp hmath)

/-- Every token that is read is a lexeme of the grammar. -/
theorem sound_first (c : Char) (cs : List Char) : (first c cs).Sound := by
  unfold first
  split
  case isTrue => exact sound_ofStar cs
  case isFalse =>
    split
    case h_1 hpunctuation =>
      intro token h
      obtain rfl := Except.ok.inj h
      exact isLexeme_of_punctuation? hpunctuation cs
    case h_2 =>
      split
      case isTrue => exact sound_ofNumber _
      case isFalse =>
        split
        case isTrue hstart => exact sound_ofName hstart cs
        case isFalse =>
          intro token h
          contradiction

end Lexeme

end Reckoner
