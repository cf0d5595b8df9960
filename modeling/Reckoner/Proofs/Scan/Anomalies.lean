import Reckoner.Proofs.Scan.LexicalGrammar
import Reckoner.Proofs.Scan.Places

/-!
# Anomalies and their texts

An anomaly is found in a lexeme, and it says which: the text of the lexeme can be read off it
(`Lexeme.blames_first`). A lenient reading keeps nothing of that text, or the start of a
malformed number, up to its second point. If this start has a digit, it is a number by itself
in front of anything that it does not go on with, and there are more characters of the lexeme
behind it (`Anomaly.repaired?_eq`); otherwise the malformed number is called unreadable, and a
lenient reading takes it for NaN.
-/

set_option autoImplicit false

namespace Reckoner

namespace Anomaly

/-- The characters of the lexeme with the anomaly. -/
def text : Anomaly → List Char
  | strayChar c => [c]
  | malformedNumber run => run.toList
  | unknownMember name => "Math.".toList ++ name.toList

/-- A malformed number that has no digit before its second point. -/
def isUnreadable : Anomaly → Bool
  | malformedNumber run => !(beforeSecondPoint run.toList).any Char.isDigit
  | _ => false

/-- The characters at the start of the lexeme that are not passed over. -/
def kept : Anomaly → List Char
  | malformedNumber run =>
    if (beforeSecondPoint run.toList).any Char.isDigit then beforeSecondPoint run.toList else []
  | _ => []

end Anomaly

/-- What stands before the second point is the start of the run. -/
theorem beforeSecondPoint_isPrefix (run : List Char) : beforeSecondPoint run <+: run := by
  have hrun := List.takeWhile_append_dropWhile (p := (· != '.')) (l := run)
  unfold beforeSecondPoint
  split
  case h_1 => exact List.takeWhile_prefix _
  case h_2 point rest hrest =>
    obtain ⟨behind, hbehind⟩ := List.takeWhile_prefix (l := rest) (· != '.')
    rw [hrest, ← hbehind] at hrun
    refine ⟨behind, ?_⟩
    rw [List.append_assoc, List.cons_append, hrun]

/-- Before the second point there is at most one. -/
theorem count_beforeSecondPoint_le (run : List Char) : (beforeSecondPoint run).count '.' ≤ 1 := by
  have hnone : ∀ cs : List Char, (cs.takeWhile (· != '.')).count '.' = 0 := by
    intro cs
    apply List.count_eq_zero_of_not_mem
    intro hpoint
    have := List.mem_takeWhile_imp hpoint
    contradiction
  unfold beforeSecondPoint
  split
  case h_1 => simp [hnone]
  case h_2 point rest hrest =>
    have hcons := List.count_cons (a := '.') (b := point) (l := rest.takeWhile (· != '.'))
    rw [List.count_append, hnone, hcons, hnone]
    split <;> omega

/-- A malformed number goes on behind its second point if there is a digit before. -/
theorem byteLength_beforeSecondPoint_lt {run : List Char} (hmalformed : Decimal.ofRun? run = none)
    (hdigit : ∃ c ∈ beforeSecondPoint run, c.isDigit = true) :
    byteLength (beforeSecondPoint run) < byteLength run := by
  have hread := Decimal.ofRun?_eq_some_iff.mpr ⟨hdigit, count_beforeSecondPoint_le run, rfl⟩
  obtain ⟨dropped, hdropped⟩ := beforeSecondPoint_isPrefix run
  have hne : dropped ≠ [] := by
    rintro rfl
    rw [List.append_nil] at hdropped
    rw [← hdropped, hread] at hmalformed
    contradiction
  have hpos := byteLength_pos hne
  calc byteLength (beforeSecondPoint run)
      < byteLength (beforeSecondPoint run) + byteLength dropped := Nat.lt_add_of_pos_right hpos
    _ = byteLength run := by rw [← byteLength_append, hdropped]

namespace Anomaly

/-- What is kept is the start of the lexeme. -/
theorem kept_isPrefix (anomaly : Anomaly) : anomaly.kept <+: anomaly.text := by
  cases anomaly with
  | strayChar c => exact List.nil_prefix
  | unknownMember name => exact List.nil_prefix
  | malformedNumber run =>
    rw [kept]
    split
    · exact beforeSecondPoint_isPrefix _
    · exact List.nil_prefix

/-- The anomaly is wrong with the text that it is given with. -/
def IsFound : Anomaly → Prop
  | malformedNumber run =>
    (∀ c ∈ run.toList, isNumberChar c = true) ∧ Decimal.ofRun? run.toList = none
  | _ => True

/-- The token that the strict reading of the repaired text finds in the place of the anomaly. -/
def repaired? (anomaly : Anomaly) : Option Token :=
  if anomaly.isUnreadable then none else anomaly.mended

/-- A malformed number with a digit before its second point is a number up to there, and more
characters behind it. Nothing is kept of other anomalies. -/
theorem repaired?_eq (anomaly : Anomaly) (h : anomaly.IsFound) :
    (anomaly.repaired? = none ∧ anomaly.kept = []) ∨
      ∃ token, anomaly.repaired? = some token ∧
        byteLength anomaly.kept < byteLength anomaly.text ∧
        ∀ behind, Stops isNumberChar behind → IsLexeme anomaly.kept token behind := by
  cases anomaly with
  | strayChar c => exact .inl ⟨rfl, rfl⟩
  | unknownMember name => exact .inl ⟨rfl, rfl⟩
  | malformedNumber run =>
    obtain ⟨hrun, hmalformed⟩ := h
    cases hreadable : (beforeSecondPoint run.toList).any Char.isDigit with
    | false => simp [repaired?, isUnreadable, kept, hreadable]
    | true =>
      right
      have hstart := beforeSecondPoint_isPrefix run.toList
      have hpoints := count_beforeSecondPoint_le run.toList
      have hdigit : ∃ c ∈ beforeSecondPoint run.toList, c.isDigit = true :=
        List.any_eq_true.mp hreadable
      have hread := Decimal.ofRun?_eq_some_iff.mpr ⟨hdigit, hpoints, rfl⟩
      have hkept : (malformedNumber run).kept = beforeSecondPoint run.toList := by
        simp [kept, hreadable]
      refine ⟨.number (Decimal.ofChars (beforeSecondPoint run.toList)).toFloat, ?_, ?_, ?_⟩
      · simp [repaired?, isUnreadable, hreadable, mended, hread]
      · rw [hkept]
        exact byteLength_beforeSecondPoint_lt hmalformed hdigit
      · intro behind hbehind
        rw [hkept]
        exact .number (fun c hc => hrun c (hstart.subset hc)) hdigit hpoints hbehind

/-- A number that cannot be read is taken for NaN. -/
theorem mended_of_isUnreadable {anomaly : Anomaly} (h : anomaly.isUnreadable = true) :
    anomaly.mended = some (.number Number.nan) := by
  cases anomaly with
  | malformedNumber run =>
    have hdigit : (beforeSecondPoint run.toList).any Char.isDigit = false := by
      simpa [isUnreadable] using h
    simp [mended, Decimal.ofRun?, hdigit]
  | _ => contradiction

end Anomaly

/-! ## Lexemes with something wrong with them -/

/-- A token starts with the character. -/
def startsToken (c : Char) : Bool :=
  c == '*' || (punctuation? c).isSome || isNumberChar c || isNameStart c

/-- In front of the characters `behind`, the characters `text` are a lexeme with the anomaly:
a character that is neither blank nor the start of a token, a whole run of digits and points
that has no digit or two points, or `Math.` with a whole name that no function bears. -/
inductive IsAnomalous : List Char → Anomaly → List Char → Prop where
  | strayChar {c : Char} (hblank : isBlank c = false) (hstart : startsToken c = false)
      (behind : List Char) : IsAnomalous [c] (.strayChar c) behind
  | malformedNumber {run behind : List Char} (hne : run ≠ [])
      (hrun : ∀ c ∈ run, isNumberChar c = true)
      (hmalformed : (∀ c ∈ run, c.isDigit = false) ∨ 1 < run.count '.')
      (hbehind : Stops isNumberChar behind) :
      IsAnomalous run (.malformedNumber (String.ofList run)) behind
  | unknownMember {name : String} {behind : List Char}
      (hname : ∀ c ∈ name.toList, isNameChar c = true)
      (hunknown : ∀ f : MathFunction, f.name ≠ name) (hbehind : Stops isNameChar behind) :
      IsAnomalous ("Math." ++ name).toList (.unknownMember name) behind

/-- A run is malformed if it has no digit or more than one point. -/
theorem Decimal.ofRun?_eq_none_iff {run : List Char} :
    ofRun? run = none ↔ (∀ c ∈ run, c.isDigit = false) ∨ 1 < run.count '.' := by
  rw [ofRun?, ite_eq_right_iff, imp_iff_not (Option.some_ne_none _), Bool.and_eq_true,
    not_and_or, Bool.not_eq_true, List.any_eq_false, decide_eq_true_eq, Nat.not_le]
  simp only [Bool.not_eq_true]

/-- A name is refused if it is that of no function. -/
theorem MathFunction.isAllowed_eq_false_iff {name : String} :
    isAllowed name = false ↔ ∀ f : MathFunction, f.name ≠ name := by
  rw [isAllowed, Option.isSome_eq_false_iff, Option.isNone_iff_eq_none,
    Option.eq_none_iff_forall_ne_some]
  exact forall_congr' fun f => not_congr ofName?_eq_some_iff

namespace IsAnomalous

variable {text behind : List Char} {anomaly : Anomaly}

/-- The text of the lexeme can be read off the anomaly. -/
theorem text_eq (h : IsAnomalous text anomaly behind) : anomaly.text = text := by
  cases h with
  | strayChar => rfl
  | malformedNumber => exact String.toList_ofList
  | unknownMember => exact String.toList_append.symm

/-- An anomaly is wrong with the text of its lexeme. -/
theorem isFound (h : IsAnomalous text anomaly behind) : anomaly.IsFound := by
  cases h with
  | strayChar => trivial
  | malformedNumber _ hrun hmalformed =>
    rw [Anomaly.IsFound, String.toList_ofList]
    exact ⟨hrun, Decimal.ofRun?_eq_none_iff.mpr hmalformed⟩
  | unknownMember => trivial

/-- A lexeme with an anomaly is the first lexeme of the text that it starts. -/
theorem first_eq (h : IsAnomalous text anomaly behind) :
    ∃ c cs, text ++ behind = c :: cs ∧ isBlank c = false ∧
      Lexeme.first c cs = ⟨.error anomaly, text, behind⟩ := by
  cases h with
  | @strayChar c hblank hstart =>
    refine ⟨c, behind, rfl, hblank, ?_⟩
    simp only [startsToken, Bool.or_eq_false_iff, beq_eq_false_iff_ne, Option.isSome_eq_false_iff,
      Option.isNone_iff_eq_none] at hstart
    obtain ⟨⟨⟨hstar, hpunctuation⟩, hnumber⟩, hname⟩ := hstart
    simp [Lexeme.first, hstar, hpunctuation, hnumber, hname]
  | malformedNumber hne hrun hmalformed hbehind =>
    obtain ⟨htake, hdrop⟩ := takeWhile_append_boundary hrun hbehind
    have hnone := Decimal.ofRun?_eq_none_iff.mpr hmalformed
    obtain ⟨c, cs, rfl⟩ := List.exists_cons_of_ne_nil hne
    have hc := hrun c List.mem_cons_self
    refine ⟨c, cs ++ behind, rfl, (not_special (.inl hc)).1, ?_⟩
    rw [Lexeme.first_number hc, ← List.cons_append]
    simp only [Lexeme.ofNumber, htake, hdrop, hnone]
  | @unknownMember name _ hname hunknown hbehind =>
    have hmath := Lexeme.ofName_math hname hbehind
    rw [MathFunction.isAllowed_eq_false_iff.mpr hunknown, String.toList_append] at hmath
    rw [String.toList_append]
    refine ⟨'M', _, rfl, rfl, ?_⟩
    rw [Lexeme.first_name rfl]
    exact hmath

end IsAnomalous

namespace Lexeme

/-- If something is wrong with the lexeme, it is as the anomaly says. -/
def Blames (lexeme : Lexeme) : Prop :=
  ∀ anomaly, lexeme.content = .error anomaly → IsAnomalous lexeme.text anomaly lexeme.rest

/-- A star has nothing wrong with it. -/
theorem blames_ofStar (cs : List Char) : (ofStar cs).Blames := by
  unfold ofStar
  split <;> nofun

/-- A run of number characters is a number or malformed. -/
theorem blames_ofNumber {c : Char} (hc : isNumberChar c = true) (cs : List Char) :
    (ofNumber (c :: cs)).Blames := by
  intro anomaly h
  unfold ofNumber at h ⊢
  dsimp only at h ⊢
  split at h
  case h_1 => contradiction
  case h_2 hmalformed =>
    obtain rfl := Except.error.inj h
    have hne : (c :: cs).takeWhile isNumberChar ≠ [] := by simp [hc]
    exact .malformedNumber hne (fun d hd => List.mem_takeWhile_imp hd)
      (Decimal.ofRun?_eq_none_iff.mp hmalformed) (stops_dropWhile isNumberChar (c :: cs))

/-- What begins a name is a name, a member, or a member that is unknown. -/
theorem blames_ofName (cs : List Char) : (ofName cs).Blames := by
  unfold ofName
  split
  case h_2 => nofun
  case h_1 rest hmath =>
    intro anomaly h
    dsimp only at h
    split at h
    case isTrue => contradiction
    case isFalse hunknown =>
      obtain rfl := Except.error.inj h
      have hunknown := MathFunction.isAllowed_eq_false_iff.mp (Bool.eq_false_iff.mpr hunknown)
      have hname : ∀ d ∈ (String.ofList (rest.takeWhile isNameChar)).toList,
          isNameChar d = true := by
        rw [String.toList_ofList]
        exact fun d hd => List.mem_takeWhile_imp hd
      have hanomalous := IsAnomalous.unknownMember hname hunknown (stops_dropWhile isNameChar rest)
      simp only [String.toList_append, String.toList_ofList] at hanomalous
      exact hanomalous

/-- Every lexeme that is no token has the anomaly that it is reported for. -/
theorem blames_first {c : Char} (hblank : isBlank c = false) (cs : List Char) :
    (first c cs).Blames := by
  unfold first
  split
  case isTrue => exact blames_ofStar cs
  case isFalse hstar =>
    split
    case h_1 => nofun
    case h_2 hpunctuation =>
      split
      case isTrue hnumber => exact blames_ofNumber hnumber cs
      case isFalse hnumber =>
        split
        case isTrue => exact blames_ofName _
        case isFalse hname =>
          intro anomaly h
          obtain rfl := Except.error.inj h
          refine .strayChar hblank ?_ cs
          simp [startsToken, hstar, hpunctuation, hnumber, hname]

end Lexeme

end Reckoner
