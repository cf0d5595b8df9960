import Reckoner.Proofs.Scan.Division

/-!
# Texts as bytes

A text can be looked at byte by byte in its UTF-8 encoding, and parts of it can be taken out from
one byte up to another. Such a part is a text only if both ends are character boundaries, which is
asked for here each time. A byte that starts a character tells as much about it as the classes of
characters of formulas need: an ASCII character is its only byte, and all others start with a byte
that is in no class, as they are in none themselves.
-/

set_option autoImplicit false

namespace Reckoner.ByteScan

/-- The byte at the position as the character with its number, if there is a byte. -/
def peek (text : String) (position : Nat) : Option Char :=
  text.toByteArray.data[position]?.map fun byte => Char.ofNat byte.toNat

/-- The position is the start of a character of the text, or its end. -/
def OnBoundary (text : String) (position : Nat) : Prop :=
  String.Pos.Raw.IsValid text ⟨position⟩

/-- Whether a position is a boundary can be told by looking at the byte there. -/
instance (text : String) (position : Nat) : Decidable (OnBoundary text position) :=
  inferInstanceAs (Decidable (String.Pos.Raw.IsValid text ⟨position⟩))

/-- The characters of the bytes from `start` up to `stop`, if there are these positions and both
are character boundaries. -/
def slice? (text : String) (start stop : Nat) : Option (List Char) :=
  if start ≤ stop ∧ OnBoundary text start ∧ OnBoundary text stop then
    (text.toByteArray.extract start stop).utf8Decode?.map Array.toList
  else none

/-- Whether the bytes from the position on start with those of the word, if there is this
position. -/
def startsWith? (text : String) (position : Nat) (word : String) : Option Bool :=
  if position ≤ text.utf8ByteSize then
    some ((text.toByteArray.extract position (position + word.utf8ByteSize)).data =
      word.toByteArray.data)
  else none

section Parts

variable {text : String} {before run behind : List Char}

/-- The encoding of characters has as many bytes as they take. -/
theorem size_utf8Encode (cs : List Char) : cs.utf8Encode.size = byteLength cs := by
  rw [← String.toByteArray_ofList, String.size_toByteArray, ← byteLength_toList,
    String.toList_ofList]

/-- The bytes of a text are those of its parts. -/
theorem toByteArray_eq (h : text.toList = before ++ behind) :
    text.toByteArray = before.utf8Encode ++ behind.utf8Encode := by
  rw [← String.ofList_toList (s := text), h, String.toByteArray_ofList, List.utf8Encode_append]

/-- A text has as many bytes as its parts. -/
theorem utf8ByteSize_eq (h : text.toList = before ++ behind) :
    text.utf8ByteSize = byteLength before + byteLength behind := by
  rw [← byteLength_toList, h, byteLength_append]

/-- Behind whole characters there is a boundary. -/
theorem onBoundary_of_append (h : text.toList = before ++ behind) :
    OnBoundary text (byteLength before) := by
  refine String.Pos.Raw.isValid_iff_exists_append.2
    ⟨String.ofList before, String.ofList behind, ?_, ?_⟩
  · rw [← String.ofList_append, ← h, String.ofList_toList]
  · rw [String.rawEndPos, ← byteLength_toList, String.toList_ofList]

/-- The bytes of the text behind some characters are those of the other characters. -/
theorem extract_behind (h : text.toList = before ++ behind) (n : Nat) :
    text.toByteArray.extract (byteLength before) (byteLength before + n) =
      behind.utf8Encode.extract 0 n := by
  have hshift := @ByteArray.extract_append_size_add' before.utf8Encode behind.utf8Encode 0 n
    (byteLength before) (size_utf8Encode before).symm
  rw [toByteArray_eq h, ← hshift, Nat.add_zero]

/-- Between two places in front of whole characters, these characters can be taken out. -/
theorem slice?_eq (h : text.toList = before ++ (run ++ behind)) :
    slice? text (byteLength before) (byteLength before + byteLength run) = some run := by
  have hstop : OnBoundary text (byteLength before + byteLength run) := by
    rw [← byteLength_append]
    apply onBoundary_of_append
    rw [h, List.append_assoc]
  rw [slice?, if_pos ⟨Nat.le_add_right _ _, onBoundary_of_append h, hstop⟩, extract_behind h,
    List.utf8Encode_append, ByteArray.extract_append_eq_left (size_utf8Encode run).symm,
    List.utf8Decode?_utf8Encode]
  rfl

/-- A text starts with a word exactly if its bytes start with those of the word. -/
theorem startsWith?_eq (h : text.toList = before ++ behind) (word : String) :
    startsWith? text (byteLength before) word = some (decide (word.toList <+: behind)) := by
  have hle : byteLength before ≤ text.utf8ByteSize := by
    rw [utf8ByteSize_eq h]
    exact Nat.le_add_right _ _
  have hword : word.toByteArray = word.toList.utf8Encode := by
    rw [← String.toByteArray_ofList, String.ofList_toList]
  have hsize : word.utf8ByteSize = word.toList.utf8Encode.size := by
    rw [size_utf8Encode, byteLength_toList]
  have hbytes : behind.utf8Encode.extract 0 word.utf8ByteSize = word.toByteArray ↔
      word.toList <+: behind := by
    rw [hword]
    constructor
    · intro heq
      apply List.isPrefix_of_utf8Encode_append_eq_utf8Encode
        (behind.utf8Encode.extract word.utf8ByteSize behind.utf8Encode.size)
      have hle := congrArg ByteArray.size heq
      rw [ByteArray.size_extract, Nat.sub_zero, ← hsize] at hle
      rw [← heq, ← ByteArray.extract_eq_extract_append_extract _ (Nat.zero_le _) (by omega),
        ByteArray.extract_zero_size]
    · rintro ⟨more, rfl⟩
      rw [List.utf8Encode_append]
      exact ByteArray.extract_append_eq_left hsize
  rw [startsWith?, if_pos hle, extract_behind h]
  exact congrArg some (decide_eq_decide.2 (ByteArray.ext_iff.symm.trans hbytes))

/-! ## Bytes that start characters -/

/-- The first byte of an ASCII character is its number; other characters start with a byte beyond
the ASCII range. -/
theorem exists_utf8EncodeChar_eq (c : Char) :
    ∃ b bs, String.utf8EncodeChar c = b :: bs ∧
      (c.toNat < 128 ∧ b.toNat = c.toNat ∨ 128 ≤ c.toNat ∧ 128 ≤ b.toNat) := by
  fun_cases String.utf8EncodeChar with
  | case1 v h =>
    have hv : c.toNat ≤ 127 := h
    refine ⟨_, _, rfl, .inl ⟨by omega, ?_⟩⟩
    rw [UInt8.toNat_ofNat']
    exact Nat.mod_eq_of_lt (by omega)
  | case2 v h | case3 v h | case4 v h =>
    have hv : ¬ c.toNat ≤ 127 := h
    refine ⟨_, _, rfl, .inr ⟨by omega, ?_⟩⟩
    rw [UInt8.toNat_ofNat']
    omega

/-- A byte shown as a character keeps its number. -/
theorem toNat_ofNat_toNat (b : UInt8) : (Char.ofNat b.toNat).toNat = b.toNat := by
  have h := b.toNat_lt
  have hvalid : b.toNat.isValidChar := .inl (by omega)
  rw [Char.ofNat, dif_pos hvalid]
  rfl

/-- What the first byte of the character `c` shows: `c` itself, or nothing of the ASCII range, and
`c` is not of this range either. -/
def Shows (c d : Char) : Prop :=
  d = c ∨ 128 ≤ c.toNat ∧ 128 ≤ d.toNat

/-- The byte behind some characters is the first one of the others. -/
theorem peek_eq (h : text.toList = before ++ behind) :
    peek text (byteLength before) =
      behind.utf8Encode.data[0]?.map fun byte => Char.ofNat byte.toNat := by
  have hsize : before.utf8Encode.data.size = byteLength before := size_utf8Encode before
  rw [peek, toByteArray_eq h, ByteArray.data_append, ← hsize,
    Array.getElem?_append_right (Nat.le_refl _), Nat.sub_self]

/-- There is no byte behind all characters. -/
theorem peek_end (h : text.toList = before) : peek text (byteLength before) = none := by
  have hempty : text.toList = before ++ [] := by rw [h, List.append_nil]
  rw [peek_eq hempty]
  rfl

/-- In front of a character there is a byte, and it shows the character. -/
theorem exists_peek_cons {c : Char} (h : text.toList = before ++ c :: behind) :
    ∃ d, peek text (byteLength before) = some d ∧ Shows c d := by
  obtain ⟨b, bs, hbytes, hb⟩ := exists_utf8EncodeChar_eq c
  have hhead : (c :: behind).utf8Encode.data[0]? = some b := by
    rw [List.utf8Encode_cons, List.utf8Encode_singleton, hbytes]
    simp
  refine ⟨Char.ofNat b.toNat, ?_, ?_⟩
  · rw [peek_eq h, hhead]
    rfl
  · rw [Shows]
    rcases hb with ⟨_, heq⟩ | ⟨hc, hle⟩
    · left
      rw [heq, Char.ofNat_toNat]
    · right
      rw [toNat_ofNat_toNat]
      exact ⟨hc, hle⟩

end Parts

/-! ## Classes of characters -/

/-- All characters of the class are ASCII characters. -/
def AsciiClass (p : Char → Bool) : Prop :=
  ∀ c, p c = true → c.toNat < 128

section Classes

variable {p : Char → Bool} {c d : Char}

/-- An ASCII character takes one byte. -/
theorem utf8Size_eq_one (h : c.toNat < 128) : c.utf8Size = 1 := by
  have hlt : c.val.toNat < 128 := h
  rw [Char.utf8Size_eq_one_iff, UInt32.le_iff_toNat_le]
  exact Nat.le_of_lt_succ hlt

/-- Whether a character is in a class can be told from its first byte. -/
theorem AsciiClass.eq_of_shows (hp : AsciiClass p) (h : Shows c d) : p d = p c := by
  rcases h with rfl | ⟨hc, hd⟩
  · rfl
  · have hout : ∀ e : Char, 128 ≤ e.toNat → p e = false := by
      intro e he
      rw [Bool.eq_false_iff]
      intro htrue
      exact absurd (hp e htrue) (Nat.not_lt.2 he)
    rw [hout c hc, hout d hd]

/-- A class of one ASCII character has only ASCII characters. -/
theorem asciiClass_eq (e : Char) (he : e.toNat < 128) : AsciiClass (· == e) := by
  intro c hc
  rwa [beq_iff_eq.1 hc]

/-- Two classes of ASCII characters have only ASCII characters between them. -/
theorem AsciiClass.or {q : Char → Bool} (hp : AsciiClass p) (hq : AsciiClass q) :
    AsciiClass fun c => p c || q c := by
  intro c hc
  rcases Bool.or_eq_true_iff.1 hc with h | h
  · exact hp c h
  · exact hq c h

/-- Digits are ASCII characters. -/
theorem asciiClass_isDigit : AsciiClass Char.isDigit := by
  intro c hc
  have hle := (Char.isDigit_iff_toNat.1 hc).2
  have hnine : '9'.toNat = 57 := rfl
  omega

/-- Letters, as names have them, are ASCII characters. -/
theorem asciiClass_isAlpha : AsciiClass Char.isAlpha := by
  intro c hc
  have hcode := toNat_of_isAlpha hc
  omega

/-- Blanks are ASCII characters. -/
theorem asciiClass_isBlank : AsciiClass isBlank :=
  ((((asciiClass_eq ' ' (by decide)).or (asciiClass_eq '\t' (by decide))).or
    (asciiClass_eq '\n' (by decide))).or (asciiClass_eq '\x0c' (by decide))).or
    (asciiClass_eq '\r' (by decide))

/-- Numbers consist of ASCII characters. -/
theorem asciiClass_isNumberChar : AsciiClass isNumberChar :=
  asciiClass_isDigit.or (asciiClass_eq '.' (by decide))

/-- Names start with ASCII characters. -/
theorem asciiClass_isNameStart : AsciiClass isNameStart :=
  asciiClass_isAlpha.or (asciiClass_eq '_' (by decide))

/-- Names consist of ASCII characters. -/
theorem asciiClass_isNameChar : AsciiClass isNameChar :=
  (asciiClass_isAlpha.or asciiClass_isDigit).or (asciiClass_eq '_' (by decide))

/-- Punctuation is made of ASCII characters. -/
theorem toNat_lt_of_punctuation? {token : Token} (h : punctuation? c = some token) :
    c.toNat < 128 := by
  unfold punctuation? at h
  split at h
  case h_9 => contradiction
  all_goals decide

/-- Whether a character is punctuation can be told from its first byte. -/
theorem punctuation?_of_shows (h : Shows c d) : punctuation? d = punctuation? c := by
  rcases h with rfl | ⟨hc, hd⟩
  · rfl
  · have hout : ∀ e : Char, 128 ≤ e.toNat → punctuation? e = none := by
      intro e he
      rw [Option.eq_none_iff_forall_ne_some]
      intro token htoken
      exact absurd (toNat_lt_of_punctuation? htoken) (Nat.not_lt.2 he)
    rw [hout c hc, hout d hd]

/-- A byte at the start of a character is in a class exactly if the character is. -/
theorem any_peek {text : String} {before behind : List Char} (hp : AsciiClass p)
    (h : text.toList = before ++ behind) :
    (peek text (byteLength before)).any p = behind.head?.any p := by
  cases behind with
  | nil =>
    rw [List.append_nil] at h
    rw [peek_end h]
    rfl
  | cons c cs =>
    obtain ⟨d, hpeek, hshows⟩ := exists_peek_cons h
    rw [hpeek]
    exact hp.eq_of_shows hshows

end Classes

end Reckoner.ByteScan
