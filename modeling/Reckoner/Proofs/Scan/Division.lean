import Mathlib.Data.String.Basic
import Reckoner.Proofs.Except
import Reckoner.Proofs.Scan.LexicalGrammar

/-!
# Texts that fall into tokens

A text without anomalies can be divided into lexemes of the grammar, with blanks in front of
the first and behind each. The scanner finds such a division whenever there is one, and it
finds nothing else: going along a division it meets one lexeme after the other
(`scanFrom_joined`), and going along a scan without anomalies one divides the text
(`exists_isDivision`). Since the first lexeme of a text is determined by the text, so is the
division.
-/

set_option autoImplicit false

namespace Reckoner

/-- A lexeme, the token that it stands for, and the blanks behind it. -/
structure Piece where
  text : List Char
  token : Token
  blanks : List Char

/-- All the characters are blank. -/
def AllBlank (cs : List Char) : Prop :=
  ∀ c ∈ cs, isBlank c = true

namespace Piece

/-- The characters of the pieces, one after the other. -/
def joined : List Piece → List Char
  | [] => []
  | piece :: pieces => piece.text ++ (piece.blanks ++ joined pieces)

/-- Every piece is a lexeme in front of what stands behind it, and blanks. -/
def AllLexemes : List Piece → Prop
  | [] => True
  | piece :: pieces =>
    IsLexeme piece.text piece.token (piece.blanks ++ joined pieces) ∧ AllBlank piece.blanks ∧
      AllLexemes pieces

/-- The tokens of the pieces, the first of which starts at the position. -/
def tokens (position : Nat) : List Piece → List (Located Token)
  | [] => []
  | piece :: pieces =>
    ⟨piece.token, position⟩ ::
      tokens (position + byteLength piece.text + byteLength piece.blanks) pieces

end Piece

/-- The characters are the blanks `leading` and then the pieces, which are lexemes with blanks
behind them. -/
structure IsDivision (cs leading : List Char) (pieces : List Piece) : Prop where
  eq_append : cs = leading ++ Piece.joined pieces
  allBlank : AllBlank leading
  allLexemes : Piece.AllLexemes pieces

/-- The bytes of characters are counted as in an encoded text. -/
theorem byteLength_eq_utf8Len (cs : List Char) : byteLength cs = String.utf8Len cs := by
  induction cs with
  | nil => rfl
  | cons c cs ih => rw [byteLength, String.utf8Len_cons, ih, Nat.add_comm]

/-- A text is as long as its characters. -/
theorem byteLength_toList (text : String) : byteLength text.toList = text.utf8ByteSize := by
  rw [byteLength_eq_utf8Len, ← String.utf8ByteSize_ofList, String.ofList_toList]

/-- Blanks in front only move the positions. -/
theorem scanFrom_append_of_allBlank {leading : List Char} (h : AllBlank leading) (p : Nat)
    (cs : List Char) : scanFrom p (leading ++ cs) = scanFrom (p + byteLength leading) cs := by
  induction leading generalizing p with
  | nil => simp [byteLength]
  | cons c leading ih =>
    obtain ⟨hc, hleading⟩ := List.forall_mem_cons.mp h
    rw [List.cons_append, scanFrom, if_pos hc, ih hleading, byteLength, Nat.add_assoc]

/-- A lexeme at the front is found first, and the scan goes on behind it. -/
theorem IsLexeme.scanFrom_eq {text behind : List Char} {token : Token}
    (h : IsLexeme text token behind) (p : Nat) :
    scanFrom p (text ++ behind) =
      ⟨⟨.ok token, p⟩ :: (scanFrom (p + byteLength text) behind).lexemes,
        (scanFrom (p + byteLength text) behind).endPosition⟩ := by
  obtain ⟨c, cs, hchars, hblank, hfirst⟩ := h.first_eq
  rw [hchars, scanFrom, if_neg (ne_true_of_eq_false hblank), hfirst]

/-- The token as a lexeme with nothing wrong with it. -/
def Located.accepted (token : Located Token) : Located (Except Anomaly Token) :=
  ⟨.ok token.value, token.position⟩

/-- A strict reading succeeds exactly if no lexeme has anything wrong with it. -/
theorem strictTokens_eq_ok_iff {lexemes : List (Located (Except Anomaly Token))}
    {tokens : List (Located Token)} :
    strictTokens lexemes = .ok tokens ↔ lexemes = tokens.map Located.accepted := by
  induction lexemes generalizing tokens with
  | nil => cases tokens <;> simp [strictTokens]
  | cons lexeme lexemes ih =>
    obtain ⟨content, position⟩ := lexeme
    cases content with
    | error anomaly => cases tokens <;> simp [strictTokens, Located.accepted]
    | ok token =>
      rw [strictTokens, map_eq_ok_iff]
      constructor
      · rintro ⟨rest, hrest, rfl⟩
        rw [ih.mp hrest, List.map_cons, Located.accepted]
      · intro h
        cases tokens with
        | nil => contradiction
        | cons first rest =>
          obtain ⟨hfirst, hrest⟩ := List.cons.inj h
          cases hfirst
          exact ⟨rest, ih.mpr hrest, rfl⟩

/-- A strict reading gives the tokens of a scan in which all lexemes are tokens. -/
theorem Scanned.strict_eq_ok_iff {scanned : Scanned} {stream : TokenStream} :
    scanned.strict = .ok stream ↔
      scanned = ⟨stream.tokens.map Located.accepted, stream.endPosition⟩ := by
  obtain ⟨lexemes, endPosition⟩ := scanned
  obtain ⟨tokens, endPosition'⟩ := stream
  simp [strict, map_eq_ok_iff, strictTokens_eq_ok_iff]

/-- The scan of a division finds its pieces. -/
theorem scanFrom_joined {pieces : List Piece} (h : Piece.AllLexemes pieces) (p : Nat) :
    scanFrom p (Piece.joined pieces) =
      ⟨(Piece.tokens p pieces).map Located.accepted, p + byteLength (Piece.joined pieces)⟩ := by
  induction pieces generalizing p with
  | nil => simp [scanFrom, Piece.joined, Piece.tokens, byteLength]
  | cons piece pieces ih =>
    obtain ⟨hlexeme, hblanks, hpieces⟩ := h
    rw [Piece.joined, hlexeme.scanFrom_eq, scanFrom_append_of_allBlank hblanks, ih hpieces]
    simp [Piece.tokens, Located.accepted, byteLength_append, Nat.add_assoc]

/-- A scan finds the tokens of a division at their positions. -/
theorem IsDivision.scanFrom_eq {cs leading : List Char} {pieces : List Piece}
    (h : IsDivision cs leading pieces) (p : Nat) :
    scanFrom p cs =
      ⟨(Piece.tokens (p + byteLength leading) pieces).map Located.accepted, p + byteLength cs⟩ := by
  rw [h.eq_append, scanFrom_append_of_allBlank h.allBlank, scanFrom_joined h.allLexemes,
    byteLength_append, Nat.add_assoc]

/-- A strict reading gives the tokens of a division. -/
theorem IsDivision.strict_scan {text : String} {leading : List Char} {pieces : List Piece}
    (h : IsDivision text.toList leading pieces) :
    (scan text).strict = .ok ⟨Piece.tokens (byteLength leading) pieces, text.utf8ByteSize⟩ := by
  have hscan := h.scanFrom_eq 0
  rw [Nat.zero_add, Nat.zero_add, byteLength_toList] at hscan
  rw [Scanned.strict_eq_ok_iff]
  exact hscan

/-- Characters among whose lexemes there is no anomaly can be divided. -/
theorem exists_isDivision (p : Nat) (cs : List Char) :
    ∀ tokens : List (Located Token), (scanFrom p cs).lexemes = tokens.map Located.accepted →
      ∃ leading pieces, IsDivision cs leading pieces := by
  induction p, cs using scanFrom.induct with
  | case1 p =>
    intro tokens h
    exact ⟨[], [], rfl, nofun, trivial⟩
  | case2 p c cs hblank ih =>
    intro tokens h
    rw [scanFrom, if_pos hblank] at h
    obtain ⟨leading, pieces, hcs, hleading, hpieces⟩ := ih tokens h
    refine ⟨c :: leading, pieces, ?_, List.forall_mem_cons.mpr ⟨hblank, hleading⟩, hpieces⟩
    rw [hcs, List.cons_append]
  | case3 p c cs hblank lexeme ih =>
    intro tokens h
    rw [scanFrom, if_neg hblank] at h
    cases tokens with
    | nil => contradiction
    | cons token tokens =>
      obtain ⟨hfirst, hrest⟩ := List.cons.inj h
      -- the blanks in front of the rest are those behind the first piece
      obtain ⟨blanks, pieces, hcs, hblanks, hpieces⟩ := ih tokens hrest
      have hcontent : lexeme.content = .ok token.value := congrArg Located.value hfirst
      have hlexeme := Lexeme.sound_first c cs token.value hcontent
      refine ⟨[], ⟨lexeme.text, token.value, blanks⟩ :: pieces, ?_, nofun, ?_, hblanks, hpieces⟩
      · rw [List.nil_append, Piece.joined, ← hcs, Lexeme.text_append_rest]
      · rw [← hcs]
        exact hlexeme

/-- Lexemes start with a character that is not blank. -/
theorem stops_joined {pieces : List Piece} (h : Piece.AllLexemes pieces) :
    Stops isBlank (Piece.joined pieces) := by
  intro c hc
  cases pieces with
  | nil => contradiction
  | cons piece pieces =>
    obtain ⟨d, ds, hchars, hblank, -⟩ := h.1.first_eq
    rw [Piece.joined, hchars] at hc
    obtain rfl := Option.some.inj hc
    exact hblank

/-- Characters are cut into lexemes and blanks in one way only. -/
theorem joined_injective {pieces pieces' : List Piece} (h : Piece.AllLexemes pieces)
    (h' : Piece.AllLexemes pieces') (heq : Piece.joined pieces = Piece.joined pieces') :
    pieces = pieces' := by
  induction pieces generalizing pieces' with
  | nil =>
    cases pieces' with
    | nil => rfl
    | cons piece' pieces' =>
      obtain ⟨c, cs, hchars, -, -⟩ := h'.1.first_eq
      rw [Piece.joined, Piece.joined, hchars] at heq
      contradiction
  | cons piece pieces ih =>
    obtain ⟨hlexeme, hblanks, hpieces⟩ := h
    obtain ⟨c, cs, hchars, -, hfirst⟩ := hlexeme.first_eq
    cases pieces' with
    | nil =>
      rw [Piece.joined, Piece.joined, hchars] at heq
      contradiction
    | cons piece' pieces' =>
      obtain ⟨hlexeme', hblanks', hpieces'⟩ := h'
      obtain ⟨c', cs', hchars', -, hfirst'⟩ := hlexeme'.first_eq
      -- both first pieces are the first lexeme of the same characters
      rw [Piece.joined, Piece.joined, hchars, hchars'] at heq
      obtain ⟨rfl, rfl⟩ := List.cons.inj heq
      rw [hfirst] at hfirst'
      injection hfirst' with htoken htext hrest
      obtain ⟨hblanksEq, hpiecesEq⟩ := append_injective_of_stops hblanks hblanks'
        (stops_joined hpieces) (stops_joined hpieces') hrest
      obtain rfl := ih hpieces hpieces' hpiecesEq
      obtain ⟨text, token, blanks⟩ := piece
      cases Except.ok.inj htoken
      cases htext
      cases hblanksEq
      rfl

/-- A text has at most one division. -/
theorem IsDivision.unique {cs leading leading' : List Char} {pieces pieces' : List Piece}
    (h : IsDivision cs leading pieces) (h' : IsDivision cs leading' pieces') :
    leading = leading' ∧ pieces = pieces' := by
  have heq := h.eq_append.symm.trans h'.eq_append
  obtain ⟨hleading, hjoined⟩ := append_injective_of_stops h.allBlank h'.allBlank
    (stops_joined h.allLexemes) (stops_joined h'.allLexemes) heq
  exact ⟨hleading, joined_injective h.allLexemes h'.allLexemes hjoined⟩

/-- **The lexical grammar.** A strict reading of a text succeeds exactly if the text can be
divided into lexemes and blanks. It gives the tokens of the lexemes, each at the byte where its
lexeme starts, and the number of bytes of the text as its end, and there is no other division
of the text. -/
theorem strict_scan_eq_ok_iff_isDivision (text : String) :
    (∀ stream, (scan text).strict = .ok stream ↔
      ∃ leading pieces, IsDivision text.toList leading pieces ∧
        stream = ⟨Piece.tokens (byteLength leading) pieces, text.utf8ByteSize⟩) ∧
    ∀ leading leading' pieces pieces', IsDivision text.toList leading pieces →
      IsDivision text.toList leading' pieces' → leading = leading' ∧ pieces = pieces' := by
  constructor
  · intro stream
    constructor
    · intro hstrict
      have hscan := congrArg Scanned.lexemes (Scanned.strict_eq_ok_iff.mp hstrict)
      obtain ⟨leading, pieces, hdivision⟩ := exists_isDivision 0 text.toList stream.tokens hscan
      rw [hdivision.strict_scan] at hstrict
      exact ⟨leading, pieces, hdivision, (Except.ok.inj hstrict).symm⟩
    · rintro ⟨leading, pieces, hdivision, rfl⟩
      exact hdivision.strict_scan
  · intro leading leading' pieces pieces' h h'
    exact h.unique h'

end Reckoner
