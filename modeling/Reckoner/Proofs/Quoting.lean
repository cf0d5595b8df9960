import Mathlib.Data.List.Basic
import Reckoner.Text.Quoted

/-!
# Quoted characters can be told apart

What stands between the quotes is the character itself, a backslash with one character behind it,
or a backslash with a code point between braces. These have different lengths, and within each of
them the character can be read off, so a character is known by its quotation
(`quotedChar_injective`).
-/

set_option autoImplicit false

namespace Reckoner.Text

/-! ## Code points -/

/-- Below sixteen, digits with the same character are the same. -/
theorem digitChar_injective {m n : Nat} (hm : m < 16) (hn : n < 16)
    (h : m.digitChar = n.digitChar) : m = n := by
  have hall : ∀ i < 16, ∀ j < 16, i.digitChar = j.digitChar → i = j := by decide
  exact hall m hm n hn h

/-- The last digit comes off the end. -/
theorem toDigits_eq (n : Nat) :
    Nat.toDigits 16 n =
      (if n < 16 then [] else Nat.toDigits 16 (n / 16)) ++ [(n % 16).digitChar] := by
  rw [Nat.toDigits_eq_if (by decide)]
  split
  case isTrue h => rw [Nat.mod_eq_of_lt h, List.nil_append]
  case isFalse => rfl

/-- A number is known by its hexadecimal digits. -/
theorem toDigits_injective {m n : Nat} (h : Nat.toDigits 16 m = Nat.toDigits 16 n) : m = n := by
  induction m using Nat.strongRecOn generalizing n with
  | ind m ih =>
    rw [toDigits_eq m, toDigits_eq n] at h
    obtain ⟨hfront, hlast⟩ := List.append_inj' h rfl
    have hmod : m % 16 = n % 16 :=
      digitChar_injective (Nat.mod_lt m (by decide)) (Nat.mod_lt n (by decide))
        (List.cons.inj hlast).1
    by_cases hm : m < 16 <;> by_cases hn : n < 16
    · omega
    · rw [if_pos hm, if_neg hn] at hfront
      exact absurd hfront.symm Nat.toDigits_ne_nil
    · rw [if_neg hm, if_pos hn] at hfront
      exact absurd hfront Nat.toDigits_ne_nil
    · rw [if_neg hm, if_neg hn] at hfront
      have hdiv := ih (m / 16) (by omega) hfront
      omega

/-! ## Between the quotes -/

/-- The character behind the backslash, of those characters that have one of their own. -/
def escapeLetter? (quote c : Char) : Option Char :=
  if c = '\x00' then some '0'
  else if c = '\t' then some 't'
  else if c = '\r' then some 'r'
  else if c = '\n' then some 'n'
  else if c = '\\' ∨ c = quote then some c
  else none

/-- How a character is shown: with a letter behind a backslash, as itself, or by its code point. -/
theorem toList_escaped (quote c : Char) :
    (∃ letter, escapeLetter? quote c = some letter ∧
      (escaped quote c).toList = ['\\', letter]) ∨
      (escaped quote c).toList = [c] ∨
      (escaped quote c).toList = ['\\', 'u', '\x7b'] ++ Nat.toDigits 16 c.toNat ++ ['\x7d'] := by
  unfold escaped escapeLetter?
  split_ifs with hnul htab hreturn hfeed hquoted hvisible
  · exact .inl ⟨'0', rfl, rfl⟩
  · exact .inl ⟨'t', rfl, rfl⟩
  · exact .inl ⟨'r', rfl, rfl⟩
  · exact .inl ⟨'n', rfl, rfl⟩
  · exact .inl ⟨c, rfl, String.toList_ofList⟩
  · exact .inr (.inl (by simp))
  · exact .inr (.inr (by simp [codePoint]))

/-- The character that a letter behind a backslash stands for. -/
def letterMeaning (letter : Char) : Char :=
  if letter = '0' then '\x00'
  else if letter = 't' then '\t'
  else if letter = 'r' then '\r'
  else if letter = 'n' then '\n'
  else letter

/-- The letter of a character stands for it, if the quote is no such letter itself. -/
theorem letterMeaning_of_escapeLetter? {quote c letter : Char}
    (hquote : quote ∉ ['0', 't', 'r', 'n']) (h : escapeLetter? quote c = some letter) :
    letterMeaning letter = c := by
  unfold escapeLetter? at h
  split_ifs at h with hnul htab hreturn hfeed hquoted <;> obtain rfl := Option.some.inj h
  · exact hnul.symm
  · exact htab.symm
  · exact hreturn.symm
  · exact hfeed.symm
  · have hletter : c ∉ ['0', 't', 'r', 'n'] := by
      rcases hquoted with rfl | rfl
      · decide
      · exact hquote
    simp only [List.mem_cons, List.not_mem_nil, or_false, not_or] at hletter
    obtain ⟨hzero, ht, hr, hn⟩ := hletter
    rw [letterMeaning, if_neg hzero, if_neg ht, if_neg hr, if_neg hn]

/-- A character is known by what stands between the quotes. -/
theorem escaped_injective {quote c d : Char} (hquote : quote ∉ ['0', 't', 'r', 'n'])
    (h : escaped quote c = escaped quote d) : c = d := by
  have hlist := congrArg String.toList h
  have hlength := congrArg List.length hlist
  -- only characters that are shown in the same way take as many characters
  rcases toList_escaped quote c with ⟨letter, hletter, hc⟩ | hc | hc <;>
    rcases toList_escaped quote d with ⟨letter', hletter', hd⟩ | hd | hd <;>
    rw [hc, hd] at hlist hlength <;>
    simp only [List.length_append, List.length_cons, List.length_nil] at hlength
  case inl.inl =>
    obtain rfl : letter = letter' := by simpa using hlist
    rw [← letterMeaning_of_escapeLetter? hquote hletter,
      letterMeaning_of_escapeLetter? hquote hletter']
  case inr.inl.inr.inl => exact (List.cons.inj hlist).1
  case inr.inr.inr.inr =>
    obtain ⟨hfront, -⟩ := List.append_inj' hlist rfl
    exact Char.toNat_inj.1 (toDigits_injective (List.append_cancel_left hfront))
  all_goals omega

/-- A character is known by its quotation. -/
theorem quotedChar_injective {c d : Char} (h : quotedChar c = quotedChar d) : c = d := by
  rw [quotedChar, quotedChar, String.append_left_inj, String.append_right_inj] at h
  exact escaped_injective (by decide) h

end Reckoner.Text
