import Mathlib.Data.List.Basic
import Reckoner.LogRecord
import Reckoner.Proofs.Quoting
import Std.Data.String.ToNat

/-!
# Warnings tell anomalies apart

The text of a warning begins in its own way for every kind of anomaly, and what it names stands in
front of the place. The place is a number behind a blank, so it can be read off the end, and what is
left names what is wrong. A warning is about one anomaly only (`Anomaly.warning_injective`).
-/

set_option autoImplicit false

namespace Reckoner

/-! ## Numbers at the end of a text -/

/-- Behind the last blank of a text that ends with a number there is the number. -/
theorem eq_nil_of_cons_repr {more : List Char} {m n : Nat}
    (h : ' ' :: m.repr.toList = more ++ ' ' :: n.repr.toList) : more = [] ∧ m = n := by
  cases more with
  | nil => exact ⟨rfl, Nat.repr_injective (String.toList_inj.1 (List.cons.inj h).2)⟩
  | cons c cs =>
    have hblank : ' ' ∈ Nat.toDigits 10 m := by
      rw [← Nat.toList_repr, (List.cons.inj h).2]
      exact List.mem_append_right _ List.mem_cons_self
    exact absurd (Nat.isDigit_of_mem_toDigits (by decide) (by decide) hblank) (by decide)

/-- A number can be read off the end of a text if a blank stands in front of it. -/
theorem append_repr_injective {s t word : String} {m n : Nat}
    (hword : word.toList.getLast? = some ' ') (h : s ++ word ++ m.repr = t ++ word ++ n.repr) :
    s = t ∧ m = n := by
  obtain ⟨front, hfront⟩ := List.getLast?_eq_some_iff.1 hword
  have hlist : (s.toList ++ front) ++ ' ' :: m.repr.toList =
      (t.toList ++ front) ++ ' ' :: n.repr.toList := by
    simpa [hfront] using congrArg String.toList h
  rcases List.append_eq_append_iff.1 hlist with ⟨more, hmore, hrest⟩ | ⟨more, hmore, hrest⟩
  · obtain ⟨rfl, rfl⟩ := eq_nil_of_cons_repr hrest
    rw [List.append_nil] at hmore
    exact ⟨String.toList_inj.1 (List.append_cancel_right hmore).symm, rfl⟩
  · obtain ⟨rfl, rfl⟩ := eq_nil_of_cons_repr hrest
    rw [List.append_nil] at hmore
    exact ⟨String.toList_inj.1 (List.append_cancel_right hmore), rfl⟩

/-! ## Warnings -/

namespace Anomaly

/-- The letter by which the warnings of the kinds differ from each other. -/
def kindLetter : Anomaly → Char
  | strayChar _ => 'e'
  | malformedNumber _ => 'u'
  | unknownMember _ => 'k'

/-- The kind of an anomaly can be read off the same place of every warning. -/
theorem getElem?_warning (anomaly : Anomaly) (position : Nat) :
    (anomaly.warning position).toList[11]? = some anomaly.kindLetter := by
  cases anomaly <;> unfold warning kindLetter <;> simp

/-- A warning is about one anomaly at one place. -/
theorem warning_injective {anomaly anomaly' : Anomaly} {position position' : Nat}
    (h : anomaly.warning position = anomaly'.warning position') :
    anomaly = anomaly' ∧ position = position' := by
  have hkind : anomaly.kindLetter = anomaly'.kindLetter := by
    apply Option.some.inj
    rw [← getElem?_warning anomaly position, h, getElem?_warning]
  cases anomaly <;> cases anomaly' <;> unfold warning kindLetter at *
  case strayChar.strayChar c c' =>
    obtain ⟨hquoted, hposition⟩ := append_repr_injective (by decide) h
    rw [String.append_right_inj] at hquoted
    exact ⟨congrArg strayChar (Text.quotedChar_injective hquoted), hposition⟩
  case malformedNumber.malformedNumber run run' =>
    rw [String.append_left_inj] at h
    obtain ⟨hrun, hposition⟩ := append_repr_injective (by decide) h
    rw [String.append_right_inj] at hrun
    exact ⟨congrArg malformedNumber hrun, hposition⟩
  case unknownMember.unknownMember name name' =>
    obtain ⟨hname, hposition⟩ := append_repr_injective (by decide) h
    rw [String.append_right_inj] at hname
    exact ⟨congrArg unknownMember hname, hposition⟩
  all_goals simp at hkind

end Anomaly

/-- An entry about an anomaly is about no other. -/
theorem entry_mended_injective {anomaly anomaly' : Located Anomaly}
    (h : (LogRecord.mended anomaly).entry = (LogRecord.mended anomaly').entry) :
    anomaly = anomaly' := by
  obtain ⟨value, position⟩ := anomaly
  obtain ⟨value', position'⟩ := anomaly'
  obtain ⟨rfl, rfl⟩ := Anomaly.warning_injective (congrArg Prod.snd h)
  rfl

end Reckoner
