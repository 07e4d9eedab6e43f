import Mathlib.Data.List.Basic
import Provisioning.Error

/-!
# What is shown of a message

The position that a message ends in is found where there is one, and is written again behind the
rest (`shows_shown`). So the message is shown as it is, unless it ends in a position in line 0, or
in one whose numbers are not written as usual (`shown_eq_self_iff`).
-/
namespace Provisioning.Text

/-- The decimal digits of a number of at most 64 bits. -/
structure IsNumeral (digits : List Char) (n : Nat) : Prop where
  nonempty : digits ≠ []
  isDigit : ∀ c ∈ digits, c.isDigit = true
  value : Nat.ofDigitChars 10 digits 0 = n
  lt : n < 1 <<< 64

/-- Whether a text is another one with a position behind it, its numbers in any digits. -/
def EndsAt (s rest : String) (line column : Nat) : Prop :=
  ∃ l c : List Char, IsNumeral l line ∧ IsNumeral c column ∧
    s = rest ++ " at line " ++ String.ofList l ++ " column " ++ String.ofList c

/-- What is shown of a text that may end in a position. -/
inductive Shows : String → String → Prop
  | whole {s : String} : (∀ rest line column, ¬ EndsAt s rest line column) → Shows s s
  | placed {s rest : String} {line column : Nat} :
    EndsAt s rest line column → line ≠ 0 → Shows s (withPosition rest line column)
  | stripped {s rest : String} {column : Nat} : EndsAt s rest 0 column → Shows s rest

theorem takeWhile_isDigit {digits s : List Char} (h : ∀ c ∈ digits, c.isDigit = true) :
    (digits ++ ' ' :: s).takeWhile Char.isDigit = digits ∧
      (digits ++ ' ' :: s).dropWhile Char.isDigit = ' ' :: s := by
  have hspace : ' '.isDigit = false := by decide
  rw [List.takeWhile_append_of_pos h, List.dropWhile_append_of_pos h,
    List.takeWhile_cons_of_neg (by simp [hspace]), List.dropWhile_cons_of_neg (by simp [hspace]),
    List.append_nil]
  exact ⟨rfl, rfl⟩

theorem word?_eq_some_iff {digits : List Char} {n : Nat}
    (h : ∀ c ∈ digits, c.isDigit = true) : word? digits = some n ↔ IsNumeral digits n := by
  unfold word?
  dsimp only
  constructor
  · intro hword
    split at hword
    · rename_i hnumeral
      rw [Bool.and_eq_true, Bool.not_eq_true', List.isEmpty_eq_false_iff, decide_eq_true_eq]
        at hnumeral
      obtain ⟨hnonempty, hlt⟩ := hnumeral
      cases hword
      exact ⟨hnonempty, h, rfl, hlt⟩
    · cases hword
  · rintro ⟨hnonempty, -, rfl, hlt⟩
    rw [if_pos]
    rw [Bool.and_eq_true, Bool.not_eq_true', List.isEmpty_eq_false_iff, decide_eq_true_eq]
    exact ⟨hnonempty, hlt⟩

/-- A number is found where one stands behind its word, which has to end in a blank. -/
theorem splitNumber?_eq_some_iff {word : String} {w : List Char}
    (hword : word.toList = w ++ [' ']) {s rest : List Char} {n : Nat} :
    splitNumber? word s = some (rest, n) ↔
      ∃ digits, IsNumeral digits n ∧ s = rest ++ word.toList ++ digits := by
  constructor
  · intro h
    obtain ⟨m, hm, h⟩ := Option.bind_eq_some_iff.1 h
    obtain ⟨before, hbefore, h⟩ := Option.bind_eq_some_iff.1 h
    cases h
    have hdigits (c : Char) (hc : c ∈ (s.reverse.takeWhile Char.isDigit).reverse) :
        c.isDigit = true :=
      List.all_eq_true.1 List.all_takeWhile c (List.mem_reverse.1 hc)
    refine ⟨(s.reverse.takeWhile Char.isDigit).reverse, (word?_eq_some_iff hdigits).1 hm, ?_⟩
    rw [List.isSuffixOf?_eq_some_iff_append_eq.1 hbefore, ← List.reverse_append,
      List.takeWhile_append_dropWhile, List.reverse_reverse]
  · rintro ⟨digits, hnumeral, rfl⟩
    have hreverse : (rest ++ word.toList ++ digits).reverse =
        digits.reverse ++ ' ' :: (rest ++ w).reverse := by
      rw [hword]
      simp only [List.reverse_append, List.reverse_cons, List.nil_append, List.cons_append,
        List.append_assoc]
    have hdigits : ∀ c ∈ digits.reverse, c.isDigit = true :=
      fun c hc => hnumeral.isDigit c (List.mem_reverse.1 hc)
    obtain ⟨htake, hdrop⟩ := takeWhile_isDigit (s := (rest ++ w).reverse) hdigits
    have hbefore : word.toList.isSuffixOf?
        ((rest ++ word.toList ++ digits).reverse.dropWhile Char.isDigit).reverse = some rest := by
      rw [hreverse, hdrop, List.isSuffixOf?_eq_some_iff_append_eq, hword, List.reverse_cons,
        List.reverse_reverse, List.append_assoc]
    refine Option.bind_eq_some_iff.2 ⟨n, ?_, Option.bind_eq_some_iff.2 ⟨rest, hbefore, rfl⟩⟩
    rw [hreverse, htake, List.reverse_reverse, word?_eq_some_iff hnumeral.isDigit]
    exact hnumeral

theorem splitPosition?_eq_some_iff {s rest : String} {line column : Nat} :
    splitPosition? s = some (rest, line, column) ↔ EndsAt s rest line column := by
  have hcolumn : " column ".toList = " column".toList ++ [' '] := rfl
  have hline : " at line ".toList = " at line".toList ++ [' '] := rfl
  constructor
  · intro h
    obtain ⟨⟨before, c⟩, hc, h⟩ := Option.bind_eq_some_iff.1 h
    obtain ⟨⟨before', l⟩, hl, h⟩ := Option.bind_eq_some_iff.1 h
    cases h
    obtain ⟨cs, hcs, hs⟩ := (splitNumber?_eq_some_iff hcolumn).1 hc
    obtain ⟨ls, hls, rfl⟩ := (splitNumber?_eq_some_iff hline).1 hl
    refine ⟨ls, cs, hls, hcs, String.toList_injective ?_⟩
    rw [hs]
    simp only [String.toList_append, String.toList_ofList]
  · rintro ⟨ls, cs, hls, hcs, hs⟩
    have hlist : s.toList = rest.toList ++ " at line ".toList ++ ls ++ " column ".toList ++ cs := by
      rw [hs]
      simp only [String.toList_append, String.toList_ofList]
    have houter : splitNumber? " column " s.toList =
        some (rest.toList ++ " at line ".toList ++ ls, column) :=
      (splitNumber?_eq_some_iff hcolumn).2 ⟨cs, hcs, hlist⟩
    have hinner : splitNumber? " at line " (rest.toList ++ " at line ".toList ++ ls) =
        some (rest.toList, line) :=
      (splitNumber?_eq_some_iff hline).2 ⟨ls, hls, rfl⟩
    refine Option.bind_eq_some_iff.2 ⟨_, houter, Option.bind_eq_some_iff.2 ⟨_, hinner, ?_⟩⟩
    exact congrArg (fun r => some (r, line, column)) String.ofList_toList

theorem shows_shown (s : String) : Shows s (shown s) := by
  unfold shown
  cases h : splitPosition? s with
  | none =>
    refine .whole fun rest line column hends => ?_
    rw [splitPosition?_eq_some_iff.2 hends] at h
    cases h
  | some p =>
    obtain ⟨rest, line, column⟩ := p
    have hends := splitPosition?_eq_some_iff.1 h
    dsimp only
    split
    · rename_i hzero
      exact .stripped (hzero ▸ hends)
    · rename_i hline
      exact .placed hends hline

/-- A text with a position is not what it is without it. -/
theorem ne_of_endsAt {s rest : String} {line column : Nat} (h : EndsAt s rest line column) :
    rest ≠ s := by
  obtain ⟨l, c, -, -, rfl⟩ := h
  intro heq
  have hlength := congrArg String.length heq
  simp only [String.length_append] at hlength
  have hword : " at line ".length = 9 := rfl
  omega

/-- A message is shown as it is, if no position at its end is in line 0 or written in another way
than positions are. -/
theorem shown_eq_self_iff (s : String) :
    shown s = s ↔ ∀ rest line column, EndsAt s rest line column →
      line ≠ 0 ∧ s = withPosition rest line column := by
  constructor
  · intro h rest line column hends
    rw [shown, splitPosition?_eq_some_iff.2 hends] at h
    dsimp only at h
    split at h
    · exact absurd h (ne_of_endsAt hends)
    · rename_i hline
      exact ⟨hline, h.symm⟩
  · intro h
    cases hsplit : splitPosition? s with
    | none => rw [shown, hsplit]
    | some p =>
      obtain ⟨rest, line, column⟩ := p
      obtain ⟨hline, hs⟩ := h rest line column (splitPosition?_eq_some_iff.1 hsplit)
      rw [shown, hsplit]
      dsimp only
      rw [if_neg hline, ← hs]

example :
    shown "x at line 3 column 4" = "x at line 3 column 4" ∧
      shown "x at line 03 column 4" = "x at line 3 column 4" ∧
      shown "x at line 0 column 4" = "x" := by
  decide +kernel

end Provisioning.Text
