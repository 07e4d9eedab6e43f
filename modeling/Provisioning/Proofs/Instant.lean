import Mathlib.Algebra.Group.Nat.Defs
import Mathlib.Data.List.Induction
import Provisioning.Instant.Text
import Provisioning.Proofs.Calendar

/-!
# Reading a written point in time

Each part of the written text is read by its own reader, which stops where the next part begins:
numbers because a mark follows or their width is used up, the fraction because the zone follows.
What is read is the calendar day and the time of day that the text denotes. They give the instant
back, unless a leap second in it follows another second than the last of a minute; then the text is
that of the next second (`ofText?_text`). No text denotes such an instant (`denoted_of_ofText?`).
-/
namespace Provisioning.Instant

/-- The next second, if it is of the same minute, is in the calendar. -/
theorem next_inCalendar (t : Instant) (h : t.seconds % 60 ≠ 59) :
    firstSecond ≤ t.seconds + 1 ∧ t.seconds + 1 ≤ lastSecond := by
  obtain ⟨hfirst, hlast⟩ := t.inCalendar
  unfold lastSecond at *
  omega

/-- The instant that the text of another one denotes: a leap second inside a minute is written like
the next second. -/
def denoted (t : Instant) : Instant :=
  if h : t.nanos < 1000000000 ∨ t.seconds % 60 = 59 then t
  else
    { seconds := t.seconds + 1
      nanos := t.nanos - 1000000000
      inCalendar := t.next_inCalendar (not_or.1 h).2
      nanos_lt := Nat.lt_of_le_of_lt (Nat.sub_le _ _) t.nanos_lt }

theorem denoted_eq_self_iff {t : Instant} :
    t.denoted = t ↔ t.nanos < 1000000000 ∨ t.seconds % 60 = 59 := by
  unfold denoted
  split
  · rename_i h
    exact iff_of_true rfl h
  · rename_i h
    refine iff_of_false (fun heq => ?_) h
    have hseconds : t.seconds + 1 = t.seconds := congrArg seconds heq
    omega

theorem denoted_denoted (t : Instant) : t.denoted.denoted = t.denoted := by
  rw [denoted_eq_self_iff]
  have hnanos := t.nanos_lt
  unfold denoted
  split
  · assumption
  · exact .inl (by dsimp only; omega)

theorem text_denoted (zone : String) (t : Instant) : t.denoted.text zone = t.text zone := by
  unfold denoted
  split
  · rfl
  · rename_i h
    obtain ⟨hnanos, hinside⟩ := not_or.1 h
    have hlt := t.nanos_lt
    -- the next second is in the same minute, so that all else in the text stays
    have hday : (t.seconds + 1) / 86400 = t.seconds / 86400 := by omega
    have hofDay : ((t.seconds + 1) % 86400).toNat = (t.seconds % 86400).toNat + 1 := by omega
    have hhour : ((t.seconds % 86400).toNat + 1) / 3600 = (t.seconds % 86400).toNat / 3600 := by
      omega
    have hminute : ((t.seconds % 86400).toNat + 1) / 60 = (t.seconds % 86400).toNat / 60 := by
      omega
    have hsecond : ((t.seconds % 86400).toNat + 1) % 60 + (t.nanos - 1000000000) / 1000000000 =
        (t.seconds % 86400).toNat % 60 + t.nanos / 1000000000 := by
      omega
    have hfraction : (t.nanos - 1000000000) % 1000000000 = t.nanos % 1000000000 := by omega
    simp only [text, hday, hofDay, hhour, hminute, hsecond, hfraction]

theorem digitsValue_eq (ds : List Char) : digitsValue ds = Nat.ofDigitChars 10 ds 0 := by
  have hstep : (fun (n : Nat) (c : Char) => n * 10 + (c.toNat - '0'.toNat)) =
      fun n c => 10 * n + (c.toNat - '0'.toNat) := by
    funext n c
    rw [Nat.mul_comm]
  rw [digitsValue, hstep, Nat.ofDigitChars]

theorem toList_padded (w n : Nat) :
    (padded w n).toList =
      List.replicate (w - (Nat.toDigits 10 n).length) '0' ++ Nat.toDigits 10 n := by
  have hlength : (toString n).length = (Nat.toDigits 10 n).length := by
    rw [Nat.toString_eq_repr, ← String.length_toList, Nat.toList_repr]
  rw [padded, hlength, String.toList_append, String.toList_ofList, Nat.toString_eq_repr,
    Nat.toList_repr]

theorem isDigit_of_mem_padded {w n : Nat} {c : Char} (h : c ∈ (padded w n).toList) :
    c.isDigit = true := by
  rw [toList_padded, List.mem_append] at h
  rcases h with h | h
  · rw [List.eq_of_mem_replicate h]
    rfl
  · exact Nat.isDigit_of_mem_toDigits (by omega) (by omega) h

theorem digitsValue_padded (w n : Nat) : digitsValue (padded w n).toList = n := by
  rw [digitsValue_eq, toList_padded, Nat.ofDigitChars_append, Nat.ofDigitChars_replicate_zero,
    Nat.mul_zero, Nat.ofDigitChars_ten_toDigits]

theorem length_padded {w n : Nat} (hw : 0 < w) (hn : n < 10 ^ w) :
    (padded w n).toList.length = w := by
  have hlength := (Nat.length_toDigits_le_iff (by omega) hw).2 hn
  rw [toList_padded, List.length_append, List.length_replicate]
  omega

theorem padded_ne_nil (w n : Nat) : (padded w n).toList ≠ [] := by
  rw [toList_padded]
  exact List.append_ne_nil_of_right_ne_nil _ Nat.toDigits_ne_nil

/-- Digits before something else than a digit. -/
theorem takeWhile_digits {ds rest : List Char} (hds : ∀ c ∈ ds, c.isDigit = true)
    (hrest : rest.takeWhile Char.isDigit = []) : (ds ++ rest).takeWhile Char.isDigit = ds := by
  rw [List.takeWhile_append_of_pos hds, hrest, List.append_nil]

theorem isBlankChar_of_isDigit {c : Char} (h : c.isDigit = true) : Text.isBlankChar c = false := by
  have hbounds := Char.isDigit_iff_toNat.1 h
  simp only [Char.reduceToNat] at hbounds
  simp only [Text.isBlankChar, Bool.or_eq_false_iff, Bool.and_eq_false_iff, decide_eq_false_iff_not,
    beq_eq_false_iff_ne]
  omega

theorem skipBlank_digits {ds rest : List Char} (hds : ∀ c ∈ ds, c.isDigit = true) (hne : ds ≠ []) :
    skipBlank (ds ++ rest) = ds ++ rest := by
  cases ds with
  | nil => exact absurd rfl hne
  | cons d ds =>
    have hd := isBlankChar_of_isDigit (hds d List.mem_cons_self)
    rw [List.cons_append, skipBlank, List.dropWhile_cons_of_neg (by simp [hd])]

theorem readNumber_padded {w n : Nat} (hw : 0 < w) (hn : n < 10 ^ w) (rest : List Char) :
    readNumber w ((padded w n).toList ++ rest) = some (n, rest) := by
  have hdigits (c : Char) (hc : c ∈ (padded w n).toList) : c.isDigit = true :=
    isDigit_of_mem_padded hc
  have hlength := length_padded hw hn
  have htake : ((padded w n).toList ++ rest).take w = (padded w n).toList :=
    List.take_left' hlength
  have hwhile : (padded w n).toList.takeWhile Char.isDigit = (padded w n).toList := by
    have hall := takeWhile_digits hdigits (List.takeWhile_nil)
    rwa [List.append_nil] at hall
  have hne : (padded w n).toList.isEmpty = false := by
    rw [List.isEmpty_eq_false_iff]
    exact padded_ne_nil w n
  unfold readNumber
  rw [skipBlank_digits hdigits (padded_ne_nil w n)]
  simp only [htake, hwhile, hne, Bool.false_eq_true, ↓reduceIte, digitsValue_padded,
    List.drop_left]

theorem readMark_cons {c : Char} (h : Text.isBlankChar c = false) (rest : List Char) :
    readMark c (c :: rest) = some ((), rest) := by
  unfold readMark skipBlank
  rw [List.dropWhile_cons_of_neg (by simp [h])]
  simp only [↓reduceIte]

theorem readYear_digits {ds rest : List Char} (hds : ∀ c ∈ ds, c.isDigit = true) (hne : ds ≠ []) :
    readYear (ds ++ rest) =
      (readNumber 4 (ds ++ rest)).map fun p => ((p.1 : Int), p.2) := by
  unfold readYear
  rw [skipBlank_digits hds hne]
  cases ds with
  | nil => exact absurd rfl hne
  | cons d ds =>
    have hd := hds d List.mem_cons_self
    split
    · rename_i heq
      obtain ⟨rfl, -⟩ := List.cons.inj heq
      cases hd
    · rename_i heq
      obtain ⟨rfl, -⟩ := List.cons.inj heq
      cases hd
    · rfl

/-- A sign, and digits up to the next mark. -/
theorem readYear_signed {sign : Char} {factor : Int} {n : Nat}
    (hsign : sign = '-' ∧ factor = -1 ∨ sign = '+' ∧ factor = 1) (rest : List Char) :
    readYear (sign :: ((padded 4 n).toList ++ '-' :: rest)) = some (factor * n, '-' :: rest) := by
  have hwhile : ((padded 4 n).toList ++ '-' :: rest).takeWhile Char.isDigit =
      (padded 4 n).toList :=
    takeWhile_digits (fun c hc => isDigit_of_mem_padded hc) rfl
  have hne : (padded 4 n).toList.isEmpty = false := by
    rw [List.isEmpty_eq_false_iff]
    exact padded_ne_nil 4 n
  generalize hs : (padded 4 n).toList ++ '-' :: rest = s at hwhile
  have hread : readYear (sign :: s) =
      if (s.takeWhile Char.isDigit).isEmpty then none
      else some (factor * digitsValue (s.takeWhile Char.isDigit),
        s.drop (s.takeWhile Char.isDigit).length) := by
    rcases hsign with ⟨rfl, rfl⟩ | ⟨rfl, rfl⟩ <;> rfl
  rw [hread, hwhile, hne, digitsValue_padded, ← hs, List.drop_left]
  rfl

theorem readYear_yearText (year : Int) (rest : List Char) :
    readYear ((yearText year).toList ++ '-' :: rest) = some (year, '-' :: rest) := by
  unfold yearText
  by_cases hyear : 0 ≤ year ∧ year ≤ 9999
  · rw [if_pos hyear, readYear_digits (fun c hc => isDigit_of_mem_padded hc) (padded_ne_nil _ _),
      readNumber_padded (by omega) (by omega)]
    simp only [Option.map_some, Int.toNat_of_nonneg hyear.1]
  · rw [if_neg hyear, String.toList_append]
    by_cases hneg : year < 0
    · rw [if_pos hneg]
      show readYear ('-' :: ((padded 4 year.natAbs).toList ++ '-' :: rest)) = _
      rw [readYear_signed (.inl ⟨rfl, rfl⟩)]
      have hvalue : -1 * (year.natAbs : Int) = year := by omega
      rw [hvalue]
    · rw [if_neg hneg]
      show readYear ('+' :: ((padded 4 year.natAbs).toList ++ '-' :: rest)) = _
      rw [readYear_signed (.inr ⟨rfl, rfl⟩)]
      have hvalue : 1 * (year.natAbs : Int) = year := by omega
      rw [hvalue]

/-- Digits of a fraction are read as if zeros made them up to nine. -/
theorem readFraction_padded {w n : Nat} (hw : 0 < w) (hw9 : w ≤ 9) (hn : n < 10 ^ w) :
    readFraction ('.' :: ((padded w n).toList ++ ['Z'])) = some (n * 10 ^ (9 - w), ['Z']) := by
  have hlength := length_padded hw hn
  have hwhile : (((padded w n).toList ++ ['Z']).take 9).takeWhile Char.isDigit =
      (padded w n).toList := by
    rw [List.take_append, List.take_of_length_le (by omega)]
    refine takeWhile_digits (fun c hc => isDigit_of_mem_padded hc) ?_
    cases 9 - (padded w n).toList.length <;> rfl
  have hne : (padded w n).toList.isEmpty = false := by
    rw [List.isEmpty_eq_false_iff]
    exact padded_ne_nil w n
  have hvalue : digitsValue ((padded w n).toList ++
      List.replicate (9 - (padded w n).toList.length) '0') = n * 10 ^ (9 - w) := by
    rw [digitsValue_eq, Nat.ofDigitChars_append, Nat.ofDigitChars_replicate_zero,
      ← digitsValue_eq, digitsValue_padded, hlength, Nat.mul_comm]
  unfold readFraction
  simp only [hwhile, hne, hvalue, Bool.false_eq_true, ↓reduceIte, List.drop_left]
  rfl

theorem readFraction_fractionText {nanos : Nat} (hn : nanos < 1000000000) :
    readFraction ((fractionText nanos).toList ++ ['Z']) = some (nanos, ['Z']) := by
  unfold fractionText
  split_ifs with hzero hmilli hmicro
  · rw [hzero]
    rfl
  · rw [String.toList_append]
    show readFraction ('.' :: ((padded 3 (nanos / 1000000)).toList ++ ['Z'])) = _
    rw [readFraction_padded (by omega) (by omega) (by omega)]
    have hvalue : nanos / 1000000 * 10 ^ (9 - 3) = nanos := by omega
    rw [hvalue]
  · rw [String.toList_append]
    show readFraction ('.' :: ((padded 6 (nanos / 1000)).toList ++ ['Z'])) = _
    rw [readFraction_padded (by omega) (by omega) (by omega)]
    have hvalue : nanos / 1000 * 10 ^ (9 - 6) = nanos := by omega
    rw [hvalue]
  · rw [String.toList_append]
    show readFraction ('.' :: ((padded 9 nanos).toList ++ ['Z'])) = _
    rw [readFraction_padded (by omega) (by omega) (by omega)]
    have hvalue : nanos * 10 ^ (9 - 9) = nanos := by omega
    rw [hvalue]

theorem toList_text (t : Instant) :
    (t.text "Z").toList =
      (yearText (CivilDate.ofDays (t.seconds / 86400)).year).toList ++ '-' ::
        ((padded 2 (CivilDate.ofDays (t.seconds / 86400)).month).toList ++ '-' ::
        ((padded 2 (CivilDate.ofDays (t.seconds / 86400)).day).toList ++ 'T' ::
        ((padded 2 ((t.seconds % 86400).toNat / 3600)).toList ++ ':' ::
        ((padded 2 ((t.seconds % 86400).toNat / 60 % 60)).toList ++ ':' ::
        ((padded 2 ((t.seconds % 86400).toNat % 60 + t.nanos / 1000000000)).toList ++
        ((fractionText (t.nanos % 1000000000)).toList ++ ['Z'])))))) := by
  have hdash : "-".toList = ['-'] := rfl
  have ht : "T".toList = ['T'] := rfl
  have hcolon : ":".toList = [':'] := rfl
  have hz : "Z".toList = ['Z'] := rfl
  simp only [text, String.toList_append, List.append_assoc, hdash, ht, hcolon, hz,
    List.cons_append, List.nil_append]

theorem isValid_date (t : Instant) : (CivilDate.ofDays (t.seconds / 86400)).isValid = true := by
  obtain ⟨hfirst, hlast⟩ := t.inCalendar
  unfold firstSecond at hfirst
  unfold lastSecond at hlast
  exact CivilDate.isValid_ofDays (by omega) (by omega)

theorem bounds_of_isValid {d : CivilDate} (h : d.isValid = true) :
    d.month ≤ 12 ∧ d.day ≤ 31 := by
  simp only [CivilDate.isValid, Bool.and_eq_true, decide_eq_true_eq] at h
  obtain ⟨⟨⟨-, hmonth⟩, -⟩, hday⟩ := h
  have hmost : CivilDate.daysInMonth d.year d.month ≤ 31 := by
    unfold CivilDate.daysInMonth
    split_ifs <;> omega
  exact ⟨hmonth, Nat.le_trans hday hmost⟩

/-- The text of an instant in universal time is read as that instant, if it denotes it. -/
theorem ofText?_text_of_denoted {t : Instant} (ht : t.denoted = t) :
    ofText? (t.text "Z") = some t := by
  have hleap := denoted_eq_self_iff.1 ht
  have hvalid := isValid_date t
  obtain ⟨hmonth, hday⟩ := bounds_of_isValid hvalid
  have hdays := CivilDate.toDays_ofDays (t.seconds / 86400)
  have hnanos := t.nanos_lt
  unfold ofText?
  rw [toList_text]
  generalize CivilDate.ofDays (t.seconds / 86400) = d at hvalid hmonth hday hdays
  generalize hofDay : (t.seconds % 86400).toNat = n
  have hnumber {k : Nat} (hk : k < 10 ^ 2) (rest : List Char) :
      readNumber 2 ((padded 2 k).toList ++ rest) = some (k, rest) :=
    readNumber_padded (by omega) hk rest
  have hfraction := readFraction_fractionText (Nat.mod_lt t.nanos (by omega : 0 < 1000000000))
  have hdash : Text.isBlankChar '-' = false := rfl
  have hcolon : Text.isBlankChar ':' = false := rfl
  have hsecond : n % 60 + t.nanos / 1000000000 ≤ 60 := by omega
  -- One reader after the other, each up to where the next part begins.
  refine Option.bind_eq_some_iff.2 ⟨_, readYear_yearText d.year _, ?_⟩
  refine Option.bind_eq_some_iff.2 ⟨_, readMark_cons hdash _, ?_⟩
  refine Option.bind_eq_some_iff.2 ⟨_, hnumber (by omega) _, ?_⟩
  refine Option.bind_eq_some_iff.2 ⟨_, readMark_cons hdash _, ?_⟩
  refine Option.bind_eq_some_iff.2 ⟨_, hnumber (by omega) _, ?_⟩
  refine Option.bind_eq_some_iff.2 ⟨_, rfl, ?_⟩
  refine Option.bind_eq_some_iff.2 ⟨_, hnumber (by omega) _, ?_⟩
  refine Option.bind_eq_some_iff.2 ⟨_, readMark_cons hcolon _, ?_⟩
  refine Option.bind_eq_some_iff.2 ⟨_, hnumber (by omega) _, ?_⟩
  refine Option.bind_eq_some_iff.2 ⟨_, readMark_cons hcolon _, ?_⟩
  refine Option.bind_eq_some_iff.2 ⟨_, hnumber (by omega) _, ?_⟩
  refine Option.bind_eq_some_iff.2 ⟨_, hfraction, ?_⟩
  refine Option.bind_eq_some_iff.2 ⟨(0, []), rfl, ?_⟩
  refine Option.bind_eq_some_iff.2 ⟨(), rfl, ?_⟩
  have hguard : (d.isValid && decide (n / 3600 ≤ 23) && decide (n / 60 % 60 ≤ 59) &&
      decide (n % 60 + t.nanos / 1000000000 ≤ 60)) = true := by
    simp only [hvalid, Bool.true_and, Bool.and_eq_true, decide_eq_true_eq]
    omega
  refine Option.bind_eq_some_iff.2 ⟨(), if_pos hguard, ?_⟩
  refine Option.bind_eq_some_iff.2 ⟨(), rfl, ?_⟩
  have hseconds : d.toDays * 86400 + ((n / 3600 * 3600 + n / 60 % 60 * 60 +
      min (n % 60 + t.nanos / 1000000000) 59 : Nat) : Int) - 0 = t.seconds := by omega
  have hnano : (t.nanos % 1000000000 +
      if n % 60 + t.nanos / 1000000000 = 60 then 1000000000 else 0) = t.nanos := by
    split_ifs <;> omega
  have hunix : ofUnix? t.seconds t.nanos = some t := dif_pos ⟨t.inCalendar, t.nanos_lt⟩
  exact (congrArg₂ ofUnix? hseconds hnano).trans hunix

theorem ofText?_text (t : Instant) : ofText? (t.text "Z") = some t.denoted := by
  rw [← text_denoted, ofText?_text_of_denoted t.denoted_denoted]

/-- A leap second after 23:56:04 is written and read as a time after 23:56:05. -/
example :
    text "Z" ⟨1435708564, 1500000000, by decide, by decide⟩ = "2015-06-30T23:56:05.500Z" ∧
      ofText? "2015-06-30T23:56:05.500Z" =
        some ⟨1435708565, 500000000, by decide, by decide⟩ := by
  decide +kernel

theorem denoted_eq_self {t : Instant} (h : ofText? (t.text "Z") = some t) : t.denoted = t :=
  Option.some.inj ((ofText?_text t).symm.trans h)

theorem digitsValue_lt {ds : List Char} (h : ∀ c ∈ ds, c.isDigit = true) :
    digitsValue ds < 10 ^ ds.length := by
  rw [digitsValue_eq]
  induction ds using List.reverseRecOn with
  | nil => exact Nat.zero_lt_one
  | append_singleton ds c ih =>
    obtain ⟨hds, hc⟩ := List.forall_mem_append.1 h
    have hbounds := Char.isDigit_iff_toNat.1 (hc c (List.mem_singleton_self c))
    have hlt := ih hds
    rw [Nat.ofDigitChars_append, Nat.ofDigitChars_cons, Nat.ofDigitChars_nil, List.length_append,
      List.length_singleton, Nat.pow_succ]
    simp only [Char.reduceToNat] at *
    omega

theorem lt_of_readFraction {s rest : List Char} {nanos : Nat}
    (h : readFraction s = some (nanos, rest)) : nanos < 1000000000 := by
  unfold readFraction at h
  split at h
  · rename_i s
    dsimp only at h
    split at h
    · cases h
    · cases h
      generalize hds : (s.take 9).takeWhile Char.isDigit = ds
      have hdigit : ∀ c ∈ ds, c.isDigit = true :=
        hds ▸ fun c hc => List.all_eq_true.1 List.all_takeWhile c hc
      have hlength : ds.length ≤ 9 :=
        hds ▸ Nat.le_trans (List.takeWhile_sublist _).length_le (List.length_take_le 9 s)
      have hpadded : ∀ c ∈ ds ++ List.replicate (9 - ds.length) '0', c.isDigit = true :=
        List.forall_mem_append.2 ⟨hdigit, fun c hc => List.eq_of_mem_replicate hc ▸ rfl⟩
      have hlt := digitsValue_lt hpadded
      rw [List.length_append, List.length_replicate, Nat.add_sub_of_le hlength] at hlt
      exact hlt
  · cases h
    omega

theorem minutes_of_readOffset {sign : Int} {s rest : List Char} {zone : Int}
    (h : readOffset sign s = some (zone, rest)) : zone % 60 = 0 := by
  unfold readOffset at h
  split at h
  · split at h
    · split at h
      · cases h
        refine Int.emod_eq_zero_of_dvd (Int.dvd_trans ?_ (Int.dvd_mul_left sign _))
        omega
      · cases h
    · cases h
  · cases h

/-- The offset of a zone is whole minutes. -/
theorem minutes_of_readZone {s rest : List Char} {zone : Int} (h : readZone s = some (zone, rest)) :
    zone % 60 = 0 := by
  unfold readZone at h
  split at h
  · cases h
    rfl
  · cases h
    rfl
  · exact minutes_of_readOffset h
  · exact minutes_of_readOffset h
  · exact minutes_of_readOffset h
  · split at h
    · cases h
      rfl
    · cases h
  · cases h

theorem of_ofUnix? {seconds : Int} {nanos : Nat} {t : Instant}
    (h : ofUnix? seconds nanos = some t) : t.seconds = seconds ∧ t.nanos = nanos := by
  unfold ofUnix? at h
  split at h
  · cases h
    exact ⟨rfl, rfl⟩
  · cases h

/-- A leap second that is read is the last second of its minute: it comes after second 59, and the
offset of a zone is in minutes. -/
theorem denoted_of_ofText? {s : String} {t : Instant} (h : ofText? s = some t) : t.denoted = t := by
  unfold ofText? at h
  obtain ⟨⟨year, s₁⟩, -, h⟩ := Option.bind_eq_some_iff.1 h
  obtain ⟨⟨_, s₂⟩, -, h⟩ := Option.bind_eq_some_iff.1 h
  obtain ⟨⟨month, s₃⟩, -, h⟩ := Option.bind_eq_some_iff.1 h
  obtain ⟨⟨_, s₄⟩, -, h⟩ := Option.bind_eq_some_iff.1 h
  obtain ⟨⟨day, s₅⟩, -, h⟩ := Option.bind_eq_some_iff.1 h
  obtain ⟨⟨_, s₆⟩, -, h⟩ := Option.bind_eq_some_iff.1 h
  obtain ⟨⟨hour, s₇⟩, -, h⟩ := Option.bind_eq_some_iff.1 h
  obtain ⟨⟨_, s₈⟩, -, h⟩ := Option.bind_eq_some_iff.1 h
  obtain ⟨⟨minute, s₉⟩, -, h⟩ := Option.bind_eq_some_iff.1 h
  obtain ⟨⟨_, s₁₀⟩, -, h⟩ := Option.bind_eq_some_iff.1 h
  obtain ⟨⟨second, s₁₁⟩, -, h⟩ := Option.bind_eq_some_iff.1 h
  obtain ⟨⟨nanos, s₁₂⟩, hfraction, h⟩ := Option.bind_eq_some_iff.1 h
  obtain ⟨⟨zone, s₁₃⟩, hzone, h⟩ := Option.bind_eq_some_iff.1 h
  obtain ⟨⟨⟩, -, h⟩ := Option.bind_eq_some_iff.1 h
  obtain ⟨⟨⟩, -, h⟩ := Option.bind_eq_some_iff.1 h
  obtain ⟨⟨⟩, -, h⟩ := Option.bind_eq_some_iff.1 h
  have hnanos := lt_of_readFraction hfraction
  have hminutes := minutes_of_readZone hzone
  obtain ⟨hsecond, hnano⟩ := of_ofUnix? h
  rw [denoted_eq_self_iff, hsecond, hnano]
  split <;> omega

end Provisioning.Instant
