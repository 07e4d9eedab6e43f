import Provisioning.Keyed

/-!
# Laws of collections keyed by name

Whatever has a name is found through its folded name, its key. Looking up after a change is said by
one equation for each change: `get?_put` and `get?_restrict_of_mem` hold of every collection,
`get?_erase` of those in which no key repeats, and every change keeps keys from repeating.
Selections by key commute with putting an item.
-/
namespace Provisioning

variable {α : Type} [HasName α]

/-- The folded name by which an item is found. -/
def HasName.key (a : α) : String := Text.fold (HasName.name a).text

theorem HasName.is_iff (a : α) (n : String) : HasName.is a n = true ↔ HasName.key a = Text.fold n :=
  Text.sameName_iff _ _

theorem HasName.is_name_iff (a b : α) :
    HasName.is a (HasName.name b).text = true ↔ HasName.key a = HasName.key b :=
  HasName.is_iff a _

theorem HasName.key_congr {β : Type} [HasName β] {a : α} {b : β}
    (h : HasName.name a = HasName.name b) : HasName.key a = HasName.key b := by
  rw [HasName.key, HasName.key, h]

/-- Items with one key answer alike to every name. -/
theorem HasName.is_congr {a b : α} (h : HasName.key a = HasName.key b) (n : String) :
    HasName.is a n = HasName.is b n := by
  rw [Bool.eq_iff_iff, HasName.is_iff, HasName.is_iff, h]

namespace Keyed

/-- Whether no two items share a name, up to case. -/
def Distinct (items : List α) : Prop :=
  items.Pairwise fun a b => HasName.key a ≠ HasName.key b

instance (items : List α) : Decidable (Distinct items) :=
  inferInstanceAs (Decidable (items.Pairwise fun a b => HasName.key a ≠ HasName.key b))

theorem distinct_nil : Distinct ([] : List α) := List.Pairwise.nil

theorem distinct_cons {a : α} {items : List α} :
    Distinct (a :: items) ↔ (∀ b ∈ items, HasName.key a ≠ HasName.key b) ∧ Distinct items :=
  List.pairwise_cons

theorem Distinct.sublist {items sub : List α} (h : Distinct items) (hs : sub.Sublist items) :
    Distinct sub :=
  List.Pairwise.sublist hs h

theorem firstRepeat?_eq_none_iff {seen items : List α} :
    firstRepeat? seen items = none ↔
      (∀ a ∈ seen, ∀ b ∈ items, HasName.key a ≠ HasName.key b) ∧ Distinct items := by
  induction items generalizing seen with
  | nil => simp [firstRepeat?, distinct_nil]
  | cons b items ih =>
    have hany : seen.any (HasName.is · (HasName.name b).text) = true ↔
        ∃ a ∈ seen, HasName.key a = HasName.key b := by
      simp only [List.any_eq_true, HasName.is_name_iff]
    rw [firstRepeat?, distinct_cons]
    split
    · rename_i h
      obtain ⟨a, ha, hab⟩ := hany.1 h
      have hnot : ¬ ∀ a ∈ seen, ∀ c ∈ b :: items, HasName.key a ≠ HasName.key c :=
        fun hall => hall a ha b List.mem_cons_self hab
      simp only [reduceCtorEq, hnot, false_and]
    · rename_i h
      have hno (a : α) (ha : a ∈ seen) : HasName.key a ≠ HasName.key b := fun hab =>
        h (hany.2 ⟨a, ha, hab⟩)
      rw [ih]
      constructor
      · rintro ⟨hseen, hdistinct⟩
        refine ⟨fun a ha c hc => ?_, fun c hc => hseen b (by simp) c hc, hdistinct⟩
        rcases List.mem_cons.1 hc with rfl | hc
        · exact hno a ha
        · exact hseen a (List.mem_append_left _ ha) c hc
      · rintro ⟨hseen, hb, hdistinct⟩
        refine ⟨fun a ha c hc => ?_, hdistinct⟩
        rcases List.mem_append.1 ha with ha | ha
        · exact hseen a ha c (List.mem_cons_of_mem _ hc)
        · rw [List.mem_singleton.1 ha]
          exact hb c hc

/-- The item found is the first of a name that `seen` or an earlier item carries. -/
theorem firstRepeat?_eq_some_iff {seen items : List α} {a : α} :
    firstRepeat? seen items = some a ↔
      ∃ before after, items = before ++ a :: after ∧ firstRepeat? seen before = none ∧
        ∃ b ∈ seen ++ before, HasName.key b = HasName.key a := by
  induction items generalizing seen with
  | nil => simp [firstRepeat?]
  | cons c items ih =>
    have hany : seen.any (HasName.is · (HasName.name c).text) = true ↔
        ∃ b ∈ seen, HasName.key b = HasName.key c := by
      simp only [List.any_eq_true, HasName.is_name_iff]
    by_cases h : seen.any (HasName.is · (HasName.name c).text) = true
    · have hrepeat (rest : List α) : firstRepeat? seen (c :: rest) = some c := if_pos h
      rw [hrepeat]
      constructor
      · rintro ⟨⟩
        exact ⟨[], items, rfl, rfl, by rw [List.append_nil]; exact hany.1 h⟩
      · rintro ⟨before, after, hitems, hbefore, -⟩
        cases before with
        | nil => rw [(List.cons.inj hitems).1]
        | cons b before =>
          rw [← (List.cons.inj hitems).1, hrepeat] at hbefore
          cases hbefore
    · have hpass (rest : List α) :
          firstRepeat? seen (c :: rest) = firstRepeat? (seen ++ [c]) rest :=
        if_neg h
      rw [hpass, ih]
      constructor
      · rintro ⟨before, after, rfl, hbefore, hb⟩
        refine ⟨c :: before, after, rfl, (hpass before).trans hbefore, ?_⟩
        rwa [List.append_assoc] at hb
      · rintro ⟨before, after, hitems, hbefore, hb⟩
        cases before with
        | nil =>
          rw [List.append_nil, ← (List.cons.inj hitems).1] at hb
          exact absurd (hany.2 hb) h
        | cons b before =>
          obtain ⟨rfl, rfl⟩ := List.cons.inj hitems
          refine ⟨before, after, rfl, (hpass before).symm.trans hbefore, ?_⟩
          rwa [List.append_assoc]

/-- Exactly the lists in which no name repeats make collections. -/
theorem ofList?_eq_ok_iff {items : List α} {s : Keyed α} :
    ofList? items = .ok s ↔ s.toList = items ∧ Distinct items := by
  have hnone := @firstRepeat?_eq_none_iff α _ [] items
  unfold ofList?
  cases h : firstRepeat? [] items with
  | none =>
    have hdistinct := (hnone.1 h).2
    refine ⟨fun heq => ?_, fun hs => ?_⟩
    · cases heq
      exact ⟨rfl, hdistinct⟩
    · rw [← hs.1]
  | some a =>
    have hnot : ¬ Distinct items := fun hd => by
      have hcontra := hnone.2 ⟨fun a ha => absurd ha List.not_mem_nil, hd⟩
      rw [h] at hcontra
      cases hcontra
    simp only [reduceCtorEq, hnot, and_false]

/-- Of any other list, the first item that repeats an earlier name is reported. -/
theorem ofList?_eq_error_iff {items : List α} {a : α} :
    ofList? items = .error a ↔
      ∃ before after, items = before ++ a :: after ∧ Distinct before ∧
        ∃ b ∈ before, HasName.key b = HasName.key a := by
  have hrepeat : ofList? items = .error a ↔ firstRepeat? [] items = some a := by
    unfold ofList?
    cases firstRepeat? [] items <;> simp
  have hnone (before : List α) : firstRepeat? [] before = none ↔ Distinct before := by
    simp [firstRepeat?_eq_none_iff]
  simp only [hrepeat, firstRepeat?_eq_some_iff, hnone, List.nil_append]

/-- The first item that carries a name. -/
def find? (items : List α) (n : String) : Option α := items.find? (HasName.is · n)

theorem get?_eq_find? (s : Keyed α) (n : String) : s.get? n = find? s.toList n := rfl

@[simp] theorem find?_nil (n : String) : find? ([] : List α) n = none := rfl

theorem find?_cons (a : α) (items : List α) (n : String) :
    find? (a :: items) n = if HasName.key a = Text.fold n then some a else find? items n := by
  by_cases h : HasName.key a = Text.fold n
  · rw [if_pos h]
    exact List.find?_cons_of_pos (p := (HasName.is · n)) ((HasName.is_iff a n).2 h)
  · have hn : ¬ HasName.is a n = true := fun e => h ((HasName.is_iff a n).1 e)
    rw [if_neg h]
    exact List.find?_cons_of_neg (p := (HasName.is · n)) hn

theorem find?_congr {items : List α} {m n : String} (h : Text.fold m = Text.fold n) :
    find? items m = find? items n := by
  induction items with
  | nil => rfl
  | cons a items ih => simp only [find?_cons, h, ih]

theorem key_of_find? {items : List α} {n : String} {a : α} (h : find? items n = some a) :
    HasName.key a = Text.fold n :=
  (HasName.is_iff a n).1 (List.find?_some (p := (HasName.is · n)) h)

/-- What a name finds is found by its own name too, in any collection. -/
theorem get?_name {β : Type} [HasName β] (s : Keyed α) {t : Keyed β} {n : String} {b : β}
    (h : t.get? n = some b) : s.get? (HasName.name b).text = s.get? n :=
  find?_congr (key_of_find? h)

theorem mem_of_find? {items : List α} {n : String} {a : α} (h : find? items n = some a) :
    a ∈ items :=
  List.mem_of_find?_eq_some h

theorem find?_eq_none_iff {items : List α} {n : String} :
    find? items n = none ↔ ∀ a ∈ items, HasName.key a ≠ Text.fold n := by
  rw [find?, List.find?_eq_none]
  exact forall₂_congr fun a _ => not_congr (HasName.is_iff a n)

/-- Where no name repeats, an item is found by its own name. -/
theorem find?_name {items : List α} (hd : Distinct items) {a : α} (ha : a ∈ items) :
    find? items (HasName.name a).text = some a := by
  induction items with
  | nil => cases ha
  | cons b items ih =>
    obtain ⟨hb, hitems⟩ := distinct_cons.1 hd
    rw [find?_cons]
    rcases List.mem_cons.1 ha with rfl | ha
    · exact if_pos rfl
    · have hne : HasName.key b ≠ Text.fold (HasName.name a).text := hb a ha
      rw [if_neg hne]
      exact ih hitems ha

/-- A key is that of an item exactly if it finds one. -/
theorem mem_keys_iff {items : List α} {n : String} :
    Text.fold n ∈ items.map HasName.key ↔ (find? items n).isSome = true := by
  constructor
  · intro h
    obtain ⟨a, ha, hkey⟩ := List.mem_map.1 h
    cases hf : find? items n with
    | some b => rfl
    | none => exact absurd hkey (find?_eq_none_iff.1 hf a ha)
  · intro h
    obtain ⟨a, ha⟩ := Option.isSome_iff_exists.1 h
    exact List.mem_map.2 ⟨a, mem_of_find? ha, key_of_find? ha⟩

theorem contains_name_iff {s : Keyed α} {a : α} :
    s.contains (HasName.name a).text = true ↔ ∃ b ∈ s.toList, HasName.key b = HasName.key a := by
  rw [← List.mem_map]
  exact mem_keys_iff.symm

theorem putList_cons (a b : α) (items : List α) :
    putList a (b :: items) =
      if HasName.key b = HasName.key a then a :: items else b :: putList a items := by
  simp only [putList, HasName.is_name_iff]

theorem mem_putList {a b : α} {items : List α} (h : b ∈ putList a items) : b = a ∨ b ∈ items := by
  induction items with
  | nil => exact .inl (List.mem_singleton.1 h)
  | cons c items ih =>
    rw [putList_cons] at h
    split at h
    · rcases List.mem_cons.1 h with h | h
      · exact .inl h
      · exact .inr (List.mem_cons_of_mem _ h)
    · rcases List.mem_cons.1 h with h | h
      · exact .inr (h ▸ List.mem_cons_self)
      · exact (ih h).imp_right (List.mem_cons_of_mem _)

theorem find?_putList (a : α) (items : List α) (n : String) :
    find? (putList a items) n =
      if HasName.key a = Text.fold n then some a else find? items n := by
  induction items with
  | nil => simp only [putList, find?_cons, find?_nil]
  | cons b items ih =>
    rw [putList_cons]
    by_cases hb : HasName.key b = HasName.key a
    · rw [if_pos hb, find?_cons, find?_cons, hb]
      split <;> rfl
    · rw [if_neg hb, find?_cons, find?_cons, ih]
      by_cases hn : HasName.key b = Text.fold n
      · have ha : HasName.key a ≠ Text.fold n := fun e => hb (hn.trans e.symm)
        rw [if_pos hn, if_neg ha, if_pos hn]
      · rw [if_neg hn, if_neg hn]

theorem get?_put (s : Keyed α) (a : α) (n : String) :
    (s.put a).get? n = if HasName.key a = Text.fold n then some a else s.get? n :=
  find?_putList a s.toList n

/-- Inserting an item is putting it, and answers what its name found before. -/
theorem insert_eq (s : Keyed α) (a : α) : s.insert a = (s.get? (HasName.name a).text, s.put a) := by
  have hlist (items : List α) :
      insertList a items = (find? items (HasName.name a).text, putList a items) := by
    induction items with
    | nil => rfl
    | cons b items ih =>
      rw [insertList, putList, find?_cons, ih]
      by_cases hb : HasName.is b (HasName.name a).text = true
      · have hkey : HasName.key b = Text.fold (HasName.name a).text := (HasName.is_iff b _).1 hb
        rw [if_pos hb, if_pos hb, if_pos hkey]
      · have hkey : HasName.key b ≠ Text.fold (HasName.name a).text :=
          fun e => hb ((HasName.is_iff b _).2 e)
        rw [if_neg hb, if_neg hb, if_neg hkey]
  rw [insert, hlist]
  rfl

theorem distinct_putList (a : α) {items : List α} (hd : Distinct items) :
    Distinct (putList a items) := by
  induction items with
  | nil => exact List.pairwise_singleton _ _
  | cons b items ih =>
    obtain ⟨hb, hitems⟩ := distinct_cons.1 hd
    rw [putList_cons]
    split
    · rename_i hba
      exact distinct_cons.2 ⟨fun c hc => hba ▸ hb c hc, hitems⟩
    · rename_i hba
      refine distinct_cons.2 ⟨fun c hc => ?_, ih hitems⟩
      rcases mem_putList hc with rfl | hc
      · exact hba
      · exact hb c hc

/-- A selection that looks only at keys commutes with putting an item that it keeps, and does not
notice one that it drops. -/
theorem filter_putList {p : α → Bool} (hp : ∀ b c, HasName.key b = HasName.key c → p b = p c)
    (a : α) (items : List α) :
    (putList a items).filter p = if p a then putList a (items.filter p) else items.filter p := by
  induction items with
  | nil => by_cases ha : p a = true <;> simp [putList, ha]
  | cons b items ih =>
    rw [putList_cons]
    by_cases hb : HasName.key b = HasName.key a
    · have hpb : p b = p a := hp b a hb
      rw [if_pos hb]
      by_cases ha : p a = true
      · rw [if_pos ha, List.filter_cons_of_pos ha, List.filter_cons_of_pos (hpb.trans ha),
          putList_cons, if_pos hb]
      · rw [if_neg ha, List.filter_cons_of_neg ha,
          List.filter_cons_of_neg (fun e => ha (hpb.symm.trans e))]
    · rw [if_neg hb]
      by_cases hpb : p b = true
      · rw [List.filter_cons_of_pos hpb, List.filter_cons_of_pos hpb, ih]
        split
        · rw [putList_cons, if_neg hb]
        · rfl
      · rw [List.filter_cons_of_neg hpb, List.filter_cons_of_neg hpb, ih]

/-- The collection after putting items one after the other. -/
def putAll (s : Keyed α) (items : List α) : Keyed α := items.foldl put s

theorem distinct_putAll {s : Keyed α} (hd : Distinct s.toList) (items : List α) :
    Distinct (s.putAll items).toList := by
  induction items generalizing s with
  | nil => exact hd
  | cons a items ih => exact ih (distinct_putList a hd)

theorem get?_putAll (s : Keyed α) {items : List α} (hd : Distinct items) (n : String) :
    (s.putAll items).get? n = (find? items n).or (s.get? n) := by
  induction items generalizing s with
  | nil => rfl
  | cons a items ih =>
    obtain ⟨ha, hitems⟩ := distinct_cons.1 hd
    show ((s.put a).putAll items).get? n = _
    rw [ih (s.put a) hitems, get?_put, find?_cons]
    by_cases hn : HasName.key a = Text.fold n
    · have hnone : find? items n = none :=
        find?_eq_none_iff.2 fun b hb e => ha b hb (hn.trans e.symm)
      rw [if_pos hn, if_pos hn, hnone]
      rfl
    · rw [if_neg hn, if_neg hn]

/-- A selection that looks only at keys and keeps all of the items commutes with putting them. -/
theorem filter_putAll {p : α → Bool} (hp : ∀ b c, HasName.key b = HasName.key c → p b = p c)
    (s : Keyed α) {items : List α} (hall : ∀ a ∈ items, p a = true) :
    (s.putAll items).toList.filter p = (putAll ⟨s.toList.filter p⟩ items).toList := by
  induction items generalizing s with
  | nil => rfl
  | cons a items ih =>
    have hput : (s.put a).toList.filter p = putList a (s.toList.filter p) :=
      (filter_putList hp a s.toList).trans (if_pos (hall a List.mem_cons_self))
    show ((s.put a).putAll items).toList.filter p = _
    rw [ih (s.put a) fun b hb => hall b (List.mem_cons_of_mem _ hb), hput]
    rfl

/-- Removing a name is erasing it, and answers what it found before. -/
theorem remove_eq (s : Keyed α) (n : String) : s.remove n = (s.get? n, s.erase n) := by
  have hitems : s.toList.eraseP (HasName.is · n) = _ := List.eraseP_eq_eraseIdx
  have hfound : s.get? n = _ := List.find?_eq_bind_findIdx?_getElem?
  rw [erase, hitems, hfound, remove]
  cases s.toList.findIdx? (HasName.is · n) with
  | none => rfl
  | some i => rfl

theorem distinct_erase {s : Keyed α} (hd : Distinct s.toList) (n : String) :
    Distinct (s.erase n).toList :=
  hd.sublist List.eraseP_sublist

theorem find?_eraseP {items : List α} (hd : Distinct items) (m n : String) :
    find? (items.eraseP (HasName.is · m)) n =
      if Text.fold m = Text.fold n then none else find? items n := by
  induction items with
  | nil => simp
  | cons b items ih =>
    obtain ⟨hb, hitems⟩ := distinct_cons.1 hd
    by_cases hm : HasName.key b = Text.fold m
    · rw [List.eraseP_cons_of_pos (p := (HasName.is · m)) ((HasName.is_iff b m).2 hm), find?_cons,
        hm]
      by_cases hmn : Text.fold m = Text.fold n
      · rw [if_pos hmn]
        exact find?_eq_none_iff.2 fun c hc e => hb c hc (hm.trans (hmn.trans e.symm))
      · rw [if_neg hmn, if_neg hmn]
    · have hbm : ¬ HasName.is b m = true := fun e => hm ((HasName.is_iff b m).1 e)
      rw [List.eraseP_cons_of_neg (p := (HasName.is · m)) hbm, find?_cons, find?_cons, ih hitems]
      by_cases hn : HasName.key b = Text.fold n
      · have hmn : Text.fold m ≠ Text.fold n := fun e => hm (hn.trans e.symm)
        rw [if_pos hn, if_neg hmn, if_pos hn]
      · rw [if_neg hn, if_neg hn]

theorem get?_erase {s : Keyed α} (hd : Distinct s.toList) (m n : String) :
    (s.erase m).get? n = if Text.fold m = Text.fold n then none else s.get? n :=
  find?_eraseP hd m n

/-- A selection that drops every item of a name does not notice that name's erasure. -/
theorem filter_eraseP {p : α → Bool} {n : String} (hp : ∀ b, HasName.is b n = true → p b = false)
    (items : List α) : (items.eraseP (HasName.is · n)).filter p = items.filter p := by
  induction items with
  | nil => rfl
  | cons b items ih =>
    by_cases hb : HasName.is b n = true
    · rw [List.eraseP_cons_of_pos (p := (HasName.is · n)) hb,
        List.filter_cons_of_neg (by simp [hp b hb])]
    · rw [List.eraseP_cons_of_neg (p := (HasName.is · n)) hb, List.filter_cons, List.filter_cons,
        ih]

theorem find?_filter {p : α → Bool} (hp : ∀ b c, HasName.key b = HasName.key c → p b = p c)
    (items : List α) (n : String) :
    find? (items.filter p) n = (find? items n).filter p := by
  induction items with
  | nil => rfl
  | cons b items ih =>
    by_cases hb : p b = true
    · rw [List.filter_cons_of_pos hb, find?_cons, find?_cons, ih]
      by_cases hn : HasName.key b = Text.fold n
      · rw [if_pos hn, if_pos hn, Option.filter_some, if_pos hb]
      · rw [if_neg hn, if_neg hn]
    · rw [List.filter_cons_of_neg hb, ih, find?_cons]
      by_cases hn : HasName.key b = Text.fold n
      · rw [if_pos hn, Option.filter_some, if_neg hb]
        cases hf : find? items n with
        | none => rfl
        | some c =>
          have hc : p c = p b := hp c b ((key_of_find? hf).trans hn.symm)
          rw [Option.filter_some, if_neg (hc ▸ hb)]
      · rw [if_neg hn]

/-- Where no name repeats, any selection keeps what a name finds, or leaves it nothing to find. -/
theorem find?_filter_of_distinct (p : α → Bool) {items : List α} (hd : Distinct items)
    (n : String) : find? (items.filter p) n = (find? items n).filter p := by
  induction items with
  | nil => rfl
  | cons b items ih =>
    obtain ⟨hb, hitems⟩ := distinct_cons.1 hd
    have hrest : HasName.key b = Text.fold n → find? items n = none := fun hn =>
      find?_eq_none_iff.2 fun c hc hcn => hb c hc (hn.trans hcn.symm)
    rw [find?_cons, List.filter_cons]
    by_cases hn : HasName.key b = Text.fold n
    · rw [if_pos hn, Option.filter_some]
      split
      · rw [find?_cons, if_pos hn]
      · rw [ih hitems, hrest hn, Option.filter_none]
    · rw [if_neg hn]
      split
      · rw [find?_cons, if_neg hn, ih hitems]
      · exact ih hitems

/-- Items that are rewritten under their keys are found by the same names. -/
theorem find?_map {f : α → α} (hf : ∀ a, HasName.key (f a) = HasName.key a) (items : List α)
    (n : String) : find? (items.map f) n = (find? items n).map f := by
  induction items with
  | nil => rfl
  | cons a items ih =>
    rw [List.map_cons, find?_cons, find?_cons, hf, ih]
    split <;> rfl

theorem distinct_map {f : α → α} (hf : ∀ a, HasName.key (f a) = HasName.key a) {items : List α}
    (hd : Distinct items) : Distinct (items.map f) := by
  refine List.Pairwise.map f (fun a b hab => ?_) hd
  rw [hf, hf]
  exact hab

/-- Whether one of the given names finds an item. -/
def selects (ns : List String) (a : α) : Bool := ns.any (HasName.is a ·)

theorem selects_congr (ns : List String) (b c : α) (h : HasName.key b = HasName.key c) :
    selects ns b = selects ns c := by
  simp only [selects, HasName.is_congr h]

theorem selects_iff {ns : List String} {a : α} :
    selects ns a = true ↔ ∃ n ∈ ns, HasName.key a = Text.fold n := by
  simp only [selects, List.any_eq_true, HasName.is_iff]

theorem toList_restrict (s : Keyed α) (ns : List String) :
    (s.restrict ns).toList = s.toList.filter (selects ns) := rfl

theorem distinct_restrict {s : Keyed α} (hd : Distinct s.toList) (ns : List String) :
    Distinct (s.restrict ns).toList :=
  hd.sublist List.filter_sublist

/-- Restricting to names makes no difference to a look-up of one of them. -/
theorem get?_restrict_of_mem (s : Keyed α) {ns : List String} {n m : String} (hm : m ∈ ns)
    (h : Text.fold m = Text.fold n) : (s.restrict ns).get? n = s.get? n := by
  rw [get?_eq_find?, get?_eq_find?, toList_restrict, find?_filter (selects_congr ns)]
  cases hf : find? s.toList n with
  | none => rfl
  | some a =>
    have ha : selects ns a = true := selects_iff.2 ⟨m, hm, (key_of_find? hf).trans h.symm⟩
    rw [Option.filter_some, if_pos ha]

/-- Whether each of some names is among others, in any spelling. -/
def Covers (ns names : List String) : Prop :=
  ∀ n ∈ names, ∃ m ∈ ns, Text.fold m = Text.fold n

instance (ns names : List String) : Decidable (Covers ns names) :=
  inferInstanceAs (Decidable (∀ n ∈ names, ∃ m ∈ ns, Text.fold m = Text.fold n))

theorem covers_self (ns : List String) : Covers ns ns := fun n hn => ⟨n, hn, rfl⟩

section

variable {ns names : List String} (h : Covers ns names)

include h

theorem get?_restrict_of_covers (s : Keyed α) {n : String} (hn : n ∈ names) :
    (s.restrict ns).get? n = s.get? n := by
  obtain ⟨m, hm, hmn⟩ := h n hn
  exact get?_restrict_of_mem s hm hmn

theorem selects_of_covers {a : α} (ha : selects names a = true) : selects ns a = true := by
  obtain ⟨n, hn, han⟩ := selects_iff.1 ha
  obtain ⟨m, hm, hmn⟩ := h n hn
  exact selects_iff.2 ⟨m, hm, han.trans hmn.symm⟩

/-- A restriction to more names first makes no difference. -/
theorem restrict_restrict (s : Keyed α) : (s.restrict ns).restrict names = s.restrict names := by
  refine congrArg Keyed.mk ?_
  rw [toList_restrict, List.filter_filter]
  refine List.filter_congr fun a _ => ?_
  rw [Bool.eq_iff_iff, Bool.and_eq_true]
  exact and_iff_left_of_imp (selects_of_covers h)

end

end Keyed

end Provisioning
