/-!
# Tables with text keys

A table keeps its entries in the order of their keys, each key once, so two tables with the same
look-ups are equal (`ext_find?`). What `put` and `erase` do is said through `find?`.
-/
namespace Provisioning

/-- Sets the value under a key, in a list of entries ordered by key. -/
def putEntry {ν : Type} (key : String) (value : ν) : List (String × ν) → List (String × ν)
  | [] => [(key, value)]
  | e :: rest =>
    if key = e.1 then (key, value) :: rest
    else if key < e.1 then (key, value) :: e :: rest
    else e :: putEntry key value rest

/-- Whether the keys of entries increase. -/
def KeysIncrease {ν : Type} (entries : List (String × ν)) : Prop :=
  entries.Pairwise fun a b => a.1 < b.1

section

variable {ν : Type}

theorem lookup_entry (k : String) (e : String × ν) (rest : List (String × ν)) :
    (e :: rest).lookup k = if k = e.1 then some e.2 else rest.lookup k := by
  obtain ⟨l, v⟩ := e
  by_cases h : k = l
  · simp [h]
  · simp [List.lookup_cons, h, beq_false_of_ne h]

theorem mem_putEntry {key : String} {value : ν} {entries : List (String × ν)} {e : String × ν}
    (h : e ∈ putEntry key value entries) : e = (key, value) ∨ e ∈ entries := by
  induction entries with
  | nil => simpa [putEntry] using h
  | cons d rest ih =>
    simp only [putEntry] at h
    split at h
    · rcases List.mem_cons.1 h with h | h
      · exact .inl h
      · exact .inr (List.mem_cons_of_mem _ h)
    · split at h
      · exact List.mem_cons.1 h
      · rcases List.mem_cons.1 h with h | h
        · exact .inr (h ▸ List.mem_cons_self)
        · exact (ih h).imp_right (List.mem_cons_of_mem _)

theorem keysIncrease_putEntry (key : String) (value : ν) {entries : List (String × ν)}
    (h : KeysIncrease entries) : KeysIncrease (putEntry key value entries) := by
  induction entries with
  | nil => simp [putEntry, KeysIncrease]
  | cons d rest ih =>
    obtain ⟨hd, hrest⟩ := List.pairwise_cons.1 h
    simp only [putEntry]
    split
    · rename_i hk
      exact List.pairwise_cons.2 ⟨fun e he => hk ▸ hd e he, hrest⟩
    · split
      · rename_i hlt
        refine List.pairwise_cons.2 ⟨fun e he => ?_, h⟩
        rcases List.mem_cons.1 he with rfl | he
        · exact hlt
        · exact String.lt_trans hlt (hd e he)
      · rename_i hne hnlt
        have hlt : d.1 < key :=
          Std.not_le.1 fun hle => hne (String.le_antisymm hle (String.not_lt.1 hnlt))
        refine List.pairwise_cons.2 ⟨fun e he => ?_, ih hrest⟩
        rcases mem_putEntry he with rfl | he
        · exact hlt
        · exact hd e he

theorem lookup_putEntry (key k : String) (value : ν) (entries : List (String × ν)) :
    (putEntry key value entries).lookup k = if k = key then some value else entries.lookup k := by
  induction entries with
  | nil => simp [putEntry, lookup_entry]
  | cons d rest ih =>
    simp only [putEntry]
    split
    · rename_i hkey
      subst hkey
      by_cases hk : k = d.1 <;> simp [lookup_entry, hk]
    · split
      · simp [lookup_entry]
      · rename_i hne _
        by_cases hk : k = d.1
        · have : k ≠ key := fun e => hne (e.symm.trans hk)
          simp [lookup_entry, hk, Ne.symm hne]
        · simp [lookup_entry, hk, ih]

theorem lookup_eq_none_of_lt {k : String} {entries : List (String × ν)}
    (h : ∀ e ∈ entries, k < e.1) : entries.lookup k = none := by
  induction entries with
  | nil => rfl
  | cons d rest ih =>
    have hd : k ≠ d.1 := fun e => String.lt_irrefl d.1 (e ▸ h d List.mem_cons_self)
    simp [lookup_entry, hd, ih fun e he => h e (List.mem_cons_of_mem _ he)]

theorem lookup_eq_none_of_lt_head {k : String} {d : String × ν} {rest : List (String × ν)}
    (h : KeysIncrease (d :: rest)) (hk : k < d.1) : (d :: rest).lookup k = none := by
  refine lookup_eq_none_of_lt fun e he => ?_
  rcases List.mem_cons.1 he with rfl | he
  · exact hk
  · exact String.lt_trans hk ((List.pairwise_cons.1 h).1 e he)

/-- Entries in the order of their keys are determined by their look-ups. -/
theorem eq_of_lookup_eq {as bs : List (String × ν)} (ha : KeysIncrease as) (hb : KeysIncrease bs)
    (h : ∀ k, as.lookup k = bs.lookup k) : as = bs := by
  induction as generalizing bs with
  | nil =>
    cases bs with
    | nil => rfl
    | cons b bs => simpa [lookup_entry] using h b.1
  | cons a as ih =>
    cases bs with
    | nil => simpa [lookup_entry] using h a.1
    | cons b bs =>
      have hab : a.1 = b.1 := by
        rcases Std.lt_trichotomy a.1 b.1 with hlt | heq | hgt
        · have := h a.1
          rw [lookup_eq_none_of_lt_head hb hlt] at this
          simp [lookup_entry] at this
        · exact heq
        · have := h b.1
          rw [lookup_eq_none_of_lt_head ha hgt] at this
          simp [lookup_entry] at this
      have hval : a.2 = b.2 := by simpa [lookup_entry, hab] using h a.1
      obtain rfl : a = b := Prod.ext hab hval
      congr 1
      refine ih (List.pairwise_cons.1 ha).2 (List.pairwise_cons.1 hb).2 fun k => ?_
      by_cases hk : k = a.1
      · subst hk
        rw [lookup_eq_none_of_lt (List.pairwise_cons.1 ha).1,
          lookup_eq_none_of_lt (List.pairwise_cons.1 hb).1]
      · simpa [lookup_entry, hk] using h k

end

/-- Values under text keys. -/
structure Table (ν : Type) where
  entries : List (String × ν)
  sorted : KeysIncrease entries

namespace Table

variable {ν : Type}

def empty : Table ν := ⟨[], List.Pairwise.nil⟩

instance : Inhabited (Table ν) := ⟨empty⟩

def find? (t : Table ν) (key : String) : Option ν := t.entries.lookup key

def contains (t : Table ν) (key : String) : Bool := (t.find? key).isSome

def size (t : Table ν) : Nat := t.entries.length

def isEmpty (t : Table ν) : Bool := t.entries.isEmpty

def put (t : Table ν) (key : String) (value : ν) : Table ν :=
  ⟨putEntry key value t.entries, keysIncrease_putEntry key value t.sorted⟩

def erase (t : Table ν) (key : String) : Table ν :=
  ⟨t.entries.filter (·.1 != key), t.sorted.filter _⟩

/-- The table of a list of entries; the last of several equal keys wins. -/
def ofList (entries : List (String × ν)) : Table ν :=
  entries.foldl (fun t e => t.put e.1 e.2) empty

theorem find?_put (t : Table ν) (key k : String) (value : ν) :
    (t.put key value).find? k = if k = key then some value else t.find? k :=
  lookup_putEntry key k value t.entries

theorem find?_erase (t : Table ν) (key k : String) :
    (t.erase key).find? k = if k = key then none else t.find? k := by
  simp only [find?, erase]
  induction t.entries with
  | nil => simp
  | cons e rest ih =>
    by_cases he : e.1 = key
    · have : (e.1 != key) = false := by simp [he]
      rw [List.filter_cons_of_neg (by simp [he]), ih, lookup_entry, he]
      by_cases hk : k = key <;> simp [hk]
    · rw [List.filter_cons_of_pos (by simp [he]), lookup_entry, ih, lookup_entry]
      by_cases hk : k = e.1
      · simp [hk, he]
      · simp [hk]

/-- Tables with the same look-ups are equal. -/
theorem ext_find? {t u : Table ν} (h : ∀ k, t.find? k = u.find? k) : t = u := by
  obtain ⟨as, ha⟩ := t
  obtain ⟨bs, hb⟩ := u
  congr 1
  exact eq_of_lookup_eq ha hb h

end Table

end Provisioning
