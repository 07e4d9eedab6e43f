import Provisioning.Proofs.Wire

/-!
# What JSON trees hold

A JSON number is whole and of at most sixty-four bits, or a finite double; a double that is read of
one is finite either way (`finite_holdsOfRead`). The keys of an object increase; a tree in which
they do is the tree of its own draft (`toJson?_ofJson`), and so is every tree of a draft
(`canonical_of_toJson?`).
-/
namespace Provisioning

open Json (Draft)

namespace Binary64

theorem isFinite_ofMagnitude (negative : Bool) {m : Nat} (h : m < infinityBits) :
    (ofMagnitude negative m).isFinite = true := by
  have hbits : (ofMagnitude negative m).magnitude = m := by
    unfold infinityBits at h
    cases negative <;> simp only [ofMagnitude, magnitude, signBit, UInt64.toNat_ofNat',
      ↓reduceIte, Bool.false_eq_true] <;> omega
  rw [isFinite, hbits, decide_eq_true h]

theorem roundHalfEven_le (num den : Nat) : roundHalfEven num den ≤ num / den + 1 := by
  unfold roundHalfEven
  dsimp only
  split_ifs <;> omega

/-- The exponent of the largest power of two not above a whole number. -/
theorem floorLog2_one {n : Nat} (hn : n ≠ 0) : floorLog2 n 1 = n.log2 := by
  have hle : 1 <<< n.log2 ≤ n <<< (-(n.log2 : Int)).toNat := by
    rw [Nat.one_shiftLeft, Int.toNat_neg_natCast, Nat.shiftLeft_zero]
    exact Nat.log2_self_le hn
  have hone : (n.log2 : Int) - (Nat.log2 1 : Nat) = n.log2 := by
    rw [show Nat.log2 1 = 0 by decide, Int.natCast_zero, Int.sub_zero]
  rw [floorLog2, hone, Int.toNat_natCast, if_pos hle]

/-- A whole number of at most sixty-four bits is far from infinity. -/
theorem isFinite_ofInt {i : Int} (hi : i.natAbs < 2 ^ 64) : (ofInt i).isFinite = true := by
  unfold ofInt ofRatio
  split
  · exact isFinite_ofMagnitude _ (by decide)
  rename_i hn
  obtain ⟨k, hk⟩ : ∃ k, i.natAbs.log2 = k := ⟨_, rfl⟩
  have hlt : i.natAbs < 2 ^ (k + 1) := hk ▸ Nat.lt_log2_self
  have hk64 : k < 64 := hk ▸ (Nat.log2_lt hn).2 hi
  have hmax : max ((k : Int) - 52) (-1074) = k - 52 := by omega
  rw [floorLog2_one hn, hk, hmax]
  obtain ⟨a, ha⟩ : ∃ a, (-((k : Int) - 52)).toNat = a := ⟨_, rfl⟩
  obtain ⟨b, hb⟩ : ∃ b, ((k : Int) - 52).toNat = b := ⟨_, rfl⟩
  dsimp only
  rw [ha, hb]
  have hquotient : i.natAbs <<< a / 1 <<< b < 2 ^ 53 := by
    rw [Nat.shiftLeft_eq, Nat.one_shiftLeft, Nat.div_lt_iff_lt_mul (Nat.two_pow_pos b)]
    calc i.natAbs * 2 ^ a
        < 2 ^ (k + 1) * 2 ^ a := Nat.mul_lt_mul_of_pos_right hlt (Nat.two_pow_pos a)
      _ = 2 ^ (53 + b) := by
          rw [← Nat.pow_add]
          congr 1
          omega
      _ = 2 ^ 53 * 2 ^ b := Nat.pow_add 2 53 b
  have hround := roundHalfEven_le (i.natAbs <<< a) (1 <<< b)
  have hexponent : ((k : Int) - 52 + 1074).toNat ≤ 1085 := by omega
  have hshift := Nat.mul_le_mul_right impliedBit hexponent
  refine isFinite_ofMagnitude _ (Nat.lt_of_le_of_lt (Nat.min_le_left _ _) ?_)
  unfold impliedBit at *
  unfold infinityBits
  omega

end Binary64

/-- Whether a number is whole and of at most sixty-four bits, or a finite double. -/
def Json.Number.fits : Json.Number → Bool
  | .integer i => i.natAbs < 2 ^ 64
  | .double d => d.isFinite

namespace Json.Draft

mutual

/-- Whether all numbers in a draft are such as JSON numbers can be. -/
def numbersFit : Draft → Bool
  | .number n => n.fits
  | .array items => itemsFit items
  | .object fields => fieldsFit fields
  | _ => true

def itemsFit : List Draft → Bool
  | [] => true
  | d :: ds => numbersFit d && itemsFit ds

def fieldsFit : List (Option String × Draft) → Bool
  | [] => true
  | (_, d) :: fs => numbersFit d && fieldsFit fs

end

theorem itemsFit_iff {ds : List Draft} :
    itemsFit ds = true ↔ ∀ d ∈ ds, d.numbersFit = true := by
  induction ds with
  | nil => simp [itemsFit]
  | cons d ds ih => rw [itemsFit, Bool.and_eq_true, ih, List.forall_mem_cons]

theorem fieldsFit_iff {fs : List (Option String × Draft)} :
    fieldsFit fs = true ↔ ∀ f ∈ fs, f.2.numbersFit = true := by
  induction fs with
  | nil => simp [fieldsFit]
  | cons f fs ih => rw [fieldsFit, Bool.and_eq_true, ih, List.forall_mem_cons]

theorem hereditary_numbersFit : Wire.Hereditary fun d => d.numbersFit = true where
  broken := rfl
  items h := itemsFit_iff.1 (by rwa [numbersFit] at h)
  fields h := fieldsFit_iff.1 (by rwa [numbersFit] at h)

end Json.Draft

/-- Doubles that are read of numbers that fit are finite. -/
theorem Wire.finite_holdsOfRead : HoldsOfRead .finite fun d => d.numbersFit = true where
  double d x hd h := by
    cases d with
    | number n =>
      rw [Draft.numbersFit] at hd
      cases n with
      | integer i =>
        cases h
        exact Binary64.isFinite_ofInt (of_decide_eq_true hd)
      | double y =>
        cases h
        exact hd
    | _ => cases h
  time _ _ _ := rfl
  attributes _ _ := rfl

namespace Json

mutual

/-- Whether the keys of every object in a tree increase. -/
def Canonical : Json → Prop
  | .array items => ItemsCanonical items
  | .object fields => KeysIncrease fields ∧ FieldsCanonical fields
  | _ => True

def ItemsCanonical : List Json → Prop
  | [] => True
  | j :: js => Canonical j ∧ ItemsCanonical js

def FieldsCanonical : List (String × Json) → Prop
  | [] => True
  | (_, j) :: fs => Canonical j ∧ FieldsCanonical fs

end

theorem fieldsCanonical_iff {fs : List (String × Json)} :
    FieldsCanonical fs ↔ ∀ f ∈ fs, f.2.Canonical := by
  induction fs with
  | nil => simp [FieldsCanonical]
  | cons f fs ih => rw [FieldsCanonical, ih, List.forall_mem_cons]

end Json

namespace Table

variable {ν : Type}

theorem putEntry_of_last {key : String} (value : ν) {entries : List (String × ν)}
    (h : ∀ e ∈ entries, e.1 < key) : putEntry key value entries = entries ++ [(key, value)] := by
  induction entries with
  | nil => rfl
  | cons e rest ih =>
    obtain ⟨he, hrest⟩ := List.forall_mem_cons.1 h
    have hne : key ≠ e.1 := fun heq => String.lt_irrefl key (heq ▸ he)
    have hnlt : ¬ key < e.1 := fun hlt => String.lt_irrefl key (String.lt_trans hlt he)
    rw [putEntry, if_neg hne, if_neg hnlt, ih hrest, List.cons_append]

theorem entries_ofList_append {es : List (String × ν)} {t : Table ν}
    (h : KeysIncrease (t.entries ++ es)) :
    (es.foldl (fun t e => t.put e.1 e.2) t).entries = t.entries ++ es := by
  induction es generalizing t with
  | nil => rw [List.foldl_nil, List.append_nil]
  | cons e es ih =>
    have hlast : ∀ f ∈ t.entries, f.1 < e.1 := fun f hf =>
      (List.pairwise_append.1 h).2.2 f hf e List.mem_cons_self
    have hput : (t.put e.1 e.2).entries = t.entries ++ [e] := putEntry_of_last e.2 hlast
    have hsplit : t.entries ++ e :: es = (t.entries ++ [e]) ++ es := by
      rw [List.append_assoc, List.singleton_append]
    rw [hsplit] at h ⊢
    rw [← hput] at h ⊢
    exact ih h

/-- Entries in the order of their keys are those of their table. -/
theorem entries_ofList {es : List (String × ν)} (h : KeysIncrease es) : (ofList es).entries = es :=
  entries_ofList_append (t := empty) h

theorem ofList_entries (t : Table ν) : ofList t.entries = t := by
  obtain ⟨es, hes⟩ := t
  have hentries := entries_ofList hes
  cases h : ofList es
  rw [h] at hentries
  cases hentries
  rfl

theorem mem_ofList {es : List (String × ν)} {e : String × ν} (h : e ∈ (ofList es).entries) :
    e ∈ es := by
  suffices hall : ∀ t : Table ν, (∀ f ∈ t.entries, f ∈ es) → ∀ gs : List (String × ν),
      (∀ g ∈ gs, g ∈ es) → ∀ f ∈ (gs.foldl (fun t e => t.put e.1 e.2) t).entries, f ∈ es from
    hall empty (fun f hf => by cases hf) es (fun _ hg => hg) e h
  intro t ht gs hgs
  induction gs generalizing t with
  | nil => exact ht
  | cons g gs ih =>
    obtain ⟨hg, hgs⟩ := List.forall_mem_cons.1 hgs
    refine ih (t.put g.1 g.2) (fun f hf => ?_) hgs
    rcases mem_putEntry hf with rfl | hf
    · exact hg
    · exact ht f hf

end Table

namespace Json.Draft

theorem ofJson_object (fields : List (String × Json)) :
    ofJson (.object fields) = .object (ofFields fields) := by
  rw [ofJson]

mutual

/-- A tree whose keys increase is read back as it is. -/
theorem toJson?_ofJson (j : Json) (hj : j.Canonical) : (ofJson j).toJson? = some j := by
  match j with
  | .null | .bool _ | .number _ | .string _ => rfl
  | .array items =>
    rw [Json.Canonical] at hj
    rw [ofJson, toJson?, itemsToJson?_ofItems items hj]
    rfl
  | .object fields =>
    rw [Json.Canonical] at hj
    rw [ofJson, toJson?, fieldsToJson?_ofFields fields hj.2, Option.map_some, Json.ofFields,
      Table.entries_ofList hj.1]

theorem itemsToJson?_ofItems (js : List Json) (hjs : ItemsCanonical js) :
    itemsToJson? (ofItems js) = some js := by
  match js with
  | [] => rfl
  | j :: js =>
    rw [ItemsCanonical] at hjs
    rw [ofItems, itemsToJson?, toJson?_ofJson j hjs.1, itemsToJson?_ofItems js hjs.2]
    rfl

theorem fieldsToJson?_ofFields (fs : List (String × Json)) (hfs : FieldsCanonical fs) :
    fieldsToJson? (ofFields fs) = some fs := by
  match fs with
  | [] => rfl
  | (k, j) :: fs =>
    rw [FieldsCanonical] at hfs
    rw [ofFields, fieldsToJson?, toJson?_ofJson j hfs.1, fieldsToJson?_ofFields fs hfs.2]
    rfl

end

mutual

/-- The keys of every tree that is read increase. -/
theorem canonical_of_toJson? (d : Draft) {j : Json} (h : d.toJson? = some j) : j.Canonical := by
  match d with
  | .null | .bool _ | .number _ | .string _ =>
    cases h
    trivial
  | .array items =>
    rw [toJson?, Option.map_eq_some_iff] at h
    obtain ⟨js, hjs, rfl⟩ := h
    exact canonical_of_itemsToJson? items hjs
  | .object fields =>
    rw [toJson?, Option.map_eq_some_iff] at h
    obtain ⟨fs, hfs, rfl⟩ := h
    have hcanonical := Json.fieldsCanonical_iff.1 (canonical_of_fieldsToJson? fields hfs)
    exact ⟨(Table.ofList fs).sorted,
      Json.fieldsCanonical_iff.2 fun f hf => hcanonical f (Table.mem_ofList hf)⟩
  | .unusable | .broken => cases h

theorem canonical_of_itemsToJson? (ds : List Draft) {js : List Json}
    (h : itemsToJson? ds = some js) : ItemsCanonical js := by
  match ds with
  | [] =>
    cases h
    trivial
  | d :: ds =>
    rw [itemsToJson?, Option.bind_eq_bind, Option.bind_eq_some_iff] at h
    obtain ⟨j, hj, h⟩ := h
    rw [Option.bind_eq_bind, Option.bind_eq_some_iff] at h
    obtain ⟨js, hjs, h⟩ := h
    cases h
    exact ⟨canonical_of_toJson? d hj, canonical_of_itemsToJson? ds hjs⟩

theorem canonical_of_fieldsToJson? (fs : List (Option String × Draft)) {js : List (String × Json)}
    (h : fieldsToJson? fs = some js) : FieldsCanonical js := by
  match fs with
  | [] =>
    cases h
    trivial
  | (key, d) :: fs =>
    rw [fieldsToJson?, Option.bind_eq_bind, Option.bind_eq_some_iff] at h
    obtain ⟨k, -, h⟩ := h
    rw [Option.bind_eq_bind, Option.bind_eq_some_iff] at h
    obtain ⟨j, hj, h⟩ := h
    rw [Option.bind_eq_bind, Option.bind_eq_some_iff] at h
    obtain ⟨js, hjs, h⟩ := h
    cases h
    exact ⟨canonical_of_toJson? d hj, canonical_of_fieldsToJson? fs hjs⟩

end

end Json.Draft

end Provisioning
