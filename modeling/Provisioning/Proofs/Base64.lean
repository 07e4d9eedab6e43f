import Mathlib.Data.Option.Basic
import Provisioning.Base64

/-!
# Reading written base 64

Three bytes are one number of twenty-four bits, which four digits of six bits write down. Reading
the digits gives the number again, and its bytes are those that were written; a rest of one or two
bytes leaves the low bits of its last digit zero.
-/
namespace Provisioning.Base64

/-- Every number below sixty-four is read from its own character. -/
theorem value?_digit {n : Nat} (h : n < 64) : value? (digit n) = some n := by
  have hall : ∀ i : Fin 64, value? (digit i) = some i.val := by decide +kernel
  exact hall ⟨n, h⟩

theorem digit_ne_equals {n : Nat} (h : n < 64) : digit n ≠ '=' := by
  intro he
  have hvalue : value? '=' = some n := he ▸ value?_digit h
  have hnone : value? '=' = none := by decide
  rw [hnone] at hvalue
  cases hvalue

section

variable {a b c d : Char} {i j k l n : Nat}

/-- A group without padding is read as three bytes. -/
theorem decodeChars_three {rest : List Char} {bytes : List UInt8} (hd : d ≠ '=')
    (ha : value? a = some i) (hb : value? b = some j) (hc : value? c = some k)
    (hl : value? d = some l) (hrest : decodeChars rest = some bytes)
    (hn : ((i * 64 + j) * 64 + k) * 64 + l = n) :
    decodeChars (a :: b :: c :: d :: rest) =
      some (UInt8.ofNat (n / 65536) :: UInt8.ofNat (n / 256 % 256) :: UInt8.ofNat (n % 256) ::
        bytes) := by
  subst hn
  rw [decodeChars.eq_4 a b c d rest (fun _ h _ => hd h) fun h _ => hd h]
  refine Option.bind_eq_some_iff.2 ⟨i, ha, ?_⟩
  refine Option.bind_eq_some_iff.2 ⟨j, hb, ?_⟩
  refine Option.bind_eq_some_iff.2 ⟨k, hc, ?_⟩
  refine Option.bind_eq_some_iff.2 ⟨l, hl, ?_⟩
  exact Option.bind_eq_some_iff.2 ⟨bytes, hrest, rfl⟩

/-- A group with one character of padding is read as two bytes. -/
theorem decodeChars_two (hne : c ≠ '=') (ha : value? a = some i) (hb : value? b = some j)
    (hc : value? c = some k) (hn : (i * 64 + j) * 64 + k = n) (hzero : n % 4 = 0) :
    decodeChars [a, b, c, '='] =
      some [UInt8.ofNat (n / 1024), UInt8.ofNat (n / 4 % 256)] := by
  subst hn
  rw [decodeChars.eq_3 a b c hne]
  refine Option.bind_eq_some_iff.2 ⟨i, ha, ?_⟩
  refine Option.bind_eq_some_iff.2 ⟨j, hb, ?_⟩
  refine Option.bind_eq_some_iff.2 ⟨k, hc, ?_⟩
  exact Option.bind_eq_some_iff.2 ⟨(), if_pos hzero, rfl⟩

/-- A group with two characters of padding is read as one byte. -/
theorem decodeChars_one (ha : value? a = some i) (hb : value? b = some j)
    (hn : i * 64 + j = n) (hzero : n % 16 = 0) :
    decodeChars [a, b, '=', '='] = some [UInt8.ofNat (n / 16)] := by
  subst hn
  rw [decodeChars.eq_2]
  refine Option.bind_eq_some_iff.2 ⟨i, ha, ?_⟩
  refine Option.bind_eq_some_iff.2 ⟨j, hb, ?_⟩
  exact Option.bind_eq_some_iff.2 ⟨(), if_pos hzero, rfl⟩

end

theorem ofNat_eq_byte {n : Nat} {a : UInt8} (h : n = a.toNat) : UInt8.ofNat n = a := by
  rw [h, UInt8.ofNat_toNat]

theorem decodeChars_encodeChars (bytes : List UInt8) :
    decodeChars (encodeChars bytes) = some bytes := by
  induction bytes using encodeChars.induct with
  | case1 => rfl
  | case2 a =>
    have ha := a.toNat_lt
    have hn : a.toNat * 16 / 64 * 64 + a.toNat * 16 % 64 = a.toNat * 16 := by omega
    rw [encodeChars, decodeChars_one (value?_digit (by omega)) (value?_digit (by omega)) hn
      (by omega), ofNat_eq_byte (a := a) (by omega)]
  | case3 a b =>
    have ha := a.toNat_lt
    have hb := b.toNat_lt
    have hn : ((a.toNat * 256 + b.toNat) * 4 / 4096 * 64 +
        (a.toNat * 256 + b.toNat) * 4 / 64 % 64) * 64 + (a.toNat * 256 + b.toNat) * 4 % 64 =
        (a.toNat * 256 + b.toNat) * 4 := by omega
    rw [encodeChars, decodeChars_two (digit_ne_equals (by omega)) (value?_digit (by omega))
      (value?_digit (by omega)) (value?_digit (by omega)) hn (by omega),
      ofNat_eq_byte (a := a) (by omega), ofNat_eq_byte (a := b) (by omega)]
  | case4 a b c rest ih =>
    have ha := a.toNat_lt
    have hb := b.toNat_lt
    have hc := c.toNat_lt
    have hn (n : Nat) : ((n / 262144 * 64 + n / 4096 % 64) * 64 + n / 64 % 64) * 64 + n % 64 =
        n := by omega
    rw [encodeChars, decodeChars_three (digit_ne_equals (by omega)) (value?_digit (by omega))
      (value?_digit (by omega)) (value?_digit (by omega)) (value?_digit (by omega)) ih (hn _),
      ofNat_eq_byte (a := a) (by omega), ofNat_eq_byte (a := b) (by omega),
      ofNat_eq_byte (a := c) (by omega)]

theorem decode?_encode (bytes : List UInt8) : decode? (encode bytes) = some bytes := by
  rw [decode?, encode, String.toList_ofList, decodeChars_encodeChars]

end Provisioning.Base64
