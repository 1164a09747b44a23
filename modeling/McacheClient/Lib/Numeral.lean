import Mathlib.Data.Nat.Digits.Defs
import Mathlib.Data.Nat.Digits.Lemmas

/-!
# Numbers as bytes

* `bigEndian`, `ofBigEndian`: a number as a fixed count of bytes, the high byte first;
* `ofLittleEndian`: the number that bytes stand for, the low byte first;
* `decimal`, `ofDecimal`: a number as its decimal digits, without leading zeros;
* **`ofBigEndian_bigEndian`**, **`ofDecimal_decimal`**: both read back;
* **`ofLittleEndian_inj`**: bytes of one length that stand for one number are the same.
-/

namespace Numeral

/-! ## Big-endian -/

/-- The `w` low bytes of a number, the high byte first. -/
def bigEndian : ℕ → ℕ → List UInt8
  | 0, _ => []
  | w + 1, n => bigEndian w (n / 256) ++ [UInt8.ofNat n]

/-- The number that bytes stand for, the high byte first. -/
def ofBigEndian (l : List UInt8) : ℕ := l.foldl (fun n b => n * 256 + b.toNat) 0

@[simp] theorem length_bigEndian (w n : ℕ) : (bigEndian w n).length = w := by
  induction w generalizing n with
  | zero => rfl
  | succ w ih => rw [bigEndian, List.length_append, ih]; rfl

theorem ofBigEndian_concat (l : List UInt8) (b : UInt8) :
    ofBigEndian (l ++ [b]) = ofBigEndian l * 256 + b.toNat := by
  rw [ofBigEndian, List.foldl_append]
  rfl

theorem ofBigEndian_bigEndian (w n : ℕ) : ofBigEndian (bigEndian w n) = n % 256 ^ w := by
  induction w generalizing n with
  | zero => rw [pow_zero, Nat.mod_one]; rfl
  | succ w ih =>
    have hb : (UInt8.ofNat n).toNat = n % 256 := UInt8.toNat_ofNat
    rw [bigEndian, ofBigEndian_concat, ih, hb, pow_succ', Nat.mod_mul]
    ring

/-- The number in the first `w` bytes, and the bytes after them. -/
def cutBigEndian (w : ℕ) (l : List UInt8) : ℕ × List UInt8 := (ofBigEndian (l.take w), l.drop w)

theorem cutBigEndian_append (w n : ℕ) (rest : List UInt8) :
    cutBigEndian w (bigEndian w n ++ rest) = (n % 256 ^ w, rest) := by
  rw [cutBigEndian, List.take_left' (length_bigEndian w n), List.drop_left' (length_bigEndian w n),
    ofBigEndian_bigEndian]

/-! ## Little-endian -/

/-- The number that bytes stand for, the low byte first. -/
def ofLittleEndian (l : List UInt8) : ℕ := l.foldr (fun b n => b.toNat + 256 * n) 0

@[simp] theorem ofLittleEndian_nil : ofLittleEndian [] = 0 := rfl

theorem ofLittleEndian_cons (b : UInt8) (l : List UInt8) :
    ofLittleEndian (b :: l) = b.toNat + 256 * ofLittleEndian l := rfl

theorem ofLittleEndian_lt (l : List UInt8) : ofLittleEndian l < 256 ^ l.length := by
  induction l with
  | nil => rw [List.length_nil, pow_zero]; exact Nat.one_pos
  | cons b l ih =>
    have hb : b.toNat < 256 := b.toNat_lt
    rw [ofLittleEndian_cons, List.length_cons, pow_succ]
    omega

theorem ofLittleEndian_mod (n : ℕ) (l : List UInt8) :
    ofLittleEndian l % 256 ^ n = ofLittleEndian (l.take n) := by
  induction n generalizing l with
  | zero => rw [pow_zero, Nat.mod_one, List.take_zero, ofLittleEndian_nil]
  | succ n ih =>
    cases l with
    | nil => rw [List.take_nil, ofLittleEndian_nil, Nat.zero_mod]
    | cons b l =>
      have hb : b.toNat < 256 := b.toNat_lt
      rw [List.take_succ_cons, ofLittleEndian_cons, ofLittleEndian_cons, ← ih, pow_succ',
        Nat.mod_mul, Nat.add_mul_mod_self_left, Nat.mod_eq_of_lt hb,
        Nat.add_mul_div_left _ _ (by decide), Nat.div_eq_of_lt hb, Nat.zero_add]

/-- **Bytes of one length** are read off their number. -/
theorem ofLittleEndian_inj {l l' : List UInt8} (hlength : l.length = l'.length)
    (h : ofLittleEndian l = ofLittleEndian l') : l = l' := by
  induction l generalizing l' with
  | nil => exact (List.length_eq_zero_iff.mp hlength.symm).symm
  | cons b l ih =>
    cases l' with
    | nil => cases hlength
    | cons b' l' =>
      have hb : b.toNat < 256 := b.toNat_lt
      have hb' : b'.toNat < 256 := b'.toNat_lt
      rw [ofLittleEndian_cons, ofLittleEndian_cons] at h
      have hhead : b = b' := UInt8.toNat_inj.mp (by omega)
      have htail : ofLittleEndian l = ofLittleEndian l' := by omega
      rw [hhead, ih (Nat.succ.inj hlength) htail]

/-! ## Decimal -/

/-- The digits `0` to `9`. -/
def isDigit (b : UInt8) : Bool := 48 ≤ b && b ≤ 57

/-- The decimal digits of a number. -/
def decimal (n : ℕ) : List UInt8 :=
  if n = 0 then [48] else ((Nat.digits 10 n).map fun d => UInt8.ofNat (48 + d)).reverse

/-- The number that digits stand for. -/
def ofDecimal (l : List UInt8) : ℕ := l.foldl (fun n b => n * 10 + (b.toNat - 48)) 0

/-- The decimal text of an integer. -/
def decimalInt (n : ℤ) : List UInt8 := if n < 0 then 45 :: decimal n.natAbs else decimal n.natAbs

theorem toNat_digit {d : ℕ} (hd : d < 10) : (UInt8.ofNat (48 + d)).toNat = 48 + d :=
  UInt8.toNat_ofNat_of_lt (show 48 + d < 256 by omega)

theorem decimal_ne_nil (n : ℕ) : decimal n ≠ [] := by
  unfold decimal
  split_ifs with hn
  · exact List.cons_ne_nil _ _
  · rw [Ne, List.reverse_eq_nil_iff, List.map_eq_nil_iff]
    exact Nat.digits_ne_nil_iff_ne_zero.mpr hn

theorem length_decimal_le {n k : ℕ} (hk : 0 < k) (hn : n < 10 ^ k) : (decimal n).length ≤ k := by
  unfold decimal
  split_ifs
  · exact hk
  · rw [List.length_reverse, List.length_map]
    exact (Nat.digits_length_le_iff (by decide) n).mpr hn

theorem length_decimalInt_le {n : ℤ} {k : ℕ} (hk : 0 < k) (hn : n.natAbs < 10 ^ k) :
    (decimalInt n).length ≤ k + 1 := by
  have hle := length_decimal_le hk hn
  unfold decimalInt
  split_ifs
  · exact Nat.succ_le_succ hle
  · omega

theorem isDigit_of_mem_decimal {n : ℕ} {b : UInt8} (h : b ∈ decimal n) : isDigit b = true := by
  unfold decimal at h
  split_ifs at h with hn
  · rw [List.mem_singleton.mp h]; rfl
  · rw [List.mem_reverse, List.mem_map] at h
    obtain ⟨d, hd, rfl⟩ := h
    have hlt : d < 10 := Nat.digits_lt_base (by decide) hd
    rw [isDigit, Bool.and_eq_true, decide_eq_true_iff, decide_eq_true_iff, UInt8.le_iff_toNat_le,
      UInt8.le_iff_toNat_le, toNat_digit hlt]
    exact ⟨Nat.le_add_right 48 d, Nat.add_le_add_left (Nat.le_of_lt_succ hlt) 48⟩

theorem ofDecimal_reverse_map (l : List ℕ) (hl : ∀ d ∈ l, d < 10) :
    ofDecimal (l.map fun d => UInt8.ofNat (48 + d)).reverse = Nat.ofDigits 10 l := by
  induction l with
  | nil => rfl
  | cons d l ih =>
    have hd : d < 10 := hl d List.mem_cons_self
    have ih := ih fun e he => hl e (List.mem_cons_of_mem d he)
    rw [ofDecimal] at ih ⊢
    rw [List.map_cons, List.reverse_cons, List.foldl_append, ih, List.foldl_cons, List.foldl_nil,
      toNat_digit hd, Nat.ofDigits_cons]
    omega

theorem ofDecimal_decimal (n : ℕ) : ofDecimal (decimal n) = n := by
  unfold decimal
  split_ifs with hn
  · rw [hn]; rfl
  · rw [ofDecimal_reverse_map _ fun d hd => Nat.digits_lt_base (by decide) hd, Nat.ofDigits_digits]

end Numeral
