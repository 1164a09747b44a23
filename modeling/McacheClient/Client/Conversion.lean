import McacheClient.Client.Methods

/-!
# Conversions of integers

`cnv<integral_t>`: the text that a value of an integral type is stored as, and the value that is
read from a text.

* `Integral`: the types with a `format<>`, on a platform with 64-bit `long` and signed `char` and
  `wchar_t`;
* `Integral.cast`, `snprintf`: `static_cast`, and the text that fits a buffer;
* `Integral.write`, `Integral.read`: the two functions `as`;
* `write_eq`: a value is written as its decimal text;
* `read_uint64`: the function that reads a counter is the one of its type;
* **`survives_iff`**: it is read back exactly when it is below `2 ^ 63`.
-/

namespace McacheClient

open Numeral

/-- The integral types that have a `format<>`. -/
inductive Integral
  | bool | char | wchar
  | int8 | int16 | int32 | int64 | longLong
  | uint8 | uint16 | uint32 | uint64 | unsignedLongLong
  deriving DecidableEq

/-- The conversions of the format strings. -/
inductive Conversion
  | d | ld | lld | u | lu | llu
  deriving DecidableEq

namespace Integral

def sizeof : Integral → ℕ
  | bool | char | int8 | uint8 => 1
  | int16 | uint16 => 2
  | wchar | int32 | uint32 => 4
  | int64 | longLong | uint64 | unsignedLongLong => 8

def signed : Integral → Bool
  | char | wchar | int8 | int16 | int32 | int64 | longLong => true
  | bool | uint8 | uint16 | uint32 | uint64 | unsignedLongLong => false

def min (t : Integral) : ℤ := if t.signed then -2 ^ (8 * t.sizeof - 1) else 0

def max (t : Integral) : ℤ :=
  if t = bool then 1 else if t.signed then 2 ^ (8 * t.sizeof - 1) - 1 else 2 ^ (8 * t.sizeof) - 1

/-- The values of a type. -/
abbrev Value (t : Integral) : Type := { x : ℤ // t.min ≤ x ∧ x ≤ t.max }

/-- `format`. -/
def format : Integral → Conversion
  | bool | char | wchar | int8 | int16 | int32 => .d
  | int64 => .ld
  | longLong => .lld
  | uint8 | uint16 | uint32 => .u
  | uint64 => .lu
  | unsignedLongLong => .llu

/-- The number that `static_cast` gives: everything but 0 is true, and other types wrap around. -/
def wrap (t : Integral) (n : ℤ) : ℤ :=
  if t = bool then if n = 0 then 0 else 1 else (n - t.min) % 2 ^ (8 * t.sizeof) + t.min

theorem wrap_mem (t : Integral) (n : ℤ) : t.min ≤ t.wrap n ∧ t.wrap n ≤ t.max := by
  cases t <;> simp [wrap, min, max, sizeof, signed] <;> omega

/-- `static_cast`. -/
def cast (t : Integral) (n : ℤ) : t.Value := ⟨t.wrap n, t.wrap_mem n⟩

theorem wrap_of_mem {t : Integral} {n : ℤ} (h : t.min ≤ n ∧ n ≤ t.max) : t.wrap n = n := by
  revert h
  cases t <;> simp [wrap, min, max, sizeof, signed] <;> omega

end Integral

/-- The type of the argument that a conversion reads. -/
def Conversion.argument : Conversion → Integral
  | d => .int32
  | ld => .int64
  | lld => .longLong
  | u => .uint32
  | lu => .uint64
  | llu => .unsignedLongLong

/-- The text that `::snprintf` leaves in a buffer; one byte of it ends the text. -/
def snprintf (size : ℕ) (conversion : Conversion) (argument : ℤ) : Bytes :=
  (decimalInt (conversion.argument.cast argument)).take (size - 1)

namespace Integral

/-- `cnv<integral_t>::as` of a value. -/
def write (t : Integral) (x : t.Value) : Bytes := snprintf (4 * t.sizeof + 1) t.format x

/-- `cnv<integral_t>::as` of a text. -/
def read (t : Integral) (data : Bytes) : t.Value := t.cast (atoll data).toInt

theorem argument_format_mem {t : Integral} (x : t.Value) :
    t.format.argument.min ≤ (x : ℤ) ∧ (x : ℤ) ≤ t.format.argument.max := by
  obtain ⟨x, h⟩ := x
  revert h
  cases t <;> simp [format, Conversion.argument, min, max, sizeof, signed] <;> omega

theorem natAbs_lt (t : Integral) (x : t.Value) : (x : ℤ).natAbs < 10 ^ (4 * t.sizeof - 1) := by
  obtain ⟨x, h⟩ := x
  revert h
  cases t <;> simp [min, max, sizeof, signed] <;> omega

/-- **A value is written as its decimal text.** -/
theorem write_eq (t : Integral) (x : t.Value) : t.write x = decimalInt x := by
  have hsize : 0 < 4 * t.sizeof - 1 := by cases t <;> decide
  have hlen := length_decimalInt_le hsize (t.natAbs_lt x)
  have hcast : ((t.format.argument.cast x : ℤ)) = x := wrap_of_mem (argument_format_mem x)
  rw [write, snprintf, hcast, List.take_of_length_le (by omega)]

end Integral

/-! ## Reading back -/

theorem head?_decimal (n : ℕ) (rest : Bytes) :
    ∀ c ∈ (decimal n ++ rest).head?, isDigit c = true :=
  Stream.head?_append (decimal_ne_nil n) (fun _ => isDigit_of_mem_decimal) rest

theorem skipSpace_decimal (n : ℕ) (rest : Bytes) :
    Stream.skipSpace (decimal n ++ rest) = decimal n ++ rest :=
  Stream.skipSpace_append [] nofun fun c hc =>
    Stream.isSpace_of_isDigit (head?_decimal n rest c hc)

theorem takeWhile_decimal (n : ℕ) : (decimal n).takeWhile isDigit = decimal n :=
  List.takeWhile_eq_self_iff.mpr fun _ => isDigit_of_mem_decimal

theorem atoll_decimal (n : ℕ) : atoll (decimal n) = .ofInt (min n (2 ^ 63 - 1)) := by
  have hskip := skipSpace_decimal n []
  have hhead := head?_decimal n []
  rw [List.append_nil] at hskip hhead
  have hno : ∀ d : UInt8, isDigit d = false → (decimal n).head? ≠ some d :=
    fun d hd h => by rw [hhead d h] at hd; cases hd
  unfold atoll
  simp only [hskip]
  rw [if_neg (not_or.mpr ⟨hno 45 rfl, hno 43 rfl⟩), if_neg (hno 45 rfl), takeWhile_decimal,
    ofDecimal_decimal]

theorem atoll_minus (n : ℕ) : atoll (45 :: decimal n) = .ofInt (max (-n) (-2 ^ 63)) := by
  have hskip : Stream.skipSpace (45 :: decimal n) = 45 :: decimal n :=
    List.dropWhile_cons_of_neg (by decide)
  unfold atoll
  simp only [hskip, List.head?_cons, true_or, ↓reduceIte, List.tail_cons, takeWhile_decimal,
    ofDecimal_decimal]

/-- **`atoll` of the decimal text of an integer saturates.** -/
theorem toInt_atoll_decimalInt (n : ℤ) :
    (atoll (decimalInt n)).toInt = max (-2 ^ 63) (min n (2 ^ 63 - 1)) := by
  unfold decimalInt
  split_ifs with hn
  · rw [atoll_minus, Int64.toInt_ofInt_of_le (by omega) (by omega)]
    omega
  · rw [atoll_decimal, Int64.toInt_ofInt_of_le (by omega) (by omega)]
    omega

namespace Integral

theorem neg_two_pow_le (t : Integral) : -2 ^ 63 ≤ t.min := by
  cases t <;> decide

/-- A value is read back as itself or, above the range of `long long`, as the last number of it. -/
theorem read_write (t : Integral) (x : t.Value) :
    (t.read (t.write x) : ℤ) = Min.min (x : ℤ) (2 ^ 63 - 1) := by
  have hlow := t.neg_two_pow_le
  have hx := x.2
  rw [write_eq]
  show t.wrap (atoll (decimalInt x)).toInt = _
  have hclamp : Max.max (-2 ^ 63) (Min.min (x : ℤ) (2 ^ 63 - 1)) =
      Min.min (x : ℤ) (2 ^ 63 - 1) := by omega
  have hmin : t.min ≤ 2 ^ 63 - 1 := by cases t <;> decide
  rw [toInt_atoll_decimalInt, hclamp]
  exact wrap_of_mem ⟨le_min hx.1 hmin, (min_le_left _ _).trans hx.2⟩

/-- **A value is stored as its whole decimal text and read back** exactly when it is below
`2 ^ 63`. -/
theorem survives_iff (t : Integral) (x : t.Value) :
    (t.write x = decimalInt x ∧ t.read (t.write x) = x) ↔ (x : ℤ) < 2 ^ 63 := by
  rw [and_iff_right (t.write_eq x), ← Subtype.coe_inj, read_write]
  omega

/-- The least number that is not read back. -/
def aboveSigned : uint64.Value := ⟨9223372036854775808, by decide⟩

theorem not_survives_aboveSigned : uint64.write aboveSigned = ascii "9223372036854775808" ∧
    (uint64.read (uint64.write aboveSigned) : ℤ) = 9223372036854775807 ∧
    ¬(uint64.write aboveSigned = decimalInt aboveSigned ∧
      uint64.read (uint64.write aboveSigned) = aboveSigned) := by
  have hread : (uint64.read (uint64.write aboveSigned) : ℤ) = 9223372036854775807 := by
    rw [read_write]
    rfl
  refine ⟨rfl, hread, fun h => ?_⟩
  have hsame := h.2
  rw [← Subtype.coe_inj, hread] at hsame
  exact absurd hsame (by decide)

end Integral

end McacheClient
