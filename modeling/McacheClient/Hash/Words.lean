import McacheClient.Error
import McacheClient.Lib.Mixing
import McacheClient.Lib.Numeral

/-!
# Words of a message

What the hash functions read of a message, on a little-endian machine that allows unaligned reads.

* `byteAt`, `load32`, `load64`: a byte and the words from a position on;
* `rotl32`, `rotl64`: rotations;
* `rotl32_injective`, `xorShift_injective`, `mul_injective`: steps that lose nothing;
* `load32_injective`: words of four bytes each are different when the bytes are.
-/

namespace McacheClient

/-- `p8[i]`. -/
def byteAt (data : Bytes) (i : ℕ) : UInt8 := data.getD i 0

/-- The `uint32_t` at byte `i`. -/
def load32 (data : Bytes) (i : ℕ) : UInt32 :=
  UInt32.ofNat (Numeral.ofLittleEndian ((data.drop i).take 4))

/-- The `uint64_t` at byte `i`. -/
def load64 (data : Bytes) (i : ℕ) : UInt64 :=
  UInt64.ofNat (Numeral.ofLittleEndian ((data.drop i).take 8))

/-- `rotl32`, for `r` from 1 to 31. -/
def rotl32 (x : UInt32) (r : UInt32) : UInt32 := (x <<< r) ||| (x >>> (32 - r))

/-- `rotl64`, for `r` from 1 to 63. -/
def rotl64 (x : UInt64) (r : UInt64) : UInt64 := (x <<< r) ||| (x >>> (64 - r))

/-! ## Steps that lose nothing -/

theorem rotl32_injective {r : UInt32} (hpos : 0 < r.toNat) (hlt : r.toNat < 32) :
    Function.Injective fun x => rotl32 x r := by
  intro x y h
  have hr : (r.toBitVec % 32).toNat = r.toNat := by
    rw [BitVec.toNat_umod]
    exact Nat.mod_eq_of_lt hlt
  have hsub : (32 - r).toNat = 32 - r.toNat :=
    UInt32.toNat_sub_of_le _ _ (UInt32.le_iff_toNat_le.mpr hlt.le)
  have hback : ((32 - r).toBitVec % 32).toNat = 32 - r.toNat := by
    rw [BitVec.toNat_umod, UInt32.toNat_toBitVec, hsub]
    exact Nat.mod_eq_of_lt (show 32 - r.toNat < 32 by omega)
  have heq : ∀ z, (rotl32 z r).toBitVec =
      (z.toBitVec <<< r.toNat) ||| (z.toBitVec >>> (32 - r.toNat)) := by
    intro z
    rw [rotl32, UInt32.toBitVec_or, UInt32.toBitVec_shiftLeft, UInt32.toBitVec_shiftRight,
      BitVec.shiftLeft_eq', BitVec.ushiftRight_eq', hr, hback]
  have hbits := congrArg UInt32.toBitVec h
  rw [heq, heq] at hbits
  exact UInt32.toBitVec_inj.mp (BitVec.rotate_injective hlt.le hbits)

theorem xorShift_injective {k : UInt32} (hpos : 0 < k.toNat) (hlt : k.toNat < 32) :
    Function.Injective fun x : UInt32 => x ^^^ (x >>> k) := by
  intro x y h
  have hk : (k.toBitVec % 32).toNat = k.toNat := by
    rw [BitVec.toNat_umod]
    exact Nat.mod_eq_of_lt hlt
  have heq : ∀ z : UInt32,
      (z ^^^ (z >>> k)).toBitVec = z.toBitVec ^^^ (z.toBitVec >>> k.toNat) := by
    intro z
    rw [UInt32.toBitVec_xor, UInt32.toBitVec_shiftRight, BitVec.ushiftRight_eq', hk]
  have hbits := congrArg UInt32.toBitVec h
  rw [heq, heq] at hbits
  exact UInt32.toBitVec_inj.mp (BitVec.xor_ushiftRight_injective hpos hbits)

theorem mul_injective {c d : UInt32} (hc : c * d = 1) :
    Function.Injective fun x : UInt32 => x * c := by
  intro x y h
  calc x = x * c * d := by rw [UInt32.mul_assoc, hc, UInt32.mul_one]
    _ = y * c * d := congrArg (· * d) h
    _ = y := by rw [UInt32.mul_assoc, hc, UInt32.mul_one]

theorem toNat_load32 {data : Bytes} (h : data.length ≤ 4) :
    (load32 data 0).toNat = Numeral.ofLittleEndian data := by
  have hlt : Numeral.ofLittleEndian data < 4294967296 :=
    (Numeral.ofLittleEndian_lt data).trans_le (Nat.pow_le_pow_right (by decide) h)
  rw [load32, List.drop_zero, List.take_of_length_le h]
  exact UInt32.toNat_ofNat_of_lt' hlt

theorem load32_injective {data data' : Bytes} (h : data.length = 4) (h' : data'.length = 4)
    (heq : load32 data 0 = load32 data' 0) : data = data' := by
  apply Numeral.ofLittleEndian_inj (h.trans h'.symm)
  rw [← toNat_load32 h.le, ← toNat_load32 h'.le, heq]

end McacheClient
