import McacheClient.Lib.Numeral
import McacheClient.Error

/-!
# Compression

`zlib::compress` and `zlib::uncompress` over a parameter for the three functions of the library.

* `Zlib`, `Zlib.Lossless`: the functions, and what their documentation promises;
* `Zlib.Delimited`: what it promises about bytes that follow a stream;
* `Zlib.uncompress_append`: compressed data is found wherever it stands in a body;
* **`Zlib.uncompress_compress`**: what was compressed comes back, but for data of no bytes;
* **`Zlib.uncompress_stream`**: of several compressed data in a row only the first comes back.
-/

namespace McacheClient

open Numeral

/-- `compressBound`, `compress` and `uncompress`; the last two take the size of the output buffer
and give what they wrote, or nothing when they do not return `Z_OK`. -/
structure Zlib where
  compressBound : ℕ → ℕ
  compress' : ℕ → Bytes → Option Bytes
  uncompress' : ℕ → Bytes → Option Bytes

namespace Zlib

/-- The documented behaviour: the bound is enough for the data itself, a buffer is not overrun, and
`uncompress` into a buffer of the original size inverts `compress`. -/
structure Lossless (zlib : Zlib) : Prop where
  le_bound : ∀ n, n ≤ zlib.compressBound n
  length_le : ∀ {size data dst}, zlib.compress' size data = some dst → dst.length ≤ size
  inverts : ∀ {size data dst}, zlib.compress' size data = some dst →
    zlib.uncompress' data.length dst = some data

/-- Moreover, `uncompress` stops at the end of the stream, whatever follows it. -/
structure Delimited (zlib : Zlib) : Prop extends zlib.Lossless where
  stops : ∀ {size data dst} rest, zlib.compress' size data = some dst →
    zlib.uncompress' data.length (dst ++ rest) = some data

variable (zlib : Zlib)

/-- `zlib::compress`: the size of the data in host order, and the compressed data. -/
def compress (data : Bytes) : Except Exn Bytes :=
  let dstSize := zlib.compressBound data.length
  if dstSize > 4294967295 then .error (.mc .badRequest "too large data")
  else
    match zlib.compress' dstSize data with
    | none => .error (.mc .badRequest "zlib compress error")
    | some dst => .ok ((bigEndian 4 data.length).reverse ++ dst)

/-- `zlib::uncompress`. Reading a length prefix that is not there is undefined, and so is `dst[0]`
of a buffer of no bytes. -/
def uncompress (data : Bytes) (index count : ℕ) : Except Exn Bytes :=
  let srcSize := min (data.length - index) count
  if data.length < index + 4 ∨ srcSize < 4 then .error .undefined
  else
    let dstSize := ofBigEndian ((data.drop index).take 4).reverse
    if dstSize > 4294967295 then .error (.mc .badRequest "too large data")
    else if dstSize = 0 then .error .undefined
    else
      match zlib.uncompress' dstSize (((data.drop index).drop 4).take (srcSize - 4)) with
      | none => .error (.mc .badRequest "zlib uncompress error")
      | some dst => .ok dst

variable {zlib}

theorem compress_error {data : Bytes} {e : Exn} (h : zlib.compress data = .error e) :
    e.code = some ErrorCode.badRequest.value := by
  unfold compress at h
  simp only at h
  split_ifs at h
  · rw [← Except.error.inj h]; rfl
  · split at h
    · rw [← Except.error.inj h]; rfl
    · cases h

theorem compress_ok {data out : Bytes} (h : zlib.compress data = .ok out) :
    ∃ dst, zlib.compressBound data.length ≤ 4294967295 ∧
      zlib.compress' (zlib.compressBound data.length) data = some dst ∧
      out = (bigEndian 4 data.length).reverse ++ dst := by
  unfold compress at h
  simp only at h
  split_ifs at h with hbound
  split at h
  · cases h
  · exact ⟨_, Nat.not_lt.mp hbound, by assumption, (Except.ok.inj h).symm⟩

theorem uncompress_append (zlib : Zlib) (pre data post : Bytes) {count : ℕ}
    (hcount : min (data ++ post).length count = data.length) :
    zlib.uncompress (pre ++ data ++ post) pre.length count =
      zlib.uncompress data 0 data.length := by
  have hdrop : (pre ++ data ++ post).drop pre.length = data ++ post := by
    rw [List.append_assoc, List.drop_left]
  have hsize : min ((pre ++ data ++ post).length - pre.length) count = data.length := by
    rw [← List.length_drop, hdrop, hcount]
  have hlen : (pre ++ data ++ post).length = pre.length + data.length + post.length := by
    rw [List.length_append, List.length_append]
  simp only [uncompress, hdrop, hsize, List.drop_zero, Nat.sub_zero, min_self]
  by_cases hshort : data.length < 4
  · rw [if_pos (Or.inr hshort), if_pos (Or.inr hshort)]
  · have htake : (data ++ post).take 4 = data.take 4 :=
      List.take_append_of_le_length (Nat.not_lt.mp hshort)
    have hrest : ((data ++ post).drop 4).take (data.length - 4) =
        (data.drop 4).take (data.length - 4) := by
      rw [List.drop_append_of_le_length (Nat.not_lt.mp hshort)]
      exact List.take_append_of_le_length (by rw [List.length_drop])
    have hleft : ¬((pre ++ data ++ post).length < pre.length + 4 ∨ data.length < 4) := by omega
    have hright : ¬(data.length < 0 + 4 ∨ data.length < 4) := by omega
    rw [htake, hrest, if_neg hleft, if_neg hright]

theorem uncompress_sized (zlib : Zlib) {n : ℕ} (hn : n ≤ 4294967295) (src : Bytes) :
    zlib.uncompress ((bigEndian 4 n).reverse ++ src) 0 ((bigEndian 4 n).reverse ++ src).length =
      if n = 0 then .error .undefined
      else match zlib.uncompress' n src with
        | none => .error (.mc .badRequest "zlib uncompress error")
        | some dst => .ok dst := by
  have hlen : ((bigEndian 4 n).reverse ++ src).length = 4 + src.length := by
    rw [List.length_append, List.length_reverse, length_bigEndian]
  have htake : (((bigEndian 4 n).reverse ++ src).take 4).reverse = bigEndian 4 n := by
    rw [List.take_left' (by simp), List.reverse_reverse]
  have hrest : ((bigEndian 4 n).reverse ++ src).drop 4 = src :=
    List.drop_left' (by simp)
  have hdata : ofBigEndian (bigEndian 4 n) = n := by
    rw [ofBigEndian_bigEndian]
    exact Nat.mod_eq_of_lt (by omega)
  simp only [uncompress, hlen, List.drop_zero, Nat.sub_zero, min_self, htake, hrest, hdata]
  rw [if_neg (by omega), if_neg (by omega), Nat.add_sub_cancel_left, List.take_length]

/-- **What was compressed comes back**, if there was any. -/
theorem uncompress_compress (hz : zlib.Lossless) {data out : Bytes} (hne : data ≠ [])
    (h : zlib.compress data = .ok out) : zlib.uncompress out 0 out.length = .ok data := by
  obtain ⟨dst, hbound, hdst, rfl⟩ := compress_ok h
  rw [uncompress_sized zlib ((hz.le_bound _).trans hbound),
    if_neg (mt List.length_eq_zero_iff.mp hne), hz.inverts hdst]

/-- **Compressed data of no bytes** cannot be uncompressed, whatever follows it. -/
theorem uncompress_compress_nil {out : Bytes} (h : zlib.compress [] = .ok out) (rest : Bytes) :
    zlib.uncompress (out ++ rest) 0 (out ++ rest).length = .error .undefined := by
  obtain ⟨dst, -, -, rfl⟩ := compress_ok h
  rw [List.append_assoc, List.length_nil, uncompress_sized zlib (Nat.zero_le _), if_pos rfl]

/-- **What follows compressed data is not read.** -/
theorem uncompress_stream (hz : zlib.Delimited) {data out : Bytes} (hne : data ≠ [])
    (h : zlib.compress data = .ok out) (rest : Bytes) :
    zlib.uncompress (out ++ rest) 0 (out ++ rest).length = .ok data := by
  obtain ⟨dst, hbound, hdst, rfl⟩ := compress_ok h
  rw [List.append_assoc, uncompress_sized zlib ((hz.le_bound _).trans hbound),
    if_neg (mt List.length_eq_zero_iff.mp hne), hz.stops rest hdst]

/-- Functions that keep the data as it is, when it fits. -/
def plain : Zlib where
  compressBound n := n + 13
  compress' size data := if data.length ≤ size then some data else none
  uncompress' size data := if data.length ≤ size then some data else none

theorem lossless_plain : plain.Lossless where
  le_bound _ := Nat.le_add_right _ _
  length_le h := by
    simp only [plain, Option.ite_none_right_eq_some, Option.some.injEq] at h
    exact h.2 ▸ h.1
  inverts h := by
    simp only [plain, Option.ite_none_right_eq_some, Option.some.injEq] at h ⊢
    exact ⟨h.2 ▸ le_rfl, h.2.symm⟩

/-- Functions that keep the data as it is and read as many bytes as they are asked for. -/
def counted : Zlib where
  compressBound n := n + 13
  compress' size data := if data.length ≤ size then some data else none
  uncompress' size data := if size ≤ data.length then some (data.take size) else none

theorem delimited_counted : counted.Delimited where
  le_bound _ := Nat.le_add_right _ _
  length_le := lossless_plain.length_le
  inverts h := by
    simp only [counted, Option.ite_none_right_eq_some, Option.some.injEq] at h ⊢
    exact ⟨by rw [h.2], by rw [← h.2, List.take_length]⟩
  stops rest h := by
    simp only [counted, Option.ite_none_right_eq_some, Option.some.injEq] at h ⊢
    rw [← h.2, List.length_append, List.take_left]
    exact ⟨Nat.le_add_right _ _, rfl⟩

end Zlib

end McacheClient
