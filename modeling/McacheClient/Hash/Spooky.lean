import McacheClient.Hash.Words
import McacheClient.Lib.Blocks

/-!
# Spooky

`SpookyHash`: the hash of a message in one call, and of a message that comes in pieces.

* `mix`, `endPartial`, `endMix`, `shortMix`, `shortEnd`: the mixing steps;
* `short`, `hash128`, `hash32`, `spooky`: a message in one call;
* `SpookyHash`, `update`, `final`: a message in pieces, of which the object keeps up to 191 bytes;
* **`run_init`**: every `final` gives the hash of the pieces so far, concatenated, and no call
  writes outside the buffer.
-/

namespace McacheClient.Spooky

/-! ## Mixing -/

/-- The internal state: `sc_numVars` words. -/
abbrev Vars : Type := Vector UInt64 12

/-- `sc_blockSize`. -/
abbrev scBlockSize : ℕ := 96

/-- `sc_bufSize`. -/
abbrev scBufSize : ℕ := 192

def scConst : UInt64 := 0xdeadbeefdeadbeef

/-- The rotations of `Mix`, line by line. -/
def mixRotations : Vector UInt64 12 := #v[11, 32, 43, 31, 17, 28, 39, 57, 55, 54, 22, 46]

/-- An assignment to variable `i`. -/
def Vars.put (s : Vars) (i : Fin 12) (x : UInt64) : Vars := s.set i x

/-- Line `i` of `Mix`; the indices wrap around. -/
def mixLine (data : Bytes) (s : Vars) (i : Fin 12) : Vars :=
  let s := s.put i (s[i] + load64 data (8 * i))
  let s := s.put (i + 2) (s[i + 2] ^^^ s[i + 10])
  let s := s.put (i + 11) (s[i + 11] ^^^ s[i])
  let s := s.put i (rotl64 s[i] mixRotations[i])
  s.put (i + 11) (s[i + 11] + s[i + 1])

/-- `Mix`. -/
def mix (s : Vars) (data : Bytes) : Vars := (List.finRange 12).foldl (mixLine data) s

/-- The rotations of `EndPartial`, line by line. -/
def endRotations : Vector UInt64 12 := #v[44, 15, 34, 21, 38, 33, 10, 13, 38, 53, 42, 54]

/-- Line `i` of `EndPartial`; the indices wrap around. -/
def endLine (h : Vars) (i : Fin 12) : Vars :=
  let h := h.put (i + 11) (h[i + 11] + h[i + 1])
  let h := h.put (i + 2) (h[i + 2] ^^^ h[i + 11])
  h.put (i + 1) (rotl64 h[i + 1] endRotations[i])

/-- `EndPartial`. -/
def endPartial (h : Vars) : Vars := (List.finRange 12).foldl endLine h

/-- `End`. -/
def endMix (h : Vars) (data : Bytes) : Vars :=
  endPartial (endPartial (endPartial (Vector.ofFn fun i => h[i] + load64 data (8 * i))))

/-- The four words of a short message. -/
structure ShortVars where
  h0 : UInt64
  h1 : UInt64
  h2 : UInt64
  h3 : UInt64

/-- `ShortMix`. -/
def shortMix : ShortVars → ShortVars
  | ⟨h0, h1, h2, h3⟩ =>
    let h2 := rotl64 h2 50; let h2 := h2 + h3; let h0 := h0 ^^^ h2
    let h3 := rotl64 h3 52; let h3 := h3 + h0; let h1 := h1 ^^^ h3
    let h0 := rotl64 h0 30; let h0 := h0 + h1; let h2 := h2 ^^^ h0
    let h1 := rotl64 h1 41; let h1 := h1 + h2; let h3 := h3 ^^^ h1
    let h2 := rotl64 h2 54; let h2 := h2 + h3; let h0 := h0 ^^^ h2
    let h3 := rotl64 h3 48; let h3 := h3 + h0; let h1 := h1 ^^^ h3
    let h0 := rotl64 h0 38; let h0 := h0 + h1; let h2 := h2 ^^^ h0
    let h1 := rotl64 h1 37; let h1 := h1 + h2; let h3 := h3 ^^^ h1
    let h2 := rotl64 h2 62; let h2 := h2 + h3; let h0 := h0 ^^^ h2
    let h3 := rotl64 h3 34; let h3 := h3 + h0; let h1 := h1 ^^^ h3
    let h0 := rotl64 h0 5; let h0 := h0 + h1; let h2 := h2 ^^^ h0
    let h1 := rotl64 h1 36; let h1 := h1 + h2; let h3 := h3 ^^^ h1
    ⟨h0, h1, h2, h3⟩

/-- `ShortEnd`. -/
def shortEnd : ShortVars → ShortVars
  | ⟨h0, h1, h2, h3⟩ =>
    let h3 := h3 ^^^ h2; let h2 := rotl64 h2 15; let h3 := h3 + h2
    let h0 := h0 ^^^ h3; let h3 := rotl64 h3 52; let h0 := h0 + h3
    let h1 := h1 ^^^ h0; let h0 := rotl64 h0 26; let h1 := h1 + h0
    let h2 := h2 ^^^ h1; let h1 := rotl64 h1 51; let h2 := h2 + h1
    let h3 := h3 ^^^ h2; let h2 := rotl64 h2 28; let h3 := h3 + h2
    let h0 := h0 ^^^ h3; let h3 := rotl64 h3 9; let h0 := h0 + h3
    let h1 := h1 ^^^ h0; let h0 := rotl64 h0 47; let h1 := h1 + h0
    let h2 := h2 ^^^ h1; let h1 := rotl64 h1 54; let h2 := h2 + h1
    let h3 := h3 ^^^ h2; let h2 := rotl64 h2 32; let h3 := h3 + h2
    let h0 := h0 ^^^ h3; let h3 := rotl64 h3 25; let h0 := h0 + h3
    let h1 := h1 ^^^ h0; let h0 := rotl64 h0 63; let h1 := h1 + h0
    ⟨h0, h1, h2, h3⟩

/-! ## One call -/

/-- Half a block of `Short`. -/
def shortHalf (v : ShortVars) (data : Bytes) : ShortVars :=
  shortMix { v with h2 := v.h2 + load64 data 0, h3 := v.h3 + load64 data 8 }

/-- A block of 32 bytes of `Short`. -/
def shortBlock (v : ShortVars) (data : Bytes) : ShortVars :=
  let v := shortHalf v data
  { v with h0 := v.h0 + load64 data 16, h1 := v.h1 + load64 data 24 }

/-- Byte `i` shifted, when there are that many bytes: a case that falls through. -/
def fallThrough (data : Bytes) (i : ℕ) (shift x : UInt64) : UInt64 :=
  if i < data.length then x + (byteAt data i).toUInt64 <<< shift else x

/-- The last 0 to 15 bytes of `Short`. -/
def shortTail (v : ShortVars) (data : Bytes) : ShortVars :=
  if 12 ≤ data.length then
    let h3 := fallThrough data 14 48 v.h3
    let h3 := fallThrough data 13 40 h3
    let h3 := fallThrough data 12 32 h3
    { v with h2 := v.h2 + load64 data 0, h3 := h3 + (load32 data 8).toUInt64 }
  else if 8 ≤ data.length then
    let h3 := fallThrough data 10 16 v.h3
    let h3 := fallThrough data 9 8 h3
    let h3 := fallThrough data 8 0 h3
    { v with h2 := v.h2 + load64 data 0, h3 }
  else if 4 ≤ data.length then
    let h2 := fallThrough data 6 48 v.h2
    let h2 := fallThrough data 5 40 h2
    let h2 := fallThrough data 4 32 h2
    { v with h2 := h2 + (load32 data 0).toUInt64 }
  else if 1 ≤ data.length then
    let h2 := fallThrough data 2 16 v.h2
    let h2 := fallThrough data 1 8 h2
    { v with h2 := fallThrough data 0 0 h2 }
  else { v with h2 := v.h2 + scConst, h3 := v.h3 + scConst }

/-- `Short`. -/
def short (message : Bytes) (hash1 hash2 : UInt64) : UInt64 × UInt64 :=
  let v : ShortVars := ⟨hash1, hash2, scConst, scConst⟩
  let v := List.foldBlocks shortBlock 32 (message.length / 32) v message
  let rest := message.drop (message.length / 32 * 32)
  let (v, rest) := if 16 ≤ rest.length then (shortHalf v rest, rest.drop 16) else (v, rest)
  let v := { v with h3 := v.h3 + UInt64.ofNat message.length <<< 56 }
  let v := shortEnd (shortTail v rest)
  (v.h0, v.h1)

/-- The state that a long message starts from. -/
def start (hash1 hash2 : UInt64) : Vars :=
  #v[hash1, hash2, scConst, hash1, hash2, scConst, hash1, hash2, scConst, hash1, hash2, scConst]

/-- The last partial block: filled with zeros, and its length in the last byte. -/
def lastBlock (rest : Bytes) : Bytes :=
  (rest ++ List.replicate (scBlockSize - rest.length) 0).set (scBlockSize - 1)
    (UInt8.ofNat rest.length)

/-- `Hash128`. -/
def hash128 (message : Bytes) (hash1 hash2 : UInt64) : UInt64 × UInt64 :=
  if message.length < scBufSize then short message hash1 hash2
  else
    let count := message.length / scBlockSize
    let h := List.foldBlocks mix scBlockSize count (start hash1 hash2) message
    let h := endMix h (lastBlock (message.drop (count * scBlockSize)))
    (h[0], h[1])

/-- `Hash32`. -/
def hash32 (message : Bytes) (seed : UInt32) : UInt32 :=
  (hash128 message seed.toUInt64 seed.toUInt64).1.toUInt32

/-- `mc::spooky`. -/
def spooky (str : Bytes) (seed : UInt32) : UInt32 := hash32 str seed

end McacheClient.Spooky

namespace McacheClient

open Spooky

/-! ## A message in pieces -/

/-- The object: `m_data` keeps the `m_remainder` bytes that were not mixed yet. -/
structure SpookyHash where
  mData : Bytes
  mState : Vars
  mLength : UInt64
  mRemainder : UInt8
  length_mData : mData.length = scBufSize

namespace SpookyHash

/-- `Init` on an object with any contents. -/
def init (s : SpookyHash) (seed1 seed2 : UInt64) : SpookyHash :=
  { s with mState := (s.mState.put 0 seed1).put 1 seed2, mLength := 0, mRemainder := 0 }

/-- `memcpy` of a piece to `m_data`; a write past its end is undefined. -/
def memcpy (s : SpookyHash) (start : ℕ) (piece : Bytes) : Option SpookyHash :=
  if h : start + piece.length ≤ scBufSize then
    some { s with
      mData := s.mData.take start ++ piece ++ s.mData.drop (start + piece.length)
      length_mData := by
        have := s.length_mData
        rw [List.length_append, List.length_append, List.length_take, List.length_drop]
        omega }
  else none

/-- The variables of a long message at its first whole buffer or later. -/
def loadVars (s : SpookyHash) : Vars :=
  if s.mLength < 192 then start s.mState[0] s.mState[1] else s.mState

/-- `Update`, without the buffer: all whole blocks from `message` on, and the bytes after them. -/
def blocks (s : SpookyHash) (h : Vars) (message : Bytes) : Option SpookyHash :=
  let count := message.length / scBlockSize
  let h := List.foldBlocks mix scBlockSize count h message
  let rest := message.drop (count * scBlockSize)
  { s with mState := h, mRemainder := UInt8.ofNat rest.length }.memcpy 0 rest

/-- `Update`. -/
def update (s : SpookyHash) (message : Bytes) : Option SpookyHash :=
  let length := UInt64.ofNat message.length
  let newLength := length + s.mRemainder.toUInt64
  if newLength < 192 then do
    let s ← s.memcpy s.mRemainder.toNat message
    some { s with mLength := length + s.mLength, mRemainder := newLength.toUInt8 }
  else do
    let h := s.loadVars
    let s := { s with mLength := length + s.mLength }
    if s.mRemainder ≠ 0 then
      let stashed := (192 - s.mRemainder).toNat
      let piece ← message.slice? 0 stashed
      let s ← s.memcpy s.mRemainder.toNat piece
      s.blocks (List.foldBlocks mix scBlockSize 2 h s.mData) (message.drop stashed)
    else s.blocks h message

/-- The end of `Final`: the last partial block is at position `data` of the buffer. -/
def finish (s : SpookyHash) (h : Vars) (data : ℕ) (remainder : UInt8) :
    Option ((UInt64 × UInt64) × SpookyHash) := do
  let zeros := List.replicate (scBlockSize - remainder.toNat) 0
  let s ← s.memcpy (data + remainder.toNat) zeros
  let s ← s.memcpy (data + (scBlockSize - 1)) [remainder]
  let h := endMix h ((s.mData.drop data).take scBlockSize)
  some ((h[0], h[1]), s)

/-- `Final`: it writes to the part of the buffer that is not in use. -/
def final (s : SpookyHash) : Option ((UInt64 × UInt64) × SpookyHash) :=
  if s.mLength < 192 then
    some (short (s.mData.take s.mLength.toNat) s.mState[0] s.mState[1], s)
  else if 96 ≤ s.mRemainder then
    s.finish (mix s.mState (s.mData.take scBlockSize)) scBlockSize (s.mRemainder - 96)
  else s.finish s.mState 0 s.mRemainder

/-! ## Sequences of calls -/

inductive Call
  | update (message : Bytes)
  | final

/-- The hashes that the calls of `Final` give. -/
def run : List Call → SpookyHash → Option (List (UInt64 × UInt64) × SpookyHash)
  | [], s => some ([], s)
  | .update message :: calls, s => (s.update message).bind (run calls)
  | .final :: calls, s =>
    s.final.bind fun (hash, s) => (run calls s).map fun (hashes, s) => (hash :: hashes, s)

/-- The pieces, concatenated. -/
def message : List Call → Bytes
  | [] => []
  | .update piece :: calls => piece ++ message calls
  | .final :: calls => message calls

/-- The hash of all pieces so far, at every `Final`; `sofar` are those before the calls. -/
def hashes (seed1 seed2 : UInt64) : Bytes → List Call → List (UInt64 × UInt64)
  | _, [] => []
  | sofar, .update piece :: calls => hashes seed1 seed2 (sofar ++ piece) calls
  | sofar, .final :: calls => hash128 sofar seed1 seed2 :: hashes seed1 seed2 sofar calls

/-! ## What an object stands for -/

section Represents

variable {seed1 seed2 : UInt64} {m message : Bytes} {s : SpookyHash}

/-- An object after the pieces `m`: the whole blocks that were mixed, and the stashed bytes. -/
structure Represents (seed1 seed2 : UInt64) (m : Bytes) (s : SpookyHash) : Prop where
  length : s.mLength.toNat = m.length
  seeds : m.length < 192 → s.mState[0] = seed1 ∧ s.mState[1] = seed2
  stashed : m.length < 192 → s.mData.take s.mRemainder.toNat = m
  absorbed : List.Absorbed mix 96 (start seed1 seed2) m s.loadVars
    (s.mData.take s.mRemainder.toNat)
  remainder_lt : s.mRemainder.toNat < 192

theorem memcpy_eq (s : SpookyHash) (start : ℕ) (piece : Bytes) (h : start + piece.length ≤ 192) :
    ∃ s', s.memcpy start piece = some s' ∧ s'.mState = s.mState ∧ s'.mLength = s.mLength ∧
      s'.mRemainder = s.mRemainder ∧
      s'.mData = s.mData.take start ++ piece ++ s.mData.drop (start + piece.length) :=
  ⟨_, dif_pos h, rfl, rfl, rfl, rfl⟩

theorem init_seeds (s : SpookyHash) (seed1 seed2 : UInt64) :
    (s.init seed1 seed2).mState[0] = seed1 ∧ (s.init seed1 seed2).mState[1] = seed2 := by
  simp [init, Vars.put]

theorem represents_init (s : SpookyHash) (seed1 seed2 : UInt64) :
    Represents seed1 seed2 [] (s.init seed1 seed2) where
  length := rfl
  seeds _ := init_seeds s seed1 seed2
  stashed _ := rfl
  absorbed := by
    have hvars : (s.init seed1 seed2).loadVars = start seed1 seed2 := by
      obtain ⟨h1, h2⟩ := init_seeds s seed1 seed2
      rw [loadVars, h1, h2]
      rfl
    rw [hvars]
    exact List.Absorbed.init mix 96 (start seed1 seed2) []
  remainder_lt := show 0 < 192 by decide

theorem Represents.length_take (h : Represents seed1 seed2 m s) :
    (s.mData.take s.mRemainder.toNat).length = s.mRemainder.toNat :=
  List.length_take_of_le (h.remainder_lt.le.trans s.length_mData.ge)

theorem Represents.remainder_le (h : Represents seed1 seed2 m s) :
    s.mRemainder.toNat ≤ m.length := by
  have := h.absorbed.length_le
  rwa [h.length_take] at this

theorem loadVars_of_lt (h : Represents seed1 seed2 m s) (hm : m.length < 192) :
    s.loadVars = start seed1 seed2 := by
  have hlt : s.mLength < 192 := UInt64.lt_iff_toNat_lt.mpr (by rw [h.length]; exact hm)
  rw [loadVars, if_pos hlt, (h.seeds hm).1, (h.seeds hm).2]

theorem loadVars_of_le {n : ℕ} (h : s.mLength.toNat = n) (hn : 192 ≤ n) :
    s.loadVars = s.mState := by
  have hge : ¬s.mLength < 192 := fun hlt => by
    have : s.mLength.toNat < 192 := UInt64.lt_iff_toNat_lt.mp hlt
    omega
  rw [loadVars, if_neg hge]

theorem blocks_represents {h : Vars} (hrep : List.Absorbed mix 96 (start seed1 seed2) m h message)
    (hm : 192 ≤ m.length) (hlength : s.mLength.toNat = m.length) :
    ∃ s', s.blocks h message = some s' ∧ Represents seed1 seed2 m s' := by
  have hcount : message.length / 96 * 96 ≤ message.length := Nat.div_mul_le_self _ _
  have hrest : (message.drop (message.length / 96 * 96)).length < 96 := by
    rw [List.length_drop]
    omega
  obtain ⟨s', hcopy, hstate, hlength', hremainder, hdata⟩ :=
    memcpy_eq { s with
      mState := List.foldBlocks mix 96 (message.length / 96) h message
      mRemainder := UInt8.ofNat (message.drop (message.length / 96 * 96)).length }
      0 (message.drop (message.length / 96 * 96)) (by omega)
  have hlength' : s'.mLength.toNat = m.length := by rw [hlength']; exact hlength
  have hremainder : s'.mRemainder.toNat = (message.drop (message.length / 96 * 96)).length := by
    rw [hremainder]
    exact UInt8.toNat_ofNat_of_lt' (hrest.trans (by decide))
  refine ⟨s', hcopy, hlength', fun hlt => by omega, fun hlt => by omega, ?_, by omega⟩
  rw [loadVars_of_le hlength' hm, hstate, hremainder, hdata, List.take_zero, List.nil_append,
    List.take_left]
  exact hrep.blocks hcount

theorem Represents.toNat_newLength (h : Represents seed1 seed2 m s)
    (hsize : (m ++ message).length < 18446744073709551616) :
    (UInt64.ofNat message.length + s.mRemainder.toUInt64).toNat =
        message.length + s.mRemainder.toNat ∧
      (UInt64.ofNat message.length + s.mLength).toNat = (m ++ message).length := by
  have hle := h.remainder_le
  rw [List.length_append] at hsize ⊢
  rw [UInt64.toNat_add, UInt64.toNat_add, UInt64.toNat_ofNat', UInt8.toNat_toUInt64, h.length]
  omega

/-- A piece that fits is stuffed away. -/
theorem Represents.update_small (h : Represents seed1 seed2 m s)
    (hsize : (m ++ message).length < 18446744073709551616)
    (hlt : message.length + s.mRemainder.toNat < 192) :
    ∃ s', s.update message = some s' ∧ Represents seed1 seed2 (m ++ message) s' := by
  obtain ⟨hnew, hlength⟩ := h.toNat_newLength hsize
  have hle := h.remainder_le
  have happend : (m ++ message).length = m.length + message.length := List.length_append
  have hif : UInt64.ofNat message.length + s.mRemainder.toUInt64 < 192 :=
    UInt64.lt_iff_toNat_lt.mpr (by rw [hnew]; exact hlt)
  rw [SpookyHash.update]
  obtain ⟨t, hcopy, hstate, hlength', -, hdata⟩ :=
    memcpy_eq s s.mRemainder.toNat message (by omega)
  simp only [if_pos hif, hcopy]
  rw [← hlength'] at hlength
  have htake : t.mData.take (message.length + s.mRemainder.toNat) =
      s.mData.take s.mRemainder.toNat ++ message := by
    rw [hdata, List.take_left']
    rw [List.length_append, h.length_take, Nat.add_comm]
  have hr : ((UInt64.ofNat message.length + s.mRemainder.toUInt64).toUInt8).toNat =
      message.length + s.mRemainder.toNat := by
    rw [UInt64.toNat_toUInt8, hnew]
    exact Nat.mod_eq_of_lt (hlt.trans (by decide))
  refine ⟨_, rfl, hlength, fun hm => ?_, fun hm => ?_, ?_, ?_⟩
  · exact hstate ▸ h.seeds (by omega)
  · rw [hr, htake, h.stashed (by omega)]
  · rw [hr, htake]
    have hvars := h.absorbed.append message
    by_cases hm : m.length < 192
    · have hall : (m ++ message).length < 192 := by
        have hstashed := congrArg List.length (h.stashed hm)
        rw [h.length_take] at hstashed
        omega
      rw [loadVars_of_lt h hm] at hvars
      have hlong : UInt64.ofNat message.length + t.mLength < 192 :=
        UInt64.lt_iff_toNat_lt.mpr (by rw [hlength]; exact hall)
      rw [loadVars, if_pos hlong, hstate, (h.seeds hm).1, (h.seeds hm).2]
      exact hvars
    · rw [loadVars_of_le h.length (by omega)] at hvars
      rw [loadVars_of_le hlength (by omega), hstate]
      exact hvars
  · rw [hr]
    exact hlt

/-- Of a longer one the whole blocks are mixed. -/
theorem Represents.update_large (h : Represents seed1 seed2 m s)
    (hsize : (m ++ message).length < 18446744073709551616)
    (hlt : ¬message.length + s.mRemainder.toNat < 192) :
    ∃ s', s.update message = some s' ∧ Represents seed1 seed2 (m ++ message) s' := by
  obtain ⟨hnew, hlength⟩ := h.toNat_newLength hsize
  have hremainder := h.remainder_lt
  have hle := h.remainder_le
  have happend : (m ++ message).length = m.length + message.length := List.length_append
  have hif : ¬UInt64.ofNat message.length + s.mRemainder.toUInt64 < 192 := fun hif => by
    have := UInt64.lt_iff_toNat_lt.mp hif
    rw [hnew] at this
    exact hlt this
  have hm : 192 ≤ (m ++ message).length := by omega
  rw [SpookyHash.update, if_neg hif]
  by_cases hr : s.mRemainder = 0
  · have hempty : s.mData.take s.mRemainder.toNat = [] := by rw [hr]; rfl
    have hvars := h.absorbed.append message
    rw [hempty] at hvars
    simp only [hr, ne_eq, not_true_eq_false, if_false]
    exact blocks_represents (s := { s with mLength := _ }) hvars hm hlength
  · have hstash : (192 - s.mRemainder).toNat = 192 - s.mRemainder.toNat := by
      rw [UInt8.toNat_sub_of_le]
      · rfl
      · exact UInt8.le_iff_toNat_le.mpr hremainder.le
    have hslice : message.slice? 0 (192 - s.mRemainder.toNat) =
        some (message.take (192 - s.mRemainder.toNat)) :=
      List.slice?_eq_some (by omega)
    have hpiece :
        s.mRemainder.toNat + (message.take (192 - s.mRemainder.toNat)).length = 192 := by
      rw [List.length_take_of_le (by omega)]
      omega
    obtain ⟨t, hcopy, -, hlength', -, hdata⟩ :=
      memcpy_eq { s with mLength := UInt64.ofNat message.length + s.mLength }
        s.mRemainder.toNat (message.take (192 - s.mRemainder.toNat)) hpiece.le
    have hbuffer : t.mData = s.mData.take s.mRemainder.toNat ++
        message.take (192 - s.mRemainder.toNat) := by
      rw [hdata, hpiece, List.drop_eq_nil_of_le s.length_mData.le, List.append_nil]
    have hrest : s.mData.take s.mRemainder.toNat ++ message =
        t.mData ++ message.drop (192 - s.mRemainder.toNat) := by
      rw [hbuffer, List.append_assoc, List.take_append_drop]
    have hvars := h.absorbed.append message
    rw [hrest] at hvars
    have hsize : t.mData.length = 192 := t.length_mData
    have hmixed := hvars.blocks (k := 2) (by rw [List.length_append]; omega)
    rw [List.foldBlocks_append_left hsize.ge, List.drop_left' hsize] at hmixed
    simp only [ne_eq, hr, not_false_eq_true, if_true, hstash, hslice, Option.bind_eq_bind,
      Option.bind_some, hcopy]
    exact blocks_represents hmixed hm (by rw [hlength']; exact hlength)

/-- **`Update`** appends a piece. -/
theorem Represents.update (h : Represents seed1 seed2 m s)
    (hsize : (m ++ message).length < 18446744073709551616) :
    ∃ s', s.update message = some s' ∧ Represents seed1 seed2 (m ++ message) s' := by
  by_cases hlt : message.length + s.mRemainder.toNat < 192
  · exact h.update_small hsize hlt
  · exact h.update_large hsize hlt

theorem replicate_zeros {n : ℕ} (h : n < 96) :
    List.replicate (96 - n) (0 : UInt8) = List.replicate (95 - n) 0 ++ [0] := by
  rw [← List.replicate_succ']
  congr 1
  omega

theorem lastBlock_eq {rest : Bytes} (h : rest.length < 96) : lastBlock rest =
    rest ++ List.replicate (95 - rest.length) 0 ++ [UInt8.ofNat rest.length] := by
  have hlength : (rest ++ List.replicate (95 - rest.length) (0 : UInt8)).length = 95 := by
    rw [List.length_append, List.length_replicate]
    omega
  rw [lastBlock, replicate_zeros h, ← List.append_assoc]
  change List.set _ 95 _ = _
  rw [List.set_append_right _ _ hlength.le, hlength]
  rfl

/-- The part of the buffer that `Final` fills becomes the last block. -/
theorem exists_lastBlock (s : SpookyHash) {data : ℕ} {remainder : UInt8} (hdata : data + 96 ≤ 192)
    (hremainder : remainder.toNat < 96) : ∃ t s',
      s.memcpy (data + remainder.toNat) (List.replicate (96 - remainder.toNat) 0) = some t ∧
        t.memcpy (data + (96 - 1)) [remainder] = some s' ∧ s'.mState = s.mState ∧
        s'.mLength = s.mLength ∧ s'.mRemainder = s.mRemainder ∧
        s'.mData.take (data + remainder.toNat) = s.mData.take (data + remainder.toNat) ∧
        (s'.mData.drop data).take 96 =
          lastBlock ((s.mData.take (data + remainder.toNat)).drop data) := by
  have hsize : s.mData.length = 192 := s.length_mData
  obtain ⟨t, ht, htstate, htlength, htremainder, htdata⟩ :=
    memcpy_eq s (data + remainder.toNat) (List.replicate (96 - remainder.toNat) 0)
      (by rw [List.length_replicate]; omega)
  obtain ⟨s', hs', hstate, hlength, hremainder', hdata'⟩ :=
    memcpy_eq t (data + 95) [remainder] (by rw [List.length_singleton]; omega)
  generalize hused : s.mData.take (data + remainder.toNat) = used at htdata
  have hused : used.length = data + remainder.toNat := by
    rw [← hused]
    exact List.length_take_of_le (by omega)
  have hfilled : (used ++ List.replicate (95 - remainder.toNat) 0).length = data + 95 := by
    rw [List.length_append, List.length_replicate]
    omega
  rw [htdata, replicate_zeros hremainder, ← List.append_assoc, List.append_assoc (_ ++ _),
    List.take_left' hfilled] at hdata'
  have hrest : (used.drop data).length = remainder.toNat := by
    rw [List.length_drop]
    omega
  refine ⟨t, s', ht, hs', hstate.trans htstate, hlength.trans htlength,
    hremainder'.trans htremainder, ?_, ?_⟩
  · rw [hdata', List.append_assoc, List.append_assoc, List.take_left' hused]
  · rw [hdata', lastBlock_eq (by omega), hrest, UInt8.ofNat_toNat]
    rw [List.append_assoc, List.append_assoc, List.drop_append_of_le_length (by omega),
      ← List.append_assoc, ← List.append_assoc, List.take_left']
    rw [List.length_append, List.length_append, hrest, List.length_replicate,
      List.length_singleton]
    omega

theorem Represents.finish (h : Represents seed1 seed2 m s) (hm : 192 ≤ m.length) {v : Vars}
    {data : ℕ} {remainder : UInt8} (hdata : data + 96 ≤ 192) (hlt : remainder.toNat < 96)
    (hremainder : data + remainder.toNat = s.mRemainder.toNat)
    (hvars : List.Absorbed mix 96 (start seed1 seed2) m v
      ((s.mData.take s.mRemainder.toNat).drop data)) :
    ∃ s', s.finish v data remainder = some (hash128 m seed1 seed2, s') ∧
      Represents seed1 seed2 m s' := by
  obtain ⟨t, s', ht, hs', hstate, hlength, hremainder', htake, hblock⟩ :=
    exists_lastBlock s hdata hlt
  rw [hremainder] at htake hblock
  have hrest : ((s.mData.take s.mRemainder.toNat).drop data).length < 96 := by
    rw [List.length_drop, h.length_take]
    omega
  obtain ⟨hfold, hdrop⟩ := hvars.finish hrest
  have hlength' : s'.mLength.toNat = m.length := by rw [hlength, h.length]
  refine ⟨s', ?_, hlength', fun hlt => by omega, fun hlt => by omega, ?_, ?_⟩
  · simp only [SpookyHash.finish, scBlockSize, ht, hs', Option.bind_eq_bind, Option.bind_some]
    rw [hblock, hdrop, hfold, hash128, if_neg (Nat.not_lt.mpr hm)]
  · rw [hremainder', htake, loadVars_of_le hlength' hm, hstate, ← loadVars_of_le h.length hm]
    exact h.absorbed
  · rw [hremainder']
    exact h.remainder_lt

/-- **`Final`** gives the hash of the pieces, and the object stands for the same ones. -/
theorem Represents.final (h : Represents seed1 seed2 m s) :
    ∃ s', s.final = some (hash128 m seed1 seed2, s') ∧ Represents seed1 seed2 m s' := by
  have hremainder := h.remainder_lt
  rw [SpookyHash.final]
  by_cases hm : m.length < 192
  · have hif : s.mLength < 192 := UInt64.lt_iff_toNat_lt.mpr (by rw [h.length]; exact hm)
    have hstashed := h.stashed hm
    have hr : s.mRemainder.toNat = s.mLength.toNat := by
      have := congrArg List.length hstashed
      rwa [h.length_take, ← h.length] at this
    rw [hr] at hstashed
    rw [if_pos hif, hstashed, (h.seeds hm).1, (h.seeds hm).2, hash128, if_pos hm]
    exact ⟨s, rfl, h⟩
  · have hif : ¬s.mLength < 192 := fun hif => by
      have := UInt64.lt_iff_toNat_lt.mp hif
      rw [h.length] at this
      exact hm this
    rw [if_neg hif]
    have hvars := h.absorbed
    rw [loadVars_of_le h.length (by omega)] at hvars
    by_cases hr : 96 ≤ s.mRemainder
    · -- a whole block is left, and a part
      have hr' : 96 ≤ s.mRemainder.toNat := UInt8.le_iff_toNat_le.mp hr
      have hsub : (s.mRemainder - 96).toNat = s.mRemainder.toNat - 96 := by
        rw [UInt8.toNat_sub_of_le _ _ hr]
        rfl
      have hmixed := hvars.blocks (k := 1) (by rw [h.length_take]; omega)
      rw [List.foldBlocks, List.foldBlocks, List.take_take, min_eq_left hr'] at hmixed
      rw [if_pos hr]
      have hlt : (s.mRemainder - 96).toNat < 96 := by omega
      have hsum : 96 + (s.mRemainder - 96).toNat = s.mRemainder.toNat := by omega
      exact h.finish (Nat.not_lt.mp hm) le_rfl hlt hsum hmixed
    · rw [if_neg hr]
      have hr' : s.mRemainder.toNat < 96 := by
        by_contra hge
        exact hr (UInt8.le_iff_toNat_le.mpr (Nat.not_lt.mp hge))
      exact h.finish (Nat.not_lt.mp hm) (show 0 + 96 ≤ 192 by decide) hr' (Nat.zero_add _) hvars

/-! ## Runs -/

theorem run_represents (calls : List Call) (h : Represents seed1 seed2 m s)
    (hsize : (m ++ SpookyHash.message calls).length < 18446744073709551616) :
    ∃ s', run calls s = some (hashes seed1 seed2 m calls, s') ∧
      Represents seed1 seed2 (m ++ SpookyHash.message calls) s' := by
  induction calls generalizing m s with
  | nil => exact ⟨s, rfl, by rwa [SpookyHash.message, List.append_nil]⟩
  | cons call calls ih =>
    cases call with
    | update piece =>
      rw [SpookyHash.message, ← List.append_assoc] at hsize ⊢
      have hpiece : (m ++ piece).length < 18446744073709551616 := by
        rw [List.length_append] at hsize
        omega
      obtain ⟨t, hupdate, ht⟩ := h.update hpiece
      obtain ⟨s', hrun, hs'⟩ := ih ht hsize
      exact ⟨s', by rw [run, hupdate, Option.bind_some, hrun, hashes], hs'⟩
    | final =>
      rw [SpookyHash.message] at hsize ⊢
      obtain ⟨t, hfinal, ht⟩ := h.final
      obtain ⟨s', hrun, hs'⟩ := ih ht hsize
      refine ⟨s', ?_, hs'⟩
      simp only [run, hfinal, Option.bind_some, hrun, Option.map_some, hashes]

end Represents

/-- **Every `Final` gives the hash of all pieces so far**, as one message, wherever the pieces are
cut and whatever calls of `Final` come between them; no call writes outside the buffer. -/
theorem run_init (s : SpookyHash) (seed1 seed2 : UInt64) (calls : List Call)
    (hsize : (message calls).length < 18446744073709551616) :
    ∃ s', run calls (s.init seed1 seed2) = some (hashes seed1 seed2 [] calls, s') := by
  obtain ⟨s', hrun, -⟩ := run_represents calls (represents_init s seed1 seed2) hsize
  exact ⟨s', hrun⟩

/-- An object with zeros. -/
def zeros : SpookyHash := ⟨List.replicate 192 0, .replicate 12 0, 0, 0, List.length_replicate⟩

/-- Two pieces that the buffer does not hold together. -/
def firstPiece : Bytes := List.replicate 150 107

def secondPiece : Bytes := List.replicate 100 121

theorem run_init_twoPieces :
    ∃ s', run [.update firstPiece, .final, .update secondPiece, .final] (zeros.init 1 2) =
      some ([hash128 firstPiece 1 2, hash128 (firstPiece ++ secondPiece) 1 2], s') := by
  have hsize : (message [.update firstPiece, .final, .update secondPiece, .final]).length <
      18446744073709551616 := by
    have hfirst : firstPiece.length = 150 := List.length_replicate
    have hsecond : secondPiece.length = 100 := List.length_replicate
    rw [message, message, message, message, message, List.append_nil, List.length_append, hfirst,
      hsecond]
    decide
  exact run_init zeros 1 2 _ hsize

end SpookyHash

end McacheClient
