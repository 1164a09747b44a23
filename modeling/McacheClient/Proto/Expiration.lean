import McacheClient.Proto.Api
import McacheClient.Proto.Decode
import McacheClient.Proto.Grammar

/-!
# The expiration on the wire

The text serializers write the whole count of an expiration, the binary ones its low 32 bits.

* `Request.exptime`: the count of a request that sets an expiration, and where it is written;
* `binaryExptime`, `textExptime`: the number that is read back;
* `ofBigEndian_expirationBytes_emod`: the binary number is the count modulo `2 ^ 32`;
* **`sameExpiration_iff`**: the two numbers agree exactly when the count is an unsigned 32-bit
  integer, or nothing is sent.
-/

namespace McacheClient

open Numeral

/-- The count of an expiration, and where the serializers put it: the offset in a binary packet and
the number of the word of a text line. -/
structure Exptime where
  count : ℤ
  offset : ℕ
  word : ℕ

/-- The expiration that set, add, replace, cas and touch send. -/
def Request.exptime : Request → Option Exptime
  | .storage name _ _ opts =>
    if Binary.hasExtras name then some ⟨opts.expiration.toInt, 28, 3⟩ else none
  | .touch _ expiration => some ⟨expiration.toNat, 24, 2⟩
  | _ => none

/-- The four bytes at an offset of a packet. -/
def binaryExptime (offset : ℕ) (bytes : Bytes) : ℤ := ofBigEndian ((bytes.drop offset).take 4)

/-- A word of a line, between single spaces. -/
def textExptime (word : ℕ) (bytes : Bytes) : Option ℤ :=
  ((bytes.takeWhile fun c => c != 13).splitOn 32)[word]?.bind Text.readInt

/-- Either serialization throws, or the server reads one number in both protocols; it is 0 for the
count 0 only. -/
def SameExpiration (zlib : Zlib) (request : Request) (exptime : Exptime) : Prop :=
  ∀ binary text, Api.binary.serialize zlib request = .ok binary →
    Api.text.serialize zlib request = .ok text →
    textExptime exptime.word text = some (binaryExptime exptime.offset binary) ∧
      (binaryExptime exptime.offset binary = 0 → exptime.count = 0)

/-- The constructor and the serializer do not throw. -/
def Accepted (zlib : Zlib) : Request → Prop
  | .storage _ key data opts => checkKey key = .ok () ∧ ∃ value, packed zlib data opts = .ok value
  | .touch key _ => checkKey key = .ok ()
  | _ => True

/-! ## The numbers on the wire -/

theorem ofBigEndian_expirationBytes_emod (expiration : Int64) :
    (ofBigEndian (Binary.expirationBytes expiration) : ℤ) = expiration.toInt % 2 ^ 32 := by
  have hint : expiration.toInt = if 2 * expiration.toUInt64.toNat < 2 ^ 64
      then (expiration.toUInt64.toNat : ℤ) else (expiration.toUInt64.toNat : ℤ) - 2 ^ 64 :=
    BitVec.toInt_eq_toNat_cond expiration.toBitVec
  rw [Binary.expirationBytes, ofBigEndian_bigEndian, UInt64.toNat_toUInt32, hint]
  split_ifs <;> omega

theorem textExptime_line {words : List Bytes} (hne : words ≠ [])
    (hw : ∀ w ∈ words, ∀ c ∈ w, c ≠ 13 ∧ c ≠ 32) (i : ℕ) (rest : Bytes) :
    textExptime i (Text.line words ++ rest) = words[i]?.bind Text.readInt := by
  have hcr : (13 : UInt8) ∉ [32].intercalate words := fun h => by
    rcases List.mem_intercalate h with h | ⟨w, hmem, h⟩
    · exact absurd h (by decide)
    · exact (hw w hmem 13 h).1 rfl
  have hline : (Text.line words ++ rest).takeWhile (fun c => c != 13) =
      [32].intercalate words := by
    rw [Text.line, List.append_assoc, List.takeWhile_append_of_pos]
    · simp [Text.crlf]
    · intro c hc
      simp only [bne_iff_ne, ne_eq]
      rintro rfl
      exact hcr hc
  rw [textExptime, hline, List.splitOn_intercalate 32 (fun w hmem h => (hw w hmem 32 h).2 rfl) hne]

theorem eq_emod_iff (count : ℤ) : count = count % 2 ^ 32 ↔ 0 ≤ count ∧ count < 2 ^ 32 := by
  omega

theorem toInt_toInt64_emod (expiration : UInt64) :
    expiration.toInt64.toInt % 2 ^ 32 = (expiration.toNat : ℤ) % 2 ^ 32 := by
  have hint : expiration.toInt64.toInt = if 2 * expiration.toNat < 2 ^ 64
      then (expiration.toNat : ℤ) else (expiration.toNat : ℤ) - 2 ^ 64 :=
    BitVec.toInt_eq_toNat_cond expiration.toBitVec
  rw [hint]
  split_ifs <;> omega

/-! ## The serializers -/

theorem not_cr_space_of_checkKey {key : Bytes} (h : checkKey key = .ok ()) :
    ∀ c ∈ key, c ≠ 13 ∧ c ≠ 32 := by
  by_cases hne : key = []
  · rw [hne]
    exact nofun
  · exact (Text.isWord_key h hne).2

theorem binaryExptime_append (hdr : Binary.Header) {pre : Bytes} {offset : ℕ}
    (hoffset : offset = 24 + pre.length) (expiration : Int64) (post : Bytes) :
    binaryExptime offset (hdr.bytes ++ (pre ++ Binary.expirationBytes expiration) ++ post) =
      expiration.toInt % 2 ^ 32 := by
  have hlen : (hdr.bytes ++ pre).length = offset := by
    rw [List.length_append, Binary.Header.length_bytes, hoffset]
  have hassoc : hdr.bytes ++ (pre ++ Binary.expirationBytes expiration) ++ post =
      hdr.bytes ++ pre ++ (Binary.expirationBytes expiration ++ post) := by
    simp only [List.append_assoc]
  rw [binaryExptime, hassoc, List.drop_left' hlen,
    List.take_left' (Binary.length_expirationBytes expiration),
    ofBigEndian_expirationBytes_emod]

section Serialize

variable {zlib : Zlib} {key : Bytes} (hkey : checkKey key = .ok ())
include hkey

theorem keyed_of_checkKey (hdr : Binary.Header) (extras data : Bytes) :
    Binary.keyed hdr extras key data = .ok (hdr.bytes ++ extras ++ (key ++ data)) := by
  rw [Binary.keyed, hkey, ← List.append_assoc]
  rfl

theorem binary_serialize_storage {name : StorageName} {data value : Bytes} {opts : Opts}
    (hvalue : packed zlib data opts = .ok value) (hextras : Binary.hasExtras name = true) :
    ∃ hdr : Binary.Header, Api.binary.serialize zlib (.storage name key data opts) =
      .ok (hdr.bytes ++ (bigEndian 4 opts.flags.toNat ++
        Binary.expirationBytes opts.expiration) ++ (key ++ value)) := by
  have hser : Api.binary.serialize zlib (.storage name key data opts) =
      (Binary.storageCommand (Binary.hasExtras name) (Binary.storageCode name) key value
        opts).serialize := by
    simp only [Api.serialize, Api.command, Binary.command, hvalue]
    rfl
  rw [hser, hextras]
  exact ⟨_, keyed_of_checkKey hkey _ _ _⟩

theorem binary_serialize_touch (expiration : UInt64) :
    ∃ hdr : Binary.Header, Api.binary.serialize zlib (.touch key expiration) =
      .ok (hdr.bytes ++ ([] ++ Binary.expirationBytes expiration.toInt64) ++ (key ++ [])) :=
  ⟨_, keyed_of_checkKey hkey _ _ _⟩

theorem text_serialize_storage (name : StorageName) {data value : Bytes} {opts : Opts}
    (hvalue : packed zlib data opts = .ok value) :
    Api.text.serialize zlib (.storage name key data opts) = .ok (Text.line (
      Text.storageName name :: key :: decimal opts.flags.toNat ::
        decimalInt opts.expiration.toInt :: decimal value.length ::
          if opts.cas ≠ 0 then [decimal opts.cas.toNat] else []) ++ (value ++ Text.crlf)) := by
  simp only [Api.serialize, Api.command, Text.command, hvalue, Text.storageCommand, Text.keyed,
    hkey, ← List.append_assoc]
  rfl

theorem text_serialize_touch (expiration : UInt64) :
    Api.text.serialize zlib (.touch key expiration) =
      .ok (Text.line [ascii "touch", key, decimal expiration.toNat] ++ []) := by
  simp only [Api.serialize, Api.command, Text.command, Text.incrDecrCommand, Text.keyed, hkey,
    List.append_nil]
  rfl

end Serialize

/-- **What the two protocols send** for an accepted request: the binary packet has the count modulo
`2 ^ 32`, the text line the whole count. -/
theorem serialize_exptime {zlib : Zlib} {request : Request} {exptime : Exptime}
    (h : request.exptime = some exptime) (haccepted : Accepted zlib request) :
    ∃ binary text, Api.binary.serialize zlib request = .ok binary ∧
      Api.text.serialize zlib request = .ok text ∧
      binaryExptime exptime.offset binary = exptime.count % 2 ^ 32 ∧
      textExptime exptime.word text = some exptime.count := by
  cases request with
  | storage name key data opts =>
    obtain ⟨hkey, value, hvalue⟩ := haccepted
    simp only [Request.exptime, Option.ite_none_right_eq_some, Option.some.injEq] at h
    obtain ⟨hextras, rfl⟩ := h
    obtain ⟨hdr, hbinary⟩ := binary_serialize_storage hkey hvalue hextras
    refine ⟨_, _, hbinary, text_serialize_storage hkey name hvalue, ?_, ?_⟩
    · exact binaryExptime_append hdr (by rw [length_bigEndian]) _ _
    · rw [textExptime_line (List.cons_ne_nil _ _)]
      · exact Text.readInt_decimalInt _
      · have hcas : ∀ w ∈ if opts.cas ≠ 0 then [decimal opts.cas.toNat] else [],
            ∀ c ∈ w, c ≠ 13 ∧ c ≠ 32 := by
          split_ifs
          · exact List.forall_mem_singleton.mpr (Text.isWord_decimal _).2
          · exact nofun
        simp only [List.forall_mem_cons]
        exact ⟨(Text.isWord_storageName name).2, not_cr_space_of_checkKey hkey,
          (Text.isWord_decimal _).2, (Text.isWord_decimalInt _).2, (Text.isWord_decimal _).2, hcas⟩
  | touch key expiration =>
    obtain rfl := Option.some.inj h
    obtain ⟨hdr, hbinary⟩ := @binary_serialize_touch zlib key haccepted expiration
    refine ⟨_, _, hbinary, text_serialize_touch haccepted expiration, ?_, ?_⟩
    · rw [← toInt_toInt64_emod]
      have hoffset : 24 = 24 + ([] : Bytes).length := rfl
      exact binaryExptime_append hdr hoffset expiration.toInt64 (key ++ [])
    · rw [textExptime_line (List.cons_ne_nil _ _)]
      · exact Text.readInt_decimalInt (expiration.toNat : ℤ)
      · have hname : Text.IsWord (ascii "touch") := by decide
        simp only [List.forall_mem_cons]
        exact ⟨hname.2, not_cr_space_of_checkKey haccepted, (Text.isWord_decimal _).2, nofun⟩
  | retrieve | counter | delete | flushAll => cases h

theorem accepted_of_serialize {zlib : Zlib} {request : Request} {bytes : Bytes}
    (h : Api.text.serialize zlib request = .ok bytes) : Accepted zlib request := by
  cases request with
  | storage name key data opts =>
    simp only [Api.serialize, Api.command, Text.command] at h
    cases hvalue : packed zlib data opts with
    | error e =>
      rw [hvalue] at h
      cases h
    | ok value =>
      rw [hvalue] at h
      exact ⟨(Text.keyed_ok h).1, value, hvalue⟩
  | touch key expiration => exact (Text.keyed_ok h).1
  | retrieve | counter | delete | flushAll => trivial

/-- **The two numbers agree exactly when the count is an unsigned 32-bit integer.** -/
theorem sameExpiration_iff (zlib : Zlib) {request : Request} {exptime : Exptime}
    (h : request.exptime = some exptime) : SameExpiration zlib request exptime ↔
      (Accepted zlib request → 0 ≤ exptime.count ∧ exptime.count < 2 ^ 32) := by
  rw [← eq_emod_iff]
  constructor
  · intro hsame haccepted
    obtain ⟨binary, text, hbinary, htext, hlow, hcount⟩ := serialize_exptime h haccepted
    have hequal := (hsame binary text hbinary htext).1
    rw [hlow, hcount] at hequal
    exact Option.some.inj hequal
  · intro hcount binary text hbinary htext
    have haccepted := accepted_of_serialize htext
    obtain ⟨binary', text', hbinary', htext', hlow, hword⟩ := serialize_exptime h haccepted
    obtain rfl : binary' = binary := Except.ok.inj (hbinary'.symm.trans hbinary)
    obtain rfl : text' = text := Except.ok.inj (htext'.symm.trans htext)
    rw [hlow, hword, ← hcount haccepted]
    exact ⟨rfl, id⟩

/-- An item that is to live for `2 ^ 32` seconds. -/
def longLived : Request := .storage .set (ascii "k") (ascii "v") { expiration := 4294967296 }

/-- It is sent as one that never expires. -/
theorem not_sameExpiration_longLived : longLived.exptime = some ⟨4294967296, 28, 3⟩ ∧
    ∃ binary text, Api.binary.serialize .plain longLived = .ok binary ∧
      Api.text.serialize .plain longLived = .ok text ∧
      textExptime 3 text = some 4294967296 ∧ binaryExptime 28 binary = 0 ∧
      ¬SameExpiration .plain longLived ⟨4294967296, 28, 3⟩ := by
  obtain ⟨binary, text, hbinary, htext, hlow, hcount⟩ :=
    @serialize_exptime .plain longLived _ rfl ⟨rfl, ascii "v", rfl⟩
  refine ⟨rfl, binary, text, hbinary, htext, hcount, hlow, fun h => ?_⟩
  have hzero : binaryExptime 28 binary = 0 := hlow
  exact absurd ((h binary text hbinary htext).2 hzero) (by decide)

/-- An item that is to live for a minute. -/
def shortLived : Request := .storage .set (ascii "k") (ascii "v") { expiration := 60 }

theorem sameExpiration_iff_shortLived : SameExpiration .plain shortLived ⟨60, 28, 3⟩ ↔
    (Accepted .plain shortLived → (0 : ℤ) ≤ 60 ∧ (60 : ℤ) < 2 ^ 32) :=
  @sameExpiration_iff .plain shortLived _ rfl

end McacheClient
