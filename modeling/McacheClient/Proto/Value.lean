import McacheClient.Proto.Grammar

/-!
# VALUE lines

What `deserialize_value_resp` accepts, beside the grammar of the line.

* `IsValueLine`: the line `VALUE <key> <flags> <bytes> [<cas unique>]`, from its tokens;
* `Reading`: a line as the stream reads it, with signs, and anything after the size;
* `deserializeValueResp_reading`, `deserializeValueResp_unread`: a line is accepted exactly when
  there is a reading, which gives the response;
* `Reading.Clean`: the reading is one of the grammar, and the sizes do not wrap around;
* **`parsedExactly_iff`**: a line is parsed exactly when all its readings are clean.
-/

namespace McacheClient.Text

open Numeral Stream

/-- `VALUE <key> <flags> <bytes> [<cas unique>]`, the numbers in decimal. -/
def IsValueLine (line key : Bytes) (flags bytes : ℕ) (cas : Option ℕ) : Prop :=
  ∃ (flagsWord bytesWord : Bytes) (casWord : Option Bytes),
    tokens line = ascii "VALUE" :: key :: flagsWord :: bytesWord :: casWord.toList ∧
      readNat flagsWord = some flags ∧ readNat bytesWord = some bytes ∧
      casWord.map readNat = cas.map some

/-- A header is accepted only as a line of the grammar whose flags fit 32 bits, with its flags, cas
and size, and a body of the expected size gives the bytes before the footer; any other line that
starts with `VALUE` is an error. -/
def ParsedExactly (zlib : Zlib) (line : Bytes) : Prop :=
  ∀ p, deserializeHeader (retrieveKnown zlib) line = .ok p →
    (p.response.code = .ok → ∃ key flags bytes cas, IsValueLine line key flags bytes cas ∧
      flags < 2 ^ 32 ∧ p.response.flags.toNat = flags ∧ p.response.cas.toNat = cas.getD 0 ∧
      p.bytes.toNat = bytes + footerSize ∧ (compressed p.response.flags = false →
        ∀ body : Bytes, body.length = p.bytes.toNat →
          p.setBody p.response body = .ok { p.response with data := body.take bytes })) ∧
    (startsWith line "VALUE" = true →
      (¬∃ key flags bytes cas, IsValueLine line key flags bytes cas ∧ flags < 2 ^ 32) →
        p.response.toBool = false)

/-! ## Readings -/

/-- A line as the stream reads it: two words, and two numbers that fit their types. -/
structure Reading (line : Bytes) where
  name : Bytes
  afterName : Bytes
  key : Bytes
  afterKey : Bytes
  flagsSign : Bytes
  flags : Bytes
  afterFlags : Bytes
  bytesSign : Bytes
  bytes : Bytes
  rest : Bytes
  readsName : ReadsWord line name afterName
  readsKey : ReadsWord afterName key afterKey
  readsFlags : ReadsNumber afterKey flagsSign flags afterFlags
  flags_lt : ofDecimal flags < 2 ^ 32
  readsBytes : ReadsNumber afterFlags bytesSign bytes rest
  bytes_lt : ofDecimal bytes < 2 ^ 64

/-- The number that an unsigned type gets. -/
def signedNumber (width : ℕ) (sign digits : Bytes) : ℕ :=
  if sign = [45] then (2 ^ width - ofDecimal digits) % 2 ^ width else ofDecimal digits

/-- The response of a reading. -/
def Reading.pending (zlib : Zlib) {line : Bytes} (r : Reading line) : PendingResponse where
  response := {
    code := .ok
    flags := .ofNat (signedNumber 32 r.flagsSign r.flags)
    cas := .ofNat (extractUnsigned 64 r.rest).1 }
  bytes := .ofNat (signedNumber 64 r.bytesSign r.bytes + footerSize)
  setBody := retrieveSetBody zlib

theorem deserializeValueResp_reading (zlib : Zlib) {line : Bytes} (r : Reading line) :
    deserializeValueResp zlib line = r.pending zlib := by
  have hflags := extractUnsigned_iff.mpr ⟨_, _, r.readsFlags, r.flags_lt, rfl⟩
  have hbytes := extractUnsigned_iff.mpr ⟨_, _, r.readsBytes, r.bytes_lt, rfl⟩
  rw [deserializeValueResp, extractWord_iff.mpr r.readsName]
  simp only [extractWord_iff.mpr r.readsKey, hflags, hbytes]
  rfl

theorem deserializeValueResp_unread (zlib : Zlib) {line : Bytes} (h : IsEmpty (Reading line)) :
    (deserializeValueResp zlib line).response.code = .syntaxErr := by
  rw [deserializeValueResp]
  split
  · rfl
  rename_i name afterName hname
  split
  · rfl
  rename_i key afterKey hkey
  split
  · rfl
  rename_i flags afterFlags hflags
  split
  · rfl
  rename_i bytes rest hbytes
  obtain ⟨flagsSign, flagsDigits, readsFlags, flags_lt, -⟩ := extractUnsigned_iff.mp hflags
  obtain ⟨bytesSign, bytesDigits, readsBytes, bytes_lt, -⟩ := extractUnsigned_iff.mp hbytes
  exact h.elim {
    name, afterName, key, afterKey, flagsSign, flags := flagsDigits, afterFlags, bytesSign
    bytes := bytesDigits, rest, readsFlags, flags_lt, readsBytes, bytes_lt
    readsName := extractWord_iff.mp hname
    readsKey := extractWord_iff.mp hkey }

/-! ## Clean readings -/

/-- At most a cas follows the size. -/
def Trailer (rest : Bytes) : Prop :=
  Blank rest ∨ ∃ digits after, ReadsNumber rest [] digits after ∧ ofDecimal digits < 2 ^ 64 ∧
    Blank after

/-- The first word is `VALUE` itself, the numbers have no sign, the size leaves room for the
footer, and at most a cas follows it. -/
structure Reading.Clean {line : Bytes} (r : Reading line) : Prop where
  name : r.name = ascii "VALUE"
  flagsSign : r.flagsSign = []
  bytesSign : r.bytesSign = []
  bytes : ofDecimal r.bytes + footerSize < 2 ^ 64
  trailer : Trailer r.rest

theorem Trailer.exists_cas {rest : Bytes} (h : Trailer rest)
    (hrest : ∀ c ∈ rest.head?, isDigit c = false) :
    (∀ c ∈ rest.head?, isSpace c = true) ∧ ∃ (casWord : Option Bytes) (cas : Option ℕ),
      tokens rest = casWord.toList ∧ casWord.map readNat = cas.map some ∧
      (extractUnsigned 64 rest).1 = cas.getD 0 ∧ cas.getD 0 < 2 ^ 64 := by
  rcases h with hblank | ⟨digits, after, hnumber, hlt, hblank⟩
  · refine ⟨fun c hc => hblank c (List.mem_of_mem_head? hc), none, none, ?_, rfl, ?_, by decide⟩
    · exact tokens_eq_nil_iff.mpr hblank
    · rw [extractUnsigned_of_blank hblank]
      rfl
  · have hword := hnumber.word fun c hc => hblank c (List.mem_of_mem_head? hc)
    have hread := readNat_eq_some.mpr ⟨hnumber.ne_nil, hnumber.digits, rfl⟩
    refine ⟨hnumber.head?_isSpace hrest, some digits, some (ofDecimal digits), ?_, ?_, ?_, hlt⟩
    · rw [tokens_of_readsWord hword, tokens_eq_nil_iff.mpr hblank]
      rfl
    · rw [Option.map_some, hread]
      rfl
    · rw [extractUnsigned_of_readsNumber hnumber, if_neg (Nat.not_le.mpr hlt)]
      rfl

theorem Reading.Clean.isValueLine {line : Bytes} {r : Reading line} (h : r.Clean) :
    ∃ cas, IsValueLine line r.key (ofDecimal r.flags) (ofDecimal r.bytes) cas ∧
      (extractUnsigned 64 r.rest).1 = cas.getD 0 ∧ cas.getD 0 < 2 ^ 64 := by
  obtain ⟨hspace, casWord, cas, htokens, hread, hcas, hlt⟩ := h.trailer.exists_cas r.readsBytes.rest
  have readsFlags := r.readsFlags
  have readsBytes := r.readsBytes
  rw [h.flagsSign] at readsFlags
  rw [h.bytesSign] at readsBytes
  have hbytes := readsBytes.word hspace
  have hflags := readsFlags.word (readsBytes.head?_isSpace readsFlags.rest)
  refine ⟨cas, ⟨r.flags, r.bytes, casWord, ?_, ?_, ?_, hread⟩, hcas, hlt⟩
  · rw [tokens_of_readsWord r.readsName, tokens_of_readsWord r.readsKey, tokens_of_readsWord hflags,
      tokens_of_readsWord hbytes, htokens, h.name]
  · exact readNat_eq_some.mpr ⟨readsFlags.ne_nil, readsFlags.digits, rfl⟩
  · exact readNat_eq_some.mpr ⟨readsBytes.ne_nil, readsBytes.digits, rfl⟩

theorem Reading.Clean.pending {line : Bytes} {r : Reading line} (h : r.Clean) (zlib : Zlib) :
    ∃ cas, IsValueLine line r.key (ofDecimal r.flags) (ofDecimal r.bytes) cas ∧
      (r.pending zlib).response.flags.toNat = ofDecimal r.flags ∧
      (r.pending zlib).response.cas.toNat = cas.getD 0 ∧
      (r.pending zlib).bytes.toNat = ofDecimal r.bytes + footerSize := by
  obtain ⟨cas, hline, hcas, hlt⟩ := h.isValueLine
  refine ⟨cas, hline, ?_, ?_, ?_⟩
  · rw [Reading.pending, signedNumber, h.flagsSign]
    exact UInt32.toNat_ofNat_of_lt' r.flags_lt
  · rw [← hcas] at hlt ⊢
    exact UInt64.toNat_ofNat_of_lt' hlt
  · rw [Reading.pending, signedNumber, h.bytesSign]
    exact UInt64.toNat_ofNat_of_lt' h.bytes

theorem retrieveSetBody_take {zlib : Zlib} {response : Response} {body : Bytes} {n : ℕ}
    (hbody : body.length = n + footerSize) (hlt : n + footerSize < 2 ^ 64)
    (hcompress : compressed response.flags = false) :
    retrieveSetBody zlib response body = .ok { response with data := body.take n } := by
  have hcount := sub_footerSize hbody (hbody ▸ hlt)
  rw [retrieveSetBody]
  simp only [hcount, hcompress]
  rw [if_neg (by decide), if_neg (by omega)]

/-! ## Exactness -/

theorem code_ne_ok {zlib : Zlib} {line : Bytes} {p : PendingResponse}
    (h : startsWith line "VALUE" = false)
    (hp : deserializeHeader (retrieveKnown zlib) line = .ok p) : p.response.code ≠ .ok := by
  rw [deserializeHeader] at hp
  split_ifs at hp with hempty
  · cases hp
    decide
  · obtain rfl := Except.ok.inj hp
    rw [retrieveKnown, h]
    split_ifs with hend
    · exact nofun
    · exact absurd ‹_› (by decide)
    · rw [Option.getD_none, generalHeader]
      split_ifs <;> exact nofun

theorem clean_of_parsedExactly {zlib : Zlib} {line : Bytes} (h : ParsedExactly zlib line)
    (hstart : startsWith line "VALUE" = true) (r : Reading line) : r.Clean := by
  have hp := deserializeHeader_value zlib hstart
  rw [deserializeValueResp_reading zlib r] at hp
  obtain ⟨key, flags, bytes, cas, hline, -, -, hcas, hbytes, -⟩ := (h _ hp).1 rfl
  obtain ⟨flagsWord, bytesWord, casWord, htokens, hflagsWord, hbytesWord, hcasWord⟩ := hline
  obtain ⟨-, hflagsDigits, -⟩ := readNat_eq_some.mp hflagsWord
  obtain ⟨-, hbytesDigits, hbytesNat⟩ := readNat_eq_some.mp hbytesWord
  rw [tokens_of_readsWord r.readsName] at htokens
  obtain ⟨hname, htokens⟩ := List.cons.inj htokens
  rw [tokens_of_readsWord r.readsKey] at htokens
  obtain ⟨-, htokens⟩ := List.cons.inj htokens
  obtain ⟨hflagsSign, -, htokens⟩ := r.readsFlags.of_tokens htokens hflagsDigits
  obtain ⟨hbytesSign, hdigits, htokens⟩ := r.readsBytes.of_tokens htokens hbytesDigits
  refine ⟨hname, hflagsSign, hbytesSign, ?_, ?_⟩
  · rw [hdigits, hbytesNat, ← hbytes]
    exact UInt64.toNat_lt _
  · cases casWord with
    | none => exact .inl (tokens_eq_nil_iff.mp htokens)
    | some word =>
      obtain ⟨after, hword, hafter⟩ := readsWord_of_tokens htokens
      cases cas with
      | none => cases hcasWord
      | some c =>
        obtain ⟨-, hdigits, hc⟩ := readNat_eq_some.mp (Option.some.inj hcasWord)
        refine .inr ⟨word, after, hword.number hdigits, ?_, tokens_eq_nil_iff.mp hafter⟩
        have hc' : ofDecimal word = (r.pending zlib).response.cas.toNat := hc.trans hcas.symm
        rw [hc']
        exact UInt64.toNat_lt _

/-- **VALUE lines that are parsed exactly.** They are the ones of which the stream makes nothing
but what the grammar says. -/
theorem parsedExactly_iff (zlib : Zlib) (line : Bytes) :
    ParsedExactly zlib line ↔ (startsWith line "VALUE" = true → ∀ r : Reading line, r.Clean) := by
  constructor
  · exact fun h hstart r => clean_of_parsedExactly h hstart r
  intro h p hp
  cases hstart : startsWith line "VALUE" with
  | false => exact ⟨fun hcode => absurd hcode (code_ne_ok hstart hp), nofun⟩
  | true =>
    rw [deserializeHeader_value zlib hstart] at hp
    obtain rfl := Except.ok.inj hp
    by_cases hread : Nonempty (Reading line)
    · obtain ⟨r⟩ := hread
      have hclean := h hstart r
      obtain ⟨cas, hline, hflags, hcas, hbytes⟩ := hclean.pending zlib
      rw [deserializeValueResp_reading zlib r]
      refine ⟨fun _ => ⟨_, _, _, cas, hline, r.flags_lt, hflags, hcas, hbytes, ?_⟩, ?_⟩
      · intro hcompress body hbody
        exact retrieveSetBody_take (hbody.trans hbytes) hclean.bytes hcompress
      · exact fun _ hnot => absurd ⟨_, _, _, cas, hline, r.flags_lt⟩ hnot
    · have hcode := deserializeValueResp_unread zlib (not_nonempty_iff.mp hread)
      refine ⟨fun hok => ?_, fun _ _ => ?_⟩
      · rw [hcode] at hok
        cases hok
      · rw [Response.toBool, hcode]
        rfl

/-- The size of the line wraps around to one below the footer's. -/
theorem not_parsedExactly_hugeSize :
    ¬ParsedExactly .plain (ascii "VALUE k 0 18446744073709551615\r\n") := by
  intro h
  obtain ⟨_, _, bytes, _, -, -, -, -, hbytes, -⟩ := (h _ rfl).1 (by decide +kernel)
  have hsix : (deserializeValueResp .plain
      (ascii "VALUE k 0 18446744073709551615\r\n")).bytes.toNat = 6 := by decide +kernel
  have hfooter : bytes + footerSize = 6 := hbytes.symm.trans hsix
  unfold footerSize at hfooter
  omega

end McacheClient.Text
