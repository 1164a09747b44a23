import McacheClient.Proto.Binary
import Mathlib.Tactic.SplitIfs

/-!
# The bodies of binary responses

What the lengths in a header make of the body that is read after it.

* `Command.decode`: `deserialize_header`, and then `set_body`;
* `Contained`, `FitsBody`: a retrieve response that does not leave its body, and the relation of
  its lengths that it needs;
* **`contained_iff`**: a response is contained exactly when its flags, key and length prefix fit and
  the prefix of a compressed value is not 0;
* `CountsBytes`: a body that is copied to an integer has the bytes of one;
* **`countsBytes_iff`**: so it has, but for `touch`, which does not check the length.
-/

namespace McacheClient

/-- `deserialize_header` of a command, and then `set_body`. -/
def Command.decode (command : Command) (header body : Bytes) : Except Exn Response :=
  match command.deserializeHeader header with
  | .error e => .error e
  | .ok pending => pending.setBody pending.response body

namespace Binary

open Numeral

theorem exists_parse {header : Bytes} (h : header.length = 24) :
    ∃ hdr, Header.parse header = some hdr := by
  rw [Header.parse, if_neg (by omega)]
  exact ⟨_, rfl⟩

theorem toBool_translateStatus {status : UInt16} (h : status ≠ 0) (data : Bytes) (flags cas) :
    (Response.mk (translateStatusToResponse status) data flags cas).toBool = false := by
  have hne : status.toNat ≠ 0 := fun h0 => h (UInt16.toNat_inj.mp h0)
  unfold translateStatusToResponse Response.toBool
  split
  · contradiction
  all_goals simp [ResponseCode.value]

/-! ## Retrieve responses -/

/-- The flags of a body. -/
def bodyFlags (body : Bytes) : UInt32 := .ofNat (ofBigEndian (body.take 4))

/-- The header of a value: `deserialize_header` lets it pass. -/
def Expects (hdr : Header) : Prop :=
  hdr.magic = Header.responseMagic ∧ hdr.status = 0 ∧ hdr.extrasLen = 4

instance (hdr : Header) : Decidable (Expects hdr) := inferInstanceAs (Decidable (_ ∧ _))

/-- The flags, the key and the length prefix of a compressed value are inside the body. -/
def FitsBody (hdr : Header) (body : Bytes) : Prop :=
  4 ≤ body.length ∧
    4 + hdr.keyLen.toNat + (if compressed (bodyFlags body) then 4 else 0) ≤ body.length

instance (hdr : Header) (body : Bytes) : Decidable (FitsBody hdr body) :=
  inferInstanceAs (Decidable (_ ∧ _))

/-- The length prefix of a compressed value. -/
def lengthPrefix (hdr : Header) (body : Bytes) : ℕ :=
  ofBigEndian ((body.drop (4 + hdr.keyLen.toNat)).take 4).reverse

/-- Everything fits, and there is a buffer for the value when it is compressed. -/
def Decodable (hdr : Header) (body : Bytes) : Prop :=
  FitsBody hdr body ∧ (compressed (bodyFlags body) = true → lengthPrefix hdr body ≠ 0)

/-- An `mc::error_t`, an error response, or a response whose flags, key and value are read from
inside the body. -/
def Contained (hdr : Header) (body : Bytes) : Except Exn Response → Prop
  | .error e => e.code ≠ none
  | .ok response => response.toBool = false ∨
      (response.flags = bodyFlags body ∧ FitsBody hdr body)

theorem uncompress_of_le (zlib : Zlib) {data : Bytes} {index count : ℕ}
    (hdata : index + 4 ≤ data.length) (hcount : 4 ≤ count)
    (hsize : ofBigEndian ((data.drop index).take 4).reverse ≠ 0) :
    (∃ msg, zlib.uncompress data index count = .error (.mc .badRequest msg)) ∨
      ∃ dst, zlib.uncompress data index count = .ok dst := by
  have hlead : ¬(data.length < index + 4 ∨ min (data.length - index) count < 4) := by omega
  simp only [Zlib.uncompress, if_neg hlead, if_neg hsize]
  split_ifs with hlarge
  · exact Or.inl ⟨_, rfl⟩
  · split
    · exact Or.inl ⟨_, rfl⟩
    · exact Or.inr ⟨_, rfl⟩

theorem uncompress_of_zero (zlib : Zlib) {data : Bytes} {index count : ℕ}
    (hsize : ofBigEndian ((data.drop index).take 4).reverse = 0) :
    zlib.uncompress data index count = .error .undefined := by
  simp only [Zlib.uncompress, hsize]
  split_ifs <;> first | rfl | contradiction

theorem retrieveSetBody_of_decodable (zlib : Zlib) {hdr : Header} {body : Bytes}
    (h : Decodable hdr body) (response : Response) :
    (∃ msg, retrieveSetBody zlib hdr.keyLen response body = .error (.mc .badRequest msg)) ∨
      ∃ data, retrieveSetBody zlib hdr.keyLen response body =
        .ok { response with data, flags := bodyFlags body } := by
  obtain ⟨⟨hflags, hvalue⟩, hlead⟩ := h
  simp only [retrieveSetBody, if_neg (Nat.not_lt.mpr hflags)]
  by_cases hc : compressed (bodyFlags body) = true
  · rw [if_pos hc] at hvalue
    have hcompressed : compressed (UInt32.ofNat (ofBigEndian (body.take 4))) = true := hc
    rw [if_pos hcompressed]
    rcases uncompress_of_le zlib hvalue (show 4 ≤ npos by decide) (hlead hc) with
      ⟨msg, hmsg⟩ | ⟨dst, hdst⟩
    · exact Or.inl ⟨msg, by rw [hmsg]⟩
    · exact Or.inr ⟨dst, by rw [hdst]; rfl⟩
  · rw [if_neg hc] at hvalue
    have hplain : ¬compressed (UInt32.ofNat (ofBigEndian (body.take 4))) = true := hc
    rw [if_neg hplain, if_neg (by omega)]
    exact Or.inr ⟨_, rfl⟩

theorem retrieveSetBody_of_zero (zlib : Zlib) {hdr : Header} {body : Bytes}
    (hfits : FitsBody hdr body) (hc : compressed (bodyFlags body) = true)
    (hzero : lengthPrefix hdr body = 0) (response : Response) :
    retrieveSetBody zlib hdr.keyLen response body = .error .undefined := by
  have hcompressed : compressed (UInt32.ofNat (ofBigEndian (body.take 4))) = true := hc
  simp only [retrieveSetBody, if_neg (Nat.not_lt.mpr hfits.1), if_pos hcompressed,
    uncompress_of_zero zlib hzero]

theorem retrieveSetBody_of_not_fits (zlib : Zlib) {hdr : Header} {body : Bytes}
    (h : ¬FitsBody hdr body) (response : Response) :
    ∃ e, retrieveSetBody zlib hdr.keyLen response body = .error e ∧ e.code = none := by
  by_cases hflags : body.length < 4
  · exact ⟨.undefined, by rw [retrieveSetBody, if_pos hflags], rfl⟩
  simp only [retrieveSetBody, if_neg hflags]
  have hvalue : ¬4 + hdr.keyLen.toNat + (if compressed (bodyFlags body) then 4 else 0) ≤
      body.length := fun hle => h ⟨Nat.not_lt.mp hflags, hle⟩
  by_cases hc : compressed (bodyFlags body) = true
  · rw [if_pos hc] at hvalue
    have hcompressed : compressed (UInt32.ofNat (ofBigEndian (body.take 4))) = true := hc
    have hshort : body.length < 4 + hdr.keyLen.toNat + 4 := Nat.not_le.mp hvalue
    rw [if_pos hcompressed, Zlib.uncompress, if_pos (Or.inl hshort)]
    exact ⟨.undefined, rfl, rfl⟩
  · rw [if_neg hc] at hvalue
    have hplain : ¬compressed (UInt32.ofNat (ofBigEndian (body.take 4))) = true := hc
    rw [if_neg hplain, if_pos (by omega)]
    exact ⟨.outOfRange, rfl, rfl⟩

theorem retrieveSetBody_of_not_decodable (zlib : Zlib) {hdr : Header} {body : Bytes}
    (h : ¬Decodable hdr body) (response : Response) :
    ∃ e, retrieveSetBody zlib hdr.keyLen response body = .error e ∧ e.code = none := by
  by_cases hfits : FitsBody hdr body
  · obtain ⟨hc, hzero⟩ := Classical.not_imp.mp fun hlead => h ⟨hfits, hlead⟩
    exact ⟨.undefined, retrieveSetBody_of_zero zlib hfits hc (not_not.mp hzero) response, rfl⟩
  · exact retrieveSetBody_of_not_fits zlib hfits response

theorem contained_retrieveSetBody_iff (zlib : Zlib) (hdr : Header) (body : Bytes)
    (response : Response) :
    Contained hdr body (retrieveSetBody zlib hdr.keyLen response body) ↔ Decodable hdr body := by
  by_cases hdecodable : Decodable hdr body
  · refine iff_of_true ?_ hdecodable
    rcases retrieveSetBody_of_decodable zlib hdecodable response with ⟨msg, hmsg⟩ | ⟨data, hdata⟩
    · rw [hmsg]
      exact nofun
    · rw [hdata]
      exact Or.inr ⟨rfl, hdecodable.1⟩
  · refine iff_of_false ?_ hdecodable
    obtain ⟨e, he, hcode⟩ := retrieveSetBody_of_not_decodable zlib hdecodable response
    rw [he]
    exact fun h => h hcode

theorem code_of_retrieveSetBody_iff (zlib : Zlib) (hdr : Header) (body : Bytes)
    (response : Response) :
    (∀ e, retrieveSetBody zlib hdr.keyLen response body = .error e → e.code ≠ none) ↔
      Decodable hdr body := by
  rw [← contained_retrieveSetBody_iff zlib hdr body response]
  constructor
  · intro h
    by_contra hnot
    rw [contained_retrieveSetBody_iff] at hnot
    obtain ⟨e, he, hcode⟩ := retrieveSetBody_of_not_decodable zlib hnot response
    exact h e he hcode
  · intro h e he
    rw [he] at h
    exact h

section Retrieve

variable (zlib : Zlib) (code : UInt8) (key : Bytes) {header : Bytes} {hdr : Header}

theorem retrieve_expects (hparse : Header.parse header = some hdr) (h : Expects hdr) :
    (retrieveCommand zlib code key).deserializeHeader header = .ok {
      response := { code := .ok, flags := 0, cas := hdr.cas }
      bytes := hdr.bodyLen.toUInt64
      setBody := retrieveSetBody zlib hdr.keyLen } := by
  obtain ⟨hmagic, hstatus, hextras⟩ := h
  have hparsed := deserializeHeader_parse (retrieveSuccess zlib) hparse
  rw [if_neg (not_not_intro hmagic), if_pos hstatus, retrieveSuccess,
    if_neg (not_not_intro hextras)] at hparsed
  exact hparsed

theorem retrieve_not_expects (hparse : Header.parse header = some hdr) (h : ¬Expects hdr) :
    ∃ response bytes, (bytes = 0 ∨ bytes = hdr.bodyLen.toUInt64) ∧
      (∀ data, { response with data : Response }.toBool = false) ∧
      (retrieveCommand zlib code key).deserializeHeader header = .ok { response, bytes } := by
  have hparsed := deserializeHeader_parse (retrieveSuccess zlib) hparse
  split_ifs at hparsed with hmagic hstatus
  · exact ⟨_, 0, Or.inl rfl, fun _ => by simp [Response.toBool, ResponseCode.value], hparsed⟩
  · have hextras : hdr.extrasLen ≠ 4 := fun he => h ⟨not_not.mp hmagic, hstatus, he⟩
    rw [retrieveSuccess, if_pos hextras] at hparsed
    exact ⟨_, 0, Or.inl rfl, fun _ => by simp [Response.toBool, ResponseCode.value], hparsed⟩
  · exact ⟨_, _, Or.inr rfl, fun data => toBool_translateStatus hstatus data 0 0, hparsed⟩

theorem deserializeResponse_bytes {command : Command} {p : PendingResponse} {body rest : Bytes}
    {c : Connection} (hdelimiter : command.headerDelimiter = .count 24)
    (hheader : header.length = 24) (hp : command.deserializeHeader header = .ok p)
    (hbytes : p.bytes = 0 ∨ p.bytes.toNat = body.length)
    (hc : c.input = header ++ body ++ rest) : (deserializeResponse command c).1 =
      if p.bytes = 0 then .ok p.response else p.setBody p.response body := by
  have hread : c.read command.headerDelimiter = (.ok header, { c with input := body ++ rest }) := by
    rw [hdelimiter, ← hheader]
    exact read_count_append (hc.trans (List.append_assoc _ _ _))
  simp only [deserializeResponse, hread, hp]
  split_ifs with h0
  · rw [deserializeBody, if_pos h0]
  · have hsize := hbytes.resolve_left h0
    have hread : ({ c with input := body ++ rest } : Connection).read (.count p.bytes.toNat) =
        (.ok body, { c with input := rest }) := by
      rw [hsize]
      exact read_count_append rfl
    rw [deserializeBody, if_neg h0, hread]

/-- **A retrieve response is contained exactly when its lengths fit** and its value has a buffer, or
its header is refused; the parser does not ask for a body of no bytes. -/
theorem contained_iff (body : Bytes) (hheader : header.length = 24) :
    ∃ hdr, Header.parse header = some hdr ∧ (body.length = hdr.bodyLen.toNat →
      (Contained hdr body ((retrieveCommand zlib code key).decode header body) ↔
        (Expects hdr → Decodable hdr body)) ∧
      ∀ (c : Connection) (rest : Bytes), c.input = header ++ body ++ rest →
        ((∀ e, (deserializeResponse (retrieveCommand zlib code key) c).1 = .error e →
          e.code ≠ none) ↔ hdr.bodyLen = 0 ∨ (Expects hdr → Decodable hdr body))) := by
  obtain ⟨hdr, hparse⟩ := exists_parse hheader
  refine ⟨hdr, hparse, fun hbody => ?_⟩
  have hlen : hdr.bodyLen.toUInt64.toNat = body.length := by
    rw [hbody]
    exact UInt32.toNat_toUInt64 _
  by_cases hexp : Expects hdr
  · have hok := retrieve_expects zlib code key hparse hexp
    have hcond : (Expects hdr → Decodable hdr body) ↔ Decodable hdr body := forall_prop_of_true hexp
    rw [hcond]
    refine ⟨?_, fun c rest hc => ?_⟩
    · rw [Command.decode, hok]
      exact contained_retrieveSetBody_iff zlib hdr body _
    · rw [deserializeResponse_bytes rfl hheader hok (Or.inr hlen) hc]
      have hzero : hdr.bodyLen.toUInt64 = 0 ↔ hdr.bodyLen = 0 := by
        rw [← UInt64.toNat_inj, ← UInt32.toNat_inj, UInt32.toNat_toUInt64]
        rfl
      by_cases h0 : hdr.bodyLen = 0
      · rw [if_pos (hzero.mpr h0)]
        exact iff_of_true nofun (Or.inl h0)
      · rw [if_neg (mt hzero.mp h0), or_iff_right h0]
        exact code_of_retrieveSetBody_iff zlib hdr body _
  · obtain ⟨response, bytes, hbytes, hfail, hok⟩ := retrieve_not_expects zlib code key hparse hexp
    have hcond : Expects hdr → Decodable hdr body := fun h => absurd h hexp
    refine ⟨iff_of_true ?_ hcond, fun c rest hc => iff_of_true (fun e he => ?_) (Or.inr hcond)⟩
    · rw [Command.decode, hok]
      exact Or.inl (hfail body)
    · have hsize : bytes = 0 ∨ bytes.toNat = body.length := by
        rcases hbytes with rfl | rfl
        · exact Or.inl rfl
        · exact Or.inr hlen
      rw [deserializeResponse_bytes rfl hheader hok hsize hc] at he
      split_ifs at he
      cases he

end Retrieve

/-- A header that announces a key of ten bytes and a body with the flags alone. -/
def keyElsewhere : Header :=
  { magic := 0x81, keyLen := 10, extrasLen := 4, bodyLen := 4 }

/-- The body has the announced length, and `substr` throws `std::out_of_range`. -/
theorem not_contained_keyElsewhere : Header.parse keyElsewhere.bytes = some keyElsewhere ∧
    [0, 0, 0, 0].length = keyElsewhere.bodyLen.toNat ∧
    (retrieveCommand .plain 0x00 (ascii "k")).decode keyElsewhere.bytes [0, 0, 0, 0] =
      .error .outOfRange ∧
    ¬Contained keyElsewhere [0, 0, 0, 0]
      ((retrieveCommand .plain 0x00 (ascii "k")).decode keyElsewhere.bytes [0, 0, 0, 0]) := by
  have hdecode : (retrieveCommand .plain 0x00 (ascii "k")).decode keyElsewhere.bytes [0, 0, 0, 0] =
      .error .outOfRange := rfl
  refine ⟨keyElsewhere.parse_bytes [], rfl, hdecode, ?_⟩
  rw [hdecode]
  exact fun h => h rfl

/-- A value of one byte without its key. -/
def oneByte : Header := { magic := 0x81, keyLen := 0, extrasLen := 4, bodyLen := 5 }

theorem contained_iff_oneByte :
    Contained oneByte [0, 0, 0, 3, 118]
        ((retrieveCommand .plain 0x00 (ascii "k")).decode oneByte.bytes [0, 0, 0, 3, 118]) ↔
      (Expects oneByte → Decodable oneByte [0, 0, 0, 3, 118]) := by
  obtain ⟨hdr, hparse, h⟩ := contained_iff .plain 0x00 (ascii "k") [0, 0, 0, 3, 118]
    oneByte.length_bytes
  obtain rfl : oneByte = hdr := Option.some.inj ((oneByte.parse_bytes []).symm.trans hparse)
  exact (h rfl).1

/-! ## Bodies that are copied to an integer -/

/-- The commands whose responses share `incr_decr_command_t::set_body`. -/
inductive NumericCommand
  | incrDecr (code : UInt8) (key : Bytes) (value : UInt64) (opts : Opts)
  | touch (key : Bytes) (expiration : Int64)

namespace NumericCommand

def command : NumericCommand → Command
  | incrDecr code key value opts => incrDecrCommand code key value opts
  | touch key expiration => touchCommand key expiration

def success : NumericCommand → Header → PendingResponse
  | incrDecr .. => incrDecrSuccess
  | touch .. => touchSuccess

def isTouch : NumericCommand → Bool
  | incrDecr .. => false
  | touch .. => true

theorem deserializeHeader_eq (n : NumericCommand) :
    n.command.deserializeHeader = deserializeHeader n.success := by
  cases n <;> rfl

end NumericCommand

/-- A body that is read after an accepted header is copied to 8 bytes. -/
def CountsBytes (command : Command) (header : Bytes) : Prop :=
  ∀ p, command.deserializeHeader header = .ok p → p.response.toBool = true → p.bytes ≠ 0 →
    ∀ body : Bytes, body.length = p.bytes.toNat →
      body.length ≤ 8 ∧ ∃ response, p.setBody p.response body = .ok response

theorem incrDecrSetBody_of_le (response : Response) {body : Bytes} (h : body.length ≤ 8) :
    ∃ response', incrDecrSetBody response body = .ok response' := by
  rw [incrDecrSetBody, if_neg (Nat.not_lt.mpr h)]
  exact ⟨_, rfl⟩

theorem countsBytes_incrDecrSetBody_iff (response : Response) (bodyLen : UInt32) :
    (∀ body : Bytes, bodyLen.toUInt64 ≠ 0 → body.length = bodyLen.toUInt64.toNat →
      body.length ≤ 8 ∧ ∃ response', incrDecrSetBody response body = .ok response') ↔
      bodyLen ≤ 8 := by
  rw [UInt32.le_iff_toNat_le, UInt32.toNat_toUInt64]
  constructor
  · intro h
    by_cases h0 : bodyLen.toUInt64 = 0
    · have hlen := congrArg UInt64.toNat h0
      rw [UInt32.toNat_toUInt64] at hlen
      rw [hlen]
      exact Nat.zero_le 8
    · have hzeros := (h (List.replicate bodyLen.toNat 0) h0 List.length_replicate).1
      rwa [List.length_replicate] at hzeros
  · intro hle body _ hbody
    have hlen : body.length ≤ 8 := hbody.trans_le hle
    exact ⟨hlen, incrDecrSetBody_of_le response hlen⟩

/-- **The bytes of a counter are those of its integer; those of `touch` are as many as the server
says.** -/
theorem countsBytes_iff (n : NumericCommand) {header : Bytes} (hheader : header.length = 24) :
    ∃ hdr, Header.parse header = some hdr ∧ (hdr.status = 0 →
      (CountsBytes n.command header ↔
        (n.isTouch = true → hdr.magic = Header.responseMagic → hdr.bodyLen ≤ 8))) := by
  obtain ⟨hdr, hparse⟩ := exists_parse hheader
  refine ⟨hdr, hparse, fun hstatus => ?_⟩
  have hparsed := deserializeHeader_parse n.success hparse
  rw [CountsBytes, n.deserializeHeader_eq, hparsed]
  by_cases hmagic : hdr.magic = Header.responseMagic
  · rw [if_neg (not_not_intro hmagic), if_pos hstatus]
    have haccepted := countsBytes_incrDecrSetBody_iff (n.success hdr).response hdr.bodyLen
    cases n with
    | incrDecr code key value opts =>
      refine iff_of_true ?_ nofun
      rintro p hp hbool hbytes body hbody
      obtain rfl := Except.ok.inj hp
      simp only [NumericCommand.success, incrDecrSuccess] at *
      by_cases hlen : hdr.bodyLen = 8
      · simp only [hlen, ne_eq, not_true_eq_false, ↓reduceIte] at haccepted hbytes hbody ⊢
        exact haccepted.mpr (by decide) body hbytes hbody
      · rw [if_pos hlen] at hbool
        exact absurd hbool Bool.false_ne_true
    | touch key expiration =>
      rw [forall_prop_of_true (show NumericCommand.isTouch _ = true from rfl),
        forall_prop_of_true hmagic, ← haccepted]
      constructor
      · intro h body hbytes hbody
        have hbool : (touchSuccess hdr).response.toBool = true := by
          simp [Response.toBool, touchSuccess, ResponseCode.value]
        exact h _ rfl hbool hbytes body hbody
      · rintro h p hp - hbytes body hbody
        obtain rfl := Except.ok.inj hp
        exact h body hbytes hbody
  · rw [if_pos hmagic]
    refine iff_of_true ?_ fun _ h => absurd h hmagic
    rintro p hp hbool
    obtain rfl := Except.ok.inj hp
    exact absurd hbool Bool.false_ne_true

/-- The header of a touched item with a body of nine bytes. -/
def nineBytes : Header := { magic := 0x81, keyLen := 0, extrasLen := 0, bodyLen := 9 }

/-- The header is accepted, and the copy goes one byte past the integer. -/
theorem not_countsBytes_nineBytes : Header.parse nineBytes.bytes = some nineBytes ∧
    nineBytes.status = 0 ∧
    ((touchCommand (ascii "k") 0).decode nineBytes.bytes (List.replicate 9 0)) =
      .error .undefined ∧
    ¬CountsBytes (touchCommand (ascii "k") 0) nineBytes.bytes := by
  refine ⟨nineBytes.parse_bytes [], rfl, rfl, fun h => ?_⟩
  have hnine := h (touchSuccess nineBytes) rfl rfl (by decide) (List.replicate 9 0) rfl
  exact absurd hnine.1 (by decide)

theorem countsBytes_iff_nineBytes :
    CountsBytes (touchCommand (ascii "k") 0) nineBytes.bytes ↔
      (true = true → nineBytes.magic = Header.responseMagic → nineBytes.bodyLen ≤ 8) := by
  obtain ⟨hdr, hparse, h⟩ := countsBytes_iff (.touch (ascii "k") 0) nineBytes.length_bytes
  obtain rfl : nineBytes = hdr := Option.some.inj ((nineBytes.parse_bytes []).symm.trans hparse)
  exact h rfl

end Binary

end McacheClient
