import McacheClient.Proto.Api
import McacheClient.Proto.Grammar

/-!
# Stored values come back

A server that keeps the flags and the data of a `set` request, and answers `get` and `gets` with
what it keeps.

* `Item`, `readSet`: what a server keeps of the bytes of a request;
* `IsReply`: the well-formed replies with a kept item, which have freedom in both protocols;
* `Text.exchange_reply`, `Binary.exchange_reply`: what a retrieval makes of such a reply;
* `ComesBack`: it gives the value that was stored, its flags and the cas of the server, and no byte
  of the reply is left;
* **`comesBack_iff`**: so it does, unless the data is empty and was compressed.
-/

namespace McacheClient

open Numeral Stream

/-- What a server keeps of a storage request. -/
structure Item where
  key : Bytes
  flags : UInt32
  data : Bytes
  deriving DecidableEq

variable {zlib : Zlib} {key data stored : Bytes} {opts : Opts}

theorem packed_error {e : Exn} (h : packed zlib data opts = .error e) :
    e.code = some ErrorCode.badRequest.value := by
  unfold packed at h
  split_ifs at h
  exact Zlib.compress_error h

/-- The data of a value that is kept as `stored`, which the client may have to uncompress. -/
def unpack (zlib : Zlib) (flags : UInt32) (stored : Bytes) : Except Exn Bytes :=
  if compressed flags then zlib.uncompress stored 0 stored.length else .ok stored

/-- The data has a byte in it or is not compressed. -/
def Restorable (data : Bytes) (flags : UInt32) : Prop := data = [] → compressed flags = false

instance (data : Bytes) (flags : UInt32) : Decidable (Restorable data flags) :=
  inferInstanceAs (Decidable (_ → _))

/-- **What was packed comes back**, if it is restorable. -/
theorem unpack_packed (hz : zlib.Lossless) (hdata : Restorable data opts.flags)
    (h : packed zlib data opts = .ok stored) : unpack zlib opts.flags stored = .ok data := by
  unfold packed at h
  unfold unpack
  split_ifs at h ⊢ with hflags
  · exact Zlib.uncompress_compress hz (fun hnil => by simp [hdata hnil] at hflags) h
  · rw [Except.ok.inj h]

/-- Otherwise a client that reads it takes the address of a byte that is not there. -/
theorem unpack_packed_nil (hdata : ¬Restorable data opts.flags)
    (h : packed zlib data opts = .ok stored) :
    unpack zlib opts.flags stored = .error .undefined := by
  obtain ⟨rfl, hflags⟩ := Classical.not_imp.mp hdata
  rw [Bool.not_eq_false] at hflags
  rw [packed, if_pos hflags] at h
  have hempty := Zlib.uncompress_compress_nil h []
  rw [List.append_nil] at hempty
  rw [unpack, if_pos hflags, hempty]

/-! ## The text protocol -/

namespace Text

/-- What a server keeps of a text request. -/
def readSet (request : Bytes) : Option Item :=
  match readCommand false request with
  | some (.storage name key flags _ data _, []) =>
    if name = storageName .set then some { key, flags := .ofNat flags, data } else none
  | _ => none

def footer : Bytes := crlf ++ ascii "END" ++ crlf

/-- `VALUE <key> <flags> <bytes> [<cas unique>]`, the data and the footer. -/
def IsReply (item : Item) (cas : UInt64) (reply : Bytes) : Prop :=
  ∃ unique, (unique = [decimal cas.toNat] ∨ unique = [] ∧ cas = 0) ∧
    reply = line (ascii "VALUE" :: item.key :: decimal item.flags.toNat ::
      decimal item.data.length :: unique) ++ (item.data ++ footer)

theorem readSet_serialize {request : Bytes} (hne : key ≠ [])
    (hser : (storageCommand (storageName .set) key data opts).serialize = .ok request) :
    readSet request = some { key, flags := opts.flags, data } := by
  have hread : readCommand false request = _ := readCommand_storageCommand hser hne
  rw [readUnique_cas, if_neg nofun, Option.map_some] at hread
  rw [readSet, hread]
  simp

/-- What follows a word of a line. -/
def lineTail : List Bytes → Bytes
  | [] => crlf
  | words => [32] ++ line words

theorem line_cons (w : Bytes) (words : List Bytes) : line (w :: words) = w ++ lineTail words := by
  cases words <;> simp [line, lineTail]

theorem head?_lineTail (words : List Bytes) : ∀ c ∈ (lineTail words).head?, c = 32 ∨ c = 13 := by
  cases words <;> simp [lineTail, crlf]

theorem extractWord_line (space : Bytes) (hspace : ∀ c ∈ space, isSpace c = true) {w : Bytes}
    (hne : w ≠ []) (hw : ∀ c ∈ w, isSpace c = false) (words : List Bytes) :
    extractWord (space ++ line (w :: words)) = some (w, lineTail words) := by
  rw [line_cons, ← List.append_assoc]
  refine extractWord_append space hspace hne hw fun c hc => ?_
  rcases head?_lineTail words c hc with rfl | rfl <;> rfl

theorem extractUnsigned_line {width n : ℕ} (hn : n < 2 ^ width) (words : List Bytes) :
    extractUnsigned width ([32] ++ line (decimal n :: words)) = (n, some (lineTail words)) := by
  rw [line_cons, ← List.append_assoc]
  refine extractUnsigned_decimal [32] hn (List.all_eq_true.mp rfl) fun c hc => ?_
  rcases head?_lineTail words c hc with rfl | rfl <;> rfl

theorem deserializeValueResp_line (zlib : Zlib) {key : Bytes} (hkey : checkKey key = .ok ())
    (hne : key ≠ []) (flags : UInt32) {bytes : ℕ} (hbytes : bytes < 2 ^ 64) {cas : UInt64}
    {unique : List Bytes} (hunique : unique = [decimal cas.toNat] ∨ unique = [] ∧ cas = 0) :
    deserializeValueResp zlib
        (line (ascii "VALUE" :: key :: decimal flags.toNat :: decimal bytes :: unique)) =
      { response := { code := .ok, flags, cas }
        bytes := .ofNat (bytes + footerSize)
        setBody := retrieveSetBody zlib } := by
  have hname : ∀ c ∈ ascii "VALUE", isSpace c = false := fun c hc => by
    simpa using List.all_eq_true.mp (show (ascii "VALUE").all (!isSpace ·) = true from rfl) c hc
  have hword := extractWord_line [] nofun (w := ascii "VALUE") (by decide) hname
    (key :: decimal flags.toNat :: decimal bytes :: unique)
  have hkeyWord := extractWord_line [32] (List.all_eq_true.mp rfl) hne
    (fun c hc => ((checkKey_ok.mp hkey).2 c hc).1) (decimal flags.toNat :: decimal bytes :: unique)
  have hflags := extractUnsigned_line flags.toNat_lt (decimal bytes :: unique)
  have hsize := extractUnsigned_line hbytes unique
  have hcas : (extractUnsigned 64 (lineTail unique)).1 = cas.toNat := by
    rcases hunique with rfl | ⟨rfl, rfl⟩
    · exact congrArg Prod.fst (extractUnsigned_line cas.toNat_lt [])
    · rfl
  rw [List.nil_append] at hword
  simp only [lineTail] at hword hkeyWord hflags
  simp only [deserializeValueResp, hword, hkeyWord, hflags, hsize, hcas, UInt32.ofNat_toNat,
    UInt64.ofNat_toNat]

theorem startsWith_value (words : List Bytes) :
    startsWith (line (ascii "VALUE" :: words)) "VALUE" = true := by
  rw [line_cons]
  rfl

theorem retrieveSetBody_footer (zlib : Zlib) (hsize : stored.length + footerSize < 2 ^ 64)
    (response : Response) : retrieveSetBody zlib response (stored ++ footer) =
      (unpack zlib response.flags stored).map fun data => { response with data } := by
  have hlen : (stored ++ footer).length = stored.length + footerSize := by
    rw [List.length_append]
    rfl
  have hbody : zlib.uncompress (stored ++ footer) 0 stored.length =
      zlib.uncompress stored 0 stored.length :=
    zlib.uncompress_append [] stored footer (Nat.min_eq_right (by omega))
  simp only [retrieveSetBody, hlen, sub_footerSize rfl hsize, hbody, unpack]
  split_ifs with hcompressed hshort
  · cases zlib.uncompress stored 0 stored.length <;> rfl
  · omega
  · rw [List.take_left]
    rfl

/-- **A reply over the text protocol** gives what is kept, unpacked. -/
theorem exchange_reply (zlib : Zlib) (item : Item)
    (hsize : item.data.length + footerSize < 2 ^ 64) (hkey : checkKey item.key = .ok ())
    (hne : item.key ≠ []) {cas : UInt64} {reply rest : Bytes} (hreply : IsReply item cas reply)
    (name : RetrieveName) {c : Connection} (hinput : c.input = reply ++ rest) :
    ∃ c', commandParserSend (retrieveCommand zlib (retrieveName name) item.key) c =
      ((unpack zlib item.flags item.data).map fun data =>
        { code := .ok, data, flags := item.flags, cas }, c') ∧ c'.input = rest := by
  obtain ⟨key, flags, stored⟩ := item
  change stored.length + footerSize < 2 ^ 64 at hsize
  obtain ⟨unique, hunique, rfl⟩ := hreply
  have hw : ∀ w ∈ ascii "VALUE" :: key :: decimal flags.toNat :: decimal stored.length ::
      unique, IsWord w := by
    simp only [List.forall_mem_cons]
    refine ⟨by decide, isWord_key hkey hne, isWord_decimal _, isWord_decimal _, ?_⟩
    rcases hunique with rfl | ⟨rfl, -⟩
    · simpa using isWord_decimal _
    · simp
  have hser : (retrieveCommand zlib (retrieveName name) key).serialize =
      .ok (line [retrieveName name, key]) := by
    rw [retrieveCommand, keyed, hkey]
    rfl
  have hheader := (deserializeHeader_value zlib (startsWith_value _)).trans (congrArg Except.ok
    (deserializeValueResp_line zlib hkey hne flags (show stored.length < 2 ^ 64 by omega)
      hunique))
  have hline : c.input = [32].intercalate (ascii "VALUE" :: key :: decimal flags.toNat ::
      decimal stored.length :: unique) ++ crlf ++ (stored ++ footer ++ rest) := by
    rw [hinput, line, List.append_assoc]
  have hbody : (UInt64.ofNat (stored.length + footerSize)).toNat = (stored ++ footer).length := by
    rw [List.length_append, UInt64.toNat_ofNat_of_lt' hsize]
    rfl
  rw [commandParserSend_line hser rfl (cr_notMem hw) hheader hline,
    deserializeBody_append rfl hbody (by simp [footer, crlf])]
  simp only
  rw [retrieveSetBody_footer zlib hsize]
  exact ⟨_, rfl, rfl⟩

end Text

/-! ## The binary protocol -/

namespace Binary

/-- What a server keeps of a binary request. -/
def readSet (request : Bytes) : Option Item :=
  match Header.parse request with
  | none => none
  | some hdr =>
    let body := request.drop 24
    let data := body.drop 8
    if hdr.magic = Header.requestMagic ∧ hdr.opcode = storageCode .set ∧ hdr.extrasLen = 8 ∧
        body.length = hdr.bodyLen.toNat ∧ 8 + hdr.keyLen.toNat ≤ body.length then
      some {
        key := data.take hdr.keyLen.toNat
        flags := .ofNat (cutBigEndian 4 body).1
        data := data.drop hdr.keyLen.toNat }
    else none

/-- A header with status 0, the flags, the key or none, and the data. -/
def IsReply (item : Item) (cas : UInt64) (reply : Bytes) : Prop :=
  ∃ (hdr : Header) (key : Bytes), hdr.magic = Header.responseMagic ∧ hdr.status = 0 ∧
    hdr.extrasLen = 4 ∧ hdr.cas = cas ∧ (key = [] ∨ key = item.key) ∧
    hdr.keyLen.toNat = key.length ∧ hdr.bodyLen.toNat = 4 + key.length + item.data.length ∧
    reply = hdr.bytes ++ (bigEndian 4 item.flags.toNat ++ key ++ item.data)

theorem ofBigEndian_flags (flags : UInt32) (rest : Bytes) :
    UInt32.ofNat (ofBigEndian ((bigEndian 4 flags.toNat ++ rest).take 4)) = flags := by
  have h := cutBigEndian_append 4 flags.toNat rest
  rw [cutBigEndian] at h
  have hlt : flags.toNat < 256 ^ 4 := flags.toNat_lt
  rw [(Prod.mk.inj h).1, Nat.mod_eq_of_lt hlt, UInt32.ofNat_toNat]

theorem readSet_append {hdr : Header} (hmagic : hdr.magic = Header.requestMagic)
    (hopcode : hdr.opcode = storageCode .set) (hextras : hdr.extrasLen = 8)
    (hkeyLen : hdr.keyLen.toNat = key.length)
    (hbodyLen : hdr.bodyLen.toNat = 8 + key.length + stored.length) (flags : UInt32)
    {expiration : Bytes} (hexpiration : expiration.length = 4) :
    readSet (hdr.bytes ++ (bigEndian 4 flags.toNat ++ expiration ++ (key ++ stored))) =
      some ⟨key, flags, stored⟩ := by
  have hextrasLen : (bigEndian 4 flags.toNat ++ expiration).length = 8 := by
    rw [List.length_append, length_bigEndian, hexpiration]
  have hlen : (bigEndian 4 flags.toNat ++ expiration ++ (key ++ stored)).length =
      8 + key.length + stored.length := by
    rw [List.length_append, hextrasLen, List.length_append, Nat.add_assoc]
  have hflags := ofBigEndian_flags flags (expiration ++ (key ++ stored))
  rw [← List.append_assoc] at hflags
  simp only [readSet, hdr.parse_bytes, List.drop_left' hdr.length_bytes]
  rw [if_pos ⟨hmagic, hopcode, hextras, by rw [hlen, hbodyLen], by omega⟩]
  rw [List.drop_left' hextrasLen, List.take_left' hkeyLen.symm, List.drop_left' hkeyLen.symm,
    cutBigEndian, hflags]

theorem readSet_serialize {request : Bytes} (hkey : checkKey key = .ok ())
    (hfits : 8 + key.length + stored.length < 2 ^ 32)
    (hser : (storageCommand true (storageCode .set) key stored opts).serialize = .ok request) :
    readSet request = some { key, flags := opts.flags, data := stored } := by
  have hkeyLen : (UInt16.ofNat key.length).toNat = key.length :=
    UInt16.toNat_ofNat_of_lt' (show key.length < 2 ^ 16 by
      have := (checkKey_ok.mp hkey).1
      omega)
  let hdr : Header := .request (.ofNat key.length)
    (.ofNat ((UInt16.ofNat key.length).toNat + stored.length + (8 : UInt8).toNat)) 8
    (storageCode .set) opts.cas
  have hbodyLen : hdr.bodyLen.toNat = 8 + key.length + stored.length := by
    show (UInt32.ofNat ((UInt16.ofNat key.length).toNat + stored.length + 8)).toNat = _
    rw [UInt32.toNat_ofNat_of_lt' (by rw [hkeyLen, UInt32.size]; omega), hkeyLen]
    omega
  have hrequest : request = hdr.bytes ++
      (bigEndian 4 opts.flags.toNat ++ expirationBytes opts.expiration ++ (key ++ stored)) := by
    rw [storageCommand] at hser
    simp only [keyed, hkey] at hser
    rw [← Except.ok.inj hser]
    simp [hdr]
  rw [hrequest]
  exact readSet_append rfl rfl rfl hkeyLen hbodyLen opts.flags (length_bigEndian 4 _)

theorem retrieveSetBody_value (zlib : Zlib) (flags : UInt32) (hsize : stored.length < 2 ^ 32)
    {keyLen : UInt16} (hkeyLen : keyLen.toNat = key.length) (response : Response) :
    retrieveSetBody zlib keyLen response (bigEndian 4 flags.toNat ++ key ++ stored) =
      (unpack zlib flags stored).map fun data => { response with data, flags } := by
  have hflags := ofBigEndian_flags flags (key ++ stored)
  have hlen : (bigEndian 4 flags.toNat ++ key).length = 4 + keyLen.toNat := by
    rw [List.length_append, length_bigEndian, hkeyLen]
  have hcount : min (stored ++ []).length npos = stored.length := by
    rw [List.append_nil]
    exact Nat.min_eq_left (by rw [npos]; omega)
  have hbody := zlib.uncompress_append (bigEndian 4 flags.toNat ++ key) stored [] hcount
  rw [hlen, List.append_nil] at hbody
  rw [← List.append_assoc] at hflags
  have hall : 4 + keyLen.toNat ≤ (bigEndian 4 flags.toNat ++ key ++ stored).length := by
    rw [List.length_append, hlen]
    exact Nat.le_add_right _ _
  have hshort : ¬(bigEndian 4 flags.toNat ++ key ++ stored).length < 4 := by omega
  simp only [retrieveSetBody, hflags, hbody, unpack, if_neg hshort, if_neg (Nat.not_lt.mpr hall),
    List.drop_left' hlen]
  split_ifs
  · cases zlib.uncompress stored 0 stored.length <;> rfl
  · rfl

/-- **A reply over the binary protocol** gives what is kept, unpacked. -/
theorem exchange_reply (zlib : Zlib) (item : Item) (hkey : checkKey item.key = .ok ())
    {cas : UInt64} {reply rest : Bytes} (hreply : IsReply item cas reply) (code : UInt8)
    {c : Connection} (hinput : c.input = reply ++ rest) :
    ∃ c', commandParserSend (retrieveCommand zlib code item.key) c =
      ((unpack zlib item.flags item.data).map fun data =>
        { code := .ok, data, flags := item.flags, cas }, c') ∧ c'.input = rest := by
  obtain ⟨key, flags, stored⟩ := item
  obtain ⟨hdr, optKey, hmagic, hstatus, hextras, rfl, -, hkeyLen, hbodyLen, rfl⟩ := hreply
  have hlt := hdr.bodyLen.toNat_lt
  have hser : (retrieveCommand zlib code key).serialize =
      keyed (.request (.ofNat key.length) (.ofNat key.length) 0 code) [] key [] := rfl
  simp only at hkey
  rw [keyed, hkey] at hser
  have hpacket : c.input = hdr.bytes ++ (bigEndian 4 flags.toNat ++ optKey ++ stored ++ rest) := by
    rw [hinput, List.append_assoc]
  rw [commandParserSend_header hser rfl rfl hmagic hpacket, if_pos hstatus]
  rw [retrieveSuccess, if_neg (not_not.mpr hextras)]
  have hbody : hdr.bodyLen.toUInt64.toNat =
      (bigEndian 4 flags.toNat ++ optKey ++ stored).length := by
    simp only [hbodyLen, UInt32.toNat_toUInt64, List.length_append, length_bigEndian]
  have hne : bigEndian 4 flags.toNat ++ optKey ++ stored ≠ [] := fun h0 => by
    rw [h0] at hbody
    simp only [hbodyLen, UInt32.toNat_toUInt64, List.length_nil] at hbody
    omega
  rw [deserializeBody_append rfl hbody hne]
  simp only
  rw [retrieveSetBody_value zlib flags (by simp only at hbodyLen; omega) hkeyLen]
  exact ⟨_, rfl, rfl⟩

end Binary

/-! ## Both protocols -/

namespace Api

/-- What a server keeps of a `set` request. -/
def readSet : Api → Bytes → Option Item
  | text => Text.readSet
  | binary => Binary.readSet

def IsReply : Api → Item → UInt64 → Bytes → Prop
  | text => Text.IsReply
  | binary => Binary.IsReply

/-- The sizes that a protocol can carry: the size of a string with the footer behind the data is a
`size_t`, and a binary body is shorter than 4 GiB. -/
def Fits (key stored : Bytes) : Api → Prop
  | text => stored.length + Text.footerSize < 2 ^ 64
  | binary => 8 + key.length + stored.length < 2 ^ 32

end Api

theorem exists_isReply (api : Api) {item : Item} (hfits : api.Fits item.key item.data)
    (cas : UInt64) : ∃ reply, api.IsReply item cas reply := by
  cases api with
  | text => exact ⟨_, _, Or.inl rfl, rfl⟩
  | binary =>
    have hsize : 4 + item.data.length < 2 ^ 32 := by
      have hfits' : 8 + item.key.length + item.data.length < 2 ^ 32 := hfits
      omega
    let hdr : Binary.Header :=
      { magic := Binary.Header.responseMagic, keyLen := 0, extrasLen := 4
        bodyLen := .ofNat (4 + item.data.length), cas }
    refine ⟨_, hdr, [], rfl, rfl, rfl, rfl, Or.inl rfl, rfl, ?_, rfl⟩
    exact UInt32.toNat_ofNat_of_lt' hsize

/-- Stored values come back: the constructor of `set` refuses the data, or what a server keeps of
the serialized request makes every well-formed reply to `get` and `gets` give the original data and
flags and the cas of the reply, and nothing of the reply is left. -/
def ComesBack (api : Api) (zlib : Zlib) (key data : Bytes) (opts : Opts) : Prop :=
  (∃ e, api.command zlib (.storage .set key data opts) = .error e ∧
      e.code = some ErrorCode.badRequest.value) ∨
    ∃ command request item, api.command zlib (.storage .set key data opts) = .ok command ∧
      command.serialize = .ok request ∧ api.readSet request = some item ∧
      ∀ cas reply, api.IsReply item cas reply → ∀ (name : RetrieveName) (c : Connection) rest,
        c.input = reply ++ rest → ∃ c', api.exchange zlib (.retrieve name key) c =
          (.ok { code := .ok, data, flags := opts.flags, cas }, c') ∧ c'.input = rest

/-- What a server keeps of a request, and what a retrieval makes of a reply with it. -/
theorem exchange_packed (api : Api) (hkey : checkKey key = .ok ()) (hne : key ≠ [])
    (hfits : api.Fits key stored) (hdata : packed zlib data opts = .ok stored) :
    ∃ command request, api.command zlib (.storage .set key data opts) = .ok command ∧
      command.serialize = .ok request ∧ api.readSet request = some ⟨key, opts.flags, stored⟩ ∧
      ∀ cas reply, api.IsReply ⟨key, opts.flags, stored⟩ cas reply →
        ∀ (name : RetrieveName) (c : Connection) rest, c.input = reply ++ rest →
          ∃ c', api.exchange zlib (.retrieve name key) c =
            ((unpack zlib opts.flags stored).map fun data =>
              { code := .ok, data, flags := opts.flags, cas }, c') ∧ c'.input = rest := by
  cases api with
  | text =>
    obtain ⟨request, hser⟩ : ∃ request,
        (Text.storageCommand (Text.storageName .set) key stored opts).serialize = .ok request := by
      rw [Text.storageCommand, Text.keyed, hkey]
      exact ⟨_, rfl⟩
    refine ⟨_, _, by rw [Api.command, Text.command, hdata]; rfl, hser,
      Text.readSet_serialize hne hser, fun cas reply hreply name c rest hinput => ?_⟩
    exact Text.exchange_reply zlib ⟨key, opts.flags, stored⟩ hfits hkey hne hreply name hinput
  | binary =>
    obtain ⟨request, hser⟩ : ∃ request,
        (Binary.storageCommand true (Binary.storageCode .set) key stored opts).serialize =
          .ok request := by
      rw [Binary.storageCommand]
      simp only [Binary.keyed, hkey]
      exact ⟨_, rfl⟩
    refine ⟨_, _, by rw [Api.command, Binary.command, hdata]; rfl, hser,
      Binary.readSet_serialize hkey hfits hser, fun cas reply hreply name c rest hinput => ?_⟩
    exact Binary.exchange_reply zlib ⟨key, opts.flags, stored⟩ hkey hreply
      (Binary.retrieveCode name) hinput

/-- Every reply with compressed data of no bytes ends in what is undefined. -/
theorem not_comesBack (api : Api) (hkey : checkKey key = .ok ()) (hne : key ≠ [])
    (hfits : api.Fits key stored) (hdata : packed zlib data opts = .ok stored)
    (hempty : ¬Restorable data opts.flags) : ¬ComesBack api zlib key data opts := by
  obtain ⟨command, request, hcommand, hser, hread, hreplies⟩ :=
    exchange_packed api hkey hne hfits hdata
  rintro (⟨e, herror, -⟩ | ⟨command', request', item, hcommand', hser', hread', hback⟩)
  · cases hcommand.symm.trans herror
  · cases hcommand.symm.trans hcommand'
    cases hser.symm.trans hser'
    cases hread.symm.trans hread'
    obtain ⟨reply, hreply⟩ : ∃ reply, api.IsReply ⟨key, opts.flags, stored⟩ 0 reply :=
      exists_isReply api hfits 0
    let c : Connection := { input := reply ++ [] }
    obtain ⟨c', hsent, -⟩ := hreplies 0 reply hreply .get c [] rfl
    obtain ⟨c'', hsent', -⟩ := hback 0 reply hreply .get c [] rfl
    rw [unpack_packed_nil hempty hdata] at hsent
    cases hsent.symm.trans hsent'

/-- **Stored values come back** exactly when they have a byte in them or are not compressed, or the
constructor of the command refuses them. -/
theorem comesBack_iff (api : Api) (hz : zlib.Lossless) (hkey : checkKey key = .ok ())
    (hne : key ≠ []) (hfits : ∀ stored, packed zlib data opts = .ok stored → api.Fits key stored) :
    ComesBack api zlib key data opts ↔
      Restorable data opts.flags ∨ ∃ e, packed zlib data opts = .error e := by
  cases hdata : packed zlib data opts with
  | error e =>
    refine iff_of_true (Or.inl ?_) (Or.inr ⟨e, rfl⟩)
    cases api with
    | text => exact ⟨e, by rw [Api.command, Text.command, hdata]; rfl, packed_error hdata⟩
    | binary => exact ⟨e, by rw [Api.command, Binary.command, hdata]; rfl, packed_error hdata⟩
  | ok stored =>
    have hfits := hfits stored hdata
    by_cases hrestorable : Restorable data opts.flags
    · refine iff_of_true (Or.inr ?_) (Or.inl hrestorable)
      obtain ⟨command, request, hcommand, hser, hread, hreplies⟩ :=
        exchange_packed api hkey hne hfits hdata
      rw [unpack_packed hz hrestorable hdata] at hreplies
      exact ⟨command, request, _, hcommand, hser, hread, hreplies⟩
    · refine iff_of_false (not_comesBack api hkey hne hfits hdata hrestorable) ?_
      rintro (hdata' | ⟨e, he⟩)
      · exact hrestorable hdata'
      · cases he

/-- A value that looks like the end of a reply comes back. -/
theorem comesBack_footer :
    ComesBack .text .plain (ascii "k") (ascii "END\r\n") { flags := Opts.compress } := by
  refine (comesBack_iff .text Zlib.lossless_plain (by decide) (by decide) ?_).mpr
    (Or.inl (by decide))
  intro stored h
  cases h
  show _ < _
  decide

/-- The empty string does not, over either protocol, when it is compressed. -/
theorem not_comesBack_empty :
    ¬ComesBack .text .plain (ascii "k") [] { flags := Opts.compress } ∧
      ¬ComesBack .binary .plain (ascii "k") [] { flags := Opts.compress } := by
  have hkey : checkKey (ascii "k") = .ok () := by decide
  have hdata : packed .plain [] { flags := Opts.compress } = .ok [0, 0, 0, 0] := by decide
  have hempty : ¬Restorable [] Opts.compress := by decide
  refine ⟨not_comesBack .text hkey (by decide) ?_ hdata hempty,
    not_comesBack .binary hkey (by decide) ?_ hdata hempty⟩
  · show _ < _
    decide
  · show _ < _
    decide

end McacheClient
