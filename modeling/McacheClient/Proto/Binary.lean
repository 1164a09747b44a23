import McacheClient.Proto.Request

/-!
# The binary protocol

* `Header`: `header_t`, and its 24 bytes on the wire;
* `deserializeHeader`: what the six `deserialize_header` share, over what each does with status 0;
* `Binary.command`: the command object of a request;
* **`Header.parse_bytes`**: a header is read back from its bytes;
* **`commandParserSend_header`**: a command makes of the header of a response what it makes of one
  with status 0, or the failure of its status.
-/

namespace McacheClient.Binary

open Numeral

/-- `header_t`. -/
structure Header where
  magic : UInt8
  opcode : UInt8 := 0
  keyLen : UInt16
  extrasLen : UInt8
  dataType : UInt8 := 0
  status : UInt16 := 0
  bodyLen : UInt32
  opaqueId : UInt32 := 0
  cas : UInt64 := 0
  deriving DecidableEq

namespace Header

def requestMagic : UInt8 := 0x80

def responseMagic : UInt8 := 0x81

/-- The bytes of a header after `prepare_serialization`. -/
def bytes (h : Header) : Bytes :=
  bigEndian 1 h.magic.toNat ++ bigEndian 1 h.opcode.toNat ++ bigEndian 2 h.keyLen.toNat ++
    bigEndian 1 h.extrasLen.toNat ++ bigEndian 1 h.dataType.toNat ++ bigEndian 2 h.status.toNat ++
    bigEndian 4 h.bodyLen.toNat ++ bigEndian 4 h.opaqueId.toNat ++ bigEndian 8 h.cas.toNat

/-- The constructor of `header_t` from a string, which must have the bytes of a header. -/
def parse (data : Bytes) : Option Header :=
  if data.length < 24 then none
  else
    let (magic, data) := cutBigEndian 1 data
    let (opcode, data) := cutBigEndian 1 data
    let (keyLen, data) := cutBigEndian 2 data
    let (extrasLen, data) := cutBigEndian 1 data
    let (dataType, data) := cutBigEndian 1 data
    let (status, data) := cutBigEndian 2 data
    let (bodyLen, data) := cutBigEndian 4 data
    let (opaqueId, data) := cutBigEndian 4 data
    let (cas, _) := cutBigEndian 8 data
    some {
      magic := .ofNat magic
      opcode := .ofNat opcode
      keyLen := .ofNat keyLen
      extrasLen := .ofNat extrasLen
      dataType := .ofNat dataType
      status := .ofNat status
      bodyLen := .ofNat bodyLen
      opaqueId := .ofNat opaqueId
      cas := .ofNat cas }

/-- The constructor of `header_t` for requests. -/
def request (keyLen : UInt16) (bodyLen : UInt32) (extrasLen : UInt8) (opcode : UInt8)
    (cas : UInt64 := 0) : Header :=
  { magic := requestMagic, opcode, keyLen, extrasLen, bodyLen, cas }

@[simp] theorem length_bytes (h : Header) : h.bytes.length = 24 := by
  simp [bytes]

/-- **A header is read back** from the bytes it was written to. -/
theorem parse_bytes (h : Header) (rest : Bytes) : parse (h.bytes ++ rest) = some h := by
  have hlen : ¬ (h.bytes ++ rest).length < 24 := by
    rw [List.length_append, length_bytes]
    omega
  rw [parse, if_neg hlen]
  simp [bytes, cutBigEndian_append]

end Header

/-! ## Responses -/

/-- `translate_status_to_response` over the table that `init` fills. -/
def translateStatusToResponse (code : UInt16) : ResponseCode :=
  match code.toNat with
  | 0x0000 => .ok
  | 0x0001 => .notFound
  | 0x0002 => .exists
  | 0x0003 => .serverError
  | 0x0004 => .clientError
  | 0x0005 => .notStored
  | 0x0006 => .clientError
  | 0x0081 => .error
  | 0x0082 => .serverError
  | _ => .error

/-- What every `deserialize_header` does; they differ in what they make of status 0. Casting a
string that is shorter than a header is undefined. -/
def deserializeHeader (success : Header → PendingResponse) (header : Bytes) :
    Except Exn PendingResponse :=
  if header = [] then .ok (pending .empty "empty response")
  else
    match Header.parse header with
    | none => .error .undefined
    | some hdr =>
      if hdr.magic ≠ Header.responseMagic then .ok (pending .unrecognized "bad magic in response")
      else if hdr.status = 0 then .ok (success hdr)
      else .ok {
        response := { code := translateStatusToResponse hdr.status }
        bytes := hdr.bodyLen.toUInt64 }

/-- `std::string::npos`. -/
def npos : ℕ := 18446744073709551615

/-- `retrieve_command_t::set_body`: flags, key, value. Reading flags that are not there is
undefined. -/
def retrieveSetBody (zlib : Zlib) (keyLen : UInt16) (response : Response) (data : Bytes) :
    Except Exn Response :=
  if data.length < 4 then .error .undefined
  else
    let flags : UInt32 := .ofNat (ofBigEndian (data.take 4))
    if compressed flags then
      match zlib.uncompress data (4 + keyLen.toNat) npos with
      | .error e => .error e
      | .ok body => .ok { response with data := body, flags }
    else if data.length < 4 + keyLen.toNat then .error .outOfRange
    else .ok { response with data := data.drop (4 + keyLen.toNat), flags }

/-- `incr_decr_command_t::set_body`; more than 8 bytes do not fit the integer they are copied to. -/
def incrDecrSetBody (response : Response) (data : Bytes) : Except Exn Response :=
  if 8 < data.length then .error .undefined
  else
    let value := ofBigEndian (data ++ List.replicate (8 - data.length) 0)
    .ok { response with data := decimal value }

def retrieveSuccess (zlib : Zlib) (hdr : Header) : PendingResponse :=
  if hdr.extrasLen ≠ 4 then pending .invalid "bad extras length"
  else {
    response := { code := .ok, flags := 0, cas := hdr.cas }
    bytes := hdr.bodyLen.toUInt64
    setBody := retrieveSetBody zlib hdr.keyLen }

def storageSuccess (_ : Header) : PendingResponse := pending .stored

def incrDecrSuccess (hdr : Header) : PendingResponse :=
  if hdr.bodyLen ≠ 8 then pending .invalid "bad body length"
  else {
    response := { code := .ok }
    bytes := hdr.bodyLen.toUInt64
    setBody := incrDecrSetBody }

def deleteSuccess (_ : Header) : PendingResponse := pending .deleted

def touchSuccess (hdr : Header) : PendingResponse where
  response := { code := .touched }
  bytes := hdr.bodyLen.toUInt64
  setBody := incrDecrSetBody

def flushAllSuccess (_ : Header) : PendingResponse := pending .ok

/-! ## Commands -/

/-- `static_cast<uint32_t>(expiration.count())` in network order. -/
def expirationBytes (expiration : Int64) : Bytes :=
  bigEndian 4 expiration.toUInt64.toUInt32.toNat

/-- A command with a key: the key is checked, then the header, the extras, the key and the data. -/
def keyed (hdr : Header) (extras key data : Bytes) : Except Exn Bytes := do
  checkKey key
  return hdr.bytes ++ extras ++ key ++ data

def retrieveCommand (zlib : Zlib) (code : UInt8) (key : Bytes) : Command where
  key
  headerDelimiter := .count 24
  serialize := keyed (.request (.ofNat key.length) (.ofNat key.length) 0 code) [] key []
  deserializeHeader := deserializeHeader (retrieveSuccess zlib)

/-- `storage_command_t`; append and prepend have no extras. -/
def storageCommand (hasExtras : Bool) (code : UInt8) (key data : Bytes) (opts : Opts) : Command :=
  let extrasLen : UInt8 := if hasExtras then 8 else 0
  let keyLen : UInt16 := .ofNat key.length
  let bodyLen : UInt32 := .ofNat (keyLen.toNat + data.length + extrasLen.toNat)
  let extras :=
    if hasExtras then bigEndian 4 opts.flags.toNat ++ expirationBytes opts.expiration else []
  { key
    headerDelimiter := .count 24
    serialize := keyed (.request keyLen bodyLen extrasLen code opts.cas) extras key data
    deserializeHeader := deserializeHeader storageSuccess }

def incrDecrCommand (code : UInt8) (key : Bytes) (value : UInt64) (opts : Opts) : Command where
  key
  headerDelimiter := .count 24
  serialize := keyed (.request (.ofNat key.length) (.ofNat (key.length + 20)) 20 code)
    (bigEndian 8 value.toNat ++ bigEndian 8 opts.initial.toNat ++ expirationBytes opts.expiration)
    key []
  deserializeHeader := deserializeHeader incrDecrSuccess

def deleteCommand (key : Bytes) : Command where
  key
  headerDelimiter := .count 24
  serialize := keyed (.request (.ofNat key.length) (.ofNat key.length) 0 0x04) [] key []
  deserializeHeader := deserializeHeader deleteSuccess

def touchCommand (key : Bytes) (expiration : Int64) : Command where
  key
  headerDelimiter := .count 24
  serialize := keyed (.request (.ofNat key.length) (.ofNat (key.length + 4)) 4 0x1C)
    (expirationBytes expiration) key []
  deserializeHeader := deserializeHeader touchSuccess

/-- `flush_all_command_t`, which has no key. -/
def flushAllCommand (expiration : Int64) : Command where
  headerDelimiter := .count 24
  serialize := .ok ((Header.request 0 4 4 0x08).bytes ++ expirationBytes expiration)
  deserializeHeader := deserializeHeader flushAllSuccess

/-- The opcodes of `api`. -/
def retrieveCode : RetrieveName → UInt8
  | .get | .gets => 0x00

def storageCode : StorageName → UInt8
  | .set | .cas => 0x01
  | .add => 0x02
  | .replace => 0x03
  | .append => 0x0E
  | .prepend => 0x0F

def hasExtras : StorageName → Bool
  | .append | .prepend => false
  | _ => true

def counterCode : CounterName → UInt8
  | .incr => 0x05
  | .decr => 0x06

/-- The command object of a request; the constructor of a storage command may throw. -/
def command (zlib : Zlib) : Request → Except Exn Command
  | .retrieve name key => .ok (retrieveCommand zlib (retrieveCode name) key)
  | .storage name key data opts => do
    let data ← packed zlib data opts
    return storageCommand (hasExtras name) (storageCode name) key data opts
  | .counter name key value opts => .ok (incrDecrCommand (counterCode name) key value opts)
  | .touch key expiration => .ok (touchCommand key expiration.toInt64)
  | .delete key => .ok (deleteCommand key)
  | .flushAll expiration => .ok (flushAllCommand expiration.toUInt64.toInt64)

/-! ## Reading a response -/

theorem deserializeHeader_parse (success : Header → PendingResponse) {header : Bytes} {hdr : Header}
    (h : Header.parse header = some hdr) : deserializeHeader success header =
    if hdr.magic ≠ Header.responseMagic then .ok (pending .unrecognized "bad magic in response")
    else if hdr.status = 0 then .ok (success hdr)
    else .ok {
      response := { code := translateStatusToResponse hdr.status }
      bytes := hdr.bodyLen.toUInt64 } := by
  have hne : header ≠ [] := by
    rintro rfl
    cases h
  rw [deserializeHeader, if_neg hne, h]

theorem commandParserSend_header {command : Command} {success : Header → PendingResponse}
    {c : Connection} {data rest : Bytes} {hdr : Header} (hser : command.serialize = .ok data)
    (hdelimiter : command.headerDelimiter = .count 24)
    (hheader : command.deserializeHeader = deserializeHeader success)
    (hmagic : hdr.magic = Header.responseMagic) (hinput : c.input = hdr.bytes ++ rest) :
    commandParserSend command c = deserializeBody
      (if hdr.status = 0 then success hdr
        else {
          response := { code := translateStatusToResponse hdr.status }
          bytes := hdr.bodyLen.toUInt64 }) { c.write data with input := rest } := by
  have hread : (c.write data).read command.headerDelimiter =
      (.ok hdr.bytes, { c.write data with input := rest }) := by
    rw [hdelimiter, ← hdr.length_bytes]
    exact read_count_append hinput
  have hbytes : Header.parse hdr.bytes = some hdr := by simpa using hdr.parse_bytes []
  have hparse := congrFun hheader hdr.bytes
  rw [deserializeHeader_parse success hbytes, if_neg (not_not_intro hmagic)] at hparse
  by_cases hstatus : hdr.status = 0
  · rw [if_pos hstatus] at hparse ⊢
    exact commandParserSend_eq hser hread hparse
  · rw [if_neg hstatus] at hparse ⊢
    exact commandParserSend_eq hser hread hparse

end McacheClient.Binary
