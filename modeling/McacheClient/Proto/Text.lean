import McacheClient.Proto.Request

/-!
# The text protocol

* `deserializeHeader` of the five classes of commands, over the one for general errors;
* `deserializeValueResp`, `retrieveSetBody`: a VALUE line and the body after it;
* `Text.command`: the command object of a request;
* **`commandParserSend_line`**: a command makes of the line of a response what it parses it to.
-/

namespace McacheClient.Text

open Numeral Stream

/-- `header_delimiter()`. -/
def crlf : Bytes := [13, 10]

/-! ## Responses -/

/-- `boost::trim_copy`. -/
def trim (s : Bytes) : Bytes := (((s.dropWhile isSpace).reverse).dropWhile isSpace).reverse

/-- `error_desc`: what follows the first space. -/
def errorDesc (header : Bytes) : Bytes := trim (header.dropWhile fun c => c != 32)

def startsWith (header : Bytes) (s : String) : Bool := (ascii s).isPrefixOf header

/-- `command_t::deserialize_header`: the general errors. -/
def generalHeader (header : Bytes) : PendingResponse :=
  if startsWith header "ERROR" then pending .error "syntax error"
  else if startsWith header "CLIENT_ERROR" then
    { response := { code := .clientError, data := errorDesc header } }
  else if startsWith header "SERVER_ERROR" then
    { response := { code := .serverError, data := errorDesc header } }
  else { response := { code := .unrecognized, data := header } }

/-- What every `deserialize_header` does; they differ in the headers that they know. -/
def deserializeHeader (known : Bytes → Option PendingResponse) (header : Bytes) :
    Except Exn PendingResponse :=
  if header = [] then .ok (pending .empty "empty response")
  else .ok ((known header).getD (generalHeader header))

/-- `retrieve_command_t::footer_size`, of CRLF, END and CRLF. -/
def footerSize : ℕ := 7

/-- `retrieve_command_t::set_body`; a size below the footer's wraps around. -/
def retrieveSetBody (zlib : Zlib) (response : Response) (data : Bytes) : Except Exn Response :=
  let count := (data.length + (2 ^ 64 - footerSize)) % 2 ^ 64
  if compressed response.flags then
    match zlib.uncompress data 0 count with
    | .error e => .error e
    | .ok body => .ok { response with data := body }
  else if data.length < count then .error .lengthError
  else .ok { response with data := data.take count }

/-- `deserialize_value_resp`: `VALUE <key> <flags> <bytes> [<cas unique>]`. -/
def deserializeValueResp (zlib : Zlib) (header : Bytes) : PendingResponse :=
  let invalid : PendingResponse :=
    { response := { code := .syntaxErr, data := ascii "invalid response: " ++ header } }
  match extractWord header with
  | none => invalid
  | some (_, is) =>
    match extractWord is with
    | none => invalid
    | some (_, is) =>
      match extractUnsigned 32 is with
      | (_, none) => invalid
      | (flags, some is) =>
        match extractUnsigned 64 is with
        | (_, none) => invalid
        | (bytes, some is) =>
          { response :=
              { code := .ok, flags := .ofNat flags, cas := .ofNat (extractUnsigned 64 is).1 }
            bytes := .ofNat (bytes + footerSize)
            setBody := retrieveSetBody zlib }

def retrieveKnown (zlib : Zlib) (header : Bytes) : Option PendingResponse :=
  if startsWith header "END" then some (pending .notFound "not found")
  else if startsWith header "VALUE" then some (deserializeValueResp zlib header)
  else none

def storageKnown (header : Bytes) : Option PendingResponse :=
  if startsWith header "EXISTS" then some (pending .exists "cas id expired")
  else if startsWith header "NOT_FOUND" then some (pending .notFound "cas id is invalid")
  else if startsWith header "NOT_STORED" then some (pending .notStored "key (does not) exist")
  else if startsWith header "STORED" then some (pending .stored)
  else none

/-- A header that starts with a digit is the new value, when it fits 64 bits. -/
def incrDecrKnown (header : Bytes) : Option PendingResponse :=
  if startsWith header "TOUCHED" then some (pending .touched)
  else if startsWith header "NOT_FOUND" then some (pending .notFound "key does not exist")
  else if header.head?.any isDigit && (extractUnsigned 64 header).2.isSome then
    some { response := { code := .ok, data := trim header } }
  else none

def deleteKnown (header : Bytes) : Option PendingResponse :=
  if startsWith header "DELETED" then some (pending .deleted)
  else if startsWith header "NOT_FOUND" then some (pending .notFound "key does not exist")
  else none

def flushAllKnown (header : Bytes) : Option PendingResponse :=
  if startsWith header "OK" then some (pending .ok) else none

/-! ## Commands -/

/-- A command line of words between spaces. -/
def line (words : List Bytes) : Bytes := [32].intercalate words ++ crlf

/-- A command with a key is serialized once its key is checked. -/
def keyed (key : Bytes) (request : Bytes) : Except Exn Bytes := do
  checkKey key
  return request

def retrieveCommand (zlib : Zlib) (name : Bytes) (key : Bytes) : Command where
  key
  headerDelimiter := .text crlf
  serialize := keyed key (line [name, key])
  deserializeHeader := deserializeHeader (retrieveKnown zlib)

def storageCommand (name : Bytes) (key data : Bytes) (opts : Opts) : Command where
  key
  headerDelimiter := .text crlf
  serialize := keyed key (line (name :: key :: decimal opts.flags.toNat ::
    decimalInt opts.expiration.toInt :: decimal data.length ::
      if opts.cas ≠ 0 then [decimal opts.cas.toNat] else []) ++ data ++ crlf)
  deserializeHeader := deserializeHeader storageKnown

def incrDecrCommand (name : Bytes) (key : Bytes) (value : UInt64) : Command where
  key
  headerDelimiter := .text crlf
  serialize := keyed key (line [name, key, decimal value.toNat])
  deserializeHeader := deserializeHeader incrDecrKnown

def deleteCommand (key : Bytes) : Command where
  key
  headerDelimiter := .text crlf
  serialize := keyed key (line [ascii "delete", key])
  deserializeHeader := deserializeHeader deleteKnown

def flushAllCommand (expiration : UInt32) : Command where
  headerDelimiter := .text crlf
  serialize := .ok (line (ascii "flush_all" ::
    if expiration ≠ 0 then [decimal expiration.toNat] else []))
  deserializeHeader := deserializeHeader flushAllKnown

/-- The names of `api`. -/
def retrieveName : RetrieveName → Bytes
  | .get => ascii "get"
  | .gets => ascii "gets"

def storageName : StorageName → Bytes
  | .set => ascii "set"
  | .add => ascii "add"
  | .replace => ascii "replace"
  | .append => ascii "append"
  | .prepend => ascii "prepend"
  | .cas => ascii "cas"

def counterName : CounterName → Bytes
  | .incr => ascii "incr"
  | .decr => ascii "decr"

/-- The command object of a request; the constructors of storage and counter commands may throw. -/
def command (zlib : Zlib) : Request → Except Exn Command
  | .retrieve name key => .ok (retrieveCommand zlib (retrieveName name) key)
  | .storage name key data opts => do
    let data ← packed zlib data opts
    return storageCommand (storageName name) key data opts
  | .counter name key value opts =>
    if opts.initial ≠ 0 then .error (.mc .badArgument "initial not allowed for txt")
    else .ok (incrDecrCommand (counterName name) key value)
  | .touch key expiration => .ok (incrDecrCommand (ascii "touch") key expiration)
  | .delete key => .ok (deleteCommand key)
  | .flushAll expiration => .ok (flushAllCommand expiration)

/-! ## Reading a response -/

theorem deserializeHeader_value (zlib : Zlib) {header : Bytes}
    (h : startsWith header "VALUE" = true) :
    deserializeHeader (retrieveKnown zlib) header = .ok (deserializeValueResp zlib header) := by
  obtain ⟨rest, rfl⟩ := List.isPrefixOf_iff.mp h
  rfl

/-- The size below the footer's does not wrap around where the footer is there. -/
theorem sub_footerSize {size n : ℕ} (hsize : size = n + footerSize) (hlt : size < 2 ^ 64) :
    (size + (2 ^ 64 - footerSize)) % 2 ^ 64 = n := by
  unfold footerSize at hsize ⊢
  omega

theorem commandParserSend_line {command : Command} {c : Connection} {data l rest : Bytes}
    {pending : PendingResponse} (hser : command.serialize = .ok data)
    (hdelimiter : command.headerDelimiter = .text crlf) (hl : 13 ∉ l)
    (hheader : command.deserializeHeader (l ++ crlf) = .ok pending)
    (hinput : c.input = l ++ crlf ++ rest) :
    commandParserSend command c = deserializeBody pending { c.write data with input := rest } := by
  have hread : (c.write data).read command.headerDelimiter =
      (.ok (l ++ crlf), { c.write data with input := rest }) := by
    rw [hdelimiter]
    exact read_text_append hl hinput
  exact commandParserSend_eq hser hread hheader

end McacheClient.Text
