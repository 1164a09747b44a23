import McacheClient.Server.Memcached

/-!
# What a client makes of an answer

The replies of a memcached server, parsed by the commands that they answer.

* `Answer.code`: the response code of an answer, which depends on the protocol;
* `Shows`: the response of an answer, up to the texts of failures;
* `execute_storage`, `execute_retrieve`: the answers to a kind of command;
* `Text.exchange_line`, `Binary.exchange_packet`: a reply is parsed and nothing of it is left;
* **`exchange_respond`**: over either protocol, a request gives the response of its answer.
-/

namespace McacheClient

open Numeral Stream

/-- The code of an answer. Only the binary protocol tells why an `add` or a `replace` is refused. -/
def Answer.code : Api → Answer → ResponseCode
  | _, value .. => .ok
  | _, missing | _, unknown => .notFound
  | _, stored _ => .stored
  | .text, present => .notStored
  | .binary, present => .exists
  | .text, absent name => if name = .cas then .notFound else .notStored
  | .binary, absent name => if name = .append ∨ name = .prepend then .notStored else .notFound
  | _, mismatch => .exists
  | _, touched _ => .touched
  | _, deleted => .deleted

/-- The response of an answer. Only `gets` shows the cas id in the text protocol. -/
def Shows (api : Api) (zlib : Zlib) (unique : Bool) : Answer → Except Exn Response → Prop
  | .value _ item, result => result = (unpack zlib item.flags item.data).map fun data =>
      { code := .ok, data, flags := item.flags
        cas := if unique ∨ api = .binary then item.cas else 0 }
  | answer, result => ∃ data, result = .ok { code := answer.code api, data }

/-! ## Answers -/

section Execute

variable {now : ℤ} {server : Memcached} {key data : Bytes} {name : StorageName} {flags : ℕ}
  {expiration : ℤ} {cas : ℕ}

theorem execute_retrieve (now : ℤ) (key : Bytes) (server : Memcached) :
    execute now (.retrieve key) server =
      ((server.find now key).elim .missing (.value key), server) := by
  unfold execute
  simp only [ServerCommand.key]
  cases server.find now key <;> rfl

theorem execute_touch (now : ℤ) (key : Bytes) (expiration : ℤ) (server : Memcached) :
    (execute now (.touch key expiration) server).1 = .unknown ∨
      ∃ flags, (execute now (.touch key expiration) server).1 = .touched flags := by
  unfold execute
  simp only [ServerCommand.key]
  cases server.find now key with
  | none => exact Or.inl rfl
  | some item => exact Or.inr ⟨item.flags, rfl⟩

theorem execute_delete (now : ℤ) (key : Bytes) (server : Memcached) :
    (execute now (.delete key) server).1 = .unknown ∨
      (execute now (.delete key) server).1 = .deleted := by
  unfold execute
  simp only [ServerCommand.key]
  cases server.find now key with
  | none => exact Or.inl rfl
  | some item => exact Or.inr rfl

theorem execute_storage (now : ℤ) (name : StorageName) (key : Bytes) (flags : ℕ) (expiration : ℤ)
    (data : Bytes) (cas : ℕ) (server : Memcached) :
    let answer := (execute now (.storage name key flags expiration data cas) server).1
    (∃ cas, answer = .stored cas) ∨ (answer = .present ∧ name = .add) ∨
      (answer = .mismatch ∧ name = .cas) ∨
      (answer = .absent name ∧ server.find now key = none ∧ name ≠ .set ∧ name ≠ .add) := by
  unfold execute
  simp only [ServerCommand.key]
  cases name <;> cases server.find now key with
  | none => simp [Memcached.put]
  | some item => by_cases hcas : item.cas.toNat = cas <;> simp [Memcached.put, hcas]

theorem execute_replace {now : ℤ} {key : Bytes} {server : Memcached}
    (h : server.find now key = none) (flags : ℕ) (expiration : ℤ) (data : Bytes) (cas : ℕ) :
    execute now (.storage .replace key flags expiration data cas) server =
      (.absent .replace, server) := by
  unfold execute
  simp only [ServerCommand.key, h]

end Execute

/-! ## The text protocol -/

section Exchange

variable {zlib : Zlib} {request : Request} {served : ServerCommand} {command : Command}
  {bytes rest : Bytes} {c : Connection}

namespace Text

theorem exchange_line {word : Bytes} {code : ResponseCode} {aux : String}
    (hser : command.serialize = .ok bytes) (hdelimiter : command.headerDelimiter = .text crlf)
    (hword : 13 ∉ word)
    (hheader : command.deserializeHeader (line [word]) = .ok (pending code aux))
    (hinput : c.input = line [word] ++ rest) :
    ∃ c', commandParserSend command c = (.ok { code, data := ascii aux }, c') ∧
      c'.input = rest := by
  rw [line, List.intercalate_singleton] at hheader hinput
  rw [commandParserSend_line hser hdelimiter hword hheader hinput]
  exact ⟨_, rfl, rfl⟩

theorem exchange_shown {answer : Answer} {word : Bytes} {code : ResponseCode} {aux : String}
    {unique : Bool} (hser : command.serialize = .ok bytes)
    (hdelimiter : command.headerDelimiter = .text crlf) (hword : 13 ∉ word)
    (hheader : command.deserializeHeader (line [word]) = .ok (pending code aux))
    (hshows : ∀ data, Shows .text zlib unique answer (.ok { code, data }))
    (hinput : c.input = line [word] ++ rest) :
    ∃ result c', commandParserSend command c = (result, c') ∧ c'.input = rest ∧
      Shows .text zlib unique answer result := by
  obtain ⟨c', hsend, hrest⟩ := exchange_line hser hdelimiter hword hheader hinput
  exact ⟨_, c', hsend, hrest, hshows _⟩

theorem exchange_retrieve (zlib : Zlib) {name : RetrieveName} {key : Bytes}
    (hser : (retrieveCommand zlib (retrieveName name) key).serialize = .ok bytes)
    (hkey : checkKey key = .ok ()) (hne : key ≠ []) {now : ℤ} {server : Memcached}
    (hfits : ∀ item ∈ server.find now key, item.data.length + footerSize < 2 ^ 64) {unique : Bool}
    (hunique : unique = (Request.retrieve name key).unique)
    (hinput : c.input = reply unique (execute now (.retrieve key) server).1 ++ rest) :
    ∃ result c', commandParserSend (retrieveCommand zlib (retrieveName name) key) c = (result, c') ∧
      c'.input = rest ∧ Shows .text zlib unique (execute now (.retrieve key) server).1 result := by
  rw [execute_retrieve] at hinput ⊢
  cases hfind : server.find now key with
  | none =>
    simp only [hfind] at hinput ⊢
    exact exchange_shown hser rfl (by decide) rfl (fun _ => ⟨_, rfl⟩) hinput
  | some item =>
    simp only [hfind] at hinput ⊢
    have hreply : IsReply ⟨key, item.flags, item.data⟩ (if unique then item.cas else 0)
        (reply unique (.value key item)) := by
      refine ⟨if unique then [decimal item.cas.toNat] else [], ?_, rfl⟩
      cases unique with
      | true => exact Or.inl rfl
      | false => exact Or.inr ⟨rfl, rfl⟩
    obtain ⟨c', hsend, hrest⟩ := exchange_reply zlib ⟨key, item.flags, item.data⟩
      (hfits item hfind) hkey hne hreply name hinput
    refine ⟨_, c', hsend, hrest, ?_⟩
    simp [Shows]

theorem exchange_storage (zlib : Zlib) {name : StorageName} {key stored : Bytes} {opts : Opts}
    (hser : (storageCommand (storageName name) key stored opts).serialize = .ok bytes) (now : ℤ)
    (flags : ℕ) (expiration : ℤ) (cas : ℕ) (server : Memcached) {unique : Bool}
    (hinput : c.input = reply unique
      (execute now (.storage name key flags expiration stored cas) server).1 ++ rest) :
    ∃ result c', commandParserSend (storageCommand (storageName name) key stored opts) c =
        (result, c') ∧ c'.input = rest ∧ Shows .text zlib unique
          (execute now (.storage name key flags expiration stored cas) server).1 result := by
  rcases execute_storage now name key flags expiration stored cas server with
    ⟨cas', h⟩ | ⟨h, rfl⟩ | ⟨h, rfl⟩ | ⟨h, -⟩
  · rw [h] at hinput ⊢
    exact exchange_shown hser rfl (by decide) rfl (fun _ => ⟨_, rfl⟩) hinput
  · rw [h] at hinput ⊢
    exact exchange_shown hser rfl (by decide) rfl (fun _ => ⟨_, rfl⟩) hinput
  · rw [h] at hinput ⊢
    exact exchange_shown hser rfl (by decide) rfl (fun _ => ⟨_, rfl⟩) hinput
  · rw [h] at hinput ⊢
    by_cases hname : name = .cas
    · rw [reply, if_pos hname] at hinput
      exact exchange_shown hser rfl (by decide) rfl
        (fun _ => ⟨_, by rw [Answer.code, if_pos hname]⟩) hinput
    · rw [reply, if_neg hname] at hinput
      exact exchange_shown hser rfl (by decide) rfl
        (fun _ => ⟨_, by rw [Answer.code, if_neg hname]⟩) hinput

/-- **The reply to a text request** is parsed, and nothing of it is left. -/
theorem exchange_answer (hasks : Asks zlib request served)
    (hcommand : Text.command zlib request = .ok command) (hser : command.serialize = .ok bytes)
    (hkey : checkKey served.key = .ok ()) (hne : served.key ≠ []) {now : ℤ} {server : Memcached}
    (hfits : ∀ item ∈ server.find now served.key, item.data.length + footerSize < 2 ^ 64)
    (hinput : c.input = reply request.unique (execute now served server).1 ++ rest) :
    ∃ result c', commandParserSend command c = (result, c') ∧ c'.input = rest ∧
      Shows .text zlib request.unique (execute now served server).1 result := by
  cases hasks with
  | retrieve name key =>
    cases hcommand
    exact exchange_retrieve zlib hser hkey hne hfits rfl hinput
  | storage hpacked =>
    rw [Text.command, hpacked] at hcommand
    cases hcommand
    exact exchange_storage zlib hser now _ _ _ server hinput
  | touch key expiration =>
    cases hcommand
    rcases execute_touch now key expiration.toNat server with h | ⟨flags, h⟩
    · rw [h] at hinput ⊢
      exact exchange_shown hser rfl (by decide) rfl (fun _ => ⟨_, rfl⟩) hinput
    · rw [h] at hinput ⊢
      exact exchange_shown hser rfl (by decide) rfl (fun _ => ⟨_, rfl⟩) hinput
  | delete key =>
    cases hcommand
    rcases execute_delete now key server with h | h
    · rw [h] at hinput ⊢
      exact exchange_shown hser rfl (by decide) rfl (fun _ => ⟨_, rfl⟩) hinput
    · rw [h] at hinput ⊢
      exact exchange_shown hser rfl (by decide) rfl (fun _ => ⟨_, rfl⟩) hinput

end Text

/-! ## The binary protocol -/

namespace Binary

variable {success : Header → PendingResponse} {opcode : UInt8} {status : UInt16}
  {extrasLen : UInt8} {cas : UInt64} {body : Bytes}

theorem exchange_packet (hser : command.serialize = .ok bytes)
    (hdelimiter : command.headerDelimiter = .count 24)
    (hheader : command.deserializeHeader = deserializeHeader success)
    (hinput : c.input = packet opcode status extrasLen cas body ++ rest) :
    ∃ c', commandParserSend command c = deserializeBody
        (if status = 0 then success (responseHeader opcode status extrasLen cas body)
          else {
            response := { code := translateStatusToResponse status }
            bytes := (UInt32.ofNat body.length).toUInt64 }) c' ∧
      c'.input = body ++ rest := by
  have hpacket : c.input = (responseHeader opcode status extrasLen cas body).bytes ++
      (body ++ rest) := by
    rw [hinput, packet, List.append_assoc]
  exact ⟨_, commandParserSend_header hser hdelimiter hheader rfl hpacket, rfl⟩

theorem exchange_failure (hser : command.serialize = .ok bytes)
    (hdelimiter : command.headerDelimiter = .count 24)
    (hheader : command.deserializeHeader = deserializeHeader success) (hstatus : status ≠ 0)
    (hne : body ≠ []) (hbody : body.length < 2 ^ 32)
    (hinput : c.input = packet opcode status extrasLen cas body ++ rest) :
    ∃ c', commandParserSend command c =
      (.ok { code := translateStatusToResponse status, data := body }, c') ∧ c'.input = rest := by
  obtain ⟨c', hsend, hrest⟩ := exchange_packet hser hdelimiter hheader hinput
  have hlen : (UInt32.ofNat body.length).toUInt64.toNat = body.length := by
    rw [UInt32.toNat_toUInt64, UInt32.toNat_ofNat_of_lt' hbody]
  rw [hsend, if_neg hstatus, deserializeBody_append hrest hlen hne]
  exact ⟨_, rfl, rfl⟩

theorem exchange_shown {answer : Answer} {unique : Bool} (hser : command.serialize = .ok bytes)
    (hdelimiter : command.headerDelimiter = .count 24)
    (hheader : command.deserializeHeader = deserializeHeader success) (hstatus : status ≠ 0)
    (hne : body ≠ []) (hbody : body.length < 2 ^ 32)
    (hshows : ∀ data, Shows .binary zlib unique answer
      (.ok { code := translateStatusToResponse status, data }))
    (hinput : c.input = packet opcode status extrasLen cas body ++ rest) :
    ∃ result c', commandParserSend command c = (result, c') ∧ c'.input = rest ∧
      Shows .binary zlib unique answer result := by
  obtain ⟨c', hsend, hrest⟩ := exchange_failure hser hdelimiter hheader hstatus hne hbody hinput
  exact ⟨_, c', hsend, hrest, hshows _⟩

theorem exchange_success (hser : command.serialize = .ok bytes)
    (hdelimiter : command.headerDelimiter = .count 24)
    (hheader : command.deserializeHeader = deserializeHeader success) {code : ResponseCode}
    (hsuccess : ∀ hdr, success hdr = pending code)
    (hinput : c.input = packet opcode 0 extrasLen cas [] ++ rest) :
    ∃ c', commandParserSend command c = (.ok { code }, c') ∧ c'.input = rest := by
  obtain ⟨c', hsend, hrest⟩ := exchange_packet hser hdelimiter hheader hinput
  rw [hsend, if_pos rfl, hsuccess]
  exact ⟨c', rfl, hrest⟩

theorem exchange_touched (hser : command.serialize = .ok bytes)
    (hdelimiter : command.headerDelimiter = .count 24)
    (hheader : command.deserializeHeader = deserializeHeader touchSuccess) (flags : UInt32)
    (hinput : c.input = packet opcode 0 extrasLen cas (bigEndian 4 flags.toNat) ++ rest) :
    ∃ data c', commandParserSend command c = (.ok { code := .touched, data }, c') ∧
      c'.input = rest := by
  obtain ⟨c', hsend, hrest⟩ := exchange_packet hser hdelimiter hheader hinput
  have hlen : (bigEndian 4 flags.toNat).length = 4 := length_bigEndian 4 _
  have hbody : (touchSuccess
      (responseHeader opcode 0 extrasLen cas (bigEndian 4 flags.toNat))).bytes.toNat =
        (bigEndian 4 flags.toNat).length := by
    rw [touchSuccess, responseHeader, hlen]
    rfl
  have hne : bigEndian 4 flags.toNat ≠ [] := fun h => by
    rw [h] at hlen
    cases hlen
  rw [hsend, if_pos rfl, deserializeBody_append hrest hbody hne]
  simp only [touchSuccess, incrDecrSetBody, hlen]
  exact ⟨_, _, rfl, rfl⟩

theorem exchange_retrieve (zlib : Zlib) {name : RetrieveName} {key : Bytes}
    (hser : (retrieveCommand zlib (retrieveCode name) key).serialize = .ok bytes)
    (hkey : checkKey key = .ok ()) {now : ℤ} {server : Memcached}
    (hfits : ∀ item ∈ server.find now key, 4 + item.data.length < 2 ^ 32) {unique : Bool}
    (hinput : c.input = reply opcode (execute now (.retrieve key) server).1 ++ rest) :
    ∃ result c',
      commandParserSend (retrieveCommand zlib (retrieveCode name) key) c = (result, c') ∧
      c'.input = rest ∧
        Shows .binary zlib unique (execute now (.retrieve key) server).1 result := by
  rw [execute_retrieve] at hinput ⊢
  cases hfind : server.find now key with
  | none =>
    simp only [hfind] at hinput ⊢
    exact exchange_shown hser rfl rfl (by decide) (by decide) (by decide) (fun _ => ⟨_, rfl⟩)
      hinput
  | some item =>
    simp only [hfind] at hinput ⊢
    have hreply : IsReply ⟨key, item.flags, item.data⟩ item.cas
        (reply opcode (.value key item)) := by
      have hbody : (bigEndian 4 item.flags.toNat ++ item.data).length = 4 + item.data.length := by
        rw [List.length_append, length_bigEndian]
      refine ⟨responseHeader opcode 0 4 item.cas (bigEndian 4 item.flags.toNat ++ item.data), [],
        rfl, rfl, rfl, rfl, Or.inl rfl, rfl, ?_, ?_⟩
      · rw [responseHeader, hbody, UInt32.toNat_ofNat_of_lt' (hfits item hfind)]
        rfl
      · rw [List.append_nil]
        rfl
    obtain ⟨c', hsend, hrest⟩ := exchange_reply zlib ⟨key, item.flags, item.data⟩ hkey hreply
      (retrieveCode name) hinput
    refine ⟨_, c', hsend, hrest, ?_⟩
    simp [Shows]

theorem exchange_storage (zlib : Zlib) {name : StorageName} {key stored : Bytes} {opts : Opts}
    (hser : (storageCommand (hasExtras name) (storageCode name) key stored opts).serialize =
      .ok bytes) (now : ℤ) (flags : ℕ) (expiration : ℤ) (cas : ℕ) (server : Memcached)
    {unique : Bool}
    (hinput : c.input = reply opcode
      (execute now (.storage name key flags expiration stored cas) server).1 ++ rest) :
    ∃ result c', commandParserSend
        (storageCommand (hasExtras name) (storageCode name) key stored opts) c = (result, c') ∧
      c'.input = rest ∧ Shows .binary zlib unique
        (execute now (.storage name key flags expiration stored cas) server).1 result := by
  rcases execute_storage now name key flags expiration stored cas server with
    ⟨cas', h⟩ | ⟨h, rfl⟩ | ⟨h, rfl⟩ | ⟨h, -⟩
  · rw [h] at hinput ⊢
    obtain ⟨c', hsend, hrest⟩ := exchange_success hser rfl rfl (fun _ => rfl) hinput
    exact ⟨_, c', hsend, hrest, _, rfl⟩
  · rw [h] at hinput ⊢
    exact exchange_shown hser rfl rfl (by decide) (by decide) (by decide) (fun _ => ⟨_, rfl⟩)
      hinput
  · rw [h] at hinput ⊢
    exact exchange_shown hser rfl rfl (by decide) (by decide) (by decide) (fun _ => ⟨_, rfl⟩)
      hinput
  · rw [h] at hinput ⊢
    by_cases hname : name = .append ∨ name = .prepend
    · rw [reply, if_pos hname] at hinput
      exact exchange_shown hser rfl rfl (by decide) (by decide) (by decide)
        (fun _ => ⟨_, by rw [Answer.code, if_pos hname]; rfl⟩) hinput
    · rw [reply, if_neg hname] at hinput
      exact exchange_shown hser rfl rfl (by decide) (by decide) (by decide)
        (fun _ => ⟨_, by rw [Answer.code, if_neg hname]; rfl⟩) hinput

/-- **The reply to a binary request** is parsed, and nothing of it is left. -/
theorem exchange_answer (hasks : Asks zlib request served)
    (hcommand : Binary.command zlib request = .ok command) (hser : command.serialize = .ok bytes)
    (hkey : checkKey served.key = .ok ()) {now : ℤ} {server : Memcached}
    (hfits : ∀ item ∈ server.find now served.key, 4 + item.data.length < 2 ^ 32)
    (hinput : c.input = reply opcode (execute now served server).1 ++ rest) :
    ∃ result c', commandParserSend command c = (result, c') ∧ c'.input = rest ∧
      Shows .binary zlib request.unique (execute now served server).1 result := by
  cases hasks with
  | retrieve name key =>
    cases hcommand
    exact exchange_retrieve zlib hser hkey hfits hinput
  | storage hpacked =>
    rw [Binary.command, hpacked] at hcommand
    cases hcommand
    exact exchange_storage zlib hser now _ _ _ server hinput
  | touch key expiration =>
    cases hcommand
    rcases execute_touch now key expiration.toNat server with h | ⟨flags, h⟩
    · rw [h] at hinput ⊢
      exact exchange_shown hser rfl rfl (by decide) (by decide) (by decide) (fun _ => ⟨_, rfl⟩)
        hinput
    · rw [h] at hinput ⊢
      obtain ⟨data, c', hsend, hrest⟩ := exchange_touched hser rfl rfl flags hinput
      exact ⟨_, c', hsend, hrest, data, rfl⟩
  | delete key =>
    cases hcommand
    rcases execute_delete now key server with h | h
    · rw [h] at hinput ⊢
      exact exchange_shown hser rfl rfl (by decide) (by decide) (by decide) (fun _ => ⟨_, rfl⟩)
        hinput
    · rw [h] at hinput ⊢
      obtain ⟨c', hsend, hrest⟩ := exchange_success hser rfl rfl (fun _ => rfl) hinput
      exact ⟨_, c', hsend, hrest, _, rfl⟩

end Binary

/-! ## Both protocols -/

theorem Asks.key_ne_nil (hasks : Asks zlib request served) (hportable : Portable zlib request) :
    served.key ≠ [] := by
  cases hasks with
  | retrieve | delete => exact hportable
  | touch | storage => exact hportable.1

/-- **A request is executed and answered**, and the client gets the response of the answer. -/
theorem exchange_respond {api : Api} (hasks : Asks zlib request served)
    (hportable : Portable zlib request) (hcommand : api.command zlib request = .ok command)
    (hser : command.serialize = .ok bytes) (hkey : checkKey served.key = .ok ()) {now : ℤ}
    {server : Memcached}
    (hfits : ∀ item ∈ server.find now served.key, 4 + item.data.length < 2 ^ 32)
    (hinput : c.input = (api.respond now bytes server).1) :
    ∃ result c', commandParserSend command c = (result, c') ∧ c'.input = [] ∧
      (api.respond now bytes server).2 = (execute now served server).2 ∧
      Shows api zlib request.unique (execute now served server).1 result := by
  cases api with
  | text =>
    have hrespond := Text.respond_serialize hasks hportable hcommand hser now server
    have hsizes : ∀ item ∈ server.find now served.key,
        item.data.length + Text.footerSize < 2 ^ 64 := fun item hitem => by
      have := hfits item hitem
      rw [Text.footerSize]
      omega
    rw [Api.respond, hrespond] at hinput ⊢
    obtain ⟨result, c', hsend, hrest, hshows⟩ := Text.exchange_answer hasks hcommand hser hkey
      (hasks.key_ne_nil hportable) hsizes (hinput.trans (List.append_nil _).symm)
    exact ⟨result, c', hsend, hrest, rfl, hshows⟩
  | binary =>
    obtain ⟨opcode, hrespond⟩ :=
      Binary.respond_serialize hasks hportable hcommand hser hkey now server
    rw [Api.respond, hrespond] at hinput ⊢
    obtain ⟨result, c', hsend, hrest, hshows⟩ := Binary.exchange_answer hasks hcommand hser hkey
      hfits (hinput.trans (List.append_nil _).symm)
    exact ⟨result, c', hsend, hrest, rfl, hshows⟩

end Exchange

end McacheClient
