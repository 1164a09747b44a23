import McacheClient.Proto.Decode
import McacheClient.Proto.Retrieval

/-!
# A memcached server

What the server on the other end of a connection does with the bytes of a request, over either
protocol.

* `StoredItem`, `Memcached`: what is stored for a key, and a server with its count of cas ids;
* `ServerCommand`, `execute`, `Answer`: the commands that both protocols can carry, without the
  protocol;
* `Text.reply`, `Binary.reply`: the bytes of an answer;
* `respond`: a request is read, executed and answered;
* `Asks`: the command that a request of the client asks for;
* **`Text.respond_serialize`**, **`Binary.respond_serialize`**: both protocols execute it.
-/

namespace McacheClient

open Numeral

structure StoredItem where
  data : Bytes
  flags : UInt32
  deadline : Option ℤ
  cas : UInt64
  deriving DecidableEq

structure Memcached where
  items : Bytes → Option StoredItem
  lastCas : UInt64 := 0

/-- A request of a client as the server understands it. -/
inductive ServerCommand
  | retrieve (key : Bytes)
  | storage (name : StorageName) (key : Bytes) (flags : ℕ) (expiration : ℤ) (data : Bytes)
    (cas : ℕ)
  | touch (key : Bytes) (expiration : ℤ)
  | delete (key : Bytes)

def ServerCommand.key : ServerCommand → Bytes
  | retrieve key | storage _ key .. | touch key _ | delete key => key

/-- What comes of a command. A storage command may find an item where there must be none
(`present`), none where there must be one (`absent`), or one with another cas id (`mismatch`);
`unknown` is the answer to `touch` and `delete` when there is no item. -/
inductive Answer
  | value (key : Bytes) (item : StoredItem)
  | missing
  | stored (cas : UInt64)
  | present
  | absent (name : StorageName)
  | mismatch
  | touched (flags : UInt32)
  | deleted
  | unknown
  deriving DecidableEq

/-! ## Executing a command -/

/-- When an item expires: never, some seconds from now, or at a point in time, which every number
above 30 days is. -/
def deadline (now expiration : ℤ) : Option ℤ :=
  if expiration = 0 then none
  else if expiration ≤ 2592000 then some (now + expiration)
  else some expiration

namespace Memcached

/-- The item of a key, if it did not expire. -/
def find (now : ℤ) (key : Bytes) (server : Memcached) : Option StoredItem :=
  (server.items key).filter fun item => item.deadline.all (now < ·)

/-- Store an item under a new cas id. -/
def put (key data : Bytes) (flags : UInt32) (deadline : Option ℤ) (server : Memcached) :
    Answer × Memcached :=
  let cas := server.lastCas + 1
  (.stored cas,
    { items := Function.update server.items key (some { data, flags, deadline, cas })
      lastCas := cas })

end Memcached

/-- Append and prepend keep the flags and the deadline of the item. -/
def execute (now : ℤ) (command : ServerCommand) (server : Memcached) : Answer × Memcached :=
  match command, server.find now command.key with
  | .retrieve _, none => (.missing, server)
  | .retrieve key, some item => (.value key item, server)
  | .storage name key flags expiration data cas, item =>
    let fresh := server.put key data (.ofNat flags) (deadline now expiration)
    match name, item with
    | .set, _ | .add, none | .replace, some _ => fresh
    | .cas, some item => if item.cas.toNat = cas then fresh else (.mismatch, server)
    | .add, some _ => (.present, server)
    | .append, some item => server.put key (item.data ++ data) item.flags item.deadline
    | .prepend, some item => server.put key (data ++ item.data) item.flags item.deadline
    | name, none => (.absent name, server)
  | .touch key expiration, some item =>
    let item := { item with deadline := deadline now expiration }
    (.touched item.flags, { server with items := Function.update server.items key (some item) })
  | .delete key, some _ =>
    (.deleted, { server with items := Function.update server.items key none })
  | .touch .., none | .delete _, none => (.unknown, server)

/-! ## The text protocol -/

namespace Text

/-- Is it `gets`? -/
def WireCommand.unique : WireCommand → Bool
  | retrieve name _ => name = retrieveName .gets
  | _ => false

def WireCommand.serverCommand : WireCommand → Option ServerCommand
  | retrieve _ key => some (.retrieve key)
  | storage name key flags expiration data cas =>
    ([StorageName.set, .add, .replace, .append, .prepend, .cas].find? (storageName · = name)).map
      fun name => .storage name key flags expiration data cas
  | counter name key value => if name = ascii "touch" then some (.touch key value) else none
  | delete key => some (.delete key)
  | flushAll _ => none

/-- The lines of an answer; `gets` shows the cas id. -/
def reply (unique : Bool) : Answer → Bytes
  | .value key item =>
    line (ascii "VALUE" :: key :: decimal item.flags.toNat :: decimal item.data.length ::
      if unique then [decimal item.cas.toNat] else []) ++ (item.data ++ footer)
  | .missing => line [ascii "END"]
  | .stored _ => line [ascii "STORED"]
  | .present => line [ascii "NOT_STORED"]
  | .absent name => line [ascii (if name = .cas then "NOT_FOUND" else "NOT_STORED")]
  | .mismatch => line [ascii "EXISTS"]
  | .touched _ => line [ascii "TOUCHED"]
  | .deleted => line [ascii "DELETED"]
  | .unknown => line [ascii "NOT_FOUND"]

def respond (now : ℤ) (request : Bytes) (server : Memcached) : Bytes × Memcached :=
  match readCommand true request with
  | none => (line [ascii "ERROR"], server)
  | some (command, _) =>
    match command.serverCommand with
    | none => (line [ascii "ERROR"], server)
    | some serverCommand =>
      let (answer, server) := execute now serverCommand server
      (reply command.unique answer, server)

end Text

/-! ## The binary protocol -/

namespace Binary

/-- A cas id in the header makes every overwriting command a `cas`. -/
def WireCommand.serverCommand (command : WireCommand) : Option ServerCommand :=
  let overwrite (name : StorageName) (flags : ℕ) (expiration : ℤ) : ServerCommand :=
    .storage (if command.cas = 0 then name else .cas) command.key flags expiration command.value
      command.cas.toNat
  let extend (name : StorageName) : ServerCommand :=
    .storage name command.key 0 0 command.value command.cas.toNat
  match command.opcode.toNat, command.extras with
  | 0x00, .none => some (.retrieve command.key)
  | 0x01, .item flags expiration => some (overwrite .set flags expiration)
  | 0x02, .item flags expiration => some (overwrite .add flags expiration)
  | 0x03, .item flags expiration => some (overwrite .replace flags expiration)
  | 0x04, .none => some (.delete command.key)
  | 0x0E, .none => some (extend .append)
  | 0x0F, .none => some (extend .prepend)
  | 0x1C, .expiration expiration => some (.touch command.key expiration)
  | _, _ => none

def responseHeader (opcode : UInt8) (status : UInt16) (extrasLen : UInt8) (cas : UInt64)
    (body : Bytes) : Header where
  magic := Header.responseMagic
  opcode
  keyLen := 0
  extrasLen
  status
  bodyLen := .ofNat body.length
  cas

/-- A response packet without a key. -/
def packet (opcode : UInt8) (status : UInt16) (extrasLen : UInt8) (cas : UInt64) (body : Bytes) :
    Bytes :=
  (responseHeader opcode status extrasLen cas body).bytes ++ body

/-- The packet of an answer; a failure has a text as its body. -/
def reply (opcode : UInt8) : Answer → Bytes
  | .value _ item => packet opcode 0 4 item.cas (bigEndian 4 item.flags.toNat ++ item.data)
  | .stored cas => packet opcode 0 0 cas []
  | .touched flags => packet opcode 0 4 0 (bigEndian 4 flags.toNat)
  | .deleted => packet opcode 0 0 0 []
  | .present | .mismatch => packet opcode 0x0002 0 0 (ascii "Data exists for key.")
  | .absent name =>
    if name = .append ∨ name = .prepend then packet opcode 0x0005 0 0 (ascii "Not stored.")
    else packet opcode 0x0001 0 0 (ascii "Not found")
  | .missing | .unknown => packet opcode 0x0001 0 0 (ascii "Not found")

def respond (now : ℤ) (request : Bytes) (server : Memcached) : Bytes × Memcached :=
  match (readPacket request).bind fun (packet, _) => packet.command with
  | none => (packet 0 0x0081 0 0 (ascii "Unknown command"), server)
  | some command =>
    match command.serverCommand with
    | none => (packet command.opcode 0x0081 0 0 (ascii "Unknown command"), server)
    | some serverCommand =>
      let (answer, server) := execute now serverCommand server
      (reply command.opcode answer, server)

end Binary

/-- What a server sends back for the bytes of a request. -/
def Api.respond : Api → ℤ → Bytes → Memcached → Bytes × Memcached
  | text => Text.respond
  | binary => Binary.respond

/-! ## The requests of a client -/

/-- The command that a request asks for. -/
inductive Asks (zlib : Zlib) : Request → ServerCommand → Prop
  | retrieve (name : RetrieveName) (key : Bytes) : Asks zlib (.retrieve name key) (.retrieve key)
  | storage {name : StorageName} {key data stored : Bytes} {opts : Opts}
      (hpacked : packed zlib data opts = .ok stored) : Asks zlib (.storage name key data opts)
        (.storage name key opts.flags.toNat opts.expiration.toInt stored opts.cas.toNat)
  | touch (key : Bytes) (expiration : UInt64) :
      Asks zlib (.touch key expiration) (.touch key expiration.toNat)
  | delete (key : Bytes) : Asks zlib (.delete key) (.delete key)

/-- What both protocols can carry in the same way: a key, expirations and lengths of 32 bits, and a
cas id for `cas` only. -/
def Portable (zlib : Zlib) : Request → Prop
  | .retrieve _ key | .delete key => key ≠ []
  | .touch key expiration => key ≠ [] ∧ expiration.toNat < 2 ^ 32
  | .storage name key data opts => key ≠ [] ∧ (opts.cas ≠ 0 ↔ name = .cas) ∧
    0 ≤ opts.expiration.toInt ∧ opts.expiration.toInt < 2 ^ 32 ∧
    ∀ stored, packed zlib data opts = .ok stored → 8 + key.length + stored.length < 2 ^ 32
  | .counter .. | .flushAll _ => False

section Requests

variable {zlib : Zlib} {request : Request} {served : ServerCommand} {command : Command}
  {bytes : Bytes}

theorem Asks.key (h : Asks zlib request served) : request.key = some served.key := by
  cases h <;> rfl

/-- Is the request a `gets`? -/
def Request.unique : Request → Bool
  | .retrieve .gets _ => true
  | _ => false

namespace Text

theorem find?_storageName (name : StorageName) :
    ([StorageName.set, .add, .replace, .append, .prepend, .cas].find?
      (storageName · = storageName name)) = some name := by
  cases name <;> decide

theorem serverCommand_wire (h : Asks zlib request served) : ∃ wired,
    wire zlib request = .ok wired ∧ wired.serverCommand = some served ∧
      wired.unique = request.unique := by
  cases h with
  | retrieve name key => cases name <;> exact ⟨_, rfl, rfl, rfl⟩
  | storage hpacked =>
    refine ⟨_, by rw [wire, hpacked]; rfl, ?_, rfl⟩
    rw [WireCommand.serverCommand, find?_storageName]
    rfl
  | touch key expiration => exact ⟨_, rfl, rfl, rfl⟩
  | delete key => exact ⟨_, rfl, rfl, rfl⟩

/-- **A text request is executed** as the command that it asks for. -/
theorem respond_serialize (hasks : Asks zlib request served) (hportable : Portable zlib request)
    (hcommand : Text.command zlib request = .ok command) (hser : command.serialize = .ok bytes)
    (now : ℤ) (server : Memcached) : respond now bytes server =
      (reply request.unique (execute now served server).1, (execute now served server).2) := by
  obtain ⟨wired, hwire, hserved, hunique⟩ := serverCommand_wire hasks
  have hreadable : Readable true request := by
    cases hasks with
    | retrieve | delete => exact hportable
    | touch => exact hportable.1
    | storage => exact ⟨hportable.1, fun _ => hportable.2.1.mpr⟩
  obtain ⟨wired', hwire', hread⟩ := recovers_of_readable hcommand hser hreadable
  obtain rfl := Except.ok.inj (hwire.symm.trans hwire')
  simp only [respond, hread, hserved, hunique]

end Text

namespace Binary

theorem toInt_expiration {expiration : UInt64} (h : expiration.toNat < 2 ^ 32) :
    expiration.toInt64.toInt = expiration.toNat := by
  have hnat : expiration.toInt64.toBitVec.toNat = expiration.toNat := rfl
  rw [← hnat]
  exact BitVec.toInt_eq_toNat_of_lt (by omega)

theorem serverCommand_wire (h : Asks zlib request served) (hportable : Portable zlib request) :
    ∃ wired served', wire zlib request = .ok wired ∧ wired.serverCommand = some served' ∧
      ∀ now server, execute now served' server = execute now served server := by
  cases h with
  | retrieve name key => cases name <;> exact ⟨_, _, rfl, rfl, fun _ _ => rfl⟩
  | touch key expiration =>
    refine ⟨_, _, rfl, rfl, fun now server => ?_⟩
    rw [toInt_expiration hportable.2]
  | delete key => exact ⟨_, _, rfl, rfl, fun _ _ => rfl⟩
  | @storage name key data stored opts hpacked =>
    obtain ⟨-, hcas, -⟩ := hportable
    let wired : WireCommand := {
      opcode := storageCode name
      extras := if hasExtras name then .item opts.flags.toNat opts.expiration.toInt else .none
      key, value := stored, cas := opts.cas }
    have hserved : wired.serverCommand = some (.storage name key
        (if hasExtras name then opts.flags.toNat else 0)
        (if hasExtras name then opts.expiration.toInt else 0) stored opts.cas.toNat) := by
      by_cases hname : name = .cas
      · subst hname
        have hne : opts.cas ≠ 0 := hcas.mpr rfl
        simp [WireCommand.serverCommand, wired, storageCode, hasExtras, hne]
      · have hzero : opts.cas = 0 := not_not.mp (mt hcas.mp hname)
        cases name <;> simp_all [WireCommand.serverCommand, wired, storageCode, hasExtras]
    refine ⟨wired, _, by rw [wire, hpacked]; rfl, hserved, fun now server => ?_⟩
    unfold execute
    simp only [ServerCommand.key]
    cases name <;> cases server.find now key <;> rfl

theorem expiration_of_portable (hasks : Asks zlib request served)
    (hportable : Portable zlib request) : ∀ e ∈ expiration request, 0 ≤ e ∧ e < 2 ^ 32 := by
  intro e he
  cases hasks with
  | retrieve | delete => cases he
  | touch key exp =>
    cases he
    have hlt := hportable.2
    rw [toInt_expiration hlt]
    omega
  | storage =>
    cases he
    exact ⟨hportable.2.2.1, hportable.2.2.2.1⟩

theorem fits_of_portable (hasks : Asks zlib request served) (hportable : Portable zlib request)
    (hkey : checkKey served.key = .ok ()) {wired : WireCommand}
    (hwire : wire zlib request = .ok wired) :
    wired.extras.length + wired.key.length + wired.value.length < 2 ^ 32 := by
  have hlen := (checkKey_ok.mp hkey).1
  cases hasks with
  | retrieve | touch | delete =>
    cases hwire
    simp only [Extras.length, List.length_nil, ServerCommand.key] at hlen ⊢
    omega
  | storage hpacked =>
    have hfits := hportable.2.2.2.2 _ hpacked
    rw [wire, hpacked] at hwire
    cases hwire
    simp only [ServerCommand.key] at hlen ⊢
    split_ifs <;> simp only [Extras.length] <;> omega

/-- **A binary request is executed** as the command that it asks for. -/
theorem respond_serialize (hasks : Asks zlib request served) (hportable : Portable zlib request)
    (hcommand : Binary.command zlib request = .ok command) (hser : command.serialize = .ok bytes)
    (hkey : checkKey served.key = .ok ()) (now : ℤ) (server : Memcached) :
    ∃ opcode, respond now bytes server =
      (reply opcode (execute now served server).1, (execute now served server).2) := by
  obtain ⟨wired, served', hwire, hserved, hexecute⟩ := serverCommand_wire hasks hportable
  have hkeys : ∀ key ∈ request.key, checkKey key = .ok () := fun key h => by
    rw [hasks.key] at h
    exact Option.some.inj h ▸ hkey
  obtain ⟨command', bytes', hcommand', hser', packet, hread, -, -, -, -, hpacket⟩ :=
    readPacket_serialize hwire hkeys (expiration_of_portable hasks hportable)
      (fits_of_portable hasks hportable hkey hwire)
  obtain rfl := Except.ok.inj (hcommand.symm.trans hcommand')
  obtain rfl := Except.ok.inj (hser.symm.trans hser')
  have hread := hread []
  rw [List.append_nil] at hread
  refine ⟨wired.opcode, ?_⟩
  simp only [respond, hread, Option.bind_some, hpacket, hserved, hexecute]

end Binary

end Requests

end McacheClient
