import McacheClient.Proto.Binary

/-!
# Binary requests decode

A reference decoder of the binary format: a header of 24 bytes, `extras_len` bytes of extras,
`key_len` bytes of key, and a value that is the rest of the body.

* `Packet`, `readPacket`: the parts of a packet, and the bytes after it;
* `Extras`, `readExtras`: what an opcode makes of its extras;
* `WireCommand`, `Packet.command`: the command that a packet carries;
* `wire`: the command that a request stands for;
* **`readPacket_serialize`**: the packet of a serialized request is read whole, its lengths agree,
  and it carries the command that the request stands for.
-/

namespace McacheClient.Binary

open Numeral

/-! ## The decoder -/

/-- The parts of a packet. -/
structure Packet where
  hdr : Header
  extras : Bytes
  key : Bytes
  value : Bytes
  deriving DecidableEq

/-- The first packet, and the bytes after it. -/
def readPacket (input : Bytes) : Option (Packet × Bytes) :=
  match Header.parse input with
  | none => none
  | some hdr =>
    let extrasLen := hdr.extrasLen.toNat
    let keyLen := hdr.keyLen.toNat
    let bodyLen := hdr.bodyLen.toNat
    let body := input.drop 24
    if body.length < bodyLen ∨ bodyLen < extrasLen + keyLen then none
    else some ({
      hdr
      extras := body.take extrasLen
      key := (body.drop extrasLen).take keyLen
      value := (body.take bodyLen).drop (extrasLen + keyLen) }, body.drop bodyLen)

/-- The extras of a command. -/
inductive Extras
  | none
  | item (flags : ℕ) (expiration : ℤ)
  | counter (delta initial : ℕ) (expiration : ℤ)
  | expiration (expiration : ℤ)
  deriving DecidableEq

/-- The length of the extras on the wire. -/
def Extras.length : Extras → ℕ
  | none => 0
  | item .. => 8
  | counter .. => 20
  | expiration _ => 4

/-- The extras that belong to an opcode. -/
def readExtras (opcode : UInt8) (extras : Bytes) : Option Extras :=
  let (word, afterWord) := cutBigEndian 4 extras
  let (delta, afterDelta) := cutBigEndian 8 extras
  let (initial, afterInitial) := cutBigEndian 8 afterDelta
  if opcode ∈ [0x01, 0x02, 0x03] ∧ extras.length = 8 then
    some (.item word (ofBigEndian afterWord))
  else if opcode ∈ [0x05, 0x06] ∧ extras.length = 20 then
    some (.counter delta initial (ofBigEndian afterInitial))
  else if opcode ∈ [0x08, 0x1C] ∧ extras.length = 4 then some (.expiration word)
  else if opcode ∈ [0x00, 0x04, 0x0E, 0x0F] ∧ extras.length = 0 then some .none
  else none

/-- A command as a server reads it. -/
structure WireCommand where
  opcode : UInt8
  extras : Extras := .none
  key : Bytes := []
  value : Bytes := []
  cas : UInt64 := 0
  deriving DecidableEq

/-- The command that a packet carries, when it is a request. -/
def Packet.command (packet : Packet) : Option WireCommand :=
  if packet.hdr.magic ≠ 0x80 then none
  else (readExtras packet.hdr.opcode packet.extras).map fun extras => {
    opcode := packet.hdr.opcode
    extras
    key := packet.key
    value := packet.value
    cas := packet.hdr.cas }

/-! ## Requests -/

/-- The command that a request stands for. -/
def wire (zlib : Zlib) : Request → Except Exn WireCommand
  | .retrieve name key => .ok { opcode := retrieveCode name, key }
  | .storage name key data opts => do
    let value ← packed zlib data opts
    let extras :=
      if hasExtras name then .item opts.flags.toNat opts.expiration.toInt else Extras.none
    return { opcode := storageCode name, extras, key, value, cas := opts.cas }
  | .counter name key value opts => .ok {
      opcode := counterCode name
      extras := .counter value.toNat opts.initial.toNat opts.expiration.toInt
      key }
  | .touch key expiration =>
    .ok { opcode := 0x1C, extras := .expiration expiration.toInt64.toInt, key }
  | .delete key => .ok { opcode := 0x04, key }
  | .flushAll expiration => .ok { opcode := 0x08, extras := .expiration expiration.toNat }

/-- The expiration of a request that has one. -/
def expiration : Request → Option ℤ
  | .storage _ _ _ opts | .counter _ _ _ opts => some opts.expiration.toInt
  | .touch _ expiration => some expiration.toInt64.toInt
  | .flushAll expiration => some expiration.toNat
  | .retrieve .. | .delete _ => none

/-- The bytes of a packet are read as this command, whatever follows them, and the lengths in the
header are those of the parts. -/
def Decodes (bytes : Bytes) (wired : WireCommand) : Prop :=
  ∃ packet : Packet, (∀ rest, readPacket (bytes ++ rest) = some (packet, rest)) ∧
    packet.hdr.magic = 0x80 ∧
    packet.hdr.extrasLen.toNat = packet.extras.length ∧
    packet.hdr.keyLen.toNat = packet.key.length ∧
    packet.hdr.bodyLen.toNat =
      packet.extras.length + packet.key.length + packet.value.length ∧
    packet.command = some wired

/-! ## The parts of a packet -/

theorem readPacket_append {hdr : Header} {extras key value : Bytes}
    (hextras : hdr.extrasLen.toNat = extras.length) (hkey : hdr.keyLen.toNat = key.length)
    (hbody : hdr.bodyLen.toNat = extras.length + key.length + value.length) (rest : Bytes) :
    readPacket (hdr.bytes ++ extras ++ key ++ value ++ rest) =
      some ({ hdr, extras, key, value }, rest) := by
  have hassoc : hdr.bytes ++ extras ++ key ++ value ++ rest =
      hdr.bytes ++ (extras ++ key ++ value ++ rest) := by
    simp only [List.append_assoc]
  have hlen : (extras ++ key ++ value).length = hdr.bodyLen.toNat := by
    rw [hbody, List.length_append, List.length_append]
  have hfits : ¬((extras ++ key ++ value ++ rest).length < hdr.bodyLen.toNat ∨
      hdr.bodyLen.toNat < hdr.extrasLen.toNat + hdr.keyLen.toNat) := by
    rw [List.length_append, hlen, hextras, hkey]
    omega
  rw [hassoc]
  simp only [readPacket, hdr.parse_bytes, List.drop_left' hdr.length_bytes]
  rw [if_neg hfits, List.take_left' hlen, List.drop_left' hlen, hextras, hkey]
  have hvalue : (extras ++ key ++ value).drop (extras.length + key.length) = value :=
    List.drop_left' (by rw [List.length_append])
  rw [hvalue]
  simp

theorem ofBigEndian_expirationBytes {expiration : Int64} (h0 : 0 ≤ expiration.toInt)
    (h1 : expiration.toInt < 2 ^ 32) :
    (ofBigEndian (expirationBytes expiration) : ℤ) = expiration.toInt := by
  have hpos : 0 ≤ expiration := Int64.le_iff_toInt_le.mpr h0
  have hnat : expiration.toUInt64.toNat = expiration.toInt.toNat := by
    rw [Int64.toNat_toUInt64_of_le hpos]
    rfl
  rw [expirationBytes, ofBigEndian_bigEndian, UInt64.toNat_toUInt32, hnat]
  omega

theorem length_expirationBytes (expiration : Int64) : (expirationBytes expiration).length = 4 :=
  length_bigEndian 4 _

theorem cutBigEndian_number {w n : ℕ} (hn : n < 256 ^ w) (rest : Bytes) :
    cutBigEndian w (bigEndian w n ++ rest) = (n, rest) := by
  rw [cutBigEndian_append, Nat.mod_eq_of_lt hn]

theorem readExtras_item {opcode : UInt8} (hopcode : opcode ∈ [0x01, 0x02, 0x03]) (flags : UInt32)
    {expiration : Int64} (h0 : 0 ≤ expiration.toInt) (h1 : expiration.toInt < 2 ^ 32) :
    readExtras opcode (bigEndian 4 flags.toNat ++ expirationBytes expiration) =
      some (.item flags.toNat expiration.toInt) := by
  have hlen : (bigEndian 4 flags.toNat ++ expirationBytes expiration).length = 8 := by
    rw [List.length_append, length_bigEndian, length_expirationBytes]
  have hcut := cutBigEndian_number (w := 4) flags.toNat_lt (expirationBytes expiration)
  simp only [readExtras]
  rw [if_pos ⟨hopcode, hlen⟩, hcut, ofBigEndian_expirationBytes h0 h1]

theorem readExtras_counter {opcode : UInt8} (hopcode : opcode ∈ [0x05, 0x06])
    (delta initial : UInt64) {expiration : Int64} (h0 : 0 ≤ expiration.toInt)
    (h1 : expiration.toInt < 2 ^ 32) :
    readExtras opcode
        (bigEndian 8 delta.toNat ++ bigEndian 8 initial.toNat ++ expirationBytes expiration) =
      some (.counter delta.toNat initial.toNat expiration.toInt) := by
  have hlen : (bigEndian 8 delta.toNat ++ (bigEndian 8 initial.toNat ++
      expirationBytes expiration)).length = 20 := by
    simp [length_expirationBytes]
  have hno : ¬(opcode ∈ [0x01, 0x02, 0x03] ∧ 20 = 8) := by omega
  have hdelta := cutBigEndian_number (w := 8) delta.toNat_lt
    (bigEndian 8 initial.toNat ++ expirationBytes expiration)
  have hinitial := cutBigEndian_number (w := 8) initial.toNat_lt (expirationBytes expiration)
  rw [List.append_assoc]
  simp only [readExtras, hlen, hdelta, hinitial]
  rw [if_neg hno, if_pos ⟨hopcode, trivial⟩, ofBigEndian_expirationBytes h0 h1]

theorem readExtras_expiration {opcode : UInt8} (hopcode : opcode ∈ [0x08, 0x1C])
    {expiration : Int64} (h0 : 0 ≤ expiration.toInt) (h1 : expiration.toInt < 2 ^ 32) :
    readExtras opcode (expirationBytes expiration) = some (.expiration expiration.toInt) := by
  have hlen := length_expirationBytes expiration
  have hitem : ¬(opcode ∈ [0x01, 0x02, 0x03] ∧ 4 = 8) := by omega
  have hcounter : ¬(opcode ∈ [0x05, 0x06] ∧ 4 = 20) := by omega
  have hword : (expirationBytes expiration).take 4 = expirationBytes expiration :=
    List.take_of_length_le hlen.le
  simp only [readExtras, hlen, cutBigEndian, hword]
  rw [if_neg hitem, if_neg hcounter, if_pos ⟨hopcode, trivial⟩, ofBigEndian_expirationBytes h0 h1]

theorem readExtras_none {opcode : UInt8} (hopcode : opcode ∈ [0x00, 0x04, 0x0E, 0x0F]) :
    readExtras opcode [] = some .none := by
  simp only [List.mem_cons, List.not_mem_nil, or_false] at hopcode
  rcases hopcode with rfl | rfl | rfl | rfl <;> rfl

/-! ## Serialized requests -/

section Serialize

variable {extras key value : Bytes} {parsed : Extras}

theorem decodes_append {hdr : Header} (hmagic : hdr.magic = Header.requestMagic)
    (hextrasLen : hdr.extrasLen.toNat = extras.length) (hkeyLen : hdr.keyLen.toNat = key.length)
    (hbodyLen : hdr.bodyLen.toNat = extras.length + key.length + value.length)
    (hparsed : readExtras hdr.opcode extras = some parsed) :
    Decodes (hdr.bytes ++ extras ++ key ++ value)
      { opcode := hdr.opcode, extras := parsed, key, value, cas := hdr.cas } := by
  refine ⟨{ hdr, extras, key, value }, ?_, hmagic, hextrasLen, hkeyLen, hbodyLen, ?_⟩
  · exact readPacket_append hextrasLen hkeyLen hbodyLen
  · have hno : ¬hdr.magic ≠ 0x80 := fun h => h hmagic
    rw [Packet.command, if_neg hno, hparsed]
    rfl

theorem toNat_keyLen (hkey : checkKey key = .ok ()) :
    (UInt16.ofNat key.length).toNat = key.length := by
  apply UInt16.toNat_ofNat_of_lt'
  show key.length < 2 ^ 16
  have := (checkKey_ok.mp hkey).1
  omega

theorem decodes_keyed (opcode extrasLen : UInt8) (extras key value : Bytes) (bodyLen : ℕ)
    (cas : UInt64) (hkey : checkKey key = .ok ()) (hextrasLen : extrasLen.toNat = extras.length)
    (hbodyLen : bodyLen = extras.length + key.length + value.length) (hfits : bodyLen < 2 ^ 32)
    (hparsed : readExtras opcode extras = some parsed) :
    ∃ bytes, keyed (.request (.ofNat key.length) (.ofNat bodyLen) extrasLen opcode cas) extras key
        value = .ok bytes ∧
      Decodes bytes { opcode, extras := parsed, key, value, cas } := by
  let hdr : Header := .request (.ofNat key.length) (.ofNat bodyLen) extrasLen opcode cas
  have hbody : hdr.bodyLen.toNat = extras.length + key.length + value.length :=
    (UInt32.toNat_ofNat_of_lt' hfits).trans hbodyLen
  have hdecodes : Decodes (hdr.bytes ++ extras ++ key ++ value)
      { opcode, extras := parsed, key, value, cas } :=
    decodes_append rfl hextrasLen (toNat_keyLen hkey) hbody hparsed
  refine ⟨_, ?_, hdecodes⟩
  rw [keyed, hkey]
  rfl

variable {expiration : Int64}

theorem retrieveCommand_decodes (zlib : Zlib) (name : RetrieveName) (hkey : checkKey key = .ok ()) :
    ∃ bytes, (retrieveCommand zlib (retrieveCode name) key).serialize = .ok bytes ∧
      Decodes bytes { opcode := retrieveCode name, key } := by
  have hopcode : retrieveCode name ∈ [0x00, 0x04, 0x0E, 0x0F] := by cases name <;> decide
  have hlen := (checkKey_ok.mp hkey).1
  exact decodes_keyed _ 0 [] key [] key.length 0 hkey rfl (by simp) (by omega)
    (readExtras_none hopcode)

theorem storageCommand_decodes (name : StorageName) (opts : Opts) (hkey : checkKey key = .ok ())
    (h0 : 0 ≤ opts.expiration.toInt) (h1 : opts.expiration.toInt < 2 ^ 32)
    (hfits : (if hasExtras name then 8 else 0) + key.length + value.length < 2 ^ 32) :
    ∃ bytes, (storageCommand (hasExtras name) (storageCode name) key value opts).serialize =
        .ok bytes ∧
      Decodes bytes {
        opcode := storageCode name
        extras :=
          if hasExtras name then .item opts.flags.toNat opts.expiration.toInt else .none
        key, value, cas := opts.cas } := by
  cases hextras : hasExtras name with
  | true =>
    rw [hextras] at hfits
    have hopcode : storageCode name ∈ [0x01, 0x02, 0x03] := by
      revert hextras
      cases name <;> decide
    have hlen : (bigEndian 4 opts.flags.toNat ++ expirationBytes opts.expiration).length = 8 := by
      rw [List.length_append, length_bigEndian, length_expirationBytes]
    apply decodes_keyed _ 8 _ key value _ opts.cas hkey hlen.symm
    · rw [toNat_keyLen hkey, hlen]
      show key.length + value.length + 8 = _
      omega
    · rw [toNat_keyLen hkey]
      show key.length + value.length + 8 < _
      simp at hfits
      omega
    · exact readExtras_item hopcode opts.flags h0 h1
  | false =>
    rw [hextras] at hfits
    have hopcode : storageCode name ∈ [0x00, 0x04, 0x0E, 0x0F] := by
      revert hextras
      cases name <;> decide
    apply decodes_keyed _ 0 [] key value _ opts.cas hkey rfl
    · rw [toNat_keyLen hkey]
      show key.length + value.length + 0 = _
      simp
    · rw [toNat_keyLen hkey]
      show key.length + value.length + 0 < _
      simpa using hfits
    · exact readExtras_none hopcode

theorem incrDecrCommand_decodes (name : CounterName) (delta : UInt64) (opts : Opts)
    (hkey : checkKey key = .ok ()) (h0 : 0 ≤ opts.expiration.toInt)
    (h1 : opts.expiration.toInt < 2 ^ 32) :
    ∃ bytes, (incrDecrCommand (counterCode name) key delta opts).serialize = .ok bytes ∧
      Decodes bytes {
        opcode := counterCode name
        extras := .counter delta.toNat opts.initial.toNat opts.expiration.toInt
        key } := by
  have hopcode : counterCode name ∈ [0x05, 0x06] := by cases name <;> decide
  have hlen : (bigEndian 8 delta.toNat ++ bigEndian 8 opts.initial.toNat ++
      expirationBytes opts.expiration).length = 20 := by
    simp [length_expirationBytes]
  have hkeyLen := (checkKey_ok.mp hkey).1
  apply decodes_keyed _ 20 _ key [] (key.length + 20) 0 hkey hlen.symm
  · rw [hlen, List.length_nil]
    omega
  · omega
  · exact readExtras_counter hopcode delta opts.initial h0 h1

theorem deleteCommand_decodes (hkey : checkKey key = .ok ()) :
    ∃ bytes, (deleteCommand key).serialize = .ok bytes ∧
      Decodes bytes { opcode := 0x04, key } := by
  have hlen := (checkKey_ok.mp hkey).1
  exact decodes_keyed _ 0 [] key [] key.length 0 hkey rfl (by simp) (by omega)
    (readExtras_none (by decide))

theorem touchCommand_decodes (hkey : checkKey key = .ok ()) (h0 : 0 ≤ expiration.toInt)
    (h1 : expiration.toInt < 2 ^ 32) :
    ∃ bytes, (touchCommand key expiration).serialize = .ok bytes ∧
      Decodes bytes { opcode := 0x1C, extras := .expiration expiration.toInt, key } := by
  have hlen := length_expirationBytes expiration
  have hkeyLen := (checkKey_ok.mp hkey).1
  apply decodes_keyed _ 4 _ key [] (key.length + 4) 0 hkey hlen.symm
  · rw [hlen, List.length_nil]
    omega
  · omega
  · exact readExtras_expiration (by decide) h0 h1

theorem flushAllCommand_decodes (h0 : 0 ≤ expiration.toInt) (h1 : expiration.toInt < 2 ^ 32) :
    ∃ bytes, (flushAllCommand expiration).serialize = .ok bytes ∧
      Decodes bytes { opcode := 0x08, extras := .expiration expiration.toInt } := by
  have hlen := length_expirationBytes expiration
  let hdr : Header := .request 0 4 4 0x08
  have hdecodes : Decodes (hdr.bytes ++ expirationBytes expiration ++ [] ++ [])
      { opcode := 0x08, extras := .expiration expiration.toInt } :=
    decodes_append rfl hlen.symm rfl (by rw [hlen]; rfl) (readExtras_expiration (by decide) h0 h1)
  rw [List.append_nil, List.append_nil] at hdecodes
  exact ⟨_, rfl, hdecodes⟩

end Serialize

theorem wire_storage_ok {zlib : Zlib} {name : StorageName} {key data : Bytes} {opts : Opts}
    {wired : WireCommand} (h : wire zlib (.storage name key data opts) = .ok wired) :
    ∃ value, packed zlib data opts = .ok value ∧ wired =
      { opcode := storageCode name
        extras :=
          if hasExtras name then .item opts.flags.toNat opts.expiration.toInt else Extras.none
        key, value, cas := opts.cas } := by
  rw [wire] at h
  cases hpacked : packed zlib data opts with
  | error e =>
    rw [hpacked] at h
    cases h
  | ok value =>
    rw [hpacked] at h
    exact ⟨value, rfl, (Except.ok.inj h).symm⟩

/-- **A serialized request is read back** as the command that it stands for. -/
theorem readPacket_serialize {zlib : Zlib} {request : Request} {wired : WireCommand}
    (hwire : wire zlib request = .ok wired) (hkey : ∀ key ∈ request.key, checkKey key = .ok ())
    (hexpiration : ∀ e ∈ expiration request, 0 ≤ e ∧ e < 2 ^ 32)
    (hfits : wired.extras.length + wired.key.length + wired.value.length < 2 ^ 32) :
    ∃ cmd bytes, command zlib request = .ok cmd ∧ cmd.serialize = .ok bytes ∧
      Decodes bytes wired := by
  cases request with
  | retrieve name key =>
    obtain rfl := Except.ok.inj hwire
    exact ⟨_, (retrieveCommand_decodes zlib name (hkey key rfl)).imp fun _ h => ⟨rfl, h⟩⟩
  | storage name key data opts =>
    obtain ⟨value, hpacked, rfl⟩ := wire_storage_ok hwire
    obtain ⟨h0, h1⟩ := hexpiration _ rfl
    refine ⟨storageCommand (hasExtras name) (storageCode name) key value opts, ?_⟩
    have hcommand : command zlib (.storage name key data opts) =
        .ok (storageCommand (hasExtras name) (storageCode name) key value opts) := by
      rw [command, hpacked]
      rfl
    refine (storageCommand_decodes name opts (hkey key rfl) h0 h1 ?_).imp fun _ h => ⟨hcommand, h⟩
    revert hfits
    cases hasExtras name <;> exact id
  | counter name key value opts =>
    obtain rfl := Except.ok.inj hwire
    obtain ⟨h0, h1⟩ := hexpiration _ rfl
    exact ⟨_, (incrDecrCommand_decodes name value opts (hkey key rfl) h0 h1).imp
      fun _ h => ⟨rfl, h⟩⟩
  | touch key exp =>
    obtain rfl := Except.ok.inj hwire
    obtain ⟨h0, h1⟩ := hexpiration _ rfl
    exact ⟨_, (touchCommand_decodes (hkey key rfl) h0 h1).imp fun _ h => ⟨rfl, h⟩⟩
  | delete key =>
    obtain rfl := Except.ok.inj hwire
    exact ⟨_, (deleteCommand_decodes (hkey key rfl)).imp fun _ h => ⟨rfl, h⟩⟩
  | flushAll exp =>
    obtain rfl := Except.ok.inj hwire
    have hlt := exp.toNat_lt
    have hexp : exp.toUInt64.toInt64.toInt = exp.toNat := by
      have hnat : exp.toUInt64.toInt64.toBitVec.toNat = exp.toNat := UInt32.toNat_toUInt64 exp
      rw [← hnat]
      exact BitVec.toInt_eq_toNat_of_lt (by omega)
    have hdecodes := flushAllCommand_decodes (by rw [hexp]; omega) (by rw [hexp]; omega)
    rw [hexp] at hdecodes
    exact ⟨_, hdecodes.imp fun _ h => ⟨rfl, h⟩⟩

/-- A `set` with flags, an expiration and a cas. -/
def setRequest : Request := .storage .set (ascii "k") (ascii "value") ⟨60, 7, 9⟩

theorem readPacket_serialize_setRequest : ∃ cmd bytes,
    command .plain setRequest = .ok cmd ∧ cmd.serialize = .ok bytes ∧
      Decodes bytes ⟨0x01, .item 7 60, ascii "k", ascii "value", 9⟩ :=
  readPacket_serialize (show wire .plain setRequest = _ from rfl) (by rintro key ⟨⟩; rfl)
    (by rintro e ⟨⟩; decide) (by decide)

end McacheClient.Binary
