import McacheClient.Client.Counter
import McacheClient.Client.Wired
import McacheClient.Io.Link

/-!
# A server with counters

A memcached server that executes every command of the client: those on items, `incr` and `decr`,
and `flush_all`.

* `number`, `padded`: the text of a counter, which may be followed by spaces;
* `ServerTask`, `executeTask`, `TaskAnswer`: what a server is asked for, without the protocol;
* `Api.perform`: a request is read, executed and answered;
* `Requests`: the task that a request of the client asks for, in either protocol;
* `ShowsTask`: the response of an answer;
* **`exchange_perform`**: every request is executed, and its response is that of its answer.
-/

namespace McacheClient

open Numeral Stream

/-! ## Counters -/

/-- The number of a counter: digits, and spaces that a shorter number left. -/
def number (data : Bytes) : Option ℕ :=
  let digits := data.takeWhile isDigit
  if digits ≠ [] ∧ (data.dropWhile isDigit).all (· = 32) ∧ ofDecimal digits < 2 ^ 64 then
    some (ofDecimal digits)
  else none

/-- A number in the place of another text, which does not get shorter. -/
def padded (size n : ℕ) : Bytes := decimal n ++ List.replicate (size - (decimal n).length) 32

/-- An increment wraps around, a decrement stops at 0. -/
def CounterName.count : CounterName → ℕ → ℕ → ℕ
  | .incr, delta, n => (n + delta) % 2 ^ 64
  | .decr, delta, n => n - delta

/-- What a server is asked for. A counter that does not exist may be made, with an initial value and
an expiration. -/
inductive ServerTask
  | item (command : ServerCommand)
  | count (name : CounterName) (key : Bytes) (delta : ℕ) (initial : Option (ℕ × ℤ))
  | flush

/-- What comes of it. -/
inductive TaskAnswer
  | item (answer : Answer)
  | number (n : ℕ)
  | notANumber
  | flushed
  deriving DecidableEq

/-- A counter changes: its flags and its deadline stay, its cas id does not. -/
def Memcached.count (now : ℤ) (name : CounterName) (key : Bytes) (delta : ℕ)
    (initial : Option (ℕ × ℤ)) (server : Memcached) : TaskAnswer × Memcached :=
  match server.find now key, initial with
  | none, none => (.item .unknown, server)
  | none, some (n, expiration) =>
    (.number n, (server.put key (decimal n) 0 (deadline now expiration)).2)
  | some item, _ =>
    match McacheClient.number item.data with
    | none => (.notANumber, server)
    | some n =>
      let n := name.count delta n
      (.number n, (server.put key (padded item.data.length n) item.flags item.deadline).2)

def executeTask (now : ℤ) (task : ServerTask) (server : Memcached) : TaskAnswer × Memcached :=
  match task with
  | .item command =>
    let (answer, server) := execute now command server
    (.item answer, server)
  | .count name key delta initial => server.count now name key delta initial
  | .flush => (.flushed, { server with items := fun _ => none })

/-! ## The protocols -/

namespace Text

def WireCommand.task (command : WireCommand) : Option ServerTask :=
  match command.serverCommand, command with
  | some served, _ => some (.item served)
  | none, .counter name key value =>
    ([CounterName.incr, .decr].find? (counterName · = name)).map fun name =>
      .count name key value none
  | none, .flushAll 0 => some .flush
  | none, _ => none

def replyTask (unique : Bool) : TaskAnswer → Bytes
  | .item answer => reply unique answer
  | .number n => line [decimal n]
  | .notANumber => line [ascii "CLIENT_ERROR cannot increment or decrement non-numeric value"]
  | .flushed => line [ascii "OK"]

def perform (now : ℤ) (request : Bytes) (server : Memcached) : Bytes × Memcached :=
  match readCommand true request with
  | none => (line [ascii "ERROR"], server)
  | some (command, _) =>
    match command.task with
    | none => (line [ascii "ERROR"], server)
    | some task =>
      let (answer, server) := executeTask now task server
      (replyTask command.unique answer, server)

end Text

namespace Binary

/-- The expiration of a counter that must exist. -/
def mustExist : ℤ := 0xFFFFFFFF

/-- The initial value and the expiration of a counter that need not exist. -/
def initially (initial : ℕ) (expiration : ℤ) : Option (ℕ × ℤ) :=
  if expiration = mustExist then none else some (initial, expiration)

def WireCommand.task (command : WireCommand) : Option ServerTask :=
  match command.serverCommand, command.opcode.toNat, command.extras with
  | some served, _, _ => some (.item served)
  | none, 0x05, .counter delta initial expiration =>
    some (.count .incr command.key delta (initially initial expiration))
  | none, 0x06, .counter delta initial expiration =>
    some (.count .decr command.key delta (initially initial expiration))
  | none, 0x08, .expiration 0 => some .flush
  | none, _, _ => none

def replyTask (opcode : UInt8) : TaskAnswer → Bytes
  | .item answer => reply opcode answer
  | .number n => packet opcode 0 0 0 (bigEndian 8 n)
  | .notANumber =>
    packet opcode 0x0006 0 0 (ascii "Non-numeric server-side value for incr or decr")
  | .flushed => packet opcode 0 0 0 []

def perform (now : ℤ) (request : Bytes) (server : Memcached) : Bytes × Memcached :=
  match (readPacket request).bind fun (packet, _) => packet.command with
  | none => (packet 0 0x0081 0 0 (ascii "Unknown command"), server)
  | some command =>
    match command.task with
    | none => (packet command.opcode 0x0081 0 0 (ascii "Unknown command"), server)
    | some task =>
      let (answer, server) := executeTask now task server
      (replyTask command.opcode answer, server)

end Binary

/-- What a server sends back for the bytes of a request. -/
def Api.perform : Api → ℤ → Bytes → Memcached → Bytes × Memcached
  | text => Text.perform
  | binary => Binary.perform

/-! ## The requests of a client -/

/-- A counter of the text protocol has no initial value; the expiration of a binary one has 32
bits. -/
def CountsIn (opts : Opts) : Api → Prop
  | .text => opts.initial = 0
  | .binary => 0 ≤ opts.expiration.toInt ∧ opts.expiration.toInt < 2 ^ 32

/-- What becomes of a counter that does not exist. -/
def initialOf (opts : Opts) : Api → Option (ℕ × ℤ)
  | .text => none
  | .binary => Binary.initially opts.initial.toNat opts.expiration.toInt

/-- The task that a request asks for. -/
inductive Requests (api : Api) (zlib : Zlib) : Request → ServerTask → Prop
  | item {request : Request} {served : ServerCommand} (hasks : Asks zlib request served)
      (hportable : Portable zlib request) (hkey : checkKey served.key = .ok ()) :
      Requests api zlib request (.item served)
  | count (name : CounterName) {key : Bytes} (value : UInt64) {opts : Opts} (hne : key ≠ [])
      (hkey : checkKey key = .ok ()) (hcounts : CountsIn opts api) :
      Requests api zlib (.counter name key value opts)
        (.count name key value.toNat (initialOf opts api))
  | flush : Requests api zlib (.flushAll 0) .flush

/-- The response of an answer, up to the texts of failures. -/
def ShowsTask (api : Api) (zlib : Zlib) (unique : Bool) :
    TaskAnswer → Except Exn Response → Prop
  | .item answer, result => Shows api zlib unique answer result
  | .number n, result => result = .ok { code := .ok, data := decimal n }
  | .notANumber, result => ∃ data, result = .ok { code := .clientError, data }
  | .flushed, result => ∃ data, result = .ok { code := .ok, data }

/-- A value that is found has less than 4 GiB. -/
def FitsTask (now : ℤ) (server : Memcached) : ServerTask → Prop
  | .item served => ∀ item ∈ server.find now served.key, 4 + item.data.length < 2 ^ 32
  | _ => True

/-! ## Answers about counters -/

theorem number_lt {data : Bytes} {n : ℕ} (h : number data = some n) : n < 2 ^ 64 := by
  simp only [number] at h
  split_ifs at h with hnumber
  rw [← Option.some.inj h]
  exact hnumber.2.2

theorem CounterName.count_lt (name : CounterName) (delta : ℕ) {n : ℕ} (hn : n < 2 ^ 64) :
    name.count delta n < 2 ^ 64 := by
  cases name with
  | incr => exact Nat.mod_lt _ (by decide)
  | decr =>
    simp only [count]
    omega

/-- **A counter is read back**, also in the place of a longer text. -/
theorem number_padded (size : ℕ) {n : ℕ} (hn : n < 2 ^ 64) : number (padded size n) = some n := by
  have hdigits : ∀ c ∈ decimal n, isDigit c = true := fun c hc => isDigit_of_mem_decimal hc
  have hspaces : ∀ k, (List.replicate k (32 : UInt8)).takeWhile isDigit = [] ∧
      (List.replicate k (32 : UInt8)).dropWhile isDigit = List.replicate k 32 := by
    intro k
    cases k with
    | zero => exact ⟨rfl, rfl⟩
    | succ k => exact ⟨rfl, rfl⟩
  have htake : (padded size n).takeWhile isDigit = decimal n := by
    rw [padded, List.takeWhile_append_of_pos hdigits, (hspaces _).1, List.append_nil]
  have hdrop : (padded size n).dropWhile isDigit =
      List.replicate (size - (decimal n).length) 32 := by
    rw [padded, List.dropWhile_append_of_pos hdigits, (hspaces _).2]
  have hall : (List.replicate (size - (decimal n).length) (32 : UInt8)).all (· = 32) = true := by
    simp
  simp only [number, htake, hdrop, ofDecimal_decimal]
  rw [if_pos ⟨decimal_ne_nil n, hall, hn⟩]

theorem count_cases (now : ℤ) (name : CounterName) (key : Bytes) (delta : ℕ)
    {initial : Option (ℕ × ℤ)} (hinitial : ∀ p ∈ initial, p.1 < 2 ^ 64) (server : Memcached) :
    (server.count now name key delta initial).1 = .item .unknown ∨
      (server.count now name key delta initial).1 = .notANumber ∨
      ∃ n < 2 ^ 64, (server.count now name key delta initial).1 = .number n := by
  unfold Memcached.count
  cases server.find now key with
  | none =>
    cases initial with
    | none => exact Or.inl rfl
    | some p => exact Or.inr (Or.inr ⟨p.1, hinitial p rfl, rfl⟩)
  | some item =>
    cases hnumber : number item.data with
    | none => simp [hnumber]
    | some n => simpa [hnumber] using name.count_lt delta (number_lt hnumber)

theorem initialOf_lt (opts : Opts) (api : Api) : ∀ p ∈ initialOf opts api, p.1 < 2 ^ 64 := by
  intro p hp
  cases api with
  | text => cases hp
  | binary =>
    simp only [initialOf, Binary.initially] at hp
    split_ifs at hp
    · cases hp
    · obtain rfl := Option.some.inj hp
      exact opts.initial.toNat_lt

section Exchange

variable {zlib : Zlib} {request : Request} {task : ServerTask} {command : Command}
  {bytes rest : Bytes} {c : Connection} {unique : Bool}

/-! ## The text protocol -/

namespace Text

/-- **A text request is executed** as the task that it asks for. -/
theorem perform_serialize (h : Requests .text zlib request task)
    (hcommand : Text.command zlib request = .ok command) (hser : command.serialize = .ok bytes)
    (now : ℤ) (server : Memcached) : perform now bytes server =
      (replyTask request.unique (executeTask now task server).1,
        (executeTask now task server).2) := by
  cases h with
  | item hasks hportable hkey =>
    obtain ⟨wired, hwire, hserved, hunique⟩ := serverCommand_wire hasks
    have hreadable : Readable true request := by
      cases hasks with
      | retrieve | delete => exact hportable
      | touch => exact hportable.1
      | storage => exact ⟨hportable.1, fun _ => hportable.2.1.mpr⟩
    obtain ⟨wired', hwire', hread⟩ := recovers_of_readable hcommand hser hreadable
    obtain rfl := Except.ok.inj (hwire.symm.trans hwire')
    have htask : wired.task = wired.serverCommand.map .item := by
      unfold WireCommand.task
      rw [hserved]
      rfl
    rw [hserved] at htask
    simp only [perform, hread, htask, Option.map_some, hunique]
  | @count name key value opts hne hkey hcounts =>
    have hrecovers : Recovers true zlib (.counter name key value opts) bytes :=
      recovers_of_readable hcommand hser hne
    obtain ⟨wired, hwire, hread⟩ := hrecovers
    cases hwire
    have htask : (WireCommand.counter (counterName name) key value.toNat).task =
        some (.count name key value.toNat none) := by
      cases name <;> rfl
    simp only [perform, hread, htask]
    rfl
  | flush =>
    have hrecovers : Recovers true zlib (.flushAll 0) bytes :=
      recovers_of_readable hcommand hser trivial
    obtain ⟨wired, hwire, hread⟩ := hrecovers
    cases hwire
    simp only [perform, hread]
    rfl

theorem exchange_number (hser : command.serialize = .ok bytes)
    (hdelimiter : command.headerDelimiter = .text crlf)
    (hheader : command.deserializeHeader = deserializeHeader incrDecrKnown) {n : ℕ}
    (hn : n < 2 ^ 64) (hinput : c.input = line [decimal n] ++ rest) :
    ∃ c', commandParserSend command c = (.ok { code := .ok, data := decimal n }, c') ∧
      c'.input = rest := by
  have hlt : (UInt64.ofNat n).toNat = n := UInt64.toNat_ofNat_of_lt' hn
  have hknown := incrDecrKnown_decimal (.ofNat n)
  rw [hlt] at hknown
  have hline : line [decimal n] = decimal n ++ crlf := by rw [line, List.intercalate_singleton]
  have hparsed : command.deserializeHeader (decimal n ++ crlf) =
      .ok { response := { code := .ok, data := decimal n } } := by
    have hne : decimal n ++ crlf ≠ [] := by simp [crlf]
    rw [hheader, deserializeHeader, if_neg hne, hknown]
    rfl
  have h13 : (13 : UInt8) ∉ decimal n := fun h => absurd (isDigit_of_mem_decimal h) (by decide)
  rw [hline] at hinput
  rw [commandParserSend_line hser hdelimiter h13 hparsed hinput]
  exact ⟨_, rfl, rfl⟩

theorem exchange_error (hser : command.serialize = .ok bytes)
    (hdelimiter : command.headerDelimiter = .text crlf) {text : Bytes} {response : Response}
    (htext : 13 ∉ text)
    (hheader : command.deserializeHeader (line [text]) = .ok { response })
    (hinput : c.input = line [text] ++ rest) :
    ∃ c', commandParserSend command c = (.ok response, c') ∧ c'.input = rest := by
  rw [line, List.intercalate_singleton] at hheader hinput
  rw [commandParserSend_line hser hdelimiter htext hheader hinput]
  exact ⟨_, rfl, rfl⟩

/-- **The reply to a counter command** is parsed, and nothing of it is left. -/
theorem exchange_count (name : CounterName) (key : Bytes) (value : UInt64)
    (hser : (incrDecrCommand (counterName name) key value).serialize = .ok bytes)
    {now : ℤ} {server : Memcached} (hinput : c.input =
      replyTask unique (server.count now name key value.toNat none).1 ++ rest) :
    ∃ result c', commandParserSend (incrDecrCommand (counterName name) key value) c =
        (result, c') ∧ c'.input = rest ∧
      ShowsTask .text zlib unique (server.count now name key value.toNat none).1 result := by
  have hnone : ∀ p ∈ (none : Option (ℕ × ℤ)), p.1 < 2 ^ 64 := by simp
  rcases count_cases now name key value.toNat hnone server with h | h | ⟨n, hn, h⟩
  · rw [h] at hinput ⊢
    have hshows : ∀ data, Shows .text zlib unique .unknown (.ok { code := .notFound, data }) :=
      fun data => ⟨data, rfl⟩
    exact exchange_shown hser rfl (by decide) rfl hshows hinput
  · rw [h] at hinput ⊢
    obtain ⟨c', hsend, hrest⟩ := exchange_error hser rfl (by decide +kernel) rfl hinput
    exact ⟨_, c', hsend, hrest, _, rfl⟩
  · rw [h] at hinput ⊢
    obtain ⟨c', hsend, hrest⟩ := exchange_number hser rfl rfl hn hinput
    exact ⟨_, c', hsend, hrest, rfl⟩

end Text

/-! ## The binary protocol -/

namespace Binary

/-- **A binary request is executed** as the task that it asks for. -/
theorem perform_serialize (h : Requests .binary zlib request task)
    (hcommand : Binary.command zlib request = .ok command) (hser : command.serialize = .ok bytes)
    (now : ℤ) (server : Memcached) : ∃ opcode, perform now bytes server =
      (replyTask opcode (executeTask now task server).1, (executeTask now task server).2) := by
  cases h with
  | item hasks hportable hkey =>
    obtain ⟨wired, served', hwire, hserved, hexecute⟩ := serverCommand_wire hasks hportable
    have hkeys : ∀ key ∈ request.key, checkKey key = .ok () := fun key h => by
      rw [hasks.key] at h
      exact Option.some.inj h ▸ hkey
    obtain ⟨command', bytes', hcommand', hser', packet, hread, -, -, -, -, hpacket⟩ :=
      readPacket_serialize hwire hkeys (expiration_of_portable hasks hportable)
        (fits_of_portable hasks hportable hkey hwire)
    obtain rfl := Except.ok.inj (hcommand.symm.trans hcommand')
    obtain rfl := Except.ok.inj (hser.symm.trans hser')
    have hread := hread []
    rw [List.append_nil] at hread
    have htask : wired.task = wired.serverCommand.map .item := by
      unfold WireCommand.task
      rw [hserved]
      rfl
    rw [hserved] at htask
    refine ⟨wired.opcode, ?_⟩
    simp only [perform, hread, Option.bind_some, hpacket, htask, Option.map_some, executeTask,
      hexecute]
  | @count name key value opts hne hkey hcounts =>
    obtain ⟨h0, h1⟩ := hcounts
    have hlen := (checkKey_ok.mp hkey).1
    have hwire : wire zlib (.counter name key value opts) = .ok _ := rfl
    obtain ⟨command', bytes', hcommand', hser', packet, hread, -, -, -, -, hpacket⟩ :=
      readPacket_serialize hwire (by rintro _ ⟨⟩; exact hkey) (by rintro _ ⟨⟩; exact ⟨h0, h1⟩)
        (by simp [Extras.length]; omega)
    obtain rfl := Except.ok.inj (hcommand.symm.trans hcommand')
    obtain rfl := Except.ok.inj (hser.symm.trans hser')
    have hread := hread []
    rw [List.append_nil] at hread
    refine ⟨counterCode name, ?_⟩
    simp only [perform, hread, Option.bind_some, hpacket]
    cases name <;> rfl
  | flush =>
    have hwire : wire zlib (.flushAll 0) = .ok _ := rfl
    obtain ⟨command', bytes', hcommand', hser', packet, hread, -, -, -, -, hpacket⟩ :=
      readPacket_serialize hwire (by rintro _ ⟨⟩) (by rintro _ ⟨⟩; decide) (by decide)
    obtain rfl := Except.ok.inj (hcommand.symm.trans hcommand')
    obtain rfl := Except.ok.inj (hser.symm.trans hser')
    have hread := hread []
    rw [List.append_nil] at hread
    refine ⟨0x08, ?_⟩
    simp only [perform, hread, Option.bind_some, hpacket]
    rfl

theorem exchange_number {opcode : UInt8} (hser : command.serialize = .ok bytes)
    (hdelimiter : command.headerDelimiter = .count 24)
    (hheader : command.deserializeHeader = deserializeHeader incrDecrSuccess) {n : ℕ}
    (hn : n < 2 ^ 64) (hinput : c.input = packet opcode 0 0 0 (bigEndian 8 n) ++ rest) :
    ∃ c', commandParserSend command c = (.ok { code := .ok, data := decimal n }, c') ∧
      c'.input = rest := by
  obtain ⟨c', hsend, hrest⟩ := exchange_packet hser hdelimiter hheader hinput
  have hlen : (bigEndian 8 n).length = 8 := length_bigEndian 8 n
  have hne : bigEndian 8 n ≠ [] := fun h => by
    rw [h] at hlen
    cases hlen
  have hsuccess : incrDecrSuccess (responseHeader opcode 0 0 0 (bigEndian 8 n)) = {
      response := { code := .ok }
      bytes := 8
      setBody := incrDecrSetBody } := by
    rw [incrDecrSuccess, responseHeader, hlen]
    rfl
  have hvalue : ofBigEndian (bigEndian 8 n) = n := by
    rw [ofBigEndian_bigEndian]
    exact Nat.mod_eq_of_lt hn
  have hbytes : (8 : UInt64).toNat = (bigEndian 8 n).length := hlen.symm
  rw [hsend, if_pos rfl, hsuccess, deserializeBody_append hrest hbytes hne]
  refine ⟨{ c' with input := rest }, ?_, rfl⟩
  simp [incrDecrSetBody, hlen, hvalue]

/-- **The reply to a counter command** is parsed, and nothing of it is left. -/
theorem exchange_count {opcode : UInt8} (name : CounterName) (key : Bytes) (value : UInt64)
    {opts : Opts} (hser : (incrDecrCommand (counterCode name) key value opts).serialize = .ok bytes)
    {now : ℤ} {server : Memcached} {initial : Option (ℕ × ℤ)}
    (hinitial : ∀ p ∈ initial, p.1 < 2 ^ 64) (hinput : c.input =
      replyTask opcode (server.count now name key value.toNat initial).1 ++ rest) :
    ∃ result c', commandParserSend (incrDecrCommand (counterCode name) key value opts) c =
        (result, c') ∧ c'.input = rest ∧
      ShowsTask .binary zlib unique (server.count now name key value.toNat initial).1 result := by
  rcases count_cases now name key value.toNat hinitial server with h | h | ⟨n, hn, h⟩
  · rw [h] at hinput ⊢
    have hshows : ∀ data, Shows .binary zlib unique .unknown (.ok { code := .notFound, data }) :=
      fun data => ⟨data, rfl⟩
    exact exchange_shown hser rfl rfl (by decide) (by decide) (by decide) hshows hinput
  · rw [h] at hinput ⊢
    obtain ⟨c', hsend, hrest⟩ := exchange_failure hser rfl rfl (by decide) (by decide) (by decide)
      hinput
    exact ⟨_, c', hsend, hrest, _, rfl⟩
  · rw [h] at hinput ⊢
    obtain ⟨c', hsend, hrest⟩ := exchange_number hser rfl rfl hn hinput
    exact ⟨_, c', hsend, hrest, rfl⟩

end Binary

/-! ## Both protocols -/

theorem Requests.serialize_ok {api : Api} (h : Requests api zlib request task)
    (hcommand : api.command zlib request = .ok command) :
    ∃ bytes, command.serialize = .ok bytes := by
  cases h with
  | item hasks hportable hkey =>
    obtain ⟨-, bytes, hser⟩ := serialize_eq hasks hcommand
    rw [hkey] at hser
    exact ⟨bytes, hser⟩
  | @count name key value opts hne hkey hcounts =>
    cases api with
    | text =>
      have hcmd : Text.command zlib (.counter name key value opts) =
          .ok (Text.incrDecrCommand (Text.counterName name) key value) :=
        if_neg (not_not_intro hcounts)
      obtain rfl := Except.ok.inj (hcommand.symm.trans hcmd)
      exact ⟨_, by rw [Text.incrDecrCommand, Text.keyed, hkey]; rfl⟩
    | binary =>
      cases hcommand
      exact ⟨_, by rw [Binary.incrDecrCommand, Binary.keyed, hkey]; rfl⟩
  | flush => cases api <;> cases hcommand <;> exact ⟨_, rfl⟩

/-- **A request of any kind is executed and answered**, and the client gets the response of the
answer. -/
theorem exchange_perform {api : Api} (h : Requests api zlib request task)
    (hcommand : api.command zlib request = .ok command) (hser : command.serialize = .ok bytes)
    {now : ℤ} {server : Memcached} (hfits : FitsTask now server task)
    (hinput : c.input = (api.perform now bytes server).1) :
    ∃ result c', commandParserSend command c = (result, c') ∧ c'.input = [] ∧
      (api.perform now bytes server).2 = (executeTask now task server).2 ∧
      ShowsTask api zlib request.unique (executeTask now task server).1 result := by
  cases api with
  | text =>
    have hperform := Text.perform_serialize h hcommand hser now server
    rw [Api.perform, hperform] at hinput ⊢
    have hinput := hinput.trans (List.append_nil _).symm
    cases h with
    | item hasks hportable hkey =>
      have hsizes : ∀ item ∈ server.find now _, item.data.length + Text.footerSize < 2 ^ 64 :=
        fun item hitem => by
          have := hfits item hitem
          rw [Text.footerSize]
          omega
      obtain ⟨result, c', hsend, hrest, hshows⟩ := Text.exchange_answer hasks hcommand hser hkey
        (hasks.key_ne_nil hportable) hsizes hinput
      exact ⟨result, c', hsend, hrest, rfl, hshows⟩
    | @count name key value opts hne hkey hcounts =>
      have hcmd : Text.command zlib (.counter name key value opts) =
          .ok (Text.incrDecrCommand (Text.counterName name) key value) :=
        if_neg (not_not_intro hcounts)
      obtain rfl := Except.ok.inj (hcommand.symm.trans hcmd)
      obtain ⟨result, c', hsend, hrest, hshows⟩ := Text.exchange_count name key value hser hinput
      exact ⟨result, c', hsend, hrest, rfl, hshows⟩
    | flush =>
      cases hcommand
      obtain ⟨c', hsend, hrest⟩ := Text.exchange_line hser rfl (by decide) rfl hinput
      exact ⟨_, c', hsend, hrest, rfl, _, rfl⟩
  | binary =>
    obtain ⟨opcode, hperform⟩ := Binary.perform_serialize h hcommand hser now server
    rw [Api.perform, hperform] at hinput ⊢
    have hinput := hinput.trans (List.append_nil _).symm
    cases h with
    | item hasks hportable hkey =>
      obtain ⟨result, c', hsend, hrest, hshows⟩ := Binary.exchange_answer hasks hcommand hser hkey
        hfits hinput
      exact ⟨result, c', hsend, hrest, rfl, hshows⟩
    | @count name key value opts hne hkey hcounts =>
      cases hcommand
      obtain ⟨result, c', hsend, hrest, hshows⟩ := Binary.exchange_count name key value hser
        (initialOf_lt opts .binary) hinput
      exact ⟨result, c', hsend, hrest, rfl, hshows⟩
    | flush =>
      cases hcommand
      obtain ⟨c', hsend, hrest⟩ := Binary.exchange_success hser rfl rfl (fun _ => rfl) hinput
      exact ⟨_, c', hsend, hrest, rfl, _, rfl⟩

/-! ## Responses of answers -/

theorem not_isIoError_uncompress {data : Bytes} {index count : ℕ} {e : Exn}
    (h : zlib.uncompress data index count = .error e) : ¬IsIoError e := by
  rintro ⟨code, msg, rfl⟩
  simp only [Zlib.uncompress] at h
  split_ifs at h
  · cases Except.error.inj h
  · cases Except.error.inj h
  · cases Except.error.inj h
  · split at h
    · cases Except.error.inj h
    · cases h

theorem not_isIoError_unpack {flags : UInt32} {stored : Bytes} {e : Exn}
    (h : unpack zlib flags stored = .error e) : ¬IsIoError e := by
  unfold unpack at h
  split_ifs at h
  exact not_isIoError_uncompress h

/-- What is wrong with an answer is not taken for a failure of the network. -/
theorem not_isIoError_of_shows {api : Api} {answer : TaskAnswer} {e : Exn}
    (h : ShowsTask api zlib unique answer (.error e)) : ¬IsIoError e := by
  cases answer with
  | number n => cases h
  | notANumber | flushed =>
    obtain ⟨data, hdata⟩ := h
    cases hdata
  | item answer =>
    cases answer with
    | value key item =>
      simp only [ShowsTask, Shows] at h
      cases hdata : unpack zlib item.flags item.data with
      | error e' =>
        rw [hdata] at h
        rw [Except.error.inj h]
        exact not_isIoError_unpack hdata
      | ok data =>
        rw [hdata] at h
        cases h
    | _ =>
      obtain ⟨data, hdata⟩ := h
      cases hdata

/-- Only an item that is no counter gives a code that makes the proxy drop the connection. -/
theorem code_lt_error {api : Api} {answer : TaskAnswer} {response : Response}
    (h : ShowsTask api zlib unique answer (.ok response)) (hne : answer ≠ .notANumber) :
    response.code.value < ResponseCode.error.value := by
  cases answer with
  | number n =>
    cases h
    exact (by decide : ResponseCode.ok.value < ResponseCode.error.value)
  | notANumber => exact absurd rfl hne
  | flushed =>
    obtain ⟨data, hdata⟩ := h
    cases hdata
    exact (by decide : ResponseCode.ok.value < ResponseCode.error.value)
  | item answer =>
    rw [code_of_shows h]
    cases answer with
    | absent name => cases api <;> cases name <;> decide
    | _ => cases api <;> simp [Answer.code, ResponseCode.value]

end Exchange

end McacheClient
