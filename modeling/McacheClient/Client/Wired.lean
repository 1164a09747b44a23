import McacheClient.Client.Run
import McacheClient.Server.Replies

/-!
# Proxies of memcached servers

`run` over proxies that exchange bytes with memcached servers, in either protocol.

* `Peer`, `Instant`, `wired`: the servers of a client, what the environment chooses for a call, and
  the proxies between them;
* `Landing`, `land`: where the loop of `run` ends, without the protocol;
* `service`: what a server makes of a command whose key may be rejected;
* `send_wired`, `tryServer_wired`: one server, and one round of the loop;
* **`tryAll_wired`**: over either protocol the loop ends where `land` says, with the response of the
  server there.
-/

namespace McacheClient

/-- A server and the connection that a client keeps to it. -/
structure Peer where
  server : Memcached
  connection : Connection := {}

/-- What the environment chooses for one call: the clock of the servers, which proxies are callable
and since when, and which servers take a connection. -/
structure Instant where
  now : ℤ
  callable : UInt32 → Bool := fun _ => true
  reached : UInt32 → Bool := fun _ => true
  lifespan : UInt32 → ℤ := fun _ => 0

/-- What a server sent and the client did not read yet. -/
def Connection.receive (data : Bytes) (c : Connection) : Connection :=
  { c with input := c.input ++ data }

/-- The proxies of memcached servers. -/
def wired (api : Api) (i : Instant) : ServerProxies (UInt32 → Peer) Command where
  callable idx s := (i.callable idx, s)
  send idx command s :=
    if i.reached idx then
      match command.serialize with
      | .error e => (.error e, s)
      | .ok bytes =>
        let (reply, server) := api.respond i.now bytes (s idx).server
        let (result, connection) := commandParserSend command ((s idx).connection.receive reply)
        (result, Function.update s idx { server, connection })
    else (.ok { code := .ioError, data := ascii "connection failed" }, s)
  lifespan idx s := (i.lifespan idx, s)

/-! ## The loop without the protocol -/

/-- Where the loop of `run` ends: at a server that answers, or after the last one. -/
inductive Landing
  | answered (idx : UInt32)
  | past (outOfServers : Bool)
  deriving DecidableEq

/-- What a server makes of a command whose key may be rejected before it is sent. -/
def service (now : ℤ) (served : ServerCommand) (server : Memcached) :
    Except Exn Answer × Memcached :=
  match checkKey served.key with
  | .error e => (.error e, server)
  | .ok _ =>
    let (answer, server) := execute now served server
    (.ok answer, server)

section Landing

variable (pool : Pool) (cfg : ClientConfig) (i : Instant)

/-- The servers that `run` tries, while they do not answer. -/
def visits (key : Bytes) : List UInt32 :=
  ((pool.choose key).walk.destutter' (· ≠ ·) 4294967295).tail.take cfg.maxContinues.toNat

/-- The loop over servers that lack the key where `missing` says so. -/
def land (h404 : Bool) (missing : UInt32 → Bool) : List UInt32 → ℕ → Bool → Landing
  | [], _, outOfServers => .past outOfServers
  | idx :: idxs, conts, outOfServers =>
    if i.callable idx && i.reached idx then
      if h404 && conts == 0 && missing idx && decide (i.lifespan idx < cfg.h404Duration) then
        land h404 missing idxs (conts + 1) false
      else .answered idx
    else land h404 missing idxs (conts + 1) outOfServers

/-- The server answers that it lacks the key. -/
def lacks (served : ServerCommand) (server : Memcached) : Bool :=
  (service i.now served server).1 = .ok .missing

end Landing

/-- The servers of a client, with no byte left on a connection. -/
def Serving (servers : UInt32 → Memcached) (s : UInt32 → Peer) : Prop :=
  ∀ idx, (s idx).server = servers idx ∧ (s idx).connection.input = []

/-- The response of an answer, if there is one. -/
def Responds (api : Api) (zlib : Zlib) (unique : Bool) :
    Except Exn Answer → Except Exn Response → Prop
  | .error e, result => result = .error e
  | .ok answer, result => Shows api zlib unique answer result

/-! ## `run` over either protocol -/

section Wired

variable {api : Api} {zlib : Zlib} {request : Request} {served : ServerCommand} {command : Command}
  {i : Instant} {cfg : ClientConfig} {servers : UInt32 → Memcached} {s : UInt32 → Peer}
  {unique : Bool} {answer : Answer} {response : Response}

theorem code_of_shows (h : Shows api zlib unique answer (.ok response)) :
    response.code = answer.code api := by
  cases answer with
  | value key item =>
    cases hdata : unpack zlib item.flags item.data with
    | error e => simp [Shows, hdata, Except.map] at h
    | ok data =>
      simp only [Shows, hdata, Except.map, Except.ok.injEq] at h
      rw [h]
      rfl
  | _ =>
    obtain ⟨data, hdata⟩ := h
    rw [Except.ok.inj hdata]

theorem code_ne_ioError (api : Api) (answer : Answer) : answer.code api ≠ .ioError := by
  cases answer with
  | absent name => cases api <;> cases name <;> decide
  | _ => cases api <;> exact nofun

theorem serialize_eq (hasks : Asks zlib request served)
    (hcommand : api.command zlib request = .ok command) : command.key = served.key ∧
      ∃ bytes, command.serialize = (checkKey served.key).map fun _ => bytes := by
  have hdo : ∀ (result : Except Exn Unit) (bytes : Bytes),
      (do result; return bytes : Except Exn Bytes) = result.map fun _ => bytes := by
    intro result bytes
    cases result <;> rfl
  cases hasks with
  | storage hpacked =>
    cases api <;> simp only [Api.command, Text.command, Binary.command, hpacked] at hcommand <;>
      cases hcommand <;> exact ⟨rfl, _, hdo _ _⟩
  | retrieve | touch | delete => cases api <;> cases hcommand <;> exact ⟨rfl, _, hdo _ _⟩

theorem Asks.exists_command (hasks : Asks zlib request served) (api : Api) :
    ∃ command, api.command zlib request = .ok command := by
  cases hasks with
  | storage hpacked =>
    cases api <;> simp only [Api.command, Text.command, Binary.command, hpacked] <;>
      exact ⟨_, rfl⟩
  | retrieve | touch | delete => cases api <;> exact ⟨_, rfl⟩

theorem Serving.update_peer {idx : UInt32} (hs : Serving servers s) (peer : Peer)
    (hinput : peer.connection.input = []) :
    Serving (Function.update servers idx peer.server) (Function.update s idx peer) := by
  intro x
  by_cases hx : x = idx
  · subst hx
    rw [Function.update_self, Function.update_self]
    exact ⟨rfl, hinput⟩
  · rw [Function.update_of_ne hx, Function.update_of_ne hx]
    exact hs x

/-- **One server** that takes a connection. -/
theorem send_wired (hasks : Asks zlib request served) (hportable : Portable zlib request)
    (hcommand : api.command zlib request = .ok command) (hs : Serving servers s) {idx : UInt32}
    (hfits : ∀ item ∈ (servers idx).find i.now served.key, 4 + item.data.length < 2 ^ 32)
    (hreached : i.reached idx = true) :
    ∃ result s', (wired api i).send idx command s = (result, s') ∧
      Responds api zlib request.unique (service i.now served (servers idx)).1 result ∧
      Serving (Function.update servers idx (service i.now served (servers idx)).2) s' := by
  obtain ⟨-, bytes, hser⟩ := serialize_eq hasks hcommand
  obtain ⟨hserver, hinput⟩ := hs idx
  simp only [wired, if_pos hreached]
  cases hkey : checkKey served.key with
  | error e =>
    rw [hkey] at hser
    simp only [hser, service, hkey, Except.map, Function.update_eq_self]
    exact ⟨_, s, rfl, rfl, hs⟩
  | ok u =>
    rw [hkey] at hser
    have hsent : ((s idx).connection.receive (api.respond i.now bytes (servers idx)).1).input =
        (api.respond i.now bytes (servers idx)).1 := by
      rw [Connection.receive, hinput, List.nil_append]
    obtain ⟨result, c', hsend, hrest, hafter, hshows⟩ :=
      exchange_respond hasks hportable hcommand hser hkey hfits hsent
    simp only [hser, service, hkey, Except.map, hserver, hsend, hafter]
    exact ⟨result, _, rfl, hshows, hs.update_peer ⟨_, c'⟩ hrest⟩

theorem lacks_retrieve {key : Bytes} {server : Memcached}
    (hresponds : Responds api zlib unique (service i.now (.retrieve key) server).1
      (.ok response)) : lacks i (.retrieve key) server = true ↔ response.code = .notFound := by
  unfold lacks service at *
  cases hkey : checkKey (ServerCommand.retrieve key).key with
  | error e =>
    rw [hkey] at hresponds
    cases hresponds
  | ok u =>
    simp only [hkey] at hresponds ⊢
    have hcode := code_of_shows hresponds
    rw [execute_retrieve] at hcode ⊢
    cases hfind : server.find i.now key with
    | none => simp_all [Answer.code]
    | some item => simp_all [Answer.code]

theorem service_retrieve (now : ℤ) (key : Bytes) (server : Memcached) :
    (service now (.retrieve key) server).2 = server := by
  unfold service
  rw [execute_retrieve]
  split <;> rfl

theorem not_lacks_of_error {server : Memcached} {e : Exn}
    (hresponds : Responds api zlib unique (service i.now served server).1 (.error e)) :
    lacks i served server = false := by
  unfold lacks
  rw [decide_eq_false_iff_not]
  intro hmissing
  rw [hmissing] at hresponds
  obtain ⟨data, hdata⟩ := hresponds
  cases hdata

theorem code_ne_of_responds {result : Except Exn Answer}
    (hresponds : Responds api zlib unique result (.ok response)) : response.code ≠ .ioError := by
  cases result with
  | error e => cases hresponds
  | ok answer => rw [code_of_shows hresponds]; exact code_ne_ioError api answer

/-- **One round** of the loop. -/
theorem tryServer_wired (hasks : Asks zlib request served) (hportable : Portable zlib request)
    (hcommand : api.command zlib request = .ok command) {h404 : Bool}
    (h404_retrieve : h404 = true → ∃ key, served = .retrieve key) (hs : Serving servers s)
    {idx : UInt32}
    (hfits : ∀ item ∈ (servers idx).find i.now served.key, 4 + item.data.length < 2 ^ 32)
    (conts : ℕ) :
    (¬(i.callable idx && i.reached idx) = true ∧
      tryServer (wired api i) cfg command h404 idx conts s = (.next false, s)) ∨
    (i.callable idx && i.reached idx) = true ∧ ∃ result s',
      Responds api zlib request.unique (service i.now served (servers idx)).1 result ∧
      Serving (Function.update servers idx (service i.now served (servers idx)).2) s' ∧
      tryServer (wired api i) cfg command h404 idx conts s =
        (if (h404 && conts == 0 && lacks i served (servers idx) &&
            decide (i.lifespan idx < cfg.h404Duration)) = true then .next true else .back result,
          s') := by
  have hcall : (wired api i).callable idx s = (i.callable idx, s) := rfl
  by_cases hcallable : i.callable idx = true
  · by_cases hreached : i.reached idx = true
    · obtain ⟨result, s', hsend, hresponds, hserving⟩ :=
        send_wired hasks hportable hcommand hs hfits hreached
      refine Or.inr ⟨by rw [hcallable, hreached]; rfl, result, s', hresponds, hserving, ?_⟩
      rw [hcallable] at hcall
      simp only [tryServer, hcall, hsend]
      cases result with
      | error e => simp [not_lacks_of_error hresponds]
      | ok response =>
        have hio := code_ne_of_responds hresponds
        cases h404 with
        | false => cases hcode : response.code <;> simp_all
        | true =>
          obtain ⟨key, rfl⟩ := h404_retrieve rfl
          have hlacks := lacks_retrieve hresponds
          have hlifespan : (wired api i).lifespan idx s' = (i.lifespan idx, s') := rfl
          by_cases hnotFound : response.code = .notFound
          · rw [hlacks.mpr hnotFound]
            by_cases hconts : conts = 0 <;>
              by_cases hlived : i.lifespan idx < cfg.h404Duration <;>
              simp [hnotFound, hlifespan, hconts, hlived]
          · rw [Bool.eq_false_iff.mpr (mt hlacks.mp hnotFound)]
            cases hcode : response.code <;> simp_all
    · left
      simp [tryServer, wired, hcallable, hreached]
  · left
    rw [Bool.not_eq_true] at hcallable
    rw [hcallable] at hcall
    simp [tryServer, hcall, hcallable]

/-- **The loop** ends where `land` says. -/
theorem tryAll_wired (cfg : ClientConfig) (hasks : Asks zlib request served)
    (hportable : Portable zlib request) (hcommand : api.command zlib request = .ok command)
    {h404 : Bool}
    (h404_retrieve : h404 = true → ∃ key, served = .retrieve key)
    (hfits : ∀ idx, ∀ item ∈ (servers idx).find i.now served.key, 4 + item.data.length < 2 ^ 32)
    (idxs : List UInt32) (conts : ℕ) (oos : Bool) (hs : Serving servers s) :
    let out := tryAll (wired api i) cfg command h404 idxs conts oos s
    match land cfg i h404 (fun idx => lacks i served (servers idx)) idxs conts oos with
    | .answered idx =>
      Responds api zlib request.unique (service i.now served (servers idx)).1 out.1 ∧
        Serving (Function.update servers idx (service i.now served (servers idx)).2) out.2
    | .past oos => out.1 = afterLoop oos ∧ Serving servers out.2 := by
  induction idxs generalizing conts oos s with
  | nil => exact ⟨rfl, hs⟩
  | cons idx idxs ih =>
    intro out
    rcases tryServer_wired hasks hportable hcommand h404_retrieve hs (hfits idx) conts with
      ⟨hdown, htried⟩ | ⟨hup, result, s', hresponds, hserving, htried⟩
    · have hout : out = _ := tryAll_next htried
      rw [land, if_neg hdown, hout, Bool.not_false, Bool.and_true]
      exact ih (conts + 1) oos hs
    · rw [land, if_pos hup]
      split_ifs at htried ⊢ with hexcused
      · -- a server that lacks the key is left as it was
        have hout : out = _ := tryAll_next htried
        rw [hout, Bool.not_true, Bool.and_false]
        rw [Bool.and_assoc, Bool.and_assoc, Bool.and_eq_true] at hexcused
        obtain ⟨key, rfl⟩ := h404_retrieve hexcused.1
        rw [service_retrieve, Function.update_eq_self] at hserving
        exact ih (conts + 1) false hserving
      · have hout : out = _ := tryAll_back htried
        rw [hout]
        exact ⟨hresponds, hserving⟩

end Wired

end McacheClient
