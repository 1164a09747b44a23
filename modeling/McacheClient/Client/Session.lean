import McacheClient.Io.Network
import McacheClient.Server.Complete

/-!
# A series of requests over one connection

A client, the network and a memcached server together: the bytes of each request go out, the server
executes the request and answers, and the client makes a response of what it reads.

* `WireRequest`: a request that a protocol can carry, with its command object;
* `serveAt`: a server with the readings of its clock;
* `transcript`: the requests with the answers of the server that executes them in order;
* `Answered`: the response to each request is that of its own answer, until an `io::error_t`;
* **`session_memcached`**: so it is over TCP, in either protocol, however the bytes are split;
* **`session_datagrams`**: so it is over UDP, whatever becomes of the datagrams.
-/

namespace McacheClient

variable {api : Api} {zlib : Zlib}

/-- A request with the command object that the client builds, and the task that it is for the
server. Both protocols can carry it: the key is valid and not empty, a cas id goes with `cas` only,
an expiration is from 0 to 2³² - 1, the lengths have 32 bits, a counter of the text protocol has no
initial value, and a `flush_all` has no expiration. -/
structure WireRequest (api : Api) (zlib : Zlib) where
  request : Request
  task : ServerTask
  command : Command
  requests : Requests api zlib request task
  command_eq : api.command zlib request = .ok command

/-- A server that reads its clock at each request. -/
abbrev ClockedServer : Type := Memcached × (ℕ → ℤ)

/-- The readings of the clock after the first one. -/
def later (clock : ℕ → ℤ) : ℕ → ℤ := fun n => clock (n + 1)

/-- The server reads a request and sends its answer. -/
def serveAt (api : Api) (data : Bytes) (p : ClockedServer) : Bytes × ClockedServer :=
  let (reply, server) := api.perform (p.2 0) data p.1
  (reply, server, later p.2)

/-- The answers to requests that a server executes one after the other. -/
def transcript :
    List (WireRequest api zlib) → ClockedServer → List (WireRequest api zlib × TaskAnswer)
  | [], _ => []
  | w :: ws, p =>
    let (answer, server) := executeTask (p.2 0) w.task p.1
    (w, answer) :: transcript ws (server, later p.2)

/-- The values that the requests find have less than 4 GiB. -/
def ValuesFit : List (WireRequest api zlib) → ClockedServer → Prop
  | [], _ => True
  | w :: ws, p =>
    FitsTask (p.2 0) p.1 w.task ∧ ValuesFit ws ((executeTask (p.2 0) w.task p.1).2, later p.2)

/-- The results are those of the first answers. -/
def ShowsFirst (exchanges : List (WireRequest api zlib × TaskAnswer))
    (results : List (Except Exn Response)) : Prop :=
  ∀ (k : ℕ) result, results[k]? = some result →
    ∃ e : WireRequest api zlib × TaskAnswer, exchanges[k]? = some e ∧
      ShowsTask api zlib e.1.request.unique e.2 result

theorem showsFirst_nil {exchanges : List (WireRequest api zlib × TaskAnswer)} :
    ShowsFirst exchanges [] := by
  intro k result h
  cases h

theorem showsFirst_cons {w : WireRequest api zlib} {answer : TaskAnswer}
    {exchanges : List (WireRequest api zlib × TaskAnswer)} {result : Except Exn Response}
    {results : List (Except Exn Response)} (h : ShowsTask api zlib w.request.unique answer result)
    (hrest : ShowsFirst exchanges results) :
    ShowsFirst ((w, answer) :: exchanges) (result :: results) := by
  intro k found hfound
  cases k with
  | zero => exact ⟨(w, answer), rfl, Option.some.inj hfound ▸ h⟩
  | succ k => exact hrest k found hfound

/-- **One request** on the stream of a server. -/
theorem send_serveAt (w : WireRequest api zlib) {p : ClockedServer} {c : Connection}
    (hc : c.input = []) (hfits : FitsTask (p.2 0) p.1 w.task) :
    ∃ result c', (served (serveAt api)).send w.command (p, c) =
        (result, ((executeTask (p.2 0) w.task p.1).2, later p.2), c') ∧ c'.input = [] ∧
      ShowsTask api zlib w.request.unique (executeTask (p.2 0) w.task p.1).1 result := by
  obtain ⟨bytes, hser⟩ := w.requests.serialize_ok w.command_eq
  have hinput : (c.input ++ (api.perform (p.2 0) bytes p.1).1) =
      (api.perform (p.2 0) bytes p.1).1 := by rw [hc, List.nil_append]
  obtain ⟨result, c', hsend, hrest, hafter, hshows⟩ :=
    exchange_perform (c := { c with input := c.input ++ (api.perform (p.2 0) bytes p.1).1 })
      w.requests w.command_eq hser hfits hinput
  refine ⟨result, c', ?_, hrest, hshows⟩
  rw [send_served _ _ _ hser]
  simp only [serveAt]
  rw [hsend, hafter]

/-- The proxy drops the connection. -/
def Dropped (result : Except Exn Response) : Prop :=
  ∀ response, result = .ok response → ResponseCode.error.value ≤ response.code.value

theorem dropped_error (e : Exn) : Dropped (.error e) := by
  rintro response ⟨⟩

/-- **The series of requests** on the stream of a server. -/
theorem session_serveAt (ws : List (WireRequest api zlib)) {p : ClockedServer} {c : Connection}
    (hc : c.input = []) (hfits : ValuesFit ws p) :
    let results := (served (serveAt api)).session (ws.map WireRequest.command) (p, c)
    ShowsFirst (transcript ws p) results ∧
      (results.length = ws.length ∨ ∃ result, results.getLast? = some result ∧ Dropped result) := by
  induction ws generalizing p c with
  | nil => exact ⟨showsFirst_nil, Or.inl rfl⟩
  | cons w ws ih =>
    obtain ⟨result, c', hsend, hrest, hshows⟩ := send_serveAt w hc hfits.1
    rw [List.map_cons, Link.session, hsend, transcript]
    cases result with
    | error e =>
      exact ⟨showsFirst_cons hshows showsFirst_nil, Or.inr ⟨_, rfl, dropped_error e⟩⟩
    | ok response =>
      by_cases hcode : response.code.value < ResponseCode.error.value
      · simp only [if_pos hcode]
        obtain ⟨hfirst, hlength⟩ := ih hrest hfits.2
        refine ⟨showsFirst_cons hshows hfirst, ?_⟩
        rcases hlength with hlength | ⟨last, hlast, hdropped⟩
        · exact Or.inl (congrArg Nat.succ hlength)
        · exact Or.inr ⟨last, by rw [List.getLast?_cons, hlast]; rfl, hdropped⟩
      · simp only [if_neg hcode]
        refine ⟨showsFirst_cons hshows showsFirst_nil, Or.inr ⟨_, rfl, ?_⟩⟩
        rintro _ ⟨⟩
        exact Nat.not_lt.mp hcode

/-! ## Over a network -/

/-- The results are those of the answers, or `io::error_t`, and there is one for every answer
unless the last one makes the proxy drop the connection. -/
structure Answered (exchanges : List (WireRequest api zlib × TaskAnswer))
    (results : List (Except Exn Response)) : Prop where
  shows : ∀ (k : ℕ) result, results[k]? = some result →
    (∃ e, result = .error e ∧ IsIoError e) ∨
      ∃ e : WireRequest api zlib × TaskAnswer, exchanges[k]? = some e ∧
        ShowsTask api zlib e.1.request.unique e.2 result
  complete : results.length = exchanges.length ∨
    ∃ result, results.getLast? = some result ∧ Dropped result

theorem length_transcript (ws : List (WireRequest api zlib)) (p : ClockedServer) :
    (transcript ws p).length = ws.length := by
  induction ws generalizing p with
  | nil => rfl
  | cons w ws ih => rw [transcript, List.length_cons, ih, List.length_cons]

/-- What comes over a network that gives the stream of the server, up to an `io::error_t`. -/
theorem answered_of_session {ws : List (WireRequest api zlib)} {p : ClockedServer}
    {c : Connection} {results : List (Except Exn Response)} (hc : c.input = [])
    (hfits : ValuesFit ws p)
    (h : results = (served (serveAt api)).session (ws.map WireRequest.command) (p, c) ∨
      ∃ before e, IsIoError e ∧ results = before ++ [.error e] ∧
        before <+: (served (serveAt api)).session (ws.map WireRequest.command) (p, c)) :
    Answered (transcript ws p) results := by
  obtain ⟨hfirst, hlength⟩ := session_serveAt ws hc hfits
  rcases h with rfl | ⟨before, e, hio, rfl, hbefore⟩
  · exact ⟨fun k result hk => Or.inr (hfirst k result hk), by rwa [length_transcript]⟩
  · refine ⟨fun k result hk => ?_, Or.inr ⟨_, List.getLast?_concat, dropped_error e⟩⟩
    by_cases hlt : k < before.length
    · rw [List.getElem?_append_left hlt] at hk
      obtain ⟨after, hafter⟩ := hbefore
      refine Or.inr (hfirst k result ?_)
      rw [← hafter, List.getElem?_append_left hlt, hk]
    · rw [List.getElem?_append_right (Nat.not_lt.mp hlt), List.getElem?_singleton] at hk
      split_ifs at hk
      exact Or.inl ⟨e, (Option.some.inj hk).symm, hio⟩

/-- **A series of requests over TCP** to a memcached server, in either protocol: the response to
each request is that of its own answer, however the network splits the bytes, until an operation of
the network fails. The requests are such as `WireRequest` says, and the values that they find have
less than 4 GiB. -/
theorem session_memcached {σ : Type} {stack : Tcp.Stack σ} {unread : σ → Bytes}
    {peer : σ → ClockedServer} (h : stack.Documented unread peer (serveAt api))
    (ws : List (WireRequest api zlib)) {s : Tcp.Connection σ} (hempty : s.stream unread = [])
    (hfits : ValuesFit ws (peer s.socket)) :
    Answered (transcript ws (peer s.socket))
      ((Tcp.link stack).session (ws.map WireRequest.command) s) :=
  answered_of_session (c := { input := s.stream unread }) hempty hfits
    (Tcp.session_served h (ws.map WireRequest.command) s)

/-! ### UDP -/

/-- No counter command finds an item that is no counter. -/
def Countable : List (WireRequest api zlib) → ClockedServer → Prop
  | [], _ => True
  | w :: ws, p =>
    (executeTask (p.2 0) w.task p.1).1 ≠ .notANumber ∧
      Countable ws ((executeTask (p.2 0) w.task p.1).2, later p.2)

theorem framed_serveAt (w : WireRequest api zlib) {p : ClockedServer} {bytes : Bytes}
    (hser : w.command.serialize = .ok bytes) (hfits : FitsTask (p.2 0) p.1 w.task)
    (hcounts : (executeTask (p.2 0) w.task p.1).1 ≠ .notANumber) :
    Udp.Framed w.command (serveAt api bytes p).1 := by
  intro c hc
  obtain ⟨result, c', hsend, hrest, -, hshows⟩ :=
    exchange_perform w.requests w.command_eq hser hfits hc
  refine ⟨result, c', hsend, hrest, ?_, ?_⟩
  · rintro e rfl
    exact not_isIoError_of_shows hshows
  · rintro response rfl
    exact code_lt_error hshows hcounts

theorem allFramed_serveAt (ws : List (WireRequest api zlib)) {p : ClockedServer}
    (hfits : ValuesFit ws p) (hcounts : Countable ws p) :
    Udp.AllFramed (serveAt api) (ws.map WireRequest.command) p := by
  induction ws generalizing p with
  | nil => trivial
  | cons w ws ih =>
    obtain ⟨bytes, hser⟩ := w.requests.serialize_ok w.command_eq
    obtain ⟨result, c', -, -, hafter, -⟩ := exchange_perform
      (c := { input := (api.perform (p.2 0) bytes p.1).1 }) w.requests w.command_eq hser hfits.1 rfl
    have hserved : (serveAt api bytes p).2 =
        ((executeTask (p.2 0) w.task p.1).2, later p.2) := by
      rw [← hafter]
      rfl
    exact ⟨bytes, hser, chomps_command w.command_eq, framed_serveAt w hser hfits.1 hcounts.1,
      hserved ▸ ih hfits.2 hcounts.2⟩

/-- **A series of requests over UDP** to a memcached server, in either protocol: the response to
each request is that of its own answer, until an operation throws, whatever the network loses,
duplicates, delays or reorders, as long as no two requests have one id. The requests are such as
`WireRequest` says, the values that they find have less than 4 GiB, and those that are counted are
numbers. -/
theorem session_datagrams (addr : String) (ws : List (WireRequest api zlib))
    {passages : List Udp.Passage} (hids : (passages.map Udp.Passage.id).Nodup)
    {p : ClockedServer} (hfits : ValuesFit ws p) (hcounts : Countable ws p) :
    Answered (transcript ws p)
      ((Udp.link (serveAt api)).session (ws.map WireRequest.command)
        { connection := { addr }, passages, peer := p }) :=
  answered_of_session rfl hfits (Udp.session_lossy addr hids (allFramed_serveAt ws hfits hcounts))

/-! ## A counter is set and incremented -/

def setRequest : WireRequest .text .plain where
  request := .storage .set (ascii "k") (ascii "9") {}
  task := .item (.storage .set (ascii "k") 0 0 (ascii "9") 0)
  command := Text.storageCommand (ascii "set") (ascii "k") (ascii "9") {}
  requests := by
    refine .item (.storage rfl) ?_ (by decide)
    refine ⟨by decide, by decide, by decide, by decide, fun stored hstored => ?_⟩
    rw [← Except.ok.inj (show Except.ok (ascii "9") = Except.ok stored from hstored)]
    decide
  command_eq := rfl

/-- It is incremented. -/
def incrRequest : WireRequest .text .plain where
  request := .counter .incr (ascii "k") 1 {}
  task := .count .incr (ascii "k") 1 none
  command := Text.incrDecrCommand (ascii "incr") (ascii "k") 1
  requests := .count .incr 1 (by decide) (by decide) rfl
  command_eq := rfl

/-- A connection to an empty server. -/
def emptyByteByByte : Tcp.Connection (List Bytes × ClockedServer) where
  socket := ([], { items := fun _ => none }, fun _ => 0)

theorem fits_setIncr : ValuesFit [setRequest, incrRequest] emptyByteByByte.socket.2 := by
  refine ⟨?_, trivial, trivial⟩
  rintro item ⟨⟩

theorem session_memcached_setIncr :
    Answered (transcript [setRequest, incrRequest] emptyByteByByte.socket.2)
      ((Tcp.link (Tcp.byteByByte (serveAt .text))).session
        [setRequest.command, incrRequest.command] emptyByteByByte) := by
  exact session_memcached (Tcp.documented_byteByByte (serveAt .text)) [setRequest, incrRequest]
    (s := emptyByteByByte) rfl fits_setIncr

/-- A reply in one datagram. -/
def oneDatagram (reply : Bytes) : Udp.Pieces reply := ⟨[reply], by simp, by simp⟩

/-- The reply to the first request comes twice, the second time before that to the second one. -/
def duplicated : List Udp.Passage :=
  [{ id := 7, cut := oneDatagram, arrivals := [.ok 0] },
    { id := 8, cut := oneDatagram, arrivals := [.ok 0, .ok 1] }]

theorem session_datagrams_duplicated :
    Answered (transcript [setRequest, incrRequest] emptyByteByByte.socket.2)
      ((Udp.link (serveAt .text)).session [setRequest.command, incrRequest.command]
        { connection := { addr := "localhost:11211" }, passages := duplicated,
          peer := emptyByteByByte.socket.2 }) :=
  session_datagrams "localhost:11211" [setRequest, incrRequest] (by decide) fits_setIncr
    ⟨by decide, by decide, trivial⟩

end McacheClient
