import McacheClient.Io.Link
import McacheClient.Io.Udp
import McacheClient.Proto.Chomp

/-!
# Commands over an unreliable network

A client and a server over UDP. The network may lose requests and datagrams of replies, and deliver
those that the server sent at any time since, in any order and any number of times.

* `Pieces`, `Pieces.datagrams`: a reply in datagrams;
* `Passage`, `Net`: what the network does from one request to the next, and the whole system;
* `Net.write`, `link`: the connection over UDP;
* `Only`, `fill_ok`: where datagrams with the id of the request are those of its reply, `fill` gives
  that reply;
* `Framed`, `deserializeResponse_matched`: then the response is the one that the stream of the reply
  gives;
* **`session_lossy`**: as long as no id is used twice, commands over UDP get what they get over the
  stream of the server's answers, until an `io::error_t`.
-/

namespace McacheClient.Udp

/-- The payloads of the datagrams that a server cuts a reply into, which it numbers in 16 bits. -/
structure Pieces (reply : Bytes) where
  payloads : List Bytes
  flatten_payloads : payloads.flatten = reply
  length_lt : payloads.length < 65536

/-- The datagrams of a reply. -/
def Pieces.datagrams {reply : Bytes} (pieces : Pieces reply) (id : UInt16) : List Datagram :=
  pieces.payloads.mapIdx fun i payload =>
    { id, seq := .ofNat i, count := .ofNat pieces.payloads.length, payload }

/-- A request, and the receives until the next one: the id that `packet_t` makes up, what `write`
throws, whether the request comes to the server, how it cuts the reply, and what `receive` gives or
throws. A number stands for one of the datagrams that the server sent so far. -/
structure Passage where
  id : UInt16
  failure : Option (IoErrorCode × String) := none
  delivered : Bool := true
  cut : ∀ reply, Pieces reply
  arrivals : List (Except (IoErrorCode × String) ℕ)

/-- What a `receive` gives or throws; a datagram that was not sent cannot be received. -/
def arrive (sent : List Datagram) : Except (IoErrorCode × String) ℕ → Option (Except Exn Datagram)
  | .error (code, msg) => some (.error (.io code msg))
  | .ok i => sent[i]?.map .ok

/-- A connection, the network and the server. -/
structure Net (π : Type) where
  connection : Connection := {}
  passages : List Passage
  sent : List Datagram := []
  peer : π

section Net

variable {π : Type} (serve : Bytes → π → Bytes × π)

/-- The datagrams that the server sends for a request, and its state after it. -/
def Passage.answer (passage : Passage) (data : Bytes) (p : π) : List Datagram × π :=
  if passage.delivered then
    let (reply, p) := serve data p
    ((passage.cut reply).datagrams passage.id, p)
  else ([], p)

/-- The system after a request was sent. -/
def Net.sending (s : Net π) (passage : Passage) (passages : List Passage)
    (replied : List Datagram) (peer : π) : Net π :=
  let sent := s.sent ++ replied
  let incoming := passage.arrivals.filterMap (arrive sent)
  { connection := { s.connection with id := passage.id, incoming, written := true }
    passages, sent, peer }

/-- `write`: the packet has a new id. -/
def Net.write (data : Bytes) (s : Net π) : Except Exn Unit × Net π :=
  match s.passages with
  | [] => (.error (.io .timeout ("can't write due to timeout: dst=" ++ s.connection.addr)), s)
  | passage :: passages =>
    match passage.failure with
    | some (code, msg) =>
      let connection := { s.connection with id := passage.id, written := true }
      (.error (.io code msg), { s with connection, passages })
    | none =>
      let (replied, peer) := passage.answer serve data s.peer
      (.ok (), s.sending passage passages replied peer)

/-- `udp::connection_t`. -/
def link : Link (Net π) where
  write := Net.write serve
  read d s :=
    let (result, connection) := s.connection.read d
    (result.map (List.map Prod.fst), { s with connection })

end Net

/-! ## Only the reply of the request has its id -/

/-- What comes with an id is one of some datagrams, and what is thrown is an `io::error_t`. -/
structure Only (id : UInt16) (datagrams : List Datagram) (incoming : List (Except Exn Datagram)) :
    Prop where
  mem : ∀ d, .ok d ∈ incoming → d.id = id → d ∈ datagrams
  io : ∀ e, .error e ∈ incoming → IsIoError e

section Only

variable {id : UInt16} {datagrams : List Datagram} {incoming : List (Except Exn Datagram)}

theorem Only.tail {first : Except Exn Datagram} (h : Only id datagrams (first :: incoming)) :
    Only id datagrams incoming where
  mem d hd := h.mem d (List.mem_cons_of_mem first hd)
  io e he := h.io e (List.mem_cons_of_mem first he)

variable {reply : Bytes} {pieces : Pieces reply} {s s' : Connection}

theorem Pieces.mem_datagrams {d : Datagram} (h : d ∈ pieces.datagrams id) :
    pieces.payloads[d.seq.toNat]? = some d.payload ∧ d.count.toNat = pieces.payloads.length ∧
      d.id = id := by
  obtain ⟨i, hi, rfl⟩ := List.mem_mapIdx.mp h
  have hseq : (UInt16.ofNat i).toNat = i :=
    UInt16.toNat_ofNat_of_lt' (hi.trans pieces.length_lt)
  refine ⟨?_, UInt16.toNat_ofNat_of_lt' pieces.length_lt, rfl⟩
  show pieces.payloads[(UInt16.ofNat i).toNat]? = _
  rw [hseq, List.getElem?_eq_getElem hi]

theorem receive_cases (h : Only id datagrams s.incoming) :
    (∃ e s', s.receive = (.error e, s') ∧ IsIoError e) ∨
      ∃ d s', s.receive = (.ok d, s') ∧ s'.buffer = s.buffer ++ d.bytes ∧ s'.id = s.id ∧
        Only id datagrams s'.incoming ∧ (d.id = id → d ∈ datagrams) := by
  rw [Connection.receive]
  cases hincoming : s.incoming with
  | nil => exact Or.inl ⟨_, _, rfl, _, _, rfl⟩
  | cons first incoming =>
    rw [hincoming] at h
    cases first with
    | error e => exact Or.inl ⟨_, _, rfl, h.io e List.mem_cons_self⟩
    | ok d => exact Or.inr ⟨d, _, rfl, rfl, rfl, h.tail, h.mem d List.mem_cons_self⟩

theorem map_fst_bytes (d : Datagram) : d.bytes.map Prod.fst = d.payload := by
  simp [Datagram.bytes, Function.comp_def]

theorem fillNext_cases (count : UInt16) {n i : ℕ} (hi : i + n = pieces.payloads.length)
    (h : Only s.id (pieces.datagrams s.id) s.incoming) :
    (∃ e s', s.fillNext count n i = (.error e, s') ∧ IsIoError e) ∨
      ∃ s', s.fillNext count n i = (.ok (), s') ∧
        s'.buffer.map Prod.fst = s.buffer.map Prod.fst ++ (pieces.payloads.drop i).flatten := by
  induction n generalizing i s with
  | zero =>
    refine Or.inr ⟨s, rfl, ?_⟩
    rw [List.drop_of_length_le (by omega), List.flatten_nil, List.append_nil]
  | succ n ih =>
    rw [Connection.fillNext]
    rcases receive_cases h with ⟨e, s', hreceive, hio⟩ | ⟨d, s', hreceive, hbuffer, hid, honly, hd⟩
    · rw [hreceive]
      exact Or.inl ⟨e, s', rfl, hio⟩
    · rw [hreceive]
      simp only
      split_ifs with hseq hcount hident
      · exact Or.inl ⟨_, _, rfl, _, _, rfl⟩
      · exact Or.inl ⟨_, _, rfl, _, _, rfl⟩
      · exact Or.inl ⟨_, _, rfl, _, _, rfl⟩
      · obtain ⟨hpayload, -, -⟩ := Pieces.mem_datagrams (hd ((not_not.mp hident).trans hid))
        rw [not_not.mp hseq] at hpayload
        obtain ⟨hlt, hpayload⟩ := List.getElem?_eq_some_iff.mp hpayload
        rcases ih (i := i + 1) (s := s') (by omega) (hid ▸ honly) with
          ⟨e, t, hfill, hio⟩ | ⟨t, hfill, ht⟩
        · exact Or.inl ⟨e, t, hfill, hio⟩
        · refine Or.inr ⟨t, hfill, ?_⟩
          rw [ht, hbuffer, List.map_append, map_fst_bytes, List.append_assoc,
            List.drop_eq_getElem_cons hlt, hpayload, List.flatten_cons]

/-- **`fill` of an empty buffer** gives the reply, if there is one, or throws an `io::error_t`. -/
theorem fill_cases (hempty : s.buffer = []) (hdatagrams : datagrams = [] ∨
      datagrams = pieces.datagrams s.id) (h : Only s.id datagrams s.incoming) :
    (∃ e s', s.fill = (.error e, s') ∧ IsIoError e) ∨
      ∃ s', s.fill = (.ok (), s') ∧ s'.buffer.map Prod.fst = reply ∧ datagrams ≠ [] := by
  rw [Connection.fill]
  rcases receive_cases h with ⟨e, s', hreceive, hio⟩ | ⟨d, s', hreceive, hbuffer, hid, honly, hd⟩
  · rw [hreceive]
    exact Or.inl ⟨e, s', rfl, hio⟩
  · rw [hreceive]
    simp only
    split_ifs with hseq hident
    · exact Or.inl ⟨_, _, rfl, _, _, rfl⟩
    · exact Or.inl ⟨_, _, rfl, _, _, rfl⟩
    · have hd := hd ((not_not.mp hident).trans hid)
      have hne := List.ne_nil_of_mem hd
      rcases hdatagrams with rfl | rfl
      · exact absurd rfl hne
      · obtain ⟨hpayload, hcount, -⟩ := Pieces.mem_datagrams hd
        rw [not_not.mp hseq] at hpayload
        obtain ⟨hlt, hpayload⟩ := List.getElem?_eq_some_iff.mp hpayload
        rw [← hid] at honly
        have hlength : 1 + (d.count.toNat - 1) = pieces.payloads.length := by omega
        rcases fillNext_cases d.count hlength honly with ⟨e, t, hfill, hio⟩ | ⟨t, hfill, ht⟩
        · exact Or.inl ⟨e, t, hfill, hio⟩
        · refine Or.inr ⟨t, hfill, ?_, hne⟩
          have hall : pieces.payloads[(0 : UInt16).toNat] :: pieces.payloads.drop 1 =
              pieces.payloads := (List.drop_eq_getElem_cons hlt).symm
          rw [ht, hbuffer, hempty, List.nil_append, map_fst_bytes, ← hpayload,
            ← List.flatten_cons, hall, pieces.flatten_payloads]

end Only

/-! ## One reply -/

/-- What a read over UDP returns where one of the stream returns `found`. -/
def Strips : Delimiter → Bytes → Bytes → Prop
  | .text delimiter, found, piece => found = piece ++ delimiter
  | .count _, found, piece => found = piece

theorem cut_of_read (d : Delimiter) {buffer : List Tagged} {c : McacheClient.Connection}
    (hc : c.input = buffer.map Prod.fst) :
    (c.read d = (.error c.timeout, c) ∧ Connection.cut d buffer = none) ∨
      ∃ found data rest, c.read d = (.ok found, { c with input := rest.map Prod.fst }) ∧
        Connection.cut d buffer = some (data, rest) ∧ Strips d found (data.map Prod.fst) := by
  cases d with
  | text delimiter =>
    simp only [McacheClient.Connection.read, Connection.cut, hc]
    cases hcut : List.cutAfter delimiter (buffer.map Prod.fst) with
    | none => exact Or.inl ⟨rfl, rfl⟩
    | some p =>
      obtain ⟨found, rest⟩ := p
      obtain ⟨happend, hends, -⟩ := List.endsAtFirst_of_cutAfter hcut
      refine Or.inr ⟨found, _, _, ?_, rfl, ?_⟩
      · rw [List.map_drop, ← happend, List.drop_left]
      · obtain ⟨l, rfl⟩ := hends
        rw [Strips, List.map_take, ← happend, List.length_append, Nat.add_sub_cancel,
          List.append_assoc, List.take_left]
  | count size =>
    simp only [McacheClient.Connection.read, Connection.cut, hc, List.length_map]
    by_cases hsize : size ≤ buffer.length
    · rw [if_pos hsize, if_neg (Nat.not_lt.mpr hsize), ← List.map_take, ← List.map_drop]
      exact Or.inr ⟨_, _, _, rfl, rfl, rfl⟩
    · rw [if_neg hsize, if_pos (Nat.not_le.mp hsize)]
      exact Or.inl ⟨rfl, rfl⟩

/-- Where the whole of a stream is a reply, a command reads all of it, without waiting for more, and
does not make an error of it that drops the connection. -/
def Framed (command : Command) (reply : Bytes) : Prop :=
  ∀ c : McacheClient.Connection, c.input = reply →
    ∃ result c', commandParserSend command c = (result, c') ∧ c'.input = [] ∧
      (∀ e, result = .error e → ¬IsIoError e) ∧
      ∀ response, result = .ok response → response.code.value < ResponseCode.error.value

section Reply

variable {π : Type} {serve : Bytes → π → Bytes × π} {s : Net π} {command : Command}

theorem link_read {d : Delimiter} {result : Except Exn (List Tagged)} {connection : Connection}
    (h : s.connection.read d = (result, connection)) : (link serve).read d s =
      (result.map (List.map Prod.fst), { s with connection }) := by
  simp only [link, h]

theorem read_eq_cut {c t : Connection} {d : Delimiter}
    (h : (if c.buffer = [] then c.fill else (.ok (), c)) = (.ok (), t)) : c.read d =
      match Connection.cut d t.buffer with
      | none => (.error (.io .ioError "partial input"), t)
      | some (data, buffer) => (.ok data, { t with buffer }) := by
  cases hcut : Connection.cut d t.buffer <;> simp only [Connection.read, h, hcut]

theorem deserializeBody_framed (serve : Bytes → π → Bytes × π) {pending : PendingResponse}
    {c c' : McacheClient.Connection} {result : Except Exn Response}
    (hc : c.input = s.connection.buffer.map Prod.fst)
    (hstream : McacheClient.deserializeBody pending c = (result, c')) (hrest : c'.input = [])
    (hio : ∀ e, result = .error e → ¬IsIoError e) :
    ∃ s', (link serve).deserializeBody pending s = (result, s') ∧ s'.connection.buffer = [] ∧
      s'.passages = s.passages ∧ s'.sent = s.sent ∧ s'.peer = s.peer := by
  rw [McacheClient.deserializeBody] at hstream
  rw [Link.deserializeBody]
  split_ifs at hstream ⊢ with hbytes
  · obtain ⟨rfl, rfl⟩ := Prod.mk.inj hstream
    exact ⟨s, rfl, List.map_eq_nil_iff.mp (hc ▸ hrest), rfl, rfl, rfl⟩
  · rcases cut_of_read (.count pending.bytes.toNat) hc with
      ⟨hread, -⟩ | ⟨found, data, rest, hread, hcut, hdata⟩
    · rw [hread] at hstream
      obtain ⟨rfl, -⟩ := Prod.mk.inj hstream
      exact absurd ⟨_, _, rfl⟩ (hio _ rfl)
    · rw [hread] at hstream
      obtain ⟨rfl, rfl⟩ := Prod.mk.inj hstream
      have hne : s.connection.buffer ≠ [] := by
        intro hnil
        rw [hnil, Connection.cut] at hcut
        split_ifs at hcut with hsize
        have hzero : pending.bytes.toNat = 0 := Nat.le_zero.mp (Nat.not_lt.mp hsize)
        exact hbytes (UInt64.toNat_inj.mp hzero)
      have hread' := read_eq_cut (d := .count pending.bytes.toNat) (if_neg hne)
      rw [hcut] at hread'
      rw [link_read hread', show found = data.map Prod.fst from hdata]
      exact ⟨_, rfl, List.map_eq_nil_iff.mp hrest, rfl, rfl, rfl⟩

theorem deserializeHeader_stripped (hchomps : command.Chomps) {found piece : Bytes}
    (hstrips : Strips command.headerDelimiter found piece) :
    command.deserializeHeader piece = command.deserializeHeader found ∨
      ∃ p, command.deserializeHeader found = .ok p ∧
        (p.Fine → command.deserializeHeader piece = .ok p) := by
  cases hdelimiter : command.headerDelimiter with
  | text delimiter =>
    rw [hdelimiter] at hstrips
    obtain rfl := show found = piece ++ delimiter from hstrips
    exact Or.inr (hchomps delimiter piece hdelimiter)
  | count size =>
    rw [hdelimiter] at hstrips
    exact Or.inl (congrArg _ (show found = piece from hstrips).symm)

theorem fine_of_deserializeBody {p : PendingResponse} {c c' : McacheClient.Connection}
    {result : Except Exn Response} (h : McacheClient.deserializeBody p c = (result, c'))
    (hcode : ∀ response, result = .ok response →
      response.code.value < ResponseCode.error.value) : p.Fine := by
  by_cases hbytes : p.bytes = 0
  · rw [McacheClient.deserializeBody, if_pos hbytes] at h
    exact Or.inl (hcode _ (Prod.mk.inj h).1.symm)
  · exact Or.inr hbytes

theorem deserializeResponse_of_read {c c' : McacheClient.Connection} {header : Bytes}
    (h : c.read command.headerDelimiter = (.ok header, c')) :
    McacheClient.deserializeResponse command c = match command.deserializeHeader header with
      | .error e => (.error e, c')
      | .ok pending => McacheClient.deserializeBody pending c' := by
  cases hheader : command.deserializeHeader header <;>
    simp only [McacheClient.deserializeResponse, h, hheader]

/-- **One reply**: over UDP the response is that of its stream, or an `io::error_t`. -/
theorem deserializeResponse_matched (serve : Bytes → π → Bytes × π) (hchomps : command.Chomps)
    {reply : Bytes} {pieces : Pieces reply} {datagrams : List Datagram}
    (hempty : s.connection.buffer = [])
    (hdatagrams : datagrams = [] ∨ datagrams = pieces.datagrams s.connection.id)
    (honly : Only s.connection.id datagrams s.connection.incoming)
    {c c' : McacheClient.Connection} (hc : c.input = reply) {result : Except Exn Response}
    (hstream : McacheClient.deserializeResponse command c = (result, c')) (hrest : c'.input = [])
    (hio : ∀ e, result = .error e → ¬IsIoError e)
    (hcode : ∀ response, result = .ok response →
      response.code.value < ResponseCode.error.value) :
    (∃ e s', (link serve).deserializeResponse command s = (.error e, s') ∧ IsIoError e) ∨
      ∃ s', (link serve).deserializeResponse command s = (result, s') ∧ datagrams ≠ [] ∧
        s'.connection.buffer = [] ∧ s'.passages = s.passages ∧ s'.sent = s.sent ∧
        s'.peer = s.peer := by
  rw [Link.deserializeResponse]
  rcases fill_cases hempty hdatagrams honly with ⟨e, t, hfill, hfailed⟩ | ⟨t, hfill, ht, hne⟩
  · rw [link_read (read_error hempty hfill)]
    exact Or.inl ⟨e, _, rfl, hfailed⟩
  · have hread := read_eq_cut (d := command.headerDelimiter) ((if_pos hempty).trans hfill)
    rcases cut_of_read command.headerDelimiter (hc.trans ht.symm) with
      ⟨-, hcut⟩ | ⟨found, data, rest, hfound, hcut, hstrips⟩
    · rw [hcut] at hread
      rw [link_read hread]
      exact Or.inl ⟨_, _, rfl, _, _, rfl⟩
    · rw [hcut] at hread
      rw [link_read hread]
      refine Or.inr ?_
      have hparsed := (deserializeResponse_of_read hfound).symm.trans hstream
      have hheader : command.deserializeHeader (data.map Prod.fst) =
          command.deserializeHeader found := by
        rcases deserializeHeader_stripped hchomps hstrips with heq | ⟨p, hp, hfine⟩
        · exact heq
        · rw [hp] at hparsed ⊢
          exact hfine (fine_of_deserializeBody hparsed hcode)
      simp only [Except.map, hheader]
      cases hp : command.deserializeHeader found with
      | error e =>
        rw [hp] at hparsed
        obtain ⟨rfl, rfl⟩ := Prod.mk.inj hparsed
        exact ⟨_, rfl, hne, List.map_eq_nil_iff.mp hrest, rfl, rfl, rfl⟩
      | ok p =>
        rw [hp] at hparsed
        obtain ⟨s', hbody, hs'⟩ := deserializeBody_framed serve
          (s := { s with connection := { t with buffer := rest } }) rfl hparsed hrest hio
        exact ⟨s', hbody, hne, hs'⟩

end Reply

/-! ## A series of commands -/

section Session

variable {π : Type} {serve : Bytes → π → Bytes × π}

/-- Every command of a series gets a framed reply from a server that executes them in order. -/
def AllFramed (serve : Bytes → π → Bytes × π) : List Command → π → Prop
  | [], _ => True
  | command :: commands, p => ∃ data, command.serialize = .ok data ∧ command.Chomps ∧
      Framed command (serve data p).1 ∧ AllFramed serve commands (serve data p).2

/-- The buffer is empty, and no request to come has the id of another one, or of a datagram that was
sent. -/
structure Net.Ready (s : Net π) : Prop where
  empty : s.connection.buffer = []
  nodup : (s.passages.map Passage.id).Nodup
  fresh : ∀ d ∈ s.sent, d.id ∉ s.passages.map Passage.id

/-- A system over UDP and the stream from its server, before a series of commands. -/
def Shares (serve : Bytes → π → Bytes × π) (commands : List Command) (s : Net π)
    (u : π × McacheClient.Connection) : Prop :=
  s.Ready ∧ u.2.input = [] ∧ s.peer = u.1 ∧ AllFramed serve commands s.peer

theorem mem_filterMap_arrive {sent : List Datagram}
    {arrivals : List (Except (IoErrorCode × String) ℕ)} {arrived : Except Exn Datagram}
    (h : arrived ∈ arrivals.filterMap (arrive sent)) :
    (∃ e, arrived = .error e ∧ IsIoError e) ∨ ∃ d ∈ sent, arrived = .ok d := by
  obtain ⟨arrival, -, h⟩ := List.mem_filterMap.mp h
  rcases arrival with ⟨code, msg⟩ | i
  · exact Or.inl ⟨_, (Option.some.inj h).symm, code, msg, rfl⟩
  · obtain ⟨d, hd, rfl⟩ := Option.map_eq_some_iff.mp h
    exact Or.inr ⟨d, List.mem_of_getElem? hd, rfl⟩

/-- After a write with a new id, only the reply has it. -/
theorem only_of_fresh {id : UInt16} {sent datagrams : List Datagram}
    (hfresh : ∀ d ∈ sent, d.id ≠ id) (arrivals : List (Except (IoErrorCode × String) ℕ)) :
    Only id datagrams (arrivals.filterMap (arrive (sent ++ datagrams))) where
  mem d hd hid := by
    rcases mem_filterMap_arrive hd with ⟨e, he, -⟩ | ⟨x, hx, heq⟩
    · cases he
    · obtain rfl := Except.ok.inj heq
      rcases List.mem_append.mp hx with hx | hx
      · exact absurd hid (hfresh d hx)
      · exact hx
  io e he := by
    rcases mem_filterMap_arrive he with ⟨e', he', hio⟩ | ⟨x, -, heq⟩
    · exact Except.error.inj he' ▸ hio
    · cases heq

theorem Passage.answer_cases (passage : Passage) (serve : Bytes → π → Bytes × π) (data : Bytes)
    (p : π) :
    ((passage.answer serve data p).1 = [] ∨ (passage.answer serve data p).1 =
        (passage.cut (serve data p).1).datagrams passage.id) ∧
      ((passage.answer serve data p).1 ≠ [] → (passage.answer serve data p).2 = (serve data p).2) ∧
      ∀ d ∈ (passage.answer serve data p).1, d.id = passage.id := by
  rw [Passage.answer]
  split_ifs
  · exact ⟨Or.inr rfl, fun _ => rfl, fun d hd => (Pieces.mem_datagrams hd).2.2⟩
  · exact ⟨Or.inl rfl, fun h => absurd rfl h, nofun⟩

theorem Net.Ready.next {s s' : Net π} {passage : Passage} {passages : List Passage}
    {datagrams : List Datagram} (h : s.Ready) (hpassages : s.passages = passage :: passages)
    (hids : ∀ d ∈ datagrams, d.id = passage.id) (hempty : s'.connection.buffer = [])
    (hpassages' : s'.passages = passages) (hsent : s'.sent = s.sent ++ datagrams) : s'.Ready where
  empty := hempty
  nodup := by
    have hnodup := h.nodup
    rw [hpassages, List.map_cons, List.nodup_cons] at hnodup
    rw [hpassages']
    exact hnodup.2
  fresh d hd := by
    have hnodup := h.nodup
    rw [hpassages, List.map_cons, List.nodup_cons] at hnodup
    rw [hsent, List.mem_append] at hd
    rw [hpassages']
    rcases hd with hd | hd
    · have hfresh := h.fresh d hd
      rw [hpassages, List.map_cons, List.mem_cons, not_or] at hfresh
      exact hfresh.2
    · rw [hids d hd]
      exact hnodup.1

theorem commandParserSend_of_serialize {command : Command} {data : Bytes}
    (h : command.serialize = .ok data) (c : McacheClient.Connection) :
    commandParserSend command c = McacheClient.deserializeResponse command (c.write data) := by
  rw [commandParserSend, h]

/-- **One command** over UDP gets what it gets over the stream, or an `io::error_t`. -/
theorem send_matched {command : Command} {commands : List Command} {s : Net π}
    {u : π × McacheClient.Connection} (h : Shares serve (command :: commands) s u) :
    Link.Matched IsIoError (Shares serve commands) ((link serve).send command s)
      ((served serve).send command u) := by
  obtain ⟨p, c⟩ := u
  obtain ⟨hready, hinput, rfl, data, hser, hchomps, hframed, hrest⟩ := h
  have hwrite : (link serve).write data s = s.write serve data := rfl
  rw [Link.send, hser, send_served _ _ _ hser]
  cases hpassages : s.passages with
  | nil =>
    simp only [hwrite, Net.write, hpassages]
    exact Or.inl ⟨_, rfl, _, _, rfl⟩
  | cons passage passages =>
    rcases hfailure : passage.failure with _ | ⟨code, msg⟩
    · simp only [hwrite, Net.write, hpassages, hfailure]
      obtain ⟨hdatagrams, hpeer, hids⟩ := passage.answer_cases serve data s.peer
      generalize passage.answer serve data s.peer = answer at hdatagrams hpeer hids ⊢
      obtain ⟨datagrams, peer⟩ := answer
      have hfresh : ∀ d ∈ s.sent, d.id ≠ passage.id := fun d hd heq => by
        refine hready.fresh d hd ?_
        rw [hpassages, heq]
        exact List.mem_cons_self
      have hempty : (s.sending passage passages datagrams peer).connection.buffer = [] :=
        hready.empty
      have hreply : c.input ++ (serve data s.peer).1 = (serve data s.peer).1 := by
        rw [show c.input = [] from hinput, List.nil_append]
      obtain ⟨result, c', hstream, hinput', hio, hcode⟩ :=
        hframed { c with input := c.input ++ (serve data s.peer).1 } hreply
      rw [hstream]
      rw [commandParserSend_of_serialize hser] at hstream
      rcases deserializeResponse_matched serve hchomps hempty hdatagrams
          (only_of_fresh hfresh passage.arrivals) hreply hstream hinput' hio hcode with
        ⟨e, s', hout, hfailed⟩ | ⟨s', hout, hne, hempty, hpassages', hsent, hpeer'⟩
      · rw [hout]
        exact Or.inl ⟨e, rfl, hfailed⟩
      · rw [hout]
        have hpeer : s'.peer = (serve data s.peer).2 := hpeer'.trans (hpeer hne)
        exact Or.inr ⟨rfl, hready.next hpassages hids hempty hpassages' hsent, hinput', hpeer,
          hpeer ▸ hrest⟩
    · simp only [hwrite, Net.write, hpassages, hfailure]
      exact Or.inl ⟨_, rfl, _, _, rfl⟩

/-- **Commands over UDP** get what they get over the stream of the server's answers, all of it or up
to an `io::error_t`, whatever the network loses, duplicates, delays or reorders, as long as the ids
of the requests are different. -/
theorem session_lossy (addr : String) {commands : List Command} {passages : List Passage} {p : π}
    (hids : (passages.map Passage.id).Nodup) (hframed : AllFramed serve commands p) :
    let onStream := (served serve).session commands (p, {})
    (link serve).session commands { connection := { addr }, passages, peer := p } = onStream ∨
      ∃ before e, IsIoError e ∧
        (link serve).session commands { connection := { addr }, passages, peer := p } =
          before ++ [.error e] ∧
        before <+: onStream :=
  Link.session_matched (R := Shares serve) send_matched
    ⟨⟨rfl, hids, nofun⟩, rfl, rfl, hframed⟩

end Session

end McacheClient.Udp
