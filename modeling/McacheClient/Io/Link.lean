import McacheClient.Io.Tcp

/-!
# Commands over any connection

`command_parser_t` is a template over the type of its connection.

* `Link`: what it uses of a connection; `Link.send`: the command over it;
* `Link.session`: the commands of one connection, until it is dropped;
* `Link.Matched`, `Link.Refines`: a connection does what another one does, or fails;
* **`Link.session_matched`**: a series of commands does what it does over another connection, or
  fails, when each command does; `Refines.session` is the case where every operation does;
* `served`: the stream of bytes from a server that answers what is written;
* `Tcp.Stack`, `Tcp.link`: the connection over TCP;
* **`Tcp.session_served`**: the commands over TCP get what they get over the stream, whatever the
  network delivers at a time, until it fails;
* `Tcp.byteByByte`: a network that delivers one byte at a time.
-/

namespace McacheClient

/-- An `io::error_t`. -/
def IsIoError (e : Exn) : Prop := ∃ code msg, e = .io code msg

/-- The two methods of a connection that `command_parser_t` calls; `read` is overloaded. -/
structure Link (τ : Type) where
  write : Bytes → τ → Except Exn Unit × τ
  read : Delimiter → τ → Except Exn Bytes × τ

namespace Link

section Parser

variable {τ : Type} (link : Link τ)

/-- `command_parser_t::deserialize_body`. -/
def deserializeBody (pending : PendingResponse) (t : τ) : Except Exn Response × τ :=
  if pending.bytes = 0 then (.ok pending.response, t)
  else
    match link.read (.count pending.bytes.toNat) t with
    | (.error e, t) => (.error e, t)
    | (.ok body, t) => (pending.setBody pending.response body, t)

/-- `command_parser_t::deserialize_response`. -/
def deserializeResponse (command : Command) (t : τ) : Except Exn Response × τ :=
  match link.read command.headerDelimiter t with
  | (.error e, t) => (.error e, t)
  | (.ok header, t) =>
    match command.deserializeHeader header with
    | .error e => (.error e, t)
    | .ok pending => link.deserializeBody pending t

/-- `command_parser_t::send`. -/
def send (command : Command) (t : τ) : Except Exn Response × τ :=
  match command.serialize with
  | .error e => (.error e, t)
  | .ok data =>
    match link.write data t with
    | (.error e, t) => (.error e, t)
    | (.ok _, t) => link.deserializeResponse command t

/-- What commands come to that a proxy sends over one connection: it keeps the connection after a
response below `error` only. -/
def session : List Command → τ → List (Except Exn Response)
  | [], _ => []
  | command :: commands, t =>
    match link.send command t with
    | (.error e, _) => [.error e]
    | (.ok response, t) =>
      .ok response ::
        if response.code.value < ResponseCode.error.value then session commands t else []

end Parser

/-! ## One connection in place of another -/

section Refines

variable {τ υ : Type}

/-- An operation fails, or it does what another operation does. -/
def Matched {α : Type} (failed : Exn → Prop) (R : τ → υ → Prop) (out : Except Exn α × τ)
    (out' : Except Exn α × υ) : Prop :=
  (∃ e, out.1 = .error e ∧ failed e) ∨ out.1 = out'.1 ∧ R out.2 out'.2

theorem Matched.cases {α : Type} {failed : Exn → Prop} {R : τ → υ → Prop} {out : Except Exn α × τ}
    {out' : Except Exn α × υ} (h : Matched failed R out out') :
    (∃ e t, out = (.error e, t) ∧ failed e) ∨
      ∃ result t u, out = (result, t) ∧ out' = (result, u) ∧ R t u := by
  obtain ⟨result, t⟩ := out
  obtain ⟨result', u⟩ := out'
  rcases h with ⟨e, rfl, hfailed⟩ | ⟨rfl, hR⟩
  · exact Or.inl ⟨e, t, rfl, hfailed⟩
  · exact Or.inr ⟨result, t, u, rfl, rfl, hR⟩

section Session

variable {link : Link τ} {spec : Link υ} {failed : Exn → Prop}

/-- **A series of commands** over a connection gets what it gets over the other one, all of it or up
to a failure, when each command does in states that are related for it and those after it. -/
theorem session_matched {R : List Command → τ → υ → Prop}
    (hsend : ∀ {command commands t u}, R (command :: commands) t u →
      Matched failed (R commands) (link.send command t) (spec.send command u))
    {commands : List Command} {t : τ} {u : υ} (hR : R commands t u) :
    link.session commands t = spec.session commands u ∨
      ∃ before e, failed e ∧ link.session commands t = before ++ [.error e] ∧
        before <+: spec.session commands u := by
  induction commands generalizing t u with
  | nil => exact Or.inl rfl
  | cons command commands ih =>
    rw [Link.session, Link.session]
    rcases (hsend hR).cases with
      ⟨e, t', hout, hfailed⟩ | ⟨result, t', u', hout, hout', hR'⟩
    · rw [hout]
      exact Or.inr ⟨[], e, hfailed, rfl, List.nil_prefix⟩
    · rw [hout, hout']
      cases result with
      | error e => exact Or.inl rfl
      | ok response =>
        simp only
        split_ifs
        · rcases ih hR' with heq | ⟨before, e, hfailed, heq, hlead⟩
          · exact Or.inl (congrArg _ heq)
          · refine Or.inr ⟨.ok response :: before, e, hfailed, congrArg _ heq, ?_⟩
            exact (List.prefix_cons_inj _).mpr hlead
        · exact Or.inl rfl

end Session

/-- Every operation of a connection is matched in related states. -/
structure Refines (link : Link τ) (spec : Link υ) (failed : Exn → Prop) (R : τ → υ → Prop) :
    Prop where
  write : ∀ {t u}, R t u → ∀ data, Matched failed R (link.write data t) (spec.write data u)
  read : ∀ {t u}, R t u → ∀ d, Matched failed R (link.read d t) (spec.read d u)

variable {link : Link τ} {spec : Link υ} {failed : Exn → Prop} {R : τ → υ → Prop}

namespace Refines

variable (h : Refines link spec failed R) {t : τ} {u : υ} (hR : R t u)
include h hR

theorem deserializeBody (pending : PendingResponse) :
    Matched failed R (link.deserializeBody pending t) (spec.deserializeBody pending u) := by
  unfold Link.deserializeBody
  split_ifs
  · exact Or.inr ⟨rfl, hR⟩
  · rcases (h.read hR (.count pending.bytes.toNat)).cases with
      ⟨e, t', hout, hfailed⟩ | ⟨result, t', u', hout, hout', hR'⟩
    · rw [hout]
      exact Or.inl ⟨e, rfl, hfailed⟩
    · rw [hout, hout']
      cases result with
      | error e => exact Or.inr ⟨rfl, hR'⟩
      | ok body => exact Or.inr ⟨rfl, hR'⟩

theorem deserializeResponse (command : Command) :
    Matched failed R (link.deserializeResponse command t) (spec.deserializeResponse command u) := by
  unfold Link.deserializeResponse
  rcases (h.read hR command.headerDelimiter).cases with
    ⟨e, t', hout, hfailed⟩ | ⟨result, t', u', hout, hout', hR'⟩
  · rw [hout]
    exact Or.inl ⟨e, rfl, hfailed⟩
  · rw [hout, hout']
    cases result with
    | error e => exact Or.inr ⟨rfl, hR'⟩
    | ok header =>
      simp only
      cases command.deserializeHeader header with
      | error e => exact Or.inr ⟨rfl, hR'⟩
      | ok pending => exact h.deserializeBody hR' pending

/-- **One command.** -/
theorem send (command : Command) :
    Matched failed R (link.send command t) (spec.send command u) := by
  unfold Link.send
  cases command.serialize with
  | error e => exact Or.inr ⟨rfl, hR⟩
  | ok data =>
    simp only
    rcases (h.write hR data).cases with
      ⟨e, t', hout, hfailed⟩ | ⟨result, t', u', hout, hout', hR'⟩
    · rw [hout]
      exact Or.inl ⟨e, rfl, hfailed⟩
    · rw [hout, hout']
      cases result with
      | error e => exact Or.inr ⟨rfl, hR'⟩
      | ok _ => exact h.deserializeResponse hR' command

theorem session (commands : List Command) :
    link.session commands t = spec.session commands u ∨
      ∃ before e, failed e ∧ link.session commands t = before ++ [.error e] ∧
        before <+: spec.session commands u :=
  session_matched (R := fun _ => R) (fun hR => h.send hR _) hR

end Refines

end Refines

end Link

/-! ## The stream from a server -/

/-- A server that reads what is written and answers it, and the stream of its answers. -/
def served {π : Type} (serve : Bytes → π → Bytes × π) : Link (π × Connection) where
  write data u :=
    let (reply, p) := serve data u.1
    (.ok (), p, { u.2.write data with input := u.2.input ++ reply })
  read d u :=
    let (result, c) := u.2.read d
    (result, u.1, c)

section Served

variable {π : Type} (serve : Bytes → π → Bytes × π) (p : π) (c : Connection)

theorem deserializeBody_served (pending : PendingResponse) :
    (served serve).deserializeBody pending (p, c) =
      ((deserializeBody pending c).1, p, (deserializeBody pending c).2) := by
  unfold Link.deserializeBody deserializeBody
  split_ifs
  · rfl
  · simp only [served]
    rcases c.read (.count pending.bytes.toNat) with ⟨_ | body, c'⟩
    · rfl
    · rfl

theorem deserializeResponse_served (command : Command) :
    (served serve).deserializeResponse command (p, c) =
      ((deserializeResponse command c).1, p, (deserializeResponse command c).2) := by
  unfold Link.deserializeResponse deserializeResponse
  have hread : (served serve).read command.headerDelimiter (p, c) =
      ((c.read command.headerDelimiter).1, p, (c.read command.headerDelimiter).2) := rfl
  rw [hread]
  rcases c.read command.headerDelimiter with ⟨_ | header, c'⟩
  · rfl
  · simp only
    cases command.deserializeHeader header with
    | error e => rfl
    | ok pending => exact deserializeBody_served serve p c' pending

/-- A command over the stream from a server: its reply is there when the response is read. -/
theorem send_served {command : Command} {data : Bytes} (h : command.serialize = .ok data) :
    (served serve).send command (p, c) =
      ((commandParserSend command { c with input := c.input ++ (serve data p).1 }).1,
        (serve data p).2,
        (commandParserSend command { c with input := c.input ++ (serve data p).1 }).2) := by
  simp only [Link.send, commandParserSend, h]
  exact deserializeResponse_served serve (serve data p).2 _ command

end Served

namespace Tcp

/-- The operations of `Asio` and `asio::async_write`. -/
structure Stack (σ : Type) extends Asio σ where
  asyncWrite (data : Bytes) (socket : σ) : Except Failure Unit × σ

/-- The documented behaviour, with the state of the server at the other end of a socket: data that
was written is read and answered there, and reading does not change it. -/
structure Stack.Documented {σ π : Type} (stack : Stack σ) (unread : σ → Bytes) (peer : σ → π)
    (serve : Bytes → π → Bytes × π) : Prop where
  asio : stack.toAsio.Documented unread
  write : ∀ {data : Bytes} {socket socket' : σ},
    stack.asyncWrite data socket = (.ok (), socket') →
      unread socket' = unread socket ++ (serve data (peer socket)).1 ∧
        peer socket' = (serve data (peer socket)).2
  peer_readUntil : ∀ {delimiter input input' : Bytes} {socket socket' : σ} {size : ℕ},
    stack.asyncReadUntil delimiter input socket = (.ok size, input', socket') →
      peer socket' = peer socket
  peer_read : ∀ {transfer : ℕ} {input input' : Bytes} {socket socket' : σ},
    stack.asyncRead transfer input socket = (.ok (), input', socket') → peer socket' = peer socket

section Tcp

variable {σ π : Type}

/-- `write`. -/
def Connection.write (stack : Stack σ) (data : Bytes) (s : Connection σ) :
    Except Exn Unit × Connection σ :=
  match stack.asyncWrite data s.socket with
  | (.error .timeouted, socket) =>
    (.error (.io .timeout ("can't write due to timeout: dst=" ++ s.addr)), { s with socket })
  | (.error (.ec message), socket) => (.error (.io .ioError message), { s with socket })
  | (.ok _, socket) => (.ok (), { s with socket })

/-- `tcp::connection_t`. -/
def link (stack : Stack σ) : Link (Connection σ) where
  write data s := s.write stack data
  read d s := s.exec stack.toAsio d

theorem isIoError_failure (s : Connection σ) (f : Failure) : IsIoError (s.failure f) := by
  cases f with
  | timeouted => exact ⟨_, _, rfl⟩
  | ec message => exact ⟨_, _, rfl⟩

theorem copyN_socket (count : ℕ) (s : Connection σ) : (s.copyN count).2.socket = s.socket := by
  unfold Connection.copyN
  split_ifs <;> rfl

theorem copyN_ne_error {count : ℕ} {s s' : Connection σ} {e : Exn}
    (hcount : count ≤ s.input.length) : s.copyN count ≠ (.error e, s') := by
  rw [Connection.copyN, if_neg (Nat.not_lt.mpr hcount)]
  simp

section Documented

variable {stack : Stack σ} {unread : σ → Bytes} {peer : σ → π} {serve : Bytes → π → Bytes × π}
  {s s' : Connection σ} {call : Delimiter}

theorem exec_error (h : stack.Documented unread peer serve) {e : Exn}
    (hexec : s.exec stack.toAsio call = (.error e, s')) : IsIoError e := by
  cases call with
  | text delimiter =>
    rw [Connection.exec, Connection.readUntil] at hexec
    rcases hresult : stack.asyncReadUntil delimiter s.input s.socket with ⟨result, input, socket⟩
    rw [hresult] at hexec
    cases result with
    | error f =>
      obtain ⟨he, -⟩ := Prod.mk.inj hexec
      rw [← Except.error.inj he]
      exact isIoError_failure s f
    | ok size =>
      obtain ⟨more, -, -, found, rest, hcut, rfl⟩ := h.asio.readUntil hresult
      obtain ⟨happend, -⟩ := List.endsAtFirst_of_cutAfter hcut
      refine absurd hexec (copyN_ne_error ?_)
      show found.length ≤ input.length
      rw [← happend, List.length_append]
      exact Nat.le_add_right _ _
  | count count =>
    rw [Connection.exec, Connection.read] at hexec
    by_cases hcount : count ≤ s.input.length
    · rw [if_pos hcount] at hexec
      exact absurd hexec (copyN_ne_error hcount)
    · rw [if_neg hcount] at hexec
      rcases hresult : stack.asyncRead (count - s.input.length) s.input s.socket with
        ⟨result, input, socket⟩
      rw [hresult] at hexec
      cases result with
      | error f =>
        obtain ⟨he, -⟩ := Prod.mk.inj hexec
        rw [← Except.error.inj he]
        exact isIoError_failure s f
      | ok _ =>
        obtain ⟨more, hinput, -, hmore⟩ := h.asio.read hresult
        refine absurd hexec (copyN_ne_error ?_)
        show count ≤ input.length
        rw [hinput, List.length_append]
        omega

theorem exec_peer (h : stack.Documented unread peer serve) {piece : Bytes}
    (hexec : s.exec stack.toAsio call = (.ok piece, s')) : peer s'.socket = peer s.socket := by
  have hs' := congrArg (fun out => out.2.socket) hexec
  cases call with
  | text delimiter =>
    rw [Connection.exec, Connection.readUntil] at hexec hs'
    rcases hresult : stack.asyncReadUntil delimiter s.input s.socket with ⟨result, input, socket⟩
    rw [hresult] at hexec hs'
    cases result with
    | error f => cases hexec
    | ok size =>
      have hs' : s'.socket = socket := hs'.symm.trans (copyN_socket size _)
      rw [hs', h.peer_readUntil hresult]
  | count count =>
    rw [Connection.exec, Connection.read] at hexec hs'
    by_cases hcount : count ≤ s.input.length
    · rw [if_pos hcount] at hs'
      have hs' : s'.socket = s.socket := hs'.symm.trans (copyN_socket count s)
      rw [hs']
    · rw [if_neg hcount] at hexec hs'
      rcases hresult : stack.asyncRead (count - s.input.length) s.input s.socket with
        ⟨result, input, socket⟩
      rw [hresult] at hexec hs'
      cases result with
      | error f => cases hexec
      | ok _ =>
        have hs' : s'.socket = socket := hs'.symm.trans (copyN_socket count _)
        rw [hs', h.peer_read hresult]

/-- The stream that a connection has yet to return, and the server that it comes from. -/
def Shares (unread : σ → Bytes) (peer : σ → π) (s : Connection σ)
    (u : π × McacheClient.Connection) : Prop :=
  u.2.input = s.stream unread ∧ peer s.socket = u.1

/-- **The connection over TCP** does what the stream does, or throws an `io::error_t`. -/
theorem link_refines (h : stack.Documented unread peer serve) :
    (link stack).Refines (served serve) IsIoError (Shares unread peer) where
  write := by
    rintro s ⟨p, c⟩ ⟨hinput, rfl⟩ data
    show Link.Matched _ _ (s.write stack data) _
    rw [Connection.write]
    rcases hwrite : stack.asyncWrite data s.socket with ⟨_ | _, socket⟩
    · rename_i f
      cases f with
      | timeouted => exact Or.inl ⟨_, rfl, _, _, rfl⟩
      | ec message => exact Or.inl ⟨_, rfl, _, _, rfl⟩
    · obtain ⟨hunread, hpeer⟩ := h.write hwrite
      refine Or.inr ⟨rfl, ?_, hpeer⟩
      have hinput : c.input = s.input ++ unread s.socket := hinput
      show c.input ++ _ = s.input ++ unread socket
      rw [hinput, hunread, List.append_assoc]
  read := by
    rintro s ⟨p, c⟩ ⟨hinput, rfl⟩ d
    show Link.Matched _ _ (s.exec stack.toAsio d) _
    rcases hexec : s.exec stack.toAsio d with ⟨_ | piece, s'⟩
    · exact Or.inl ⟨_, rfl, exec_error h hexec⟩
    · have hread := exec_refines h.asio hexec hinput
      have hserved : (served serve).read d (peer s.socket, c) =
          (.ok piece, peer s.socket, { c with input := s'.stream unread }) := by
        simp only [served, hread]
      rw [hserved]
      exact Or.inr ⟨rfl, rfl, exec_peer h hexec⟩

/-- **Commands over TCP** get what they get over the stream of the server's answers, however the
network splits it, all of it or up to an `io::error_t`. -/
theorem session_served (h : stack.Documented unread peer serve) (commands : List Command)
    (s : Connection σ) :
    let onStream := (served serve).session commands
      (peer s.socket, { input := s.stream unread })
    (link stack).session commands s = onStream ∨
      ∃ before e, IsIoError e ∧ (link stack).session commands s = before ++ [.error e] ∧
        before <+: onStream :=
  (link_refines h).session ⟨rfl, rfl⟩ commands

end Documented

/-! ## A network of single bytes -/

/-- A server whose answers come one byte at a time. -/
def byteByByte (serve : Bytes → π → Bytes × π) : Stack (List Bytes × π) where
  asyncReadUntil delimiter input socket :=
    let (result, input, chunks) := chunked.asyncReadUntil delimiter input socket.1
    (result, input, chunks, socket.2)
  asyncRead transfer input socket :=
    let (result, input, chunks) := chunked.asyncRead transfer input socket.1
    (result, input, chunks, socket.2)
  asyncWrite data socket :=
    let (reply, p) := serve data socket.2
    (.ok (), socket.1 ++ reply.map fun b => [b], p)

theorem flatten_singletons (reply : Bytes) : (reply.map fun b => [b]).flatten = reply := by
  rw [← List.flatMap_def, List.flatMap_singleton']

theorem documented_byteByByte (serve : Bytes → π → Bytes × π) :
    (byteByByte serve).Documented (fun socket => socket.1.flatten) Prod.snd serve where
  asio := {
    readUntil := by
      intro delimiter input input' socket socket' size h
      obtain ⟨hresult, hrest⟩ := Prod.mk.inj h
      obtain ⟨hinput, hsocket⟩ := Prod.mk.inj hrest
      exact documented_chunked.readUntil
        (Prod.ext hresult (Prod.ext hinput (congrArg Prod.fst hsocket)))
    read := by
      intro transfer input input' socket socket' h
      obtain ⟨hresult, hrest⟩ := Prod.mk.inj h
      obtain ⟨hinput, hsocket⟩ := Prod.mk.inj hrest
      exact documented_chunked.read
        (Prod.ext hresult (Prod.ext hinput (congrArg Prod.fst hsocket))) }
  write := by
    intro data socket socket' h
    obtain ⟨-, rfl⟩ := Prod.mk.inj h
    refine ⟨?_, rfl⟩
    rw [List.flatten_append, flatten_singletons]
  peer_readUntil := by
    intro delimiter input input' socket socket' size h
    exact (congrArg (fun out => out.2.2.2) h).symm
  peer_read := by
    intro transfer input input' socket socket' h
    exact (congrArg (fun out => out.2.2.2) h).symm

end Tcp

end Tcp

end McacheClient
