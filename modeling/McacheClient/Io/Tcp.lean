import McacheClient.Proto.Parser

/-!
# Reads over TCP

`tcp::connection_t` over a parameter for the two operations of asio and the socket.

* `Asio`, `Asio.Documented`: the operations, and what their documentation promises of what they
  leave of the bytes to come;
* `Connection.readUntil`, `read`, `exec`: the methods of the connection;
* `Connection.stream`: the bytes that were not returned yet, buffered or to come;
* `exec_refines`: a read that returns is a read of the stream;
* **`reads_stream`**: reads that all return give consecutive pieces of the stream, each cut where
  its call says, whatever the network delivers at a time;
* `chunked`: a network that delivers one chunk after the other.
-/

namespace McacheClient.Tcp

/-- An operation ends when the deadline closes the socket, or with an error of asio. -/
inductive Failure
  | timeouted
  | ec (message : String)
  deriving DecidableEq

/-- `asio::async_read_until` and `asio::async_read` with `transfer_at_least`, to their end: the
result, the input buffer and the socket. -/
structure Asio (σ : Type) where
  asyncReadUntil (delimiter input : Bytes) (socket : σ) : Except Failure ℕ × Bytes × σ
  asyncRead (transfer : ℕ) (input : Bytes) (socket : σ) : Except Failure Unit × Bytes × σ

/-- The documented behaviour, for the bytes `unread` that a socket has yet to deliver: an operation
that ends well appends a first part of them to the buffer, which then has the delimiter in it, where
the result says, or the bytes that were asked for. -/
structure Asio.Documented {σ : Type} (asio : Asio σ) (unread : σ → Bytes) : Prop where
  readUntil : ∀ {delimiter input input' : Bytes} {socket socket' : σ} {size : ℕ},
    asio.asyncReadUntil delimiter input socket = (.ok size, input', socket') →
      ∃ more, input' = input ++ more ∧ unread socket = more ++ unread socket' ∧
        ∃ found rest, List.cutAfter delimiter input' = some (found, rest) ∧ found.length = size
  read : ∀ {transfer : ℕ} {input input' : Bytes} {socket socket' : σ},
    asio.asyncRead transfer input socket = (.ok (), input', socket') →
      ∃ more, input' = input ++ more ∧ unread socket = more ++ unread socket' ∧
        transfer ≤ more.length

/-- `pimple_connection_t`. -/
structure Connection (σ : Type) where
  addr : String := ""
  input : Bytes := []
  socket : σ

namespace Connection

variable {σ : Type} (asio : Asio σ)

/-- `copy_n`; bytes that are not in the buffer must not be asked for. -/
def copyN (count : ℕ) (s : Connection σ) : Except Exn Bytes × Connection σ :=
  if s.input.length < count then (.error .undefined, s)
  else (.ok (s.input.take count), { s with input := s.input.drop count })

/-- What a failed operation throws. -/
def failure (s : Connection σ) : Failure → Exn
  | .timeouted => .io .timeout ("can't read due to timeout: dst=" ++ s.addr)
  | .ec message => .io .ioError message

/-- `read_until`. -/
def readUntil (delimiter : Bytes) (s : Connection σ) : Except Exn Bytes × Connection σ :=
  match asio.asyncReadUntil delimiter s.input s.socket with
  | (.error e, input, socket) => (.error (s.failure e), { s with input, socket })
  | (.ok size, input, socket) => copyN size { s with input, socket }

/-- `read`: the buffer is enough, or the bytes that it lacks are read. -/
def read (count : ℕ) (s : Connection σ) : Except Exn Bytes × Connection σ :=
  if count ≤ s.input.length then copyN count s
  else
    match asio.asyncRead (count - s.input.length) s.input s.socket with
    | (.error e, input, socket) => (.error (s.failure e), { s with input, socket })
    | (.ok _, input, socket) => copyN count { s with input, socket }

/-- One call of one of the two `read`. -/
def exec (s : Connection σ) : Delimiter → Except Exn Bytes × Connection σ
  | .text delimiter => s.readUntil asio delimiter
  | .count count => s.read asio count

/-- What calls return that all succeed, one after the other. -/
def reads : List Delimiter → Connection σ → Option (List Bytes × Connection σ)
  | [], s => some ([], s)
  | call :: calls, s =>
    match s.exec asio call with
    | (.error _, _) => none
    | (.ok piece, s) => (reads calls s).map fun (pieces, s) => (piece :: pieces, s)

/-- The bytes of the server that were not returned yet. -/
def stream (unread : σ → Bytes) (s : Connection σ) : Bytes := s.input ++ unread s.socket

end Connection

/-- A piece of the stream is what a call asks for: it ends with the first delimiter (one that the
stream has before would be inside the piece), or it has the count of bytes. -/
def Answers : Delimiter → Bytes → Prop
  | .text delimiter, piece => List.EndsAtFirst delimiter piece
  | .count count, piece => piece.length = count

/-! ## One read -/

section Read

variable {σ : Type} {asio : Asio σ} {unread : σ → Bytes} {s s' : Connection σ}

theorem copyN_ok {count : ℕ} {piece : Bytes} (hcount : count ≤ s.input.length)
    (h : s.copyN count = (.ok piece, s')) :
    piece = s.input.take count ∧ s' = { s with input := s.input.drop count } := by
  rw [Connection.copyN, if_neg (Nat.not_lt.mpr hcount)] at h
  obtain ⟨hpiece, hs'⟩ := Prod.mk.inj h
  exact ⟨(Except.ok.inj hpiece).symm, hs'.symm⟩

theorem readUntil_ok (hasio : asio.Documented unread) {delimiter piece : Bytes}
    (h : s.readUntil asio delimiter = (.ok piece, s')) : ∃ more rest,
      unread s.socket = more ++ unread s'.socket ∧ s'.input = rest ∧
        List.cutAfter delimiter (s.input ++ more) = some (piece, rest) := by
  rw [Connection.readUntil] at h
  rcases hresult : asio.asyncReadUntil delimiter s.input s.socket with ⟨result, input, socket⟩
  rw [hresult] at h
  cases result with
  | error e => cases h
  | ok size =>
    obtain ⟨more, rfl, hunread, found, rest, hcut, rfl⟩ := hasio.readUntil hresult
    obtain ⟨happend, -⟩ := List.endsAtFirst_of_cutAfter hcut
    have hsize : found.length ≤ (s.input ++ more).length := by
      rw [← happend, List.length_append]
      exact Nat.le_add_right _ _
    obtain ⟨rfl, rfl⟩ := copyN_ok hsize h
    have htake : (s.input ++ more).take found.length = found := by rw [← happend, List.take_left]
    have hdrop : (s.input ++ more).drop found.length = rest := by rw [← happend, List.drop_left]
    refine ⟨more, rest, hunread, hdrop, ?_⟩
    rw [hcut]
    exact congrArg (fun piece => some (piece, rest)) htake.symm

theorem read_ok (hasio : asio.Documented unread) {count : ℕ} {piece : Bytes}
    (h : s.read asio count = (.ok piece, s')) : ∃ more,
      unread s.socket = more ++ unread s'.socket ∧ count ≤ (s.input ++ more).length ∧
        piece = (s.input ++ more).take count ∧ s'.input = (s.input ++ more).drop count := by
  rw [Connection.read] at h
  by_cases hcount : count ≤ s.input.length
  · rw [if_pos hcount] at h
    obtain ⟨rfl, rfl⟩ := copyN_ok hcount h
    refine ⟨[], rfl, ?_, ?_, ?_⟩
    all_goals rw [List.append_nil]
    exact hcount
  · rw [if_neg hcount] at h
    rcases hresult : asio.asyncRead (count - s.input.length) s.input s.socket with
      ⟨result, input, socket⟩
    rw [hresult] at h
    cases result with
    | error e => cases h
    | ok =>
      obtain ⟨more, rfl, hunread, hmore⟩ := hasio.read hresult
      have hsize : count ≤ (s.input ++ more).length := by
        rw [List.length_append]
        omega
      obtain ⟨rfl, rfl⟩ := copyN_ok hsize h
      exact ⟨more, hunread, hsize, rfl, rfl⟩

/-- **A read that returns is a read of the stream.** -/
theorem exec_refines (hasio : asio.Documented unread) {call : Delimiter} {piece : Bytes}
    (h : s.exec asio call = (.ok piece, s')) {c : McacheClient.Connection}
    (hc : c.input = s.stream unread) :
    c.read call = (.ok piece, { c with input := s'.stream unread }) := by
  cases call with
  | text delimiter =>
    obtain ⟨more, rest, hunread, hinput, hcut⟩ := readUntil_ok hasio h
    have hstream : c.input = s.input ++ more ++ unread s'.socket := by
      rw [hc, Connection.stream, hunread, List.append_assoc]
    simp only [McacheClient.Connection.read, hstream,
      List.cutAfter_append_right hcut (unread s'.socket)]
    rw [Connection.stream, hinput]
  | count count =>
    obtain ⟨more, hunread, hsize, rfl, hinput⟩ := read_ok hasio h
    have hstream : c.input = s.input ++ more ++ unread s'.socket := by
      rw [hc, Connection.stream, hunread, List.append_assoc]
    have hle : count ≤ (s.input ++ more ++ unread s'.socket).length := by
      rw [List.length_append]
      omega
    simp only [McacheClient.Connection.read, hstream]
    rw [if_pos hle, List.take_append_of_le_length hsize, List.drop_append_of_le_length hsize,
      Connection.stream, hinput]

theorem read_answers {c c' : McacheClient.Connection} {call : Delimiter} {piece : Bytes}
    (h : c.read call = (.ok piece, c')) : piece ++ c'.input = c.input ∧ Answers call piece := by
  cases call with
  | text delimiter =>
    simp only [McacheClient.Connection.read] at h
    cases hcut : List.cutAfter delimiter c.input with
    | none =>
      rw [hcut] at h
      cases h
    | some cut =>
      rw [hcut] at h
      obtain ⟨hpiece, rfl⟩ := Prod.mk.inj h
      obtain rfl := Except.ok.inj hpiece
      exact List.endsAtFirst_of_cutAfter hcut
  | count count =>
    simp only [McacheClient.Connection.read] at h
    split_ifs at h with hle
    · obtain ⟨hpiece, rfl⟩ := Prod.mk.inj h
      obtain rfl := Except.ok.inj hpiece
      exact ⟨List.take_append_drop count c.input, List.length_take_of_le hle⟩
    · cases h

end Read

/-! ## Sequences of reads -/

section Reads

variable {σ τ : Type} {asio : Asio σ} {unread : σ → Bytes} {asio' : Asio τ} {unread' : τ → Bytes}

theorem reads_cons {s s' : Connection σ} {call : Delimiter} {calls : List Delimiter}
    {pieces : List Bytes} (h : s.reads asio (call :: calls) = some (pieces, s')) :
    ∃ piece t rest, s.exec asio call = (.ok piece, t) ∧
      t.reads asio calls = some (rest, s') ∧ pieces = piece :: rest := by
  rw [Connection.reads] at h
  rcases hexec : s.exec asio call with ⟨result, t⟩
  rw [hexec] at h
  cases result with
  | error e => cases h
  | ok piece =>
    obtain ⟨⟨rest, u⟩, hrest, heq⟩ := Option.map_eq_some_iff.mp h
    obtain ⟨rfl, rfl⟩ := Prod.mk.inj heq
    exact ⟨piece, t, rest, rfl, hrest, rfl⟩

theorem reads_pieces (hasio : asio.Documented unread) {calls : List Delimiter}
    {s s' : Connection σ} {pieces : List Bytes} (h : s.reads asio calls = some (pieces, s')) :
    pieces.flatten ++ s'.stream unread = s.stream unread ∧ List.Forall₂ Answers calls pieces := by
  induction calls generalizing s pieces with
  | nil =>
    obtain ⟨rfl, rfl⟩ := Prod.mk.inj (Option.some.inj h)
    exact ⟨rfl, .nil⟩
  | cons call calls ih =>
    obtain ⟨piece, t, rest, hexec, hrest, rfl⟩ := reads_cons h
    obtain ⟨hstream, hanswers⟩ := ih hrest
    have hread := exec_refines hasio hexec (c := { input := s.stream unread }) rfl
    obtain ⟨hpiece, hanswer⟩ := read_answers hread
    refine ⟨?_, .cons hanswer hanswers⟩
    rw [List.flatten_cons, List.append_assoc, hstream]
    exact hpiece

/-- Two networks that deliver one stream give one sequence of pieces. -/
theorem reads_unique (hasio : asio.Documented unread) (hasio' : asio'.Documented unread')
    {calls : List Delimiter} {s s' : Connection σ} {t t' : Connection τ}
    {pieces pieces' : List Bytes}
    (h : s.reads asio calls = some (pieces, s')) (h' : t.reads asio' calls = some (pieces', t'))
    (hstream : s.stream unread = t.stream unread') : pieces = pieces' := by
  induction calls generalizing s t pieces pieces' with
  | nil =>
    obtain ⟨rfl, -⟩ := Prod.mk.inj (Option.some.inj h)
    obtain ⟨rfl, -⟩ := Prod.mk.inj (Option.some.inj h')
    rfl
  | cons call calls ih =>
    obtain ⟨piece, u, rest, hexec, hrest, rfl⟩ := reads_cons h
    obtain ⟨piece', u', rest', hexec', hrest', rfl⟩ := reads_cons h'
    have hread := exec_refines hasio hexec (c := { input := s.stream unread }) rfl
    have hread' := exec_refines hasio' hexec' (c := { input := s.stream unread }) hstream
    obtain ⟨hpiece, hnext⟩ := Prod.mk.inj (hread.symm.trans hread')
    rw [Except.ok.inj hpiece, ih hrest hrest' (congrArg McacheClient.Connection.input hnext)]

/-- **Reads do not depend on how the network splits the stream.** The strings of calls that all
succeed are consecutive pieces of it, each as its call asks for, and a connection to any other
network with the same stream returns the same strings. -/
theorem reads_stream (hasio : asio.Documented unread) {calls : List Delimiter}
    {s s' : Connection σ} {pieces : List Bytes} (h : s.reads asio calls = some (pieces, s')) :
    pieces.flatten ++ s'.stream unread = s.stream unread ∧ List.Forall₂ Answers calls pieces ∧
      ∀ {τ : Type} {asio' : Asio τ} {unread' : τ → Bytes} {t t' : Connection τ}
        {pieces' : List Bytes}, asio'.Documented unread' → t.stream unread' = s.stream unread →
        t.reads asio' calls = some (pieces', t') → pieces' = pieces := by
  obtain ⟨hstream, hanswers⟩ := reads_pieces hasio h
  exact ⟨hstream, hanswers, fun hasio' hsame h' => (reads_unique hasio hasio' h h' hsame.symm).symm⟩

end Reads

/-! ## A network of chunks -/

/-- Receive chunks until there is a result for the buffer; the deadline ends a read that gets no
more. -/
def receive {α : Type} (result : Bytes → Option α) (input : Bytes) :
    List Bytes → Except Failure α × Bytes × List Bytes
  | [] =>
    match result input with
    | some a => (.ok a, input, [])
    | none => (.error .timeouted, input, [])
  | chunk :: chunks =>
    match result input with
    | some a => (.ok a, input, chunk :: chunks)
    | none => receive result (input ++ chunk) chunks

/-- A network that delivers one chunk after the other; an operation takes whole chunks. -/
def chunked : Asio (List Bytes) where
  asyncReadUntil delimiter :=
    receive fun input => (List.cutAfter delimiter input).map fun (found, _) => found.length
  asyncRead transfer input :=
    receive (fun input' => if input.length + transfer ≤ input'.length then some () else none) input

theorem receive_ok {α : Type} {result : Bytes → Option α} {input input' : Bytes}
    {chunks chunks' : List Bytes} {a : α}
    (h : receive result input chunks = (.ok a, input', chunks')) : result input' = some a ∧
      ∃ more, input' = input ++ more ∧ chunks.flatten = more ++ chunks'.flatten := by
  induction chunks generalizing input with
  | nil =>
    rw [receive] at h
    cases hresult : result input with
    | none =>
      rw [hresult] at h
      cases h
    | some b =>
      rw [hresult] at h
      cases h
      exact ⟨hresult, [], (List.append_nil _).symm, rfl⟩
  | cons chunk chunks ih =>
    rw [receive] at h
    cases hresult : result input with
    | none =>
      rw [hresult] at h
      obtain ⟨hok, more, rfl, hchunks⟩ := ih h
      refine ⟨hok, chunk ++ more, List.append_assoc _ _ _, ?_⟩
      rw [List.flatten_cons, hchunks, List.append_assoc]
    | some b =>
      rw [hresult] at h
      cases h
      exact ⟨hresult, [], (List.append_nil _).symm, rfl⟩

theorem documented_chunked : chunked.Documented List.flatten where
  readUntil := by
    intro delimiter input input' socket socket' size h
    obtain ⟨hresult, more, hinput, hunread⟩ := receive_ok h
    obtain ⟨⟨found, rest⟩, hcut, hsize⟩ := Option.map_eq_some_iff.mp hresult
    exact ⟨more, hinput, hunread, found, rest, hcut, hsize⟩
  read := by
    intro transfer input input' socket socket' h
    obtain ⟨hresult, more, rfl, hunread⟩ := receive_ok h
    refine ⟨more, rfl, hunread, ?_⟩
    split_ifs at hresult with hle
    rw [List.length_append] at hle
    omega

/-- A value of three bytes in chunks that end within its line and within its data. -/
def threeChunks : Connection (List Bytes) :=
  { socket := [ascii "VALUE k 0 3", ascii "\r\nab", ascii "c\r\nEND\r\n"] }

/-- The calls that read it. -/
def valueCalls : List Delimiter := [.text [13, 10], .count 10]

theorem reads_stream_threeChunks :
    ∃ pieces s', threeChunks.reads chunked valueCalls = some (pieces, s') ∧
      pieces = [ascii "VALUE k 0 3\r\n", ascii "abc\r\nEND\r\n"] ∧
      pieces.flatten ++ s'.stream List.flatten = threeChunks.stream List.flatten ∧
      List.Forall₂ Answers valueCalls pieces := by
  have hreads : threeChunks.reads chunked valueCalls =
      some ([ascii "VALUE k 0 3\r\n", ascii "abc\r\nEND\r\n"], { socket := [] }) := by
    rfl
  obtain ⟨hstream, hanswers, -⟩ := reads_stream documented_chunked hreads
  exact ⟨_, _, hreads, rfl, hstream, hanswers⟩

end McacheClient.Tcp
