import McacheClient.Lib.Threads
import McacheClient.Proto.Parser

/-!
# Replies over UDP

`udp::connection_t` over a sequence of incoming datagrams. Every byte of its buffer is tagged with
the id of the datagram that it came in.

* `Connection.receive`, `fill`, `read`, `exec`: the methods of the connection;
* `taken`: the datagrams that a `fill` receives, up to the first one that it rejects;
* `Replied`: a call returns only bytes that came with the id of the last write;
* `replied_iff_buffer`: that holds of every call exactly when it holds of the buffer;
* **`replied_iff`**: it holds after every call of a history exactly when every write finds no byte
  with another id, and no `fill` takes one;
* `replied_along`: then it holds of the calls of the history.
-/

namespace McacheClient.Udp

/-- A datagram: the header of `packet_t` and the payload. -/
structure Datagram where
  id : UInt16
  seq : UInt16 := 0
  count : UInt16 := 1
  payload : Bytes := []

/-- A byte, with the id of the datagram that it came in. -/
abbrev Tagged : Type := UInt8 × UInt16

def Datagram.bytes (d : Datagram) : List Tagged := d.payload.map fun b => (b, d.id)

/-- `udp::connection_t`. `incoming` is what every `receive` to come gives or throws; `written` is a
ghost, whether there was a write. -/
structure Connection where
  addr : String := ""
  buffer : List Tagged := []
  id : UInt16 := 0
  incoming : List (Except Exn Datagram) := []
  written : Bool := false

namespace Connection

/-- `receive` appends the payload to the buffer; when nothing comes it ends with the deadline. -/
def receive (s : Connection) : Except Exn Datagram × Connection :=
  match s.incoming with
  | [] => (.error (.io .timeout ("can't read due to timeout: dst=" ++ s.addr)), s)
  | .error e :: incoming => (.error e, { s with incoming })
  | .ok d :: incoming => (.ok d, { s with buffer := s.buffer ++ d.bytes, incoming })

/-- The loop of `fill` from datagram `i` on, with `n` datagrams left. -/
def fillNext (count : UInt16) : ℕ → ℕ → Connection → Except Exn Unit × Connection
  | 0, _, s => (.ok (), s)
  | n + 1, i, s =>
    match s.receive with
    | (.error e, s) => (.error e, s)
    | (.ok next, s) =>
      if next.seq.toNat ≠ i then (.error (.io .ioError "next: invalid seq number"), s)
      else if next.count ≠ count then (.error (.io .ioError "next: invalid count"), s)
      else if next.id ≠ s.id then (.error (.io .ioError "next: invalid id"), s)
      else fillNext count n (i + 1) s

def fill (s : Connection) : Except Exn Unit × Connection :=
  match s.receive with
  | (.error e, s) => (.error e, s)
  | (.ok packet, s) =>
    if packet.seq ≠ 0 then (.error (.io .ioError "first: invalid seq number"), s)
    else if packet.id ≠ s.id then (.error (.io .ioError "first: invalid id"), s)
    else fillNext packet.count (packet.count.toNat - 1) 1 s

/-- What the two `read` return and leave of a buffer; none when it is too short. -/
def cut : Delimiter → List Tagged → Option (List Tagged × List Tagged)
  | .text delimiter, buffer =>
    (List.cutAfter delimiter (buffer.map Prod.fst)).map fun (found, _) =>
      (buffer.take (found.length - delimiter.length), buffer.drop found.length)
  | .count bytes, buffer =>
    if bytes > buffer.length then none else some (buffer.take bytes, buffer.drop bytes)

/-- `read` up to a delimiter, which is dropped, or of a count of bytes. -/
def read (d : Delimiter) (s : Connection) : Except Exn (List Tagged) × Connection :=
  match if s.buffer = [] then s.fill else (.ok (), s) with
  | (.error e, s) => (.error e, s)
  | (.ok _, s) =>
    match cut d s.buffer with
    | none => (.error (.io .ioError "partial input"), s)
    | some (data, buffer) => (.ok data, { s with buffer })

end Connection

/-- A call of one of the methods; the id of a write is made up by `packet_t`. -/
inductive Call
  | write (id : UInt16)
  | read (d : Delimiter)

/-- One call. The bytes that a write sends have no part in what comes back. -/
def Connection.exec (s : Connection) : Call → Except Exn (List Tagged) × Connection
  | .write id => (.ok [], { s with id, written := true })
  | .read d => s.read d

/-- A history of calls goes on, also after a call that threw. -/
def step (s : Connection) (call : Call) : Option Connection := some (s.exec call).2

/-- The call returns only bytes of datagrams with the id of the last write, when there was one. -/
def Replied (s : Connection) (call : Call) : Prop :=
  s.written = true → ∀ data, (s.exec call).1 = .ok data → ∀ b ∈ data, b.2 = s.id

/-! ## What a `fill` takes -/

/-- The datagrams that the loop of `fill` receives. -/
def takenNext (id count : UInt16) : ℕ → ℕ → List (Except Exn Datagram) → List Datagram
  | n + 1, i, .ok d :: incoming =>
    d :: if d.seq.toNat = i ∧ d.count = count ∧ d.id = id
      then takenNext id count n (i + 1) incoming else []
  | _, _, _ => []

/-- The datagrams that `fill` receives: as many as belong together, and the first one that does
not. -/
def taken (id : UInt16) : List (Except Exn Datagram) → List Datagram
  | .ok d :: incoming =>
    d :: if d.seq = 0 ∧ d.id = id
      then takenNext id d.count (d.count.toNat - 1) 1 incoming else []
  | _ => []

/-- The bytes of the datagrams are appended, and only `fill` of datagrams that all have the right id
returns. -/
def Fills (s : Connection) (datagrams : List Datagram)
    (result : Except Exn Unit × Connection) : Prop :=
  result.2.buffer = s.buffer ++ datagrams.flatMap Datagram.bytes ∧ result.2.id = s.id ∧
    result.2.written = s.written ∧ (result.1 = .ok () → ∀ d ∈ datagrams, d.id = s.id)

theorem fills_nil {s s' : Connection} {result : Except Exn Unit} (hbuffer : s'.buffer = s.buffer)
    (hid : s'.id = s.id) (hwritten : s'.written = s.written) : Fills s [] (result, s') :=
  ⟨by simp [hbuffer], hid, hwritten, fun _ => nofun⟩

theorem fills_rejected {s : Connection} (d : Datagram) (incoming : List (Except Exn Datagram))
    (e : Exn) :
    Fills s [d] (.error e, { s with buffer := s.buffer ++ d.bytes, incoming }) :=
  ⟨by simp, rfl, rfl, nofun⟩

theorem Fills.cons {s : Connection} {d : Datagram} {incoming : List (Except Exn Datagram)}
    {datagrams : List Datagram} {result : Except Exn Unit × Connection} (hid : d.id = s.id)
    (h : Fills { s with buffer := s.buffer ++ d.bytes, incoming } datagrams result) :
    Fills s (d :: datagrams) result := by
  obtain ⟨hbuffer, hid', hwritten, hok⟩ := h
  refine ⟨?_, hid', hwritten, fun h => ?_⟩
  · rw [hbuffer, List.flatMap_cons, List.append_assoc]
  · intro x hx
    rcases List.mem_cons.mp hx with rfl | hx
    · exact hid
    · exact hok h x hx

theorem fillNext_fills (count : UInt16) (n i : ℕ) (s : Connection) :
    Fills s (takenNext s.id count n i s.incoming) (Connection.fillNext count n i s) := by
  induction n generalizing i s with
  | zero => exact fills_nil rfl rfl rfl
  | succ n ih =>
    rw [Connection.fillNext, Connection.receive]
    cases hincoming : s.incoming with
    | nil => exact fills_nil rfl rfl rfl
    | cons first incoming =>
      cases first with
      | error e => exact fills_nil rfl rfl rfl
      | ok d =>
        simp only [takenNext]
        by_cases hseq : d.seq.toNat = i
        · by_cases hcount : d.count = count
          · by_cases hid : d.id = s.id
            · rw [if_neg (not_not.mpr hseq), if_neg (not_not.mpr hcount), if_neg (not_not.mpr hid),
                if_pos ⟨hseq, hcount, hid⟩]
              exact (ih (i + 1) _).cons hid
            · rw [if_neg (not_not.mpr hseq), if_neg (not_not.mpr hcount), if_pos hid,
                if_neg fun h => hid h.2.2]
              exact fills_rejected d incoming _
          · rw [if_neg (not_not.mpr hseq), if_pos hcount, if_neg fun h => hcount h.2.1]
            exact fills_rejected d incoming _
        · rw [if_pos hseq, if_neg fun h => hseq h.1]
          exact fills_rejected d incoming _

theorem fill_fills (s : Connection) : Fills s (taken s.id s.incoming) s.fill := by
  rw [Connection.fill, Connection.receive]
  cases hincoming : s.incoming with
  | nil => exact fills_nil rfl rfl rfl
  | cons first incoming =>
    cases first with
    | error e => exact fills_nil rfl rfl rfl
    | ok d =>
      simp only [taken]
      by_cases hseq : d.seq = 0
      · by_cases hid : d.id = s.id
        · rw [if_neg (not_not.mpr hseq), if_neg (not_not.mpr hid), if_pos ⟨hseq, hid⟩]
          exact (fillNext_fills _ _ _ _).cons hid
        · rw [if_neg (not_not.mpr hseq), if_pos hid, if_neg fun h => hid h.2]
          exact fills_rejected d incoming _
      · rw [if_pos hseq, if_neg fun h => hseq h.1]
        exact fills_rejected d incoming _

/-! ## What a call returns -/

/-- Every byte of the buffer came with the id of the last write. -/
def Connection.Matched (s : Connection) : Prop := s.written = true → ∀ b ∈ s.buffer, b.2 = s.id

/-- A write finds only bytes with its own id, and a read with an empty buffer takes no bytes with an
id other than that of the last write. -/
def Clean (s : Connection) (call : Call) (_ : Connection) : Prop :=
  match call with
  | .write id => ∀ b ∈ s.buffer, b.2 = id
  | .read _ => s.written = true → s.buffer = [] →
      ∀ d ∈ taken s.id s.incoming, d.id ≠ s.id → d.payload = []

variable {s s' : Connection} {call : Call}

theorem mem_of_cut {d : Delimiter} {buffer data rest : List Tagged}
    (h : Connection.cut d buffer = some (data, rest)) :
    (∀ b ∈ data, b ∈ buffer) ∧ ∀ b ∈ rest, b ∈ buffer := by
  cases d with
  | text delimiter =>
    obtain ⟨found, -, hfound⟩ := Option.map_eq_some_iff.mp h
    obtain ⟨rfl, rfl⟩ := Prod.mk.inj hfound
    exact ⟨fun b hb => List.mem_of_mem_take hb, fun b hb => List.mem_of_mem_drop hb⟩
  | count bytes =>
    rw [Connection.cut] at h
    split_ifs at h
    obtain ⟨rfl, rfl⟩ := Prod.mk.inj (Option.some.inj h)
    exact ⟨fun b hb => List.mem_of_mem_take hb, fun b hb => List.mem_of_mem_drop hb⟩

theorem read_filled {d : Delimiter} {filled : Except Exn Unit × Connection}
    (hfilled : (if s.buffer = [] then s.fill else (.ok (), s)) = filled) :
    (s.read d).2.id = filled.2.id ∧ (s.read d).2.written = filled.2.written ∧
      (∀ b ∈ (s.read d).2.buffer, b ∈ filled.2.buffer) ∧
      ∀ data, (s.read d).1 = .ok data →
        filled.1 = .ok () ∧ ∀ b ∈ data, b ∈ filled.2.buffer := by
  obtain ⟨result, t⟩ := filled
  rw [Connection.read, hfilled]
  cases result with
  | error e => exact ⟨rfl, rfl, fun b hb => hb, nofun⟩
  | ok =>
    simp only
    cases hcut : Connection.cut d t.buffer with
    | none => exact ⟨rfl, rfl, fun b hb => hb, nofun⟩
    | some cut =>
      obtain ⟨hdata, hrest⟩ := mem_of_cut hcut
      refine ⟨rfl, rfl, hrest, fun data h => ⟨trivial, ?_⟩⟩
      rwa [← Except.ok.inj h]

/-- A read of an empty buffer that throws in `fill` leaves all bytes that were taken. -/
theorem read_error {d : Delimiter} {e : Exn} {t : Connection} (hempty : s.buffer = [])
    (hfill : s.fill = (.error e, t)) : s.read d = (.error e, t) := by
  rw [Connection.read, if_pos hempty, hfill]

theorem read_all (hne : s.buffer ≠ []) :
    (s.exec (.read (.count s.buffer.length))).1 = .ok s.buffer := by
  rw [Connection.exec, Connection.read, if_neg hne]
  simp [Connection.cut]

theorem replied_iff_buffer : (∀ call, Replied s call) ↔ s.Matched := by
  constructor
  · intro h hwritten b hb
    have hne : s.buffer ≠ [] := List.ne_nil_of_mem hb
    exact h (.read (.count s.buffer.length)) hwritten s.buffer (read_all hne) b hb
  · intro hmatched call hwritten data hdata b hb
    cases call with
    | write id =>
      rw [← Except.ok.inj hdata] at hb
      cases hb
    | read d =>
      obtain ⟨-, -, -, hread⟩ := read_filled (s := s) (d := d) rfl
      obtain ⟨hok, hmem⟩ := hread data hdata
      have hb := hmem b hb
      by_cases hempty : s.buffer = []
      · rw [if_pos hempty] at hok hb
        obtain ⟨hbuffer, -, -, hids⟩ := fill_fills s
        rw [hbuffer, hempty, List.nil_append, List.mem_flatMap] at hb
        obtain ⟨x, hx, hb⟩ := hb
        obtain ⟨y, -, rfl⟩ := List.mem_map.mp hb
        exact hids hok x hx
      · rw [if_neg hempty] at hb
        exact hmatched hwritten b hb

/-! ## Histories -/

theorem forall_bytes_iff {id : UInt16} {datagrams : List Datagram} :
    (∀ b ∈ datagrams.flatMap Datagram.bytes, b.2 = id) ↔
      ∀ d ∈ datagrams, d.id ≠ id → d.payload = [] := by
  constructor
  · intro h d hd hne
    by_contra hpayload
    obtain ⟨x, hx⟩ := List.exists_mem_of_ne_nil _ hpayload
    have hmem : (x, d.id) ∈ datagrams.flatMap Datagram.bytes :=
      List.mem_flatMap.mpr ⟨d, hd, List.mem_map_of_mem hx⟩
    exact hne (h _ hmem)
  · intro h b hb
    obtain ⟨d, hd, hb⟩ := List.mem_flatMap.mp hb
    obtain ⟨x, hx, rfl⟩ := List.mem_map.mp hb
    by_contra hne
    rw [h d hd hne] at hx
    cases hx

/-- **One call** keeps the buffer matched exactly when it is clean. -/
theorem matched_exec_iff (hs : s.Matched) (h : step s call = some s') :
    s'.Matched ↔ Clean s call s' := by
  obtain rfl := Option.some.inj h
  cases call with
  | write id => exact ⟨fun hm => hm rfl, fun hclean _ => hclean⟩
  | read d =>
    show (s.read d).2.Matched ↔ _
    obtain ⟨hid, hwritten, hbuffer, -⟩ := read_filled (s := s) (d := d) rfl
    by_cases hempty : s.buffer = []
    · rw [if_pos hempty] at hid hwritten hbuffer
      obtain ⟨hfill, hid', hwritten', hids⟩ := fill_fills s
      rw [hempty, List.nil_append] at hfill
      cases hresult : s.fill with
      | mk result t =>
        rw [hresult] at hid hwritten hbuffer hfill hid' hwritten' hids
        cases result with
        | ok =>
          refine iff_of_true (fun hw b hb => ?_) fun _ _ x hx hne => absurd (hids rfl x hx) hne
          have hb := hbuffer b hb
          rw [hfill] at hb
          obtain ⟨x, hx, hb⟩ := List.mem_flatMap.mp hb
          obtain ⟨y, -, rfl⟩ := List.mem_map.mp hb
          rw [hid, hid']
          exact hids rfl x hx
        | error e =>
          rw [read_error hempty hresult, Connection.Matched, hfill, hid', hwritten',
            forall_bytes_iff]
          exact ⟨fun h hw _ => h hw, fun h hw => h hw hempty⟩
    · rw [if_neg hempty] at hid hwritten hbuffer
      refine iff_of_true (fun hw b hb => ?_) fun _ h => absurd h hempty
      rw [hid]
      exact hs (hwritten ▸ hw) b (hbuffer b hb)

/-- **Replies match their request**, whatever is read next after any call of a history, exactly
when every call of the history is clean. -/
theorem replied_iff (addr : String) (incoming : List (Except Exn Datagram)) (calls : List Call) :
    Run.Along step (fun _ _ s' => ∀ call, Replied s' call) { addr, incoming } calls ↔
      Run.Along step Clean { addr, incoming } calls := by
  apply Run.along_iff Connection.Matched
  · intro s call s' hs h
    rw [replied_iff_buffer]
    exact matched_exec_iff hs h
  · exact fun s call s' _ _ h => replied_iff_buffer.mp h
  · nofun

/-- The calls of a clean history return only bytes that came with the id of the last write. -/
theorem replied_along {addr : String} {incoming : List (Except Exn Datagram)} {calls : List Call}
    (h : Run.Along step Clean { addr, incoming } calls) :
    Run.Along step (fun s call _ => Replied s call) { addr, incoming } calls := by
  apply Run.along_of_invariant Connection.Matched ?_ ?_ (by nofun) h
  · exact fun s call s' hs hstep hclean => (matched_exec_iff hs hstep).mpr hclean
  · exact fun s call s' hs _ _ => replied_iff_buffer.mpr hs call

/-! ## A stray datagram -/

/-- A write with id 7, a read that gets a datagram with id 8 and throws, and another read. -/
def strayDatagram : Connection := { incoming := [.ok { id := 8, payload := ascii "x" }] }

def strayCalls : List Call := [.write 7, .read (.count 1), .read (.count 1)]

theorem not_replied_strayDatagram :
    ¬Run.Along step (fun s call _ => Replied s call) strayDatagram strayCalls := by
  intro halong
  obtain ⟨-, halong⟩ := halong _ rfl
  obtain ⟨-, halong⟩ := halong _ rfl
  obtain ⟨hreplied, -⟩ := halong _ rfl
  have hid : (8 : UInt16) = 7 := hreplied rfl [(120, 8)] rfl (120, 8) List.mem_cons_self
  exact absurd hid (by decide)

end McacheClient.Udp
