import McacheClient.Lib.Threads
import McacheClient.Proto.Binary
import McacheClient.Proxy.Server

/-!
# Pooled connections in step with the server

One binary connection that `send` takes from the pool and, as long as it understands the responses,
puts back.

* `Frame`: a well-formed response, `Session`: the connection and the frames that are to come;
* `OnConnection`, `exec_send`: what `server_proxy_t::send` does with one connection;
* `leftover`: the bytes of a frame that a command does not read;
* **`inStep_iff`**: the connection stays in step exactly as long as no success that has a body is
  read by a command that drops it.
-/

namespace McacheClient.Binary

/-- A response of the server: a header with the magic of responses, and the body it announces. -/
structure Frame where
  header : Header
  body : Bytes
  magic : header.magic = Header.responseMagic
  length_body : body.length = header.bodyLen.toNat

def Frame.bytes (f : Frame) : Bytes := f.header.bytes ++ f.body

/-! ## One connection -/

/-- The pool with at most one connection, and the connection that `send` holds. -/
structure OnConnection where
  pool : Option Connection
  held : Option Connection := none

/-- The operations of a proxy where no other thread and no other connection is. -/
def OnConnection.interp : (o : ProxyOp Command) → OnConnection → o.Answer × OnConnection
  | .pick, s => (.ok 0, { pool := none, held := s.pool })
  | .exchange _ command, s =>
    match s.held with
    | none => (.error .undefined, s)
    | some c =>
      ((commandParserSend command c).1, { s with held := some (commandParserSend command c).2 })
  | .pushBack _, s => ((), { pool := s.held })
  | .clear, s => ((), { s with pool := none })
  | .loadDead, s => (false, s)
  | .tryLock, s => (true, s)
  | .loadRestoration, s | .now, s => ((0 : ℤ), s)
  | .incFails, s => ((1 : UInt32), s)
  | .storeDead _, s | .storeRestoration _, s | .storeFails _, s | .unlock, s => ((), s)

/-- The response after which `send` returns the connection to the pool. -/
def Pooled (result : Except Exn Response) : Prop :=
  ∃ response, result = .ok response ∧ response.code.value < ResponseCode.error.value

theorem exec_send (cfg : ServerProxyConfig) (command : Command) (c c' : Connection) :
    ((send cfg command).exec OnConnection.interp { pool := some c }).2.pool = some c' ↔
      Pooled (commandParserSend command c).1 ∧ (commandParserSend command c).2 = c' := by
  cases hr : (commandParserSend command c).1 with
  | error e =>
    have hno : ¬ Pooled (.error e) := fun ⟨_, h, _⟩ => nomatch h
    rw [iff_false_right fun h => hno h.1]
    cases e with
    | io code what =>
      by_cases hfail : cfg.failLimit ≤ 1 <;>
        simp [send, sendTry, scopeGuard, perform, OnConnection.interp, hr, hfail]
    | _ => simp [send, sendTry, perform, OnConnection.interp, hr]
  | ok response =>
    by_cases hp : response.code.value < ResponseCode.error.value
    · have hyes : Pooled (.ok response) := ⟨response, rfl, hp⟩
      simp [send, sendTry, perform, OnConnection.interp, hr, hp, hyes]
    · have hno : ¬ Pooled (.ok response) := fun ⟨r, h, hlt⟩ => hp (Except.ok.inj h ▸ hlt)
      simp [send, sendTry, perform, OnConnection.interp, hr, hp, hno]

/-! ## One response -/

/-- What a command makes of a header with status 0. -/
def success (zlib : Zlib) : Request → Header → PendingResponse
  | .retrieve .. => retrieveSuccess zlib
  | .storage .. => storageSuccess
  | .counter .. => incrDecrSuccess
  | .touch .. => touchSuccess
  | .delete _ => deleteSuccess
  | .flushAll _ => flushAllSuccess

/-- The commands that do not pass on the body length of a header with status 0. -/
def dropsBody : Request → Bool
  | .storage .. | .delete _ | .flushAll _ => true
  | _ => false

variable {zlib : Zlib} {request : Request} {cmd : Command}

theorem command_ok (h : command zlib request = .ok cmd) : cmd.headerDelimiter = .count 24 ∧
    cmd.deserializeHeader = deserializeHeader (success zlib request) := by
  cases request with
  | storage name key data opts =>
    rw [command] at h
    cases hpack : packed zlib data opts with
    | error e => rw [hpack] at h; cases h
    | ok data => rw [hpack] at h; cases h; exact ⟨rfl, rfl⟩
  | _ => cases h; exact ⟨rfl, rfl⟩

theorem deserializeBody_input {p : PendingResponse} {c : Connection} {body rest : Bytes}
    (h : c.input = body ++ rest) (hsize : p.bytes.toNat = body.length) :
    (deserializeBody p c).2.input = rest := by
  by_cases hne : body = []
  · have hbytes : p.bytes = 0 := UInt64.toNat_inj.mp (by rw [hsize, hne]; rfl)
    rw [deserializeBody, if_pos hbytes, h, hne, List.nil_append]
  · rw [deserializeBody_append h hsize hne]

/-- The bytes of a frame that stay behind when the connection goes back to the pool. -/
def leftover (request : Request) (f : Frame) : Bytes :=
  if dropsBody request ∧ f.header.status = 0 then f.body else []

theorem leftover_of_not_dropsBody (h : dropsBody request = false) (f : Frame) :
    leftover request f = [] :=
  if_neg fun hdrops => Bool.false_ne_true (h.symm.trans hdrops.1)

/-- **What a command that returns its connection has read** of the frame that answers it. -/
theorem send_frame (hcmd : command zlib request = .ok cmd) {c : Connection} {f : Frame}
    {rest : Bytes} (h : c.input = f.bytes ++ rest) (hp : Pooled (commandParserSend cmd c).1) :
    (commandParserSend cmd c).2.input = leftover request f ++ rest := by
  obtain ⟨hdelim, hheader⟩ := command_ok hcmd
  cases hser : cmd.serialize with
  | error e =>
    rw [commandParserSend, hser] at hp
    obtain ⟨_, hp, -⟩ := hp
    cases hp
  | ok data =>
    have hbody : f.header.bodyLen.toUInt64.toNat = f.body.length := by
      rw [UInt32.toNat_toUInt64, f.length_body]
    rw [commandParserSend_header hser hdelim hheader f.magic
      (h.trans (List.append_assoc _ _ _))] at hp ⊢
    by_cases hst : f.header.status = 0
    · rw [if_pos hst] at hp ⊢
      cases request with
      | retrieve name key =>
        rw [leftover_of_not_dropsBody rfl]
        simp only [success, retrieveSuccess] at hp ⊢
        split_ifs at hp ⊢ with hextras
        · -- without flags the response is `invalid`, and the connection is closed
          obtain ⟨r, hr, hlt⟩ := hp
          cases hr
          exact absurd hlt (by decide)
        · exact deserializeBody_input rfl hbody
      | counter name key value opts =>
        rw [leftover_of_not_dropsBody rfl]
        simp only [success, incrDecrSuccess] at hp ⊢
        split_ifs at hp ⊢ with hlen
        · obtain ⟨r, hr, hlt⟩ := hp
          cases hr
          exact absurd hlt (by decide)
        · exact deserializeBody_input rfl hbody
      | touch key expiration =>
        rw [leftover_of_not_dropsBody rfl]
        exact deserializeBody_input rfl hbody
      | storage | delete | flushAll =>
        rw [leftover, if_pos ⟨rfl, hst⟩]
        rfl
    · rw [if_neg hst, leftover, if_neg fun h => hst h.2]
      exact deserializeBody_input rfl hbody

/-! ## Sequences of commands -/

/-- The connection in the pool, and the frames that the server answers the next commands with. -/
structure Session where
  connection : Connection
  frames : List Frame

/-- The unread bytes of the connection start with the next frame. -/
def Session.InStep (s : Session) : Prop := s.connection.input = s.frames.flatMap Frame.bytes

/-- One `send`, when the connection comes back to the pool. -/
def Session.send (zlib : Zlib) (cfg : ServerProxyConfig) (s : Session) (request : Request) :
    Option Session :=
  match s.frames, command zlib request with
  | _ :: frames, .ok cmd =>
    let world := (McacheClient.send cfg cmd).exec OnConnection.interp { pool := some s.connection }
    world.2.pool.map fun connection => { connection, frames }
  | _, _ => none

/-- The next frame has nothing that the command would leave behind. -/
def NoLeftover (s : Session) (request : Request) (_ : Session) : Prop :=
  ∀ f ∈ s.frames.head?, ¬ (dropsBody request ∧ f.header.status = 0 ∧ f.header.bodyLen ≠ 0)

variable {cfg : ServerProxyConfig} {s s' : Session}

theorem Session.send_eq_some (h : s.send zlib cfg request = some s') :
    ∃ f cmd, s.frames = f :: s'.frames ∧ command zlib request = .ok cmd ∧
      Pooled (commandParserSend cmd s.connection).1 ∧
      (commandParserSend cmd s.connection).2 = s'.connection := by
  unfold Session.send at h
  split at h
  · rename_i f frames cmd hframes hcmd
    obtain ⟨c, hpool, rfl⟩ := Option.map_eq_some_iff.mp h
    obtain ⟨hp, hc⟩ := (exec_send cfg cmd s.connection c).mp hpool
    exact ⟨f, cmd, hframes, hcmd, hp, hc⟩
  · cases h

theorem leftover_eq_nil {f : Frame} : leftover request f = [] ↔
    ¬ (dropsBody request ∧ f.header.status = 0 ∧ f.header.bodyLen ≠ 0) := by
  have hbody : f.body = [] ↔ f.header.bodyLen = 0 := by
    rw [← List.length_eq_zero_iff, f.length_body, ← UInt32.toNat_inj]
    rfl
  unfold leftover
  split_ifs with h
  · rw [hbody]
    simp [h]
  · simp only [true_iff]
    exact fun hn => h ⟨hn.1, hn.2.1⟩

/-- **One send stays in step** exactly when it leaves nothing of its frame behind. -/
theorem inStep_send_iff (hs : s.InStep) (h : s.send zlib cfg request = some s') :
    s'.InStep ↔ NoLeftover s request s' := by
  obtain ⟨f, cmd, hframes, hcmd, hp, hc⟩ := Session.send_eq_some h
  have hinput : s.connection.input = f.bytes ++ s'.frames.flatMap Frame.bytes := by
    rw [hs, hframes, List.flatMap_cons]
  have hread := send_frame hcmd hinput hp
  rw [hc] at hread
  rw [Session.InStep, hread, List.append_left_eq_self, leftover_eq_nil, NoLeftover, hframes]
  simp

/-- **Pooled connections stay in step with the server** in exactly the sequences in which no
success with a body answers a command that drops it. -/
theorem inStep_iff (hs : s.InStep) (requests : List Request) :
    Run.Along (Session.send zlib cfg) (fun _ _ s' => s'.InStep) s requests ↔
      Run.Along (Session.send zlib cfg) NoLeftover s requests := by
  apply Run.along_iff Session.InStep
  · exact fun s request s' hs h => inStep_send_iff hs h
  · exact fun s request s' _ _ hs' => hs'
  · exact hs

/-! ## A success that has a body -/

/-- A success that carries three bytes. -/
def successWithBody : Frame where
  header := { magic := Header.responseMagic, keyLen := 0, extrasLen := 0, bodyLen := 3 }
  body := ascii "abc"
  magic := rfl
  length_body := rfl

def bodySession : Session where
  connection := { input := successWithBody.bytes }
  frames := [successWithBody]

/-- `delete` returns the connection with the three bytes unread. -/
theorem not_inStep_bodySession : bodySession.InStep ∧
    ¬ Run.Along (Session.send Zlib.plain {}) (fun _ _ s' => s'.InStep) bodySession
      [.delete (ascii "k")] := by
  refine ⟨rfl, fun h => ?_⟩
  have hsend : ∃ s', bodySession.send Zlib.plain {} (.delete (ascii "k")) = some s' ∧
      s'.connection.input = ascii "abc" ∧ s'.frames = [] := ⟨_, rfl, rfl, rfl⟩
  obtain ⟨s', hs', hinput, hframes⟩ := hsend
  have hstep : s'.connection.input = s'.frames.flatMap Frame.bytes := (h s' hs').1
  rw [hinput, hframes] at hstep
  exact absurd hstep (by decide)

theorem inStep_iff_bodySession :
    Run.Along (Session.send Zlib.plain {}) (fun _ _ s' => s'.InStep) bodySession
        [.touch (ascii "k") 10] ↔
      Run.Along (Session.send Zlib.plain {}) NoLeftover bodySession [.touch (ascii "k") 10] :=
  inStep_iff (show bodySession.InStep from rfl) _

end McacheClient.Binary
