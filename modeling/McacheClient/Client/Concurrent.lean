import McacheClient.Client.Session
import McacheClient.Lib.History
import McacheClient.Proxy.Connections
import McacheClient.Proxy.InStep

/-!
# Threads, connections and a server

Any number of threads run the programs of the proxy over one pool of connections to a memcached
server. An exchange is a write and a read, and between them other threads go on, and the server
reads requests, of any connection, and answers them.

* `Wire`, `Traffic`: a connection with what is on the way, and the whole system;
* `Traffic.Event`, `Traffic.step`: one operation of one thread, or of the server;
* `memcachedService`: the server without protocol and network;
* `Wire.Clean`, `Pending`: a connection that may be used, and one in the middle of an exchange;
* `Usable`, `Sound`: the connections that threads may get are clean, and the invariant;
* `Sound.step_write`, `Sound.step_serve`, `Sound.step_read`: what the steps of an exchange keep;
* **`linearizable_exchanges`**: every exchange that does not fail takes effect in one step between
  its write and its read, and gets the response of its own answer.
-/

namespace McacheClient

/-- A connection: the request that the server did not read yet, with its place in the history, which
is a ghost; the stream from the server; and the exchange that a thread did not finish. -/
structure Wire where
  request : Option (ℕ × Bytes) := none
  connection : Connection := {}
  busy : Option ℕ := none

/-- The exchanges of threads over connections. -/
abbrev Exchanges (τ : Type) (api : Api) (zlib : Zlib) : Type :=
  CallHistory (τ × ℕ) (WireRequest api zlib) (ℤ × ServerTask) TaskAnswer (Except Exn Response)

/-- Threads over a pool, its connections and the server; `history` is a ghost. -/
structure Traffic (τ : Type) (api : Api) (zlib : Zlib) where
  threads : PoolThreads τ (WireRequest api zlib) Unit
  wires : ℕ → Wire := fun _ => {}
  server : Memcached
  history : Exchanges τ api zlib := {}

/-- The exchange that a program is at. -/
def exchange? {κ α : Type} : ProxyM κ α → Option (ℕ × κ)
  | .call (.exchange connection command) _ => some (connection, command)
  | _ => none

/-- The server: it executes a task at a time of its clock. -/
def memcachedService (api : Api) (zlib : Zlib) :
    Service (WireRequest api zlib) (ℤ × ServerTask) TaskAnswer (Except Exn Response) Memcached where
  step op server := executeTask op.1 op.2 server
  asks w op := op.2 = w.task
  shows w answer result := ShowsTask api zlib w.request.unique answer result
  failed result := ∃ e, result = .error e ∧ IsIoError e

namespace Traffic

variable {τ : Type} [DecidableEq τ] {api : Api} {zlib : Zlib}

/-- What happens: an operation of a thread that is no exchange; its write, of which the server may
never hear; its read, which may fail; or the server reads what was written to a connection. -/
inductive Event (τ : Type)
  | op (t : τ) (e : Choice)
  | write (t : τ) (heard : Bool)
  | read (t : τ) (failure : Option (IoErrorCode × String))
  | serve (connection : ℕ) (now : ℤ)

/-- A thread writes its request, or what `serialize` throws ends the exchange. A `write` that throws
is one whose read fails. -/
def write (capacity : ℕ) (s : Traffic τ api zlib) (t : τ) (heard : Bool) :
    Option (Traffic τ api zlib) := do
  let (c, w) ← exchange? (s.threads.left t)
  if (s.wires c).busy.isSome then none
  else
    match w.command.serialize with
    | .error e =>
      (poolStep capacity s.threads (t, { response := .error e })).map fun threads =>
        { s with threads }
    | .ok bytes =>
      let ticket := s.history.invoked.length
      let wire : Wire := {
        request := if heard then some (ticket, bytes) else none
        connection := (s.wires c).connection.write bytes
        busy := some ticket }
      some { s with
        wires := Function.update s.wires c wire
        history := s.history.invoke (t, c) w }

/-- A thread reads the response, or an `io::error_t` ends the exchange. -/
def read (capacity : ℕ) (s : Traffic τ api zlib) (t : τ)
    (failure : Option (IoErrorCode × String)) : Option (Traffic τ api zlib) := do
  let (c, w) ← exchange? (s.threads.left t)
  let ticket ← (s.wires c).busy
  let (result, connection) :=
    match failure with
    | some (code, msg) => (.error (.io code msg), (s.wires c).connection)
    | none => deserializeResponse w.command (s.wires c).connection
  let threads ← poolStep capacity s.threads (t, { response := result })
  some { s with
    threads
    wires := Function.update s.wires c { s.wires c with connection, busy := none }
    history := s.history.respond (t, c) ticket result }

/-- The server reads the request on a connection, executes it and sends its reply. -/
def serve (s : Traffic τ api zlib) (c : ℕ) (now : ℤ) : Option (Traffic τ api zlib) := do
  let (ticket, bytes) ← (s.wires c).request
  let i ← s.history.invoked[ticket]?
  let (reply, server) := api.perform now bytes s.server
  let op := (now, i.call.task)
  some { s with
    wires := Function.update s.wires c
      { s.wires c with request := none, connection := (s.wires c).connection.receive reply }
    server
    history := s.history.execute ticket op ((memcachedService api zlib).step op s.server).1 }

/-- One step of the system. -/
def step (capacity : ℕ) (s : Traffic τ api zlib) : Event τ → Option (Traffic τ api zlib)
  | .op t e =>
    if (exchange? (s.threads.left t)).isSome then none
    else (poolStep capacity s.threads (t, e)).map fun threads => { s with threads }
  | .write t heard => s.write capacity t heard
  | .read t failure => s.read capacity t failure
  | .serve c now => s.serve c now

/-! ### What a step can do -/

variable {capacity : ℕ} {s s' : Traffic τ api zlib} {t : τ}

omit [DecidableEq τ] in
theorem exchange?_eq_some {κ : Type} {threads : PoolThreads τ κ Unit} {c : ℕ} {command : κ}
    (h : exchange? (threads.left t) = some (c, command)) :
    ∃ next, threads.left t = .call (.exchange c command) next := by
  unfold exchange? at h
  split at h
  · obtain ⟨rfl, rfl⟩ := Prod.mk.inj (Option.some.inj h)
    exact ⟨_, by assumption⟩
  · cases h

theorem op_eq_some {e : Choice} (h : s.step capacity (.op t e) = some s') :
    ∃ threads, ¬(exchange? (s.threads.left t)).isSome ∧
      poolStep capacity s.threads (t, e) = some threads ∧ s' = { s with threads } := by
  rw [step] at h
  split_ifs at h with hno
  obtain ⟨threads, hstep, rfl⟩ := Option.map_eq_some_iff.mp h
  exact ⟨threads, hno, hstep, rfl⟩

theorem write_eq_some {heard : Bool} (h : s.write capacity t heard = some s') :
    ∃ c w bytes, exchange? (s.threads.left t) = some (c, w) ∧ (s.wires c).busy = none ∧
      w.command.serialize = .ok bytes ∧ s' = { s with
        wires := Function.update s.wires c {
          request := if heard then some (s.history.invoked.length, bytes) else none
          connection := (s.wires c).connection.write bytes
          busy := some s.history.invoked.length }
        history := s.history.invoke (t, c) w } := by
  unfold write at h
  obtain ⟨⟨c, w⟩, hexchange, h⟩ := Option.bind_eq_some_iff.mp h
  obtain ⟨bytes, hser⟩ := w.requests.serialize_ok w.command_eq
  refine ⟨c, w, bytes, hexchange, ?_⟩
  cases hbusy : (s.wires c).busy with
  | some n => simp [hbusy] at h
  | none =>
    simp only [hbusy, Option.isSome_none, Bool.false_eq_true, if_false, hser] at h
    exact ⟨rfl, hser, (Option.some.inj h).symm⟩

theorem read_eq_some {failure : Option (IoErrorCode × String)}
    (h : s.read capacity t failure = some s') :
    ∃ c w n result connection threads, exchange? (s.threads.left t) = some (c, w) ∧
      (s.wires c).busy = some n ∧
      ((∃ e, result = .error e ∧ IsIoError e) ∨
        deserializeResponse w.command (s.wires c).connection = (result, connection)) ∧
      poolStep capacity s.threads (t, { response := result }) = some threads ∧
      s' = { s with
        threads
        wires := Function.update s.wires c { s.wires c with connection, busy := none }
        history := s.history.respond (t, c) n result } := by
  unfold read at h
  obtain ⟨⟨c, w⟩, hexchange, h⟩ := Option.bind_eq_some_iff.mp h
  obtain ⟨n, hbusy, h⟩ := Option.bind_eq_some_iff.mp h
  obtain ⟨threads, hstep, h⟩ := Option.bind_eq_some_iff.mp h
  refine ⟨c, w, n, _, _, threads, hexchange, hbusy, ?_, hstep, (Option.some.inj h).symm⟩
  cases failure with
  | some f => exact Or.inl ⟨_, rfl, _, _, rfl⟩
  | none => exact Or.inr rfl

omit [DecidableEq τ] in
theorem serve_eq_some {c : ℕ} {now : ℤ} (h : s.serve c now = some s') :
    ∃ n bytes i, (s.wires c).request = some (n, bytes) ∧ s.history.invoked[n]? = some i ∧
      s' = { s with
        wires := Function.update s.wires c { s.wires c with
          request := none
          connection := (s.wires c).connection.receive (api.perform now bytes s.server).1 }
        server := (api.perform now bytes s.server).2
        history := s.history.execute n (now, i.call.task)
          ((memcachedService api zlib).step (now, i.call.task) s.server).1 } := by
  unfold serve at h
  obtain ⟨⟨n, bytes⟩, hrequest, h⟩ := Option.bind_eq_some_iff.mp h
  obtain ⟨i, hi, h⟩ := Option.bind_eq_some_iff.mp h
  exact ⟨n, bytes, i, hrequest, hi, (Option.some.inj h).symm⟩

/-- Before the first step. -/
def start (cfg : ServerProxyConfig) (shared : Shared τ) (server : Memcached)
    (calls : τ → List (ServerCall (WireRequest api zlib))) : Traffic τ api zlib where
  threads := startPool cfg shared calls
  server

end Traffic

/-! ## Reading a response -/

theorem headerDelimiter_command {api : Api} {zlib : Zlib} {request : Request} {command : Command}
    (h : api.command zlib request = .ok command) :
    command.headerDelimiter = .text Text.crlf ∨ command.headerDelimiter = .count 24 := by
  cases api with
  | binary => exact Or.inr (Binary.command_ok h).1
  | text =>
    have h : Text.command zlib request = .ok command := h
    cases request with
    | storage name key data opts =>
      rw [Text.command] at h
      cases hpacked : packed zlib data opts with
      | error e => rw [hpacked] at h; cases h
      | ok stored => rw [hpacked] at h; cases h; exact Or.inl rfl
    | counter name key value opts =>
      rw [Text.command] at h
      split_ifs at h
      cases h
      exact Or.inl rfl
    | _ => cases h; exact Or.inl rfl

theorem deserializeResponse_nil {api : Api} {zlib : Zlib} (w : WireRequest api zlib)
    {c : Connection} (hc : c.input = []) :
    deserializeResponse w.command c = (.error c.timeout, c) := by
  have hread : c.read w.command.headerDelimiter = (.error c.timeout, c) := by
    rcases headerDelimiter_command w.command_eq with h | h
    · rw [h, Connection.read, hc]
      rfl
    · rw [h, Connection.read, hc]
      rfl
  rw [deserializeResponse, hread]

/-- The values on the server have less than 4 GiB. -/
def Memcached.Fits (server : Memcached) : Prop :=
  ∀ now key, ∀ item ∈ server.find now key, 4 + item.data.length < 2 ^ 32

theorem Memcached.Fits.put {server : Memcached} (h : server.Fits) {key data : Bytes}
    {flags : UInt32} {deadline : Option ℤ} (hdata : 4 + data.length < 2 ^ 32) :
    (server.put key data flags deadline).2.Fits := by
  intro now other item hitem
  simp only [Memcached.find, Memcached.put] at hitem
  by_cases hkey : other = key
  · rw [hkey, Function.update_self] at hitem
    obtain rfl := Option.some.inj (Option.filter_eq_some_iff.mp hitem).1
    exact hdata
  · rw [Function.update_of_ne hkey] at hitem
    exact h now other item hitem

theorem Memcached.Fits.task {server : Memcached} (h : server.Fits) (now : ℤ) (task : ServerTask) :
    FitsTask now server task := by
  cases task with
  | item served => exact h now served.key
  | _ => trivial

/-! ## Connections during an exchange -/

section Exchange

variable {τ : Type} {api : Api} {zlib : Zlib}

/-- Nothing is on the way. -/
structure Wire.Clean (wire : Wire) : Prop where
  request : wire.request = none
  input : wire.connection.input = []
  busy : wire.busy = none

/-- A request is written: the server did not read it yet, or never hears of it. -/
structure Asking (w : WireRequest api zlib) (n : ℕ) (wire : Wire) : Prop where
  input : wire.connection.input = []
  written : ∃ before bytes, w.command.serialize = .ok bytes ∧
    wire.connection = Connection.write bytes before ∧
    (wire.request = none ∨ wire.request = some (n, bytes))

/-- The server executed a request, and its reply is there. -/
structure Replied (h : Exchanges τ api zlib) (θ : τ × ℕ) (w : WireRequest api zlib) (n : ℕ)
    (wire : Wire) : Prop where
  request : wire.request = none
  effect : ∃ k answer result c, h.TookEffect θ w n k answer ∧
    ShowsTask api zlib w.request.unique answer result ∧
    deserializeResponse w.command wire.connection = (result, c) ∧ c.input = []

/-- A thread waits for a response. -/
structure Pending (h : Exchanges τ api zlib) (θ : τ × ℕ) (w : WireRequest api zlib) (n : ℕ)
    (wire : Wire) : Prop where
  busy : wire.busy = some n
  invoked : ∃ i, h.invoked[n]? = some i ∧ i.thread = θ ∧ i.call = w
  progress : Asking w n wire ∨ Replied h θ w n wire

variable {h h' : Exchanges τ api zlib} {θ : τ × ℕ} {w : WireRequest api zlib} {n : ℕ} {wire : Wire}

theorem Pending.mono (hw : Pending h θ w n wire) (he : h.Extends h') : Pending h' θ w n wire where
  busy := hw.busy
  invoked := by
    obtain ⟨i, hi, hcall⟩ := hw.invoked
    exact ⟨i, he.getElem?_invoked hi, hcall⟩
  progress := hw.progress.imp_right fun hr =>
    ⟨hr.request, by
      obtain ⟨k, answer, result, c, heffect, hshows⟩ := hr.effect
      exact ⟨k, answer, result, c, heffect.mono he, hshows⟩⟩

/-- **What a thread reads**: the response of the answer to its request, or an `io::error_t`. -/
theorem Pending.read (hw : Pending h θ w n wire) {result : Except Exn Response} {c : Connection}
    (hread : deserializeResponse w.command wire.connection = (result, c)) :
    (∃ e, result = .error e ∧ IsIoError e) ∨
      (wire.request = none ∧ c.input = [] ∧ ∃ k answer, h.TookEffect θ w n k answer ∧
        ShowsTask api zlib w.request.unique answer result) := by
  rcases hw.progress with ha | hr
  · rw [deserializeResponse_nil w ha.input] at hread
    exact Or.inl ⟨_, (Prod.mk.inj hread).1.symm, _, _, rfl⟩
  · obtain ⟨k, answer, result', c', heffect, hshows, hread', hinput⟩ := hr.effect
    obtain ⟨rfl, rfl⟩ := Prod.mk.inj (hread.symm.trans hread')
    exact Or.inr ⟨hr.request, hinput, k, answer, heffect, hshows⟩

/-- **The server executes a request** while a thread waits for it. -/
theorem Pending.serve (hw : Pending h θ w n wire) {m : ℕ} {bytes : Bytes}
    (hrequest : wire.request = some (m, bytes)) {i : Invocation (τ × ℕ) (WireRequest api zlib)}
    (hi : h.invoked[m]? = some i) (hsince : i.since ≤ h.log.length) {now : ℤ} {server : Memcached}
    (hfits : FitsTask now server i.call.task) :
    Pending (h.execute m (now, i.call.task) (executeTask now i.call.task server).1) θ w n
      { wire with
        request := none
        connection := wire.connection.receive (api.perform now bytes server).1 } := by
  rcases hw.progress with ha | hr
  · obtain ⟨before, bytes', hser, hconnection, hnone | hsome⟩ := ha.written
    · cases hrequest.symm.trans hnone
    · obtain ⟨rfl, rfl⟩ := Prod.mk.inj (Option.some.inj (hrequest.symm.trans hsome))
      obtain ⟨i', hi', rfl, rfl⟩ := hw.invoked
      obtain rfl := Option.some.inj (hi.symm.trans hi')
      have hbefore : before.input = [] := by
        have := ha.input
        rwa [hconnection] at this
      obtain ⟨result, c, hsend, hrest, -, hshows⟩ :=
        exchange_perform (c := { before with input := (api.perform now bytes server).1 })
          i.call.requests i.call.command_eq hser hfits rfl
      rw [commandParserSend, hser] at hsend
      refine ⟨hw.busy, ⟨i, hi, rfl, rfl⟩, Or.inr ⟨rfl, _, _, result, c,
        CallHistory.tookEffect_execute hi hsince _ _, hshows, ?_, hrest⟩⟩
      rw [hconnection, Connection.receive]
      simp only [Connection.write, hbefore, List.nil_append] at hsend ⊢
      exact hsend
  · cases hrequest.symm.trans hr.request

end Exchange

/-! ## The invariant -/

section Sound

variable {τ : Type} [DecidableEq τ] {api : Api} {zlib : Zlib} {capacity : ℕ} {first : Memcached}

/-- A connection that a thread may get, or that one has an answer from. -/
def Usable {κ : Type} (threads : PoolThreads τ κ Unit) (c : ℕ) : Prop :=
  threads.shared.opened ≤ c ∨ c ∈ threads.shared.stack ∨
    ∃ t code, threads.phase t = .answered c code

/-- Connections have one user; those that may be used are clean, and on one that a thread picked
there is its own exchange at most; and the history is linearizable. -/
structure Sound (capacity : ℕ) (first : Memcached) (s : Traffic τ api zlib) : Prop where
  owned : Owned capacity s.threads
  linear : s.history.Linearizable (memcachedService api zlib) first s.server
  usable : ∀ c, Usable s.threads c → (s.wires c).Clean
  picked : ∀ t c, s.threads.phase t = .picked c → (s.wires c).Clean ∨
    ∃ w n, exchange? (s.threads.left t) = some (c, w) ∧ Pending s.history (t, c) w n (s.wires c)
  request : ∀ c n bytes, (s.wires c).request = some (n, bytes) →
    n ∉ s.history.log.map Execution.ticket ∧ ∃ i, s.history.invoked[n]? = some i ∧
      i.thread.2 = c ∧ i.call.command.serialize = .ok bytes
  busy : ∀ c n, (s.wires c).busy = some n →
    n ∉ s.history.returned.map Return.ticket ∧ ∃ i, s.history.invoked[n]? = some i ∧ i.thread.2 = c

variable {s s' : Traffic τ api zlib} {t : τ}

omit [DecidableEq τ] in
theorem sound_start (cfg : ServerProxyConfig) (shared : Shared τ) (first : Memcached)
    (calls : τ → List (ServerCall (WireRequest api zlib))) :
    Sound capacity first (Traffic.start cfg shared first calls) where
  owned := owned_startPool cfg shared calls
  linear := CallHistory.linearizable_nil _ first
  usable _ _ := ⟨rfl, rfl, rfl⟩
  picked _ _ h := by cases h
  request _ _ _ h := by cases h
  busy _ _ h := by cases h

/-! ### Operations of a thread on its own -/

/-- Every operation other than a pick and an exchange keeps a picked connection from use, and makes
no answer. -/
theorem advance_keeps {κ : Type} (g : Grip) {o : ProxyOp κ} (r : o.Answer) (hpick : o ≠ .pick)
    (hexchange : ∀ connection command, o ≠ .exchange connection command) :
    (∀ c, g.advance o r ≠ .picked c) ∧
      ∀ c code, g.advance o r = .answered c code → g = .answered c code := by
  cases o with
  | pick => exact absurd rfl hpick
  | exchange connection command => exact absurd rfl (hexchange connection command)
  | storeDead dead | storeFails fails => cases g <;> simp [Grip.advance]
  | _ => simp [Grip.advance]

/-- It is enough to know the phase of the thread, the stack and what was opened. -/
theorem Usable.before {κ : Type} {threads threads' : PoolThreads τ κ Unit} {g : Grip}
    (hphase : threads'.phase = Function.update threads.phase t g)
    (hanswered : ∀ c code, g = .answered c code → Usable threads c)
    (hstack : ∀ c ∈ threads'.shared.stack, Usable threads c)
    (hopened : threads.shared.opened ≤ threads'.shared.opened) (c : ℕ) (h : Usable threads' c) :
    Usable threads c := by
  rcases h with hc | hc | ⟨u, code, hu⟩
  · exact Or.inl (Nat.le_trans hopened hc)
  · exact hstack c hc
  · rw [hphase, Function.update_apply] at hu
    split_ifs at hu with hut
    · exact hanswered c code hu
    · exact Or.inr (Or.inr ⟨u, code, hu⟩)

/-- **What can be used after an operation** other than an exchange could be used before. -/
theorem usable_step {κ : Type} {threads threads' : PoolThreads τ κ Unit} {e : Choice}
    (howned : Owned capacity threads) (h : poolStep capacity threads (t, e) = some threads')
    (hno : ¬(exchange? (threads.left t)).isSome) :
    (∀ c, Usable threads' c → Usable threads c) ∧
      ∀ c, threads'.phase t = .picked c → Usable threads c := by
  obtain ⟨o, next, r, hleft, hatomic, -, hphase⟩ := Threads.step_eq_some h
  have hphase_eq : threads'.phase t = (threads.phase t).advance o r := by
    rw [hphase, Function.update_self]
  cases o with
  | exchange c command =>
    rw [hleft] at hno
    exact absurd rfl hno
  | pick =>
    rw [hphase_eq]
    cases hstack : threads.shared.stack with
    | cons c stack =>
      simp only [pooledAtomic, hstack] at hatomic
      obtain ⟨rfl, hshared⟩ := Prod.mk.inj (Option.some.inj hatomic)
      refine ⟨Usable.before hphase (by rintro _ _ ⟨⟩) ?_ ?_, ?_⟩
      · rw [← hshared]
        exact fun d hd => Or.inr (Or.inl (hstack ▸ List.mem_cons_of_mem c hd))
      · rw [← hshared]
      · rintro d ⟨⟩
        exact Or.inr (Or.inl (hstack ▸ List.mem_cons_self))
    | nil =>
      cases hconnection : e.connection with
      | ok c =>
        simp only [pooledAtomic, hstack, hconnection] at hatomic
        obtain ⟨rfl, hshared⟩ := Prod.mk.inj (Option.some.inj hatomic)
        refine ⟨Usable.before hphase (by rintro _ _ ⟨⟩) ?_ ?_, ?_⟩
        · rw [← hshared]
          exact fun d hd => absurd hd List.not_mem_nil
        · rw [← hshared]
          exact Nat.le_succ _
        · rintro d ⟨⟩
          exact Or.inl (Nat.le_refl _)
      | error x =>
        simp only [pooledAtomic, hstack, hconnection] at hatomic
        obtain ⟨rfl, hshared⟩ := Prod.mk.inj (Option.some.inj hatomic)
        refine ⟨Usable.before hphase (by rintro _ _ ⟨⟩) ?_ ?_, by rintro _ ⟨⟩⟩
        · rw [← hshared]
          exact fun d hd => Or.inr (Or.inl hd)
        · rw [← hshared]
  | pushBack c =>
    obtain ⟨code, hgrip, -⟩ := howned.disciplined.allowed hleft
    obtain ⟨rfl, hshared⟩ := Prod.mk.inj (Option.some.inj hatomic)
    rw [hphase_eq]
    refine ⟨Usable.before hphase (by rintro _ _ ⟨⟩) ?_ ?_, by rintro _ ⟨⟩⟩
    · rw [← hshared]
      split_ifs
      · intro d hd
        rcases List.mem_cons.mp hd with rfl | hd
        · exact Or.inr (Or.inr ⟨t, code, hgrip⟩)
        · exact Or.inr (Or.inl hd)
      · exact fun d hd => Or.inr (Or.inl hd)
    · rw [← hshared]
      split_ifs <;> exact Nat.le_refl _
  | clear =>
    obtain ⟨rfl, hshared⟩ := Prod.mk.inj (Option.some.inj hatomic)
    rw [hphase_eq]
    refine ⟨Usable.before hphase (by rintro _ _ ⟨⟩) ?_ ?_, by rintro _ ⟨⟩⟩
    · rw [← hshared]
      exact fun d hd => absurd hd List.not_mem_nil
    · rw [← hshared]
  | _ =>
    obtain ⟨server, hshared⟩ := pooledAtomic_server hatomic (by simp) (by simp) (by simp)
      (by simp)
    obtain ⟨hpicked, hanswered⟩ := advance_keeps (threads.phase t) r (by simp) (by simp)
    rw [hphase_eq]
    refine ⟨Usable.before hphase (fun c code hc => Or.inr (Or.inr ⟨t, code, hanswered c code hc⟩)) ?_ ?_,
      fun c hc => absurd hc (hpicked c)⟩
    · rw [hshared]
      exact fun d hd => Or.inr (Or.inl hd)
    · rw [hshared]

theorem Sound.step_op (hs : Sound capacity first s) {e : Choice}
    (h : s.step capacity (.op t e) = some s') : Sound capacity first s' := by
  obtain ⟨threads, hno, hstep, rfl⟩ := Traffic.op_eq_some h
  obtain ⟨husable, hpicked⟩ := usable_step hs.owned hstep hno
  obtain ⟨o, next, r, -, -, hleft, hphase⟩ := Threads.step_eq_some hstep
  refine {
    owned := hs.owned.step hstep
    linear := hs.linear
    usable := fun c hc => hs.usable c (husable c hc)
    picked := fun u c hu => ?_
    request := hs.request
    busy := hs.busy }
  by_cases hut : u = t
  · subst hut
    exact Or.inl (hs.usable c (hpicked c hu))
  · have hu : threads.phase u = .picked c := hu
    rw [hphase, Function.update_of_ne hut] at hu
    show _ ∨ ∃ w n, exchange? (threads.left u) = _ ∧ _
    rw [hleft, Function.update_of_ne hut]
    exact hs.picked u c hu

/-! ### A connection in use -/

omit [DecidableEq τ] in
theorem not_usable_of_picked {κ : Type} {threads : PoolThreads τ κ Unit} {c : ℕ}
    (howned : Owned capacity threads) (ht : threads.phase t = .picked c) : ¬Usable threads c := by
  have hheld : Holds threads t c := by rw [Holds, ht]; rfl
  rintro (hc | hc | ⟨u, code, hu⟩)
  · exact absurd (howned.held_opened t c hheld) (Nat.not_lt.mpr hc)
  · exact howned.not_pooled t c hheld hc
  · have hut : u = t := howned.held_once u t c (by rw [Holds, hu]; rfl) hheld
    rw [hut, ht] at hu
    cases hu

/-- The exchanges of a history that are not on connection `c` did not take effect, or return, in a
step to another history. -/
structure Untouched (h h' : Exchanges τ api zlib) (c : ℕ) : Prop where
  log : ∀ (n : ℕ) i, h.invoked[n]? = some i → i.thread.2 ≠ c →
    n ∉ h.log.map Execution.ticket → n ∉ h'.log.map Execution.ticket
  returned : ∀ (n : ℕ) i, h.invoked[n]? = some i → i.thread.2 ≠ c →
    n ∉ h.returned.map Return.ticket → n ∉ h'.returned.map Return.ticket

omit [DecidableEq τ] in
theorem Sound.update_wire (hs : Sound capacity first s) {c : ℕ} {wire : Wire}
    (hwires : s'.wires = Function.update s.wires c wire) (howned : Owned capacity s'.threads)
    (hlinear : s'.history.Linearizable (memcachedService api zlib) first s'.server)
    (he : s.history.Extends s'.history) (hu : Untouched s.history s'.history c)
    (husable : ∀ d, Usable s'.threads d → d = c ∧ wire.Clean ∨ d ≠ c ∧ Usable s.threads d)
    (hpicked : ∀ u d, s'.threads.phase u = .picked d →
      (d = c ∧ ∃ w n, exchange? (s'.threads.left u) = some (c, w) ∧
        Pending s'.history (u, c) w n wire) ∨
      (d ≠ c ∧ s.threads.phase u = .picked d ∧ s'.threads.left u = s.threads.left u))
    (hrequest : ∀ n bytes, wire.request = some (n, bytes) →
      n ∉ s'.history.log.map Execution.ticket ∧ ∃ i, s'.history.invoked[n]? = some i ∧
        i.thread.2 = c ∧ i.call.command.serialize = .ok bytes)
    (hbusy : ∀ n, wire.busy = some n → n ∉ s'.history.returned.map Return.ticket ∧
      ∃ i, s'.history.invoked[n]? = some i ∧ i.thread.2 = c) : Sound capacity first s' where
  owned := howned
  linear := hlinear
  usable d hd := by
    rw [hwires]
    rcases husable d hd with ⟨rfl, hclean⟩ | ⟨hdc, hd⟩
    · rwa [Function.update_self]
    · rw [Function.update_of_ne hdc]
      exact hs.usable d hd
  picked u d hd := by
    rw [hwires]
    rcases hpicked u d hd with ⟨rfl, hpending⟩ | ⟨hdc, hd, hleft⟩
    · rw [Function.update_self]
      exact Or.inr hpending
    · rw [Function.update_of_ne hdc, hleft]
      refine (hs.picked u d hd).imp_right ?_
      rintro ⟨w, n, hexchange, hpending⟩
      exact ⟨w, n, hexchange, hpending.mono he⟩
  request d n bytes hd := by
    rw [hwires] at hd
    by_cases hdc : d = c
    · subst hdc
      rw [Function.update_self] at hd
      exact hrequest n bytes hd
    · rw [Function.update_of_ne hdc] at hd
      obtain ⟨hlog, i, hi, rfl, hser⟩ := hs.request d n bytes hd
      exact ⟨hu.log n i hi hdc hlog, i, he.getElem?_invoked hi, rfl, hser⟩
  busy d n hd := by
    rw [hwires] at hd
    by_cases hdc : d = c
    · subst hdc
      rw [Function.update_self] at hd
      exact hbusy n hd
    · rw [Function.update_of_ne hdc] at hd
      obtain ⟨hreturned, i, hi, rfl⟩ := hs.busy d n hd
      exact ⟨hu.returned n i hi hdc hreturned, i, he.getElem?_invoked hi, rfl⟩

omit [DecidableEq τ] in
theorem untouched_invoke (h : Exchanges τ api zlib) (θ : τ × ℕ) (w : WireRequest api zlib) (c : ℕ) :
    Untouched h (h.invoke θ w) c :=
  ⟨fun _ _ _ _ hn => hn, fun _ _ _ _ hn => hn⟩

omit [DecidableEq τ] in
theorem untouched_execute {h : Exchanges τ api zlib} {n : ℕ}
    {i : Invocation (τ × ℕ) (WireRequest api zlib)} (hi : h.invoked[n]? = some i)
    (op : ℤ × ServerTask) (answer : TaskAnswer) :
    Untouched h (h.execute n op answer) i.thread.2 where
  log m j hj hne hm := by
    show m ∉ (h.log ++ [_]).map Execution.ticket
    rw [List.map_append, List.mem_append, not_or, List.map_singleton, List.mem_singleton]
    refine ⟨hm, ?_⟩
    rintro rfl
    exact hne (Option.some.inj (hj.symm.trans hi) ▸ rfl)
  returned _ _ _ _ hm := hm

omit [DecidableEq τ] in
theorem untouched_respond {h : Exchanges τ api zlib} {n : ℕ}
    {i : Invocation (τ × ℕ) (WireRequest api zlib)} (hi : h.invoked[n]? = some i)
    (result : Except Exn Response) : Untouched h (h.respond i.thread n result) i.thread.2 where
  log _ _ _ _ hm := hm
  returned m j hj hne hm := by
    show m ∉ (h.returned ++ [_]).map Return.ticket
    rw [List.map_append, List.mem_append, not_or, List.map_singleton, List.mem_singleton]
    refine ⟨hm, ?_⟩
    rintro rfl
    exact hne (Option.some.inj (hj.symm.trans hi) ▸ rfl)

/-- **A thread writes its request** to the connection that it picked. -/
theorem Sound.step_write (hs : Sound capacity first s) {heard : Bool}
    (h : s.write capacity t heard = some s') : Sound capacity first s' := by
  obtain ⟨c, w, bytes, hexchange, hfree, hser, rfl⟩ := Traffic.write_eq_some h
  obtain ⟨next, hleft⟩ := Traffic.exchange?_eq_some hexchange
  have ht : s.threads.phase t = .picked c := hs.owned.disciplined.allowed hleft
  have hclean : (s.wires c).Clean := by
    rcases hs.picked t c ht with hclean | ⟨w', n, -, hpending⟩
    · exact hclean
    · cases hpending.busy.symm.trans hfree
  have hinvoked : (s.history.invoke (t, c) w).invoked[s.history.invoked.length]? =
      some ⟨(t, c), w, s.history.log.length⟩ := by
    show (s.history.invoked ++ [_])[s.history.invoked.length]? = _
    rw [List.getElem?_append_right (Nat.le_refl _), Nat.sub_self]
    rfl
  obtain ⟨hlog, hreturned⟩ := hs.linear.next_ticket
  refine hs.update_wire (c := c) rfl hs.owned (hs.linear.invoke (t, c) w)
    (CallHistory.extends_invoke _ _ _) (untouched_invoke _ _ _ _) ?_ ?_ ?_ ?_
  · intro d hd
    refine Or.inr ⟨?_, hd⟩
    rintro rfl
    exact not_usable_of_picked hs.owned ht hd
  · intro u d hu
    by_cases hdc : d = c
    · subst hdc
      have hut : u = t := hs.owned.held_once u t d (by rw [Holds, hu]; rfl) (by rw [Holds, ht]; rfl)
      subst hut
      refine Or.inl ⟨rfl, w, _, hexchange, rfl, ⟨_, hinvoked, rfl, rfl⟩, Or.inl ⟨hclean.input, ?_⟩⟩
      exact ⟨_, bytes, hser, rfl, by cases heard <;> simp⟩
    · exact Or.inr ⟨hdc, hu, rfl⟩
  · intro n bytes' hn
    cases heard with
    | false => cases hn
    | true =>
      cases hn
      exact ⟨hlog, _, hinvoked, rfl, hser⟩
  · rintro n ⟨⟩
    exact ⟨hreturned, _, hinvoked, rfl⟩

omit [DecidableEq τ] in
/-- **The server executes a request** that is on a connection. -/
theorem Sound.step_serve (hs : Sound capacity first s) {c : ℕ} {now : ℤ}
    (hfits : s.server.Fits)
    (h : s.serve c now = some s') : Sound capacity first s' := by
  obtain ⟨n, bytes, i, hrequest, hi, rfl⟩ := Traffic.serve_eq_some h
  obtain ⟨hlog, j, hj, rfl, hser⟩ := hs.request c n bytes hrequest
  obtain rfl := Option.some.inj (hi.symm.trans hj)
  have hserver : (api.perform now bytes s.server).2 = (executeTask now i.call.task s.server).2 := by
    obtain ⟨-, -, -, -, hafter, -⟩ := exchange_perform
      (c := { input := (api.perform now bytes s.server).1 }) i.call.requests i.call.command_eq
      hser (hfits.task now _) rfl
    exact hafter
  have hunusable : ¬Usable s.threads i.thread.2 := fun hd => by
    rw [(hs.usable _ hd).request] at hrequest
    cases hrequest
  have hasks : (memcachedService api zlib).asks i.call (now, i.call.task) := rfl
  have hlinear := hs.linear.execute hi hasks hlog
  refine hs.update_wire (c := i.thread.2) rfl hs.owned ?_ (CallHistory.extends_execute _ _ _ _)
    (untouched_execute hi _ _) ?_ ?_ ?_ ?_
  · show CallHistory.Linearizable _ first (api.perform now bytes s.server).2 _
    rw [hserver]
    exact hlinear
  · intro d hd
    refine Or.inr ⟨?_, hd⟩
    rintro rfl
    exact hunusable hd
  · intro u d hu
    by_cases hdc : d = i.thread.2
    · subst hdc
      refine Or.inl ⟨rfl, ?_⟩
      rcases hs.picked u _ hu with hclean | ⟨w, m, hexchange, hpending⟩
      · rw [hclean.request] at hrequest
        cases hrequest
      · exact ⟨w, m, hexchange, hpending.serve hrequest hi
          (hs.linear.since_le i (List.mem_of_getElem? hi)) (hfits.task now _)⟩
    · exact Or.inr ⟨hdc, hu, rfl⟩
  · rintro m bytes' ⟨⟩
  · exact fun m hm => hs.busy _ m hm

/-- **A thread reads the response** to its request, or an exception ends the exchange. -/
theorem Sound.step_read (hs : Sound capacity first s) {failure : Option (IoErrorCode × String)}
    (h : s.read capacity t failure = some s') : Sound capacity first s' := by
  obtain ⟨c, w, n, result, connection, threads, hexchange, hbusy, hread, hstep, rfl⟩ :=
    Traffic.read_eq_some h
  obtain ⟨next, hleft⟩ := Traffic.exchange?_eq_some hexchange
  have ht : s.threads.phase t = .picked c := hs.owned.disciplined.allowed hleft
  obtain ⟨hreturned, -⟩ := hs.busy c n hbusy
  have hpending : Pending s.history (t, c) w n (s.wires c) := by
    rcases hs.picked t c ht with hclean | ⟨w', m, hexchange', hpending⟩
    · rw [hclean.busy] at hbusy
      cases hbusy
    · obtain ⟨-, rfl⟩ := Prod.mk.inj (Option.some.inj (hexchange'.symm.trans hexchange))
      obtain rfl := Option.some.inj (hbusy.symm.trans hpending.busy)
      exact hpending
  obtain ⟨i, hi, hthread, hcall⟩ := hpending.invoked
  -- What is known of the result when it is no failure of the network.
  have hresult : (∃ e, result = .error e ∧ IsIoError e) ∨ ((s.wires c).request = none ∧
      connection.input = [] ∧ ∃ k answer, s.history.TookEffect (t, c) w n k answer ∧
        ShowsTask api zlib w.request.unique answer result) :=
    hread.elim Or.inl hpending.read
  have hlinear : (s.history.respond i.thread n result).Linearizable (memcachedService api zlib)
      first s.server := hs.linear.respond hi ?_ hreturned
  have huntouched := untouched_respond hi result
  rw [hthread] at hlinear huntouched
  have howned : Owned capacity threads := hs.owned.step hstep
  obtain ⟨o, next', r, hleft', hatomic, hl, hphase⟩ := Threads.step_eq_some hstep
  obtain ⟨rfl, -⟩ := Program.call.inj (hleft.symm.trans hleft')
  obtain ⟨rfl, hshared⟩ := Prod.mk.inj (Option.some.inj hatomic)
  have hphase_ne : ∀ u, u ≠ t → threads.phase u = s.threads.phase u := fun u hu => by
    rw [hphase, Function.update_of_ne hu]
  have hphase_eq : threads.phase t = (s.threads.phase t).advance (.exchange c w) result := by
    rw [hphase, Function.update_self]
  have hsame : ∀ d, Usable s.threads d →
      d = c ∧ Wire.Clean { s.wires c with connection, busy := none } ∨
        d ≠ c ∧ Usable s.threads d := fun d hd => by
    refine Or.inr ⟨?_, hd⟩
    rintro rfl
    exact not_usable_of_picked hs.owned ht hd
  refine hs.update_wire (c := c) rfl howned hlinear (CallHistory.extends_respond _ _ _ _) huntouched
    ?_ ?_ (hs.request c) (by rintro _ ⟨⟩)
  · rintro d (hd | hd | ⟨u, code, hu⟩)
    · exact hsame d (Or.inl (by rwa [← hshared] at hd))
    · exact hsame d (Or.inr (Or.inl (by rwa [← hshared] at hd)))
    · by_cases hut : u = t
      · subst hut
        rw [hphase_eq] at hu
        cases result with
        | error e => cases hu
        | ok response =>
          cases hu
          obtain ⟨hrequest, hinput, -⟩ := hresult.resolve_left (by rintro ⟨e, ⟨⟩, -⟩)
          exact Or.inl ⟨rfl, hrequest, hinput, rfl⟩
      · exact hsame d (Or.inr (Or.inr ⟨u, code, (hphase_ne u hut).symm.trans hu⟩))
  · intro u d hu
    by_cases hut : u = t
    · subst hut
      rw [hphase_eq] at hu
      cases result <;> cases hu
    · rw [hphase_ne u hut] at hu
      refine Or.inr ⟨?_, hu, by rw [hl, Function.update_of_ne hut]⟩
      rintro rfl
      exact hut (hs.owned.held_once u t d (by rw [Holds, hu]; rfl) (by rw [Holds, ht]; rfl))
  · rw [hthread, hcall]
    exact hresult.imp_right fun hshown => hshown.2.2

theorem Sound.step (hs : Sound capacity first s) {event : Traffic.Event τ}
    (h : s.step capacity event = some s') (hfits : s.server.Fits) : Sound capacity first s' := by
  cases event with
  | op t e => exact hs.step_op h
  | write t heard => exact hs.step_write h
  | read t failure => exact hs.step_read h
  | serve c now => exact hs.step_serve hfits h

/-- **Exchanges over pooled connections are linearizable**, in either protocol, whatever threads and
server do in any order, and whatever fails. The requests are such as `WireRequest` says, and the
values on the server have less than 4 GiB. -/
theorem linearizable_exchanges (cfg : ServerProxyConfig) (shared : Shared τ) (first : Memcached)
    (calls : τ → List (ServerCall (WireRequest api zlib))) {events : List (Traffic.Event τ)}
    {s : Traffic τ api zlib}
    (hrun : Run.exec (Traffic.step capacity) (Traffic.start cfg shared first calls) events = some s)
    (hfits : Run.Along (Traffic.step capacity) (fun s _ _ => s.server.Fits)
      (Traffic.start cfg shared first calls) events) :
    s.history.Linearizable (memcachedService api zlib) first s.server := by
  have hs : Sound capacity first s := Run.invariant _
    (fun _ _ _ hs h hfits => hs.step h hfits) (sound_start cfg shared first calls) hrun hfits
  exact hs.linear

end Sound

/-! ### A counter is set while it is incremented -/

def settingAndCounting : ℕ → List (ServerCall (WireRequest .text .plain))
  | 0 => [.send setRequest]
  | 1 => [.send incrRequest]
  | _ => []

/-- Both requests are on the way when the server reads the second one. -/
def overtaken : List (Traffic.Event ℕ) :=
  [.op 0 {}, .op 1 {}, .write 0 true, .write 1 true, .serve 1 0, .serve 0 0, .read 0 none,
    .read 1 none]

def emptyServer : Memcached where
  items _ := none

theorem fits_emptyServer : emptyServer.Fits := by
  rintro now key item ⟨⟩

theorem fits_overtaken : Run.Along (Traffic.step 2) (fun s _ _ => s.server.Fits)
    (Traffic.start {} deadServer emptyServer settingAndCounting) overtaken := by
  iterate 6
    rintro _ ⟨⟩
    refine ⟨fits_emptyServer, ?_⟩
  iterate 2
    rintro _ ⟨⟩
    refine ⟨fits_emptyServer.put (by decide), ?_⟩
  trivial

theorem linearizable_exchanges_overtaken : ∃ s : Traffic ℕ .text .plain,
    Run.exec (Traffic.step 2) (Traffic.start {} deadServer emptyServer settingAndCounting)
      overtaken = some s ∧
    s.history.log.map Execution.ticket = [1, 0] ∧ s.history.returned.map Return.ticket = [0, 1] ∧
      s.history.Linearizable (memcachedService .text .plain) emptyServer s.server :=
  ⟨_, rfl, rfl, rfl, linearizable_exchanges {} deadServer emptyServer settingAndCounting
    (show Run.exec (Traffic.step 2) _ overtaken = _ from rfl) fits_overtaken⟩

end McacheClient
