import McacheClient.Client.Failover
import McacheClient.Proto.Api
import McacheClient.Proxy.Connections

/-!
# A rejected key

`run` with a command whose key is rejected when it is serialized, over servers in any state.

* `pooledSolo`, `exec_callable_pooled`, `exec_send_refused`: what the methods of one proxy do;
* `Attempt`, `Fleet`, `fleet`: the servers of a client, and what the environment chooses for every
  server that is tried;
* `PassedBy`, `Rejects`, `Traceless`: when a server is left as it is and the loop goes on, when it
  rejects the command and is left as it is, and when a whole list of servers is;
* `Attempted`, `tryServer_attempted`: what comes of one server that is tried;
* **`rejected_iff`**: `run` throws `bad_argument` and changes no server exactly when the servers
  that it tries are traceless.
-/

namespace McacheClient

/-! ## One server -/

section Server

variable {κ : Type} (cfg : ServerProxyConfig) (capacity : ℕ) (e : Choice) (c : Connections Unit)

theorem pooledAtomic_isSome (o : ProxyOp κ) : (pooledAtomic capacity () e o c).isSome = true := by
  cases o with
  | pick => cases hstack : c.stack <;> cases hconnection : e.connection <;>
      simp [pooledAtomic, hstack, hconnection]
  | tryLock => cases hlock : c.server.lock <;> simp [pooledAtomic, atomic, hlock]
  | _ => rfl

/-- One operation while no other thread is running. -/
def pooledSolo (o : ProxyOp κ) (c : Connections Unit) : o.Answer × Connections Unit :=
  (pooledAtomic capacity () e o c).get (pooledAtomic_isSome capacity e c o)

/-- The lock is free afterwards. -/
def Connections.unlock (c : Connections Unit) : Connections Unit :=
  { c with server := { c.server with lock := none } }

/-- A guard unlocks also when it was refused. -/
theorem exec_callable_pooled :
    (callable cfg : ProxyM κ Bool).exec (pooledSolo capacity e) c =
      if c.server.dead = false then (true, c)
      else if e.reading < c.server.restoration then (false, c)
      else if c.server.lock ≠ none then (false, c.unlock)
      else (true, { c with server := { c.server with
        restoration := .wrap (e.reading + seconds cfg.restorationInterval) } }) := by
  obtain ⟨⟨restoration, dead, fails, lock⟩, stack, opened, last⟩ := c
  cases dead with
  | false => rfl
  | true =>
    by_cases hdue : e.reading < restoration
    · simp [callable, perform, pooledSolo, pooledAtomic, atomic, hdue]
    · cases lock with
      | none =>
        simp [callable, scopeGuard, perform, pooledSolo, pooledAtomic, atomic, hdue]
        rfl
      | some u =>
        simp [callable, scopeGuard, perform, pooledSolo, pooledAtomic, atomic, hdue]
        rfl

/-- Serializing the command throws; the connection that was picked is lost. -/
theorem exec_send_picked {c : Connections Unit} {connection : ℕ} {stack : List ℕ}
    (hstack : c.stack = connection :: stack) {code : ErrorCode} {msg : String}
    (hresponse : e.response = .error (.mc code msg)) (command : κ) :
    (send cfg command).exec (pooledSolo capacity e) c =
      (.error (.mc code msg), { c with
        stack
        last := Function.update c.last connection none }) := by
  obtain ⟨server, stack', opened, last⟩ := c
  obtain rfl : stack' = connection :: stack := hstack
  simp [send, sendTry, perform, pooledSolo, pooledAtomic, hresponse, Except.toOption]

theorem exec_send_connected {c : Connections Unit} (hstack : c.stack = []) {connection : ℕ}
    (hconnection : e.connection = .ok connection) {code : ErrorCode} {msg : String}
    (hresponse : e.response = .error (.mc code msg)) (command : κ) :
    (send cfg command).exec (pooledSolo capacity e) c =
      (.error (.mc code msg), { c with
        opened := c.opened + 1
        last := Function.update c.last c.opened none }) := by
  obtain ⟨server, stack, opened, last⟩ := c
  obtain rfl : stack = [] := hstack
  simp [send, sendTry, perform, pooledSolo, pooledAtomic, hconnection, hresponse,
    Except.toOption]

/-- A connection that cannot be made counts as a failure, if the lock is free. -/
theorem exec_send_refused {c : Connections Unit} (hstack : c.stack = []) {code : IoErrorCode}
    {what : String} (hconnection : e.connection = .error (.io code what)) (command : κ) :
    ∃ response, response.code = .ioError ∧
      (send cfg command).exec (pooledSolo capacity e) c =
        (.ok response,
          if c.server.lock ≠ none then c.unlock
          else if cfg.failLimit ≤ c.server.fails + 1 then
            { c with server := { c.server with
              restoration := .wrap (e.reading + seconds cfg.restorationInterval)
              dead := true
              fails := c.server.fails + 1 } }
          else { c with server := { c.server with fails := c.server.fails + 1 } }) := by
  obtain ⟨⟨restoration, dead, fails, lock⟩, stack, opened, last⟩ := c
  obtain rfl : stack = [] := hstack
  refine ⟨{ code := .ioError, data := ascii ("connection failed: " ++ what) }, rfl, ?_⟩
  cases lock with
  | some u =>
    simp [send, sendTry, scopeGuard, perform, pooledSolo, pooledAtomic, atomic, hconnection]
    rfl
  | none =>
    by_cases hlimit : cfg.failLimit ≤ fails + 1
    · simp [send, sendTry, scopeGuard, perform, pooledSolo, pooledAtomic, atomic, hconnection,
        hlimit]
      rfl
    · simp [send, sendTry, scopeGuard, perform, pooledSolo, pooledAtomic, atomic, hconnection,
        hlimit]

end Server

/-! ## The servers of a client -/

/-- Why no connection can be made: the constructor of a connection throws an `io::error_t`, or the
resolver throws. -/
inductive Refusal
  | failed (code : IoErrorCode) (what : String)
  | unresolved (what : String)

def Refusal.exn : Refusal → Exn
  | failed code what => .io code what
  | unresolved what => .system what

/-- What the environment chooses for one server that is tried: the clock that `callable` reads and
the one that a failed `send` reads, what making a connection throws, and the connection that the
command goes over. -/
structure Attempt where
  asked : TimePoint := 0
  failed : TimePoint := 0
  refused : Option Refusal := none
  wire : Connection := {}

namespace Attempt

def asking (a : Attempt) : Choice where
  reading := a.asked

def sending (a : Attempt) (command : Command) : Choice where
  reading := a.failed
  connection :=
    match a.refused with
    | none => .ok 0
    | some refusal => .error refusal.exn
  response := (commandParserSend command a.wire).1

/-- Making a connection throws an `io::error_t`, which `send` catches. -/
def Fails (a : Attempt) : Prop := ∃ code what, a.refused = some (.failed code what)

end Attempt

/-- The servers, and how many attempts there were. -/
structure Fleet where
  servers : UInt32 → Connections Unit
  tried : ℕ := 0

def Fleet.set (s : Fleet) (idx : UInt32) (c : Connections Unit) : Fleet :=
  { s with servers := Function.update s.servers idx c }

/-- The attempt on a server is over. -/
def Fleet.after (s : Fleet) (idx : UInt32) (c : Connections Unit) : Fleet :=
  { s.set idx c with tried := s.tried + 1 }

section Fleet

variable (cfg : ServerProxyConfig) (capacity : ℕ) (script : ℕ → Attempt)

/-- The proxies of servers that do what the environment chooses. -/
def fleet : ServerProxies Fleet Command where
  callable idx s :=
    let (result, c) := (callable cfg : ProxyM Command Bool).exec
      (pooledSolo capacity (script s.tried).asking) (s.servers idx)
    (result, s.after idx c)
  send idx command s :=
    let (result, c) := (send cfg command).exec
      (pooledSolo capacity ((script (s.tried - 1)).sending command)) (s.servers idx)
    (result, s.set idx c)
  lifespan idx s :=
    let (result, c) := (lifespan cfg : ProxyM Command ℤ).exec
      (pooledSolo capacity (script (s.tried - 1)).asking) (s.servers idx)
    (result, s.set idx c)

/-- The fields of a server that the other clients of the shared memory see, and the pool. -/
def Connections.visible {τ : Type} (c : Connections τ) : Bool × UInt32 × TimePoint × List ℕ :=
  (c.server.dead, c.server.fails, c.server.restoration, c.stack)

/-- The loop goes on to the next server and leaves this one as it is: it is dead and not due, or
dead and somebody else has its lock, or it is alive, making a connection fails, and the failure is
not counted because somebody else has its lock. -/
def PassedBy (a : Attempt) (c : Connections Unit) : Prop :=
  if c.server.dead = true then a.asked < c.server.restoration ∨ c.server.lock ≠ none
  else c.stack = [] ∧ a.Fails ∧ c.server.lock ≠ none

/-- The lock of a server that is passed by is free, if it was tried. -/
def Connections.passedBy (a : Attempt) (c : Connections Unit) : Connections Unit :=
  if c.server.dead = true ∧ a.asked < c.server.restoration then c else c.unlock

/-- The server rejects the command and is left as it is: its pool is empty, a connection can be
made, and it is alive, or its next restoration time happens to be the one it has. -/
def Rejects (a : Attempt) (c : Connections Unit) : Prop :=
  c.stack = [] ∧ a.refused = none ∧
    (c.server.dead = true → c.server.lock = none ∧ c.server.restoration ≤ a.asked ∧
      TimePoint.wrap (a.asked + seconds cfg.restorationInterval) = c.server.restoration)

/-- Of the servers that are tried, some are passed by and then one rejects the command. -/
def Traceless : List UInt32 → ℕ → (UInt32 → Connections Unit) → Prop
  | [], _, _ => False
  | idx :: idxs, n, servers =>
    Rejects cfg (script n) (servers idx) ∨
      PassedBy (script n) (servers idx) ∧
        Traceless idxs (n + 1)
          (Function.update servers idx ((servers idx).passedBy (script n)))

variable {cfg capacity script} {ccfg : ClientConfig} {command : Command} {h404 : Bool}
  {code : ErrorCode} {msg : String} {idx : UInt32} {conts : ℕ} {s : Fleet}

@[simp] theorem Fleet.after_tried (c : Connections Unit) : (s.after idx c).tried = s.tried + 1 :=
  rfl

@[simp] theorem Fleet.after_servers (c : Connections Unit) :
    (s.after idx c).servers = Function.update s.servers idx c := rfl

theorem visible_passedBy (a : Attempt) (c : Connections Unit) :
    (c.passedBy a).visible = c.visible := by
  unfold Connections.passedBy
  split_ifs <;> rfl

theorem visible_after_iff {c : Connections Unit} :
    (∀ x, ((s.after idx c).servers x).visible = (s.servers x).visible) ↔
      c.visible = (s.servers idx).visible := by
  rw [Fleet.after_servers]
  constructor
  · intro h
    have hidx := h idx
    rwa [Function.update_self] at hidx
  · intro h x
    by_cases hx : x = idx
    · rw [hx, Function.update_self, h]
    · rw [Function.update_of_ne hx]

theorem not_rejects_of_passedBy {a : Attempt} {c : Connections Unit} (h : PassedBy a c) :
    ¬Rejects cfg a c := by
  rintro ⟨-, hrefused, hdead⟩
  unfold PassedBy at h
  split_ifs at h with hd
  · obtain ⟨hlock, hdue, -⟩ := hdead hd
    rcases h with h | h
    · exact absurd hdue (not_le.mpr h)
    · exact h hlock
  · obtain ⟨code, what, hfails⟩ := h.2.1
    exact nomatch hrefused.symm.trans hfails

theorem not_rejects_of_fails {a : Attempt} {c : Connections Unit} (h : a.Fails) :
    ¬Rejects cfg a c := by
  obtain ⟨code, what, hfails⟩ := h
  exact fun hrejects => nomatch hrejects.2.1.symm.trans hfails

theorem tryServer_uncallable {c : Connections Unit}
    (hcallable : (callable cfg : ProxyM Command Bool).exec
      (pooledSolo capacity (script s.tried).asking) (s.servers idx) = (false, c)) :
    tryServer (fleet cfg capacity script) ccfg command h404 idx conts s =
      (.next false, s.after idx c) := by
  simp only [tryServer, fleet, hcallable]

theorem tryServer_callable {c : Connections Unit}
    (hcallable : (callable cfg : ProxyM Command Bool).exec
      (pooledSolo capacity (script s.tried).asking) (s.servers idx) = (true, c))
    {result : Except Exn Response} {c' : Connections Unit}
    (hsend : (send cfg command).exec
      (pooledSolo capacity ((script s.tried).sending command)) c = (result, c'))
    (hresult : ∀ response, result = .ok response → response.code = .ioError) :
    tryServer (fleet cfg capacity script) ccfg command h404 idx conts s =
      (match result with
        | .error x => .back (.error x)
        | .ok _ => .next false, s.after idx c') := by
  have hself : (s.after idx c).servers idx = c := by simp
  have hset : (s.after idx c).set idx c' = s.after idx c' := by
    simp [Fleet.after, Fleet.set]
  simp only [tryServer, fleet, hcallable, Fleet.after_tried, Nat.add_sub_cancel, hself, hsend,
    hset]
  cases result with
  | error x => rfl
  | ok response => simp [hresult response rfl]

theorem sending_response (hser : command.serialize = .error (.mc code msg)) (a : Attempt) :
    (a.sending command).response = .error (.mc code msg) := by
  simp only [Attempt.sending, commandParserSend, hser]

theorem exec_send_rejected (hser : command.serialize = .error (.mc code msg)) {a : Attempt}
    {c : Connections Unit} (h : c.stack ≠ [] ∨ a.refused = none) :
    ∃ c', (send cfg command).exec (pooledSolo capacity (a.sending command)) c =
        (.error (.mc code msg), c') ∧
      c'.server = c.server ∧ (c'.stack = c.stack ↔ c.stack = []) := by
  have hresponse := sending_response hser a
  cases hstack : c.stack with
  | cons connection stack =>
    refine ⟨_, exec_send_picked cfg capacity _ hstack hresponse command, rfl, ?_⟩
    simp
  | nil =>
    have hrefused : a.refused = none := h.resolve_left (not_not.mpr hstack)
    have hconnection : (a.sending command).connection = .ok 0 := by
      simp only [Attempt.sending, hrefused]
    refine ⟨_, exec_send_connected cfg capacity _ hstack hconnection hresponse command, rfl, ?_⟩
    simp [hstack]

theorem exec_send_failed {a : Attempt} {c : Connections Unit} (hstack : c.stack = [])
    (hfails : a.Fails) : ∃ response c', response.code = .ioError ∧
      (send cfg command).exec (pooledSolo capacity (a.sending command)) c = (.ok response, c') ∧
      (c.server.lock ≠ none → c' = c.unlock) ∧
      (c.server.lock = none → c'.server.fails = c.server.fails + 1) := by
  obtain ⟨code, what, hwhat⟩ := hfails
  have hconnection : (a.sending command).connection = .error (.io code what) := by
    simp only [Attempt.sending, hwhat, Refusal.exn]
  obtain ⟨response, hcode, hsend⟩ := exec_send_refused cfg capacity _ hstack hconnection command
  refine ⟨response, _, hcode, hsend, fun hlock => if_pos hlock, fun hlock => ?_⟩
  rw [if_neg (not_not.mpr hlock)]
  split_ifs <;> rfl

/-- Where the resolver throws, nothing catches that. -/
theorem exec_send_unresolved {a : Attempt} {c : Connections Unit} (hstack : c.stack = [])
    {what : String} (hwhat : a.refused = some (.unresolved what)) :
    (send cfg command).exec (pooledSolo capacity (a.sending command)) c =
      (.error (.system what), c) := by
  have hconnection : (a.sending command).connection = .error (.system what) := by
    simp only [Attempt.sending, hwhat, Refusal.exn]
  obtain ⟨server, stack, opened, last⟩ := c
  obtain rfl : stack = [] := hstack
  simp [send, sendTry, perform, pooledSolo, pooledAtomic, hconnection]

/-- What comes of a command that is sent to a server, which `callable` left as `c`. -/
inductive Sent (x : Exn) (a : Attempt) (s : Fleet) (idx : UInt32) (c : Connections Unit) :
    Tried × Fleet → Prop
  | rejected (c' : Connections Unit) (hconnection : c.stack ≠ [] ∨ a.refused = none)
    (hserver : c'.server = c.server) (hstack : c'.stack = c.stack ↔ c.stack = []) :
    Sent x a s idx c (.back (.error x), s.after idx c')
  | refused (c' : Connections Unit) (hstack : c.stack = []) (hfails : a.Fails)
    (hheld : c.server.lock ≠ none → c' = c.unlock)
    (hfree : c.server.lock = none → c'.server.fails = c.server.fails + 1) :
    Sent x a s idx c (.next false, s.after idx c')
  | unresolved (what : String) (hwhat : a.refused = some (.unresolved what)) :
    Sent x a s idx c (.back (.error (.system what)), s.after idx c)

variable (ccfg h404 conts) in
theorem tryServer_sent (hser : command.serialize = .error (.mc code msg)) {c : Connections Unit}
    (hcallable : (callable cfg : ProxyM Command Bool).exec
      (pooledSolo capacity (script s.tried).asking) (s.servers idx) = (true, c)) :
    Sent (.mc code msg) (script s.tried) s idx c
      (tryServer (fleet cfg capacity script) ccfg command h404 idx conts s) := by
  by_cases hconnection : c.stack ≠ [] ∨ (script s.tried).refused = none
  · obtain ⟨c', hsend, hserver, hstack⟩ := exec_send_rejected hser hconnection
    rw [tryServer_callable hcallable hsend nofun]
    exact .rejected c' hconnection hserver hstack
  · obtain ⟨hempty, hrefused⟩ := not_or.mp hconnection
    have hempty : c.stack = [] := not_not.mp hempty
    obtain ⟨refusal, hrefusal⟩ := Option.ne_none_iff_exists'.mp hrefused
    cases refusal with
    | failed ioCode what =>
      have hfails : (script s.tried).Fails := ⟨ioCode, what, hrefusal⟩
      obtain ⟨response, c', hcode, hsend, hheld, hfree⟩ := exec_send_failed hempty hfails
      have hio : ∀ r, (Except.ok response : Except Exn Response) = .ok r → r.code = .ioError := by
        intro r hr
        rw [← Except.ok.inj hr, hcode]
      rw [tryServer_callable hcallable hsend hio]
      exact .refused c' hempty hfails hheld hfree
    | unresolved what =>
      rw [tryServer_callable hcallable (exec_send_unresolved hempty hrefusal) nofun]
      exact .unresolved what hrefusal

/-- What comes of a server that is tried: it is passed by, or it ends the loop with the rejection or
with what the resolver threw, or the loop goes on after a failure that was counted. -/
inductive Attempted (cfg : ServerProxyConfig) (x : Exn) (a : Attempt) (s : Fleet) (idx : UInt32) :
    Tried × Fleet → Prop
  | passed (hpassed : PassedBy a (s.servers idx)) :
    Attempted cfg x a s idx (.next false, s.after idx ((s.servers idx).passedBy a))
  | rejected (c : Connections Unit) (hnot : ¬PassedBy a (s.servers idx))
    (hfails : c.server.fails = (s.servers idx).server.fails)
    (hvisible : c.visible = (s.servers idx).visible ↔ Rejects cfg a (s.servers idx)) :
    Attempted cfg x a s idx (.back (.error x), s.after idx c)
  | counted (c : Connections Unit) (hnot : ¬PassedBy a (s.servers idx))
    (hrejects : ¬Rejects cfg a (s.servers idx))
    (hfails : c.server.fails = (s.servers idx).server.fails + 1) :
    Attempted cfg x a s idx (.next false, s.after idx c)
  | unresolved (what : String) (c : Connections Unit) (hnot : ¬PassedBy a (s.servers idx))
    (hrejects : ¬Rejects cfg a (s.servers idx))
    (hfails : c.server.fails = (s.servers idx).server.fails) :
    Attempted cfg x a s idx (.back (.error (.system what)), s.after idx c)

section Attempted

variable (cfg capacity script ccfg h404 idx conts s)

theorem tryServer_alive (hser : command.serialize = .error (.mc code msg))
    (hdead : ¬(s.servers idx).server.dead = true) :
    Attempted cfg (.mc code msg) (script s.tried) s idx
      (tryServer (fleet cfg capacity script) ccfg command h404 idx conts s) := by
  have hexec := exec_callable_pooled (κ := Command) cfg capacity (script s.tried).asking
    (s.servers idx)
  rw [if_pos (by simpa using hdead)] at hexec
  have hsent := tryServer_sent ccfg h404 conts hser hexec
  generalize tryServer _ _ _ _ _ _ _ = tried at hsent ⊢
  cases hsent with
  | rejected c hconnection hserver hstack =>
    have hnot : ¬PassedBy (script s.tried) (s.servers idx) := by
      rw [PassedBy, if_neg hdead]
      rintro ⟨hempty, ⟨ioCode, what, hfails⟩, -⟩
      exact nomatch (hconnection.resolve_left (not_not.mpr hempty)).symm.trans hfails
    refine .rejected c hnot (by rw [hserver]) ?_
    simp only [Connections.visible, hserver, Prod.mk.injEq, hstack, true_and]
    constructor
    · intro hempty
      exact ⟨hempty, hconnection.resolve_left (not_not.mpr hempty), fun h => absurd h hdead⟩
    · exact fun h => h.1
  | refused c hstack hfails hheld hfree =>
    by_cases hlock : (s.servers idx).server.lock = none
    · have hnot : ¬PassedBy (script s.tried) (s.servers idx) := by
        rw [PassedBy, if_neg hdead]
        exact fun h => h.2.2 hlock
      exact .counted c hnot (not_rejects_of_fails hfails) (hfree hlock)
    · have hpassed : (s.servers idx).passedBy (script s.tried) = (s.servers idx).unlock :=
        if_neg fun h => hdead h.1
      rw [hheld hlock, ← hpassed]
      refine .passed ?_
      rw [PassedBy, if_neg hdead]
      exact ⟨hstack, hfails, hlock⟩
  | unresolved what hwhat =>
    have hnot : ¬PassedBy (script s.tried) (s.servers idx) := by
      rw [PassedBy, if_neg hdead]
      rintro ⟨-, ⟨ioCode, what', hfails⟩, -⟩
      cases hwhat.symm.trans hfails
    exact .unresolved what _ hnot (fun h => nomatch h.2.1.symm.trans hwhat) rfl

/-- A server that is dead, and due, and whose lock is free: its restoration time is put off. -/
theorem tryServer_due (hser : command.serialize = .error (.mc code msg))
    (hdead : (s.servers idx).server.dead = true)
    (hdue : ¬(script s.tried).asked < (s.servers idx).server.restoration)
    (hlock : (s.servers idx).server.lock = none)
    (hexec : (callable cfg : ProxyM Command Bool).exec
      (pooledSolo capacity (script s.tried).asking) (s.servers idx) =
        (true, { s.servers idx with server := { (s.servers idx).server with
          restoration := .wrap ((script s.tried).asked + seconds cfg.restorationInterval) } })) :
    Attempted cfg (.mc code msg) (script s.tried) s idx
      (tryServer (fleet cfg capacity script) ccfg command h404 idx conts s) := by
  have hnot : ¬PassedBy (script s.tried) (s.servers idx) := by
    simp [PassedBy, hdead, hdue, hlock]
  have hsent := tryServer_sent ccfg h404 conts hser hexec
  generalize tryServer _ _ _ _ _ _ _ = tried at hsent ⊢
  cases hsent with
  | rejected c hconnection hserver hstack =>
    refine .rejected c hnot (by rw [hserver]) ?_
    simp only [Connections.visible, hserver, Prod.mk.injEq, hstack, true_and]
    constructor
    · rintro ⟨hrestoration, hempty⟩
      have hrefused := hconnection.resolve_left (not_not.mpr hempty)
      exact ⟨hempty, hrefused, fun _ => ⟨hlock, not_lt.mp hdue, hrestoration⟩⟩
    · rintro ⟨hempty, -, hrestoration⟩
      exact ⟨(hrestoration hdead).2.2, hempty⟩
  | refused c hstack hfails _ hfree =>
    exact .counted c hnot (not_rejects_of_fails hfails) (hfree hlock)
  | unresolved what hwhat =>
    exact .unresolved what _ hnot (fun h => nomatch h.2.1.symm.trans hwhat) rfl

/-- **One server** that is tried. -/
theorem tryServer_attempted (hser : command.serialize = .error (.mc code msg)) :
    Attempted cfg (.mc code msg) (script s.tried) s idx
      (tryServer (fleet cfg capacity script) ccfg command h404 idx conts s) := by
  by_cases hdead : (s.servers idx).server.dead = true
  · have hexec := exec_callable_pooled (κ := Command) cfg capacity (script s.tried).asking
      (s.servers idx)
    have hreading : (script s.tried).asking.reading = (script s.tried).asked := rfl
    rw [if_neg (by simp [hdead]), hreading] at hexec
    by_cases hdue : (script s.tried).asked < (s.servers idx).server.restoration
    · rw [if_pos hdue] at hexec
      have hpassed : (s.servers idx).passedBy (script s.tried) = s.servers idx :=
        if_pos ⟨hdead, hdue⟩
      have h : Attempted cfg (.mc code msg) (script s.tried) s idx
          (.next false, s.after idx ((s.servers idx).passedBy (script s.tried))) :=
        .passed (by simp [PassedBy, hdead, hdue])
      rw [hpassed] at h
      rwa [tryServer_uncallable hexec]
    · rw [if_neg hdue] at hexec
      by_cases hlock : (s.servers idx).server.lock = none
      · rw [if_neg (not_not.mpr hlock)] at hexec
        exact tryServer_due cfg capacity script ccfg h404 idx conts s hser hdead hdue hlock hexec
      · -- somebody else has the lock
        rw [if_pos hlock] at hexec
        have hpassed : (s.servers idx).passedBy (script s.tried) = (s.servers idx).unlock :=
          if_neg fun h => hdue h.2
        rw [tryServer_uncallable hexec, ← hpassed]
        exact .passed (by simp [PassedBy, hdead, hlock])
  · exact tryServer_alive cfg capacity script ccfg h404 idx conts s hser hdead

end Attempted

/-! ## All servers -/

theorem after_fails {c : Connections Unit} {n : ℕ}
    (h : c.server.fails = (s.servers idx).server.fails + UInt32.ofNat n) (x : UInt32) :
    ∃ m ≤ n, ((s.after idx c).servers x).server.fails =
      (s.servers x).server.fails + UInt32.ofNat m := by
  rw [Fleet.after_servers]
  by_cases hx : x = idx
  · subst hx
    exact ⟨n, le_rfl, by rw [Function.update_self, h]⟩
  · exact ⟨0, Nat.zero_le n, by simp [Function.update_of_ne hx]⟩

variable (cfg capacity script ccfg h404) in
theorem tryAll_fails (hser : command.serialize = .error (.mc code msg)) (idxs : List UInt32)
    (conts : ℕ) (oos : Bool) (s : Fleet) (x : UInt32) : ∃ n ≤ idxs.length,
      ((tryAll (fleet cfg capacity script) ccfg command h404 idxs conts oos s).2.servers
        x).server.fails = (s.servers x).server.fails + UInt32.ofNat n := by
  induction idxs generalizing conts oos s with
  | nil => exact ⟨0, le_rfl, by simp [tryAll]⟩
  | cons idx idxs ih =>
    have hgoes : ∀ c : Connections Unit, ∀ n ≤ 1,
        c.server.fails = (s.servers idx).server.fails + UInt32.ofNat n →
        ∀ oos, ∃ n ≤ idxs.length + 1,
          ((tryAll (fleet cfg capacity script) ccfg command h404 idxs (conts + 1) oos
            (s.after idx c)).2.servers x).server.fails =
            (s.servers x).server.fails + UInt32.ofNat n := by
      intro c n hn hc oos
      obtain ⟨m, hm, hx⟩ := after_fails hc x
      obtain ⟨k, hk, hrest⟩ := ih (conts + 1) oos (s.after idx c)
      refine ⟨m + k, by omega, ?_⟩
      rw [hrest, hx, UInt32.ofNat_add, UInt32.add_assoc]
    have hattempted := tryServer_attempted cfg capacity script ccfg h404 idx conts s hser
    rw [tryAll]
    generalize tryServer _ _ _ _ _ _ _ = tried at hattempted ⊢
    cases hattempted with
    | passed =>
      refine hgoes _ 0 (Nat.zero_le 1) ?_ _
      unfold Connections.passedBy
      split_ifs <;> simp [Connections.unlock]
    | rejected c _ hfails | unresolved _ c _ _ hfails =>
      have hzero : c.server.fails = (s.servers idx).server.fails + UInt32.ofNat 0 := by
        simp [hfails]
      obtain ⟨m, hm, hx⟩ := after_fails hzero x
      exact ⟨m, by omega, hx⟩
    | counted c _ _ hfails => exact hgoes c 1 le_rfl hfails _

theorem fails_add_ne {fails : UInt32} {n : ℕ} (hn : n + 1 < 2 ^ 32) :
    fails + 1 + UInt32.ofNat n ≠ fails := by
  intro h
  have hnat := congrArg UInt32.toNat h
  have hlt := fails.toNat_lt
  simp only [UInt32.toNat_add, UInt32.toNat_ofNat', UInt32.toNat_one] at hnat
  omega

/-- **The loop changes no server** and throws what serializing the command throws exactly when the
servers are traceless. -/
theorem tryAll_rejected_iff (hser : command.serialize = .error (.mc code msg))
    (idxs : List UInt32) (hlen : idxs.length < 2 ^ 32) (conts : ℕ) (oos : Bool) (s : Fleet) :
    let result := tryAll (fleet cfg capacity script) ccfg command h404 idxs conts oos s
    ((∃ msg, result.1 = .error (.mc code msg)) ∧
        ∀ x, (result.2.servers x).visible = (s.servers x).visible) ↔
      Traceless cfg script idxs s.tried s.servers := by
  induction idxs generalizing conts oos s with
  | nil =>
    refine iff_of_false ?_ id
    rintro ⟨⟨msg, hmsg⟩, -⟩
    cases oos <;> cases hmsg
  | cons idx idxs ih =>
    have hlen' : idxs.length < 2 ^ 32 := Nat.lt_of_succ_lt hlen
    intro result
    have hattempted := tryServer_attempted cfg capacity script ccfg h404 idx conts s hser
    have hresult : result = tryAll (fleet cfg capacity script) ccfg command h404 (idx :: idxs) conts
      oos s := rfl
    rw [tryAll] at hresult
    generalize tryServer _ _ _ _ _ _ _ = tried at hattempted hresult
    cases hattempted with
    | passed hpassed =>
      -- the rest of the servers decides
      have hrest := ih hlen' (conts + 1) (oos && !false)
        (s.after idx ((s.servers idx).passedBy (script s.tried)))
      simp only [visible_after_iff.mpr (visible_passedBy _ _)] at hrest
      rw [hresult, hrest, Traceless]
      simp [not_rejects_of_passedBy hpassed, hpassed]
    | rejected c hnot _ hvisible =>
      rw [hresult, visible_after_iff, Traceless, ← hvisible]
      simp [hnot]
    | counted c hnot hrejects hfails =>
      -- the failure is not forgotten
      refine iff_of_false ?_ ?_
      · rintro ⟨-, hsame⟩
        obtain ⟨n, hn, hcount⟩ := tryAll_fails cfg capacity script ccfg h404 hser idxs (conts + 1)
          (oos && !false) (s.after idx c) idx
        have hidx := congrArg (fun v => v.2.1) (hsame idx)
        rw [hresult] at hidx
        simp only [Connections.visible, hcount, Fleet.after_servers, Function.update_self,
          hfails] at hidx
        exact fails_add_ne (by simp at hlen; omega) hidx
      · rw [Traceless]
        exact not_or.mpr ⟨hrejects, fun h => hnot h.1⟩
    | unresolved what c hnot hrejects _ =>
      refine iff_of_false ?_ ?_
      · rintro ⟨⟨msg', hmsg⟩, -⟩
        rw [hresult] at hmsg
        cases hmsg
      · rw [Traceless]
        exact not_or.mpr ⟨hrejects, fun h => hnot h.1⟩

end Fleet

/-! ## Rejected commands -/

theorem checkKey_error {key : Bytes} (h : checkKey key ≠ .ok ()) :
    ∃ msg, checkKey key = .error (.mc .badArgument msg) := by
  unfold checkKey at h ⊢
  split_ifs at h ⊢
  · exact ⟨_, rfl⟩
  · exact ⟨_, rfl⟩
  · exact absurd rfl h

theorem Api.serialize_error {api : Api} {zlib : Zlib} {request : Request} {command : Command}
    (hcommand : api.command zlib request = .ok command) {key : Bytes}
    (hkey : request.key = some key) {x : Exn} (hbad : checkKey key = .error x) :
    command.key = key ∧ command.serialize = .error x := by
  have htext : ∀ bytes, Text.keyed key bytes = .error x := fun bytes => by
    rw [Text.keyed, hbad]
    rfl
  have hbinary : ∀ hdr extras data, Binary.keyed hdr extras key data = .error x :=
    fun hdr extras data => by
      rw [Binary.keyed, hbad]
      rfl
  cases request with
  | flushAll expiration => cases hkey
  | storage name key data opts =>
    obtain rfl := Option.some.inj hkey
    cases hpacked : packed zlib data opts with
    | error y => cases api <;> simp [Api.command, Text.command, Binary.command, hpacked] at hcommand
    | ok value =>
      cases api <;>
        simp [Api.command, Text.command, Binary.command, hpacked] at hcommand
      · rw [← hcommand]
        exact ⟨rfl, htext _⟩
      · rw [← hcommand]
        exact ⟨rfl, hbinary _ _ _⟩
  | counter name key value opts =>
    obtain rfl := Option.some.inj hkey
    cases api with
    | text =>
      simp only [Api.command, Text.command] at hcommand
      split_ifs at hcommand
      rw [← Except.ok.inj hcommand]
      exact ⟨rfl, htext _⟩
    | binary =>
      rw [← Except.ok.inj hcommand]
      exact ⟨rfl, hbinary _ _ _⟩
  | retrieve name key | touch key expiration | delete key =>
    obtain rfl := Option.some.inj hkey
    cases api <;> rw [← Except.ok.inj hcommand]
    · exact ⟨rfl, htext _⟩
    · exact ⟨rfl, hbinary _ _ _⟩

/-- **A rejected key** makes `run` throw `bad_argument` and changes no server exactly when the
servers that are tried are traceless. -/
theorem rejected_iff {hashf : HashFunction} {pcfg : PoolConfig} {addresses : Addresses}
    {pool : Pool} (hpool : consistentHashingPool hashf pcfg addresses = .ok pool)
    (cfg : ServerProxyConfig) (capacity : ℕ) (script : ℕ → Attempt) (ccfg : ClientConfig)
    (h404 : Bool) {api : Api} {zlib : Zlib} {request : Request} {command : Command}
    (hcommand : api.command zlib request = .ok command) {key : Bytes}
    (hkey : request.key = some key) (hbad : checkKey key ≠ .ok ())
    (servers : UInt32 → Connections Unit) :
    let result := run (fleet cfg capacity script) ccfg command h404 pool command.key { servers }
    ((∃ msg, result.1 = .error (.mc .badArgument msg)) ∧
        ∀ idx, (result.2.servers idx).visible = (servers idx).visible) ↔
      Traceless cfg script
        (((pool.choose key).walk.destutter (· ≠ ·)).take ccfg.maxContinues.toNat) 0 servers := by
  obtain ⟨msg, hmsg⟩ := checkKey_error hbad
  obtain ⟨hcommandKey, hser⟩ := Api.serialize_error hcommand hkey hmsg
  have hlen : (((pool.choose key).walk.destutter (· ≠ ·)).take ccfg.maxContinues.toNat).length <
      2 ^ 32 := by
    rw [List.length_take]
    have := ccfg.maxContinues.toNat_lt
    omega
  rw [hcommandKey, run_eq _ _ _ _ (sentinel_not_mem_walk hpool key)]
  exact tryAll_rejected_iff hser _ hlen 0 true { servers }

/-! ## A connection is lost -/

/-- Every server is alive, with one connection in its pool. -/
def pooledServers (_ : UInt32) : Connections Unit where
  server := { restoration := .min, dead := false, fails := 0 }
  stack := [0]
  opened := 1

/-- The key is a space. -/
def spaceCommand : Command := Text.retrieveCommand .plain (ascii "get") (ascii " ")

theorem walk_space : (threePool.choose (ascii " ")).walk = [2, 2, 0, 1, 0, 1, 2, 2] := by
  decide

/-- Server 2 throws, and the connection is not pushed back. -/
theorem not_rejected_pooledServers :
    consistentHashingPool byteSum ⟨2⟩ threeServers = .ok threePool ∧
      checkKey (ascii " ") ≠ .ok () ∧
      ¬ ((∃ msg, (run (fleet {} 30 fun _ => {}) {} spaceCommand false threePool (ascii " ")
          { servers := pooledServers }).1 = .error (.mc .badArgument msg)) ∧
        ∀ idx, ((run (fleet {} 30 fun _ => {}) {} spaceCommand false threePool (ascii " ")
          { servers := pooledServers }).2.servers idx).visible = (pooledServers idx).visible) := by
  refine ⟨rfl, by decide, ?_⟩
  rw [run_eq _ _ _ _ (by rw [walk_space]; decide), walk_space]
  rintro ⟨-, hsame⟩
  have hstack : ([] : List ℕ) = [0] := congrArg (fun v => v.2.2.2) (hsame 2)
  cases hstack

theorem rejected_iff_pooledServers :
    ((∃ msg, (run (fleet {} 30 fun _ => {}) {} spaceCommand false threePool (ascii " ")
        { servers := pooledServers }).1 = .error (.mc .badArgument msg)) ∧
      ∀ idx, ((run (fleet {} 30 fun _ => {}) {} spaceCommand false threePool (ascii " ")
        { servers := pooledServers }).2.servers idx).visible = (pooledServers idx).visible) ↔
      Traceless {} (fun _ => {}) (((threePool.choose (ascii " ")).walk.destutter (· ≠ ·)).take 3) 0
        pooledServers :=
  rejected_iff consistentHashingPool_threeServers {} 30 (fun _ => {}) {} false
    (show Api.text.command .plain (.retrieve .get (ascii " ")) = .ok spaceCommand from rfl) rfl
    (by decide) pooledServers

end McacheClient
