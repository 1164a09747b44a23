import McacheClient.Client.Concurrent

/-!
# Counters under concurrency

What is left of increments that threads send to a server over pooled connections.

* `Sends`: the commands that a program of a proxy may send;
* `OnlyIncrements`, `ServerTask.increment`: tasks that leave a counter alone or increment it;
* `Memcached.Counts`: the number of a counter;
* `Counted`: the counter is the sum of the increments that took effect;
* **`increments_counted`**: so it is after every run of any number of threads.
-/

namespace McacheClient

/-! ## The commands of a program -/

section Sends

variable {κ α β : Type} {P : κ → Prop}

/-- Every command that the program sends has the property. -/
def Sends (P : κ → Prop) (p : ProxyM κ α) : Prop :=
  p.Follows (fun (_ : Unit) o => ∀ connection command, o = .exchange connection command → P command)
    (fun _ _ _ => ()) (fun _ _ => True) ()

theorem sends_pure (a : α) : Sends P (pure a : ProxyM κ α) := trivial

theorem Sends.bind {p : ProxyM κ α} {f : α → ProxyM κ β} (hp : Sends P p)
    (hf : ∀ a, Sends P (f a)) : Sends P (p >>= f) :=
  Program.follows_bind.mpr (Program.Follows.mono hp fun _ a _ => hf a)

theorem sends_perform {o : ProxyOp κ}
    (ho : ∀ connection command, o ≠ .exchange connection command) :
    Sends P (perform o) :=
  ⟨fun connection command h => absurd h (ho connection command), fun _ => trivial⟩

theorem sends_exchange {command : κ} (h : P command) (connection : ℕ) :
    Sends P (perform (.exchange connection command)) := by
  refine ⟨fun _ _ heq => ?_, fun _ => trivial⟩
  cases heq
  exact h

theorem Sends.scopeGuard {f : Bool → ProxyM κ α} (hf : ∀ b, Sends P (f b)) :
    Sends P (scopeGuard fun tryLock => tryLock >>= f) := by
  refine ((sends_perform (by simp)).bind hf).bind fun a => ?_
  exact (sends_perform (by simp)).bind fun _ => sends_pure a

theorem sends_callable (cfg : ServerProxyConfig) : Sends P (callable cfg : ProxyM κ Bool) := by
  unfold callable
  refine (sends_perform (by simp)).bind fun dead => ?_
  split_ifs
  · exact sends_pure true
  refine (sends_perform (by simp)).bind fun now => ?_
  refine (sends_perform (by simp)).bind fun restoration => ?_
  split_ifs
  · exact sends_pure false
  refine Sends.scopeGuard fun locked => ?_
  split_ifs
  · exact sends_pure false
  · exact (sends_perform (by simp)).bind fun _ => sends_pure true

theorem sends_sendTry {command : κ} (h : P command) : Sends P (sendTry command) := by
  unfold sendTry
  refine (sends_perform (by simp)).bind fun connection => ?_
  split
  · exact sends_pure _
  refine (sends_exchange h _).bind fun response => ?_
  split
  · exact sends_pure _
  refine (sends_perform (by simp)).bind fun _ => ?_
  refine (sends_perform (by simp)).bind fun _ => ?_
  split_ifs
  · exact (sends_perform (by simp)).bind fun _ => sends_pure _
  · exact sends_pure _

theorem sends_send (cfg : ServerProxyConfig) {command : κ} (h : P command) :
    Sends P (send cfg command) := by
  unfold send
  refine (sends_sendTry h).bind fun result => ?_
  split
  · refine Sends.scopeGuard fun locked => ?_
    split_ifs
    · refine (sends_perform (by simp)).bind fun fails => ?_
      split_ifs
      · refine (sends_perform (by simp)).bind fun now => ?_
        refine (sends_perform (by simp)).bind fun _ => ?_
        refine (sends_perform (by simp)).bind fun _ => ?_
        exact (sends_perform (by simp)).bind fun _ => sends_pure _
      · exact sends_pure _
    · exact sends_pure _
  · exact sends_pure _

theorem sends_callAll (cfg : ServerProxyConfig) {calls : List (ServerCall κ)}
    (h : ∀ command, .send command ∈ calls → P command) : Sends P (callAll cfg calls) := by
  induction calls with
  | nil => exact sends_pure ()
  | cons call calls ih =>
    have hcalls := ih fun command hc => h command (List.mem_cons_of_mem call hc)
    cases call with
    | callable => exact (sends_callable cfg).bind fun _ => hcalls
    | send command => exact (sends_send cfg (h command List.mem_cons_self)).bind fun _ => hcalls

end Sends

section Invoked

variable {τ : Type} [DecidableEq τ] {api : Api} {zlib : Zlib} {capacity : ℕ}
  {P : WireRequest api zlib → Prop}

/-- What was invoked and what threads still send has a property. -/
structure Invokes (P : WireRequest api zlib → Prop) (s : Traffic τ api zlib) : Prop where
  left : ∀ t, Sends P (s.threads.left t)
  invoked : ∀ i ∈ s.history.invoked, P i.call

variable {s s' : Traffic τ api zlib} {t : τ}

theorem sends_step {κ : Type} {P : κ → Prop} {threads threads' : PoolThreads τ κ Unit} {e : Choice}
    (hs : ∀ u, Sends P (threads.left u)) (h : poolStep capacity threads (t, e) = some threads')
    (u : τ) : Sends P (threads'.left u) := by
  obtain ⟨o, next, r, hleft, -, hl, -⟩ := Threads.step_eq_some h
  rw [hl]
  by_cases hu : u = t
  · subst hu
    have hsends := hs u
    rw [hleft] at hsends
    rw [Function.update_self]
    exact hsends.2 r
  · rw [Function.update_of_ne hu]
    exact hs u

/-- **Every step** invokes what its thread sends. -/
theorem Invokes.step (hs : Invokes P s) {event : Traffic.Event τ}
    (h : s.step capacity event = some s') : Invokes P s' := by
  cases event with
  | op t e =>
    obtain ⟨threads, -, hstep, rfl⟩ := Traffic.op_eq_some h
    exact ⟨sends_step hs.left hstep, hs.invoked⟩
  | write t heard =>
    obtain ⟨c, w, bytes, hexchange, -, -, rfl⟩ := Traffic.write_eq_some h
    refine ⟨hs.left, fun i hi => ?_⟩
    rcases List.mem_append.mp hi with hi | hi
    · exact hs.invoked i hi
    · obtain ⟨next, hleft⟩ := Traffic.exchange?_eq_some hexchange
      have hsends := hs.left t
      rw [hleft] at hsends
      rw [List.mem_singleton.mp hi]
      exact hsends.1 c w rfl
  | read t failure =>
    obtain ⟨c, w, n, result, connection, threads, -, -, -, hstep, rfl⟩ := Traffic.read_eq_some h
    exact ⟨sends_step hs.left hstep, hs.invoked⟩
  | serve c now =>
    obtain ⟨n, bytes, i, -, -, rfl⟩ := Traffic.serve_eq_some h
    exact ⟨hs.left, hs.invoked⟩

end Invoked

/-! ## A counter on a server -/

/-- The task increments the counter or has nothing to do with it. -/
def OnlyIncrements (key : Bytes) : ServerTask → Prop
  | .count .incr .. => True
  | .count .decr other .. => other ≠ key
  | .item served => served.key ≠ key
  | .flush => False

/-- By how much a task increments the counter. -/
def ServerTask.increment (key : Bytes) : ServerTask → ℕ
  | .count .incr other delta _ => if other = key then delta else 0
  | _ => 0

/-- The counter has a value, and does not expire. -/
def Memcached.Counts (key : Bytes) (n : ℕ) (server : Memcached) : Prop :=
  ∃ item, server.items key = some item ∧ item.deadline = none ∧ number item.data = some n

section Counts

variable {key other : Bytes} {now : ℤ} {server : Memcached} {n : ℕ}

theorem items_execute {served : ServerCommand} (hne : served.key ≠ key) :
    (execute now served server).2.items key = server.items key := by
  have hput : ∀ data flags deadline,
      (server.put served.key data flags deadline).2.items key = server.items key :=
    fun data flags deadline => Function.update_of_ne hne.symm _ _
  cases served with
  | retrieve other => rw [execute_retrieve]
  | storage name other flags expiration data cas =>
    unfold execute
    simp only [ServerCommand.key] at hput ⊢
    split
    case h_4 =>
      split_ifs
      · exact hput _ _ _
      · rfl
    case h_5 | h_8 => rfl
    all_goals exact hput _ _ _
  | touch other expiration | delete other =>
    unfold execute
    simp only [ServerCommand.key] at hne ⊢
    cases server.find now other with
    | none => rfl
    | some item => exact Function.update_of_ne hne.symm _ _

theorem items_count {name : CounterName} {delta : ℕ} {initial : Option (ℕ × ℤ)}
    (hne : other ≠ key) :
    (server.count now name other delta initial).2.items key = server.items key := by
  have hput : ∀ data flags deadline,
      (server.put other data flags deadline).2.items key = server.items key :=
    fun data flags deadline => Function.update_of_ne hne.symm _ _
  unfold Memcached.count
  split
  · rfl
  · exact hput _ _ _
  · split
    · rfl
    · exact hput _ _ _

/-- **An increment** of the counter. -/
theorem Memcached.Counts.incr (h : server.Counts key n) (now : ℤ) (delta : ℕ)
    (initial : Option (ℕ × ℤ)) :
    (server.count now .incr key delta initial).1 = .number ((n + delta) % 2 ^ 64) ∧
      (server.count now .incr key delta initial).2.Counts key ((n + delta) % 2 ^ 64) := by
  obtain ⟨item, hitem, hdeadline, hnumber⟩ := h
  have hfind : server.find now key = some item := by
    rw [Memcached.find, hitem, Option.filter_some, hdeadline]
    rfl
  have hlt : (n + delta) % 2 ^ 64 < 2 ^ 64 := Nat.mod_lt _ (by decide)
  have hcount : server.count now .incr key delta initial = (.number ((n + delta) % 2 ^ 64),
      (server.put key (padded item.data.length ((n + delta) % 2 ^ 64)) item.flags
        item.deadline).2) := by
    simp only [Memcached.count, hfind, hnumber, CounterName.count]
  rw [hcount]
  exact ⟨rfl, _, Function.update_self _ _ _, hdeadline, number_padded _ hlt⟩

/-- **A task** that only increments the counter. -/
theorem Memcached.Counts.task (h : server.Counts key n) (hn : n < 2 ^ 64) {task : ServerTask}
    (htask : OnlyIncrements key task) :
    (executeTask now task server).2.Counts key ((n + task.increment key) % 2 ^ 64) := by
  have hsame : ∀ server' : Memcached, server'.items key = server.items key →
      server'.Counts key ((n + 0) % 2 ^ 64) := fun server' hitems => by
    obtain ⟨item, hitem, hrest⟩ := h
    rw [Nat.add_zero, Nat.mod_eq_of_lt hn]
    exact ⟨item, hitems.trans hitem, hrest⟩
  cases task with
  | item served => exact hsame _ (items_execute htask)
  | flush => exact absurd htask id
  | count name other delta initial =>
    cases name with
    | decr => exact hsame _ (items_count htask)
    | incr =>
      by_cases hother : other = key
      · subst hother
        rw [ServerTask.increment, if_pos rfl]
        exact (h.incr now delta initial).2
      · rw [ServerTask.increment, if_neg hother]
        exact hsame _ (items_count hother)

end Counts

/-! ## After a run -/

/-- The operations that took effect on a server. -/
abbrev ServerLog : Type := List (Execution (ℤ × ServerTask) TaskAnswer)

/-- The sum of the increments. -/
def ServerLog.total (key : Bytes) (log : ServerLog) : ℕ :=
  (log.map fun x => x.op.2.increment key).sum

section Explained

variable {api : Api} {zlib : Zlib} {key : Bytes} {n : ℕ} {log : ServerLog}
  {server server' : Memcached}

/-- **Operations one after the other** add up, and an increment is answered with the sum so far. -/
theorem counts_of_explains (h : server.Counts key n) (hn : n < 2 ^ 64)
    (hlog : ∀ x ∈ log, OnlyIncrements key x.op.2)
    (hexplains : CallHistory.Explains (memcachedService api zlib).step log server server') :
    server'.Counts key ((n + log.total key) % 2 ^ 64) ∧
      ∀ (k : ℕ) x, log[k]? = some x → ∀ delta initial, x.op.2 = .count .incr key delta initial →
        x.answer = .number ((n + ServerLog.total key (log.take (k + 1))) % 2 ^ 64) := by
  induction log generalizing server n with
  | nil =>
    obtain rfl := show server = server' from hexplains
    refine ⟨?_, fun k x hx => nomatch hx⟩
    rw [ServerLog.total, List.map_nil, List.sum_nil, Nat.add_zero, Nat.mod_eq_of_lt hn]
    exact h
  | cons y log ih =>
    obtain ⟨hanswer, hrest⟩ := hexplains
    have hy : OnlyIncrements key y.op.2 := hlog y List.mem_cons_self
    have hstep : ((memcachedService api zlib).step y.op server).2.Counts key
        ((n + y.op.2.increment key) % 2 ^ 64) := h.task hn hy
    obtain ⟨htotal, hanswers⟩ := ih hstep (Nat.mod_lt _ (by decide))
      (fun x hx => hlog x (List.mem_cons_of_mem y hx)) hrest
    have hsum : ∀ m, ((n + y.op.2.increment key) % 2 ^ 64 + m) % 2 ^ 64 =
        (n + (y.op.2.increment key + m)) % 2 ^ 64 := fun m => by
      rw [Nat.mod_add_mod, Nat.add_assoc]
    refine ⟨?_, fun k x hx delta initial htask => ?_⟩
    · rw [hsum] at htotal
      rwa [ServerLog.total, List.map_cons, List.sum_cons]
    · cases k with
      | zero =>
        obtain rfl := Option.some.inj hx
        have hincr := (h.incr y.op.1 delta initial).1
        have htake : ServerLog.total key (List.take (0 + 1) (y :: log)) = delta := by
          simp [ServerLog.total, htask, ServerTask.increment]
        rw [htake, hanswer, ← hincr]
        simp only [memcachedService, htask, executeTask]
      | succ k =>
        have hx : log[k]? = some x := hx
        rw [hanswers k x hx delta initial htask, hsum, List.take_succ_cons, ServerLog.total,
          ServerLog.total, List.map_cons, List.sum_cons]

end Explained

section Counted

variable {τ : Type} {api : Api} {zlib : Zlib} {key : Bytes} {n : ℕ}

/-- **No increment is lost or made twice**: the counter is the sum of the increments that took
effect, each of them once; those of exchanges that did not fail are among them, and got the sum up
to their own. -/
structure Counted (key : Bytes) (n : ℕ) (h : Exchanges τ api zlib) (server : Memcached) : Prop where
  total : server.Counts key ((n + ServerLog.total key h.log) % 2 ^ 64)
  once : (h.log.map Execution.ticket).Nodup
  asked : ∀ x ∈ h.log, ∃ i, h.invoked[x.ticket]? = some i ∧ x.op.2 = i.call.task
  returned : ∀ r ∈ h.returned, (∃ e, r.result = .error e ∧ IsIoError e) ∨
    ∃ i, ∃ k : ℕ, ∃ x, h.invoked[r.ticket]? = some i ∧ h.log[k]? = some x ∧ x.ticket = r.ticket ∧
      ∀ delta initial, i.call.task = .count .incr key delta initial →
        let total := (n + ServerLog.total key (h.log.take (k + 1))) % 2 ^ 64
        r.result = .ok { code := .ok, data := Numeral.decimal total }

theorem counted_of_linearizable {h : Exchanges τ api zlib} {server server' : Memcached}
    (hh : h.Linearizable (memcachedService api zlib) server server')
    (hinvoked : ∀ i ∈ h.invoked, OnlyIncrements key i.call.task) (hcounts : server.Counts key n)
    (hn : n < 2 ^ 64) : Counted key n h server' := by
  have hasked : ∀ x ∈ h.log, ∃ i, h.invoked[x.ticket]? = some i ∧ x.op.2 = i.call.task := by
    intro x hx
    obtain ⟨k, hk⟩ := List.mem_iff_getElem?.mp hx
    obtain ⟨i, hi, -, htask⟩ := hh.asked k x hk
    exact ⟨i, hi, htask⟩
  have hlog : ∀ x ∈ h.log, OnlyIncrements key x.op.2 := by
    intro x hx
    obtain ⟨i, hi, htask⟩ := hasked x hx
    rw [htask]
    exact hinvoked i (List.mem_of_getElem? hi)
  obtain ⟨htotal, hanswers⟩ := counts_of_explains hcounts hn hlog hh.explains
  refine ⟨htotal, hh.once, hasked, fun r hr => ?_⟩
  refine (hh.returned r hr).imp_right ?_
  rintro ⟨call, k, answer, -, heffect, hshows⟩
  obtain ⟨i, hi, -, rfl, -⟩ := heffect.invocation
  obtain ⟨x, hx, hticket, rfl⟩ := heffect.execution
  refine ⟨i, k, x, hi, hx, hticket, fun delta initial htask => ?_⟩
  obtain ⟨j, hj, hop⟩ := hasked x (List.mem_of_getElem? hx)
  rw [hticket] at hj
  obtain rfl := Option.some.inj (hi.symm.trans hj)
  have hanswer := hanswers k x hx delta initial (hop.trans htask)
  have hshows : ShowsTask api zlib i.call.request.unique x.answer r.result := hshows
  rw [hanswer] at hshows
  exact hshows

theorem Counted.all {h : Exchanges τ api zlib} {server : Memcached} (hc : Counted key n h server)
    (hall : ∀ j < h.invoked.length, ∃ r ∈ h.returned, r.ticket = j ∧
      ∀ e, r.result = .error e → ¬IsIoError e) :
    server.Counts key
      ((n + (h.invoked.map fun i => i.call.task.increment key).sum) % 2 ^ 64) := by
  let increment (j : ℕ) : ℕ := (h.invoked[j]?.map fun i => i.call.task.increment key).getD 0
  have hperm : (h.log.map Execution.ticket).Perm (List.range h.invoked.length) := by
    refine (List.perm_ext_iff_of_nodup hc.once List.nodup_range).mpr fun j => ?_
    rw [List.mem_range]
    constructor
    · intro hj
      obtain ⟨x, hx, rfl⟩ := List.mem_map.mp hj
      obtain ⟨i, hi, -⟩ := hc.asked x hx
      exact (List.getElem?_eq_some_iff.mp hi).1
    · intro hj
      obtain ⟨r, hr, rfl, hok⟩ := hall j hj
      rcases hc.returned r hr with ⟨e, he, hio⟩ | ⟨i, k, x, -, hx, hticket, -⟩
      · exact absurd hio (hok e he)
      · exact List.mem_map.mpr ⟨x, List.mem_of_getElem? hx, hticket⟩
  have hlog : h.log.map (fun x => x.op.2.increment key) =
      (h.log.map Execution.ticket).map increment := by
    rw [List.map_map]
    refine List.map_congr_left fun x hx => ?_
    obtain ⟨i, hi, htask⟩ := hc.asked x hx
    simp only [Function.comp_apply, increment, hi, htask, Option.map_some, Option.getD_some]
  have hinvoked : (List.range h.invoked.length).map increment =
      h.invoked.map fun i => i.call.task.increment key := by
    refine List.ext_getElem (by simp) fun j hj hj' => ?_
    have hlt : j < h.invoked.length := by simpa using hj
    simp [increment, hlt]
  have htotal := hc.total
  rwa [ServerLog.total, hlog, (hperm.map increment).sum_eq, hinvoked] at htotal

/-- **No increment is lost or made twice**, by any number of threads over pooled connections, in
either protocol, and when no exchange fails, the counter is the sum of all. The counter exists and
does not expire, the requests are such as `WireRequest` says, and the values on the server have less
than 4 GiB. -/
theorem increments_counted {τ : Type} [DecidableEq τ] {capacity : ℕ} (cfg : ServerProxyConfig)
    (shared : Shared τ) (first : Memcached) (calls : τ → List (ServerCall (WireRequest api zlib)))
    {events : List (Traffic.Event τ)} {s : Traffic τ api zlib}
    (hrun : Run.exec (Traffic.step capacity) (Traffic.start cfg shared first calls) events = some s)
    (hfits : Run.Along (Traffic.step capacity) (fun s _ _ => s.server.Fits)
      (Traffic.start cfg shared first calls) events)
    (hcalls : ∀ t w, .send w ∈ calls t → OnlyIncrements key w.task)
    (hcounts : first.Counts key n) (hn : n < 2 ^ 64) :
    Counted key n s.history s.server ∧
      ((∀ j < s.history.invoked.length, ∃ r ∈ s.history.returned, r.ticket = j ∧
          ∀ e, r.result = .error e → ¬IsIoError e) →
        s.server.Counts key
          ((n + (s.history.invoked.map fun i => i.call.task.increment key).sum) % 2 ^ 64)) := by
  have hs : Sound capacity first s := Run.invariant _
    (fun _ _ _ hs h hfits => hs.step h hfits) (sound_start cfg shared first calls) hrun hfits
  have hstart : Invokes (fun w : WireRequest api zlib => OnlyIncrements key w.task)
      (Traffic.start cfg shared first calls) :=
    ⟨fun t => sends_callAll cfg (hcalls t), fun i hi => absurd hi List.not_mem_nil⟩
  have hinvokes := Run.invariant_exec _ (fun _ _ _ hs h => hs.step h) hstart hrun
  have hcounted := counted_of_linearizable hs.linear hinvokes.invoked hcounts hn
  exact ⟨hcounted, hcounted.all⟩

end Counted

/-! ### Two increments -/

/-- A server with a counter. -/
def fiveServer : Memcached :=
  (emptyServer.put (ascii "k") (ascii "5") 0 none).2

def countingTwice (_ : Bool) : List (ServerCall (WireRequest .text .plain)) := [.send incrRequest]

/-- Both increments are on the way when the server reads the second one. -/
def twoIncrements : List (Traffic.Event Bool) :=
  [.op false {}, .op true {}, .write false true, .write true true, .serve 1 0, .serve 0 0,
    .read false none, .read true none]

theorem fits_fiveServer : fiveServer.Fits := fits_emptyServer.put (by decide)

theorem fits_twoIncrements : Run.Along (Traffic.step 2) (fun s _ _ => s.server.Fits)
    (Traffic.start {} deadServer fiveServer countingTwice) twoIncrements := by
  iterate 5
    rintro _ ⟨⟩
    refine ⟨fits_fiveServer, ?_⟩
  rintro _ ⟨⟩
  refine ⟨fits_fiveServer.put (by decide), ?_⟩
  iterate 2
    rintro _ ⟨⟩
    refine ⟨(fits_fiveServer.put (by decide)).put (by decide), ?_⟩
  trivial

theorem increments_counted_two : ∃ s : Traffic Bool .text .plain,
    Run.exec (Traffic.step 2) (Traffic.start {} deadServer fiveServer countingTwice)
      twoIncrements = some s ∧
    (s.server.items (ascii "k")).map StoredItem.data = some (ascii "7") ∧
      Counted (ascii "k") 5 s.history s.server :=
  ⟨_, rfl, rfl, (increments_counted {} deadServer fiveServer countingTwice
    (show Run.exec (Traffic.step 2) _ twoIncrements = _ from rfl) fits_twoIncrements
    (fun _ w hw => by
      cases List.mem_singleton.mp hw
      trivial)
    ⟨_, rfl, rfl, rfl⟩ (by decide)).1⟩

end McacheClient
