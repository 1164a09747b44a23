import McacheClient.Server.Complete

/-!
# A command to all servers

`run_all` sends a command to every server in order, dead or not, and `flush_all` makes one result of
the responses.

* `runAll`, `describe`, `flushAll`: the two functions, and the loop over the responses;
* `describe_eq`: the texts of the failures, between commas;
* `connected`: the proxies of servers that execute every command;
* `send_perform`: the exchange with one of them;
* `flushed`, `failure?`: what is left on the servers, and what is reported of one;
* **`flushAll_connected`**: `flush_all` succeeds exactly when every server was flushed; it tells
  which ones were not, and those are as they were.
-/

namespace McacheClient

section RunAll

variable {σ κ : Type} (proxies : ServerProxies σ κ) (command : κ)

/-- `client_template_t::run_all` over a list of servers; what `send` throws ends it. -/
def runAll : List UInt32 → σ → Except Exn (List Response) × σ
  | [], s => (.ok [], s)
  | idx :: idxs, s =>
    match proxies.callable idx s with
    | (true, s) =>
      match proxies.send idx command s with
      | (.error e, s) => (.error e, s)
      | (.ok response, s) =>
        let (responses, s) := runAll idxs s
        (responses.map (response :: ·), s)
    | (false, s) =>
      -- a fake response stands for that of a dead server
      let (responses, s) := runAll idxs s
      (responses.map ({ code := .error, data := ascii "dead" } :: ·), s)

end RunAll

/-- The loop of `flush_all` over the responses. -/
def describe : List Response → UInt32 → Bytes → UInt32 × Bytes
  | [], errs, descs => (errs, descs)
  | response :: responses, errs, descs =>
    if response.code ≠ .ok then
      let descs := if descs ≠ [] then descs ++ ascii ", " else descs
      describe responses (errs + 1) (descs ++ (ascii "<" ++ response.data ++ ascii ">"))
    else describe responses errs descs

/-- The servers of a client. -/
def indices (count : ℕ) : List UInt32 := (List.range count).map UInt32.ofNat

/-- `client_template_t::flush_all` of a client with `count` servers. -/
def flushAll {σ : Type} (proxies : ServerProxies σ Command) (api : Api) (zlib : Zlib) (count : ℕ)
    (expiration : UInt32) (s : σ) : Except Exn Result × σ :=
  match api.command zlib (.flushAll expiration) with
  | .error e => (.error e, s)
  | .ok command =>
    match runAll proxies command (indices count) s with
    | (.error e, s) => (.error e, s)
    | (.ok responses, s) =>
      let (errs, descs) := describe responses 0 []
      (.ok { found := errs = 0, data := descs }, s)

/-! ## What is reported -/

/-- The text of a response that is a failure. -/
def Response.failure? (response : Response) : Option Bytes :=
  if response.code = .ok then none else some response.data

/-- Texts in angle brackets, between commas. -/
def listed (texts : List Bytes) : Bytes :=
  (ascii ", ").intercalate (texts.map fun text => ascii "<" ++ text ++ ascii ">")

theorem intercalate_cons {α : Type} (sep x : List α) (xs : List (List α)) :
    sep.intercalate (x :: xs) = x ++ (xs.map (sep ++ ·)).flatten := by
  induction xs generalizing x with
  | nil => simp
  | cons y ys ih => simp [List.intercalate_cons_cons, ih]

theorem describe_append (responses : List Response) (errs : UInt32) {descs : Bytes}
    (hdescs : descs ≠ []) : describe responses errs descs =
      (errs + .ofNat (responses.filterMap Response.failure?).length,
        descs ++ ((responses.filterMap Response.failure?).map fun text =>
          ascii ", " ++ (ascii "<" ++ text ++ ascii ">")).flatten) := by
  induction responses generalizing errs descs with
  | nil => simp [describe]
  | cons response responses ih =>
    by_cases hcode : response.code = .ok
    · have hok : response.failure? = none := if_pos hcode
      rw [describe, if_neg (not_not_intro hcode), List.filterMap_cons_none hok, ih errs hdescs]
    · have hfailure : response.failure? = some response.data := if_neg hcode
      have hne : (descs ++ ascii ", ") ++ (ascii "<" ++ response.data ++ ascii ">") ≠ [] := by
        simp [hdescs]
      simp only [describe, if_pos hcode, if_pos hdescs]
      rw [ih (errs + 1) hne, List.filterMap_cons_some hfailure, List.length_cons,
        List.map_cons, List.flatten_cons, UInt32.ofNat_add, UInt32.add_assoc,
        UInt32.add_comm _ (.ofNat 1)]
      simp

/-- **The loop counts the failures and lists their texts.** -/
theorem describe_eq (responses : List Response) : describe responses 0 [] =
    (.ofNat (responses.filterMap Response.failure?).length,
      listed (responses.filterMap Response.failure?)) := by
  induction responses with
  | nil => rfl
  | cons response responses ih =>
    by_cases hcode : response.code = .ok
    · have hok : response.failure? = none := if_pos hcode
      rw [describe, if_neg (not_not_intro hcode), List.filterMap_cons_none hok, ih]
    · have hfailure : response.failure? = some response.data := if_neg hcode
      have hne : ascii "<" ++ response.data ++ ascii ">" ≠ [] :=
        List.append_ne_nil_of_right_ne_nil _ (by decide)
      simp only [describe, if_pos hcode, ne_eq, not_true_eq_false, if_false, List.nil_append]
      rw [describe_append responses _ hne, List.filterMap_cons_some hfailure, List.length_cons,
        listed, List.map_cons, intercalate_cons, List.map_map]
      simp [UInt32.ofNat_add, UInt32.add_comm, Function.comp_def]

/-! ## Servers that execute every command -/

/-- The proxies of memcached servers that execute every command, and what is thrown where a server
takes no connection. -/
def connected (api : Api) (i : Instant) (what : UInt32 → Bytes) :
    ServerProxies (UInt32 → Peer) Command where
  callable idx s := (i.callable idx, s)
  send idx command s :=
    if i.reached idx then
      match command.serialize with
      | .error e => (.error e, s)
      | .ok bytes =>
        let (reply, server) := api.perform i.now bytes (s idx).server
        let (result, connection) := commandParserSend command ((s idx).connection.receive reply)
        (result, Function.update s idx { server, connection })
    else (.ok { code := .ioError, data := ascii "connection failed: " ++ what idx }, s)
  lifespan idx s := (i.lifespan idx, s)

/-- A server without items. -/
def Memcached.flushed (server : Memcached) : Memcached := { server with items := fun _ => none }

/-- The servers after a flush of some that are callable and reached. -/
def flushed (i : Instant) (servers : UInt32 → Memcached) (idxs : List UInt32) :
    UInt32 → Memcached := fun idx =>
  if idx ∈ idxs ∧ i.callable idx ∧ i.reached idx then (servers idx).flushed else servers idx

/-- What is reported of a server that was not flushed. -/
def failure? (i : Instant) (what : UInt32 → Bytes) (idx : UInt32) : Option Bytes :=
  if i.callable idx then
    if i.reached idx then none else some (ascii "connection failed: " ++ what idx)
  else some (ascii "dead")

section Connected

variable {api : Api} {zlib : Zlib} {i : Instant} {request : Request} {task : ServerTask}
  {command : Command} {servers : UInt32 → Memcached} {s : UInt32 → Peer} {idx : UInt32}

/-- **One server** that takes a connection executes the request. -/
theorem send_perform (what : UInt32 → Bytes) (h : Requests api zlib request task)
    (hcommand : api.command zlib request = .ok command) (hs : Serving servers s)
    (hfits : FitsTask i.now (servers idx) task) (hreached : i.reached idx = true) :
    ∃ result s', (connected api i what).send idx command s = (result, s') ∧
      ShowsTask api zlib request.unique (executeTask i.now task (servers idx)).1 result ∧
      Serving (Function.update servers idx (executeTask i.now task (servers idx)).2) s' := by
  obtain ⟨bytes, hser⟩ := h.serialize_ok hcommand
  obtain ⟨hserver, hinput⟩ := hs idx
  have hsent : ((s idx).connection.receive (api.perform i.now bytes (servers idx)).1).input =
      (api.perform i.now bytes (servers idx)).1 := by
    rw [Connection.receive, hinput, List.nil_append]
  obtain ⟨result, c', hsend, hrest, hafter, hshows⟩ :=
    exchange_perform h hcommand hser hfits hsent
  simp only [connected, if_pos hreached, hser, hserver, hsend, hafter]
  exact ⟨result, _, rfl, hshows, hs.update_peer ⟨_, c'⟩ hrest⟩

theorem Memcached.flushed_flushed (server : Memcached) :
    server.flushed.flushed = server.flushed := rfl

theorem flushed_nil : flushed i servers [] = servers := by
  funext idx
  simp [flushed]

theorem flushed_cons_of_not (h : ¬(i.callable idx ∧ i.reached idx))
    (idxs : List UInt32) : flushed i servers (idx :: idxs) = flushed i servers idxs := by
  funext x
  by_cases hx : x = idx
  · subst hx
    rw [flushed, flushed, if_neg fun hx => h hx.2, if_neg fun hx => h hx.2]
  · simp [flushed, hx]

/-- The order in which the servers are flushed makes no difference. -/
theorem flushed_update (h : i.callable idx ∧ i.reached idx) (idxs : List UInt32) :
    flushed i (Function.update servers idx (servers idx).flushed) idxs =
      flushed i servers (idx :: idxs) := by
  funext x
  by_cases hx : x = idx
  · subst hx
    simp [flushed, h, Memcached.flushed_flushed]
  · simp [flushed, hx]

/-- **One server**: it is flushed, or the response tells why it is not. -/
theorem send_connected (i : Instant) (what : UInt32 → Bytes)
    (hcommand : api.command zlib (.flushAll 0) = .ok command) (hs : Serving servers s)
    (idx : UInt32) :
    ∃ response s', (connected api i what).send idx command s = (.ok response, s') ∧
      (i.callable idx → response.failure? = failure? i what idx) ∧
      Serving (if i.reached idx then Function.update servers idx (servers idx).flushed
        else servers) s' := by
  by_cases hreached : i.reached idx
  · obtain ⟨result, s', hsend, ⟨data, rfl⟩, hs'⟩ :=
      send_perform what (.flush : Requests api zlib (.flushAll 0) .flush) hcommand hs trivial
        hreached
    refine ⟨_, s', hsend, fun hcallable => ?_, by rwa [if_pos hreached]⟩
    simp [failure?, hcallable, hreached, Response.failure?]
  · simp only [connected, if_neg hreached]
    refine ⟨_, s, rfl, fun hcallable => ?_, hs⟩
    simp [failure?, hcallable, hreached, Response.failure?]

/-- **Every server** is asked, and there is a response for each one. -/
theorem runAll_connected (i : Instant) (what : UInt32 → Bytes)
    (hcommand : api.command zlib (.flushAll 0) = .ok command) (idxs : List UInt32)
    (hs : Serving servers s) :
    ∃ responses s', runAll (connected api i what) command idxs s = (.ok responses, s') ∧
      responses.map Response.failure? = idxs.map (failure? i what) ∧
      Serving (flushed i servers idxs) s' := by
  induction idxs generalizing servers s with
  | nil => exact ⟨[], s, rfl, rfl, by rwa [flushed_nil]⟩
  | cons idx idxs ih =>
    by_cases hcallable : i.callable idx
    · obtain ⟨response, s₁, hsend, hresponse, hs₁⟩ := send_connected i what hcommand hs idx
      obtain ⟨responses, s₂, hrun, hresponses, hs₂⟩ := ih hs₁
      refine ⟨response :: responses, s₂, ?_, ?_, ?_⟩
      · have hcall : (connected api i what).callable idx s = (true, s) :=
          congrArg (·, s) hcallable
        rw [runAll, hcall]
        simp only [hsend, hrun, Except.map]
      · rw [List.map_cons, List.map_cons, hresponse hcallable, hresponses]
      · by_cases hreached : i.reached idx
        · rwa [if_pos hreached, flushed_update ⟨hcallable, hreached⟩] at hs₂
        · rwa [if_neg hreached, ← flushed_cons_of_not fun h => hreached h.2] at hs₂
    · obtain ⟨responses, s₁, hrun, hresponses, hs₁⟩ := ih hs
      have hcall : (connected api i what).callable idx s = (false, s) :=
        congrArg (·, s) (Bool.eq_false_iff.mpr hcallable)
      refine ⟨{ code := .error, data := ascii "dead" } :: responses, s₁, ?_, ?_, ?_⟩
      · rw [runAll, hcall]
        simp only [hrun, Except.map]
      · rw [List.map_cons, List.map_cons, hresponses]
        simp [failure?, hcallable, Response.failure?]
      · rwa [flushed_cons_of_not fun h => hcallable h.1]

end Connected

/-! ## `flush_all` -/

theorem filterMap_failure? (responses : List Response) : responses.filterMap Response.failure? =
    (responses.map Response.failure?).filterMap id := by
  rw [List.filterMap_map, Function.id_comp]

theorem ofNat_eq_zero {n : ℕ} (h : n < 2 ^ 32) : UInt32.ofNat n = 0 ↔ n = 0 := by
  rw [← UInt32.toNat_inj, UInt32.toNat_ofNat_of_lt' h]
  rfl

/-- **`flush_all` of memcached servers**, in either protocol: every server that is callable and
takes a connection is emptied and no other one changes. The result is success exactly when these are
all the servers; otherwise it lists, in order, why a server was not flushed. -/
theorem flushAll_connected (api : Api) (zlib : Zlib) (i : Instant) (what : UInt32 → Bytes)
    {count : ℕ} (hcount : count < 2 ^ 32) {servers : UInt32 → Memcached} {s : UInt32 → Peer}
    (hs : Serving servers s) :
    ∃ result s', flushAll (connected api i what) api zlib count 0 s = (.ok result, s') ∧
      Serving (flushed i servers (indices count)) s' ∧
      (result.found = true ↔ ∀ idx ∈ indices count, i.callable idx ∧ i.reached idx) ∧
      result.data = listed ((indices count).filterMap (failure? i what)) := by
  obtain ⟨command, hcommand⟩ : ∃ command, api.command zlib (.flushAll 0) = .ok command := by
    cases api <;> exact ⟨_, rfl⟩
  obtain ⟨responses, s', hrun, hresponses, hs'⟩ :=
    runAll_connected i what hcommand (indices count) hs
  have hfailures : responses.filterMap Response.failure? =
      (indices count).filterMap (failure? i what) := by
    rw [filterMap_failure?, hresponses, List.filterMap_map, Function.id_comp]
  have hlt : ((indices count).filterMap (failure? i what)).length < 2 ^ 32 := by
    refine lt_of_le_of_lt (List.length_filterMap_le _ _) ?_
    rwa [indices, List.length_map, List.length_range]
  refine ⟨{
    found := UInt32.ofNat ((indices count).filterMap (failure? i what)).length = 0
    data := listed ((indices count).filterMap (failure? i what)) }, s', ?_, hs', ?_, rfl⟩
  · simp only [flushAll, hcommand, hrun, describe_eq, hfailures]
  · rw [decide_eq_true_iff, ofNat_eq_zero hlt, List.length_eq_zero_iff,
      List.filterMap_eq_nil_iff]
    refine forall₂_congr fun idx _ => ?_
    by_cases hcallable : i.callable idx <;> by_cases hreached : i.reached idx <;>
      simp [failure?, hcallable, hreached]

/-! ### Three servers -/

/-- A server with one item. -/
def oneItem : Memcached where
  items key := if key = ascii "k" then some ⟨ascii "a", 0, none, 1⟩ else none

/-- The second server is dead, and the third one takes no connection. -/
def onlyFirst : Instant where
  now := 0
  callable idx := idx ≠ 1
  reached idx := idx ≠ 2

theorem serving_oneItem : Serving (fun _ => oneItem) (fun _ => { server := oneItem }) :=
  fun _ => ⟨rfl, rfl⟩

theorem flushAll_connected_onlyFirst : ∃ result s',
    flushAll (connected .text onlyFirst fun _ => ascii "timeout") .text .plain 3 0
      (fun _ => { server := oneItem }) = (.ok result, s') ∧
    result.found = false ∧
    result.data = ascii "<dead>, <connection failed: timeout>" ∧
    ((s' 0).server.items (ascii "k")).isNone ∧ ((s' 1).server.items (ascii "k")).isSome := by
  obtain ⟨result, s', hrun, hs', hfound, hdata⟩ := flushAll_connected .text .plain onlyFirst
    (fun _ => ascii "timeout") (show 3 < 2 ^ 32 by decide) serving_oneItem
  refine ⟨result, s', hrun, ?_, hdata.trans (by decide +kernel), ?_, ?_⟩
  · refine Bool.eq_false_iff.mpr fun h => absurd (hfound.mp h 1 ?_) ?_ <;> decide
  · rw [(hs' 0).1]
    rfl
  · rw [(hs' 1).1]
    rfl

end McacheClient
