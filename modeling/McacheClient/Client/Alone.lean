import McacheClient.Client.Failover
import McacheClient.Client.Methods
import McacheClient.Client.Store

/-!
# An update without contention

One client updates a key that nobody else touches. Its requests go through `run` to all servers,
the primary one of the key answers all of them.

* `Moment`: what the environment decides for one call of `run`; `Cluster`: the servers' entries;
* `alone`: the calls of a client over the cluster;
* `elsewhere`: the copy of a neighbour that `gets` returns for a missing key;
* `run_gets`, `run_primary`: what the requests of the loop do;
* `exec_stale`: an iteration that a neighbour's copy answers changes nothing;
* **`succeeds_iff`**: the update stores its result exactly when the primary server has the key, or
  when an iteration comes that is not answered with a neighbour's copy.
-/

namespace McacheClient

/-- What the environment decides for one call of `run`: which servers are callable and answer when
the call has asked so many, their time since they were restored, and the id of a mutation. -/
structure Moment where
  callable : ℕ → UInt32 → Bool
  answers : ℕ → UInt32 → Bool
  lifespan : UInt32 → ℤ
  fresh : CasId

/-- The entries of all servers, the calls of `run` so far, and the state of the functor. -/
structure Cluster (γ : Type) where
  entries : UInt32 → Bytes → Option Entry
  calls : ℕ
  functor : γ

/-- A functor with a state: the new data and flags for the ones that it is handed. -/
abbrev Callback (γ : Type) : Type := γ → Bytes → UInt32 → Except Exn (Bytes × UInt32) × γ

section Alone

variable {γ : Type} (client : Client) (zlib : Zlib) (moment : ℕ → Moment) (callback : Callback γ)

namespace Cluster

/-- The effect of a request on a server. -/
def apply (idx : UInt32) (key : Bytes) (fresh : CasId) : Effect → Cluster γ → Cluster γ
  | .keep, s => s
  | effect, s => { s with entries := Function.update s.entries idx
                            (Function.update (s.entries idx) key
                              (effect.apply fresh (s.entries idx key))) }

/-- The proxies during one call of `run` for a key, with the number of servers asked so far. -/
def proxies (m : Moment) (key : Bytes) : ServerProxies (Cluster γ × ℕ) Request where
  callable idx s := (m.callable s.2 idx, s.1, s.2 + 1)
  send idx request s :=
    if m.answers s.2 idx then
      let (result, effect) := serve client.api zlib none request (s.1.entries idx key)
      (result, s.1.apply idx key m.fresh effect, s.2)
    else (.ok { code := .ioError }, s)
  lifespan idx s := (m.lifespan idx, s)

/-- One call of `run`. -/
def exchange (request : Request) (h404 : Bool) (s : Cluster γ) : Except Exn Response × Cluster γ :=
  let key := request.key.getD []
  let (result, s', _) :=
    run (proxies client zlib (moment s.calls) key) client.cfg request h404 client.pool key (s, 0)
  (result, { s' with calls := s.calls + 1 })

end Cluster

/-- The calls of a client over the cluster. -/
def alone : (o : ClientOp) → Cluster γ → o.Answer × Cluster γ :=
  interpret (Cluster.exchange client zlib moment) fun data flags s =>
    let (result, functor) := callback s.functor data flags
    (result, { s with functor })

/-- The servers that are tried after the first one. -/
def others (key : Bytes) : List UInt32 :=
  ((client.pool.choose key).walk.destutter (· ≠ ·)).tail.take (client.cfg.maxContinues.toNat - 1)

/-- The entry at the first server that answers, when `n` servers were asked before. -/
def firstAnswer (m : Moment) (entry : UInt32 → Option Entry) : List UInt32 → ℕ → Option Entry
  | [], _ => none
  | idx :: idxs, n =>
    if m.callable n idx && m.answers (n + 1) idx then entry idx
    else firstAnswer m entry idxs (n + 1)

/-- The copy of a neighbour that `gets` returns at call `n` when the primary server, which was
restored recently, does not have the key. -/
def elsewhere (key : Bytes) (primary : UInt32) (entries : UInt32 → Bytes → Option Entry) (n : ℕ) :
    Option Entry :=
  if (moment n).lifespan primary < client.cfg.h404Duration then
    firstAnswer (moment n) (fun idx => entries idx key) (others client key) 1
  else none

/-- A client can uncompress the data of an entry. -/
def Entry.Readable (e : Entry) : Prop := ∃ v, e.value zlib = .ok v

/-- The pool is one that the constructor builds; the primary server of the key is the first one of
its walk, and it is callable and answers whenever it is asked. -/
structure PrimaryAnswers (key : Bytes) (primary : UInt32) : Prop where
  pool : ∃ hashf cfg addresses, consistentHashingPool hashf cfg addresses = .ok client.pool
  walk : ∃ idxs, (client.pool.choose key).walk = primary :: idxs
  maxContinues : 0 < client.cfg.maxContinues.toNat
  callable : ∀ n k, (moment n).callable k primary = true
  answers : ∀ n k, (moment n).answers k primary = true

variable {client zlib moment callback} {key : Bytes} {primary : UInt32} {request : Request}
  {h404 : Bool} {s : Cluster γ} {response : Response}

/-! ## Single requests -/

theorem PrimaryAnswers.run_eq (h : PrimaryAnswers client moment key primary) (n : ℕ) :
    run (Cluster.proxies client zlib (moment n) key) client.cfg request h404 client.pool key
        (s, 0) =
      tryAll (Cluster.proxies client zlib (moment n) key) client.cfg request h404
        (primary :: others client key) 0 true (s, 0) := by
  obtain ⟨_, _, _, hpool⟩ := h.pool
  obtain ⟨idxs, hwalk⟩ := h.walk
  have hhead : ((client.pool.choose key).walk.destutter (· ≠ ·)).head? = some primary := by
    rw [List.head?_destutter_ne, hwalk, List.head?_cons]
  obtain ⟨rest, hrest⟩ := List.head?_eq_some_iff.mp hhead
  obtain ⟨n, hn⟩ := Nat.exists_eq_succ_of_ne_zero h.maxContinues.ne'
  rw [McacheClient.run_eq _ _ _ _ (sentinel_not_mem_walk hpool key), others, hrest, hn,
    List.take_succ_cons, List.tail_cons, Nat.succ_sub_one]

section Try

variable {m : Moment} {idx : UInt32} {n : ℕ}

theorem tryServer_back (hcallable : m.callable n idx = true)
    (hanswers : m.answers (n + 1) idx = true) {result : Except Exn Response} {effect : Effect}
    (hserve : serve client.api zlib none request (s.entries idx key) = (result, effect)) {conts : ℕ}
    (hexcuse : ∀ response, result = .ok response → response.code = .notFound →
      h404 = true → conts = 0 → client.cfg.h404Duration ≤ m.lifespan idx) :
    tryServer (Cluster.proxies client zlib m key) client.cfg request h404 idx conts (s, n) =
      (.back result, s.apply idx key m.fresh effect, n + 1) := by
  simp only [tryServer, Cluster.proxies, hcallable, hanswers, if_true, hserve]
  cases result with
  | error e => rfl
  | ok response =>
    simp only
    cases hcode : response.code with
    | ioError => exact absurd hcode (serve_ne_ioError (congrArg Prod.fst hserve))
    | notFound =>
      by_cases hfirst : h404 = true ∧ conts = 0
      · have hlifespan := not_lt.mpr (hexcuse response rfl hcode hfirst.1 hfirst.2)
        simp [hfirst, hlifespan]
      · have hnot : (h404 && conts == 0) = false := by simpa using hfirst
        simp [hnot]
    | _ => rfl

theorem tryServer_excused (hcallable : m.callable n idx = true)
    (hanswers : m.answers (n + 1) idx = true)
    (hserve : serve client.api zlib none request (s.entries idx key) = (.ok response, .keep))
    (hcode : response.code = .notFound) (hlifespan : m.lifespan idx < client.cfg.h404Duration) :
    tryServer (Cluster.proxies client zlib m key) client.cfg request true idx 0 (s, n) =
      (.next true, s, n + 1) := by
  simp only [tryServer, Cluster.proxies, hcallable, hanswers, if_true, hserve, hcode]
  simp [hlifespan, Cluster.apply]

theorem tryServer_down (hdown : (m.callable n idx && m.answers (n + 1) idx) = false) (conts : ℕ) :
    tryServer (Cluster.proxies client zlib m key) client.cfg request h404 idx conts (s, n) =
      (.next false, s, n + 1) := by
  cases hcallable : m.callable n idx with
  | false => simp only [tryServer, Cluster.proxies, hcallable]
  | true =>
    have hanswers : m.answers (n + 1) idx = false := by simpa [hcallable] using hdown
    simp [tryServer, Cluster.proxies, hcallable, hanswers]

end Try

/-- After an excused `not_found`, the first server that answers decides. -/
theorem tryAll_excused (hkey : checkKey key = .ok ()) (hne : key ≠ []) (m : Moment)
    (idxs : List UInt32)
    (conts n : ℕ) : ∃ n',
    tryAll (Cluster.proxies client zlib m key) client.cfg (.retrieve .gets key) true idxs
        (conts + 1) false (s, n) =
      (retrieved client.api zlib .gets (firstAnswer m (fun idx => s.entries idx key) idxs n),
        s, n') := by
  induction idxs generalizing conts n with
  | nil => exact ⟨n, rfl⟩
  | cons idx idxs ih =>
    rw [tryAll, firstAnswer]
    by_cases hup : (m.callable n idx && m.answers (n + 1) idx) = true
    · have hserve := serve_retrieve_ok client.api zlib hkey hne none .gets (s.entries idx key)
      obtain ⟨hcallable, hanswers⟩ := Bool.and_eq_true_iff.mp hup
      rw [if_pos hup, tryServer_back hcallable hanswers hserve fun _ _ _ _ h => by cases h]
      exact ⟨n + 1, rfl⟩
    · rw [if_neg hup, tryServer_down (by simpa using hup)]
      exact ih (conts + 1) (n + 1)

variable (zlib) in
/-- The primary server's entry comes first, a neighbour's copy second. -/
theorem PrimaryAnswers.run_gets (h : PrimaryAnswers client moment key primary)
    (hkey : checkKey key = .ok ()) (hne : key ≠ []) (n : ℕ) : ∃ n',
    run (Cluster.proxies client zlib (moment n) key) client.cfg (.retrieve .gets key) true
        client.pool key (s, 0) =
      (retrieved client.api zlib .gets
        ((s.entries primary key).or (elsewhere client moment key primary s.entries n)), s, n') := by
  have hserve := serve_retrieve_ok client.api zlib hkey hne none .gets (s.entries primary key)
  rw [h.run_eq, tryAll]
  cases hentry : s.entries primary key with
  | some e =>
    have hfound : ∀ response,
        retrieved client.api zlib .gets (s.entries primary key) = .ok response →
          response.code = .notFound → true = true → 0 = 0 →
            client.cfg.h404Duration ≤ (moment n).lifespan primary := by
      intro response hresponse hcode
      rcases retrieved_gets hresponse with ⟨hnone, -⟩ | ⟨-, -, hok, -, -⟩
      · rw [hentry] at hnone
        cases hnone
      · rw [hcode] at hok
        cases hok
    rw [tryServer_back (h.callable n 0) (h.answers n 1) hserve hfound, hentry]
    exact ⟨1, rfl⟩
  | none =>
    by_cases hlifespan : (moment n).lifespan primary < client.cfg.h404Duration
    · have hmissing : retrieved client.api zlib .gets (s.entries primary key) =
          .ok { code := .notFound } := by rw [hentry]; rfl
      rw [hmissing] at hserve
      rw [tryServer_excused (h.callable n 0) (h.answers n 1) hserve rfl hlifespan, elsewhere,
        if_pos hlifespan]
      exact tryAll_excused hkey hne (moment n) (others client key) 0 1
    · rw [tryServer_back (h.callable n 0) (h.answers n 1) hserve
          fun _ _ _ _ _ => not_lt.mp hlifespan,
        elsewhere, if_neg hlifespan, hentry]
      exact ⟨1, rfl⟩

theorem PrimaryAnswers.run_primary (h : PrimaryAnswers client moment key primary) (n : ℕ)
    {result : Except Exn Response} {effect : Effect}
    (hserve : serve client.api zlib none request (s.entries primary key) = (result, effect)) :
    run (Cluster.proxies client zlib (moment n) key) client.cfg request false client.pool key
        (s, 0) =
      (result, s.apply primary key (moment n).fresh effect, 1) := by
  rw [h.run_eq, tryAll,
    tryServer_back (h.callable n 0) (h.answers n 1) hserve fun _ _ _ h => by cases h]

/-! ## The steps of an iteration -/

theorem exchange_eq {result : Except Exn Response} {s' : Cluster γ} {n : ℕ}
    (hrequest : request.key = some key)
    (hrun : run (Cluster.proxies client zlib (moment s.calls) key) client.cfg request h404
      client.pool key (s, 0) = (result, s', n)) :
    Cluster.exchange client zlib moment request h404 s =
      (result, { s' with calls := s.calls + 1 }) := by
  simp only [Cluster.exchange, hrequest, Option.getD_some, hrun]

theorem PrimaryAnswers.exchange_eq (h : PrimaryAnswers client moment key primary)
    (hrequest : request.key = some key) {result : Except Exn Response} {effect : Effect}
    (hserve : serve client.api zlib none request (s.entries primary key) = (result, effect)) :
    Cluster.exchange client zlib moment request false s =
      (result,
        { s.apply primary key (moment s.calls).fresh effect with calls := s.calls + 1 }) := by
  exact McacheClient.exchange_eq hrequest (h.run_primary _ hserve)

theorem PrimaryAnswers.exchange_gets (h : PrimaryAnswers client moment key primary)
    (hkey : checkKey key = .ok ()) (hne : key ≠ []) (entry : Option Entry)
    (hentry : (s.entries primary key).or (elsewhere client moment key primary s.entries s.calls) =
      entry) :
    Cluster.exchange client zlib moment (.retrieve .gets key) true s =
      (retrieved client.api zlib .gets entry, { s with calls := s.calls + 1 }) := by
  obtain ⟨n, hrun⟩ := h.run_gets zlib hkey hne s.calls
  rw [hentry] at hrun
  exact McacheClient.exchange_eq rfl hrun

theorem PrimaryAnswers.exchange_badKey (h : PrimaryAnswers client moment key primary) {ex : Exn}
    (hkey : checkKey key = .error ex) :
    Cluster.exchange client zlib moment (.retrieve .gets key) true s =
      (.error ex, { s with calls := s.calls + 1 }) := by
  have hserve : serve client.api zlib none (.retrieve .gets key) (s.entries primary key) =
      (.error ex, .keep) := serve_retrieve_error hkey none .gets _
  have hrun : run (Cluster.proxies client zlib (moment s.calls) key) client.cfg
      (.retrieve .gets key) true client.pool key (s, 0) = (.error ex, s, 1) := by
    rw [h.run_eq, tryAll,
      tryServer_back (h.callable s.calls 0) (h.answers s.calls 1) hserve fun _ hok => by cases hok]
    rfl
  exact McacheClient.exchange_eq rfl hrun

theorem PrimaryAnswers.exchange_nil (h : PrimaryAnswers client moment [] primary) :
    Cluster.exchange client zlib moment (.retrieve .gets []) true s =
      (.ok { code := malformed client.api }, { s with calls := s.calls + 1 }) := by
  have hserve := serve_retrieve_nil client.api zlib none .gets (s.entries primary [])
  have hrun : run (Cluster.proxies client zlib (moment s.calls) []) client.cfg
      (.retrieve .gets []) true client.pool [] (s, 0) =
        (.ok { code := malformed client.api }, s, 1) := by
    rw [h.run_eq, tryAll, tryServer_back (h.callable s.calls 0) (h.answers s.calls 1) hserve]
    · rfl
    · rintro response hok hcode
      rw [← Except.ok.inj hok] at hcode
      cases hapi : client.api <;> simp [malformed, hapi] at hcode
  exact McacheClient.exchange_eq rfl hrun

theorem exec_clientBind {α β σ : Type} (interp : (o : ClientOp) → σ → o.Answer × σ)
    (p : ClientM α) (f : α → ClientM β) (s : σ) :
    (p >>= f).run.exec interp s = match p.run.exec interp s with
      | (.ok a, s) => (f a).run.exec interp s
      | (.error e, s) => (.error e, s) := by
  refine (Program.exec_bind interp p.run _ s).trans ?_
  obtain ⟨r, s'⟩ := p.run.exec interp s
  cases r <;> rfl

theorem exec_gets (callback : Callback γ) {result : Except Exn Response} {s' : Cluster γ}
    (hexchange : Cluster.exchange client zlib moment (.retrieve .gets key) true s = (result, s')) :
    (gets key).run.exec (alone client zlib moment callback) s =
      ((do
        let response ← result
        match response.code with
        | .ok => return { found := true, data := response.data, flags := response.flags
                          cas := response.cas }
        | .notFound => return { found := false }
        | _ => throw response.exception), s') := by
  show Program.exec _ (Program.call _ fun r => _) s = _
  rw [Program.exec_call]
  simp only [alone, interpret, hexchange]
  cases result with
  | error e => rfl
  | ok response =>
    obtain ⟨code, data, flags, cas⟩ := response
    cases code <;> rfl

theorem exec_runCallback (data : Bytes) (flags : UInt32) :
    (runCallback data flags).run.exec (alone client zlib moment callback) s =
      ((callback s.functor data flags).1,
        { s with functor := (callback s.functor data flags).2 }) := rfl

theorem exec_casOrExpired (callback : Callback γ) {data : Bytes} {o : Opts} (hcas : o.cas ≠ 0)
    (stored : Bool) {s' : Cluster γ}
    (hexchange : Cluster.exchange client zlib moment (.storage .cas key data o) false s =
      (.ok { code := if stored then .stored else .notFound }, s')) :
    (casOrExpired key data o).run.exec (alone client zlib moment callback) s =
      (.ok stored, s') := by
  rw [casOrExpired, cas, if_neg hcas]
  show Program.exec _ (Program.call _ fun r => _) s = _
  rw [Program.exec_call]
  simp only [alone, interpret, hexchange]
  cases stored <;> rfl

theorem exec_add (callback : Callback γ) {data : Bytes} {o : Opts} {s' : Cluster γ}
    (hexchange : Cluster.exchange client zlib moment (.storage .add key data o) false s =
      (.ok { code := .stored }, s')) :
    (add key data o).run.exec (alone client zlib moment callback) s = (.ok true, s') := by
  show Program.exec _ (Program.call _ fun r => _) s = _
  rw [Program.exec_call]
  simp only [alone, interpret, hexchange]
  rfl

/-! ## The loop -/

/-- The functor returns, and what it returns can be stored. -/
def Returns (zlib : Zlib) (callback : Callback γ) : Prop :=
  ∀ g data flags, ∃ newData stored, (callback g data flags).1 = .ok newData ∧
    packed zlib newData.1 { flags := newData.2 } = .ok stored

/-- The call returned a result of the functor, and it is what the primary server keeps now. -/
def Succeeds (zlib : Zlib) (callback : Callback γ) (key : Bytes) (primary : UInt32)
    (r : Except Exn (Bytes × UInt32) × Cluster γ) : Prop :=
  ∃ newData e, r.1 = .ok newData ∧ (∃ g data flags, (callback g data flags).1 = .ok newData) ∧
    r.2.entries primary key = some e ∧ e.Keeps zlib newData

variable (client zlib moment) in
/-- From call `first` on, one of the iterations is not answered with a neighbour's copy, and the
copies that answer the ones before it can be uncompressed. -/
def Unshadowed (key : Bytes) (primary : UInt32) (entries : UInt32 → Bytes → Option Entry)
    (first limit : ℕ) : Prop :=
  ∃ i < limit, elsewhere client moment key primary entries (first + 2 * i) = none ∧
    ∀ j < i, ∀ e, elsewhere client moment key primary entries (first + 2 * j) = some e →
      e.Readable zlib

theorem unshadowed_of_none {entries : UInt32 → Bytes → Option Entry} {first limit : ℕ}
    (hnone : elsewhere client moment key primary entries first = none) :
    Unshadowed client zlib moment key primary entries first (limit + 1) :=
  ⟨0, by omega, hnone, fun j hj => absurd hj (by omega)⟩

theorem unshadowed_succ {entries : UInt32 → Bytes → Option Entry} {first limit : ℕ} {e : Entry}
    (hsome : elsewhere client moment key primary entries first = some e) :
    Unshadowed client zlib moment key primary entries first (limit + 1) ↔
      e.Readable zlib ∧ Unshadowed client zlib moment key primary entries (first + 2) limit := by
  have hshift : ∀ i, first + 2 + 2 * i = first + 2 * (i + 1) := fun i => by omega
  simp only [Unshadowed, hshift]
  constructor
  · rintro ⟨i, hi, hnone, hread⟩
    have hpos : i ≠ 0 := by
      rintro rfl
      rw [Nat.mul_zero, Nat.add_zero, hsome] at hnone
      cases hnone
    obtain ⟨i, rfl⟩ := Nat.exists_eq_succ_of_ne_zero hpos
    exact ⟨hread 0 (by omega) e hsome, i, by omega, hnone,
      fun j hj => hread (j + 1) (by omega)⟩
  · rintro ⟨hreadable, i, hi, hnone, hread⟩
    refine ⟨i + 1, by omega, hnone, fun j hj e' he' => ?_⟩
    rcases Nat.eq_zero_or_eq_succ_pred j with rfl | hj'
    · rw [Nat.mul_zero, Nat.add_zero, hsome] at he'
      rwa [← Option.some.inj he']
    · rw [hj'] at he'
      exact hread (j - 1) (by omega) e' he'

section Loop

variable {opts : Opts} {iters : ℕ} (h : PrimaryAnswers client moment key primary)
  (hkey : checkKey key = .ok ()) (hne : key ≠ []) (hz : zlib.Lossless)
  (hcallback : Returns zlib callback)

include h hkey hne hz hcallback

omit h hkey hne hcallback in
theorem succeeds_put {g : γ} {v newData : Bytes × UInt32} {stored : Bytes} {fresh : CasId}
    (hnew : (callback g v.1 v.2).1 = .ok newData)
    (hpacked : packed zlib newData.1 { flags := newData.2 } = .ok stored) (calls : ℕ) :
    Succeeds zlib callback key primary
      (.ok newData, { s.apply primary key fresh (.put stored newData.2) with calls }) := by
  refine ⟨newData, ⟨stored, newData.2, fresh⟩, rfl, ⟨g, v.1, v.2, hnew⟩, ?_, ?_⟩
  · simp [Cluster.apply, Effect.apply]
  · exact keeps_packed hz hpacked fresh

theorem succeeds_primary {e : Entry} (hentry : s.entries primary key = some e)
    (hreadable : e.Readable zlib) :
    Succeeds zlib callback key primary
      ((atomicUpdateLoop key opts (iters + 1)).run.exec (alone client zlib moment callback) s) := by
  obtain ⟨v, hv⟩ := hreadable
  obtain ⟨newData, stored, hnew, hpacked⟩ := hcallback s.functor v.1 v.2
  let casOpts : Opts := { expiration := opts.expiration, flags := newData.2, cas := e.cas.val }
  let s₁ : Cluster γ :=
    { s with calls := s.calls + 1, functor := (callback s.functor v.1 v.2).2 }
  have hverdict : verdict client.api .cas stored casOpts (some e) = .ok (stored, newData.2) :=
    verdict_cas_some rfl
  have hserve : serve client.api zlib none (.storage .cas key newData.1 casOpts)
      (s₁.entries primary key) = (.ok { code := .stored }, .put stored newData.2) := by
    show serve _ _ _ _ (s.entries primary key) = _
    rw [hentry]
    exact serve_storage_ok hkey hne none
      (show packed zlib newData.1 casOpts = .ok stored from hpacked)
      hverdict
  have hcas := exec_casOrExpired callback e.cas.2 true (h.exchange_eq rfl hserve)
  rw [atomicUpdateLoop, exec_clientBind,
    exec_gets _ (h.exchange_gets hkey hne (some e) (by rw [hentry]; rfl)), retrieved_of_value hv]
  show Succeeds zlib callback key primary
    (Program.exec _ (ExceptT.run (runCallback v.1 v.2 >>= _)) _)
  rw [exec_clientBind, exec_runCallback, hnew]
  show Succeeds zlib callback key primary
    (Program.exec _ (ExceptT.run (casOrExpired key _ casOpts >>= _)) s₁)
  rw [exec_clientBind, hcas]
  exact succeeds_put hz hnew hpacked _

theorem succeeds_missing (hentry : s.entries primary key = none)
    (helsewhere : elsewhere client moment key primary s.entries s.calls = none) :
    Succeeds zlib callback key primary
      ((atomicUpdateLoop key opts (iters + 1)).run.exec (alone client zlib moment callback) s) := by
  obtain ⟨newData, stored, hnew, hpacked⟩ := hcallback s.functor [] 0
  let addOpts : Opts := { expiration := opts.expiration, flags := newData.2 }
  let s₁ : Cluster γ :=
    { s with calls := s.calls + 1, functor := (callback s.functor [] 0).2 }
  have hverdict : verdict client.api .add stored addOpts none = .ok (stored, newData.2) :=
    verdict_add_none rfl
  have hserve : serve client.api zlib none (.storage .add key newData.1 addOpts)
      (s₁.entries primary key) = (.ok { code := .stored }, .put stored newData.2) := by
    show serve _ _ _ _ (s.entries primary key) = _
    rw [hentry]
    exact serve_storage_ok hkey hne none
      (show packed zlib newData.1 addOpts = .ok stored from hpacked)
      hverdict
  have hadd := exec_add callback (h.exchange_eq rfl hserve)
  rw [atomicUpdateLoop, exec_clientBind,
    exec_gets _ (h.exchange_gets hkey hne none (by rw [hentry, helsewhere]; rfl))]
  show Succeeds zlib callback key primary (Program.exec _ (ExceptT.run (runCallback [] 0 >>= _)) _)
  rw [exec_clientBind, exec_runCallback, hnew]
  show Succeeds zlib callback key primary
    (Program.exec _ (ExceptT.run (add key _ addOpts >>= _)) s₁)
  rw [exec_clientBind, hadd]
  exact succeeds_put (v := ([], 0)) hz hnew hpacked _

omit hz in
/-- An iteration that is answered with a neighbour's copy stores nothing: `cas` goes to the primary
server, which does not have the key. -/
theorem exec_stale (hentry : s.entries primary key = none) {e : Entry}
    (helsewhere : elsewhere client moment key primary s.entries s.calls = some e)
    {v : Bytes × UInt32} (hv : e.value zlib = .ok v) :
    (atomicUpdateLoop key opts (iters + 1)).run.exec (alone client zlib moment callback) s =
      (atomicUpdateLoop key opts iters).run.exec (alone client zlib moment callback)
        { s with calls := s.calls + 2, functor := (callback s.functor v.1 v.2).2 } := by
  obtain ⟨newData, stored, hnew, hpacked⟩ := hcallback s.functor v.1 v.2
  let casOpts : Opts := { expiration := opts.expiration, flags := newData.2, cas := e.cas.val }
  let s₁ : Cluster γ :=
    { s with calls := s.calls + 1, functor := (callback s.functor v.1 v.2).2 }
  have hserve : serve client.api zlib none (.storage .cas key newData.1 casOpts)
      (s₁.entries primary key) = (.ok { code := .notFound }, .keep) := by
    show serve _ _ _ _ (s.entries primary key) = _
    rw [hentry]
    exact serve_storage_error hkey hne none
      (show packed zlib newData.1 casOpts = .ok stored from hpacked) verdict_cas_none
  have hcas := exec_casOrExpired callback e.cas.2 false (h.exchange_eq rfl hserve)
  rw [atomicUpdateLoop, exec_clientBind,
    exec_gets _ (h.exchange_gets hkey hne (some e) (by rw [hentry, helsewhere]; rfl)),
    retrieved_of_value hv]
  show Program.exec _ (ExceptT.run (runCallback v.1 v.2 >>= _)) _ = _
  rw [exec_clientBind, exec_runCallback, hnew]
  show Program.exec _ (ExceptT.run (casOrExpired key _ casOpts >>= _)) s₁ = _
  rw [exec_clientBind, hcas]
  rfl

omit hz hcallback in
theorem not_succeeds_unreadable {e : Entry}
    (hentry : (s.entries primary key).or (elsewhere client moment key primary s.entries s.calls) =
      some e) (hreadable : ¬e.Readable zlib) :
    ¬Succeeds zlib callback key primary
      ((atomicUpdateLoop key opts (iters + 1)).run.exec (alone client zlib moment callback) s) := by
  cases hv : e.value zlib with
  | ok v => exact absurd ⟨v, hv⟩ hreadable
  | error ex =>
    rw [atomicUpdateLoop, exec_clientBind, exec_gets _ (h.exchange_gets hkey hne (some e) hentry),
      retrieved_of_error hv]
    rintro ⟨newData, e, hok, -⟩
    cases hok

theorem succeeds_loop (hentry : s.entries primary key = none) :
    Succeeds zlib callback key primary
        ((atomicUpdateLoop key opts iters).run.exec (alone client zlib moment callback) s) ↔
      Unshadowed client zlib moment key primary s.entries s.calls iters := by
  induction iters generalizing s with
  | zero =>
    refine iff_of_false ?_ ?_
    · rintro ⟨newData, e, hok, -⟩
      cases hok
    · rintro ⟨i, hi, -⟩
      omega
  | succ iters ih =>
    cases helsewhere : elsewhere client moment key primary s.entries s.calls with
    | none =>
      exact iff_of_true (succeeds_missing h hkey hne hz hcallback hentry helsewhere)
        (unshadowed_of_none helsewhere)
    | some e =>
      rw [unshadowed_succ helsewhere]
      by_cases hreadable : e.Readable zlib
      · obtain ⟨v, hv⟩ := hreadable
        rw [exec_stale h hkey hne hcallback hentry helsewhere hv]
        exact Iff.trans (ih hentry) (and_iff_right ⟨v, hv⟩).symm
      · refine iff_of_false (not_succeeds_unreadable h hkey hne ?_ hreadable) fun hs =>
          hreadable hs.1
        rw [hentry, helsewhere, Option.none_or]

end Loop

theorem not_succeeds_badKey (h : PrimaryAnswers client moment key primary) {ex : Exn}
    (hkey : checkKey key = .error ex) (opts : Opts) (iters : ℕ) :
    ¬Succeeds zlib callback key primary
      ((atomicUpdateLoop key opts (iters + 1)).run.exec (alone client zlib moment callback) s) := by
  rw [atomicUpdateLoop, exec_clientBind, exec_gets _ (h.exchange_badKey hkey)]
  rintro ⟨newData, e, hok, -⟩
  cases hok

theorem not_succeeds_nil (h : PrimaryAnswers client moment key primary) (hkey : key = [])
    (opts : Opts) (iters : ℕ) :
    ¬Succeeds zlib callback key primary
      ((atomicUpdateLoop key opts (iters + 1)).run.exec (alone client zlib moment callback) s) := by
  subst hkey
  rw [atomicUpdateLoop, exec_clientBind, exec_gets _ h.exchange_nil]
  cases client.api <;>
    · rintro ⟨newData, e, hok, -⟩
      cases hok

variable (client zlib moment) in
/-- The condition under which an update of `key` with `limit` iterations, the first one at call
`first`, gets through. -/
def GetsThrough (key : Bytes) (primary : UInt32) (entries : UInt32 → Bytes → Option Entry)
    (first limit : ℕ) : Prop :=
  (checkKey key = .ok () ∧ key ≠ []) ∧
    match entries primary key with
    | some e => e.Readable zlib
    | none => Unshadowed client zlib moment key primary entries first limit

/-- The limit of `atomic_update`. -/
def iterLimit (opts : Opts) : ℕ := if opts.iters ≠ 0 then opts.iters.toNat else 64

theorem iterLimit_pos (opts : Opts) : 0 < iterLimit opts := by
  unfold iterLimit
  split_ifs with h
  · exact Nat.pos_of_ne_zero fun h0 => h (UInt64.toNat_inj.mp h0)
  · omega

/-- **An update without contention stores its result exactly when the primary server has the key,
or when an iteration comes that is not answered with a neighbour's copy**: `gets` takes the copy of
a neighbour for a key that the restored primary server lacks, and the `cas` that follows goes to the
primary server. -/
theorem succeeds_iff (h : PrimaryAnswers client moment key primary) (hz : zlib.Lossless)
    (hcallback : Returns zlib callback) (opts : Opts) (s : Cluster γ) :
    Succeeds zlib callback key primary
        ((atomicUpdate key opts).run.exec (alone client zlib moment callback) s) ↔
      GetsThrough client zlib moment key primary s.entries s.calls (iterLimit opts) := by
  rw [show atomicUpdate key opts = atomicUpdateLoop key opts (iterLimit opts) from rfl, GetsThrough]
  obtain ⟨iters, hlimit⟩ := Nat.exists_eq_succ_of_ne_zero (iterLimit_pos opts).ne'
  cases hkey : checkKey key with
  | error ex =>
    rw [hlimit]
    exact iff_of_false (not_succeeds_badKey h hkey opts iters) fun hs => by cases hs.1.1
  | ok _ =>
    by_cases hne : key = []
    · rw [hlimit]
      exact iff_of_false (not_succeeds_nil h hne opts iters) fun hs => hs.1.2 hne
    rw [and_iff_right ⟨rfl, hne⟩]
    cases hentry : s.entries primary key with
    | none => exact succeeds_loop h hkey hne hz hcallback hentry
    | some e =>
      rw [hlimit]
      by_cases hreadable : e.Readable zlib
      · exact iff_of_true (succeeds_primary h hkey hne hz hcallback hentry hreadable) hreadable
      · refine iff_of_false (not_succeeds_unreadable h hkey hne ?_ hreadable) hreadable
        rw [hentry, Option.some_or]

theorem exec_shadowed (h : PrimaryAnswers client moment key primary) (hkey : checkKey key = .ok ())
    (hne : key ≠ []) (hcallback : Returns zlib callback) (opts : Opts) (iters : ℕ)
    (hentry : s.entries primary key = none)
    (hshadow : ∀ n, ∃ e, elsewhere client moment key primary s.entries n = some e ∧
      e.Readable zlib) :
    ((atomicUpdateLoop key opts iters).run.exec (alone client zlib moment callback) s).1 =
      .error (.mc .unableCas "max iterations reached") := by
  induction iters generalizing s with
  | zero => rfl
  | succ iters ih =>
    obtain ⟨e, helsewhere, v, hv⟩ := hshadow s.calls
    rw [exec_stale h hkey hne hcallback hentry helsewhere hv]
    exact ih hentry hshadow

end Alone

/-! ## A restored primary server -/

/-- A client of the three servers with the default limits. -/
def defaultClient : Client := ⟨.text, threePool, {}⟩

/-- All servers answer, ten seconds after they were restored. -/
def justRestored (_ : ℕ) : Moment where
  callable _ _ := true
  answers _ _ := true
  lifespan _ := 10
  fresh := ⟨7, by decide⟩

/-- Only server `idx` has entries, each one with the value 1. -/
def onlyOn (idx : UInt32) : Cluster Unit where
  entries i _ := if i = idx then some ⟨ascii "1", 0, ⟨5, by decide⟩⟩ else none
  calls := 0
  functor := ()

/-- The functor returns 3. -/
def alwaysThree : Callback Unit := fun _ _ _ => (.ok (ascii "3", 0), ())

theorem primaryAnswers_justRestored :
    PrimaryAnswers defaultClient justRestored (ascii "zz") 0 where
  pool := ⟨byteSum, ⟨2⟩, threeServers, consistentHashingPool_threeServers⟩
  walk := ⟨_, walk_threePool⟩
  maxContinues := by decide
  callable _ _ := rfl
  answers _ _ := rfl

theorem returns_alwaysThree : Returns .plain alwaysThree :=
  fun _ _ _ => ⟨(ascii "3", 0), ascii "3", rfl, rfl⟩

/-- The primary server 0 lacks the key and its neighbour 1 has it: all 64 iterations go the same
way. -/
theorem not_succeeds_neighbour :
    PrimaryAnswers defaultClient justRestored (ascii "zz") 0 ∧ Returns .plain alwaysThree ∧
      2 ≤ defaultClient.cfg.maxContinues ∧ 2 ≤ iterLimit {} ∧
      ((atomicUpdate (ascii "zz") {}).run.exec
          (alone defaultClient .plain justRestored alwaysThree) (onlyOn 1)).1 =
        .error (.mc .unableCas "max iterations reached") ∧
      ¬Succeeds .plain alwaysThree (ascii "zz") 0
        ((atomicUpdate (ascii "zz") {}).run.exec
          (alone defaultClient .plain justRestored alwaysThree) (onlyOn 1)) := by
  have hothers : others defaultClient (ascii "zz") = [1, 0] := by
    rw [others, defaultClient, walk_threePool]
    rfl
  have hshadow : ∀ n, ∃ e,
      elsewhere defaultClient justRestored (ascii "zz") 0 (onlyOn 1).entries n = some e ∧
        e.Readable .plain := by
    intro n
    refine ⟨⟨ascii "1", 0, ⟨5, by decide⟩⟩, ?_, (ascii "1", 0), rfl⟩
    have hlate : (justRestored n).lifespan 0 < defaultClient.cfg.h404Duration :=
      show (10 : ℤ) < 300 by decide
    rw [elsewhere, hothers, if_pos hlate]
    rfl
  have hresult :=
    exec_shadowed primaryAnswers_justRestored rfl (by decide) returns_alwaysThree {} 64
    (s := onlyOn 1) rfl hshadow
  refine ⟨primaryAnswers_justRestored, returns_alwaysThree, by decide, by decide, hresult, ?_⟩
  rintro ⟨newData, e, hok, -⟩
  cases hresult.symm.trans hok

theorem succeeds_iff_primary :
    Succeeds .plain alwaysThree (ascii "zz") 0
      ((atomicUpdate (ascii "zz") {}).run.exec
        (alone defaultClient .plain justRestored alwaysThree) (onlyOn 0)) :=
  (succeeds_iff primaryAnswers_justRestored Zlib.lossless_plain returns_alwaysThree {}
    (onlyOn 0)).mpr ⟨⟨rfl, by decide⟩, (ascii "1", 0), rfl⟩

end McacheClient
