import McacheClient.Client.Updates
import McacheClient.Pool.Mod

/-!
# Updates while servers fail

Threads of clients over a `mod_pool_t`. Servers may be dead, requests and answers get lost, at any
time; the keys stay where they are.

* `Delivery`, `Outage`: what becomes of a request;
* `Servers`, `reachable`, `modAtomic`: the servers, the proxies over them, one call of a thread;
* `modAtomic_run`: a request is answered by the server of its key, or the client is out of servers;
* `Stops`, `stops_atomicUpdate`: an update that is out of servers ends;
* `Mirrors`, `mirrors_step`: the server of a key, as a server that does not fail and knows more of
  the updates than the clients do;
* **`updates_serialized_outages`**: the updates are serialized nevertheless.
-/

namespace McacheClient

/-- What becomes of a request: the server is dead, the request or its answer gets lost, or the
client gets the answer. -/
inductive Delivery
  | dead | lost | unanswered | answered

/-- What the environment chooses for a call. -/
structure Outage extends ClientChoice where
  delivery : Delivery := .answered

/-- The servers of a client. -/
abbrev Servers (τ : Type) : Type := UInt32 → World τ

section Atomic

variable {τ : Type} (pool : ModPool) (api : τ → Api) (cfg : τ → ClientConfig) (zlib : Zlib)

/-- The state after a request reached a server. -/
def Servers.reach (t : τ) (e : Outage) (key : Bytes) (idx : UInt32) (request : Request)
    (s : Servers τ) : Servers τ :=
  Function.update s idx ((s idx).apply t key e.fresh
    (serve (api t) zlib e.number request ((s idx).entries key)).2)

/-- The proxies, for the thread `t`. A request that cannot be serialized is not sent, unless
connecting fails before. -/
def reachable (t : τ) (e : Outage) (key : Bytes) : ServerProxies (Servers τ) Request where
  callable _ s := (match e.delivery with | .dead => false | _ => true, s)
  send idx request s :=
    match e.delivery with
    | .dead | .lost => (.ok { code := .ioError }, s)
    | .unanswered =>
      match ((api t).command zlib request).bind Command.serialize with
      | .error ex => (.error ex, s)
      | .ok _ => (.ok { code := .ioError }, s.reach api zlib t e key idx request)
    | .answered =>
      ((serve (api t) zlib e.number request ((s idx).entries key)).1,
        s.reach api zlib t e key idx request)
  lifespan _ s := (e.now, s)

/-- The command is constructed and goes through `run`. -/
def modCall (t : τ) (e : Outage) (key : Bytes) (request : Request) (h404 : Bool) (s : Servers τ) :
    Except Exn Response × Servers τ :=
  match (api t).command zlib request with
  | .error ex => (.error ex, s)
  | .ok _ => pool.run (reachable api zlib t e key) (cfg t) request h404 key s

/-- One call of thread `t`. A server gives a mutation an id that the key never had. -/
def modAtomic (t : τ) (e : Outage) : (o : ClientOp) → Servers τ → Option (o.Answer × Servers τ)
  | .callback .., s => some (e.result, s)
  | .run request h404, s =>
    match request.key with
    | none => none
    | some key =>
      if ((s (pool.server key)).used key).contains e.fresh then none
      else some (modCall pool api cfg zlib t e key request h404 s)

end Atomic

/-! ## A call -/

theorem serve_notFound {api : Api} {zlib : Zlib} {number : Option Bytes} {request : Request}
    {entry : Option Entry} {response : Response}
    (h : (serve api zlib number request entry).1 = .ok response)
    (hcode : response.code = .notFound) : response = { code := .notFound } := by
  unfold serve at h
  split at h
  · cases h
  split_ifs at h
  · rw [← Except.ok.inj h] at hcode
    cases api <;> cases hcode
  · cases request with
    | retrieve name key =>
      cases entry with
      | none => exact (Except.ok.inj h).symm
      | some e =>
        rw [handle, retrieved_some] at h
        cases hv : e.value zlib with
        | error ex => rw [hv] at h; cases h
        | ok v => rw [hv] at h; cases h; cases hcode
    | storage name key data opts =>
      cases hdata : packed zlib data opts with
      | error ex => simp only [handle, hdata] at h; cases h
      | ok stored =>
        cases hv : verdict api name stored opts entry with
        | error code =>
          simp only [handle, hdata, hv] at h
          cases h
          obtain rfl : code = .notFound := hcode
          rfl
        | ok v => simp only [handle, hdata, hv] at h; cases h; cases hcode
    | counter name key value opts =>
      cases number with
      | none => exact (Except.ok.inj h).symm
      | some data => cases h; cases hcode
    | touch key expiration =>
      cases entry with
      | none => exact (Except.ok.inj h).symm
      | some e => simp [handle] at h; cases h; cases hcode
    | delete key =>
      cases entry with
      | none => exact (Except.ok.inj h).symm
      | some e => simp [handle] at h; cases h; cases hcode
    | flushAll expiration => cases h; cases hcode

theorem serve_error {api : Api} {zlib : Zlib} {request : Request} {ex : Exn}
    (h : (api.command zlib request).bind Command.serialize = .error ex) (number : Option Bytes)
    (entry : Option Entry) : serve api zlib number request entry = (.error ex, .keep) := by
  rw [serve, h]

section Call

variable {τ : Type} {pool : ModPool} {api : τ → Api} {cfg : τ → ClientConfig} {zlib : Zlib}
  {t : τ} {e : Outage} {key : Bytes} {request : Request} {h404 : Bool} {s s' : Servers τ}

theorem reach_keep {idx : UInt32}
    (h : (serve (api t) zlib e.number request ((s idx).entries key)).2 = .keep) :
    s.reach api zlib t e key idx request = s := by
  rw [Servers.reach, h]
  exact Function.update_eq_self idx s

theorem tryServer_fails {idx : UInt32} {h404 : Bool} {conts : ℕ} {config : ClientConfig}
    (h : tryServer (reachable api zlib t e key) config request h404 idx conts s =
      (.next false, s')) :
    tryAll (reachable api zlib t e key) config request h404 [idx] conts true s =
      (.error .outOfServers, s') := by
  rw [tryAll_next h]
  rfl

/-- **What a server is tried for**: it answers, or the client is out of servers, whether the request
reached the server or not. -/
theorem tryAll_reachable (config : ClientConfig) (h404 : Bool) (idx : UInt32) :
    (tryAll (reachable api zlib t e key) config request h404 [idx] 0 true s =
        ((serve (api t) zlib e.number request ((s idx).entries key)).1,
          s.reach api zlib t e key idx request)) ∨
      ∃ s', tryAll (reachable api zlib t e key) config request h404 [idx] 0 true s =
          (.error .outOfServers, s') ∧
        (s' = s ∨ s' = s.reach api zlib t e key idx request) := by
  cases hdelivery : e.delivery with
  | dead =>
    refine Or.inr ⟨s, tryServer_fails ?_, Or.inl rfl⟩
    simp only [tryServer, reachable, hdelivery]
  | lost =>
    refine Or.inr ⟨s, tryServer_fails ?_, Or.inl rfl⟩
    simp only [tryServer, reachable, hdelivery]
  | unanswered =>
    cases hserialize : ((api t).command zlib request).bind Command.serialize with
    | error ex =>
      refine Or.inl ?_
      rw [reach_keep (by rw [serve_error hserialize]), serve_error hserialize]
      refine tryAll_back ?_
      simp only [tryServer, reachable, hdelivery, hserialize]
    | ok bytes =>
      refine Or.inr ⟨_, tryServer_fails ?_, Or.inr rfl⟩
      simp only [tryServer, reachable, hdelivery, hserialize]
  | answered =>
    refine Or.inl ?_
    cases hserve : (serve (api t) zlib e.number request ((s idx).entries key)).1 with
    | error ex =>
      refine tryAll_back ?_
      simp only [tryServer, reachable, hdelivery, hserve]
    | ok response =>
      by_cases hexcused : response.code = .notFound ∧ h404 = true ∧ e.now < config.h404Duration
      · obtain ⟨hcode, hflag, hnow⟩ := hexcused
        have hnext : tryServer (reachable api zlib t e key) config request h404 idx 0 s =
            (.next true, s.reach api zlib t e key idx request) := by
          simp [tryServer, reachable, hdelivery, hserve, hcode, hflag, hnow]
        rw [serve_notFound hserve hcode, tryAll_next hnext]
        rfl
      · refine tryAll_back ?_
        simp only [tryServer, reachable, hdelivery, hserve]
        cases hcode : response.code with
        | ioError => exact absurd hcode (serve_ne_ioError hserve)
        | notFound =>
          simp only [beq_self_eq_true, Bool.and_true]
          split_ifs with hflag hnow
          · exact absurd ⟨hcode, hflag, hnow⟩ hexcused
          · rfl
          · rfl
        | _ => rfl

/-- **A call of `run`**: the server of the key answers, or the client is out of servers. -/
theorem modAtomic_run {r : Except Exn Response} (hserver : ∀ key, pool.server key ≠ 4294967295)
    (hkey : request.key = some key)
    (h : modAtomic pool api cfg zlib t e (.run request h404) s = some (r, s')) :
    e.fresh ∉ (s (pool.server key)).used key ∧
      ((r = (serve (api t) zlib e.number request ((s (pool.server key)).entries key)).1 ∧
          s' = s.reach api zlib t e key (pool.server key) request) ∨
        r = .error .outOfServers ∧
          (s' = s ∨ s' = s.reach api zlib t e key (pool.server key) request)) := by
  simp only [modAtomic, hkey] at h
  split_ifs at h with hfresh
  refine ⟨fun hmem => hfresh (List.contains_iff_mem.mpr hmem), ?_⟩
  have h := Option.some.inj h
  unfold modCall at h
  cases hcommand : (api t).command zlib request with
  | error ex =>
    have hserve := serve_error (show
      ((api t).command zlib request).bind Command.serialize = .error ex by rw [hcommand]; rfl)
    rw [hcommand] at h
    cases h
    exact Or.inl ⟨by rw [hserve], (reach_keep (by rw [hserve])).symm⟩
  | ok command =>
    rw [hcommand] at h
    simp only [ModPool.run_eq _ _ _ _ (hserver key)] at h
    cases hmax : (cfg t).maxContinues.toNat with
    | zero =>
      rw [hmax, List.take_zero, tryAll] at h
      cases h
      exact Or.inr ⟨rfl, Or.inl rfl⟩
    | succ n =>
      rw [hmax, List.take_succ_cons, List.take_nil] at h
      rcases tryAll_reachable (cfg t) h404 (pool.server key) with
        hback | ⟨s'', hout, hstate⟩
      · rw [hback] at h
        cases h
        exact Or.inl ⟨rfl, rfl⟩
      · rw [hout] at h
        cases h
        exact Or.inr ⟨rfl, hstate⟩

end Call

/-! ## Out of servers -/

section Stops

variable {key : Bytes} {opts : Opts} {α β : Type}

/-- Is the client out of servers after a call? -/
def outOfServers (out : Bool) : (o : ClientOp) → o.Answer → Bool
  | .run .., .error .outOfServers => true
  | _, _ => out

/-- A request is for the key. -/
def AsksFor (key : Bytes) : ClientOp → Prop
  | .run request _ => request.key = some key
  | .callback .. => True

/-- A program that asks for one key only and ends when it is out of servers. -/
def Stops (key : Bytes) (out : Bool) (p : Program ClientOp ClientOp.Answer (Except Exn α)) : Prop :=
  p.Follows (fun out o => out = false ∧ AsksFor key o) outOfServers
    (fun out result => out = true → result = .error .outOfServers) out

theorem Stops.bind {p : ClientM α} {f : α → ClientM β} (hp : Stops key false p.run)
    (hf : ∀ a, Stops key false (f a).run) : Stops key false (p >>= f).run := by
  refine Program.follows_bind.mpr (Program.Follows.mono hp fun out r hr => ?_)
  cases r with
  | error ex => exact fun hout => congrArg _ (Except.error.inj (hr hout))
  | ok a =>
    cases out with
    | true => cases hr rfl
    | false => exact hf a

theorem stops_pure (a : α) : Stops key false (pure a : ClientM α).run := by
  intro h
  cases h

theorem stops_throw (ex : Exn) : Stops key false (throw ex : ClientM α).run := by
  intro h
  cases h

theorem stops_runCommand {request : Request} (h : request.key = some key) (h404 : Bool) :
    Stops key false (runCommand request h404).run := by
  refine ⟨⟨rfl, h⟩, fun r hout => ?_⟩
  cases r with
  | ok response => cases hout
  | error ex =>
    cases ex with
    | outOfServers => rfl
    | _ => cases hout

theorem stops_runCallback (data : Bytes) (flags : UInt32) :
    Stops key false (runCallback data flags).run := by
  refine ⟨⟨rfl, trivial⟩, fun r hout => ?_⟩
  cases r <;> cases hout

theorem stops_gets : Stops key false (gets key).run := by
  refine (stops_runCommand rfl true).bind fun response => ?_
  split
  · exact stops_pure _
  · exact stops_pure _
  · exact stops_throw _

theorem stops_storage {refused : List ResponseCode} {name : StorageName} {data : Bytes}
    {storeOpts : Opts} : Stops key false (storage refused name key data storeOpts).run := by
  refine (stops_runCommand rfl false).bind fun response hout => ?_
  cases hout

theorem stops_casOrExpired (data : Bytes) (casOpts : Opts) :
    Stops key false (casOrExpired key data casOpts).run := by
  by_cases hcas : casOpts.cas = 0
  · rw [casOrExpired, cas, if_pos hcas]
    intro hout
    cases hout
  · rw [casOrExpired, cas, if_neg hcas]
    refine ⟨⟨rfl, rfl⟩, fun r => ?_⟩
    cases r with
    | error ex =>
      cases ex with
      | proto code msg => cases code <;> exact fun hout => absurd hout Bool.false_ne_true
      | outOfServers => exact fun _ => rfl
      | _ => exact fun hout => absurd hout Bool.false_ne_true
    | ok response =>
      obtain ⟨code, data, flags, cas⟩ := response
      cases code <;> exact fun hout => absurd hout Bool.false_ne_true

/-- **An update** that is out of servers ends. -/
theorem stops_atomicUpdate : Stops key false (atomicUpdate key opts).run := by
  unfold atomicUpdate
  generalize (if opts.iters ≠ 0 then opts.iters.toNat else 64) = iters
  induction iters with
  | zero => exact stops_throw _
  | succ iters ih =>
    unfold atomicUpdateLoop
    refine stops_gets.bind fun res => ?_
    split_ifs
    · refine (stops_runCallback _ _).bind fun newData => ?_
      refine (stops_casOrExpired _ _).bind fun stored => ?_
      split_ifs
      · exact stops_pure _
      · exact ih
    · refine (stops_runCallback _ _).bind fun newData => ?_
      refine stops_storage.bind fun stored => ?_
      split_ifs
      · exact stops_pure _
      · exact ih

theorem Stops.eq_done {p : Program ClientOp ClientOp.Answer (Except Exn α)} (h : Stops key true p) :
    p = .done (.error .outOfServers) := by
  cases p with
  | done result => exact congrArg _ (h rfl)
  | call o next => cases h.1.1

end Stops

/-! ## The server of a key -/

section Mirrors

variable {τ : Type} {pool : ModPool} {api : τ → Api} {cfg : τ → ClientConfig} {zlib : Zlib}
  {t : τ} {e : Outage} {key : Bytes} {s s' : Servers τ}

/-- The same choices for the one server. -/
def Outage.alone (e : Outage) : ClientChoice := { e.toClientChoice with now := 300 }

/-- Two servers that agree on a key. -/
structure Agree (key : Bytes) (w w' : World τ) : Prop where
  entries : w.entries key = w'.entries key
  used : w.used key = w'.used key

theorem Agree.apply {w w' : World τ} (h : Agree key w w') (t t' : τ) (fresh : CasId)
    (effect : Effect) : Agree key (w.apply t key fresh effect) (w'.apply t' key fresh effect) := by
  cases effect with
  | keep => exact h
  | put data flags =>
    exact ⟨by simp [World.apply, Effect.apply], by simp [World.apply, h.used]⟩
  | remove => exact ⟨by simp [World.apply, Effect.apply], by simp [World.apply, h.used]⟩

theorem agree_apply_of_ne {w : World τ} {other : Bytes} (hne : key ≠ other) (fresh : CasId)
    (effect : Effect) : Agree key (w.apply t other fresh effect) w := by
  cases effect with
  | keep => exact ⟨rfl, rfl⟩
  | put data flags => exact ⟨Function.update_of_ne hne _ _, Function.update_of_ne hne _ _⟩
  | remove => exact ⟨Function.update_of_ne hne _ _, Function.update_of_ne hne _ _⟩

/-- **A call that spares the key** leaves what its server knows of it. -/
theorem modAtomic_spares (hserver : ∀ key, pool.server key ≠ 4294967295) {o : ClientOp}
    {r : o.Answer} (h : modAtomic pool api cfg zlib t e o s = some (r, s'))
    (ho : Part.allowed key none o) :
    Agree key (s' (pool.server key)) (s (pool.server key)) := by
  cases o with
  | callback data flags =>
    cases h
    exact ⟨rfl, rfl⟩
  | run request h404 =>
    cases hkey : request.key with
    | none => simp [modAtomic, hkey] at h
    | some other =>
      obtain ⟨-, hrun⟩ := modAtomic_run hserver hkey h
      have hreach : Agree key
          (s.reach api zlib t e other (pool.server other) request (pool.server key))
          (s (pool.server key)) := by
        by_cases hsame : other = key
        · subst hsame
          obtain ⟨name, rfl⟩ := ho hkey
          rw [reach_keep (serve_retrieve_keep _ _ _ _)]
          exact ⟨rfl, rfl⟩
        · rw [Servers.reach]
          by_cases hidx : pool.server key = pool.server other
          · rw [hidx, Function.update_self]
            exact agree_apply_of_ne (Ne.symm hsame) _ _
          · rw [Function.update_of_ne hidx]
            exact ⟨rfl, rfl⟩
      rcases hrun with ⟨-, rfl⟩ | ⟨-, rfl | rfl⟩
      · exact hreach
      · exact ⟨rfl, rfl⟩
      · exact hreach

variable [DecidableEq τ]

/-- Threads of clients over the servers. -/
abbrev ModThreads (τ : Type) : Type :=
  Threads τ (Servers τ) Unit ClientOp ClientOp.Answer (Except Exn (Bytes × UInt32))

/-- One call of one thread. -/
def modStep (pool : ModPool) (api : τ → Api) (cfg : τ → ClientConfig) (zlib : Zlib) :
    ModThreads τ → τ × Outage → Option (ModThreads τ) :=
  Threads.step (modAtomic pool api cfg zlib) fun _ _ _ => ()

omit [DecidableEq τ] in
/-- Before the first call. -/
def ModThreads.initially (entries : UInt32 → Bytes → Option Entry)
    (program : τ → ClientM (Bytes × UInt32)) : ModThreads τ where
  shared idx := World.initial (entries idx)
  left t := (program t).run
  phase _ := ()

/-- **The server of the key** as one that does not fail: the threads that update the key are where
they are there, or out of servers. -/
structure Mirrors (pool : ModPool) (updates : τ → Option Opts) (key : Bytes) (c : ModThreads τ)
    (a : ClientThreads τ) : Prop where
  agree : Agree key a.shared (c.shared (pool.server key))
  stops : ∀ t, updates t ≠ none → ∃ out, Stops key out (c.left t)
  same : ∀ t, updates t ≠ none → c.left t = a.left t ∨ c.left t = .done (.error .outOfServers)
  spares : ∀ t, updates t = none →
    Program.Follows (Part.allowed key) Part.advance Part.final none (c.left t)

variable {f : τ → Bytes × UInt32 → Except Exn (Bytes × UInt32)} {updates : τ → Option Opts}
  {c c' : ModThreads τ} {a : ClientThreads τ}

/-- A thread that spares the key goes on. -/
theorem Mirrors.spare (hserver : ∀ key, pool.server key ≠ 4294967295)
    (hc : Mirrors pool updates key c a) {t : τ} {e : Outage} (hupdate : updates t = none)
    (h : modStep pool api cfg zlib c (t, e) = some c') : Mirrors pool updates key c' a := by
  obtain ⟨o, next, r, hleft, hcall, hl, -⟩ := Threads.step_eq_some h
  have hother : ∀ u, updates u ≠ none → c'.left u = c.left u := by
    intro u hu
    have hne : u ≠ t := by
      rintro rfl
      exact hu hupdate
    rw [hl, Function.update_of_ne hne]
  have hfollows := hc.spares t hupdate
  rw [hleft] at hfollows
  have hagree := modAtomic_spares hserver hcall hfollows.1
  refine ⟨⟨hc.agree.entries.trans hagree.entries.symm, hc.agree.used.trans hagree.used.symm⟩,
    fun u hu => ?_, fun u hu => ?_, fun u hu => ?_⟩
  · rw [hother u hu]
    exact hc.stops u hu
  · rw [hother u hu]
    exact hc.same u hu
  · by_cases hne : u = t
    · subst hne
      rw [hl, Function.update_self]
      exact hfollows.2 r
    · rw [hl, Function.update_of_ne hne]
      exact hc.spares u hu

/-- A thread that updates the key goes on, here and there. -/
theorem Mirrors.update (hc : Mirrors pool updates key c a) {t : τ} (hupdate : updates t ≠ none)
    {p : Program ClientOp ClientOp.Answer (Except Exn (Bytes × UInt32))}
    (hl : c'.left = Function.update c.left t p) (hstop : ∃ out, Stops key out p)
    {a' : ClientThreads τ} (hagree : Agree key a'.shared (c'.shared (pool.server key)))
    (hothers : ∀ u ≠ t, a'.left u = a.left u)
    (hsame : p = a'.left t ∨ p = .done (.error .outOfServers)) :
    Mirrors pool updates key c' a' := by
  have hself : c'.left t = p := by rw [hl, Function.update_self]
  have hother : ∀ u ≠ t, c'.left u = c.left u := fun u hu => by rw [hl, Function.update_of_ne hu]
  refine ⟨hagree, fun u hu => ?_, fun u hu => ?_, fun u hu => ?_⟩
  · by_cases hne : u = t
    · rwa [hne, hself]
    · rw [hother u hne]
      exact hc.stops u hu
  · by_cases hne : u = t
    · rwa [hne, hself]
    · rw [hother u hne, hothers u hne]
      exact hc.same u hu
  · have hne : u ≠ t := by
      rintro rfl
      exact hupdate hu
    rw [hother u hne]
    exact hc.spares u hu

/-- **A step** is one of the one server, or leaves the threads where they are there. -/
theorem mirrors_step (hserver : ∀ key, pool.server key ≠ 4294967295) {l : τ × Outage}
    (hc : Mirrors pool updates key c a) (h : modStep pool api cfg zlib c l = some c')
    (hf : Functional f updates c (l.1, l.2.toClientChoice)) :
    Mirrors pool updates key c' a ∨ ∃ l' a',
      clientStep (onlyServer api) zlib a l' = some a' ∧
        Functional f updates a l' ∧ Mirrors pool updates key c' a' := by
  obtain ⟨t, e⟩ := l
  by_cases hupdate : updates t = none
  · exact Or.inl (hc.spare hserver hupdate h)
  obtain ⟨o, next, r, hleft, hcall, hl, -⟩ := Threads.step_eq_some h
  obtain ⟨out, hstop⟩ := hc.stops t hupdate
  rw [hleft] at hstop
  obtain rfl : out = false := hstop.1.1
  have hsame : a.left t = .call o next := by
    rcases hc.same t hupdate with heq | hdone
    · rw [← heq, hleft]
    · rw [hleft] at hdone
      cases hdone
  have hfunctional : Functional f updates a (t, e.alone) := by
    intro opts hopts data flags next' hcallback
    refine hf opts hopts data flags next' ?_
    rw [hleft, ← hsame]
    exact hcallback
  cases o with
  | callback data flags =>
    obtain ⟨rfl, hshared⟩ := Prod.mk.inj (Option.some.inj hcall)
    refine Or.inr ⟨(t, e.alone), _, Threads.step_call hsame rfl, hfunctional,
      hc.update hupdate hl ⟨_, hstop.2 _⟩ ?_ (fun u hu => Function.update_of_ne hu _ _)
        (Or.inl (Function.update_self t (next e.result) a.left).symm)⟩
    rw [← hshared]
    exact ⟨hc.agree.entries, hc.agree.used⟩
  | run request h404 =>
    have hkey : request.key = some key := hstop.1.2
    obtain ⟨hfresh, hrun⟩ := modAtomic_run hserver hkey hcall
    rw [← hc.agree.used] at hfresh
    have hone : clientAtomic (onlyServer api) zlib t e.alone (.run request h404) a.shared = _ :=
      clientAtomic_onlyServer hkey hfresh le_rfl
    have hreach : Agree key (a.shared.apply t key e.fresh
        (serve (api t) zlib e.number request (a.shared.entries key)).2)
        (c.shared.reach api zlib t e key (pool.server key) request (pool.server key)) := by
      rw [Servers.reach, Function.update_self, ← hc.agree.entries]
      exact hc.agree.apply t t _ _
    rcases hrun with ⟨hr, hstate⟩ | ⟨hr, hstate | hstate⟩
    · -- the client gets the answer
      refine Or.inr ⟨(t, e.alone), _, Threads.step_call hsame hone, hfunctional,
        hc.update hupdate hl ⟨_, hstop.2 r⟩ (hstate ▸ hreach)
          (fun u hu => Function.update_of_ne hu _ _) (Or.inl ?_)⟩
      rw [hr, ← hc.agree.entries]
      exact (Function.update_self t (next _) a.left).symm
    · -- the request does not reach the server
      exact Or.inl (hc.update hupdate hl ⟨_, hstop.2 r⟩ (hstate ▸ hc.agree) (fun _ _ => rfl)
        (Or.inr (hr ▸ Stops.eq_done (hr ▸ hstop.2 r))))
    · -- the answer gets lost
      exact Or.inr ⟨(t, e.alone), _, Threads.step_call hsame hone, hfunctional,
        hc.update hupdate hl ⟨_, hstop.2 r⟩ (hstate ▸ hreach)
          (fun u hu => Function.update_of_ne hu _ _)
          (Or.inr (hr ▸ Stops.eq_done (hr ▸ hstop.2 r)))⟩

/-- **Updates are serialized while servers fail.** Over a pool without travelling, with any number
of threads that update a key by functions or spare it, whatever is dead and whatever gets lost: the
value of the key is what some updates make of the first value, one after the other. Every update
that returned is one of them, exactly once, and any other one of them ran out of servers. -/
theorem updates_serialized_outages (hz : zlib.Lossless) {v : Bytes × UInt32}
    {hashf : HashFunction} {addresses : Addresses} (hpool : modPool hashf addresses = .ok pool)
    {entries : UInt32 → Bytes → Option Entry} {program : τ → ClientM (Bytes × UInt32)}
    (hprogram : ∀ t, Does key (program t) (updates t))
    (hv : Held zlib v.1 v.2 (entries (pool.server key) key)) {ls : List (τ × Outage)}
    {s : ModThreads τ}
    (hrun : Run.exec (modStep pool api cfg zlib) (.initially entries program) ls = some s)
    (hf : Run.Along (modStep pool api cfg zlib)
      (fun s l _ => Functional f updates s (l.1, l.2.toClientChoice))
      (.initially entries program) ls) :
    ∃ order u, Applied f v order u ∧
      HasValue zlib u ((s.shared (pool.server key)).entries key) ∧
      (order.map Prod.fst).Nodup ∧
      (∀ t newData, updates t ≠ none → s.left t = .done (.ok newData) → (t, newData) ∈ order) ∧
      ∀ t newData, (t, newData) ∈ order → updates t ≠ none ∧
        (s.left t = .done (.ok newData) ∨ s.left t = .done (.error .outOfServers)) := by
  have hstart : Mirrors pool updates key (.initially entries program)
      (.initially (entries (pool.server key)) program) := by
    refine ⟨⟨rfl, rfl⟩, fun t ht => ⟨false, ?_⟩, fun t _ => Or.inl rfl, fun t ht => ?_⟩
    · have hdoes := hprogram t
      cases hupdate : updates t with
      | none => exact absurd hupdate ht
      | some opts =>
        rw [hupdate] at hdoes
        show Stops key false (program t).run
        rw [show program t = _ from hdoes]
        exact stops_atomicUpdate
    · have hdoes := hprogram t
      rw [ht] at hdoes
      exact hdoes
  obtain ⟨ls', a, hexec, halong, hmirrors⟩ := Run.simulates (Mirrors pool updates key)
    (fun _ _ _ _ hc h hf => mirrors_step (fun key => ModPool.server_ne hpool key) hc h hf)
    hstart hrun hf
  obtain ⟨order, u, happlied, hheld, hnodup, hmem⟩ :=
    updates_serialized hz hprogram hv hexec halong
  rw [hmirrors.agree.entries] at hheld
  refine ⟨order, u, happlied, hheld, hnodup, fun t newData ht hdone => ?_, fun t newData h => ?_⟩
  · refine (hmem t newData).mpr ⟨ht, ?_⟩
    rcases hmirrors.same t ht with heq | hout
    · rw [← heq, hdone]
    · rw [hdone] at hout
      cases hout
  · obtain ⟨ht, hdone⟩ := (hmem t newData).mp h
    refine ⟨ht, (hmirrors.same t ht).imp_left fun heq => ?_⟩
    rw [heq, hdone]

end Mirrors

/-! ### An answer that gets lost -/

def twoAddresses : Addresses := ⟨[ascii "a", ascii "b"], by decide⟩

def twoServers : ModPool := ⟨2, byteSum⟩

/-- A call whose functor, if any, was handed the value. -/
def lossyChoice (t : Bool) (value : String) (delivery : Delivery) (fresh : CasId) : Outage where
  toClientChoice := digitChoice t value fresh
  delivery := delivery

/-- The first thread never learns that its `cas` was carried out, the second one updates what it
stored. -/
def lossyUpdate : List (Bool × Outage) :=
  [(true, lossyChoice true "1" .answered ⟨20, by decide⟩),
    (true, lossyChoice true "1" .answered ⟨20, by decide⟩),
    (true, lossyChoice true "1" .unanswered ⟨20, by decide⟩),
    (false, lossyChoice false "13" .answered ⟨22, by decide⟩),
    (false, lossyChoice false "13" .answered ⟨22, by decide⟩),
    (false, lossyChoice false "13" .answered ⟨22, by decide⟩)]

theorem modAtomic_twoServers {request : Request} {h404 : Bool} {s : Servers Bool} {t : Bool}
    {e : Outage} {command : Command} (hkey : request.key = some (ascii "zz"))
    (hfresh : e.fresh ∉ (s 0).used (ascii "zz"))
    (hcommand : Api.text.command .plain request = .ok command) :
    modAtomic twoServers (fun _ => .text) (fun _ => {}) .plain t e (.run request h404) s =
      some (tryAll (reachable (fun _ => .text) .plain t e (ascii "zz")) {} request h404 [0] 0 true
        s) := by
  have hserver : twoServers.server (ascii "zz") = 0 := by decide
  have hne : twoServers.server (ascii "zz") ≠ 4294967295 := by decide
  simp only [modAtomic, hkey, modCall, hcommand, hserver]
  rw [if_neg fun h => hfresh (List.contains_iff_mem.mp h), ModPool.run_eq _ _ _ _ hne, hserver]
  rfl

theorem updates_serialized_outages_unanswered : ∃ s,
    Run.exec (modStep twoServers (fun _ => .text) (fun _ => {}) .plain)
        (.initially (fun _ => zzEntries) bothUpdate) lossyUpdate = some s ∧
      s.left true = .done (.error .outOfServers) ∧ s.left false = .done (.ok (ascii "132", 0)) ∧
      ∃ order u, Applied appendDigit (ascii "1", 0) order u ∧
        HasValue .plain u ((s.shared (twoServers.server (ascii "zz"))).entries (ascii "zz")) ∧
        (order.map Prod.fst).Nodup ∧
        (∀ t newData, some ({} : Opts) ≠ none → s.left t = .done (.ok newData) →
          (t, newData) ∈ order) ∧
        ∀ t newData, (t, newData) ∈ order → some ({} : Opts) ≠ none ∧
          (s.left t = .done (.ok newData) ∨ s.left t = .done (.error .outOfServers)) := by
  obtain ⟨s, hrun, hfunctional, htrue, hfalse⟩ : ∃ s,
      Run.exec (modStep twoServers (fun _ => .text) (fun _ => {}) .plain)
        (.initially (fun _ => zzEntries) bothUpdate) lossyUpdate = some s ∧
      Run.Along (modStep twoServers (fun _ => .text) (fun _ => {}) .plain)
        (fun s l _ => Functional appendDigit (fun _ => some {}) s (l.1, l.2.toClientChoice))
        (.initially (fun _ => zzEntries) bothUpdate) lossyUpdate ∧
      s.left true = .done (.error .outOfServers) ∧
      s.left false = .done (.ok (ascii "132", 0)) := by
    refine Run.exists_cons (Threads.step_call rfl (modAtomic_twoServers rfl (by decide) rfl))
      (by rintro _ - _ _ _ ⟨⟩) ?_
    refine Run.exists_cons (Threads.step_call rfl rfl) (by rintro _ - _ _ _ ⟨⟩; rfl) ?_
    refine Run.exists_cons (Threads.step_call rfl (modAtomic_twoServers rfl (by decide) rfl))
      (by rintro _ - _ _ _ ⟨⟩) ?_
    refine Run.exists_cons (Threads.step_call rfl (modAtomic_twoServers rfl (by decide) rfl))
      (by rintro _ - _ _ _ ⟨⟩) ?_
    refine Run.exists_cons (Threads.step_call rfl rfl) (by rintro _ - _ _ _ ⟨⟩; rfl) ?_
    refine Run.exists_cons (Threads.step_call rfl (modAtomic_twoServers rfl (by decide) rfl))
      (by rintro _ - _ _ _ ⟨⟩) ?_
    exact ⟨_, rfl, trivial, rfl, rfl⟩
  have hpool : modPool byteSum twoAddresses = .ok twoServers := rfl
  have hprogram : ∀ t, Does (ascii "zz") (bothUpdate t) (some {}) := fun _ => rfl
  have hv : Held .plain (ascii "1") 0 (zzEntries (ascii "zz")) := rfl
  exact ⟨s, hrun, htrue, hfalse, updates_serialized_outages (v := (ascii "1", 0))
    Zlib.lossless_plain hpool hprogram hv hrun hfunctional⟩

end McacheClient
