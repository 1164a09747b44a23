import McacheClient.Client.Methods
import McacheClient.Client.Store
import McacheClient.Lib.Threads

/-!
# Clients of one live server

Any number of threads run programs of clients, whose requests all go to one server that was never
marked dead and never fails.

* `World`: the entries of the server, the ids that it has given, and a log of what happened;
* `live`: proxies that reach the server;
* `clientAtomic`: one call of a thread: of `run`, or of its functor;
* `run_live`: `run` over such proxies sends the request once;
* `Evolves`: what any call of any thread leaves of what another one knows;
* `replay`, `replay_clientAtomic`: the log tells what happened to the entries;
* **`evolves_clientAtomic`**: an entry that is there after a call was there before it or has a new
  id.
-/

namespace McacheClient

/-- What happened at the server, and the calls of functors. -/
inductive Event (τ : Type)
  | called (thread : τ) (data : Bytes) (flags : UInt32) (result : Except Exn (Bytes × UInt32))
  | mutated (thread : τ) (key : Bytes) (before after : Option Entry)

namespace Event

variable {τ : Type}

def thread : Event τ → τ
  | called thread .. | mutated thread .. => thread

/-- Did the event change the server? -/
def mutates : Event τ → Bool
  | called .. => false
  | mutated .. => true

end Event

/-- The server with the ids that were given for each key; the log is a ghost. -/
structure World (τ : Type) where
  entries : Bytes → Option Entry
  used : Bytes → List CasId
  log : List (Event τ)
  cas_used : ∀ key, ∀ e ∈ entries key, e.cas ∈ used key

/-- What the environment chooses: the result of the functor, the id of a mutation, the new value of
a counter, and the clock in seconds. -/
structure ClientChoice where
  result : Except Exn (Bytes × UInt32) := .ok ([], 0)
  fresh : CasId := ⟨1, by decide⟩
  number : Option Bytes := none
  now : ℤ := 0

namespace World

variable {τ : Type}

/-- A server with these entries, before anything happens. -/
def initial (entries : Bytes → Option Entry) : World τ where
  entries := entries
  used key := (entries key).toList.map Entry.cas
  log := []
  cas_used _ _ h := List.mem_map_of_mem (Option.mem_toList.mpr h)

/-- The entry of a key after an effect. A changed entry uses up its id. -/
def put (t : τ) (key : Bytes) (fresh : CasId) (effect : Effect) (w : World τ) : World τ where
  entries := Function.update w.entries key (effect.apply fresh (w.entries key))
  used := Function.update w.used key (fresh :: w.used key)
  log := w.log ++ [.mutated t key (w.entries key) (effect.apply fresh (w.entries key))]
  cas_used := by
    intro k e he
    by_cases hk : k = key
    · subst hk
      rw [Function.update_self] at he ⊢
      cases effect with
      | keep => exact List.mem_cons_of_mem _ (w.cas_used k e he)
      | put data flags => cases he; exact List.mem_cons_self
      | remove => cases he
    · rw [Function.update_of_ne hk] at he ⊢
      exact w.cas_used k e he

section Put

variable (t : τ) (key : Bytes) (fresh : CasId) (effect : Effect) (w : World τ)

@[simp] theorem put_entries : (w.put t key fresh effect).entries =
    Function.update w.entries key (effect.apply fresh (w.entries key)) := rfl

@[simp] theorem put_used : (w.put t key fresh effect).used =
    Function.update w.used key (fresh :: w.used key) := rfl

@[simp] theorem put_log : (w.put t key fresh effect).log =
    w.log ++ [.mutated t key (w.entries key) (effect.apply fresh (w.entries key))] := rfl

end Put

/-- The effect of a request of thread `t`. -/
def apply (t : τ) (key : Bytes) (fresh : CasId) : Effect → World τ → World τ
  | .keep, w => w
  | effect, w => w.put t key fresh effect

def record (event : Event τ) (w : World τ) : World τ := { w with log := w.log ++ [event] }

/-- The events of a thread. -/
def eventsOf [DecidableEq τ] (t : τ) (w : World τ) : List (Event τ) :=
  w.log.filter fun event => event.thread = t

end World

section Atomic

variable {τ : Type} (client : τ → Client) (zlib : Zlib)

/-- Proxies that all reach the one server, for the thread `t`. A server that was never marked dead
lives since the epoch. -/
def live (t : τ) (e : ClientChoice) (key : Bytes) : ServerProxies (World τ) Request where
  callable _ w := (true, w)
  send _ request w :=
    let (result, effect) := serve (client t).api zlib e.number request (w.entries key)
    (result, w.apply t key e.fresh effect)
  lifespan _ w := (e.now, w)

/-- One call of thread `t`. The server gives a mutation an id that the key never had, and the epoch
is longer ago than `h404_duration`. -/
def clientAtomic (t : τ) (e : ClientChoice) : (o : ClientOp) → World τ → Option (o.Answer × World τ)
  | .callback data flags, w => some (e.result, w.record (.called t data flags e.result))
  | .run request h404, w =>
    match request.key with
    | none => none
    | some key =>
      if e.fresh ∉ w.used key ∧ (client t).cfg.h404Duration ≤ e.now then
        some (run (live client zlib t e key) (client t).cfg request h404 (client t).pool key w)
      else none

variable {client zlib} {t : τ} {e : ClientChoice} {key : Bytes} {w w' : World τ}
  {request : Request} {h404 : Bool}

theorem tryServer_live (hnow : (client t).cfg.h404Duration ≤ e.now) (idx : UInt32) :
    tryServer (live client zlib t e key) (client t).cfg request h404 idx 0 w =
      (.back (serve (client t).api zlib e.number request (w.entries key)).1,
        w.apply t key e.fresh (serve (client t).api zlib e.number request (w.entries key)).2) := by
  simp only [tryServer, live]
  cases hserve : (serve (client t).api zlib e.number request (w.entries key)).1 with
  | error ex => rfl
  | ok response =>
    simp only
    cases hcode : response.code with
    | ioError => exact absurd hcode (serve_ne_ioError hserve)
    | notFound => simp [not_lt.mpr hnow]
    | _ => rfl

/-- **A request reaches the server once** when there is a server to try. -/
theorem run_live (hnow : (client t).cfg.h404Duration ≤ e.now) {pool : Pool}
    (hroute : ((pool.choose key).walk.destutter' (· ≠ ·) 4294967295).tail.take
      (client t).cfg.maxContinues.toNat ≠ []) :
    run (live client zlib t e key) (client t).cfg request h404 pool key w =
      ((serve (client t).api zlib e.number request (w.entries key)).1,
        w.apply t key e.fresh (serve (client t).api zlib e.number request (w.entries key)).2) := by
  rw [run, runLoop_eq, Nat.sub_zero]
  obtain ⟨idx, idxs, hlist⟩ := List.exists_cons_of_ne_nil hroute
  rw [hlist, tryAll, tryServer_live hnow]

theorem run_nil {pool : Pool}
    (hroute : ((pool.choose key).walk.destutter' (· ≠ ·) 4294967295).tail.take
      (client t).cfg.maxContinues.toNat = []) :
    run (live client zlib t e key) (client t).cfg request h404 pool key w =
      (.error .outOfServers, w) := by
  rw [run, runLoop_eq, Nat.sub_zero, hroute]
  rfl

/-! ## What a call leaves of what others know -/

/-- What a call of thread `t` can do to the world. -/
structure Evolves (t : τ) (w w' : World τ) : Prop where
  used : ∀ key, ∀ c ∈ w.used key, c ∈ w'.used key
  entries : ∀ key, ∀ e ∈ w'.entries key, e ∈ w.entries key ∨ e.cas ∉ w.used key
  log : ∃ events, w'.log = w.log ++ events ∧ ∀ event ∈ events, event.thread = t

theorem Evolves.refl (t : τ) (w : World τ) : Evolves t w w where
  used _ _ h := h
  entries _ _ h := Or.inl h
  log := ⟨[], (List.append_nil _).symm, nofun⟩

theorem evolves_put (hfresh : e.fresh ∉ w.used key) (effect : Effect) :
    Evolves t w (w.put t key e.fresh effect) where
  used k c hc := by
    by_cases hk : k = key
    · subst hk
      rw [World.put_used, Function.update_self]
      exact List.mem_cons_of_mem _ hc
    · rw [World.put_used, Function.update_of_ne hk]
      exact hc
  entries k entry hentry := by
    by_cases hk : k = key
    · subst hk
      rw [World.put_entries, Function.update_self] at hentry
      cases effect with
      | keep => exact Or.inl hentry
      | put data flags =>
        cases hentry
        exact Or.inr hfresh
      | remove => cases hentry
    · rw [World.put_entries, Function.update_of_ne hk] at hentry
      exact Or.inl hentry
  log := ⟨_, rfl, by simp [Event.thread]⟩

theorem evolves_apply (hfresh : e.fresh ∉ w.used key) (effect : Effect) :
    Evolves t w (w.apply t key e.fresh effect) := by
  cases effect with
  | keep => exact Evolves.refl t w
  | put data flags => exact evolves_put hfresh _
  | remove => exact evolves_put hfresh _

/-- A call of `run` sends its request once, or ends before anything is sent. -/
theorem clientAtomic_run {r : Except Exn Response} (hkey : request.key = some key)
    (h : clientAtomic client zlib t e (.run request h404) w = some (r, w')) :
    e.fresh ∉ w.used key ∧
      ((r, w') = ((serve (client t).api zlib e.number request (w.entries key)).1,
        w.apply t key e.fresh (serve (client t).api zlib e.number request (w.entries key)).2) ∨
      (r, w') = (.error .outOfServers, w)) := by
  simp only [clientAtomic, hkey] at h
  split_ifs at h with hguard
  refine ⟨hguard.1, ?_⟩
  rw [← Option.some.inj h]
  by_cases hroute : (((client t).pool.choose key).walk.destutter' (· ≠ ·) 4294967295).tail.take
      (client t).cfg.maxContinues.toNat = []
  · exact Or.inr (run_nil hroute)
  · exact Or.inl (run_live hguard.2 hroute)

/-- **An entry after a call** was there before it or has an id that the key never had. -/
theorem evolves_clientAtomic {o : ClientOp} {r : o.Answer}
    (h : clientAtomic client zlib t e o w = some (r, w')) : Evolves t w w' := by
  cases o with
  | callback data flags =>
    cases h
    exact ⟨fun _ _ h => h, fun _ _ h => Or.inl h, _, rfl, by simp [Event.thread]⟩
  | run request h404 =>
    cases hkey : request.key with
    | none => simp [clientAtomic, hkey] at h
    | some key =>
      obtain ⟨hfresh, hrun | hrun⟩ := clientAtomic_run hkey h
      · rw [(Prod.mk.inj hrun).2]
        exact evolves_apply hfresh _
      · rw [(Prod.mk.inj hrun).2]
        exact Evolves.refl t w

/-! ## The log -/

/-- The entries after the events of a log; none when the log names an entry before a mutation that
was not there. -/
def replay : List (Event τ) → (Bytes → Option Entry) → Option (Bytes → Option Entry)
  | [], entries => some entries
  | .called .. :: events, entries => replay events entries
  | .mutated _ key before after :: events, entries =>
    if entries key = before then replay events (Function.update entries key after) else none

theorem replay_append (events events' : List (Event τ)) (entries : Bytes → Option Entry) :
    replay (events ++ events') entries = (replay events entries).bind (replay events') := by
  induction events generalizing entries with
  | nil => rfl
  | cons event events ih =>
    cases event with
    | called => exact ih entries
    | mutated =>
      rw [List.cons_append, replay, replay]
      split_ifs
      · exact ih _
      · rfl

/-- **A call logs what it does** to the entries. -/
theorem replay_clientAtomic {o : ClientOp} {r : o.Answer}
    (h : clientAtomic client zlib t e o w = some (r, w')) {entries : Bytes → Option Entry}
    (hlog : replay w.log entries = some w.entries) : replay w'.log entries = some w'.entries := by
  have hput : ∀ key (effect : Effect),
      replay (w.put t key e.fresh effect).log entries =
        some (w.put t key e.fresh effect).entries := by
    intro key effect
    rw [World.put_log, replay_append, hlog, Option.bind_some, replay, if_pos rfl]
    rfl
  cases o with
  | callback data flags =>
    cases h
    show replay (w.log ++ _) entries = _
    rw [replay_append, hlog]
    rfl
  | run request h404 =>
    cases hkey : request.key with
    | none => simp [clientAtomic, hkey] at h
    | some key =>
      obtain ⟨-, hrun | hrun⟩ := clientAtomic_run hkey h
      · rw [(Prod.mk.inj hrun).2]
        cases (serve (client t).api zlib e.number request (w.entries key)).2 with
        | keep => exact hlog
        | put data flags => exact hput key _
        | remove => exact hput key _
      · rw [(Prod.mk.inj hrun).2]
        exact hlog

section Events

variable [DecidableEq τ] {u : τ}

theorem Evolves.eventsOf (h : Evolves t w w') (hne : t ≠ u) : w'.eventsOf u = w.eventsOf u := by
  obtain ⟨events, hlog, hthread⟩ := h.log
  have hnil : (events.filter fun event => event.thread = u) = [] :=
    List.filter_eq_nil_iff.mpr fun event hevent => by simp [hthread event hevent, hne]
  rw [World.eventsOf, hlog, List.filter_append, hnil, List.append_nil]
  rfl

theorem eventsOf_append {events : List (Event τ)} (hlog : w'.log = w.log ++ events)
    (hthread : ∀ event ∈ events, event.thread = u) :
    w'.eventsOf u = w.eventsOf u ++ events := by
  have hall : (events.filter fun event => event.thread = u) = events :=
    List.filter_eq_self.mpr fun event hevent => decide_eq_true (hthread event hevent)
  rw [World.eventsOf, hlog, List.filter_append, hall]
  rfl

end Events

end Atomic

end McacheClient
