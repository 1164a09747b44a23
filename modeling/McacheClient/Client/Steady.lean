import McacheClient.Client.FlushAll

/-!
# Servers that are up

Requests of any kind when the first server of the key answers: it is callable, takes a connection
and was not restored a short time ago.

* `runConnected`: one call of `run` over servers that execute every command;
* `AnsweredBy`: the server that answers requests for a key;
* `code_ne_ioError_task`: no answer is taken for a server that is down;
* **`run_answered`**: the server executes the request, and no other one is asked.
-/

namespace McacheClient

/-- One call of `run`. -/
def runConnected (api : Api) (zlib : Zlib) (pool : Pool) (cfg : ClientConfig) (i : Instant)
    (what : UInt32 → Bytes) (request : Request) (h404 : Bool) (s : UInt32 → Peer) :
    Except Exn Response × (UInt32 → Peer) :=
  match api.command zlib request with
  | .error e => (.error e, s)
  | .ok command => run (connected api i what) cfg command h404 pool command.key s

/-- The first server of a key is up, and has been for so long that its `not_found` counts. -/
structure AnsweredBy (pool : Pool) (cfg : ClientConfig) (i : Instant) (key : Bytes) (idx : UInt32) :
    Prop where
  first : (visits pool cfg key).head? = some idx
  callable : i.callable idx = true
  reached : i.reached idx = true
  lifespan : cfg.h404Duration ≤ i.lifespan idx

section Steady

variable {api : Api} {zlib : Zlib} {pool : Pool} {cfg : ClientConfig} {i : Instant}
  {request : Request} {task : ServerTask} {command : Command} {servers : UInt32 → Memcached}
  {s : UInt32 → Peer} {key : Bytes} {idx : UInt32}

theorem code_ne_ioError_task {unique : Bool} {answer : TaskAnswer} {response : Response}
    (h : ShowsTask api zlib unique answer (.ok response)) : response.code ≠ .ioError := by
  cases answer with
  | item answer =>
    rw [code_of_shows h]
    exact code_ne_ioError api answer
  | number n =>
    obtain rfl := Except.ok.inj h
    simp
  | notANumber | flushed =>
    obtain ⟨data, hdata⟩ := h
    obtain rfl := Except.ok.inj hdata
    simp

theorem Requests.exists_command (h : Requests api zlib request task)
    (hkey : request.key = some key) :
    ∃ command, api.command zlib request = .ok command ∧ command.key = key := by
  cases h with
  | item hasks hportable hchecked =>
    obtain ⟨command, hcommand⟩ := hasks.exists_command api
    refine ⟨command, hcommand, ?_⟩
    rw [(serialize_eq hasks hcommand).1]
    exact Option.some.inj (hasks.key.symm.trans hkey)
  | @count name _ value opts hne hchecked hcounts =>
    obtain rfl := Option.some.inj hkey
    cases api with
    | text =>
      have hinitial : ¬opts.initial ≠ 0 := not_not_intro hcounts
      exact ⟨_, if_neg hinitial, rfl⟩
    | binary => exact ⟨_, rfl, rfl⟩
  | flush => cases hkey

/-- **A request for a key** is executed by its first server. -/
theorem run_answered (what : UInt32 → Bytes) (h : Requests api zlib request task)
    (hkey : request.key = some key) (hanswered : AnsweredBy pool cfg i key idx) (h404 : Bool)
    (hs : Serving servers s) (hfits : FitsTask i.now (servers idx) task) :
    ∃ result s', runConnected api zlib pool cfg i what request h404 s = (result, s') ∧
      ShowsTask api zlib request.unique (executeTask i.now task (servers idx)).1 result ∧
      Serving (Function.update servers idx (executeTask i.now task (servers idx)).2) s' := by
  obtain ⟨command, hcommand, rfl⟩ := h.exists_command hkey
  obtain ⟨result, s', hsend, hshows, hs'⟩ :=
    send_perform what h hcommand hs hfits hanswered.reached
  refine ⟨result, s', ?_, hshows, hs'⟩
  obtain ⟨idxs, hvisits⟩ : ∃ idxs, visits pool cfg command.key = idx :: idxs := by
    cases hvisits : visits pool cfg command.key with
    | nil =>
      have hfirst := hanswered.first
      rw [hvisits] at hfirst
      cases hfirst
    | cons x idxs =>
      have hfirst := hanswered.first
      rw [hvisits] at hfirst
      exact ⟨idxs, congrArg (· :: idxs) (Option.some.inj hfirst)⟩
  have hback : tryServer (connected api i what) cfg command h404 idx 0 s = (.back result, s') := by
    have hcallable : (connected api i what).callable idx s = (true, s) :=
      congrArg (·, s) hanswered.callable
    have hlifespan : (connected api i what).lifespan idx s' = (i.lifespan idx, s') := rfl
    have hlived : ¬i.lifespan idx < cfg.h404Duration := not_lt.mpr hanswered.lifespan
    simp only [tryServer, hcallable, hsend]
    cases result with
    | error e => rfl
    | ok response =>
      have hio := code_ne_ioError_task hshows
      cases hcode : response.code with
      | ioError => exact absurd hcode hio
      | notFound => cases h404 <;> simp [hcode, hlifespan, hlived]
      | _ => simp [hcode]
  rw [runConnected, hcommand]
  simp only [run, runLoop_eq, Nat.sub_zero]
  exact (congrArg (fun idxs => tryAll _ cfg command h404 idxs 0 true s) hvisits).trans
    (tryAll_back hback)

end Steady

end McacheClient
