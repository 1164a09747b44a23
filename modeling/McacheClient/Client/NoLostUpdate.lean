import McacheClient.Client.Failover
import McacheClient.Client.World

/-!
# No update is lost

A thread that updates a key by `atomic_update`, among threads that run any programs of clients.

* `Phase`: where the thread is in an iteration, a ghost;
* `follows_atomicUpdate`: the loop asks for the calls of its phase, in their order;
* `Knows`: what the thread has seen is still the entry with that id, if there is one;
* `Progress`, `progress_call`: what the thread has done so far, kept by the calls of all threads;
* **`atomicUpdate_mutates`**: an update that returns is one mutation, of the value that the functor
  was handed last; an update that throws is none.
-/

namespace McacheClient

/-! ## The discipline of the loop -/

/-- Where a thread is: in any program, or in an iteration of the loop. -/
inductive Phase
  | free
  | start
  | seen (res : Result)
  | chosen (res : Result) (newData : Bytes × UInt32)
  | stored (res : Result) (newData : Bytes × UInt32)

/-- The request that stores the new data after `gets` returned `res`. -/
def storeRequest (key : Bytes) (opts : Opts) (res : Result) (newData : Bytes × UInt32) : Request :=
  if res.found then
    .storage .cas key newData.1
      { expiration := opts.expiration, flags := newData.2, cas := res.cas }
  else .storage .add key newData.1 { expiration := opts.expiration, flags := newData.2 }

namespace Phase

variable (key : Bytes) (opts : Opts)

def allowed : Phase → ClientOp → Prop
  | free, _ => True
  | start, o => o = .run (.retrieve .gets key) true
  | seen res, o => o = .callback res.data res.flags
  | chosen res newData, o => o = .run (storeRequest key opts res newData) false
  | stored .., _ => False

/-- What `gets` makes of a response. -/
def look (response : Response) : Phase :=
  match response.code with
  | .ok => seen
    { found := true, data := response.data, flags := response.flags, cas := response.cas }
  | .notFound => seen { found := false }
  | _ => start

def advance : Phase → (o : ClientOp) → o.Answer → Phase
  | free, _, _ => free
  | start, .run .., .ok response => look response
  | seen res, .callback .., .ok newData => chosen res newData
  | chosen res newData, .run .., .ok response =>
    if response.code = .ok ∨ response.code = .stored then stored res newData else start
  | _, _, _ => start

def final : Phase → Except Exn (Bytes × UInt32) → Prop
  | free, _ => True
  | stored _ newData, result => result = .ok newData
  | _, result => ∃ e, result = .error e

end Phase

section Follows

variable {key : Bytes} {opts : Opts} {α β : Type}

/-- A program of a client obeys the discipline of the loop. -/
abbrev FollowsLoop (key : Bytes) (opts : Opts) (final : Phase → Except Exn α → Prop) (s : Phase)
    (p : ClientM α) : Prop :=
  Program.Follows (Phase.allowed key opts) Phase.advance final s p.run

theorem FollowsLoop.bind {post : Phase → Except Exn α → Prop} {final : Phase → Except Exn β → Prop}
    {s : Phase} {p : ClientM α} {f : α → ClientM β} (h : FollowsLoop key opts post s p)
    (hok : ∀ s a, post s (.ok a) → FollowsLoop key opts final s (f a))
    (herror : ∀ s e, post s (.error e) → final s (.error e)) :
    FollowsLoop key opts final s (p >>= f) := by
  refine Program.follows_bind.mpr (Program.Follows.mono h fun s r hr => ?_)
  cases r with
  | ok a => exact hok s a hr
  | error e => exact herror s e hr

theorem follows_free (p : Program ClientOp ClientOp.Answer α) :
    p.Follows (Phase.allowed key opts) Phase.advance (fun s _ => s = .free) .free := by
  induction p with
  | done a => rfl
  | call o next ih => exact ⟨trivial, fun r => ih r⟩

/-- After `gets`. -/
def Looked (s : Phase) : Except Exn Result → Prop
  | .ok res => s = .seen res ∧ (res.found = false → res.data = [] ∧ res.flags = 0)
  | .error _ => s = .start

theorem follows_gets : FollowsLoop key opts Looked .start (gets key) := by
  refine ⟨rfl, fun r => ?_⟩
  cases r with
  | error e => rfl
  | ok response =>
    obtain ⟨code, data, flags, cas⟩ := response
    cases code with
    | ok => exact ⟨rfl, nofun⟩
    | notFound => exact ⟨rfl, fun _ => ⟨rfl, rfl⟩⟩
    | _ => rfl

/-- After the functor. -/
def Chosen (res : Result) (s : Phase) : Except Exn (Bytes × UInt32) → Prop
  | .ok newData => s = .chosen res newData
  | .error _ => s = .start

theorem follows_runCallback (res : Result) :
    FollowsLoop key opts (Chosen res) (.seen res) (runCallback res.data res.flags) := by
  refine ⟨rfl, fun r => ?_⟩
  cases r <;> rfl

/-- After `cas` or `add`. -/
def StoredOr (res : Result) (newData : Bytes × UInt32) (s : Phase) : Except Exn Bool → Prop
  | .ok true => s = .stored res newData
  | .ok false => s = .start
  | .error _ => s = .start ∨ s = .chosen res newData

theorem follows_casOrExpired {res : Result} (hfound : res.found = true) (newData : Bytes × UInt32) :
    FollowsLoop key opts (StoredOr res newData) (.chosen res newData)
      (casOrExpired key newData.1
        { expiration := opts.expiration, flags := newData.2, cas := res.cas }) := by
  by_cases hcas : res.cas = 0
  · rw [casOrExpired, cas, if_pos hcas]
    exact Or.inr rfl
  · rw [casOrExpired, cas, if_neg hcas]
    refine ⟨by rw [Phase.allowed, storeRequest, hfound]; rfl, fun r => ?_⟩
    cases r with
    | error e =>
      cases e with
      | proto code msg => cases code <;> first | rfl | exact Or.inl rfl
      | _ => exact Or.inl rfl
    | ok response =>
      obtain ⟨code, data, flags, cas⟩ := response
      cases code <;> first | rfl | exact Or.inl rfl

theorem follows_add {res : Result} (hfound : res.found = false) (newData : Bytes × UInt32) :
    FollowsLoop key opts (StoredOr res newData) (.chosen res newData)
      (add key newData.1 { expiration := opts.expiration, flags := newData.2 }) := by
  refine ⟨by rw [Phase.allowed, storeRequest, hfound]; rfl, fun r => ?_⟩
  cases r with
  | error e => exact Or.inl rfl
  | ok response =>
    obtain ⟨code, data, flags, cas⟩ := response
    cases code <;> first | rfl | exact Or.inl rfl

/-- **The loop asks for the calls of its phase**, and returns what was stored. -/
theorem follows_atomicUpdateLoop (iters : ℕ) :
    FollowsLoop key opts Phase.final .start (atomicUpdateLoop key opts iters) := by
  induction iters with
  | zero => exact ⟨_, rfl⟩
  | succ iters ih =>
    -- what comes after the functor, in both branches
    have hstore : ∀ (res : Result) (newData : Bytes × UInt32) (p : ClientM Bool),
        FollowsLoop key opts (StoredOr res newData) (.chosen res newData) p →
        FollowsLoop key opts Phase.final (.chosen res newData)
          (p >>= fun stored =>
            if stored = true then pure newData else atomicUpdateLoop key opts iters) := by
      intro res newData p hp
      refine hp.bind (fun s stored h => ?_) fun s e h => ?_
      · cases stored with
        | true => cases h; rfl
        | false => cases h; exact ih
      · rcases h with rfl | rfl <;> exact ⟨e, rfl⟩
    have hcall : ∀ (res : Result) (f : Bytes × UInt32 → ClientM (Bytes × UInt32)),
        (∀ newData, FollowsLoop key opts Phase.final (.chosen res newData) (f newData)) →
        FollowsLoop key opts Phase.final (.seen res) (runCallback res.data res.flags >>= f) := by
      intro res f hf
      refine (follows_runCallback res).bind (fun s newData h => ?_) fun s e h => ?_
      · cases h
        exact hf newData
      · cases h
        exact ⟨e, rfl⟩
    unfold atomicUpdateLoop
    refine follows_gets.bind (fun s res h => ?_) fun s e h => by cases h; exact ⟨e, rfl⟩
    obtain ⟨rfl, hnil⟩ := h
    cases hfound : res.found with
    | true =>
      exact hcall res _ fun newData => hstore res newData _ (follows_casOrExpired hfound newData)
    | false =>
      have h := hcall res _ fun newData => hstore res newData _ (follows_add hfound newData)
      rw [(hnil hfound).1, (hnil hfound).2] at h
      exact h

theorem follows_atomicUpdate : FollowsLoop key opts Phase.final .start (atomicUpdate key opts) :=
  follows_atomicUpdateLoop _

end Follows

/-! ## What a thread has done -/

section Progress

variable {τ : Type} (zlib : Zlib)

/-- No event changed the server. -/
def Quiet (events : List (Event τ)) : Prop := ∀ event ∈ events, event.mutates = false

/-- The value before a mutation, as the functor is handed it. -/
def Held (data : Bytes) (flags : UInt32) : Option Entry → Prop
  | none => data = [] ∧ flags = 0
  | some e => e.value zlib = .ok (data, flags)

/-- The events of one update: earlier calls of the functor, the call that was handed the value
before the mutation and returned the new data, and the mutation, which stores them. -/
def OneUpdate (t : τ) (key : Bytes) (newData : Bytes × UInt32) (events : List (Event τ)) : Prop :=
  ∃ earlier data flags before after, Quiet earlier ∧
    events = earlier ++ [.called t data flags (.ok newData), .mutated t key before (some after)] ∧
    Held zlib data flags before ∧ after.Keeps zlib newData

/-- What an update with this result did: one mutation, or none when it threw. -/
def Accounted (t : τ) (key : Bytes) (events : List (Event τ)) :
    Except Exn (Bytes × UInt32) → Prop
  | .ok newData => OneUpdate zlib t key newData events
  | .error _ => Quiet events

/-- What `gets` returned is still the entry with that id, if there is one. -/
def Knows (key : Bytes) (w : World τ) (res : Result) : Prop :=
  if res.found then
    (∃ c ∈ w.used key, c.val = res.cas) ∧
      ∀ e ∈ w.entries key, e.cas.val = res.cas → e.value zlib = .ok (res.data, res.flags)
  else res.data = [] ∧ res.flags = 0

/-- **What was seen is not forgotten**: a new entry has another id. -/
theorem Knows.evolves {key : Bytes} {u : τ} {w w' : World τ} {res : Result}
    (h : Knows zlib key w res) (hw : Evolves u w w') : Knows zlib key w' res := by
  unfold Knows at h ⊢
  split_ifs at h ⊢
  · obtain ⟨⟨c, hc, hcas⟩, hentry⟩ := h
    refine ⟨⟨c, hw.used key c hc, hcas⟩, fun e he heq => ?_⟩
    rcases hw.entries key e he with hold | hnew
    · exact hentry e hold heq
    · exact absurd (Subtype.ext (heq.trans hcas.symm) ▸ hc) hnew
  · exact h

theorem knows_entry {key : Bytes} {w : World τ} {e : Entry} (he : w.entries key = some e)
    {response : Response} (hcas : response.cas = e.cas.val)
    (hvalue : e.value zlib = .ok (response.data, response.flags)) :
    Knows zlib key w { found := true, data := response.data, flags := response.flags
                       cas := response.cas } := by
  refine ⟨⟨e.cas, w.cas_used key e he, hcas.symm⟩, fun e' he' _ => ?_⟩
  rw [Option.mem_def, he] at he'
  exact Option.some.inj he' ▸ hvalue

variable [DecidableEq τ]

/-- What a thread has done when it is in a phase of the loop. -/
def Progress (t : τ) (key : Bytes) (w : World τ) : Phase → Prop
  | .free => False
  | .start => Quiet (w.eventsOf t)
  | .seen res => Quiet (w.eventsOf t) ∧ Knows zlib key w res
  | .chosen res newData => (∃ earlier, Quiet earlier ∧
      w.eventsOf t = earlier ++ [.called t res.data res.flags (.ok newData)]) ∧ Knows zlib key w res
  | .stored _ newData => OneUpdate zlib t key newData (w.eventsOf t)

variable {zlib} {client : τ → Client} {t u : τ} {key : Bytes} {opts : Opts} {w w' : World τ}
  {s : Phase} {e : ClientChoice}

/-- The calls of other threads take nothing away. -/
theorem Progress.evolves (h : Progress zlib t key w s) (hw : Evolves u w w') (hne : u ≠ t) :
    Progress zlib t key w' s := by
  cases s with
  | free => exact h.elim
  | start => rw [Progress, hw.eventsOf hne]; exact h
  | seen res => rw [Progress, hw.eventsOf hne]; exact ⟨h.1, h.2.evolves zlib hw⟩
  | chosen res newData => rw [Progress, hw.eventsOf hne]; exact ⟨h.1, h.2.evolves zlib hw⟩
  | stored res newData => rw [Progress, hw.eventsOf hne]; exact h

omit [DecidableEq τ] in
theorem quiet_concat {events : List (Event τ)} (h : Quiet events) (data : Bytes) (flags : UInt32)
    (result : Except Exn (Bytes × UInt32)) : Quiet (events ++ [.called t data flags result]) := by
  intro event hevent
  rcases List.mem_append.mp hevent with hevent | hevent
  · exact h event hevent
  · rw [List.mem_singleton.mp hevent]
    rfl

theorem progress_gets {r : Except Exn Response} (h : Quiet (w.eventsOf t))
    (hcall : clientAtomic client zlib t e (.run (.retrieve .gets key) true) w = some (r, w')) :
    Progress zlib t key w' (Phase.start.advance (.run (.retrieve .gets key) true) r) := by
  obtain ⟨-, hrun | hrun⟩ := clientAtomic_run rfl hcall
  · obtain ⟨rfl, rfl⟩ := Prod.mk.inj hrun
    rw [serve_retrieve_keep]
    cases hr : (serve (client t).api zlib e.number (.retrieve .gets key) (w.entries key)).1 with
    | error ex => exact h
    | ok response =>
      rcases serve_retrieve hr with hr | rfl
      swap
      · cases hapi : (client t).api <;> exact h
      rcases retrieved_gets hr with ⟨-, hcode⟩ | ⟨entry, he, hcode, hcas, hvalue⟩
      · simp only [Phase.advance, Phase.look, hcode]
        exact ⟨h, rfl, rfl⟩
      · simp only [Phase.advance, Phase.look, hcode]
        exact ⟨h, knows_entry zlib he hcas hvalue⟩
  · cases hrun
    exact h

theorem progress_callback {res : Result} {r : Except Exn (Bytes × UInt32)}
    (h : Quiet (w.eventsOf t)) (hknows : Knows zlib key w res)
    (hcall : clientAtomic client zlib t e (.callback res.data res.flags) w = some (r, w')) :
    Progress zlib t key w'
      ((Phase.seen res).advance (.callback res.data res.flags) r) := by
  have hevolves := evolves_clientAtomic hcall
  cases hcall
  have hevents : (w.record (.called t res.data res.flags e.result)).eventsOf t =
      w.eventsOf t ++ [.called t res.data res.flags e.result] :=
    eventsOf_append rfl (by simp [Event.thread])
  cases hresult : e.result with
  | error ex =>
    rw [hresult] at hevents
    show Quiet _
    rw [hevents]
    exact quiet_concat h _ _ _
  | ok newData =>
    rw [hresult] at hevents hevolves
    exact ⟨⟨w.eventsOf t, h, hevents⟩, hknows.evolves zlib hevolves⟩

omit [DecidableEq τ] in
/-- What `cas` and `add` find when they are carried out, and what they store. -/
theorem stored_of_verdict (hz : zlib.Lossless) {api : Api} {res : Result}
    {newData v : Bytes × UInt32} {stored : Bytes} (hknows : Knows zlib key w res)
    {name : StorageName} {storeOpts : Opts}
    (hrequest : storeRequest key opts res newData = .storage name key newData.1 storeOpts)
    (hpacked : packed zlib newData.1 storeOpts = .ok stored)
    (hv : verdict api name stored storeOpts (w.entries key) = .ok v) (fresh : CasId) :
    Held zlib res.data res.flags (w.entries key) ∧
      (⟨v.1, v.2, fresh⟩ : Entry).Keeps zlib newData := by
  unfold storeRequest at hrequest
  unfold Knows at hknows
  split_ifs at hrequest hknows
  · cases hrequest
    obtain ⟨entry, hentry, hcas, rfl⟩ := verdict_cas hv
    rw [hentry]
    exact ⟨hknows.2 entry hentry hcas, keeps_packed hz hpacked fresh⟩
  · cases hrequest
    obtain ⟨hentry, rfl⟩ := verdict_add rfl hv
    rw [hentry]
    exact ⟨hknows, keeps_packed hz hpacked fresh⟩

theorem progress_store (hz : zlib.Lossless) {res : Result} {newData : Bytes × UInt32}
    {r : Except Exn Response} {earlier : List (Event τ)} (hquiet : Quiet earlier)
    (hevents : w.eventsOf t = earlier ++ [.called t res.data res.flags (.ok newData)])
    (hknows : Knows zlib key w res)
    (hcall : clientAtomic client zlib t e (.run (storeRequest key opts res newData) false) w =
      some (r, w')) :
    Progress zlib t key w' ((Phase.chosen res newData).advance
      (.run (storeRequest key opts res newData) false) r) := by
  obtain ⟨name, storeOpts, hrequest⟩ : ∃ name storeOpts,
      storeRequest key opts res newData = .storage name key newData.1 storeOpts := by
    unfold storeRequest
    split_ifs
    · exact ⟨_, _, rfl⟩
    · exact ⟨_, _, rfl⟩
  have hstay : Quiet (w.eventsOf t) := by
    rw [hevents]
    exact quiet_concat hquiet _ _ _
  rw [hrequest] at hcall ⊢
  obtain ⟨-, hrun | hrun⟩ := clientAtomic_run rfl hcall
  · rcases serve_storage (client t).api zlib e.number name key newData.1 storeOpts (w.entries key)
      with ⟨hkeep, hcode⟩ | ⟨stored, v, hpacked, hv, hserve⟩
    · rw [hkeep] at hrun
      obtain ⟨hr, rfl⟩ := Prod.mk.inj hrun
      cases r with
      | error ex => exact hstay
      | ok response =>
        have hrefused := hcode response hr.symm
        rw [Phase.advance, if_neg (not_or.mpr hrefused)]
        exact hstay
    · rw [hserve] at hrun
      obtain ⟨rfl, rfl⟩ := Prod.mk.inj hrun
      obtain ⟨hheld, hkeeps⟩ := stored_of_verdict hz hknows hrequest hpacked hv e.fresh
      refine ⟨earlier, res.data, res.flags, w.entries key, ⟨v.1, v.2, e.fresh⟩, hquiet, ?_, hheld,
        hkeeps⟩
      show (w.put t key e.fresh (.put v.1 v.2)).eventsOf t = _
      rw [eventsOf_append (World.put_log ..) (by simp [Event.thread]), hevents]
      simp [Effect.apply]
  · cases hrun
    exact hstay

/-- **A call of the thread** takes it from phase to phase. -/
theorem progress_call (hz : zlib.Lossless) {o : ClientOp} {r : o.Answer}
    (h : Progress zlib t key w s) (hallowed : s.allowed key opts o)
    (hcall : clientAtomic client zlib t e o w = some (r, w')) :
    Progress zlib t key w' (s.advance o r) := by
  cases s with
  | free => exact h.elim
  | start => cases hallowed; exact progress_gets h hcall
  | seen res => cases hallowed; exact progress_callback h.1 h.2 hcall
  | chosen res newData =>
    cases hallowed
    obtain ⟨⟨earlier, hquiet, hevents⟩, hknows⟩ := h
    exact progress_store hz hquiet hevents hknows hcall
  | stored res newData => exact hallowed.elim

theorem Progress.final (h : Progress zlib t key w s) {result : Except Exn (Bytes × UInt32)}
    (hfinal : s.final result) : Accounted zlib t key (w.eventsOf t) result := by
  cases s with
  | free => exact h.elim
  | start => obtain ⟨ex, rfl⟩ := hfinal; exact h
  | seen res => obtain ⟨ex, rfl⟩ := hfinal; exact h.1
  | chosen res newData =>
    obtain ⟨ex, rfl⟩ := hfinal
    obtain ⟨⟨earlier, hquiet, hevents⟩, -⟩ := h
    show Quiet _
    rw [hevents]
    exact quiet_concat hquiet _ _ _
  | stored res newData => cases hfinal; exact h

end Progress

/-! ## Any number of threads -/

/-- Threads of clients, whose programs end with the result of an update or any other. -/
abbrev ClientThreads (τ : Type) : Type :=
  Threads τ (World τ) Unit ClientOp ClientOp.Answer (Except Exn (Bytes × UInt32))

section Threads

variable {τ : Type} [DecidableEq τ] (client : τ → Client) (zlib : Zlib)

/-- One call of one thread. -/
def clientStep : ClientThreads τ → τ × ClientChoice → Option (ClientThreads τ) :=
  Threads.step (clientAtomic client zlib) fun _ _ _ => ()

/-- Before the first call. -/
def ClientThreads.initially (entries : Bytes → Option Entry)
    (program : τ → ClientM (Bytes × UInt32)) : ClientThreads τ where
  shared := World.initial entries
  left t := (program t).run
  phase _ := ()

variable {client zlib} {t : τ} {key : Bytes} {opts : Opts}

/-- What holds of the threads with the phases of one that updates a key. -/
def Updating (zlib : Zlib) (t : τ) (key : Bytes) (opts : Opts)
    (s : Threads τ (World τ) Phase ClientOp ClientOp.Answer (Except Exn (Bytes × UInt32))) : Prop :=
  s.Disciplined (Phase.allowed key opts) Phase.advance Phase.final ∧
    Progress zlib t key s.shared (s.phase t)

theorem updating_step (hz : zlib.Lossless)
    {s s' : Threads τ (World τ) Phase ClientOp ClientOp.Answer (Except Exn (Bytes × UInt32))}
    {l : τ × ClientChoice} (hs : Updating zlib t key opts s)
    (h : Threads.step (clientAtomic client zlib) Phase.advance s l = some s') :
    Updating zlib t key opts s' := by
  refine ⟨Threads.follows_step hs.1 h, ?_⟩
  obtain ⟨u, e⟩ := l
  obtain ⟨o, next, r, hleft, hcall, -, hphase⟩ := Threads.step_eq_some h
  rw [hphase]
  by_cases hu : u = t
  · subst hu
    rw [Function.update_self]
    exact progress_call hz hs.2 (hs.1.allowed hleft) hcall
  · rw [Function.update_of_ne (Ne.symm hu)]
    exact hs.2.evolves (evolves_clientAtomic hcall) hu

/-- **No update is lost or made twice.** In every run of any number of threads, an `atomic_update`
that returned made exactly one mutation: it stored the value that was returned, which the functor
made of the value right before the mutation. One that threw made none. The log that says so is the
history of the server. -/
theorem atomicUpdate_mutates (hz : zlib.Lossless) {entries : Bytes → Option Entry}
    {program : τ → ClientM (Bytes × UInt32)} (hprogram : program t = atomicUpdate key opts)
    {ls : List (τ × ClientChoice)} {s : ClientThreads τ}
    (hrun : Run.exec (clientStep client zlib) (.initially entries program) ls = some s)
    {result : Except Exn (Bytes × UInt32)} (hdone : s.left t = .done result) :
    replay s.shared.log entries = some s.shared.entries ∧
      Accounted zlib t key (s.shared.eventsOf t) result := by
  constructor
  · refine Run.invariant_exec (fun s => replay s.shared.log entries = some s.shared.entries)
      (fun s l s' hs h => ?_) rfl hrun
    obtain ⟨u, e⟩ := l
    obtain ⟨o, next, r, -, hcall, -, -⟩ := Threads.step_eq_some h
    exact replay_clientAtomic hcall hs
  · obtain ⟨phase, hphase⟩ := Threads.exec_withPhase Phase.advance hrun
      fun u => if u = t then .start else .free
    have hinit : Updating zlib t key opts ((ClientThreads.initially entries program).withPhase
        fun u => if u = t then .start else .free) := by
      refine ⟨fun u => ?_, ?_⟩
      · by_cases hu : u = t
        · subst hu
          show Program.Follows _ _ _ (if u = u then Phase.start else .free) (program u).run
          rw [if_pos rfl, hprogram]
          exact follows_atomicUpdate
        · show Program.Follows _ _ _ (if u = t then Phase.start else .free) (program u).run
          rw [if_neg hu]
          exact (follows_free _).mono fun s _ hs => by rw [hs]; trivial
      · show Progress zlib t key _ (if t = t then Phase.start else .free)
        rw [if_pos rfl]
        exact nofun
    obtain ⟨hdisciplined, hprogress⟩ := Run.invariant_exec (Updating zlib t key opts)
      (fun s l s' hs h => updating_step hz hs h) hinit hphase
    have hleft : (s.withPhase phase).left t = .done result := hdone
    exact hprogress.final (hdisciplined.final hleft)

end Threads

/-! ## A contended update -/

/-- Clients of the three servers. -/
def threeClient (_ : Bool) : Client := ⟨.text, threePool, {}⟩

/-- The key `zz` has the value 1. -/
def zzEntries (key : Bytes) : Option Entry :=
  if key = ascii "zz" then some ⟨ascii "1", 0, ⟨4, by decide⟩⟩ else none

/-- One thread updates the key, the other one sets it. -/
def updateAndSet : Bool → ClientM (Bytes × UInt32)
  | true => atomicUpdate (ascii "zz") {}
  | false => do
    set (ascii "zz") (ascii "2") {}
    return ([], 0)

/-- The functor returns 3. -/
def returnThree (fresh : CasId) : ClientChoice where
  result := .ok (ascii "3", 0)
  fresh := fresh
  now := 1000

/-- The set comes between the first `gets` and its `cas`. -/
def contention : List (Bool × ClientChoice) :=
  [(true, returnThree ⟨6, by decide⟩), (false, returnThree ⟨6, by decide⟩)] ++
    List.replicate 5 (true, returnThree ⟨8, by decide⟩)

theorem clientAtomic_threeClient {request : Request} {h404 : Bool} {w : World Bool} (t : Bool)
    {fresh : CasId} (hkey : request.key = some (ascii "zz"))
    (hfresh : fresh ∉ w.used (ascii "zz")) :
    clientAtomic threeClient .plain t (returnThree fresh) (.run request h404) w =
      some ((serve .text .plain none request (w.entries (ascii "zz"))).1,
        w.apply t (ascii "zz") fresh
          (serve .text .plain none request (w.entries (ascii "zz"))).2) := by
  have hnow : (threeClient t).cfg.h404Duration ≤ (returnThree fresh).now :=
    show (300 : ℤ) ≤ 1000 by decide
  have hroute : (((threePool.choose (ascii "zz")).walk.destutter' (· ≠ ·) 4294967295).tail.take
      (threeClient t).cfg.maxContinues.toNat) ≠ [] := by
    rw [walk_threePool]
    exact show List.take 3 _ ≠ [] by decide
  simp only [clientAtomic, hkey]
  rw [if_pos ⟨hfresh, hnow⟩]
  exact congrArg some (run_live hnow hroute)

theorem atomicUpdate_mutates_contention : ∃ s,
    Run.exec (clientStep threeClient .plain) (.initially zzEntries updateAndSet) contention =
        some s ∧
      s.left true = .done (.ok (ascii "3", 0)) ∧
      replay s.shared.log zzEntries = some s.shared.entries ∧
      Accounted .plain true (ascii "zz") (s.shared.eventsOf true) (.ok (ascii "3", 0)) := by
  obtain ⟨s, hrun, hleft⟩ : ∃ s,
      Run.exec (clientStep threeClient .plain) (.initially zzEntries updateAndSet) contention =
        some s ∧ s.left true = .done (.ok (ascii "3", 0)) := by
    simp only [contention, List.replicate, List.cons_append, List.nil_append, Run.exec, clientStep]
    rw [Threads.step_call rfl (clientAtomic_threeClient true rfl (by decide)), Option.bind_some,
      Threads.step_call rfl (clientAtomic_threeClient false rfl (by decide)), Option.bind_some,
      Threads.step_call rfl rfl, Option.bind_some,
      Threads.step_call rfl (clientAtomic_threeClient true rfl (by decide)), Option.bind_some,
      Threads.step_call rfl (clientAtomic_threeClient true rfl (by decide)), Option.bind_some,
      Threads.step_call rfl rfl, Option.bind_some,
      Threads.step_call rfl (clientAtomic_threeClient true rfl (by decide)), Option.bind_some]
    exact ⟨_, rfl, rfl⟩
  have hprogram : updateAndSet true = atomicUpdate (ascii "zz") {} := rfl
  exact ⟨s, hrun, hleft, atomicUpdate_mutates Zlib.lossless_plain hprogram hrun hleft⟩

end McacheClient
