import McacheClient.Client.Calls
import McacheClient.Client.Failover
import McacheClient.Client.Wired
import McacheClient.Lib.Threads

/-!
# Text and binary clients

Two clients of the same memcached servers, one over each protocol, that make the same calls.

* `Call.perform`, `results`: one call, and what a sequence of calls returns;
* `Agrees`: the same value, or exceptions with the same code;
* `Call.served`, `Call.landing`, `Call.after`: what a call asks for, where it ends and what it
  leaves, without the protocol;
* `Call.perform_ok`: over either protocol a call ends there and leaves that;
* `agrees_of_shows`: when the responses of one answer make a method return the same;
* `MissingReplace`: a `replace` that a server without the key answers;
* **`interchangeable_iff`**: all calls agree exactly when there is no such call.
-/

namespace McacheClient

section Clients

variable (api : Api) (zlib : Zlib) (pool : Pool) (cfg : ClientConfig)

/-- One call of `run`. -/
def runWired (i : Instant) (request : Request) (h404 : Bool) (s : UInt32 → Peer) :
    Except Exn Response × (UInt32 → Peer) :=
  match api.command zlib request with
  | .error e => (.error e, s)
  | .ok command => run (wired api i) cfg command h404 pool command.key s

/-- One call of a method. -/
def Call.perform (i : Instant) (call : Call) (s : UInt32 → Peer) :
    Except Exn Value × (UInt32 → Peer) :=
  call.program.run.exec
    (interpret (runWired api zlib pool cfg i) fun _ _ s => (.ok ([], 0), s)) s

/-- What the calls return or throw. -/
def results : List (Instant × Call) → (UInt32 → Peer) → List (Except Exn Value)
  | [], _ => []
  | (i, call) :: calls, s =>
    let (result, s) := call.perform api zlib pool cfg i s
    result :: results calls s

end Clients

/-- The same value, or exceptions with the same code; an exception without a code is the same. -/
inductive Agrees : Except Exn Value → Except Exn Value → Prop
  | value (v : Value) : Agrees (.ok v) (.ok v)
  | error {e e' : Exn} (hcode : e.code = e'.code) (hnone : e.code = none → e = e') :
    Agrees (.error e) (.error e')

/-! ## The calls without the protocol -/

section Served

variable (zlib : Zlib) (pool : Pool) (cfg : ClientConfig) (i : Instant)

/-- The command that a call asks a server for, or what is thrown before. -/
def Call.served : Call → Except Exn ServerCommand
  | storage name key data opts => do
    if name = .cas ∧ opts.cas = 0 then throw (.mc .badArgument "invalid cas")
    let stored ← packed zlib data opts
    return .storage name key opts.flags.toNat opts.expiration.toInt stored opts.cas.toNat
  | retrieve _ key => .ok (.retrieve key)
  | touch key exp => .ok (.touch key exp.toNat)
  | del key => .ok (.delete key)

/-- Where a call ends. -/
def Call.landing (call : Call) (served : ServerCommand) (servers : UInt32 → Memcached) : Landing :=
  land cfg i call.h404 (fun idx => lacks i served (servers idx)) (visits pool cfg call.key) 0 true

/-- What a call leaves. -/
def Call.after (call : Call) (servers : UInt32 → Memcached) : UInt32 → Memcached :=
  match call.served zlib with
  | .error _ => servers
  | .ok served =>
    match call.landing pool cfg i served servers with
    | .answered idx => Function.update servers idx (service i.now served (servers idx)).2
    | .past _ => servers

end Served

/-! ## What a method returns -/

section Perform

variable {api : Api} {zlib : Zlib} {pool : Pool} {cfg : ClientConfig} {i : Instant} {call : Call}
  {served : ServerCommand} {servers : UInt32 → Memcached} {s : UInt32 → Peer}

/-- The arguments that both protocols can carry in the same way. -/
def Call.Portable (zlib : Zlib) : Call → Prop
  | storage name key data opts => key ≠ [] ∧ (opts.cas ≠ 0 → name = .cas) ∧
    0 ≤ opts.expiration.toInt ∧ opts.expiration.toInt < 2 ^ 32 ∧
    ∀ stored, packed zlib data opts = .ok stored → 8 + key.length + stored.length < 2 ^ 32
  | retrieve _ key | del key => key ≠ []
  | touch key exp => key ≠ [] ∧ exp.toNat < 2 ^ 32

theorem Call.asks_of_served (h : call.served zlib = .ok served) :
    Asks zlib call.request served ∧ served.key = call.key ∧ ¬call.NoId := by
  cases call with
  | storage name key data opts =>
    rw [Call.served] at h
    by_cases hcas : name = .cas ∧ opts.cas = 0
    · rw [if_pos hcas] at h
      cases h
    · rw [if_neg hcas] at h
      cases hpacked : packed zlib data opts with
      | error e =>
        rw [hpacked] at h
        cases h
      | ok stored =>
        rw [hpacked] at h
        cases h
        refine ⟨.storage hpacked, rfl, fun hno => ?_⟩
        cases name <;> first | exact hno | exact hcas ⟨rfl, hno⟩
  | retrieve name key =>
    cases h
    exact ⟨.retrieve name key, rfl, id⟩
  | touch key exp =>
    cases h
    exact ⟨.touch key exp, rfl, id⟩
  | del key =>
    cases h
    exact ⟨.delete key, rfl, id⟩

theorem Call.Portable.request (h : call.Portable zlib) (hid : ¬call.NoId) :
    McacheClient.Portable zlib call.request := by
  cases call with
  | storage name key data opts =>
    obtain ⟨hne, hcas, h0, h1, hfits⟩ := h
    refine ⟨hne, ⟨hcas, fun hname => ?_⟩, h0, h1, hfits⟩
    subst hname
    exact hid
  | retrieve | touch | del => exact h

theorem Call.h404_retrieve (h : call.served zlib = .ok served) (h404 : call.h404 = true) :
    ∃ key, served = .retrieve key := by
  cases call with
  | retrieve name key =>
    cases h
    exact ⟨key, rfl⟩
  | storage | touch | del => cases h404

theorem Call.perform_error {e : Exn} (h : call.served zlib = .error e) (s : UInt32 → Peer) :
    call.perform api zlib pool cfg i s = (.error e, s) := by
  cases call with
  | storage name key data opts =>
    rw [Call.served] at h
    by_cases hcas : name = .cas ∧ opts.cas = 0
    · rw [if_pos hcas] at h
      cases h
      obtain ⟨rfl, hcas⟩ := hcas
      have hno : (Call.storage .cas key data opts).NoId := hcas
      exact Call.exec_noId _ hno s
    · rw [if_neg hcas] at h
      have hid : ¬(Call.storage name key data opts).NoId := fun hno => by
        cases name <;> first | exact hno | exact hcas ⟨rfl, hno⟩
      have hpacked : packed zlib data opts = .error e := by
        cases hpacked : packed zlib data opts with
        | error e' =>
          rw [hpacked] at h
          cases h
          rfl
        | ok stored =>
          rw [hpacked] at h
          cases h
      have hcommand : api.command zlib (Call.storage name key data opts).request = .error e := by
        cases api
        all_goals
          simp only [Api.command, Call.request, Text.command, Binary.command, hpacked]
          rfl
      rw [Call.perform, Call.exec_program _ _ hid, runWired, hcommand]
      rfl
  | retrieve | touch | del => cases h

theorem Call.perform_eq (hid : ¬call.NoId) {command : Command}
    (hcommand : api.command zlib call.request = .ok command) (s : UInt32 → Peer) :
    call.perform api zlib pool cfg i s =
      let out := tryAll (wired api i) cfg command call.h404 (visits pool cfg command.key) 0 true s
      (out.1.bind call.finish, out.2) := by
  rw [Call.perform, Call.exec_program _ _ hid, runWired, hcommand]
  simp only [run, runLoop_eq, visits, Nat.sub_zero]

/-- **A call** ends where `landing` says, over either protocol. -/
theorem Call.perform_ok (api : Api) (pool : Pool) (cfg : ClientConfig)
    (h : call.served zlib = .ok served) (hportable : call.Portable zlib)
    (hfits : ∀ idx, ∀ item ∈ (servers idx).find i.now call.key, 4 + item.data.length < 2 ^ 32)
    (hs : Serving servers s) :
    ∃ result s', call.perform api zlib pool cfg i s = (result.bind call.finish, s') ∧
      match call.landing pool cfg i served servers with
      | .answered idx =>
        Responds api zlib call.request.unique (service i.now served (servers idx)).1 result ∧
          Serving (Function.update servers idx (service i.now served (servers idx)).2) s'
      | .past oos => result = afterLoop oos ∧ Serving servers s' := by
  obtain ⟨hasks, hkey, hid⟩ := Call.asks_of_served h
  obtain ⟨command, hcommand⟩ := hasks.exists_command api
  have hcommandKey := (serialize_eq hasks hcommand).1
  rw [← hkey] at hfits
  have hall := tryAll_wired cfg hasks (hportable.request hid) hcommand
    (Call.h404_retrieve h) hfits (visits pool cfg call.key) 0 true hs
  refine ⟨_, _, ?_, hall⟩
  rw [Call.perform_eq hid hcommand, hcommandKey, hkey]

theorem agrees_refl (result : Except Exn Value) : Agrees result result := by
  cases result with
  | error e => exact .error rfl fun _ => rfl
  | ok v => exact .value v

/-- **When one answer is shown the same** by a method of both clients: unless it is that a `replace`
found nothing. -/
theorem agrees_of_shows {now : ℤ} {server : Memcached} (h : call.served zlib = .ok served)
    {r₁ r₂ : Except Exn Response}
    (h₁ : Shows .text zlib call.request.unique (execute now served server).1 r₁)
    (h₂ : Shows .binary zlib call.request.unique (execute now served server).1 r₂) :
    Agrees (r₁.bind call.finish) (r₂.bind call.finish) ↔
      (execute now served server).1 ≠ .absent .replace := by
  obtain ⟨hasks, -, -⟩ := Call.asks_of_served h
  cases call with
  | storage name key data opts =>
    cases hasks with
    | @storage _ _ _ stored _ hpacked =>
      rcases execute_storage now name key opts.flags.toNat opts.expiration.toInt stored
        opts.cas.toNat server with ⟨cas, ha⟩ | ⟨ha, rfl⟩ | ⟨ha, rfl⟩ | ⟨ha, -, hset, hadd⟩
      all_goals
        rw [ha] at h₁ h₂ ⊢
        obtain ⟨data₁, rfl⟩ := h₁
        obtain ⟨data₂, rfl⟩ := h₂
      · exact iff_of_true (.value _) (by simp)
      · exact iff_of_true (.value _) (by simp)
      · exact iff_of_true (.error rfl nofun) nofun
      · cases name with
        | set => exact absurd rfl hset
        | add => exact absurd rfl hadd
        | replace => exact iff_of_false nofun (not_not.mpr rfl)
        | append | prepend | cas => exact iff_of_true (.value _) (by simp)
  | retrieve name key =>
    cases hasks
    rw [execute_retrieve] at h₁ h₂ ⊢
    cases hfind : server.find now key with
    | none =>
      simp only [hfind] at h₁ h₂ ⊢
      obtain ⟨data₁, rfl⟩ := h₁
      obtain ⟨data₂, rfl⟩ := h₂
      exact iff_of_true (.value _) (by simp)
    | some item =>
      simp only [hfind, Option.elim, Shows] at h₁ h₂ ⊢
      subst h₁ h₂
      refine iff_of_true ?_ (by simp)
      cases unpack zlib item.flags item.data with
      | error e => exact agrees_refl _
      | ok data => cases name <;> exact .value _
  | touch key exp =>
    cases hasks
    rcases execute_touch now key exp.toNat server with ha | ⟨flags, ha⟩
    all_goals
      rw [ha] at h₁ h₂ ⊢
      obtain ⟨data₁, rfl⟩ := h₁
      obtain ⟨data₂, rfl⟩ := h₂
      exact iff_of_true (.value _) (by simp)
  | del key =>
    cases hasks
    rcases execute_delete now key server with ha | ha
    all_goals
      rw [ha] at h₁ h₂ ⊢
      obtain ⟨data₁, rfl⟩ := h₁
      obtain ⟨data₂, rfl⟩ := h₂
      exact iff_of_true (.value _) (by simp)

end Perform

/-! ## A `replace` that finds nothing -/

section MissingReplace

variable (zlib : Zlib) (pool : Pool) (cfg : ClientConfig)

/-- The server that answers a command for a key, which does not excuse a `not_found`. -/
def answering (i : Instant) (key : Bytes) : Option UInt32 :=
  (visits pool cfg key).find? fun idx => i.callable idx && i.reached idx

/-- The call is a `replace` that a server without the key answers. -/
def MissingReplace (i : Instant) (servers : UInt32 → Memcached) : Call → Prop
  | .storage .replace key data opts => checkKey key = .ok () ∧
    (∃ stored, packed zlib data opts = .ok stored) ∧
    ∃ idx, answering pool cfg i key = some idx ∧ (servers idx).find i.now key = none
  | _ => False

/-- The items of the key fit into the body of a response. -/
def Fits (i : Instant) (key : Bytes) (servers : UInt32 → Memcached) : Prop :=
  ∀ idx, ∀ item ∈ (servers idx).find i.now key, 4 + item.data.length < 2 ^ 32

variable {zlib pool cfg} {i : Instant} {call : Call} {served : ServerCommand}
  {servers : UInt32 → Memcached} {s₁ s₂ : UInt32 → Peer}

theorem land_false (cfg : ClientConfig) (i : Instant) (missing : UInt32 → Bool)
    (idxs : List UInt32) (conts : ℕ) (oos : Bool) : land cfg i false missing idxs conts oos =
      match idxs.find? fun idx => i.callable idx && i.reached idx with
      | some idx => .answered idx
      | none => .past oos := by
  induction idxs generalizing conts with
  | nil => rfl
  | cons idx idxs ih =>
    rw [land, List.find?_cons]
    cases i.callable idx && i.reached idx with
    | true => rfl
    | false => exact ih (conts + 1)

theorem absent_replace_iff {now : ℤ} {server : Memcached} :
    (execute now served server).1 = .absent .replace ↔
      (∃ key flags expiration data cas,
        served = .storage .replace key flags expiration data cas) ∧
        server.find now served.key = none := by
  constructor
  · intro h
    cases served with
    | storage name key flags expiration data cas =>
      rcases execute_storage now name key flags expiration data cas server with
        ⟨c, ha⟩ | ⟨ha, -⟩ | ⟨ha, -⟩ | ⟨ha, hfind, -⟩
      · rw [ha] at h
        cases h
      · rw [ha] at h
        cases h
      · rw [ha] at h
        cases h
      · rw [ha] at h
        cases h
        exact ⟨⟨_, _, _, _, _, rfl⟩, hfind⟩
    | retrieve key =>
      rw [execute_retrieve] at h
      cases hfind : server.find now key <;> rw [hfind] at h <;> cases h
    | touch key expiration =>
      rcases execute_touch now key expiration server with ha | ⟨flags, ha⟩ <;>
        rw [ha] at h <;> cases h
    | delete key =>
      rcases execute_delete now key server with ha | ha <;> rw [ha] at h <;> cases h
  · rintro ⟨⟨key, flags, expiration, data, cas, rfl⟩, hfind⟩
    change server.find now key = none at hfind
    rw [execute_replace hfind]

theorem Call.eq_replace {key data : Bytes} {flags : ℕ} {expiration : ℤ} {cas : ℕ}
    (h : call.served zlib = .ok (.storage .replace key flags expiration data cas)) :
    ∃ data' opts, call = .storage .replace key data' opts := by
  obtain ⟨hasks, -, -⟩ := Call.asks_of_served h
  cases call with
  | storage name key' data' opts =>
    cases hasks
    exact ⟨data', opts, rfl⟩
  | retrieve | touch | del => cases hasks

theorem Call.served_of_missing (h : MissingReplace zlib pool cfg i servers call) :
    ∃ served, call.served zlib = .ok served := by
  cases call with
  | storage name key data opts =>
    cases name with
    | replace =>
      obtain ⟨-, ⟨stored, hpacked⟩, -⟩ := h
      rw [Call.served, hpacked]
      exact ⟨_, rfl⟩
    | _ => exact h.elim
  | retrieve | touch | del => exact h.elim

theorem missingReplace_iff (h : call.served zlib = .ok served) :
    MissingReplace zlib pool cfg i servers call ↔ checkKey served.key = .ok () ∧
      ∃ idx, call.landing pool cfg i served servers = .answered idx ∧
        (execute i.now served (servers idx)).1 = .absent .replace := by
  by_cases hreplace : ∃ key data opts, call = .storage .replace key data opts
  · obtain ⟨key, data, opts, rfl⟩ := hreplace
    obtain ⟨hasks, hkey, -⟩ := Call.asks_of_served h
    have hlanding : ∀ idx, (Call.storage .replace key data opts).landing pool cfg i served servers =
        .answered idx ↔ answering pool cfg i key = some idx := by
      intro idx
      have hland : (Call.storage .replace key data opts).landing pool cfg i served servers = _ :=
        land_false cfg i _ (visits pool cfg key) 0 true
      rw [hland, answering]
      cases (visits pool cfg key).find? fun idx => i.callable idx && i.reached idx <;> simp
    cases hasks with
    | storage hpacked =>
      rw [MissingReplace]
      refine and_congr_right fun _ => ?_
      rw [and_iff_right ⟨_, hpacked⟩]
      refine exists_congr fun idx => ?_
      rw [hlanding, absent_replace_iff]
      exact and_congr_right fun _ => ⟨fun hfind => ⟨⟨_, _, _, _, _, rfl⟩, hfind⟩, fun h => h.2⟩
  · refine iff_of_false (fun hmissing => ?_) ?_
    · cases call with
      | storage name key data opts =>
        cases name <;> first | exact hmissing | exact hreplace ⟨key, data, opts, rfl⟩
      | retrieve | touch | del => exact hmissing
    · rintro ⟨-, idx, -, habsent⟩
      obtain ⟨⟨key, flags, expiration, data, cas, rfl⟩, -⟩ := absent_replace_iff.mp habsent
      obtain ⟨data', opts, rfl⟩ := Call.eq_replace h
      exact hreplace ⟨key, data', opts, rfl⟩

/-- **One call** leaves the same servers over either protocol, and returns the same unless it is a
`replace` that finds nothing. -/
theorem perform_agrees (hportable : call.Portable zlib) (hfits : Fits i call.key servers)
    (hs₁ : Serving servers s₁) (hs₂ : Serving servers s₂) :
    Serving (call.after zlib pool cfg i servers) (call.perform .text zlib pool cfg i s₁).2 ∧
      Serving (call.after zlib pool cfg i servers) (call.perform .binary zlib pool cfg i s₂).2 ∧
      (Agrees (call.perform .text zlib pool cfg i s₁).1
          (call.perform .binary zlib pool cfg i s₂).1 ↔
        ¬MissingReplace zlib pool cfg i servers call) := by
  unfold Call.after
  cases hserved : call.served zlib with
  | error e =>
    rw [Call.perform_error hserved, Call.perform_error hserved]
    refine ⟨hs₁, hs₂, iff_of_true (agrees_refl _) fun hmissing => ?_⟩
    obtain ⟨served, hok⟩ := Call.served_of_missing hmissing
    rw [hok] at hserved
    cases hserved
  | ok served =>
    obtain ⟨r₁, s₁', h₁, hend₁⟩ := Call.perform_ok .text pool cfg hserved hportable hfits hs₁
    obtain ⟨r₂, s₂', h₂, hend₂⟩ := Call.perform_ok .binary pool cfg hserved hportable hfits
      hs₂
    rw [h₁, h₂, missingReplace_iff hserved]
    cases hlanding : call.landing pool cfg i served servers with
    | past oos =>
      simp only [hlanding] at hend₁ hend₂ ⊢
      rw [hend₁.1, hend₂.1]
      exact ⟨hend₁.2, hend₂.2, iff_of_true (agrees_refl _) (by simp)⟩
    | answered idx =>
      simp only [hlanding] at hend₁ hend₂ ⊢
      refine ⟨hend₁.2, hend₂.2, ?_⟩
      obtain ⟨hresponds₁, -⟩ := hend₁
      obtain ⟨hresponds₂, -⟩ := hend₂
      unfold service at hresponds₁ hresponds₂
      cases hkey : checkKey served.key with
      | error e =>
        simp only [hkey] at hresponds₁ hresponds₂
        rw [hresponds₁, hresponds₂]
        exact iff_of_true (agrees_refl _) nofun
      | ok u =>
        simp only [hkey] at hresponds₁ hresponds₂
        rw [agrees_of_shows hserved hresponds₁ hresponds₂]
        simp

/-! ## A sequence of calls -/

variable (zlib pool cfg) in
/-- One call, on the servers. -/
def callStep (servers : UInt32 → Memcached) (l : Instant × Call) : Option (UInt32 → Memcached) :=
  some (l.2.after zlib pool cfg l.1 servers)

/-- Servers to which no request was made yet. -/
def peers (contents : UInt32 → Memcached) (idx : UInt32) : Peer where
  server := contents idx

theorem serving_peers (contents : UInt32 → Memcached) : Serving contents (peers contents) :=
  fun _ => ⟨rfl, rfl⟩

theorem agrees_results {calls : List (Instant × Call)}
    (hcarried : Run.Along (callStep zlib pool cfg)
      (fun servers l _ => l.2.Portable zlib ∧ Fits l.1 l.2.key servers) servers calls)
    (hs₁ : Serving servers s₁) (hs₂ : Serving servers s₂) :
    List.Forall₂ Agrees (results .text zlib pool cfg calls s₁)
        (results .binary zlib pool cfg calls s₂) ↔
      Run.Along (callStep zlib pool cfg)
        (fun servers l _ => ¬MissingReplace zlib pool cfg l.1 servers l.2) servers calls := by
  induction calls generalizing servers s₁ s₂ with
  | nil => exact iff_of_true .nil trivial
  | cons l calls ih =>
    obtain ⟨i, call⟩ := l
    have hstep : callStep zlib pool cfg servers (i, call) = some _ := rfl
    rw [Run.along_cons hstep] at hcarried ⊢
    obtain ⟨⟨hportable, hfits⟩, hrest⟩ := hcarried
    obtain ⟨hs₁', hs₂', hagrees⟩ := perform_agrees hportable hfits hs₁ hs₂
    rw [results, results, List.forall₂_cons, hagrees, ih hrest hs₁' hs₂']

/-- **Text and binary clients are interchangeable** as long as no `replace` comes to a server that
lacks the key: then all calls return the same, and otherwise not. -/
theorem interchangeable_iff (zlib : Zlib) (pool : Pool) (cfg : ClientConfig)
    (contents : UInt32 → Memcached) (calls : List (Instant × Call))
    (hcarried : Run.Along (callStep zlib pool cfg)
      (fun servers l _ => l.2.Portable zlib ∧ Fits l.1 l.2.key servers) contents calls) :
    List.Forall₂ Agrees (results .text zlib pool cfg calls (peers contents))
        (results .binary zlib pool cfg calls (peers contents)) ↔
      Run.Along (callStep zlib pool cfg)
        (fun servers l _ => ¬MissingReplace zlib pool cfg l.1 servers l.2) contents calls :=
  agrees_results hcarried (serving_peers contents) (serving_peers contents)

end MissingReplace

/-! ## A `replace` of a key that nobody stored -/

def emptyServers (_ : UInt32) : Memcached where
  items _ := none

def replaceCall : Call := .storage .replace (ascii "k") (ascii "a") {}

theorem visits_k : visits threePool {} (ascii "k") = [2, 0, 1] := by
  decide

/-- What a client of empty servers returns for it. -/
def replaceResults (api : Api) : List (Except Exn Value) :=
  results api .plain threePool {} [({ now := 0 }, replaceCall)] (peers emptyServers)

theorem replaceResults_eq {api : Api} {command : Command}
    (hcommand : api.command .plain replaceCall.request = .ok command)
    (hkey : command.key = ascii "k") : replaceResults api =
      [(tryAll (wired api { now := 0 }) {} command false [2, 0, 1] 0 true
        (peers emptyServers)).1.bind replaceCall.finish] := by
  have hid : ¬replaceCall.NoId := id
  rw [replaceResults, results, Call.perform_eq hid hcommand, hkey, visits_k]
  rfl

/-- Over the text protocol it returns false, over the binary protocol it throws. -/
theorem not_interchangeable_replace :
    replaceResults .text = [.ok (.flag false)] ∧
      replaceResults .binary = [.error (.proto .notFound (ascii "Not found"))] ∧
      ¬List.Forall₂ Agrees (replaceResults .text) (replaceResults .binary) := by
  have htext : replaceResults .text = [.ok (.flag false)] := by
    rw [replaceResults_eq (show _ = Except.ok _ from rfl) rfl]
    decide +kernel
  have hbinary : replaceResults .binary = [.error (.proto .notFound (ascii "Not found"))] := by
    rw [replaceResults_eq (show _ = Except.ok _ from rfl) rfl]
    decide +kernel
  refine ⟨htext, hbinary, ?_⟩
  rw [htext, hbinary]
  rintro (_ | ⟨⟨⟩, -⟩)

def setCall : Call := .storage .set (ascii "k") (ascii "a") {}

/-- The servers after the key was set. -/
def setServers : UInt32 → Memcached :=
  Function.update emptyServers 2 {
    items := Function.update (fun _ => none) (ascii "k") (some ⟨ascii "a", 0, none, 1⟩)
    lastCas := 1 }

theorem callStep_setCall : callStep .plain threePool {} emptyServers ({ now := 0 }, setCall) =
    some setServers := by
  have hserved : setCall.served .plain =
      .ok (.storage .set (ascii "k") 0 0 (ascii "a") 0) := rfl
  have hvisits : visits threePool {} setCall.key = [2, 0, 1] := visits_k
  have hlanding : setCall.landing threePool {} { now := 0 }
      (.storage .set (ascii "k") 0 0 (ascii "a") 0) emptyServers = .answered 2 := by
    rw [Call.landing, hvisits]
    rfl
  have hservice : service 0 (.storage .set (ascii "k") 0 0 (ascii "a") 0) (emptyServers 2) =
      (.ok (.stored 1), setServers 2) := rfl
  simp only [callStep, Call.after, hserved, hlanding, hservice]
  rfl

theorem interchangeable_setCall :
    List.Forall₂ Agrees
      (results .text .plain threePool {} [({ now := 0 }, setCall), ({ now := 1 }, replaceCall)]
        (peers emptyServers))
      (results .binary .plain threePool {} [({ now := 0 }, setCall), ({ now := 1 }, replaceCall)]
        (peers emptyServers)) := by
  have hportable : ∀ name, (Call.storage name (ascii "k") (ascii "a") {}).Portable .plain := by
    refine fun name => ⟨by decide, nofun, by decide, by decide, fun stored hstored => ?_⟩
    cases hstored
    decide
  have hfind : (setServers 2).find 1 (ascii "k") = some ⟨ascii "a", 0, none, 1⟩ := by
    decide +kernel
  have hanswering : answering threePool {} { now := 1 } (ascii "k") = some 2 := by
    rw [answering, visits_k]
    rfl
  refine (interchangeable_iff .plain threePool {} emptyServers _ ?_).mpr ?_
  · rw [Run.along_cons callStep_setCall]
    refine ⟨⟨hportable .set, nofun⟩, fun _ _ => ⟨⟨hportable .replace, fun idx item hitem => ?_⟩,
      trivial⟩⟩
    by_cases hidx : idx = 2
    · subst hidx
      cases hfind.symm.trans hitem
      decide
    · have hnone : setServers idx = emptyServers idx := Function.update_of_ne hidx _ _
      simp only [hnone] at hitem
      cases hitem
  · rw [Run.along_cons callStep_setCall]
    refine ⟨id, fun _ _ => ⟨?_, trivial⟩⟩
    rintro ⟨-, -, idx, hidx, hmissing⟩
    cases hanswering.symm.trans hidx
    cases hfind.symm.trans hmissing

end McacheClient
