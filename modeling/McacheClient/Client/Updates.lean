import McacheClient.Client.NoLostUpdate

/-!
# Updates one after the other

Any number of threads that update one key by `atomic_update`, each by a function of its own, among
threads that only read the key.

* `Applied`: functions that are applied one after the other, each to what the one before returned;
* `Spares`: a program that changes nothing under the key;
* `Part`, `follows_part`: what a thread does to the key, with the phase of an update;
* `HasValue`: the value under a key, which is the one that a client gets;
* `store_applies`: a `cas` or an `add` that is carried out applies the function of its thread;
* `Serialized`: the updates that returned, in their order, made the value that is there;
* **`updates_serialized`**: so it is in every run.
-/

namespace McacheClient

/-- Functions are applied one after the other. -/
inductive Applied {τ α ε : Type} (f : τ → α → Except ε α) (v : α) : List (τ × α) → α → Prop
  | first : Applied f v [] v
  | next {order : List (τ × α)} {u w : α} {t : τ} (h : Applied f v order u) (hf : f t u = .ok w) :
      Applied f v (order ++ [(t, w)]) w

/-! ## What a thread does to the key -/

/-- A request that leaves the entry of a key as it is. -/
def SparesRequest (key : Bytes) (request : Request) : Prop :=
  request.key = some key → ∃ name, request = .retrieve name key

/-- A thread updates the key, with these options, or is a bystander. -/
abbrev Part : Type := Option (Opts × Phase)

namespace Part

variable (key : Bytes)

def allowed : Part → ClientOp → Prop
  | some (opts, s), o => s.allowed key opts o
  | none, .run request _ => SparesRequest key request
  | none, .callback .. => True

def advance : Part → (o : ClientOp) → o.Answer → Part
  | some (opts, s), o, r => some (opts, s.advance o r)
  | none, _, _ => none

def final : Part → Except Exn (Bytes × UInt32) → Prop
  | some (_, s), result => s.final result
  | none, _ => True

end Part

/-- A program that changes nothing under a key. -/
def Spares (key : Bytes) (p : ClientM (Bytes × UInt32)) : Prop :=
  Program.Follows (Part.allowed key) Part.advance Part.final none p.run

/-- The program of a thread, which updates the key with these options or spares it. -/
def Does (key : Bytes) (p : ClientM (Bytes × UInt32)) : Option Opts → Prop
  | some opts => p = atomicUpdate key opts
  | none => Spares key p

section Follows

variable {key : Bytes} {opts : Opts}

theorem follows_part {s : Phase}
    {p : Program ClientOp ClientOp.Answer (Except Exn (Bytes × UInt32))}
    (h : p.Follows (Phase.allowed key opts) Phase.advance Phase.final s) :
    p.Follows (Part.allowed key) Part.advance Part.final (some (opts, s)) := by
  induction p generalizing s with
  | done result => exact h
  | call o next ih => exact ⟨h.1, fun r => ih r (h.2 r)⟩

/-- The part that a thread begins with. -/
def Part.start (update : Option Opts) : Part := update.map (·, .start)

theorem Does.follows {p : ClientM (Bytes × UInt32)} {update : Option Opts}
    (h : Does key p update) :
    Program.Follows (Part.allowed key) Part.advance Part.final (Part.start update) p.run := by
  cases update with
  | none => exact h
  | some opts =>
    rw [show p = atomicUpdate key opts from h]
    exact follows_part follows_atomicUpdate

end Follows

/-! ## One call -/

section Calls

variable {τ : Type} {client : τ → Client} {zlib : Zlib} {t : τ} {key : Bytes}
  {opts : Opts} {w w' : World τ} {e : ClientChoice}

theorem Held.unique {entry : Option Entry} {u v : Bytes × UInt32} (hu : Held zlib u.1 u.2 entry)
    (hv : Held zlib v.1 v.2 entry) : u = v := by
  cases entry with
  | none => exact Prod.ext (hu.1.trans hv.1.symm) (hu.2.trans hv.2.symm)
  | some entry => exact Except.ok.inj (hu.symm.trans hv)

/-- The value under a key. A client that reads the key gets it, unless it is empty and was
compressed. -/
def HasValue (zlib : Zlib) (v : Bytes × UInt32) (entry : Option Entry) : Prop :=
  Held zlib v.1 v.2 entry ∨ ¬Restorable v.1 v.2 ∧ ∃ e ∈ entry, e.Keeps zlib v

theorem Entry.Keeps.hasValue {entry : Entry} {v : Bytes × UInt32} (h : entry.Keeps zlib v) :
    HasValue zlib v (some entry) := by
  by_cases hv : Restorable v.1 v.2
  · exact Or.inl (h.value hv)
  · exact Or.inr ⟨hv, entry, rfl, h⟩

theorem HasValue.unique {entry : Option Entry} {u v : Bytes × UInt32} (hu : HasValue zlib u entry)
    (hv : Held zlib v.1 v.2 entry) : u = v := by
  rcases hu with hu | ⟨hempty, e, he, hkeeps⟩
  · exact hu.unique hv
  · obtain rfl : entry = some e := he
    have hvalue : e.value zlib = .error .undefined := by
      rw [Entry.value, hkeeps.flags, unpack_packed_nil hempty hkeeps.packed]
      rfl
    cases hvalue.symm.trans hv

theorem entries_of_spares {o : ClientOp} {r : o.Answer}
    (hcall : clientAtomic client zlib t e o w = some (r, w'))
    (ho : Part.allowed key none o) : w'.entries key = w.entries key := by
  cases o with
  | callback data flags =>
    cases hcall
    rfl
  | run request h404 =>
    cases hkey : request.key with
    | none => simp [clientAtomic, hkey] at hcall
    | some key' =>
      obtain ⟨-, hrun | hrun⟩ := clientAtomic_run hkey hcall
      · rw [(Prod.mk.inj hrun).2]
        by_cases hsame : key' = key
        · subst hsame
          obtain ⟨name, rfl⟩ := ho hkey
          rw [serve_retrieve_keep]
          rfl
        · cases (serve (client t).api zlib e.number request (w.entries key')).2 with
          | keep => rfl
          | put data flags => exact Function.update_of_ne (Ne.symm hsame) _ _
          | remove => exact Function.update_of_ne (Ne.symm hsame) _ _
      · rw [(Prod.mk.inj hrun).2]

/-- **A `cas` or an `add`** that is carried out finds the value that the functor was handed, and
stores what it returned; another one leaves the entry. -/
theorem store_applies (hz : zlib.Lossless) {res : Result} {newData : Bytes × UInt32}
    {r : Except Exn Response} (hknows : Knows zlib key w res)
    (hcall : clientAtomic client zlib t e (.run (storeRequest key opts res newData) false) w =
      some (r, w')) :
    ((Phase.chosen res newData).advance (.run (storeRequest key opts res newData) false) r =
        .stored res newData ∧
      Held zlib res.data res.flags (w.entries key) ∧
      HasValue zlib newData (w'.entries key)) ∨
    (Phase.chosen res newData).advance (.run (storeRequest key opts res newData) false) r =
        .start ∧ w'.entries key = w.entries key := by
  obtain ⟨name, storeOpts, hrequest⟩ : ∃ name storeOpts,
      storeRequest key opts res newData = .storage name key newData.1 storeOpts := by
    unfold storeRequest
    split_ifs
    · exact ⟨_, _, rfl⟩
    · exact ⟨_, _, rfl⟩
  rw [hrequest] at hcall ⊢
  obtain ⟨-, hrun | hrun⟩ := clientAtomic_run rfl hcall
  · rcases serve_storage (client t).api zlib e.number name key newData.1 storeOpts (w.entries key)
      with ⟨hkeep, hcode⟩ | ⟨stored, v, hpacked, hv, hserve⟩
    · rw [hkeep] at hrun
      obtain ⟨hr, rfl⟩ := Prod.mk.inj hrun
      refine Or.inr ⟨?_, rfl⟩
      cases r with
      | error ex => rfl
      | ok response =>
        have hrefused := hcode response hr.symm
        rw [Phase.advance, if_neg (not_or.mpr hrefused)]
    · rw [hserve] at hrun
      obtain ⟨rfl, rfl⟩ := Prod.mk.inj hrun
      obtain ⟨hheld, hkeeps⟩ := stored_of_verdict hz hknows hrequest hpacked hv e.fresh
      refine Or.inl ⟨rfl, hheld, ?_⟩
      show HasValue zlib _ (Function.update w.entries key _ key)
      rw [Function.update_self]
      exact hkeeps.hasValue
  · obtain ⟨rfl, rfl⟩ := Prod.mk.inj hrun
    exact Or.inr ⟨rfl, rfl⟩

theorem entries_of_phase {s : Phase} {o : ClientOp} {r : o.Answer}
    (hcall : clientAtomic client zlib t e o w = some (r, w')) (hallowed : s.allowed key opts o)
    (hs : s = .start ∨ ∃ res, s = .seen res) : w'.entries key = w.entries key ∧
      ∀ res newData, s.advance o r ≠ .stored res newData := by
  rcases hs with rfl | ⟨res, rfl⟩
  · obtain rfl : o = _ := hallowed
    have hspares : Part.allowed key none (.run (.retrieve .gets key) true) := fun _ => ⟨.gets, rfl⟩
    refine ⟨entries_of_spares hcall hspares, fun res newData h => ?_⟩
    cases r with
    | error ex => cases h
    | ok response =>
      simp only [Phase.advance, Phase.look] at h
      split at h <;> cases h
  · obtain rfl : o = _ := hallowed
    refine ⟨entries_of_spares hcall trivial, fun res' newData h => ?_⟩
    cases r <;> cases h

end Calls

/-! ## Any number of threads -/

section Threads

variable {τ : Type} [DecidableEq τ] (client : τ → Client) (zlib : Zlib)

/-- Threads with their parts. -/
abbrev PartThreads (τ : Type) : Type :=
  Threads τ (World τ) Part ClientOp ClientOp.Answer (Except Exn (Bytes × UInt32))

/-- A functor that is called returns what its function does. -/
def Functional {σ ς : Type} (f : τ → Bytes × UInt32 → Except Exn (Bytes × UInt32))
    (updates : τ → Option Opts)
    (s : Threads τ σ ς ClientOp ClientOp.Answer (Except Exn (Bytes × UInt32)))
    (l : τ × ClientChoice) : Prop :=
  ∀ opts ∈ updates l.1, ∀ data flags next, s.left l.1 = .call (.callback data flags) next →
    l.2.result = f l.1 (data, flags)

/-- What an update knows about its function. -/
def Chose (f : τ → Bytes × UInt32 → Except Exn (Bytes × UInt32)) (t : τ) : Phase → Prop
  | .chosen res newData => f t (res.data, res.flags) = .ok newData
  | _ => True

variable (f : τ → Bytes × UInt32 → Except Exn (Bytes × UInt32)) (updates : τ → Option Opts)
  (key : Bytes) (v : Bytes × UInt32)

/-- **The updates that returned made the value that is there**, one after the other. -/
structure Serialized (s : PartThreads τ) : Prop where
  disciplined : s.Disciplined (Part.allowed key) Part.advance Part.final
  part : ∀ t, (s.phase t).map Prod.fst = updates t
  progress : ∀ t opts p, s.phase t = some (opts, p) →
    Progress zlib t key s.shared p ∧ Chose f t p
  order : ∃ order u, Applied f v order u ∧ HasValue zlib u (s.shared.entries key) ∧
    (order.map Prod.fst).Nodup ∧
    ∀ t newData, (t, newData) ∈ order ↔ ∃ opts res, s.phase t = some (opts, .stored res newData)

variable {client zlib f updates key v} {s s' : PartThreads τ} {l : τ × ClientChoice}

theorem advance_fst (p : Part) (o : ClientOp) (r : o.Answer) :
    (p.advance o r).map Prod.fst = p.map Prod.fst := by
  cases p <;> rfl

omit [DecidableEq τ] in
theorem chose_advance {t : τ} {opts : Opts} {q : Phase} {o : ClientOp} {e : ClientChoice}
    {w w' : World τ} {r : o.Answer} (hallowed : q.allowed key opts o)
    (hcall : clientAtomic client zlib t e o w = some (r, w'))
    (hf : ∀ data flags, o = .callback data flags → e.result = f t (data, flags)) :
    Chose f t (q.advance o r) := by
  cases q with
  | free => cases o <;> trivial
  | start =>
    obtain rfl : o = _ := hallowed
    cases r with
    | error ex => trivial
    | ok response =>
      simp only [Phase.advance, Phase.look]
      split <;> trivial
  | seen res =>
    obtain rfl : o = _ := hallowed
    cases hcall
    have hresult := hf _ _ rfl
    cases hr : e.result with
    | error ex => trivial
    | ok newData => exact hresult.symm.trans hr
  | chosen res newData =>
    obtain rfl : o = _ := hallowed
    cases r with
    | error ex => trivial
    | ok response =>
      simp only [Phase.advance]
      split_ifs <;> trivial
  | stored res newData => exact hallowed.elim

theorem Serialized.same_order (hs : Serialized zlib f updates key v s) {t : τ} {p : Part}
    (hphase : s'.phase = Function.update s.phase t p)
    (hentries : s'.shared.entries key = s.shared.entries key)
    (hbefore : ∀ opts res newData, s.phase t ≠ some (opts, .stored res newData))
    (hafter : ∀ opts res newData, p ≠ some (opts, .stored res newData)) :
    ∃ order u, Applied f v order u ∧ HasValue zlib u (s'.shared.entries key) ∧
      (order.map Prod.fst).Nodup ∧
      ∀ x newData, (x, newData) ∈ order ↔
        ∃ opts res, s'.phase x = some (opts, .stored res newData) := by
  obtain ⟨order, u, happlied, hheld, hnodup, hmem⟩ := hs.order
  refine ⟨order, u, happlied, by rwa [hentries], hnodup, fun x newData => ?_⟩
  rw [hmem, hphase]
  by_cases hx : x = t
  · subst hx
    rw [Function.update_self]
    exact iff_of_false (fun ⟨opts, res, h⟩ => hbefore opts res newData h)
      fun ⟨opts, res, h⟩ => hafter opts res newData h
  · rw [Function.update_of_ne hx]

/-- The order when a thread stores what its function made of the value that is there. -/
theorem Serialized.next_order (hs : Serialized zlib f updates key v s) {t : τ} {opts : Opts}
    {res : Result} {newData : Bytes × UInt32} (hpart : s.phase t = some (opts, .chosen res newData))
    (hphase : s'.phase = Function.update s.phase t (some (opts, .stored res newData)))
    (hbefore : Held zlib res.data res.flags (s.shared.entries key))
    (hafter : HasValue zlib newData (s'.shared.entries key)) :
    ∃ order u, Applied f v order u ∧ HasValue zlib u (s'.shared.entries key) ∧
      (order.map Prod.fst).Nodup ∧
      ∀ x newData, (x, newData) ∈ order ↔
        ∃ opts res, s'.phase x = some (opts, .stored res newData) := by
  obtain ⟨order, u, happlied, hheld, hnodup, hmem⟩ := hs.order
  have hu : u = (res.data, res.flags) := hheld.unique (v := (res.data, res.flags)) hbefore
  have hf : f t u = .ok newData := by
    rw [hu]
    exact (hs.progress t opts _ hpart).2
  have hnew : ∀ data, (t, data) ∉ order := fun data hdata => by
    obtain ⟨opts', res', h⟩ := (hmem t data).mp hdata
    rw [hpart] at h
    cases h
  refine ⟨order ++ [(t, newData)], newData, happlied.next hf, hafter, ?_, fun x data => ?_⟩
  · rw [List.map_append, List.map_singleton]
    refine List.nodup_append.mpr ⟨hnodup, List.nodup_singleton _, ?_⟩
    rintro x hx y hy rfl
    obtain ⟨⟨x, data⟩, hdata, rfl⟩ := List.mem_map.mp hx
    obtain rfl : x = t := List.mem_singleton.mp hy
    exact hnew data hdata
  · rw [List.mem_append, hmem, hphase, List.mem_singleton]
    by_cases hx : x = t
    · subst hx
      rw [Function.update_self, hpart]
      simp [eq_comm]
    · rw [Function.update_of_ne hx]
      simp [hx]

theorem Serialized.step (hz : zlib.Lossless) (hs : Serialized zlib f updates key v s)
    (h : Threads.step (clientAtomic client zlib) Part.advance s l = some s')
    (hf : Functional f updates s l) : Serialized zlib f updates key v s' := by
  obtain ⟨t, e⟩ := l
  obtain ⟨o, next, r, hleft, hcall, -, hphase⟩ := Threads.step_eq_some h
  have hallowed := hs.disciplined.allowed hleft
  refine ⟨Threads.follows_step hs.disciplined h, fun u => ?_, fun u opts p hp => ?_, ?_⟩
  · rw [hphase]
    by_cases hu : u = t
    · subst hu
      rw [Function.update_self, advance_fst, hs.part]
    · rw [Function.update_of_ne hu, hs.part]
  · rw [hphase] at hp
    by_cases hu : u = t
    · subst hu
      rw [Function.update_self] at hp
      cases hpart : s.phase u with
      | none =>
        rw [hpart] at hp
        cases hp
      | some q =>
        obtain ⟨opts', q⟩ := q
        rw [hpart] at hp hallowed
        obtain ⟨rfl, rfl⟩ := Prod.mk.inj (Option.some.inj hp)
        have hupdate : opts' ∈ updates u := by
          rw [← hs.part u, hpart]
          rfl
        refine ⟨progress_call hz (hs.progress u opts' q hpart).1 hallowed hcall,
          chose_advance hallowed hcall fun data flags ho => ?_⟩
        subst ho
        exact hf opts' hupdate data flags next hleft
    · rw [Function.update_of_ne hu] at hp
      exact ⟨(hs.progress u opts p hp).1.evolves (evolves_clientAtomic hcall) (Ne.symm hu),
        (hs.progress u opts p hp).2⟩
  · cases hpart : s.phase t with
    | none =>
      rw [hpart] at hallowed hphase
      exact hs.same_order hphase (entries_of_spares hcall hallowed) (by simp [hpart])
        (by simp [Part.advance])
    | some q =>
      obtain ⟨opts, q⟩ := q
      rw [hpart] at hallowed hphase
      have hallowed : q.allowed key opts o := hallowed
      have hknown := hs.progress t opts q hpart
      -- only a `cas` or an `add` stores something
      have hquiet : (q = .start ∨ ∃ res, q = .seen res) → _ := fun hq =>
        hs.same_order hphase (entries_of_phase hcall hallowed hq).1
          (by rcases hq with rfl | ⟨res, rfl⟩ <;> simp [hpart])
          (fun opts' res newData h => (entries_of_phase hcall hallowed hq).2 res newData
            (Prod.mk.inj (Option.some.inj h)).2)
      cases q with
      | free => exact hknown.1.elim
      | start => exact hquiet (Or.inl rfl)
      | seen res => exact hquiet (Or.inr ⟨res, rfl⟩)
      | chosen res newData =>
        obtain rfl : o = _ := hallowed
        rcases store_applies hz hknown.1.2 hcall with
          ⟨hadvance, hbefore, hafter⟩ | ⟨hadvance, hkept⟩
        · rw [Part.advance, hadvance] at hphase
          exact hs.next_order hpart hphase hbefore hafter
        · rw [Part.advance, hadvance] at hphase
          exact hs.same_order hphase hkept (by simp [hpart]) (by simp)
      | stored res newData => exact hallowed.elim

theorem serialized_initially {entries : Bytes → Option Entry}
    {program : τ → ClientM (Bytes × UInt32)} (hprogram : ∀ t, Does key (program t) (updates t))
    (hv : Held zlib v.1 v.2 (entries key)) : Serialized zlib f updates key v
      ((ClientThreads.initially entries program).withPhase fun t => Part.start (updates t)) := by
  refine ⟨fun t => (hprogram t).follows, fun t => ?_, fun t opts p hp => ?_, [], v, .first,
    Or.inl hv, List.nodup_nil, fun t newData => ?_⟩
  · show (Part.start (updates t)).map _ = _
    cases updates t <;> rfl
  · have hp : Part.start (updates t) = some (opts, p) := hp
    cases hupdate : updates t with
    | none =>
      rw [hupdate] at hp
      cases hp
    | some opts' =>
      rw [hupdate] at hp
      obtain ⟨rfl, rfl⟩ := Prod.mk.inj (Option.some.inj hp)
      exact ⟨by rintro event ⟨⟩, trivial⟩
  · refine iff_of_false List.not_mem_nil ?_
    rintro ⟨opts, res, h⟩
    have h : Part.start (updates t) = _ := h
    cases hupdate : updates t <;> rw [hupdate] at h <;> cases h

/-- An update has returned exactly when it has stored its value. -/
theorem Serialized.stored_iff (hs : Serialized zlib f updates key v s) {t : τ}
    (newData : Bytes × UInt32) : (∃ opts res, s.phase t = some (opts, .stored res newData)) ↔
      updates t ≠ none ∧ s.left t = .done (.ok newData) := by
  have hfollows := hs.disciplined t
  have hpart := hs.part t
  cases hphase : s.phase t with
  | none =>
    rw [hphase] at hpart
    refine iff_of_false ?_ fun h => h.1 hpart.symm
    rintro ⟨opts, res, h⟩
    cases h
  | some q =>
    obtain ⟨opts, q⟩ := q
    rw [hphase] at hfollows hpart
    have hupdate : updates t ≠ none := by
      rw [← hpart]
      exact Option.some_ne_none opts
    constructor
    · rintro ⟨opts', res, h⟩
      cases h
      refine ⟨hupdate, ?_⟩
      cases hleft : s.left t with
      | call o next =>
        rw [hleft] at hfollows
        exact hfollows.1.elim
      | done result =>
        rw [hleft] at hfollows
        exact congrArg Program.done hfollows
    · rintro ⟨-, hleft⟩
      rw [hleft] at hfollows
      cases q with
      | free => exact (hs.progress t opts _ hphase).1.elim
      | stored res newData' =>
        obtain rfl := Except.ok.inj hfollows
        exact ⟨opts, res, rfl⟩
      | start | seen | chosen =>
        obtain ⟨ex, hex⟩ := hfollows
        cases hex

/-- **Updates are serialized.** All requests reach one live server, which never fails, nothing
expires, and every new entry gets a new cas id. In every run of any number of threads that update a
key by functions, or only read it, the value of the key is what the updates that returned make of
the first value, one after the other in some order, each exactly once, and each returned what it
made of the value before. -/
theorem updates_serialized (hz : zlib.Lossless) {entries : Bytes → Option Entry}
    {program : τ → ClientM (Bytes × UInt32)} (hprogram : ∀ t, Does key (program t) (updates t))
    (hv : Held zlib v.1 v.2 (entries key)) {ls : List (τ × ClientChoice)} {s : ClientThreads τ}
    (hrun : Run.exec (clientStep client zlib) (.initially entries program) ls = some s)
    (hf : Run.Along (clientStep client zlib) (fun s l _ => Functional f updates s l)
      (.initially entries program) ls) :
    ∃ order u, Applied f v order u ∧ HasValue zlib u (s.shared.entries key) ∧
      (order.map Prod.fst).Nodup ∧
      ∀ t newData, (t, newData) ∈ order ↔
        updates t ≠ none ∧ s.left t = .done (.ok newData) := by
  obtain ⟨phase, hs⟩ := Run.invariant
    (fun s => ∃ phase, Serialized zlib f updates key v (Threads.withPhase s phase))
    (fun s l s' ⟨phase, hs⟩ h hf => by
      have hexec : Run.exec (clientStep client zlib) s [l] = some s' := by
        rw [Run.exec, h]
        rfl
      obtain ⟨phase', hphase⟩ := Threads.exec_withPhase Part.advance hexec phase
      obtain ⟨s'', hstep, hs''⟩ := Run.exec_cons hphase
      obtain rfl := Option.some.inj hs''
      exact ⟨phase', hs.step hz hstep hf⟩)
    ⟨_, serialized_initially hprogram hv⟩ hrun hf
  obtain ⟨order, u, happlied, hheld, hnodup, hmem⟩ := hs.order
  refine ⟨order, u, happlied, hheld, hnodup, fun t newData => ?_⟩
  rw [hmem, hs.stored_iff]
  rfl

end Threads

/-! ### Clients of one server -/

section OnlyServer

variable {τ : Type}

/-- A pool of one server. -/
def onePool : Pool := ⟨SortedMap.empty.insert 0 0, fun _ _ => 0⟩

def onlyServer (api : τ → Api) (t : τ) : Client := ⟨api t, onePool, {}⟩

/-- Two clients. -/
abbrev textClients : Bool → Client := onlyServer fun _ => .text

theorem walk_onePool (key : Bytes) : (onePool.choose key).walk = [0, 0] := rfl

theorem clientAtomic_onlyServer {api : τ → Api} {zlib : Zlib} {t : τ} {e : ClientChoice}
    {key : Bytes} {request : Request} {h404 : Bool} {w : World τ} (hkey : request.key = some key)
    (hfresh : e.fresh ∉ w.used key) (hnow : 300 ≤ e.now) :
    clientAtomic (onlyServer api) zlib t e (.run request h404) w =
      some ((serve (api t) zlib e.number request (w.entries key)).1,
        w.apply t key e.fresh (serve (api t) zlib e.number request (w.entries key)).2) := by
  have hroute : (((onePool.choose key).walk.destutter' (· ≠ ·) 4294967295).tail.take
      (onlyServer api t).cfg.maxContinues.toNat) ≠ [] := by
    rw [walk_onePool]
    exact show List.take 3 _ ≠ [] by decide
  have hrun : run (live (onlyServer api) zlib t e key) (onlyServer api t).cfg request h404
      onePool key w = _ := run_live hnow hroute
  simp only [clientAtomic, hkey]
  rw [if_pos ⟨hfresh, hnow⟩]
  exact congrArg some hrun

end OnlyServer

/-! ### Two updates of one value -/

/-- The functor of a thread appends its own digit. -/
def appendDigit (t : Bool) (value : Bytes × UInt32) : Except Exn (Bytes × UInt32) :=
  .ok (value.1 ++ ascii (if t then "3" else "2"), value.2)

/-- A functor that is called in this step was handed the value. -/
def digitChoice (t : Bool) (value : String) (fresh : CasId) : ClientChoice where
  result := appendDigit t (ascii value, 0)
  fresh := fresh
  now := 1000

def bothUpdate (_ : Bool) : ClientM (Bytes × UInt32) := atomicUpdate (ascii "zz") {}

/-- Both threads see the first value, one stores its own, and the other one begins again. -/
def lateUpdate : List (Bool × ClientChoice) :=
  [(true, digitChoice true "1" ⟨10, by decide⟩), (false, digitChoice false "1" ⟨10, by decide⟩),
    (true, digitChoice true "1" ⟨10, by decide⟩), (false, digitChoice false "1" ⟨10, by decide⟩),
    (false, digitChoice false "1" ⟨10, by decide⟩), (true, digitChoice true "12" ⟨12, by decide⟩),
    (true, digitChoice true "12" ⟨12, by decide⟩), (true, digitChoice true "12" ⟨12, by decide⟩),
    (true, digitChoice true "12" ⟨12, by decide⟩)]

theorem updates_serialized_late : ∃ s,
    Run.exec (clientStep textClients .plain) (.initially zzEntries bothUpdate) lateUpdate =
        some s ∧
      s.left false = .done (.ok (ascii "12", 0)) ∧ s.left true = .done (.ok (ascii "123", 0)) ∧
      ∃ order u, Applied appendDigit (ascii "1", 0) order u ∧
        HasValue .plain u (s.shared.entries (ascii "zz")) ∧ (order.map Prod.fst).Nodup ∧
        ∀ t newData, (t, newData) ∈ order ↔
          some ({} : Opts) ≠ none ∧ s.left t = .done (.ok newData) := by
  obtain ⟨s, hrun, hfunctional, hfalse, htrue⟩ : ∃ s,
      Run.exec (clientStep textClients .plain) (.initially zzEntries bothUpdate) lateUpdate =
        some s ∧
      Run.Along (clientStep textClients .plain)
        (fun s l _ => Functional appendDigit (fun _ => some {}) s l)
        (.initially zzEntries bothUpdate) lateUpdate ∧
      s.left false = .done (.ok (ascii "12", 0)) ∧
      s.left true = .done (.ok (ascii "123", 0)) := by
    refine Run.exists_cons (Threads.step_call rfl
      (clientAtomic_onlyServer rfl (by decide) (by decide))) (by rintro _ - _ _ _ ⟨⟩) ?_
    refine Run.exists_cons (Threads.step_call rfl
      (clientAtomic_onlyServer rfl (by decide) (by decide))) (by rintro _ - _ _ _ ⟨⟩) ?_
    refine Run.exists_cons (Threads.step_call rfl rfl) (by rintro _ - _ _ _ ⟨⟩; rfl) ?_
    refine Run.exists_cons (Threads.step_call rfl rfl) (by rintro _ - _ _ _ ⟨⟩; rfl) ?_
    refine Run.exists_cons (Threads.step_call rfl
      (clientAtomic_onlyServer rfl (by decide) (by decide))) (by rintro _ - _ _ _ ⟨⟩) ?_
    refine Run.exists_cons (Threads.step_call rfl
      (clientAtomic_onlyServer rfl (by decide) (by decide))) (by rintro _ - _ _ _ ⟨⟩) ?_
    refine Run.exists_cons (Threads.step_call rfl
      (clientAtomic_onlyServer rfl (by decide) (by decide))) (by rintro _ - _ _ _ ⟨⟩) ?_
    refine Run.exists_cons (Threads.step_call rfl rfl) (by rintro _ - _ _ _ ⟨⟩; rfl) ?_
    refine Run.exists_cons (Threads.step_call rfl
      (clientAtomic_onlyServer rfl (by decide) (by decide))) (by rintro _ - _ _ _ ⟨⟩) ?_
    exact ⟨_, rfl, trivial, rfl, rfl⟩
  have hprogram : ∀ t, Does (ascii "zz") (bothUpdate t) (some {}) := fun _ => rfl
  have hv : Held .plain (ascii "1") 0 (zzEntries (ascii "zz")) := rfl
  exact ⟨s, hrun, hfalse, htrue,
    updates_serialized (v := (ascii "1", 0)) Zlib.lossless_plain hprogram hv hrun hfunctional⟩

end McacheClient
