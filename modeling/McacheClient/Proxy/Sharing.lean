import McacheClient.Lib.Threads
import McacheClient.Proxy.Server
import Mathlib.Tactic.SplitIfs

/-!
# Threads that share a server

Any number of threads run the programs of the proxy on one `shared_t`, one operation at a time.

* `Shared`, `atomic`: `shared_t` with the holder of its lock, and what each operation does to it;
* `Trail`: what a thread has done so far, a ghost;
* `ProxyRules`: what the methods of a proxy are made of, for a property of its programs;
* `keeps_rules`: every guard is destroyed once and nothing else unlocks;
* **`mutualExclusion_iff`**: the reconnect section is exclusive exactly as long as no refused guard
  releases a lock that is held.
-/

namespace McacheClient

/-- `shared_t`; the lock is free or held by a thread. -/
structure Shared (τ : Type) where
  restoration : TimePoint
  dead : Bool
  fails : UInt32
  lock : Option τ := none
  deriving DecidableEq

/-- What the environment chooses for an operation: the clock, a connection, a response. -/
structure Choice where
  reading : TimePoint := 0
  connection : Except Exn ℕ := .ok 0
  response : Except Exn Response := .ok { code := .ok }

section Atomic

variable {τ κ : Type}

/-- One operation of thread `t`. The pool of connections is not part of `shared_t`. -/
def atomic (t : τ) (e : Choice) : (o : ProxyOp κ) → Shared τ → Option (o.Answer × Shared τ)
  | .loadDead, s => some (s.dead, s)
  | .storeDead dead, s => some ((), { s with dead })
  | .loadRestoration, s => some (s.restoration, s)
  | .storeRestoration restoration, s => some ((), { s with restoration })
  | .storeFails fails, s => some ((), { s with fails })
  | .incFails, s => some (s.fails + 1, { s with fails := s.fails + 1 })
  | .tryLock, s =>
    match s.lock with
    | none => some (true, { s with lock := some t })
    | some _ => some (false, s)
  | .unlock, s => some ((), { s with lock := none })
  | .now, s => some (e.reading, s)
  | .pick, s => some (e.connection, s)
  | .exchange .., s => some (e.response, s)
  | .pushBack _, s | .clear, s => some ((), s)

theorem tryLock_free {s : Shared τ} (h : s.lock = none) (t : τ) (e : Choice) :
    atomic t e (.tryLock : ProxyOp κ) s = some (true, { s with lock := some t }) := by
  cases s
  cases h
  rfl

theorem tryLock_held {s : Shared τ} {u : τ} (h : s.lock = some u) (t : τ) (e : Choice) :
    atomic t e (.tryLock : ProxyOp κ) s = some (false, s) := by
  cases s
  cases h
  rfl

/-- What a thread has done: the answer of `dead.load()`, the clock it read, the answer of the
`try_lock` of the guard that is alive, and whether it has stored a restoration time. -/
structure Trail where
  dead : Option Bool := none
  reading : Option TimePoint := none
  guard : Option Bool := none
  stored : Bool := false

def Trail.advance (g : Trail) : (o : ProxyOp κ) → o.Answer → Trail
  | .loadDead, dead => { g with dead := some dead }
  | .now, t => { g with reading := some t }
  | .tryLock, locked => { g with guard := some locked }
  | .unlock, _ => { g with guard := none }
  | .storeRestoration _, _ => { g with stored := true }
  | _, _ => g

/-- Threads of proxies, with results `α`. -/
abbrev ProxyThreads (τ κ α : Type) : Type := Threads τ (Shared τ) Trail (ProxyOp κ) ProxyOp.Answer α

end Atomic

/-! ## What `callable` and `send` are made of -/

section Rules

variable {κ : Type}

/-- The operations outside `scopeGuard` and `sendTry`. -/
def ProxyOp.plain : ProxyOp κ → Prop
  | .tryLock | .unlock | .exchange .. | .pushBack _ => False
  | _ => True

/-- A property of the programs of a thread whose guard is `guard`. -/
structure ProxyRules (P : ∀ {α : Type}, Option Bool → ProxyM κ α → Prop) : Prop where
  of_pure : ∀ {α : Type} (guard : Option Bool) (a : α), P guard (pure a)
  of_bind : ∀ {α β : Type} {guard : Option Bool} {p : ProxyM κ α} {f : α → ProxyM κ β},
    P guard p → (∀ a, P guard (f a)) → P guard (p >>= f)
  of_perform : ∀ {α : Type} {guard : Option Bool} {o : ProxyOp κ} {f : o.Answer → ProxyM κ α},
    o.plain → (∀ r, P guard (f r)) → P guard (perform o >>= f)
  of_scopeGuard : ∀ {α : Type} {f : Bool → ProxyM κ α},
    (∀ b, P (some b) (f b)) → P none (scopeGuard fun tryLock => tryLock >>= f)
  of_sendTry : ∀ command : κ, P none (sendTry command)

variable {P : ∀ {α : Type}, Option Bool → ProxyM κ α → Prop}

theorem ProxyRules.callable (h : ProxyRules P) (cfg : ServerProxyConfig) :
    P none (callable cfg : ProxyM κ Bool) := by
  unfold McacheClient.callable
  refine h.of_perform trivial fun dead => ?_
  split_ifs
  · exact h.of_pure none true
  refine h.of_perform trivial fun now => ?_
  refine h.of_perform trivial fun restoration => ?_
  split_ifs
  · exact h.of_pure none false
  refine h.of_scopeGuard fun locked => ?_
  split_ifs
  · exact h.of_pure _ false
  · exact h.of_perform trivial fun _ => h.of_pure _ true

theorem ProxyRules.send (h : ProxyRules P) (cfg : ServerProxyConfig) (command : κ) :
    P none (send cfg command) := by
  unfold McacheClient.send
  refine h.of_bind (h.of_sendTry command) fun result => ?_
  split
  · refine h.of_scopeGuard fun locked => ?_
    split_ifs
    · refine h.of_perform trivial fun fails => ?_
      split_ifs
      · refine h.of_perform trivial fun now => ?_
        refine h.of_perform trivial fun _ => ?_
        refine h.of_perform trivial fun _ => ?_
        exact h.of_perform trivial fun _ => h.of_pure _ _
      · exact h.of_pure _ _
    · exact h.of_pure _ _
  · exact h.of_pure none _

end Rules

/-! ## Guards -/

section Guards

variable {κ α β : Type}

/-- A thread has at most one guard, and only its destructor unlocks. -/
def Trail.mayGuard (g : Trail) : ProxyOp κ → Prop
  | .tryLock => g.guard = none
  | .unlock => g.guard ≠ none
  | _ => True

/-- The program leaves the thread with the guard it started with, `guard`. -/
def Keeps (guard : Option Bool) (p : ProxyM κ α) : Prop :=
  ∀ g : Trail, g.guard = guard →
    p.Follows Trail.mayGuard Trail.advance (fun g' _ => g'.guard = guard) g

theorem Keeps.bind {guard : Option Bool} {p : ProxyM κ α} {f : α → ProxyM κ β}
    (hp : Keeps guard p) (hf : ∀ a, Keeps guard (f a)) : Keeps guard (p >>= f) :=
  fun g hg => Program.follows_bind.mpr ((hp g hg).mono fun g' a hg' => hf a g' hg')

theorem keeps_pure (guard : Option Bool) (a : α) : Keeps guard (pure a : ProxyM κ α) :=
  fun _ hg => hg

theorem keeps_perform_bind {guard : Option Bool} {o : ProxyOp κ} {f : o.Answer → ProxyM κ α}
    (ht : o ≠ .tryLock) (hu : o ≠ .unlock) (hf : ∀ r, Keeps guard (f r)) :
    Keeps guard (perform o >>= f) := by
  intro g hg
  cases o with
  | tryLock => exact absurd rfl ht
  | unlock => exact absurd rfl hu
  | _ => exact ⟨trivial, fun r => hf r _ hg⟩

theorem keeps_scopeGuard {f : Bool → ProxyM κ α} (hf : ∀ b, Keeps (some b) (f b)) :
    Keeps none (scopeGuard fun tryLock => tryLock >>= f) := by
  refine fun g hg => ⟨hg, fun b => ?_⟩
  refine Program.follows_bind.mpr ((hf b _ rfl).mono fun g' a hg' => ?_)
  exact ⟨by rw [Trail.mayGuard, hg']; exact Option.some_ne_none b, fun _ => rfl⟩

theorem keeps_sendTry (command : κ) : Keeps none (sendTry command) := by
  unfold sendTry
  refine keeps_perform_bind nofun nofun fun connection => ?_
  split
  · exact keeps_pure none _
  refine keeps_perform_bind nofun nofun fun response => ?_
  split
  · exact keeps_pure none _
  refine keeps_perform_bind nofun nofun fun _ => ?_
  refine keeps_perform_bind nofun nofun fun _ => ?_
  split_ifs
  · exact keeps_perform_bind nofun nofun fun _ => keeps_pure none _
  · exact keeps_pure none _

theorem keeps_rules : ProxyRules fun {α} guard (p : ProxyM κ α) => Keeps guard p where
  of_pure := keeps_pure
  of_bind := Keeps.bind
  of_perform ho := keeps_perform_bind (by rintro rfl; exact ho) (by rintro rfl; exact ho)
  of_scopeGuard := keeps_scopeGuard
  of_sendTry := keeps_sendTry

end Guards

/-! ## Any number of threads -/

/-- A call that a thread makes. -/
inductive ServerCall (κ : Type)
  | callable
  | send (command : κ)

section Section

variable {τ κ : Type} [DecidableEq τ] (cfg : ServerProxyConfig)

/-- The calls of one thread, one after the other. -/
def callAll : List (ServerCall κ) → ProxyM κ Unit
  | [] => return ()
  | .callable :: calls => do
    let _ ← callable cfg
    callAll calls
  | .send command :: calls => do
    let _ ← send cfg command
    callAll calls

theorem ProxyRules.callAll {P : ∀ {α : Type}, Option Bool → ProxyM κ α → Prop} (h : ProxyRules P)
    (calls : List (ServerCall κ)) : P none (callAll cfg calls) := by
  induction calls with
  | nil => exact h.of_pure none ()
  | cons call calls ih =>
    cases call with
    | callable => exact h.of_bind (h.callable cfg) fun _ => ih
    | send command => exact h.of_bind (h.send cfg command) fun _ => ih

/-- Before the first step: the lock is free. -/
def initially (shared : Shared τ) (calls : τ → List (ServerCall κ)) : ProxyThreads τ κ Unit where
  shared := { shared with lock := none }
  left t := callAll cfg (calls t)
  phase _ := {}

/-- One operation of one thread. -/
abbrev proxyStep {α : Type} : ProxyThreads τ κ α → τ × Choice → Option (ProxyThreads τ κ α) :=
  Threads.step atomic Trail.advance

/-- The thread is between a `try_lock` that returned true and the destructor of its guard. -/
def Inside {α : Type} (s : ProxyThreads τ κ α) (t : τ) : Prop := (s.phase t).guard = some true

/-- At most one thread is inside after the step, and the step released the lock only if it was
made by its holder. -/
def Exclusive {α : Type} (s : ProxyThreads τ κ α) (l : τ × Choice)
    (s' : ProxyThreads τ κ α) : Prop :=
  (∀ t u, Inside s' t → Inside s' u → t = u) ∧
    ∀ t, s.shared.lock = some t → s'.shared.lock ≠ some t → l.1 = t

/-- The step is not the destructor of a guard whose `try_lock` returned false, while the lock is
held. -/
def NotRefusedRelease {α : Type} (s : ProxyThreads τ κ α) (l : τ × Choice)
    (_ : ProxyThreads τ κ α) : Prop :=
  ∀ next, s.left l.1 = .call .unlock next → (s.phase l.1).guard = some false →
    s.shared.lock = none

/-- The discipline of guards holds, and a thread is inside exactly when it holds the lock. -/
structure LockHeld {α : Type} (s : ProxyThreads τ κ α) : Prop where
  disciplined : s.Disciplined Trail.mayGuard Trail.advance fun g _ => g.guard = none
  inside_iff : ∀ t, Inside s t ↔ s.shared.lock = some t

variable {α : Type} {s s' : ProxyThreads τ κ α} {t : τ} {e : Choice}

omit [DecidableEq τ] in
theorem lockHeld_initially (shared : Shared τ) (calls : τ → List (ServerCall κ)) :
    LockHeld (initially cfg shared calls) where
  disciplined t := keeps_rules.callAll cfg (calls t) _ rfl
  inside_iff _ := iff_of_false nofun nofun

omit [DecidableEq τ] in
theorem atomic_lock {o : ProxyOp κ} (ht : o ≠ .tryLock) (hu : o ≠ .unlock) {r : o.Answer}
    {sh sh' : Shared τ} (h : atomic t e o sh = some (r, sh')) (g : Trail) :
    sh'.lock = sh.lock ∧ (g.advance o r).guard = g.guard := by
  cases o with
  | tryLock => exact absurd rfl ht
  | unlock => exact absurd rfl hu
  | _ =>
    obtain ⟨rfl, rfl⟩ := Prod.mk.inj (Option.some.inj h)
    exact ⟨rfl, rfl⟩

theorem inside_update {f : Trail} (hphase : s'.phase = Function.update s.phase t f) (u : τ) :
    Inside s' u ↔ if u = t then f.guard = some true else Inside s u := by
  rw [Inside, hphase, Function.update_apply]
  split_ifs <;> rfl

theorem LockHeld.tried (hs : LockHeld s) (hmay : (s.phase t).mayGuard (.tryLock : ProxyOp κ))
    {r : (ProxyOp.tryLock : ProxyOp κ).Answer}
    (hatomic : atomic t e (.tryLock : ProxyOp κ) s.shared = some (r, s'.shared))
    (hphase : s'.phase = Function.update s.phase t ((s.phase t).advance (.tryLock : ProxyOp κ) r))
    (u : τ) : Inside s' u ↔ s'.shared.lock = some u := by
  rw [inside_update hphase]
  have hout : s.shared.lock ≠ some t := fun hl => by
    have hin : Inside s t := (hs.inside_iff t).mpr hl
    rw [Inside, show (s.phase t).guard = none from hmay] at hin
    cases hin
  cases hlock : s.shared.lock with
  | none =>
    rw [tryLock_free hlock] at hatomic
    obtain ⟨rfl, hsh⟩ := Prod.mk.inj (Option.some.inj hatomic)
    rw [← hsh]
    split_ifs with hu
    · simp [Trail.advance, hu]
    · rw [hs.inside_iff, hlock]
      simp [Ne.symm hu]
  | some v =>
    rw [tryLock_held hlock] at hatomic
    rw [hlock] at hout
    obtain ⟨rfl, hsh⟩ := Prod.mk.inj (Option.some.inj hatomic)
    rw [← hsh, hlock]
    split_ifs with hu
    · subst hu
      exact iff_of_false nofun hout
    · rw [hs.inside_iff, hlock]

theorem LockHeld.unlocked (hs : LockHeld s) (hmay : (s.phase t).mayGuard (.unlock : ProxyOp κ))
    (hfree : (s.phase t).guard = some false → s.shared.lock = none)
    {r : (ProxyOp.unlock : ProxyOp κ).Answer}
    (hatomic : atomic t e (.unlock : ProxyOp κ) s.shared = some (r, s'.shared))
    (hphase : s'.phase = Function.update s.phase t ((s.phase t).advance (.unlock : ProxyOp κ) r))
    (u : τ) : Inside s' u ↔ s'.shared.lock = some u := by
  obtain ⟨rfl, hsh⟩ := Prod.mk.inj (Option.some.inj hatomic)
  rw [inside_update hphase, ← hsh]
  refine iff_of_false ?_ nofun
  split_ifs with hu
  · exact nofun
  · rw [hs.inside_iff]
    cases hguard : (s.phase t).guard with
    | none => exact absurd hguard hmay
    | some b =>
      cases b with
      | true => rw [(hs.inside_iff t).mp hguard]; exact fun he => hu (Option.some.inj he).symm
      | false => rw [hfree hguard]; exact nofun

/-- **The lock is held by the thread inside** after every step that is no refused release. -/
theorem LockHeld.step (hs : LockHeld s) (h : proxyStep s (t, e) = some s')
    (hP : NotRefusedRelease s (t, e) s') : LockHeld s' := by
  refine ⟨Threads.follows_step hs.disciplined h, fun u => ?_⟩
  obtain ⟨o, next, r, hleft, hatomic, -, hphase⟩ := Threads.step_eq_some h
  have hmay : (s.phase t).mayGuard o := hs.disciplined.allowed hleft
  by_cases ho : o = .tryLock
  · subst ho
    exact hs.tried hmay hatomic hphase u
  by_cases ho' : o = .unlock
  · subst ho'
    exact hs.unlocked hmay (hP next hleft) hatomic hphase u
  · obtain ⟨hlock, hguard⟩ := atomic_lock ho ho' hatomic (s.phase t)
    rw [inside_update hphase, hlock, ← hs.inside_iff, hguard]
    split_ifs with hu
    · rw [hu, Inside]
    · rfl

/-- Where the lock is held by the thread inside, a step is exclusive exactly when it is no refused
release. -/
theorem LockHeld.notRefusedRelease_iff (hs : LockHeld s) (h : proxyStep s (t, e) = some s') :
    NotRefusedRelease s (t, e) s' ↔ Exclusive s (t, e) s' := by
  obtain ⟨o, next, r, hleft, hatomic, -, -⟩ := Threads.step_eq_some h
  constructor
  · intro hP
    have hs' := hs.step h hP
    refine ⟨fun u v hu hv => ?_, fun u hu hu' => ?_⟩
    · rw [hs'.inside_iff] at hu hv
      exact Option.some.inj (hu.symm.trans hv)
    by_cases ho : o = .tryLock
    · subst ho
      rw [tryLock_held hu] at hatomic
      rw [← (Prod.mk.inj (Option.some.inj hatomic)).2] at hu'
      exact absurd hu hu'
    by_cases ho' : o = .unlock
    · subst ho'
      have hmay : (s.phase t).guard ≠ none := hs.disciplined.allowed hleft
      cases hguard : (s.phase t).guard with
      | none => exact absurd hguard hmay
      | some b =>
        cases b with
        | true => exact Option.some.inj (((hs.inside_iff t).mp hguard).symm.trans hu)
        | false => rw [hP next hleft hguard] at hu; cases hu
    · exact absurd ((atomic_lock ho ho' hatomic {}).1.trans hu) hu'
  · rintro ⟨-, hrel⟩ next' hunlock hguard
    rw [hleft] at hunlock
    obtain ⟨rfl, -⟩ := Program.call.inj hunlock
    by_contra hheld
    obtain ⟨u, hu⟩ := Option.ne_none_iff_exists'.mp hheld
    have hfree : s'.shared.lock = none := by
      rw [← (Prod.mk.inj (Option.some.inj hatomic)).2]
    have htu : t = u := hrel u hu (by rw [hfree]; exact nofun)
    subst htu
    have hin : Inside s t := (hs.inside_iff t).mpr hu
    rw [Inside, hguard] at hin
    cases hin

/-- **The reconnect section is exclusive, and the lock released by its holder only, in exactly the
runs that destroy no refused guard while the lock is held.** -/
theorem mutualExclusion_iff (shared : Shared τ) (calls : τ → List (ServerCall κ))
    (labels : List (τ × Choice)) :
    Run.Along proxyStep Exclusive (initially cfg shared calls) labels ↔
      Run.Along proxyStep NotRefusedRelease (initially cfg shared calls) labels := by
  symm
  apply Run.along_iff LockHeld
  · exact fun s l s' hs h => hs.notRefusedRelease_iff h
  · exact fun s l s' hs h hP => hs.step h hP
  · exact lockHeld_initially cfg shared calls

end Section

/-! ## A refused guard releases the lock -/

/-- A dead server whose restoration time has passed. -/
def deadServer {τ : Type} : Shared τ where
  restoration := seconds 90
  dead := true
  fails := 1

/-- A thread calls `callable` at second 100, as far as its `try_lock`. -/
def untilLock {τ : Type} (t : τ) : List (τ × Choice) :=
  [(t, {}), (t, { reading := seconds 100 }), (t, {}), (t, {})]

/-- Three threads that find the server dead. -/
def threeCallers : ProxyThreads ℕ Unit Unit := initially {} deadServer fun _ => [.callable]

/-- Thread 0 gets the lock, thread 1 is refused and unlocks, thread 2 gets the lock as well. -/
def refusedRelease : List (ℕ × Choice) := untilLock 0 ++ untilLock 1 ++ (1, {}) :: untilLock 2

theorem not_exclusive_refusedRelease :
    ¬ Run.Along proxyStep Exclusive threeCallers refusedRelease := by
  intro halong
  have hinside : ∃ s, Run.exec proxyStep threeCallers refusedRelease = some s ∧
      Inside s 0 ∧ Inside s 2 := ⟨_, rfl, rfl, rfl⟩
  obtain ⟨s, hrun, h0, h2⟩ := hinside
  have hnone : ∀ t, ¬ Inside threeCallers t := fun _ h =>
    Option.some_ne_none true (show none = some true from h).symm
  have hone := Run.invariant (fun s => ∀ t u, Inside s t → Inside s u → t = u)
    (fun _ _ _ _ _ hP => hP.1) (fun t _ ht => absurd ht (hnone t)) hrun halong
  exact absurd (hone 0 2 h0 h2) (by decide)

end McacheClient
