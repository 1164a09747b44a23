import McacheClient.Proxy.Sharing
import Mathlib.Algebra.Order.Group.Unbundled.Int

/-!
# Who revives a dead server

Any number of calls of `callable` on one dead server, one operation at a time.

* `Trail.mayRevive`: the order of the operations inside one call;
* `returnsTrue_of_locked`: a call that gets the lock is elected;
* `Revival`: the invariant, over the calls that have stored a restoration time and the one call
  that is about to;
* **`singleReviver_of_lockedInTime`**: when no call gets the lock too late, the calls that return
  true have read the clock at least one restoration interval apart, and every call that got the
  lock is one of them.
-/

namespace McacheClient

section Order

variable {κ : Type} (interval : ℤ)

/-- What one call of `callable` may do next. -/
def Trail.mayRevive (g : Trail) : ProxyOp κ → Prop
  | .loadDead | .loadRestoration => True
  | .unlock => g.guard = some true → g.stored = true
  | .now => g.guard = none ∧ g.stored = false
  | .tryLock => g.guard = none ∧ g.stored = false ∧ g.reading ≠ none
  | .storeRestoration t =>
    g.guard = some true ∧ g.stored = false ∧
      ∃ now, g.reading = some now ∧ t = .wrap (now + interval)
  | _ => False

/-- A call returns true when it found the server alive or stored a restoration time. -/
def Trail.revived (g : Trail) (result : Bool) : Prop :=
  g.guard ≠ some true ∧ (result = true ↔ g.dead = some false ∨ g.stored = true)

theorem follows_callable (cfg : ServerProxyConfig) :
    (callable cfg : ProxyM κ Bool).Follows (Trail.mayRevive (seconds cfg.restorationInterval))
      Trail.advance Trail.revived {} := by
  unfold callable
  refine ⟨trivial, fun dead => ?_⟩
  cases dead with
  | false => exact ⟨nofun, iff_of_true rfl (Or.inl rfl)⟩
  | true =>
    refine ⟨⟨rfl, rfl⟩, fun now => ⟨trivial, fun restoration => ?_⟩⟩
    show Program.Follows _ _ _ _ (if (now : TimePoint) < restoration then pure false else _)
    have hrefused : ¬((some true : Option Bool) = some false ∨ (false : Bool) = true) := by decide
    split_ifs
    · exact ⟨nofun, iff_of_false Bool.false_ne_true hrefused⟩
    refine ⟨⟨rfl, rfl, Option.some_ne_none _⟩, fun locked => ?_⟩
    cases locked with
    | false => exact ⟨nofun, fun _ => ⟨nofun, iff_of_false Bool.false_ne_true hrefused⟩⟩
    | true =>
      refine ⟨⟨rfl, rfl, now, rfl, rfl⟩, fun _ => ⟨fun _ => rfl, fun _ => ⟨nofun, ?_⟩⟩⟩
      exact iff_of_true rfl (Or.inr rfl)

/-- Whatever the rest of a call is answered, it returns true. -/
def ReturnsTrue (p : ProxyM κ Bool) : Prop :=
  p.Follows (fun _ _ => True) (fun s _ _ => s) (fun _ result => result = true) ()

/-- **A call that has the lock, or has stored, is elected.** -/
theorem returnsTrue_of_locked {g : Trail} {p : ProxyM κ Bool}
    (hp : p.Follows (Trail.mayRevive interval) Trail.advance Trail.revived g)
    (hg : g.guard = some true ∨ g.stored = true) : ReturnsTrue p := by
  induction p generalizing g with
  | done result => exact hp.2.mpr (Or.inr (hg.resolve_left hp.1))
  | call o next ih =>
    refine ⟨trivial, fun r => ih r (hp.2 r) ?_⟩
    have hmay := hp.1
    cases o with
    | loadDead | loadRestoration => exact hg
    | unlock => exact Or.inr (hg.elim hmay id)
    | now | tryLock =>
      rcases hg with hguard | hstored
      · exact nomatch hmay.1.symm.trans hguard
      · exact Or.inr hstored
    | storeRestoration t => exact Or.inr rfl
    | _ => exact hmay.elim

end Order

variable {τ κ : Type} [DecidableEq τ]

/-- Every thread calls `callable`. -/
def calling (cfg : ServerProxyConfig) (shared : Shared τ) : ProxyThreads τ κ Bool where
  shared
  left _ := callable cfg
  phase _ := {}

/-- Of the calls that return true, any two read the clock at least `interval` apart. -/
def SingleReviver (interval : ℤ) (s : ProxyThreads τ κ Bool) : Prop :=
  ∀ t u, t ≠ u → s.left t = .done true → s.left u = .done true →
    ∃ n m, (s.phase t).reading = some n ∧ (s.phase u).reading = some m ∧ interval ≤ |n - m|

/-- The call has the lock and is about to store a restoration time. -/
def Trail.Pending (g : Trail) : Prop := g.guard = some true ∧ g.stored = false

/-- When the step gets the lock, the restoration time is not after the clock that its call has
read, the one that the call is going to store does not overflow, and no other call is about to store
one. -/
def LockedInTime (interval : ℤ) (s : ProxyThreads τ κ Bool) (l : τ × Choice)
    (_ : ProxyThreads τ κ Bool) : Prop :=
  ∀ next, s.left l.1 = .call .tryLock next → s.shared.lock = none →
    (∀ now, (s.phase l.1).reading = some now →
      s.shared.restoration ≤ now ∧ TimePoint.Fits (now + interval)) ∧
      ∀ u, ¬ (s.phase u).Pending

/-- The restoration time is at least one interval after the clock of every call that has stored,
and not after the clock of the call that is about to. -/
structure Revival (interval : ℤ) (s : ProxyThreads τ κ Bool) : Prop where
  disciplined : s.Disciplined (Trail.mayRevive interval) Trail.advance Trail.revived
  dead : s.shared.dead = true
  found : ∀ t, (s.phase t).dead ≠ some false
  pending_unique : ∀ t u, (s.phase t).Pending → (s.phase u).Pending → t = u
  pending_due : ∀ t, (s.phase t).Pending → ∀ now, (s.phase t).reading = some now →
    s.shared.restoration ≤ now ∧ TimePoint.Fits (now + interval)
  stored_due : ∀ t, (s.phase t).stored = true → ∃ now, (s.phase t).reading = some now ∧
    (0 ≤ interval → now + interval ≤ s.shared.restoration)
  apart : ∀ t u, t ≠ u → (s.phase t).stored = true → (s.phase u).stored = true →
    ∃ n m, (s.phase t).reading = some n ∧ (s.phase u).reading = some m ∧ interval ≤ |n - m|

variable {cfg : ServerProxyConfig} {interval : ℤ} {s s' : ProxyThreads τ κ Bool} {t : τ}
  {e : Choice}

omit [DecidableEq τ] in
theorem revival_calling {shared : Shared τ} (hdead : shared.dead = true) :
    Revival (seconds cfg.restorationInterval) (calling cfg shared : ProxyThreads τ κ Bool) where
  disciplined _ := follows_callable cfg
  dead := hdead
  found _ := nofun
  pending_unique _ _ h := nomatch h.1
  pending_due _ h := nomatch h.1
  stored_due _ h := nomatch h
  apart _ _ _ h := nomatch h

omit [DecidableEq τ] in
theorem Revival.frame (hs : Revival interval s)
    (hd : s'.Disciplined (Trail.mayRevive interval) Trail.advance Trail.revived)
    (hsh : s'.shared.restoration = s.shared.restoration) (hdead : s'.shared.dead = true)
    (hfound : ∀ u, (s'.phase u).dead ≠ some false)
    (hpending : ∀ u, (s'.phase u).Pending → (s.phase u).Pending)
    (hstored : ∀ u, (s'.phase u).stored = (s.phase u).stored)
    (hreading : ∀ u, (s'.phase u).Pending ∨ (s'.phase u).stored = true →
      (s'.phase u).reading = (s.phase u).reading) : Revival interval s' where
  disciplined := hd
  dead := hdead
  found := hfound
  pending_unique u v hu hv := hs.pending_unique u v (hpending u hu) (hpending v hv)
  pending_due u hu now hnow := by
    rw [hreading u (Or.inl hu)] at hnow
    rw [hsh]
    exact hs.pending_due u (hpending u hu) now hnow
  stored_due u hu := by
    rw [hreading u (Or.inr hu), hsh]
    exact hs.stored_due u (hstored u ▸ hu)
  apart u v huv hu hv := by
    rw [hreading u (Or.inr hu), hreading v (Or.inr hv)]
    exact hs.apart u v huv (hstored u ▸ hu) (hstored v ▸ hv)

theorem forall_phase {P : τ → Trail → Prop} {g : Trail}
    (hphase : s'.phase = Function.update s.phase t g) (ht : P t g)
    (hu : ∀ u, u ≠ t → P u (s.phase u)) (u : τ) : P u (s'.phase u) := by
  rw [hphase]
  by_cases h : u = t
  · rw [h, Function.update_self]
    exact ht
  · rw [Function.update_of_ne h]
    exact hu u h

/-- A step of a call that has not stored and is not about to, or that only changes the rest of its
trail. -/
theorem Revival.quiet (hs : Revival interval s)
    (hd : s'.Disciplined (Trail.mayRevive interval) Trail.advance Trail.revived) {g : Trail}
    (hphase : s'.phase = Function.update s.phase t g) (hdead : s'.shared.dead = true)
    (hsh : s'.shared.restoration = s.shared.restoration) (hfound : g.dead ≠ some false)
    (hpending : g.Pending → (s.phase t).Pending) (hstored : g.stored = (s.phase t).stored)
    (hreading : g.Pending ∨ g.stored = true → g.reading = (s.phase t).reading) :
    Revival interval s' := by
  refine hs.frame hd hsh hdead ?_ ?_ ?_ ?_
  · exact forall_phase (P := fun _ g => g.dead ≠ some false) hphase hfound fun u _ => hs.found u
  · exact forall_phase (P := fun u g => g.Pending → (s.phase u).Pending) hphase hpending
      fun _ _ h => h
  · exact forall_phase (P := fun u g => g.stored = (s.phase u).stored) hphase hstored
      fun _ _ => rfl
  · exact forall_phase (P := fun u g => g.Pending ∨ g.stored = true →
      g.reading = (s.phase u).reading) hphase hreading fun _ _ _ => rfl

theorem Revival.locked (hs : Revival interval s)
    (hd : s'.Disciplined (Trail.mayRevive interval) Trail.advance Trail.revived)
    (hsh : s'.shared.restoration = s.shared.restoration) (hdead : s'.shared.dead = true)
    (hphase : s'.phase = Function.update s.phase t { s.phase t with guard := some true })
    (hdue : ∀ now, (s.phase t).reading = some now →
      s.shared.restoration ≤ now ∧ TimePoint.Fits (now + interval))
    (hnone : ∀ u, ¬ (s.phase u).Pending) : Revival interval s' := by
  have hread : ∀ u, (s'.phase u).reading = (s.phase u).reading :=
    forall_phase (P := fun u g => g.reading = (s.phase u).reading) hphase rfl fun _ _ => rfl
  have hstored : ∀ u, (s'.phase u).stored = (s.phase u).stored :=
    forall_phase (P := fun u g => g.stored = (s.phase u).stored) hphase rfl fun _ _ => rfl
  have honly : ∀ u, (s'.phase u).Pending → u = t :=
    forall_phase (P := fun u g => g.Pending → u = t) hphase (fun _ => rfl)
      fun u _ hu => absurd hu (hnone u)
  refine ⟨hd, hdead, ?_, fun u v hu hv => (honly u hu).trans (honly v hv).symm, ?_, ?_, ?_⟩
  · exact forall_phase (P := fun _ g => g.dead ≠ some false) hphase (hs.found t)
      fun u _ => hs.found u
  · intro u hu now hnow
    rw [honly u hu, hread] at hnow
    rw [hsh]
    exact hdue now hnow
  · intro u hu
    rw [hread, hsh]
    exact hs.stored_due u (hstored u ▸ hu)
  · intro u v huv hu hv
    rw [hread, hread]
    exact hs.apart u v huv (hstored u ▸ hu) (hstored v ▸ hv)

/-- The call that was about to store has stored: its clock is an interval after all others. -/
theorem Revival.stored (hs : Revival interval s)
    (hd : s'.Disciplined (Trail.mayRevive interval) Trail.advance Trail.revived)
    {now : TimePoint} (hnow : (s.phase t).reading = some now) (hpending : (s.phase t).Pending)
    (hsh : s'.shared.restoration = .wrap (now + interval)) (hdead : s'.shared.dead = true)
    (hphase : s'.phase = Function.update s.phase t { s.phase t with stored := true }) :
    Revival interval s' := by
  obtain ⟨hdue, hfits⟩ := hs.pending_due t hpending now hnow
  rw [TimePoint.wrap_of_fits hfits] at hsh
  have hread : ∀ u, (s'.phase u).reading = (s.phase u).reading :=
    forall_phase (P := fun u g => g.reading = (s.phase u).reading) hphase rfl fun _ _ => rfl
  have hbefore : ∀ u, u ≠ t → (s'.phase u).stored = true → (s.phase u).stored = true :=
    forall_phase (P := fun u g => u ≠ t → g.stored = true → (s.phase u).stored = true) hphase
      (fun h => absurd rfl h) fun _ _ _ h => h
  have hnone : ∀ u, ¬ (s'.phase u).Pending :=
    forall_phase (P := fun _ g => ¬ g.Pending) hphase (fun h => nomatch h.2)
      fun u hu h => hu (hs.pending_unique u t h hpending)
  -- the clock of a call that stored before, and so not after the restoration time
  have hfar : ∀ u, u ≠ t → (s'.phase u).stored = true →
      ∃ n, (s'.phase u).reading = some n ∧ (0 ≤ interval → n + interval ≤ now) := by
    intro u hu hstored
    obtain ⟨n, hn, hle⟩ := hs.stored_due u (hbefore u hu hstored)
    exact ⟨n, (hread u).trans hn, fun h0 => (hle h0).trans hdue⟩
  have hgap : ∀ n : TimePoint, (0 ≤ interval → n + interval ≤ now) → interval ≤ |now - n| := by
    intro n hn
    rcases lt_or_ge interval 0 with hneg | hpos
    · exact hneg.le.trans (abs_nonneg _)
    · exact (Int.le_sub_left_of_add_le (hn hpos)).trans (le_abs_self _)
  have ht : (s'.phase t).reading = some now := (hread t).trans hnow
  refine ⟨hd, hdead, ?_, fun u _ hu => absurd hu (hnone u), fun u hu => absurd hu (hnone u), ?_, ?_⟩
  · exact forall_phase (P := fun _ g => g.dead ≠ some false) hphase (hs.found t)
      fun u _ => hs.found u
  · intro u hu
    rw [hsh]
    by_cases hut : u = t
    · exact ⟨now, hut ▸ ht, fun _ => le_rfl⟩
    · obtain ⟨n, hn, hle⟩ := hfar u hut hu
      exact ⟨n, hn, fun h0 => (hle h0).trans (Int.le_add_of_nonneg_right h0)⟩
  · intro u v huv hu hv
    by_cases hut : u = t
    · obtain ⟨m, hm, hle⟩ := hfar v (fun h => huv (hut.trans h.symm)) hv
      exact ⟨now, m, hut ▸ ht, hm, hgap m hle⟩
    by_cases hvt : v = t
    · obtain ⟨n, hn, hle⟩ := hfar u hut hu
      exact ⟨n, now, hn, hvt ▸ ht, abs_sub_comm now n ▸ hgap n hle⟩
    · rw [hread, hread]
      exact hs.apart u v huv (hbefore u hut hu) (hbefore v hvt hv)

/-- **What every call that gets the lock in time keeps.** -/
theorem Revival.step (hs : Revival interval s) (h : proxyStep s (t, e) = some s')
    (hP : LockedInTime interval s (t, e) s') : Revival interval s' := by
  have hd := Threads.follows_step hs.disciplined h
  obtain ⟨o, next, r, hleft, hatomic, -, hphase⟩ := Threads.step_eq_some h
  have hmay : (s.phase t).mayRevive interval o := hs.disciplined.allowed hleft
  cases o with
  | loadDead =>
    obtain ⟨hr, hsh⟩ := Prod.mk.inj (Option.some.inj hatomic)
    have hfound : some r ≠ some false := by rw [← hr, hs.dead]; exact nofun
    exact hs.quiet hd hphase (hsh ▸ hs.dead) (hsh ▸ rfl) hfound id rfl fun _ => rfl
  | loadRestoration =>
    obtain ⟨-, hsh⟩ := Prod.mk.inj (Option.some.inj hatomic)
    exact hs.quiet hd hphase (hsh ▸ hs.dead) (hsh ▸ rfl) (hs.found t) id rfl fun _ => rfl
  | unlock =>
    obtain ⟨-, hsh⟩ := Prod.mk.inj (Option.some.inj hatomic)
    exact hs.quiet hd hphase (hsh ▸ hs.dead) (hsh ▸ rfl) (hs.found t) (fun h => nomatch h.1) rfl
      fun _ => rfl
  | now =>
    obtain ⟨-, hsh⟩ := Prod.mk.inj (Option.some.inj hatomic)
    obtain ⟨hguard, hstored⟩ := hmay
    refine hs.quiet hd hphase (hsh ▸ hs.dead) (hsh ▸ rfl) (hs.found t) id rfl fun hg => ?_
    rcases hg with ⟨hg, -⟩ | hg
    · exact nomatch hguard.symm.trans hg
    · exact nomatch hstored.symm.trans hg
  | tryLock =>
    cases hlock : s.shared.lock with
    | none =>
      rw [tryLock_free hlock] at hatomic
      obtain ⟨rfl, hsh⟩ := Prod.mk.inj (Option.some.inj hatomic)
      obtain ⟨hdue, hnone⟩ := hP next hleft hlock
      exact hs.locked hd (hsh ▸ rfl) (hsh ▸ hs.dead) hphase hdue hnone
    | some v =>
      rw [tryLock_held hlock] at hatomic
      obtain ⟨rfl, hsh⟩ := Prod.mk.inj (Option.some.inj hatomic)
      exact hs.quiet hd hphase (hsh ▸ hs.dead) (hsh ▸ rfl) (hs.found t) (fun h => nomatch h.1) rfl
        fun _ => rfl
  | storeRestoration v =>
    obtain ⟨-, hsh⟩ := Prod.mk.inj (Option.some.inj hatomic)
    obtain ⟨hguard, hstored, now, hnow, rfl⟩ := hmay
    exact hs.stored hd hnow ⟨hguard, hstored⟩ (hsh ▸ rfl) (hsh ▸ hs.dead) hphase
  | _ => exact hmay.elim

/-- **One reviver an interval**: when every call that gets the lock gets it in time, the calls that
return true have read the clock at least one restoration interval apart, and a call that has got the
lock returns true. -/
theorem singleReviver_of_lockedInTime {shared : Shared τ} (hdead : shared.dead = true)
    {labels : List (τ × Choice)}
    (hrun : Run.exec proxyStep (calling cfg shared : ProxyThreads τ κ Bool) labels = some s)
    (hlocked : Run.Along proxyStep (LockedInTime (seconds cfg.restorationInterval))
      (calling cfg shared : ProxyThreads τ κ Bool) labels) :
    SingleReviver (seconds cfg.restorationInterval) s ∧
      ∀ t, (s.phase t).guard = some true ∨ (s.phase t).stored = true → ReturnsTrue (s.left t) := by
  have hs := Run.invariant (Revival (seconds cfg.restorationInterval))
    (fun _ _ _ hs h hP => hs.step h hP) (revival_calling hdead) hrun hlocked
  have hstored : ∀ t, s.left t = .done true → (s.phase t).stored = true := by
    intro t ht
    exact ((hs.disciplined.final ht).2.mp rfl).resolve_left (hs.found t)
  exact ⟨fun t u htu ht hu => hs.apart t u htu (hstored t ht) (hstored u hu),
    fun t ht => returnsTrue_of_locked _ (hs.disciplined t) ht⟩

/-- The next step of thread `t`, where nothing is chosen. -/
def tick {τ : Type} (t : τ) : τ × Choice := (t, {})

/-- Two threads that find the server dead. -/
def twoCallers : ProxyThreads Bool Unit Bool := calling {} deadServer

/-- The second thread calls ten seconds after the first one is elected. -/
def inTurn : List (Bool × Choice) :=
  untilLock false ++
    [tick false, tick false, tick true, (true, { reading := seconds 110 }), tick true]

theorem singleReviver_inTurn : ∃ s, Run.exec proxyStep twoCallers inTurn = some s ∧
    s.left false = .done true ∧ s.left true = .done false ∧ SingleReviver (seconds 60) s := by
  have hlocked : Run.Along proxyStep (LockedInTime (seconds 60)) twoCallers inTurn := by
    refine (Run.along_cons rfl).mpr ⟨nofun, (Run.along_cons rfl).mpr ⟨nofun, ?_⟩⟩
    refine (Run.along_cons rfl).mpr ⟨nofun, (Run.along_cons rfl).mpr ⟨fun _ _ _ => ⟨?_, ?_⟩, ?_⟩⟩
    · intro now hnow
      obtain rfl := Option.some.inj (show some (seconds 100) = some now from hnow)
      exact ⟨by decide, by decide⟩
    · exact fun u hu => by cases u <;> exact nomatch hu.1
    refine (Run.along_cons rfl).mpr ⟨nofun, (Run.along_cons rfl).mpr ⟨nofun, ?_⟩⟩
    refine (Run.along_cons rfl).mpr ⟨nofun, (Run.along_cons rfl).mpr ⟨nofun, ?_⟩⟩
    exact (Run.along_cons rfl).mpr ⟨nofun, trivial⟩
  have hrun : ∃ s, Run.exec proxyStep twoCallers inTurn = some s ∧
      s.left false = .done true ∧ s.left true = .done false := ⟨_, rfl, rfl, rfl⟩
  obtain ⟨s, hrun, h0, h1⟩ := hrun
  exact ⟨s, hrun, h0, h1, (singleReviver_of_lockedInTime rfl hrun hlocked).1⟩

/-- Both threads pass the expiry test before either gets the lock. -/
def lateLock : List (Bool × Choice) :=
  (untilLock false).take 3 ++ (untilLock true).take 3 ++
    [tick false, tick false, tick false, tick true, tick true, tick true]

/-- Both calls read the clock at second 100 and return true. -/
theorem not_singleReviver_lateLock : ∃ s, Run.exec proxyStep twoCallers lateLock = some s ∧
    s.left false = .done true ∧ s.left true = .done true ∧
    (s.phase false).reading = some (seconds 100) ∧ (s.phase true).reading = some (seconds 100) ∧
    ¬ SingleReviver (seconds 60) s := by
  have hrun : ∃ s, Run.exec proxyStep twoCallers lateLock = some s ∧
      s.left false = .done true ∧ s.left true = .done true ∧
      (s.phase false).reading = some (seconds 100) ∧
      (s.phase true).reading = some (seconds 100) := ⟨_, rfl, rfl, rfl, rfl, rfl⟩
  obtain ⟨s, hrun, h0, h1, hn, hm⟩ := hrun
  refine ⟨s, hrun, h0, h1, hn, hm, fun h => ?_⟩
  obtain ⟨n, m, hn', hm', hle⟩ := h false true (by decide) h0 h1
  obtain rfl := Option.some.inj (hn.symm.trans hn')
  obtain rfl := Option.some.inj (hm.symm.trans hm')
  exact absurd hle (by decide)

end McacheClient
