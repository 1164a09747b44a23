import McacheClient.Proxy.Sharing
import Mathlib.Algebra.Group.Nat.Defs
import Mathlib.Algebra.Order.Group.Unbundled.Int

/-!
# The health of a server

One thread that calls `callable` and `send` while nobody else holds the lock.

* `solo`: the operations of a thread that is alone;
* `exec_callable`, `exec_send`, `exec_lifespan`: what each method does then;
* `History`, `History.step`: a trace of calls with what it should be judged by: the failures since
  the last success, and the latest event that marked the server dead or tried to revive it;
* `Healthy`: the invariant that ties `shared_t` to the history;
* `Reaches`: no restoration time overflows;
* **`health`**: then the server is dead exactly when the failures reach the limit, a dead server is
  tried again one interval after the mark, and `lifespan` is the time since the mark.
-/

namespace McacheClient

/-! ## A thread that is alone -/

section Alone

variable {κ : Type} (cfg : ServerProxyConfig) (e : Choice) (s : Shared Unit)

theorem atomic_isSome (o : ProxyOp κ) : (atomic () e o s).isSome = true := by
  cases o with
  | tryLock => cases hlock : s.lock <;> simp [atomic, hlock]
  | _ => rfl

/-- One operation of the only thread. -/
def solo (o : ProxyOp κ) (s : Shared Unit) : o.Answer × Shared Unit :=
  (atomic () e o s).get (atomic_isSome e s o)

variable {s}

theorem exec_callable (h : s.lock = none) :
    (callable cfg : ProxyM κ Bool).exec (solo e) s =
      if s.dead = false then (true, s)
      else if e.reading < s.restoration then (false, s)
      else (true,
        { s with restoration := .wrap (e.reading + seconds cfg.restorationInterval) }) := by
  obtain ⟨restoration, dead, fails, lock⟩ := s
  obtain rfl : lock = none := h
  cases dead with
  | false => rfl
  | true =>
    by_cases hdue : e.reading < restoration
    · simp [callable, perform, solo, atomic, hdue]
    · simp [callable, scopeGuard, perform, solo, atomic, hdue]
      rfl

theorem exec_lifespan :
    (lifespan cfg : ProxyM κ ℤ).exec (solo e) s =
      (if s.restoration = .min then wholeSeconds e.reading
        else max (wholeSeconds (TimePoint.wrap
          (e.reading - TimePoint.wrap (s.restoration - seconds cfg.restorationInterval)))) 0,
        s) := by
  by_cases hmin : s.restoration = .min <;> simp [lifespan, perform, solo, atomic, hmin]

/-- How the `try` block of `send` ends. -/
def Choice.ending : Except Exn Response :=
  match e.connection with
  | .error x => .error x
  | .ok _ => e.response

theorem exec_sendTry (command : κ) :
    (sendTry command).exec (solo e) s =
      (e.ending, match e.ending with
        | .ok _ => { s with dead := false, fails := 0 }
        | .error _ => s) := by
  obtain ⟨reading, connection, response⟩ := e
  cases connection with
  | error x => rfl
  | ok c =>
    cases response with
    | error x => rfl
    | ok r =>
      by_cases hcode : r.code.value < ResponseCode.error.value <;>
        simp [sendTry, perform, solo, atomic, hcode, Choice.ending]

theorem exec_send (h : s.lock = none) (command : κ) :
    ((send cfg command).exec (solo e) s).2 =
      match e.ending with
      | .ok _ => { s with dead := false, fails := 0 }
      | .error (.io ..) =>
        if cfg.failLimit ≤ s.fails + 1 then
          { s with
            restoration := .wrap (e.reading + seconds cfg.restorationInterval)
            dead := true
            fails := s.fails + 1 }
        else { s with fails := s.fails + 1 }
      | .error _ => s := by
  rw [send, Program.exec_bind, exec_sendTry]
  cases e.ending with
  | ok response => rfl
  | error x =>
    cases x with
    | io code what =>
      obtain ⟨restoration, dead, fails, lock⟩ := s
      obtain rfl : lock = none := h
      by_cases hlimit : cfg.failLimit ≤ fails + 1
      · simp [scopeGuard, perform, solo, atomic, hlimit]
        rfl
      · simp [scopeGuard, perform, solo, atomic, hlimit]
    | _ => rfl

end Alone

/-! ## Traces -/

/-- The count of failures at which a server is dead. -/
def ServerProxyConfig.limit (cfg : ServerProxyConfig) : ℕ := max 1 cfg.failLimit.toNat

/-- A server after a trace of calls. The fields after `shared` are ghosts: the last reading of the
clock, the failed sends since the last successful one, the reading of the latest event that was a
failed send reaching the limit or a `callable` that returned true while the server was dead, and
the readings of all events of the second kind. -/
structure History where
  shared : Shared Unit := { restoration := .min, dead := false, fails := 0 }
  clock : TimePoint := 0
  failures : ℕ := 0
  mark : Option TimePoint := none
  attempts : List TimePoint := []

section Trace

variable {κ : Type} (cfg : ServerProxyConfig)

/-- One call. The clock does not go back, a `send` ends in a response or in an `io::error_t`, and
there are fewer than `2 ^ 32` failures in a row. -/
def History.step (h : History) : ServerCall κ × Choice → Option History
  | (call, e) =>
    if e.reading < h.clock then none
    else
      match call with
      | .callable =>
        let (result, shared) := (callable cfg : ProxyM κ Bool).exec (solo e) h.shared
        if result = true ∧ h.shared.dead = true then
          some { h with
            shared
            clock := e.reading
            mark := some e.reading
            attempts := h.attempts ++ [e.reading] }
        else some { h with shared, clock := e.reading }
      | .send command =>
        let shared := ((send cfg command).exec (solo e) h.shared).2
        let failures := h.failures + 1
        match e.ending with
        | .ok _ => some { h with shared, clock := e.reading, failures := 0 }
        | .error (.io ..) =>
          if 2 ^ 32 ≤ failures then none
          else some { h with
            shared
            clock := e.reading
            failures
            mark := if cfg.limit ≤ failures then some e.reading else h.mark }
        | .error _ => none

/-- The interval and the restoration time that the latest mark gives can be held. -/
def Reaches (mark : Option TimePoint) : Prop :=
  ∀ m ∈ mark, TimePoint.Fits (seconds cfg.restorationInterval) ∧
    TimePoint.Fits (m + seconds cfg.restorationInterval)

/-- What a restoration time says about the mark. -/
def dueAfter : Option TimePoint → TimePoint
  | none => .min
  | some m => m + seconds cfg.restorationInterval

/-- The fields of `shared_t` follow the history. -/
structure Healthy (h : History) : Prop where
  free : h.shared.lock = none
  fails : h.shared.fails.toNat = h.failures
  dead : h.shared.dead = true ↔ cfg.limit ≤ h.failures
  restoration : h.shared.restoration = dueAfter cfg h.mark
  marked : h.shared.dead = true → h.mark ≠ none
  clock : 0 ≤ h.clock
  mark_le : ∀ m ∈ h.mark, 0 ≤ m ∧ m ≤ h.clock
  reaches : Reaches cfg h.mark
  attempts_le : ∀ a ∈ h.attempts, ∃ m ∈ h.mark, a ≤ m
  apart : h.attempts.Pairwise fun a b => a + seconds cfg.restorationInterval ≤ b

variable {cfg} {h h' : History} {e : Choice}

theorem healthy_start : Healthy cfg {} where
  free := rfl
  fails := rfl
  dead := iff_of_false nofun (Nat.not_le.mpr (Nat.lt_of_lt_of_le Nat.one_pos (le_max_left 1 _)))
  restoration := rfl
  marked := nofun
  clock := le_rfl
  mark_le := nofun
  reaches := nofun
  attempts_le := nofun
  apart := List.Pairwise.nil

theorem Healthy.tick (hh : Healthy cfg h) {t : TimePoint} (ht : h.clock ≤ t) :
    Healthy cfg { h with clock := t } :=
  { hh with
    clock := hh.clock.trans ht
    mark_le := fun m hm => ⟨(hh.mark_le m hm).1, (hh.mark_le m hm).2.trans ht⟩ }

theorem Healthy.attempt (hh : Healthy cfg h) (hclock : h.clock ≤ e.reading)
    (hfits : Reaches cfg (some e.reading)) (hdue : h.shared.restoration ≤ e.reading) :
    Healthy cfg { h with
      shared := { h.shared with
        restoration := .wrap (e.reading + seconds cfg.restorationInterval) }
      clock := e.reading
      mark := some e.reading
      attempts := h.attempts ++ [e.reading] } := by
  have h0 : 0 ≤ e.reading := hh.clock.trans hclock
  refine {
    free := hh.free
    fails := hh.fails
    dead := hh.dead
    restoration := TimePoint.wrap_of_fits (hfits _ rfl).2
    marked := fun _ => Option.some_ne_none _
    clock := h0
    mark_le := fun m hm => ?_
    reaches := hfits
    attempts_le := fun a ha => ⟨e.reading, rfl, ?_⟩
    apart := ?_ }
  · obtain rfl := Option.some.inj hm
    exact ⟨h0, le_rfl⟩
  · rcases List.mem_append.mp ha with ha | ha
    · obtain ⟨m, hm, ham⟩ := hh.attempts_le a ha
      exact (ham.trans (hh.mark_le m hm).2).trans hclock
    · exact (List.mem_singleton.mp ha).le
  · refine List.pairwise_append.mpr ⟨hh.apart, List.pairwise_singleton _ _, fun a ha b hb => ?_⟩
    rw [List.mem_singleton.mp hb]
    obtain ⟨m, hm, ham⟩ := hh.attempts_le a ha
    have hrestoration : h.shared.restoration = m + seconds cfg.restorationInterval := by
      rw [hh.restoration, Option.mem_def.mp hm]
      rfl
    calc a + seconds cfg.restorationInterval
        ≤ m + seconds cfg.restorationInterval := Int.add_le_add_right ham _
      _ = h.shared.restoration := hrestoration.symm
      _ ≤ e.reading := hdue

theorem Healthy.callable (hh : Healthy cfg h) (hfits : Reaches cfg h'.mark)
    (hstep : h.step cfg ((.callable : ServerCall κ), e) = some h') : Healthy cfg h' := by
  simp only [History.step, exec_callable cfg e hh.free] at hstep
  by_cases hclock : e.reading < h.clock
  · rw [if_pos hclock] at hstep
    cases hstep
  rw [if_neg hclock] at hstep
  have hclock : h.clock ≤ e.reading := not_lt.mp hclock
  cases hdead : h.shared.dead with
  | false =>
    simp only [hdead, if_true, Bool.false_eq_true, and_false, if_false] at hstep
    rw [← Option.some.inj hstep]
    exact hh.tick hclock
  | true =>
    by_cases hdue : e.reading < h.shared.restoration
    · simp only [hdead, if_pos hdue, Bool.true_eq_false, Bool.false_eq_true, if_false,
        false_and] at hstep
      rw [← Option.some.inj hstep]
      exact hh.tick hclock
    · simp only [hdead, if_neg hdue, Bool.true_eq_false, if_false, and_self, if_true] at hstep
      obtain rfl := Option.some.inj hstep
      rw [← hdead]
      exact hh.attempt hclock hfits (not_lt.mp hdue)

theorem Healthy.failed (hh : Healthy cfg h) (hclock : h.clock ≤ e.reading)
    (hreaches : Reaches cfg (if cfg.limit ≤ h.failures + 1 then some e.reading else h.mark))
    (hbound : h.failures + 1 < 2 ^ 32) :
    Healthy cfg { h with
      shared :=
        if cfg.failLimit ≤ h.shared.fails + 1 then
          { h.shared with
            restoration := .wrap (e.reading + seconds cfg.restorationInterval)
            dead := true
            fails := h.shared.fails + 1 }
        else { h.shared with fails := h.shared.fails + 1 }
      clock := e.reading
      failures := h.failures + 1
      mark := if cfg.limit ≤ h.failures + 1 then some e.reading else h.mark } := by
  have h0 : 0 ≤ e.reading := hh.clock.trans hclock
  have hfits : h.shared.fails.toNat + 1 < 2 ^ 32 := by rwa [hh.fails]
  have hfails : (h.shared.fails + 1).toNat = h.failures + 1 := by
    rw [UInt32.toNat_add, ← hh.fails]
    exact Nat.mod_eq_of_lt hfits
  have hlimit : cfg.failLimit ≤ h.shared.fails + 1 ↔ cfg.limit ≤ h.failures + 1 := by
    rw [UInt32.le_iff_toNat_le, hfails, ServerProxyConfig.limit]
    omega
  by_cases hreached : cfg.limit ≤ h.failures + 1
  · rw [if_pos hreached] at hreaches
    rw [if_pos (hlimit.mpr hreached), if_pos hreached]
    refine {
      free := hh.free
      fails := hfails
      dead := iff_of_true rfl hreached
      restoration := TimePoint.wrap_of_fits (hreaches _ rfl).2
      marked := fun _ => Option.some_ne_none _
      clock := h0
      mark_le := fun m hm => ?_
      reaches := hreaches
      attempts_le := fun a ha => ?_
      apart := hh.apart }
    · obtain rfl := Option.some.inj hm
      exact ⟨h0, le_rfl⟩
    · obtain ⟨m, hm, ham⟩ := hh.attempts_le a ha
      exact ⟨e.reading, rfl, (ham.trans (hh.mark_le m hm).2).trans hclock⟩
  · rw [if_neg (hlimit.not.mpr hreached), if_neg hreached]
    have halive : ¬h.shared.dead = true := by
      rw [hh.dead]
      omega
    exact { hh.tick hclock with
      fails := hfails
      dead := iff_of_false halive hreached }

theorem Healthy.send (hh : Healthy cfg h) {command : κ} (hfits : Reaches cfg h'.mark)
    (hstep : h.step cfg (.send command, e) = some h') : Healthy cfg h' := by
  simp only [History.step, exec_send cfg e hh.free] at hstep
  by_cases hclock : e.reading < h.clock
  · rw [if_pos hclock] at hstep
    cases hstep
  rw [if_neg hclock] at hstep
  have hclock : h.clock ≤ e.reading := not_lt.mp hclock
  cases hending : e.ending with
  | ok response =>
    rw [hending] at hstep
    rw [← Option.some.inj hstep]
    have hlimit : ¬cfg.limit ≤ 0 := by
      rw [ServerProxyConfig.limit]
      omega
    exact { hh.tick hclock with
      fails := rfl
      dead := iff_of_false Bool.false_ne_true hlimit
      marked := fun hdead => absurd hdead Bool.false_ne_true }
  | error x =>
    rw [hending] at hstep
    cases x with
    | io code what =>
      by_cases hbound : 2 ^ 32 ≤ h.failures + 1
      · simp only [if_pos hbound] at hstep
        cases hstep
      · simp only [if_neg hbound] at hstep
        obtain rfl := Option.some.inj hstep
        exact hh.failed hclock hfits (Nat.not_le.mp hbound)
    | _ => cases hstep

theorem Healthy.step (hh : Healthy cfg h) {l : ServerCall κ × Choice}
    (hstep : h.step cfg l = some h') (hfits : Reaches cfg h'.mark) : Healthy cfg h' := by
  obtain ⟨call, e⟩ := l
  cases call with
  | callable => exact hh.callable hfits hstep
  | send command => exact hh.send hfits hstep

/-! ## What the history says -/

theorem Healthy.callable_iff (hh : Healthy cfg h) :
    ((McacheClient.callable cfg : ProxyM κ Bool).exec (solo e) h.shared).1 = true ↔
      h.shared.dead = false ∨ ∃ m ∈ h.mark, m + seconds cfg.restorationInterval ≤ e.reading := by
  rw [exec_callable cfg e hh.free]
  cases hdead : h.shared.dead with
  | false => simp
  | true =>
    obtain ⟨m, hm⟩ := Option.ne_none_iff_exists'.mp (hh.marked hdead)
    have hrestoration : h.shared.restoration = m + seconds cfg.restorationInterval := by
      rw [hh.restoration, hm]
      rfl
    by_cases hdue : e.reading < h.shared.restoration
    · rw [hrestoration] at hdue
      simp [hm, hrestoration, hdue]
    · rw [hrestoration, not_lt] at hdue
      simp [hm, hrestoration, not_lt.mpr hdue, hdue]

/-- A restoration time after the epoch is no `time_point_t::min()`, which is no multiple of a
second. -/
theorem add_seconds_ne_min {m n : ℤ} (h0 : 0 ≤ m) (hn : -9223372036854775808 ≤ seconds n) :
    m + seconds n ≠ -9223372036854775808 := by
  unfold seconds at *
  omega

theorem Healthy.lifespan_eq (hh : Healthy cfg h) (hclock : h.clock ≤ e.reading)
    (hreading : TimePoint.Fits e.reading) :
    ((McacheClient.lifespan cfg : ProxyM κ ℤ).exec (solo e) h.shared).1 =
      (e.reading - h.mark.getD 0) / 1000000000 := by
  have h0 : 0 ≤ e.reading := hh.clock.trans hclock
  rw [exec_lifespan, hh.restoration]
  cases hmark : h.mark with
  | none =>
    rw [dueAfter, if_pos rfl, wholeSeconds, Int.tdiv_eq_ediv_of_nonneg h0]
    simp
  | some m =>
    obtain ⟨hm0, hm⟩ := hh.mark_le m hmark
    have hle : m ≤ e.reading := hm.trans hclock
    have hpos : 0 ≤ e.reading - m := Int.sub_nonneg_of_le hle
    have hwhole : wholeSeconds (e.reading - m) = (e.reading - m) / 1000000000 :=
      Int.tdiv_eq_ediv_of_nonneg hpos
    have hne : m + seconds cfg.restorationInterval ≠ TimePoint.min :=
      add_seconds_ne_min hm0 (hh.reaches m hmark).1.1
    -- neither difference leaves the range of the clock
    have hmark : TimePoint.wrap m = m :=
      TimePoint.wrap_of_fits ⟨TimePoint.min_neg.le.trans hm0, hle.trans hreading.2⟩
    have hsince : TimePoint.wrap (e.reading - m) = e.reading - m :=
      TimePoint.wrap_of_fits ⟨TimePoint.min_neg.le.trans hpos,
        (Int.sub_le_self _ hm0).trans hreading.2⟩
    rw [dueAfter, if_neg hne, add_sub_cancel_right, hmark, hsince, hwhole]
    exact max_eq_left (Int.ediv_nonneg hpos (by decide))

variable (cfg)

/-- **The state machine of a dead server.** As long as no restoration time overflows, after any
trace of calls the server is dead exactly when the failed sends since the last successful one reach
the limit; `callable` lets a dead server be tried again one interval after the mark, so that tries
are never closer together; and `lifespan` is the time since the mark, or since the epoch when there
is none. -/
theorem health {calls : List (ServerCall κ × Choice)}
    (hrun : Run.exec (History.step cfg) {} calls = some h)
    (hfits : Run.Along (History.step cfg) (fun _ _ h => Reaches cfg h.mark) {} calls) :
    (h.shared.dead = true ↔ cfg.limit ≤ h.failures) ∧
      (∀ e : Choice,
        ((McacheClient.callable cfg : ProxyM κ Bool).exec (solo e) h.shared).1 = true ↔
          h.shared.dead = false ∨
            ∃ m ∈ h.mark, m + seconds cfg.restorationInterval ≤ e.reading) ∧
      (h.attempts.Pairwise fun a b => a + seconds cfg.restorationInterval ≤ b) ∧
      ∀ e : Choice, h.clock ≤ e.reading → TimePoint.Fits e.reading →
        ((McacheClient.lifespan cfg : ProxyM κ ℤ).exec (solo e) h.shared).1 =
          (e.reading - h.mark.getD 0) / 1000000000 := by
  have hh : Healthy cfg h := Run.invariant _ (fun _ _ _ hh hstep hfits => hh.step hstep hfits)
    healthy_start hrun hfits
  exact ⟨hh.dead, fun _ => hh.callable_iff, hh.apart, fun _ => hh.lifespan_eq⟩

end Trace

/-- The connection is refused. -/
def refusedAt (reading : TimePoint) : Choice where
  reading
  connection := .error (.io .ioError "refused")

/-- A failed send at second 100, a try at second 160. -/
def oneFailure : List (ServerCall Unit × Choice) :=
  [(.send (), refusedAt (seconds 100)), (.callable, { reading := seconds 160 })]

theorem health_oneFailure : ∃ h, Run.exec (History.step {}) {} oneFailure = some h ∧
    h.failures = 1 ∧ h.mark = some (seconds 160) ∧ h.shared.dead = true := by
  refine ⟨_, rfl, rfl, rfl, ?_⟩
  have hrun : Run.exec (History.step {}) {} oneFailure = some _ := rfl
  have hfits : Run.Along (History.step {}) (fun _ _ h => Reaches {} h.mark) {} oneFailure := by
    refine (Run.along_cons rfl).mpr ⟨?_, (Run.along_cons rfl).mpr ⟨?_, trivial⟩⟩
    · rintro m ⟨⟩
      decide
    · rintro m ⟨⟩
      decide
  exact (health {} hrun hfits).1.mpr (by decide)

/-- The longest interval. -/
def forever : ServerProxyConfig where
  restorationInterval := 9223372036854775807

/-- A server that failed at second 100 and is to rest for ever is called again at once: its
restoration time is second 99. -/
theorem not_healthy_forever : ∃ h : History,
    Run.exec (History.step forever) {} [(.send (), refusedAt (seconds 100))] = some h ∧
      h.shared.dead = true ∧ h.mark = some (seconds 100) ∧
      h.shared.restoration = seconds 99 ∧
      ¬∀ e : Choice,
        ((callable forever : ProxyM Unit Bool).exec (solo e) h.shared).1 = true ↔
          h.shared.dead = false ∨
            ∃ m ∈ h.mark, m + seconds forever.restorationInterval ≤ e.reading := by
  refine ⟨_, rfl, rfl, rfl, rfl, fun h => ?_⟩
  have hcalled := (h { reading := seconds 100 }).mp rfl
  rcases hcalled with hdead | ⟨m, hm, hle⟩
  · cases hdead
  · cases hm
    exact absurd hle (by decide)

end McacheClient
