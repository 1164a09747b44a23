import McacheClient.Client.Failover

/-!
# What a routed command comes to

One call of `run` when the outcome of every single probe is given: a server may be down the first
time it is probed and up the second time.

* `scripted`: proxies whose `n`-th probe has a given outcome;
* `routed`: the specification: collapse the walk, keep `max_continues` servers, and take the first
  response that is neither `io_error` nor excused;
* `tryServer_not_returned`: a probe without a response to return;
* **`run_scripted`**: `run` does what the specification says.
-/

namespace McacheClient

variable {κ : Type} (cfg : ClientConfig) (command : κ) (h404 : Bool) (outcome : ℕ → Outcome)

/-- Proxies whose `n`-th `callable` call, and the `send` after it, have the `n`-th outcome. -/
def scripted : ServerProxies Calls κ where
  callable idx s := ((outcome s.probed.length).callable, { s with probed := s.probed ++ [idx] })
  send idx _ s :=
    (.ok (outcome (s.probed.length - 1)).response, { s with sent := s.sent ++ [idx] })
  lifespan _ s := ((outcome (s.probed.length - 1)).lifespan, s)

/-- The response to the `n`-th probe is the one to return: there is one, it is not `io_error`, and
it is not the excused `not_found` of the very first probe. -/
def Returned (n : ℕ) : Prop :=
  ¬(outcome n).Down ∧ ¬(outcome n).Excused cfg h404 n

instance (n : ℕ) : Decidable (Returned cfg h404 outcome n) := by
  unfold Returned; infer_instance

/-- The calls when these servers have been probed: the callable ones were contacted. -/
def Calls.of (tried : List UInt32) : Calls where
  probed := tried
  sent := (tried.zipIdx.filter fun p => (outcome p.2).callable).map Prod.fst

/-- The specification of a routed command, with the calls that it makes. -/
def routed (walk : List UInt32) : Except Exn Response × Calls :=
  let tried := (walk.destutter (· ≠ ·)).take cfg.maxContinues.toNat
  match (List.range tried.length).find? fun n => Returned cfg h404 outcome n with
  | some n => (.ok (outcome n).response, .of outcome (tried.take (n + 1)))
  | none =>
    (if tried ≠ [] ∧ (outcome 0).Excused cfg h404 0 then .ok { code := .notFound }
      else .error .outOfServers, .of outcome tried)

variable {outcome}

theorem Calls.of_concat (tried : List UInt32) (idx : UInt32) :
    Calls.of outcome (tried ++ [idx]) =
      { probed := tried ++ [idx]
        sent := (Calls.of outcome tried).sent ++
          if (outcome tried.length).callable then [idx] else [] } := by
  rw [Calls.of, Calls.of, List.zipIdx_append, List.filter_append, List.map_append]
  cases hcallable : (outcome tried.length).callable <;> simp [hcallable]

theorem tryServer_scripted (idx : UInt32) (tried : List UInt32) :
    tryServer (scripted outcome) cfg command h404 idx tried.length (.of outcome tried) =
      (if (outcome tried.length).Down then .next false
        else if (outcome tried.length).Excused cfg h404 tried.length then .next true
        else .back (.ok (outcome tried.length).response), .of outcome (tried ++ [idx])) := by
  have hlast : (tried ++ [idx]).length - 1 = tried.length := by simp
  have hsend : (scripted outcome).send idx command
      { probed := tried ++ [idx], sent := (Calls.of outcome tried).sent } =
      (.ok (outcome tried.length).response,
        { probed := tried ++ [idx], sent := (Calls.of outcome tried).sent ++ [idx] }) := by
    rw [← hlast]
    rfl
  have hlifespan : (scripted outcome : ServerProxies Calls κ).lifespan idx
      { probed := tried ++ [idx], sent := (Calls.of outcome tried).sent ++ [idx] } =
      ((outcome tried.length).lifespan,
        { probed := tried ++ [idx], sent := (Calls.of outcome tried).sent ++ [idx] }) := by
    rw [← hlast]
    rfl
  refine (tryServer_of_outcome cfg command h404 (o := outcome tried.length) rfl (fun _ => hsend)
    hlifespan _).trans ?_
  rw [Calls.of_concat]
  cases (outcome tried.length).callable <;> simp

/-- A probe whose response is not returned lets the loop go on, and excuses at most itself. -/
theorem tryServer_not_returned {tried : List UInt32}
    (h : ¬Returned cfg h404 outcome tried.length) (idx : UInt32) :
    tryServer (scripted outcome) cfg command h404 idx tried.length (.of outcome tried) =
      (.next (decide (tried = [] ∧ (outcome 0).Excused cfg h404 0)),
        .of outcome (tried ++ [idx])) := by
  rw [tryServer_scripted]
  by_cases hdown : (outcome tried.length).Down
  · have hno : ¬(tried = [] ∧ (outcome 0).Excused cfg h404 0) := by
      rintro ⟨rfl, hexcused⟩
      exact hexcused.not_down hdown
    rw [if_pos hdown, decide_eq_false hno]
  · have hexcused : (outcome tried.length).Excused cfg h404 tried.length := by
      by_contra hno
      exact h ⟨hdown, hno⟩
    obtain rfl := List.length_eq_zero_iff.mp hexcused.2.1
    rw [if_neg hdown, if_pos hexcused, decide_eq_true ⟨rfl, hexcused⟩]

theorem tryAll_scripted (idxs tried : List UInt32) (oos : Bool) :
    tryAll (scripted outcome) cfg command h404 idxs tried.length oos (.of outcome tried) =
      match (List.range' tried.length idxs.length).find? fun n => Returned cfg h404 outcome n with
      | some n =>
        (.ok (outcome n).response, .of outcome (tried ++ idxs.take (n + 1 - tried.length)))
      | none =>
        (afterLoop (oos && !decide (tried = [] ∧ idxs ≠ [] ∧ (outcome 0).Excused cfg h404 0)),
          .of outcome (tried ++ idxs)) := by
  induction idxs generalizing tried oos with
  | nil => simp [tryAll]
  | cons idx idxs ih =>
    rw [tryAll, List.length_cons, List.range'_succ]
    by_cases hreturned : Returned cfg h404 outcome tried.length
    · rw [tryServer_scripted, if_neg hreturned.1, if_neg hreturned.2,
        List.find?_cons_of_pos (by simpa using hreturned)]
      simp
    · have hnext := ih (tried ++ [idx])
      rw [List.length_append, List.length_singleton] at hnext
      rw [tryServer_not_returned cfg command h404 hreturned,
        List.find?_cons_of_neg (by simpa using hreturned)]
      simp only [hnext]
      cases hfind : (List.range' (tried.length + 1) idxs.length).find?
          fun n => Returned cfg h404 outcome n with
      | none => simp
      | some n =>
        have hle := (List.mem_range'_1.mp (List.mem_of_find?_eq_some hfind)).1
        have htake : n + 1 - tried.length = n + 1 - (tried.length + 1) + 1 := by omega
        simp [htake]

/-- **`run` does what the specification says**, for every walk of a ring that the constructor
builds. -/
theorem run_scripted {hashf : HashFunction} {pcfg : PoolConfig} {addresses : Addresses}
    {pool : Pool} (hpool : consistentHashingPool hashf pcfg addresses = .ok pool) (key : Bytes) :
    run (scripted outcome) cfg command h404 pool key {} =
      routed cfg h404 outcome (pool.choose key).walk := by
  rw [run_eq _ _ _ _ (sentinel_not_mem_walk hpool key), routed]
  generalize ((pool.choose key).walk.destutter (· ≠ ·)).take cfg.maxContinues.toNat = tried
  refine (tryAll_scripted cfg command h404 tried [] true).trans ?_
  simp only [List.length_nil, List.nil_append, Nat.sub_zero, List.range_eq_range', true_and,
    Bool.true_and, afterLoop]
  split
  · rfl
  · by_cases hexcused : tried ≠ [] ∧ (outcome 0).Excused cfg h404 0
    · rw [if_pos hexcused, decide_eq_true hexcused]
      rfl
    · rw [if_neg hexcused, decide_eq_false hexcused]
      rfl

/-- The first server is excused, the second one is down, and the first one again has a response. -/
def excusedFirst : ℕ → Outcome
  | 0 => { callable := true, response := { code := .notFound }, lifespan := 10 }
  | 1 => { callable := true, response := { code := .ioError } }
  | _ => { callable := true, response := { code := .ok } }

theorem run_scripted_excusedFirst :
    run (scripted excusedFirst) {} () true threePool (ascii "zz") {} =
      (.ok { code := .ok }, { probed := [0, 1, 0], sent := [0, 1, 0] }) :=
  (run_scripted {} () true consistentHashingPool_threeServers (ascii "zz")).trans
    (by rw [walk_threePool]; rfl)

end McacheClient
