import McacheClient.Lib.Destutter
import McacheClient.Pool.Walk
import McacheClient.Proto.Response

/-!
# Routing a command

`client_template_t::run`: walk the ring from the key's node, skip a server that was just tried,
and send the command to the next callable one until a response comes back.

* `ServerProxies`: what `run` needs of the proxies, over any state;
* `tryServer`, `runLoop`, `run`: the body of the loop, the loop, the command;
* **`run_eq`**: `run` tries the servers of the walk, collapsed, at most `max_continues` of them.
-/

namespace McacheClient

/-- `client_config_t`; the duration is in seconds. -/
structure ClientConfig where
  maxContinues : UInt32 := 3
  h404Duration : ℤ := 300

/-- `server_proxies_t`, a parameter of the client: the calls that `run` makes on the proxy at an
index, over the state `σ` of all proxies, for commands `κ`. -/
structure ServerProxies (σ κ : Type) where
  callable : UInt32 → σ → Bool × σ
  send : UInt32 → κ → σ → Except Exn Response × σ
  lifespan : UInt32 → σ → ℤ × σ

/-- How one round of the loop ends: return to the caller, or go on with the next server, having
excused a `not_found` or not. -/
inductive Tried
  | back (result : Except Exn Response)
  | next (excused : Bool)

section Run

variable {σ κ : Type} (proxies : ServerProxies σ κ) (cfg : ClientConfig) (command : κ) (h404 : Bool)

/-- The body of the loop after `prev` is set; `conts` servers were tried before. -/
def tryServer (idx : UInt32) (conts : ℕ) (s : σ) : Tried × σ :=
  match proxies.callable idx s with
  | (false, s) => (.next false, s)
  | (true, s) =>
    match proxies.send idx command s with
    | (.error e, s) => (.back (.error e), s)
    | (.ok response, s) =>
      match response.code with
      | .ioError => (.next false, s)
      | .notFound =>
        -- a recently restored first server may lack what a neighbour still has
        if h404 && conts == 0 then
          match proxies.lifespan idx s with
          | (lifespan, s) =>
            if lifespan < cfg.h404Duration then (.next true, s) else (.back (.ok response), s)
        else (.back (.ok response), s)
      | _ => (.back (.ok response), s)

/-- What `run` does after the loop. -/
def afterLoop (outOfServers : Bool) : Except Exn Response :=
  if outOfServers then .error .outOfServers else .ok { code := .notFound }

/-- The loop of `run`; reading the server index at `end()` is undefined and never happens. -/
def runLoop {ring : Ring} (it : ConstIterator ring) (prev : UInt32) (conts : ℕ)
    (outOfServers : Bool) (s : σ) : Except Exn Response × σ :=
  if _h : it.equal (.endIt ring) = false ∧ conts < cfg.maxContinues.toNat then
    match it.deref with
    | none => (.error .undefined, s)
    | some idx =>
      if idx = prev then runLoop it.increment prev conts outOfServers s
      else
        match tryServer proxies cfg command h404 idx conts s with
        | (.back result, s) => (result, s)
        | (.next excused, s) =>
          runLoop it.increment idx (conts + 1) (outOfServers && !excused) s
  else (afterLoop outOfServers, s)
termination_by it.remaining
decreasing_by
  all_goals
    have hdec := ConstIterator.remaining_increment _h.1
    omega

/-- `client_template_t::run` for a command on `key`. -/
def run (pool : Pool) (key : Bytes) (s : σ) : Except Exn Response × σ :=
  runLoop proxies cfg command h404 (pool.choose key) 4294967295 0 true s

/-- Try a list of servers in order. -/
def tryAll : List UInt32 → ℕ → Bool → σ → Except Exn Response × σ
  | [], _, outOfServers, s => (afterLoop outOfServers, s)
  | idx :: idxs, conts, outOfServers, s =>
    match tryServer proxies cfg command h404 idx conts s with
    | (.back result, s) => (result, s)
    | (.next excused, s) => tryAll idxs (conts + 1) (outOfServers && !excused) s

section TryAll

variable {proxies cfg command h404} {idx : UInt32} {idxs : List UInt32} {conts : ℕ} {oos : Bool}
  {s s' : σ}

theorem tryAll_back {result : Except Exn Response}
    (h : tryServer proxies cfg command h404 idx conts s = (.back result, s')) :
    tryAll proxies cfg command h404 (idx :: idxs) conts oos s = (result, s') := by
  rw [tryAll, h]

theorem tryAll_next {excused : Bool}
    (h : tryServer proxies cfg command h404 idx conts s = (.next excused, s')) :
    tryAll proxies cfg command h404 (idx :: idxs) conts oos s =
      tryAll proxies cfg command h404 idxs (conts + 1) (oos && !excused) s' := by
  rw [tryAll, h]

end TryAll

theorem runLoop_eq {ring : Ring} (it : ConstIterator ring) (prev : UInt32) (conts : ℕ)
    (outOfServers : Bool) (s : σ) :
    runLoop proxies cfg command h404 it prev conts outOfServers s =
      tryAll proxies cfg command h404
        ((it.walk.destutter' (· ≠ ·) prev).tail.take (cfg.maxContinues.toNat - conts))
        conts outOfServers s := by
  -- induction on the increments left
  induction hn : it.remaining using Nat.strong_induction_on
    generalizing it prev conts outOfServers s with
  | _ n ih =>
    rw [runLoop]
    by_cases hend : it.equal (.endIt ring) = true
    · rw [dif_neg (by simp [hend]), ConstIterator.walk_end hend, List.destutter'_nil,
        List.tail_cons, List.take_nil, tryAll]
    · rw [Bool.not_eq_true] at hend
      obtain ⟨idx, hderef, hwalk⟩ := ConstIterator.walk_cons hend
      have hdec := ConstIterator.remaining_increment hend
      by_cases hconts : conts < cfg.maxContinues.toNat
      · rw [dif_pos ⟨hend, hconts⟩, hderef, hwalk]
        by_cases hprev : idx = prev
        · subst hprev
          rw [List.destutter'_cons_neg _ (by simp)]
          simp only [↓reduceIte]
          exact ih _ (by omega) it.increment idx conts outOfServers s rfl
        · have hsub :
              cfg.maxContinues.toNat - conts = cfg.maxContinues.toNat - (conts + 1) + 1 := by omega
          rw [List.destutter'_cons_pos _ (Ne.symm hprev), List.tail_cons,
            ← List.cons_tail_destutter', hsub, List.take_succ_cons, tryAll]
          simp only [if_neg hprev]
          have hrec := fun oos s' => ih _ (by omega) it.increment idx (conts + 1) oos s' rfl
          simp only [hrec]
      · rw [dif_neg (fun h => hconts h.2), Nat.sub_eq_zero_of_le (by omega), List.take_zero]
        rfl

/-- **`run` tries the servers of the walk**, runs of one server collapsed, at most
`max_continues` of them; the value that marks "no server yet" must be no server's index. -/
theorem run_eq {pool : Pool} {key : Bytes} (h : 4294967295 ∉ (pool.choose key).walk) (s : σ) :
    run proxies cfg command h404 pool key s = tryAll proxies cfg command h404
      (((pool.choose key).walk.destutter (· ≠ ·)).take cfg.maxContinues.toNat) 0 true s := by
  rw [run, runLoop_eq, List.tail_destutter'_of_not_mem h, Nat.sub_zero]

end Run

end McacheClient
