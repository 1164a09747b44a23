import McacheClient.Client.Run

/-!
# The pool without travelling

`mod_pool_t`, where a key belongs to one server, which no other one stands in for.

* `ModIterator`: the iterator over one server;
* `ModPool`, `modPool`, `ModPool.choose`: the pool, its constructor, the server of a key;
* `ModPool.runLoop`, `ModPool.run`: `client_template_t::run` over this pool;
* **`ModPool.run_eq`**: a command tries the server of its key, once.
-/

namespace McacheClient

/-- `mod_pool_const_iterator`. -/
structure ModIterator where
  value : UInt32
  stop : Bool

namespace ModIterator

/-- The constructor of `end`. -/
def endIt : ModIterator := ⟨0, true⟩

def equal (it other : ModIterator) : Bool :=
  if it.stop && other.stop then true
  else if other.stop then false
  else it.value == other.value

def deref (it : ModIterator) : UInt32 := it.value

def increment (it : ModIterator) : ModIterator := { it with stop := true }

@[simp] theorem equal_endIt (it : ModIterator) : it.equal endIt = it.stop := by
  cases it with
  | mk value stop => cases stop <;> rfl

end ModIterator

/-- `mod_pool_t`. -/
structure ModPool where
  max : UInt32
  hashf : HashFunction

/-- The constructor; at least one address must be supplied. -/
def modPool (hashf : HashFunction) (addresses : Addresses) : Except Exn ModPool :=
  if addresses.list = [] then .error .outOfRange
  else .ok ⟨UInt32.ofNat addresses.list.length, hashf⟩

namespace ModPool

/-- The server of a key. -/
def server (pool : ModPool) (key : Bytes) : UInt32 := pool.hashf key 0 % pool.max

def choose (pool : ModPool) (key : Bytes) : ModIterator := ⟨pool.server key, false⟩

theorem server_lt {hashf : HashFunction} {addresses : Addresses} {pool : ModPool}
    (h : modPool hashf addresses = .ok pool) (key : Bytes) :
    (pool.server key).toNat < addresses.list.length := by
  unfold modPool at h
  split_ifs at h with hempty
  cases h
  have hlt := addresses.length_lt
  have hpos : 0 < addresses.list.length := List.length_pos_iff.mpr hempty
  have hmax : (UInt32.ofNat addresses.list.length).toNat = addresses.list.length :=
    UInt32.toNat_ofNat_of_lt' (hlt.trans (by decide))
  rw [server, UInt32.toNat_mod, hmax]
  exact Nat.mod_lt _ hpos

theorem server_ne {hashf : HashFunction} {addresses : Addresses} {pool : ModPool}
    (h : modPool hashf addresses = .ok pool) (key : Bytes) : pool.server key ≠ 4294967295 := by
  intro heq
  have hlt := (server_lt h key).trans addresses.length_lt
  rw [heq] at hlt
  exact absurd hlt (by decide)

section Run

variable {σ κ : Type} (proxies : ServerProxies σ κ) (cfg : ClientConfig) (command : κ) (h404 : Bool)

/-- The loop of `run` over this iterator. -/
def runLoop (it : ModIterator) (prev : UInt32) (conts : ℕ) (outOfServers : Bool) (s : σ) :
    Except Exn Response × σ :=
  if _h : it.equal .endIt = false ∧ conts < cfg.maxContinues.toNat then
    if it.deref = prev then runLoop it.increment prev conts outOfServers s
    else
      match tryServer proxies cfg command h404 it.deref conts s with
      | (.back result, s) => (result, s)
      | (.next excused, s) =>
        runLoop it.increment it.deref (conts + 1) (outOfServers && !excused) s
  else (afterLoop outOfServers, s)
termination_by if it.stop then 0 else 1
decreasing_by
  all_goals
    have hstop : it.stop = false := by rw [← ModIterator.equal_endIt]; exact _h.1
    simp [ModIterator.increment, hstop]

/-- `client_template_t::run` for a command on `key`. -/
def run (pool : ModPool) (key : Bytes) (s : σ) : Except Exn Response × σ :=
  runLoop proxies cfg command h404 (pool.choose key) 4294967295 0 true s

theorem runLoop_stop {it : ModIterator} (h : it.stop = true) (prev : UInt32) (conts : ℕ)
    (outOfServers : Bool) (s : σ) :
    runLoop proxies cfg command h404 it prev conts outOfServers s =
      (afterLoop outOfServers, s) := by
  rw [runLoop, dif_neg (by simp [h])]

/-- **A command tries the server of its key**, once, or none. -/
theorem run_eq {pool : ModPool} {key : Bytes} (h : pool.server key ≠ 4294967295) (s : σ) :
    run proxies cfg command h404 pool key s =
      tryAll proxies cfg command h404 ([pool.server key].take cfg.maxContinues.toNat) 0 true s := by
  rw [run, runLoop]
  cases hmax : cfg.maxContinues.toNat with
  | zero =>
    rw [dif_neg (by simp), List.take_zero, tryAll]
  | succ n =>
    have hprev : (pool.choose key).deref ≠ 4294967295 := h
    have hstop : (pool.choose key).increment.stop = true := rfl
    rw [dif_pos ⟨ModIterator.equal_endIt _, Nat.succ_pos n⟩, if_neg hprev, List.take_succ_cons,
      List.take_nil, tryAll]
    simp only [runLoop_stop proxies cfg command h404 hstop, tryAll]
    rfl

end Run

end ModPool

end McacheClient
