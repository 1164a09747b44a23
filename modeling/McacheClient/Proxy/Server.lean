import McacheClient.Lib.Program
import McacheClient.Proto.Response
import Mathlib.Data.Int.Notation

/-!
# The proxy of one server

`server_proxy_t` as programs over the operations that other threads can observe one by one: loads
and stores of the atomics of `shared_t`, its lock, the clock and the pool of connections.

* `TimePoint.wrap`: the arithmetic of points in time, which has 64 bits;
* `ProxyOp`: the operations, `ProxyOp.Answer` what each of them returns;
* `scopeGuard`: `scope_guard_t`, whose destructor unlocks on every way out;
* `callable`, `lifespan`, `send`: the methods of the proxy.
-/

namespace McacheClient

/-- `time_point_t`: nanoseconds since the epoch. -/
abbrev TimePoint : Type := ℤ

/-- The nanoseconds of `seconds_t`. -/
def seconds (n : ℤ) : ℤ := n * 1000000000

namespace TimePoint

/-- `time_point_t::min()`. -/
def min : TimePoint := -9223372036854775808

/-- `time_point_t::max()`. -/
def max : TimePoint := 9223372036854775807

/-- A sum or a difference of points in time. The source computes it with signed integers of 64 bits,
which must not overflow; where they do, the sum wraps around here, as it does in a machine. -/
def wrap (t : ℤ) : TimePoint := t.bmod 18446744073709551616

/-- A number of nanoseconds that `time_point_t` can hold. -/
def Fits (t : ℤ) : Prop := min ≤ t ∧ t ≤ max

instance (t : ℤ) : Decidable (Fits t) := inferInstanceAs (Decidable (_ ∧ _))

theorem min_neg : min < (0 : ℤ) := by decide

theorem wrap_of_fits {t : ℤ} (h : Fits t) : wrap t = t := by
  have hmin : (-9223372036854775808 : ℤ) ≤ t := h.1
  have hmax : t ≤ (9223372036854775807 : ℤ) := h.2
  exact Int.bmod_eq_of_le_mul_two (by omega) (by omega)

end TimePoint

/-- `duration_cast<seconds_t>`, which rounds towards zero. -/
def wholeSeconds (d : ℤ) : ℤ := d.tdiv 1000000000

/-- `server_proxy_config_t` without the io options; the interval is in seconds. -/
structure ServerProxyConfig where
  restorationInterval : ℤ := 60
  failLimit : UInt32 := 1

/-- The operations of a proxy for commands `κ`; connections are numbered. -/
inductive ProxyOp (κ : Type)
  | loadDead | storeDead (dead : Bool)
  | loadRestoration | storeRestoration (t : TimePoint)
  | storeFails (fails : UInt32) | incFails
  | tryLock | unlock
  | now
  | pick | exchange (connection : ℕ) (command : κ) | pushBack (connection : ℕ) | clear

/-- What an operation returns; `pick` and `command_parser_t::send` can throw. -/
abbrev ProxyOp.Answer {κ : Type} : ProxyOp κ → Type
  | loadDead | tryLock => Bool
  | loadRestoration | now => TimePoint
  | incFails => UInt32
  | pick => Except Exn ℕ
  | exchange .. => Except Exn Response
  | storeDead _ | storeRestoration _ | storeFails _ | unlock | pushBack _ | clear => Unit

section Programs

variable (κ : Type)

/-- Programs of a proxy. -/
abbrev ProxyM (α : Type) : Type := Program (ProxyOp κ) ProxyOp.Answer α

variable {κ}

/-- One operation. -/
def perform (o : ProxyOp κ) : ProxyM κ o.Answer := Program.ask o

/-- A `scope_guard_t` around a body that may call its `try_lock`. -/
def scopeGuard {α : Type} (body : ProxyM κ Bool → ProxyM κ α) : ProxyM κ α := do
  let result ← body (perform .tryLock)
  perform .unlock
  return result

variable (cfg : ServerProxyConfig)

/-- `server_proxy_t::callable`. -/
def callable : ProxyM κ Bool := do
  if !(← perform .loadDead) then return true
  let now : TimePoint ← perform .now
  let restoration : TimePoint ← perform .loadRestoration
  if now < restoration then return false
  scopeGuard fun tryLock => do
    if !(← tryLock) then return false
    perform (.storeRestoration (.wrap (now + seconds cfg.restorationInterval)))
    return true

/-- `server_proxy_t::lifespan`, in seconds. -/
def lifespan : ProxyM κ ℤ := do
  let now : TimePoint ← perform .now
  let restoration : TimePoint ← perform .loadRestoration
  if restoration = .min then return wholeSeconds now
  let restoration : TimePoint ← perform .loadRestoration
  let marked : TimePoint := .wrap (restoration - seconds cfg.restorationInterval)
  return max (wholeSeconds (TimePoint.wrap (now - marked))) 0

/-- The `try` block of `server_proxy_t::send`; a connection that is not pushed back is closed. -/
def sendTry (command : κ) : ProxyM κ (Except Exn Response) := do
  match ← perform .pick with
  | .error e => return .error e
  | .ok connection =>
    match ← perform (.exchange connection command) with
    | .error e => return .error e
    | .ok response =>
      perform (.storeDead false)
      perform (.storeFails 0)
      if response.code.value < ResponseCode.error.value then perform (.pushBack connection)
      return .ok response

/-- `server_proxy_t::send`. -/
def send (command : κ) : ProxyM κ (Except Exn Response) := do
  match ← sendTry command with
  | .error (.io _ what) =>
    scopeGuard fun tryLock => do
      if ← tryLock then
        let fails : UInt32 ← perform .incFails
        if fails ≥ cfg.failLimit then
          let now : TimePoint ← perform .now
          perform .clear
          perform (.storeRestoration (.wrap (now + seconds cfg.restorationInterval)))
          perform (.storeDead true)
      return .ok { code := .ioError, data := ascii ("connection failed: " ++ what) }
  | result => return result

end Programs

end McacheClient
