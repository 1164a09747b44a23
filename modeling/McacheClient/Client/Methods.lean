import McacheClient.Client.Run
import McacheClient.Lib.Program
import McacheClient.Proto.Api

/-!
# The methods of the client

`client_template_t` as programs over its calls of `run` and of the functor that `atomic_update` is
given: a request and the flag `h404` go in, a response or an exception comes out.

* `Client`: what the constructor is given;
* `ClientM`: programs that can throw; `runCommand`, `runCallback`: one call;
* `interpret`: the run of a program against an exchange of requests and a functor;
* `storageResult`, `counterResult`: which codes are results and which are exceptions;
* `set`, `add`, `replace`, `prepend`, `append`, `cas`, `get`, `gets`, `incr`, `decr`, `touch`,
  `del`;
* `atomicUpdate`: the loop of `gets`, `cas` and `add`.
-/

namespace McacheClient

/-- `client_template_t`: its protocol, its pool and its configuration. -/
structure Client where
  api : Api
  pool : Pool
  cfg : ClientConfig

/-- The calls of a method: of `run`, with a request and whether a `not_found` may be excused, and of
the functor, with the data and the flags on the server. -/
inductive ClientOp
  | run (request : Request) (h404 : Bool)
  | callback (data : Bytes) (flags : UInt32)

/-- What a call comes back with; `run` includes what the constructor of the command throws. -/
abbrev ClientOp.Answer : ClientOp → Type
  | run .. => Except Exn Response
  | callback .. => Except Exn (Bytes × UInt32)

/-- Programs of a client. -/
abbrev ClientM (α : Type) : Type := ExceptT Exn (Program ClientOp ClientOp.Answer) α

/-- One call of `run`. -/
def runCommand (request : Request) (h404 : Bool := false) : ClientM Response :=
  ExceptT.mk (Program.ask (ClientOp.run request h404))

/-- One call of the functor: the new data and flags for the ones on the server. -/
def runCallback (data : Bytes) (flags : UInt32) : ClientM (Bytes × UInt32) :=
  ExceptT.mk (Program.ask (ClientOp.callback data flags))

/-- The answers of an exchange of requests and of a functor, over a state. -/
def interpret {σ : Type} (exchange : Request → Bool → σ → Except Exn Response × σ)
    (callback : Bytes → UInt32 → σ → Except Exn (Bytes × UInt32) × σ) :
    (o : ClientOp) → σ → o.Answer × σ
  | .run request h404, s => exchange request h404 s
  | .callback data flags, s => callback data flags s

/-- What a conversion throws is thrown by its caller. -/
def liftExcept {α : Type} (result : Except Exn α) : ClientM α := ExceptT.mk (pure result)

/-- `result_t`. -/
structure Result where
  found : Bool
  data : Bytes := []
  flags : UInt32 := 0
  cas : UInt64 := 0
  deriving DecidableEq

/-- A method that returns true when the data was stored and false for the codes `refused`. -/
def storageResult (refused : List ResponseCode) (response : Response) : Except Exn Bool :=
  match response.code with
  | .ok | .stored => .ok true
  | code => if code ∈ refused then .ok false else .error response.exception

def storage (refused : List ResponseCode) (name : StorageName) (key data : Bytes) (opts : Opts) :
    ClientM Bool := do
  let response ← runCommand (.storage name key data opts)
  liftExcept (storageResult refused response)

def set (key data : Bytes) (opts : Opts) : ClientM Unit := do
  let _ ← storage [] .set key data opts

def add : Bytes → Bytes → Opts → ClientM Bool := storage [.exists, .notStored] .add

def replace : Bytes → Bytes → Opts → ClientM Bool := storage [.notStored] .replace

def prepend : Bytes → Bytes → Opts → ClientM Bool := storage [.notStored] .prepend

def append : Bytes → Bytes → Opts → ClientM Bool := storage [.notStored] .append

def cas (key data : Bytes) (opts : Opts) : ClientM Bool := do
  if opts.cas = 0 then throw (.mc .badArgument "invalid cas")
  storage [.notFound] .cas key data opts

def get (key : Bytes) : ClientM Result := do
  let response ← runCommand (.retrieve .get key) true
  match response.code with
  | .ok => return { found := true, data := response.data, flags := response.flags }
  | .notFound => return { found := false }
  | _ => throw response.exception

def gets (key : Bytes) : ClientM Result := do
  let response ← runCommand (.retrieve .gets key) true
  match response.code with
  | .ok =>
    return { found := true, data := response.data, flags := response.flags, cas := response.cas }
  | .notFound => return { found := false }
  | _ => throw response.exception

/-- `::atoll`, which saturates at the bounds of its type. -/
def atoll (s : Bytes) : Int64 :=
  let s := Stream.skipSpace s
  let negative := s.head? = some 45
  let s := if s.head? = some 45 ∨ s.head? = some 43 then s.tail else s
  let n : ℤ := Numeral.ofDecimal (s.takeWhile Numeral.isDigit)
  .ofInt (if negative then max (-n) (-2 ^ 63) else min n (2 ^ 63 - 1))

/-- `cnv<uint64_t>::as`. -/
def cnvUInt64 (data : Bytes) : UInt64 := (atoll data).toUInt64

def counterResult (response : Response) : Except Exn (UInt64 × Bool) :=
  match response.code with
  | .ok => .ok (cnvUInt64 response.data, true)
  | .notFound => .ok (0, false)
  | _ => .error response.exception

def counter (name : CounterName) (key : Bytes) (value : UInt64) (opts : Opts) :
    ClientM (UInt64 × Bool) := do
  let response ← runCommand (.counter name key value opts)
  liftExcept (counterResult response)

def incr : Bytes → UInt64 → Opts → ClientM (UInt64 × Bool) := counter .incr

def decr : Bytes → UInt64 → Opts → ClientM (UInt64 × Bool) := counter .decr

def touch (key : Bytes) (exp : UInt64) : ClientM Bool := do
  let response ← runCommand (.touch key exp)
  match response.code with
  | .touched => return true
  | .notFound => return false
  | _ => throw response.exception

def del (key : Bytes) : ClientM Bool := do
  let response ← runCommand (.delete key)
  match response.code with
  | .ok | .deleted => return true
  | .notFound => return false
  | _ => throw response.exception

/-! ## The compare and swap loop -/

section AtomicUpdate

variable (key : Bytes) (opts : Opts)

/-- The `try` block around `cas`: an expired cas id is no error. -/
def casOrExpired (data : Bytes) (casOpts : Opts) : ClientM Bool :=
  tryCatch (cas key data casOpts) fun
    | .proto .exists _ => return false
    | e => throw e

/-- The loop of `atomic_update` with the iterations that are left. -/
def atomicUpdateLoop : ℕ → ClientM (Bytes × UInt32)
  | 0 => throw (.mc .unableCas "max iterations reached")
  | iters + 1 => do
    let res ← gets key
    if res.found then
      let newData ← runCallback res.data res.flags
      let casOpts : Opts := { expiration := opts.expiration, flags := newData.2, cas := res.cas }
      if ← casOrExpired key newData.1 casOpts then return newData
      atomicUpdateLoop iters
    else
      let newData ← runCallback [] 0
      let addOpts : Opts := { expiration := opts.expiration, flags := newData.2 }
      if ← add key newData.1 addOpts then return newData
      atomicUpdateLoop iters

/-- `client_template_t::atomic_update`. -/
def atomicUpdate : ClientM (Bytes × UInt32) :=
  atomicUpdateLoop key opts (if opts.iters ≠ 0 then opts.iters.toNat else 64)

end AtomicUpdate

end McacheClient
