import McacheClient.Lib.Stream
import McacheClient.Proto.Parser
import McacheClient.Proto.Zlib

/-!
# Requests

What a client asks its api for, before either protocol builds a command object from it.

* `Opts`: `opts_t`; `checkKey`: the test that every keyed command makes when it is serialized;
* `Request`: the commands with their arguments;
* `packed`: the data of a storage command, which its constructor may compress.
-/

namespace McacheClient

open Stream (isSpace)

/-- `opts_t`. The member `cas` shares its place with `initial` and `iters`. -/
structure Opts where
  expiration : Int64 := 0
  flags : UInt32 := 0
  cas : UInt64 := 0
  deriving DecidableEq

namespace Opts

def initial (opts : Opts) : UInt64 := opts.cas

def iters (opts : Opts) : UInt64 := opts.cas

/-- The builtin flag `opts_t::compress`. -/
def compress : UInt32 := 0x00010000

end Opts

/-- Does a value with these flags have to be compressed? -/
def compressed (flags : UInt32) : Bool := flags &&& Opts.compress != 0

/-- `::iscntrl` in the C locale. -/
def isCntrl (c : UInt8) : Bool := c < 32 || c == 127

/-- `check_key`. -/
def checkKey (key : Bytes) : Except Exn Unit :=
  if key.length > 250 then .error (.mc .badArgument "key is too long")
  else if key.any fun c => isSpace c || isCntrl c then
    .error (.mc .badArgument "key contains invalid chars")
  else .ok ()

inductive RetrieveName
  | get | gets
  deriving DecidableEq

inductive StorageName
  | set | add | replace | append | prepend | cas
  deriving DecidableEq

inductive CounterName
  | incr | decr
  deriving DecidableEq

/-- The commands of `impl`, with the arguments of their constructors. -/
inductive Request
  | retrieve (name : RetrieveName) (key : Bytes)
  | storage (name : StorageName) (key data : Bytes) (opts : Opts)
  | counter (name : CounterName) (key : Bytes) (value : UInt64) (opts : Opts)
  | touch (key : Bytes) (expiration : UInt64)
  | delete (key : Bytes)
  | flushAll (expiration : UInt32)

/-- The key of a request; `flush_all` has none, and no method sends it through `run`. -/
def Request.key : Request → Option Bytes
  | .retrieve _ key | .storage _ key .. | .counter _ key .. | .touch key _ | .delete key => some key
  | .flushAll _ => none

/-- The member `data` of a storage command. -/
def packed (zlib : Zlib) (data : Bytes) (opts : Opts) : Except Exn Bytes :=
  if compressed opts.flags then zlib.compress data else .ok data

theorem checkKey_ok {key : Bytes} :
    checkKey key = .ok () ↔
      key.length ≤ 250 ∧ ∀ c ∈ key, isSpace c = false ∧ isCntrl c = false := by
  unfold checkKey
  split_ifs with hlen hchars
  · exact iff_of_false nofun fun h => absurd h.1 (Nat.not_le.mpr hlen)
  · refine iff_of_false nofun fun h => ?_
    obtain ⟨c, hc, hbad⟩ := List.any_eq_true.mp hchars
    rw [(h.2 c hc).1, (h.2 c hc).2] at hbad
    cases hbad
  · refine iff_of_true rfl ⟨Nat.not_lt.mp hlen, fun c hc => ?_⟩
    rw [Bool.not_eq_true, List.any_eq_false] at hchars
    simpa using hchars c hc

end McacheClient
