import McacheClient.Client.Steady
import McacheClient.Python.Client

/-!
# A dictionary of objects

The Python client over memcached servers that are up, and what it is for: a dictionary of objects,
which knows no text, no protocol and no flags but those of the user.

* `Slot`, `Shelf`: an entry, and the part of the dictionary that one server holds;
* `Object.concat`, `Object.number`, `Object.counted`: strings that grow, and counters;
* `Shelf.perform`, `answers`: what a method does to a dictionary, and what a series returns;
* `Method.perform`, `results`: the same of the client and the servers;
* `Sendable`, `Suits`: the calls that a packet can carry, and those that suit the objects there;
* `silent`: results without the texts of exceptions.
-/

namespace McacheClient.Python

open Numeral

/-! ## The dictionary -/

/-- An entry with the object that is read back. -/
structure Slot (R V : Type) where
  object : Object R V
  flags : UInt32
  deadline : Option ℤ
  cas : UInt64

structure Shelf (R V : Type) where
  items : Bytes → Option (Slot R V)
  lastCas : UInt64 := 0

namespace Object

variable {R V : Type}

/-- Strings are put together. -/
def concat : Object R V → Object R V → Object R V
  | str a, str b => str (a ++ b)
  | object, _ => object

/-- A natural number is a counter, and so is a string of its digits. -/
def number : Object R V → Option ℕ
  | int n => if 0 ≤ n then some n.toNat else none
  | str text => McacheClient.number (utf8 text)
  | _ => none

/-- A counter changes; a string does not get shorter. -/
def counted (n : ℕ) : Object R V → Object R V
  | int _ => int n
  | str text => str (textOf (padded (utf8 text).length n))
  | object => object

/-- Is it a string or an integer? -/
def countable : Object R V → Bool
  | int _ | str _ => true
  | _ => false

end Object

namespace Shelf

variable {R V : Type}

/-- The entry of a key, if it did not expire. -/
def find (now : ℤ) (key : Bytes) (shelf : Shelf R V) : Option (Slot R V) :=
  (shelf.items key).filter fun slot => slot.deadline.all (now < ·)

def put (key : Bytes) (object : Object R V) (flags : UInt32) (deadline : Option ℤ)
    (shelf : Shelf R V) : Shelf R V :=
  let cas := shelf.lastCas + 1
  { items := Function.update shelf.items key (some { object, flags, deadline, cas })
    lastCas := cas }

/-- The exception for a response with a code, without its text. -/
def refused (code : ResponseCode) : Except Raised (Returned R V) :=
  .error (.library (.proto code []))

/-- A storage method. Only a `replace` and a `cas` that are refused raise. -/
def store (now : ℤ) (name : StorageName) (key : Bytes) (object : Object R V) (opts : Opts)
    (shelf : Shelf R V) : Except Raised (Returned R V) × Shelf R V :=
  let fresh := shelf.put key object opts.flags (deadline now opts.expiration.toInt)
  match name, shelf.find now key with
  | .set, _ => (.ok .none, fresh)
  | .add, none | .replace, some _ => (.ok (.bool true), fresh)
  | .cas, some slot =>
    if slot.cas = opts.cas then (.ok (.bool true), fresh) else (refused .exists, shelf)
  | .append, some slot =>
    (.ok (.bool true), shelf.put key (slot.object.concat object) slot.flags slot.deadline)
  | .prepend, some slot =>
    (.ok (.bool true), shelf.put key (object.concat slot.object) slot.flags slot.deadline)
  | .replace, none => (refused .notFound, shelf)
  | .add, some _ | .append, none | .prepend, none | .cas, none => (.ok (.bool false), shelf)

/-- What a retrieval finds. -/
def look (now : ℤ) (name : RetrieveName) (key : Bytes) (default : Object R V)
    (shelf : Shelf R V) : Found R V :=
  match shelf.find now key with
  | none => notFound default
  | some slot =>
    { cas := if name = .gets then slot.cas else 0, flags := slot.flags, data := slot.object }

/-- A counter method. A counter that is made is a string. -/
def count (now : ℤ) (name : CounterName) (key : Bytes) (value : UInt64) (opts : Opts)
    (shelf : Shelf R V) : Except Raised (Returned R V) × Shelf R V :=
  match shelf.find now key with
  | none =>
    if opts.expiration.toInt = Binary.mustExist then (.ok .none, shelf)
    else (.ok (.number opts.initial), shelf.put key (.str (textOf (decimal opts.initial.toNat))) 0
      (deadline now opts.expiration.toInt))
  | some slot =>
    match slot.object.number with
    | none => (refused .clientError, shelf)
    | some n =>
      let n := name.count value.toNat n
      (.ok (.number (.ofNat n)), shelf.put key (slot.object.counted n) slot.flags slot.deadline)

/-- A method for a key that must be there. -/
def change (now : ℤ) (key : Bytes) (f : Slot R V → Option (Slot R V)) (shelf : Shelf R V) :
    Except Raised (Returned R V) × Shelf R V :=
  match shelf.find now key with
  | none => (.ok (.bool false), shelf)
  | some slot =>
    (.ok (.bool true), { shelf with items := Function.update shelf.items key (f slot) })

/-- What a method does. -/
def perform (py : Interpreter R V) (now : ℤ) (m : Method R V) (shelf : Shelf R V) :
    Except Raised (Returned R V) × Shelf R V :=
  match m.prepare py with
  | .error e => (.error e, shelf)
  | .ok _ =>
    match m with
    | .storage name key data dict =>
      match dict.construct with
      | .error e => (.error e, shelf)
      | .ok opts => shelf.store now name key (kept py data) opts
    | .retrieve name key default =>
      (.ok (.found (shelf.look now name key (default.getD (.other py.none)))), shelf)
    | .counter name key value dict =>
      match dict.construct with
      | .error e => (.error e, shelf)
      | .ok opts => shelf.count now name key value opts
    | .touch key exp =>
      shelf.change now key fun slot => some { slot with deadline := deadline now exp.toNat }
    | .del key => shelf.change now key fun _ => none

end Shelf

section Runs

variable {R V : Type} (py : Interpreter R V)

/-- What a series of methods returns or raises; `home` tells where a key is. -/
def answers (home : Bytes → UInt32) : List (Instant × Method R V) → (UInt32 → Shelf R V) →
    List (Except Raised (Returned R V))
  | [], _ => []
  | (i, m) :: calls, shelves =>
    let (result, shelf) := (shelves (home m.key)).perform py i.now m
    result :: answers home calls (Function.update shelves (home m.key) shelf)

/-! ## The client -/

variable (zlib : Zlib) (pool : Pool) (cfg : ClientConfig) (what : UInt32 → Bytes)

/-- One method of the Python client, which wraps a client of the binary protocol. -/
def Method.perform (i : Instant) (m : Method R V) (s : UInt32 → Peer) :
    Except Raised (Returned R V) × (UInt32 → Peer) :=
  (m.program py).run.exec
    (interpret (runConnected .binary zlib pool cfg i what) fun _ _ s => (.ok ([], 0), s)) s

/-- What a series of methods returns or raises. -/
def results : List (Instant × Method R V) → (UInt32 → Peer) → List (Except Raised (Returned R V))
  | [], _ => []
  | (i, m) :: calls, s =>
    let (result, s) := m.perform py zlib pool cfg what i s
    result :: results calls s

/-! ## Series of calls -/

/-- What a packet can carry: an expiration that is not negative and lengths, each of 32 bits, a cas
id for `cas` only, and no empty text that is to be compressed. -/
def Carried : Request → Prop
  | .storage name key data opts => (opts.cas ≠ 0 → name = .cas) ∧
    0 ≤ opts.expiration.toInt ∧ opts.expiration.toInt < 2 ^ 32 ∧
    Restorable data opts.flags ∧
    ∃ stored, packed zlib data opts = .ok stored ∧ 8 + key.length + stored.length < 2 ^ 32
  | .counter _ _ _ opts => 0 ≤ opts.expiration.toInt ∧ opts.expiration.toInt < 2 ^ 32
  | .touch _ exp => exp.toNat < 2 ^ 32
  | _ => True

/-- A method with a valid key that is not empty, which raises or whose request a packet can carry.
The options `{'cas': 7}` of a `set` and an `'expiration'` of `-1` are left out. -/
def Sendable (m : Method R V) : Prop :=
  m.key ≠ [] ∧ checkKey m.key = .ok () ∧
    ∀ request, m.prepare py = .ok request → Carried zlib request

/-- Strings only grow by strings, counters are strings or integers below `2 ^ 63`, and neither is
compressed. -/
def Suits (now : ℤ) (shelf : Shelf R V) : Method R V → Prop
  | .storage name key data dict => name = .append ∨ name = .prepend →
    ∀ slot ∈ shelf.find now key, ∃ a b, slot.object = .str a ∧ data = .str b ∧
      compressed slot.flags = false ∧ dict.compress ≠ some true ∧
      4 + (utf8 a).length + (utf8 b).length < 2 ^ 32
  | .counter name key value dict =>
    (∀ opts, dict.construct = .ok opts → opts.initial.toNat < 2 ^ 63) ∧
    ∀ slot ∈ shelf.find now key, compressed slot.flags = false ∧ slot.object.countable = true ∧
      ∀ n, slot.object.number = some n → name.count value.toNat n < 2 ^ 63
  | _ => True

/-- The calls of a series suit the dictionary. -/
def AllSuit (home : Bytes → UInt32) : List (Instant × Method R V) → (UInt32 → Shelf R V) → Prop
  | [], _ => True
  | (i, m) :: calls, shelves =>
    Suits i.now (shelves (home m.key)) m ∧
      AllSuit home calls (Function.update shelves (home m.key)
        ((shelves (home m.key)).perform py i.now m).2)

/-- The result without the text of an exception that a response makes. -/
def silent : Except Raised (Returned R V) → Except Raised (Returned R V)
  | .error (.library (.proto code _)) => .error (.library (.proto code []))
  | result => result

end Runs

end McacheClient.Python
