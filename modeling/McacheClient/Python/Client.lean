import McacheClient.Client.Calls
import McacheClient.Python.Objects

/-!
# The methods of the Python client

`client_t` of the Python module as programs over the calls of the client that it wraps.

* `PyM`, `ofClient`, `ofExcept`: programs that raise, and those that throw;
* `storeo`, `retrieve`, `retrieved`, `countio`: methods that differ in the call that they make;
* `seto`, `addo`, …, `del`: the methods;
* `Method`, `Method.program`: a method with its arguments, and what it does;
* `Method.prepare`, `Method.conclude`: its only request, and what it makes of the response;
* **`Method.exec_program`**: a method makes its request and concludes from the response.
-/

namespace McacheClient.Python

/-- Programs of the Python client. -/
abbrev PyM (α : Type) : Type := ExceptT Raised (Program ClientOp ClientOp.Answer) α

/-- What the client throws is raised. -/
def ofClient {α : Type} (p : ClientM α) : PyM α := p.adapt Raised.library

def ofExcept {α : Type} (result : Except Raised α) : PyM α := ExceptT.mk (pure result)

section Methods

variable {R V : Type} (py : Interpreter R V)

/-! ## The methods -/

/-- A storage method. -/
def storeo {α : Type} (store : Bytes → Bytes → Opts → ClientM α) (key : Bytes) (data : Object R V)
    (opts : Opts) : PyM α := do
  let (data, opts) ← ofExcept (toString py data opts)
  ofClient (store key data opts)

def seto : Bytes → Object R V → Opts → PyM Unit := storeo py set

def addo : Bytes → Object R V → Opts → PyM Bool := storeo py add

def replaceo : Bytes → Object R V → Opts → PyM Bool := storeo py replace

def prependo : Bytes → Object R V → Opts → PyM Bool := storeo py prepend

def appendo : Bytes → Object R V → Opts → PyM Bool := storeo py append

def cas : Bytes → Object R V → Opts → PyM Bool := storeo py McacheClient.cas

/-- `client_t::not_found`. -/
def notFound (default : Object R V) : Found R V := { data := default }

/-- A retrieval without a default. -/
def retrieve (fetch : Bytes → ClientM Result) (key : Bytes) : PyM (Found R V) := do
  let result ← ofClient (fetch key)
  ofExcept (fromString py result (.other py.none))

/-- A retrieval with a default, also when the client runs out of servers. -/
def retrieved (fetch : Bytes → ClientM Result) (key : Bytes) (default : Object R V) :
    PyM (Found R V) :=
  tryCatch (do
    let result ← ofClient (fetch key)
    ofExcept (fromString py result default)) fun
    | .library .outOfServers => return notFound default
    | e => throw e

def get : Bytes → PyM (Found R V) := retrieve py McacheClient.get

def gets : Bytes → PyM (Found R V) := retrieve py McacheClient.gets

def getd : Bytes → Object R V → PyM (Found R V) := retrieved py McacheClient.get

def getsd : Bytes → Object R V → PyM (Found R V) := retrieved py McacheClient.gets

omit py in
/-- A counter method, which sets a mark that no counter command sends. -/
def countio (count : Bytes → UInt64 → Opts → ClientM (UInt64 × Bool)) (key : Bytes) (value : UInt64)
    (opts : Opts) : PyM (Option UInt64) := do
  let (n, found) ← ofClient (count key value (marked opts Mark.long))
  return if found then some n else none

def incrio : Bytes → UInt64 → Opts → PyM (Option UInt64) := countio incr

def decrio : Bytes → UInt64 → Opts → PyM (Option UInt64) := countio decr

def touch (key : Bytes) (exp : UInt64) : PyM Bool := ofClient (McacheClient.touch key exp)

def del (key : Bytes) : PyM Bool := ofClient (McacheClient.del key)

end Methods

/-! ## Methods as data -/

/-- A method with its arguments. A call without options is one with an empty dictionary. -/
inductive Method (R V : Type)
  | storage (name : StorageName) (key : Bytes) (data : Object R V) (dict : Options)
  | retrieve (name : RetrieveName) (key : Bytes) (default : Option (Object R V))
  | counter (name : CounterName) (key : Bytes) (value : UInt64) (dict : Options)
  | touch (key : Bytes) (exp : UInt64)
  | del (key : Bytes)

/-- What a method returns. -/
inductive Returned (R V : Type)
  | none
  | bool (b : Bool)
  | number (n : UInt64)
  | found (dict : Found R V)
  deriving DecidableEq

namespace Method

variable {R V : Type} (py : Interpreter R V)

def key : Method R V → Bytes
  | storage _ key .. | retrieve _ key _ | counter _ key .. | touch key _ | del key => key

/-- The counter or `None`. -/
def counted : Option UInt64 → Returned R V
  | none => .none
  | some n => .number n

/-- The method; the options are converted before it is called. -/
def program : Method R V → PyM (Returned R V)
  | storage name key data dict => do
    let opts ← ofExcept dict.construct
    match name with
    | .set => do
      seto py key data opts
      return .none
    | .add => return .bool (← addo py key data opts)
    | .replace => return .bool (← replaceo py key data opts)
    | .append => return .bool (← appendo py key data opts)
    | .prepend => return .bool (← prependo py key data opts)
    | .cas => return .bool (← Python.cas py key data opts)
  | retrieve .get key none => return .found (← get py key)
  | retrieve .get key (some default) => return .found (← getd py key default)
  | retrieve .gets key none => return .found (← gets py key)
  | retrieve .gets key (some default) => return .found (← getsd py key default)
  | counter .incr key value dict => do
    let opts ← ofExcept dict.construct
    return counted (← incrio key value opts)
  | counter .decr key value dict => do
    let opts ← ofExcept dict.construct
    return counted (← decrio key value opts)
  | touch key exp => return .bool (← Python.touch key exp)
  | del key => return .bool (← Python.del key)

/-- The request that a method makes, or what is raised before. -/
def prepare : Method R V → Except Raised Request
  | storage name key data dict => do
    let opts ← dict.construct
    let (data, opts) ← toString py data opts
    if name = .cas ∧ opts.cas = 0 then
      throw (.library (.mc .badArgument "invalid cas"))
    return .storage name key data opts
  | retrieve name key _ => .ok (.retrieve name key)
  | counter name key value dict => do
    let opts ← dict.construct
    return .counter name key value (marked opts Mark.long)
  | touch key exp => .ok (.touch key exp)
  | del key => .ok (.delete key)

def h404 : Method R V → Bool
  | retrieve .. => true
  | _ => false

/-- A retrieval of the client. -/
def fetch : RetrieveName → Bytes → ClientM Result
  | .get => McacheClient.get
  | .gets => McacheClient.gets

/-- What a retrieval makes of a response. -/
def retrieveResult (name : RetrieveName) (response : Response) : Except Exn Result :=
  match response.code with
  | .ok => .ok {
      found := true
      data := response.data
      flags := response.flags
      cas := if name = .gets then response.cas else 0 }
  | .notFound => .ok { found := false }
  | _ => .error response.exception

/-- The codes that tell that there was a key to touch or to delete. -/
def keyResult (done : List ResponseCode) (response : Response) : Except Exn Bool :=
  if response.code ∈ done then .ok true
  else if response.code = .notFound then .ok false
  else .error response.exception

/-- What a method makes of the response to its request. -/
def conclude : Method R V → Except Exn Response → Except Raised (Returned R V)
  | storage name .., result =>
    ((result.bind (storageResult (Call.refused name))).mapError .library).map fun b =>
      if name = .set then .none else .bool b
  | retrieve name _ default, result =>
    if result = .error .outOfServers ∧ default.isSome then
      .ok (.found (notFound (default.getD (.other py.none))))
    else
      (((result.bind (retrieveResult name)).mapError .library).bind fun result =>
        fromString py result (default.getD (.other py.none))).map .found
  | counter .., result =>
    ((result.bind counterResult).mapError .library).map fun (n, found) =>
      if found then .number n else .none
  | touch .., result =>
    ((result.bind (keyResult [.touched])).mapError .library).map .bool
  | del _, result =>
    ((result.bind (keyResult [.ok, .deleted])).mapError .library).map .bool

end Method

/-! ## Programs with one call -/

/-- A program asks for one operation and finishes with what comes of the answer. -/
def Single {ε α : Type} (p : ExceptT ε (Program ClientOp ClientOp.Answer) α) (o : ClientOp)
    (f : o.Answer → Except ε α) : Prop :=
  p.run = Program.call o fun r => Program.done (f r)

section Single

variable {ε α β : Type} {o : ClientOp}

theorem Single.ofClient {p : ClientM α} {f : o.Answer → Except Exn α} (h : Single p o f) :
    Single (ofClient p) o fun r => (f r).mapError .library := by
  show Except.mapError Raised.library <$> p.run = _
  rw [show p.run = _ from h]
  rfl

theorem Single.bind {p : ExceptT ε (Program ClientOp ClientOp.Answer) α}
    {f : o.Answer → Except ε α} (h : Single p o f)
    {next : α → ExceptT ε (Program ClientOp ClientOp.Answer) β} {g : α → Except ε β}
    (hnext : ∀ a, (next a).run = Program.done (g a)) :
    Single (p >>= next) o fun r => (f r).bind g := by
  have hbind : (p >>= next).run = p.run >>= ExceptT.bindCont next := rfl
  rw [Single, hbind, show p.run = _ from h, Program.call_bind]
  refine congrArg (Program.call o) (funext fun r => ?_)
  cases hr : f r with
  | error e => rfl
  | ok a => exact hnext a

theorem Single.congr {p : ExceptT ε (Program ClientOp ClientOp.Answer) α}
    {f g : o.Answer → Except ε α} (h : Single p o f) (hfg : ∀ r, f r = g r) : Single p o g :=
  h.trans (congrArg (Program.call o) (funext fun r => congrArg Program.done (hfg r)))

theorem Single.map {p : ExceptT ε (Program ClientOp ClientOp.Answer) α}
    {f : o.Answer → Except ε α} (h : Single p o f) (g : α → β) :
    Single (p >>= fun a => pure (g a)) o fun r => (f r).map g := by
  have hbind : Single (p >>= fun a => pure (g a)) o fun r => (f r).bind fun a => .ok (g a) :=
    h.bind fun _ => rfl
  refine hbind.trans (congrArg (Program.call o) (funext fun r => ?_))
  cases f r <;> rfl

theorem Single.caught {p : ExceptT ε (Program ClientOp ClientOp.Answer) α}
    {f : o.Answer → Except ε α} (h : Single p o f)
    {handle : ε → ExceptT ε (Program ClientOp ClientOp.Answer) α} {g : ε → Except ε α}
    (hhandle : ∀ e, (handle e).run = Program.done (g e)) :
    Single (tryCatch p handle) o fun r => tryCatch (f r) g := by
  have hcatch : (tryCatch p handle).run = p.run >>= fun
    | .ok a => Program.done (.ok a)
    | .error e => (handle e).run := rfl
  rw [Single, hcatch, show p.run = _ from h, Program.call_bind]
  refine congrArg (Program.call o) (funext fun r => ?_)
  cases hr : f r with
  | error e => exact hhandle e
  | ok a => rfl

theorem single_runCommand (request : Request) (h404 : Bool) :
    Single (runCommand request h404) (.run request h404) id := rfl

theorem single_storage (refused : List ResponseCode) (name : StorageName) (key data : Bytes)
    (opts : Opts) : Single (storage refused name key data opts)
      (.run (.storage name key data opts) false) fun r => r.bind (storageResult refused) :=
  (single_runCommand _ false).bind fun _ => rfl

theorem single_fetch (name : RetrieveName) (key : Bytes) :
    Single (Method.fetch name key) (.run (.retrieve name key) true)
      fun r => r.bind (Method.retrieveResult name) := by
  cases name
  all_goals
    refine (single_runCommand _ true).bind fun response => ?_
    unfold Method.retrieveResult
    cases response.code <;> rfl

theorem single_counter (name : CounterName) (key : Bytes) (value : UInt64) (opts : Opts) :
    Single (counter name key value opts) (.run (.counter name key value opts) false)
      fun r => r.bind counterResult :=
  (single_runCommand _ false).bind fun _ => rfl

theorem single_touch (key : Bytes) (exp : UInt64) :
    Single (McacheClient.touch key exp) (.run (.touch key exp) false)
      fun r => r.bind (Method.keyResult [.touched]) := by
  refine (single_runCommand _ false).bind fun response => ?_
  unfold Method.keyResult
  cases response.code <;> rfl

theorem single_del (key : Bytes) :
    Single (McacheClient.del key) (.run (.delete key) false)
      fun r => r.bind (Method.keyResult [.ok, .deleted]) := by
  refine (single_runCommand _ false).bind fun response => ?_
  unfold Method.keyResult
  cases response.code <;> rfl

theorem ofExcept_ok {γ : Type} (a : γ) (f : γ → PyM α) : ofExcept (.ok a) >>= f = f a := rfl

end Single

namespace Method

variable {R V : Type} {py : Interpreter R V}

theorem single_storeo {α : Type} {store : Bytes → Bytes → Opts → ClientM α} {key stored : Bytes}
    {data : Object R V} {opts opts' : Opts} (h : toString py data opts = .ok (stored, opts'))
    {o : ClientOp} {f : o.Answer → Except Exn α} (hstore : Single (store key stored opts') o f) :
    Single (storeo py store key data opts) o fun r => (f r).mapError .library := by
  rw [storeo, h, ofExcept_ok]
  exact hstore.ofClient

theorem single_cas (key data : Bytes) {opts : Opts} (h : opts.cas ≠ 0) :
    Single (McacheClient.cas key data opts) (.run (.storage .cas key data opts) false)
      fun r => r.bind (storageResult [.notFound]) := by
  rw [McacheClient.cas, if_neg h]
  exact single_storage _ .cas key data opts

theorem single_retrieve (py : Interpreter R V) (name : RetrieveName) (key : Bytes) :
    Single (Python.retrieve py (fetch name) key) (.run (.retrieve name key) true) fun r =>
      ((r.bind (retrieveResult name)).mapError .library).bind fun result =>
        fromString py result (.other py.none) :=
  (single_fetch name key).ofClient.bind fun _ => rfl

/-- What is caught around a retrieval with a default. -/
def caught (default : Object R V) : Raised → Except Raised (Found R V)
  | .library .outOfServers => .ok (notFound default)
  | e => .error e

theorem caught_of_ne {e : Raised} (he : e ≠ .library .outOfServers) (default : Object R V) :
    caught default e = .error e := by
  unfold caught
  split
  · exact absurd rfl he
  · rfl

theorem single_retrieved (py : Interpreter R V) (name : RetrieveName) (key : Bytes)
    (default : Object R V) :
    Single (retrieved py (fetch name) key default) (.run (.retrieve name key) true) fun r =>
      tryCatch (((r.bind (retrieveResult name)).mapError .library).bind fun result =>
        fromString py result default) (caught default) := by
  refine ((single_fetch name key).ofClient.bind fun _ => rfl).caught fun e => ?_
  unfold caught
  split <;> rfl

theorem fromString_ne_library {result : Result} {default : Object R V} {e : Exn} :
    fromString py result default ≠ .error (.library e) := by
  unfold fromString
  split_ifs
  · unfold dataFromString
    dsimp only
    split_ifs
    · cases py.loads result.data <;> simp [Except.map]
    · simp [Except.map]
    · simp [Except.map]
    · cases decode result.data <;> simp [Except.map]
  · simp

theorem retrieveResult_ne (name : RetrieveName) (response : Response) :
    retrieveResult name response ≠ .error .outOfServers := by
  unfold retrieveResult
  split <;> simp [Response.exception]

theorem conclude_retrieved (name : RetrieveName) (key : Bytes) (default : Object R V)
    (r : Except Exn Response) :
    (tryCatch (((r.bind (retrieveResult name)).mapError .library).bind fun result =>
        fromString py result default) (caught default)).map Returned.found =
      (retrieve name key (some default)).conclude py r := by
  by_cases hout : r = .error .outOfServers
  · subst hout
    simp only [conclude, Option.isSome_some, and_self, if_true]
    rfl
  · have hne : r.bind (retrieveResult name) ≠ .error .outOfServers := by
      cases r with
      | error e => exact fun h => hout (congrArg Except.error (Except.error.inj h))
      | ok response => exact retrieveResult_ne name response
    rw [conclude, if_neg fun h => hout h.1]
    cases hr : r.bind (retrieveResult name) with
    | error e =>
      have he : e ≠ .outOfServers := fun he => hne (hr.trans (congrArg Except.error he))
      have hne : Raised.library e ≠ .library .outOfServers := fun h => he (Raised.library.inj h)
      exact congrArg _ (caught_of_ne hne default)
    | ok result =>
      cases hfrom : fromString py result default with
      | error e =>
        have he : e ≠ .library .outOfServers := fun he => fromString_ne_library (he ▸ hfrom)
        have hcatch : (tryCatch (fromString py result default) (caught default)).map
            Returned.found = (fromString py result default).map Returned.found := by
          rw [hfrom]
          exact congrArg _ (caught_of_ne he default)
        exact hcatch
      | ok found =>
        have hcatch : (tryCatch (fromString py result default) (caught default)).map
            Returned.found = (fromString py result default).map Returned.found := by
          rw [hfrom]
          rfl
        exact hcatch

theorem single_storage_program {name : StorageName} {key : Bytes} {data : Object R V}
    {dict : Options} {request : Request}
    (h : (storage name key data dict).prepare py = .ok request) :
    Single ((storage name key data dict).program py) (.run request false)
      ((storage name key data dict).conclude py) := by
  cases hdict : dict.construct with
  | error e => simp [prepare, hdict, bind, Except.bind] at h
  | ok opts =>
    cases hstring : toString py data opts with
    | error e => simp [prepare, hdict, hstring, bind, Except.bind] at h
    | ok p =>
      obtain ⟨stored, opts'⟩ := p
      by_cases hcas : name = .cas ∧ opts'.cas = 0
      · simp [prepare, hdict, hstring, hcas, bind, Except.bind, throw, throwThe,
          MonadExceptOf.throw] at h
      · simp only [prepare, hdict, hstring, if_neg hcas, bind, Except.bind] at h
        obtain rfl := Except.ok.inj h
        have hids : name = .cas → opts'.cas ≠ 0 := fun hname hid => hcas ⟨hname, hid⟩
        have hstore : ∀ refused,
            Single (storeo py (McacheClient.storage refused name) key data opts)
              (.run (.storage name key stored opts') false) fun r =>
              (r.bind (storageResult refused)).mapError .library := fun refused =>
          single_storeo hstring (single_storage refused name key stored opts')
        rw [program, hdict, ofExcept_ok]
        cases name with
        | set =>
          have hset : Single (McacheClient.set key stored opts') _ _ :=
            (single_storage [] .set key stored opts').map fun _ => ()
          refine ((single_storeo hstring hset).map fun _ => Returned.none).congr fun r => ?_
          simp only [conclude, Call.refused]
          cases r.bind (storageResult []) <;> rfl
        | cas =>
          have hcas : Single (McacheClient.cas key stored opts') _ _ :=
            single_cas key stored (hids rfl)
          exact (single_storeo hstring hcas).map Returned.bool
        | _ => exact (hstore _).map Returned.bool

theorem program_error {m : Method R V} {e : Raised} (h : m.prepare py = .error e) :
    (m.program py).run = Program.done (.error e) := by
  cases m with
  | storage name key data dict =>
    cases hdict : dict.construct with
    | error e' =>
      rw [prepare, hdict] at h
      rw [program, hdict, ← Except.error.inj h]
      rfl
    | ok opts =>
      cases hstring : toString py data opts with
      | error e' =>
        have he : e' = e := by
          simp only [prepare, hdict, hstring, bind, Except.bind] at h
          exact Except.error.inj h
        have hraised : ∀ {α : Type} (store : Bytes → Bytes → Opts → ClientM α)
            (g : α → Returned R V), (storeo py store key data opts >>= fun a => pure (g a)).run =
              Program.done (.error e) := by
          intro α store g
          rw [storeo, hstring, he]
          rfl
        rw [program, hdict, ofExcept_ok]
        cases name <;> exact hraised _ _
      | ok p =>
        obtain ⟨stored, opts'⟩ := p
        by_cases hcas : name = .cas ∧ opts'.cas = 0
        · simp only [prepare, hdict, hstring, bind, Except.bind, if_pos hcas] at h
          obtain ⟨rfl, hid⟩ := hcas
          rw [program, hdict, ofExcept_ok, ← Except.error.inj h]
          simp only [cas, storeo, hstring, ofExcept_ok, McacheClient.cas, if_pos hid]
          rfl
        · simp only [prepare, hdict, hstring, if_neg hcas, bind, Except.bind] at h
          cases h
  | counter name key value dict =>
    cases hdict : dict.construct with
    | error e' =>
      rw [prepare, hdict] at h
      cases name <;> rw [program, hdict, ← Except.error.inj h] <;> rfl
    | ok opts => simp [prepare, hdict, bind, Except.bind, pure, Except.pure] at h
  | retrieve | touch | del => cases h

theorem single_program {m : Method R V} {request : Request} (h : m.prepare py = .ok request) :
    Single (m.program py) (.run request m.h404) (m.conclude py) := by
  cases m with
  | storage name key data dict => exact single_storage_program h
  | retrieve name key default =>
    obtain rfl := Except.ok.inj h
    cases default with
    | none =>
      have hretrieve : Single _ _ ((retrieve name key none).conclude py) :=
        ((single_retrieve py name key).map Returned.found).congr fun r => by simp [conclude]
      cases name <;> exact hretrieve
    | some default =>
      have hretrieved := ((single_retrieved py name key default).map Returned.found).congr
        (conclude_retrieved name key default)
      cases name <;> exact hretrieved
  | counter name key value dict =>
    cases hdict : dict.construct with
    | error e => simp [prepare, hdict, bind, Except.bind] at h
    | ok opts =>
      simp only [prepare, hdict, bind, Except.bind] at h
      obtain rfl := Except.ok.inj h
      have hcount := single_counter name key value (marked opts Mark.long)
      have hcountio : Single (countio (McacheClient.counter name) key value opts) _ _ :=
        hcount.ofClient.map fun p => if p.2 then some p.1 else none
      have hcongr := (hcountio.map counted).congr (g := (counter name key value dict).conclude py)
        fun r => by
          simp only [conclude]
          cases r.bind counterResult with
          | error e => rfl
          | ok p =>
            obtain ⟨n, found⟩ := p
            cases found <;> rfl
      cases name <;> rw [program, hdict, ofExcept_ok] <;> exact hcongr
  | touch key exp =>
    obtain rfl := Except.ok.inj h
    exact (single_touch key exp).ofClient.map Returned.bool
  | del key =>
    obtain rfl := Except.ok.inj h
    exact (single_del key).ofClient.map Returned.bool

/-- **A method** makes its request and concludes from the response. -/
theorem exec_program {σ : Type} (exchange : Request → Bool → σ → Except Exn Response × σ)
    (callback : Bytes → UInt32 → σ → Except Exn (Bytes × UInt32) × σ) (m : Method R V) (s : σ) :
    (m.program py).run.exec (interpret exchange callback) s =
      match m.prepare py with
      | .error e => (.error e, s)
      | .ok request =>
        let (result, s) := exchange request m.h404 s
        (m.conclude py result, s) := by
  cases h : m.prepare py with
  | error e =>
    rw [program_error h]
    rfl
  | ok request =>
    rw [show (m.program py).run = _ from single_program h]
    rfl

end Method

end McacheClient.Python
