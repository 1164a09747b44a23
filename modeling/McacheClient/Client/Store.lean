import McacheClient.Proto.Retrieval

/-!
# What a server does with a request

A server as the protocols describe it, one key at a time: its answer, parsed, and what happens to
the entry of the key.

* `CasId`, `Entry`: a stored value with the id of the mutation that made it, never 0;
* `Entry.Keeps`: an entry that has what a client stored;
* `verdict`: which storage requests are carried out;
* `handle`: the answer to a request and its effect;
* `verdict_cas`, `verdict_add`: a `cas` finds its id, an `add` finds no entry;
* **`exchange_retrieved`**: a retrieval over the wire of what is kept is what `handle` answers.
-/

namespace McacheClient

/-- The id of a mutation. -/
abbrev CasId : Type := { c : UInt64 // c ≠ 0 }

/-- What a server stores for a key; the data may be compressed. -/
structure Entry where
  data : Bytes
  flags : UInt32
  cas : CasId
  deriving DecidableEq

/-- The value that a client gets for an entry. -/
def Entry.value (zlib : Zlib) (e : Entry) : Except Exn (Bytes × UInt32) :=
  (unpack zlib e.flags e.data).map fun data => (data, e.flags)

/-- The entry has the data as a storage command packs it, and the flags; a client that reads it gets
them back if they are restorable. -/
structure Entry.Keeps (zlib : Zlib) (e : Entry) (v : Bytes × UInt32) : Prop where
  packed : packed zlib v.1 { flags := v.2 } = .ok e.data
  flags : e.flags = v.2
  value : Restorable v.1 v.2 → e.value zlib = .ok v

theorem keeps_packed {zlib : Zlib} (hz : zlib.Lossless) {data stored : Bytes} {opts : Opts}
    (h : packed zlib data opts = .ok stored) (cas : CasId) :
    (⟨stored, opts.flags, cas⟩ : Entry).Keeps zlib (data, opts.flags) where
  packed := h
  flags := rfl
  value hdata := by
    rw [Entry.value, unpack_packed hz hdata h]
    rfl

/-- What happens to the entry of the key. -/
inductive Effect
  | keep
  | put (data : Bytes) (flags : UInt32)
  | remove

/-- The entry after an effect; a new entry gets the id `fresh`. -/
def Effect.apply (fresh : CasId) (entry : Option Entry) : Effect → Option Entry
  | keep => entry
  | put data flags => some ⟨data, flags, fresh⟩
  | remove => none

section Handle

variable (api : Api) (zlib : Zlib)

/-- Is a storage request carried out on the entry with its cas id only? In the binary protocol the
cas of the header decides. -/
def Conditional (name : StorageName) (opts : Opts) : Prop :=
  name = .cas ∨ api = .binary ∧ opts.cas ≠ 0

instance (name : StorageName) (opts : Opts) : Decidable (Conditional api name opts) :=
  inferInstanceAs (Decidable (name = .cas ∨ api = .binary ∧ opts.cas ≠ 0))

/-- The code of a refusal; the binary protocol says why. -/
def refusal (reason : ResponseCode) : ResponseCode :=
  match api with
  | .text => .notStored
  | .binary => reason

/-- What a storage request without a condition stores when there is no entry. -/
def created (name : StorageName) (data : Bytes) (flags : UInt32) :
    Except ResponseCode (Bytes × UInt32) :=
  match name with
  | .set | .add => .ok (data, flags)
  | .replace => .error (refusal api .notFound)
  | .append | .prepend => .error .notStored
  | .cas => .error .notFound

/-- What a storage request makes of an entry. -/
def combined (name : StorageName) (data : Bytes) (flags : UInt32) (e : Entry) : Bytes × UInt32 :=
  match name with
  | .append => (e.data ++ data, e.flags)
  | .prepend => (data ++ e.data, e.flags)
  | .set | .add | .replace | .cas => (data, flags)

/-- What a storage request stores, or the code of the refusal. -/
def verdict (name : StorageName) (data : Bytes) (opts : Opts) :
    Option Entry → Except ResponseCode (Bytes × UInt32)
  | none =>
    if Conditional api name opts then .error .notFound else created api name data opts.flags
  | some e =>
    if Conditional api name opts ∧ e.cas.val ≠ opts.cas then .error .exists
    else if name = .add ∧ ¬Conditional api name opts then .error (refusal api .exists)
    else .ok (combined name data opts.flags e)

/-- The answer to `get` and `gets`; over the text protocol only `gets` shows the id. -/
def retrieved (name : RetrieveName) : Option Entry → Except Exn Response
  | none => .ok { code := .notFound }
  | some e => (unpack zlib e.flags e.data).map fun data =>
      { code := .ok, data, flags := e.flags
        cas := if name = .gets ∨ api = .binary then e.cas.val else 0 }

/-- The answer to a request for a key and its effect. The arithmetic of counters is left open:
`number` is the new value, or none when the server refuses. -/
def handle (number : Option Bytes) (request : Request) (entry : Option Entry) :
    Except Exn Response × Effect :=
  match request with
  | .retrieve name _ => (retrieved api zlib name entry, .keep)
  | .storage name _ data opts =>
    match packed zlib data opts with
    | .error e => (.error e, .keep)
    | .ok stored =>
      match verdict api name stored opts entry with
      | .error code => (.ok { code }, .keep)
      | .ok (data, flags) => (.ok { code := .stored }, .put data flags)
  | .counter .. =>
    match number with
    | none => (.ok { code := .notFound }, .keep)
    | some data => (.ok { code := .ok, data }, .put data ((entry.map Entry.flags).getD 0))
  | .touch .. => (.ok { code := if entry = none then .notFound else .touched }, .keep)
  | .delete _ =>
    if entry = none then (.ok { code := .notFound }, .keep)
    else (.ok { code := .deleted }, .remove)
  | .flushAll _ => (.ok { code := .ok }, .remove)

/-- The code of the answer to a request with the empty key, which is a command of neither protocol:
`ERROR`, or the status for invalid arguments. -/
def malformed : ResponseCode :=
  match api with
  | .text => .error
  | .binary => .clientError

/-- What the proxy of a live server makes of a request: the command is built and serialized, and
what these throw ends it before anything is sent. Of a request with the empty key the server
carries out nothing; what a text server makes of the data behind such a line is left out. -/
def serve (number : Option Bytes) (request : Request) (entry : Option Entry) :
    Except Exn Response × Effect :=
  match (api.command zlib request).bind Command.serialize with
  | .error e => (.error e, .keep)
  | .ok _ =>
    if request.key = some [] then (.ok { code := malformed api }, .keep)
    else handle api zlib number request entry

variable {api zlib} {entry : Option Entry} {key data : Bytes} {opts : Opts} {v : Bytes × UInt32}
  {number : Option Bytes} {response : Response}

theorem verdict_cas_some {e : Entry} (hcas : e.cas.val = opts.cas) :
    verdict api .cas data opts (some e) = .ok (data, opts.flags) := by
  rw [verdict, if_neg fun h => h.2 hcas, if_neg fun h => by cases h.1]
  rfl

theorem verdict_cas_none : verdict api .cas data opts none = .error .notFound := by
  have hcond : Conditional api .cas opts := Or.inl rfl
  rw [verdict, if_pos hcond]

theorem not_conditional_add (hopts : opts.cas = 0) : ¬Conditional api .add opts := fun h => by
  rcases h with hname | ⟨-, hcas⟩
  · cases hname
  · exact hcas hopts

theorem verdict_add_none (hopts : opts.cas = 0) :
    verdict api .add data opts none = .ok (data, opts.flags) := by
  rw [verdict, if_neg (not_conditional_add hopts)]
  rfl

theorem verdict_cas (h : verdict api .cas data opts entry = .ok v) :
    ∃ e, entry = some e ∧ e.cas.val = opts.cas ∧ v = (data, opts.flags) := by
  have hcond : Conditional api .cas opts := Or.inl rfl
  cases entry with
  | none =>
    rw [verdict, if_pos hcond] at h
    cases h
  | some e =>
    rw [verdict] at h
    split_ifs at h with hcas
    refine ⟨e, rfl, ?_, (Except.ok.inj h).symm⟩
    by_contra hne
    exact hcas ⟨hcond, hne⟩

theorem verdict_add (hopts : opts.cas = 0) (h : verdict api .add data opts entry = .ok v) :
    entry = none ∧ v = (data, opts.flags) := by
  have hcond : ¬Conditional api .add opts := not_conditional_add hopts
  cases entry with
  | none =>
    rw [verdict, if_neg hcond] at h
    exact ⟨rfl, (Except.ok.inj h).symm⟩
  | some e =>
    rw [verdict, if_neg (fun hc => hcond hc.1), if_pos ⟨rfl, hcond⟩] at h
    cases h

theorem created_error {name : StorageName} {flags : UInt32} {code : ResponseCode}
    (h : created api name data flags = .error code) : code ∈ [.notStored, .exists, .notFound] := by
  cases name <;> cases api <;> cases h <;> decide

theorem verdict_error {name : StorageName} {code : ResponseCode}
    (h : verdict api name data opts entry = .error code) :
    code ∈ [.notStored, .exists, .notFound] := by
  cases entry with
  | none =>
    rw [verdict] at h
    split_ifs at h
    · cases h
      decide
    · exact created_error h
  | some e =>
    rw [verdict] at h
    split_ifs at h
    · cases h
      decide
    · cases api <;> cases h <;> decide

theorem retrieved_some (name : RetrieveName) (e : Entry) :
    retrieved api zlib name (some e) = (e.value zlib).map fun v =>
      { code := .ok, data := v.1, flags := v.2
        cas := if name = .gets ∨ api = .binary then e.cas.val else 0 } := by
  rw [retrieved, Entry.value]
  cases unpack zlib e.flags e.data <;> rfl

theorem retrieved_of_value {e : Entry} (hv : e.value zlib = .ok v) :
    retrieved api zlib .gets (some e) =
      .ok { code := .ok, data := v.1, flags := v.2, cas := e.cas.val } := by
  rw [retrieved_some, hv]
  rfl

theorem retrieved_of_error {name : RetrieveName} {e : Entry} {ex : Exn}
    (hv : e.value zlib = .error ex) : retrieved api zlib name (some e) = .error ex := by
  rw [retrieved_some, hv]
  rfl

theorem retrieved_gets (h : retrieved api zlib .gets entry = .ok response) :
    (entry = none ∧ response.code = .notFound) ∨
      ∃ e, entry = some e ∧ response.code = .ok ∧ response.cas = e.cas.val ∧
        e.value zlib = .ok (response.data, response.flags) := by
  cases entry with
  | none =>
    cases h
    exact Or.inl ⟨rfl, rfl⟩
  | some e =>
    cases hv : e.value zlib with
    | error ex => rw [retrieved_of_error hv] at h; cases h
    | ok v =>
      rw [retrieved_of_value hv] at h
      cases h
      exact Or.inr ⟨e, rfl, rfl, rfl, hv⟩

theorem serve_retrieve_keep (number : Option Bytes) (name : RetrieveName) (key : Bytes)
    (entry : Option Entry) : (serve api zlib number (.retrieve name key) entry).2 = .keep := by
  unfold serve
  split
  · rfl
  · split_ifs <;> rfl

theorem serve_retrieve {name : RetrieveName}
    (h : (serve api zlib number (.retrieve name key) entry).1 = .ok response) :
    retrieved api zlib name entry = .ok response ∨ response = { code := malformed api } := by
  unfold serve at h
  split at h
  · cases h
  · split_ifs at h
    · exact Or.inr (Except.ok.inj h).symm
    · exact Or.inl h

/-! ### Requests that can be serialized -/

theorem serve_of_serialize {request : Request} {bytes : Bytes} (hne : request.key ≠ some [])
    (h : (api.command zlib request).bind Command.serialize = .ok bytes) :
    serve api zlib number request entry = handle api zlib number request entry := by
  simp only [serve, h, if_neg hne]

theorem serialize_retrieve (api : Api) (zlib : Zlib) (hkey : checkKey key = .ok ())
    (name : RetrieveName) :
    ∃ bytes, (api.command zlib (.retrieve name key)).bind Command.serialize = .ok bytes := by
  cases api with
  | text =>
    show ∃ bytes, Text.keyed key _ = .ok bytes
    rw [Text.keyed, hkey]
    exact ⟨_, rfl⟩
  | binary =>
    show ∃ bytes, Binary.keyed _ _ key _ = .ok bytes
    rw [Binary.keyed, hkey]
    exact ⟨_, rfl⟩

theorem serialize_storage (api : Api) (hkey : checkKey key = .ok ()) (name : StorageName)
    {stored : Bytes} (hpacked : packed zlib data opts = .ok stored) :
    ∃ bytes,
      (api.command zlib (.storage name key data opts)).bind Command.serialize = .ok bytes := by
  cases api with
  | text =>
    rw [Api.command, Text.command, hpacked]
    show ∃ bytes, Text.keyed key _ = .ok bytes
    rw [Text.keyed, hkey]
    exact ⟨_, rfl⟩
  | binary =>
    rw [Api.command, Binary.command, hpacked]
    show ∃ bytes, Binary.keyed _ _ key _ = .ok bytes
    rw [Binary.keyed, hkey]
    exact ⟨_, rfl⟩

theorem serve_retrieve_ok (api : Api) (zlib : Zlib) (hkey : checkKey key = .ok ())
    (hne : key ≠ []) (number : Option Bytes) (name : RetrieveName) (entry : Option Entry) :
    serve api zlib number (.retrieve name key) entry = (retrieved api zlib name entry, .keep) := by
  obtain ⟨bytes, hbytes⟩ := serialize_retrieve api zlib hkey name
  exact serve_of_serialize (fun h => hne (Option.some.inj h)) hbytes

theorem serve_storage_ok (hkey : checkKey key = .ok ()) (hne : key ≠ []) (number : Option Bytes)
    {name : StorageName} {stored : Bytes} (hpacked : packed zlib data opts = .ok stored)
    (hv : verdict api name stored opts entry = .ok v) :
    serve api zlib number (.storage name key data opts) entry =
      (.ok { code := .stored }, .put v.1 v.2) := by
  obtain ⟨bytes, hbytes⟩ := serialize_storage api hkey name hpacked
  have hkeyed : (Request.storage name key data opts).key ≠ some [] := fun h =>
    hne (Option.some.inj h)
  rw [serve_of_serialize hkeyed hbytes]
  simp only [handle, hpacked, hv]

theorem serve_storage_error (hkey : checkKey key = .ok ()) (hne : key ≠ [])
    (number : Option Bytes)
    {name : StorageName} {stored : Bytes} (hpacked : packed zlib data opts = .ok stored)
    {code : ResponseCode} (hv : verdict api name stored opts entry = .error code) :
    serve api zlib number (.storage name key data opts) entry = (.ok { code }, .keep) := by
  obtain ⟨bytes, hbytes⟩ := serialize_storage api hkey name hpacked
  have hkeyed : (Request.storage name key data opts).key ≠ some [] := fun h =>
    hne (Option.some.inj h)
  rw [serve_of_serialize hkeyed hbytes]
  simp only [handle, hpacked, hv]

theorem serve_retrieve_nil (api : Api) (zlib : Zlib) (number : Option Bytes) (name : RetrieveName)
    (entry : Option Entry) :
    serve api zlib number (.retrieve name []) entry = (.ok { code := malformed api }, .keep) := by
  have hkey : checkKey [] = .ok () := rfl
  obtain ⟨bytes, hbytes⟩ := serialize_retrieve api zlib hkey name
  simp only [serve, hbytes, Request.key, if_true]

theorem serve_retrieve_error {e : Exn} (hkey : checkKey key = .error e) (number : Option Bytes)
    (name : RetrieveName) (entry : Option Entry) :
    serve api zlib number (.retrieve name key) entry = (.error e, .keep) := by
  have hser : (api.command zlib (.retrieve name key)).bind Command.serialize = .error e := by
    cases api with
    | text =>
      show Text.keyed key _ = _
      rw [Text.keyed, hkey]
      rfl
    | binary =>
      show Binary.keyed _ _ key _ = _
      rw [Binary.keyed, hkey]
      rfl
  rw [serve, hser]

theorem serve_storage (api : Api) (zlib : Zlib) (number : Option Bytes) (name : StorageName)
    (key data : Bytes) (opts : Opts) (entry : Option Entry) :
    ((serve api zlib number (.storage name key data opts) entry).2 = .keep ∧
      ∀ response, (serve api zlib number (.storage name key data opts) entry).1 = .ok response →
        response.code ≠ .ok ∧ response.code ≠ .stored) ∨
    ∃ stored v, packed zlib data opts = .ok stored ∧ verdict api name stored opts entry = .ok v ∧
      serve api zlib number (.storage name key data opts) entry =
        (.ok { code := .stored }, .put v.1 v.2) := by
  unfold serve
  split
  · exact Or.inl ⟨rfl, nofun⟩
  split_ifs
  · refine Or.inl ⟨rfl, fun response h => ?_⟩
    rw [← Except.ok.inj h]
    cases api <;> exact ⟨nofun, nofun⟩
  · cases hdata : packed zlib data opts with
    | error e =>
      left
      simp only [handle, hdata]
      exact ⟨trivial, nofun⟩
    | ok stored =>
      cases hv : verdict api name stored opts entry with
      | error code =>
        left
        simp only [handle, hdata, hv]
        refine ⟨trivial, fun response h => ?_⟩
        cases h
        have hcode := verdict_error hv
        constructor <;> rintro rfl <;> revert hcode <;> decide
      | ok v =>
        simp only [handle, hdata, hv]
        exact Or.inr ⟨stored, v, rfl, hv, rfl⟩

theorem serve_ne_ioError {request : Request}
    (h : (serve api zlib number request entry).1 = .ok response) : response.code ≠ .ioError := by
  unfold serve at h
  split at h
  · cases h
  split_ifs at h
  · rw [← Except.ok.inj h]
    cases api <;> exact nofun
  · cases request with
    | retrieve name key =>
      cases entry with
      | none => cases h; decide
      | some e =>
        rw [handle, retrieved_some] at h
        cases hv : e.value zlib with
        | error ex => rw [hv] at h; cases h
        | ok v => rw [hv] at h; cases h; exact nofun
    | storage name key data opts =>
      cases hdata : packed zlib data opts with
      | error ex => simp only [handle, hdata] at h; cases h
      | ok stored =>
        cases hv : verdict api name stored opts entry with
        | error code =>
          simp only [handle, hdata, hv] at h
          cases h
          rintro rfl
          exact absurd (verdict_error hv) (by decide)
        | ok v => simp only [handle, hdata, hv] at h; cases h; decide
    | counter name key value opts => cases number <;> cases h <;> exact nofun
    | touch key expiration => cases entry <;> cases h <;> simp
    | delete key => cases entry <;> cases h <;> exact nofun
    | flushAll expiration => cases h; decide

end Handle

/-! ## Over the wire -/

/-- **What is kept comes back**: a well-formed reply with an entry gives the answer of `handle`. -/
theorem exchange_retrieved (api : Api) (zlib : Zlib) {key : Bytes} (hkey : checkKey key = .ok ())
    (hne : key ≠ []) (e : Entry) (hfits : api.Fits key e.data) (name : RetrieveName)
    {reply rest : Bytes} {c : Connection} (hinput : c.input = reply ++ rest)
    (hreply : api.IsReply ⟨key, e.flags, e.data⟩
      (if name = .gets ∨ api = .binary then e.cas.val else 0) reply) :
    ∃ c', api.exchange zlib (.retrieve name key) c = (retrieved api zlib name (some e), c') ∧
      c'.input = rest := by
  cases api with
  | text => exact Text.exchange_reply zlib ⟨key, e.flags, e.data⟩ hfits hkey hne hreply name hinput
  | binary =>
    exact Binary.exchange_reply zlib ⟨key, e.flags, e.data⟩ hkey hreply (Binary.retrieveCode name)
      hinput

end McacheClient
