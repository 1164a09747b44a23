import McacheClient.Client.Methods

/-!
# Calls

The methods of the client that store, retrieve, touch and delete one key, as data.

* `Call`, `Call.program`: a method with its arguments, and what it does;
* `Call.request`, `Call.finish`: its only request, and what it makes of the response;
* **`Call.exec_program`**: a method makes its request and finishes with the response.
-/

namespace McacheClient

/-- A method of the client with its arguments. -/
inductive Call
  | storage (name : StorageName) (key data : Bytes) (opts : Opts)
  | retrieve (name : RetrieveName) (key : Bytes)
  | touch (key : Bytes) (exp : UInt64)
  | del (key : Bytes)

/-- What a method returns: nothing, a flag or a result. -/
inductive Value
  | done
  | flag (b : Bool)
  | result (r : Result)
  deriving DecidableEq

namespace Call

/-- The method. -/
def program : Call → ClientM Value
  | storage .set key data opts => do
    set key data opts
    return .done
  | storage .add key data opts => return .flag (← add key data opts)
  | storage .replace key data opts => return .flag (← replace key data opts)
  | storage .append key data opts => return .flag (← append key data opts)
  | storage .prepend key data opts => return .flag (← prepend key data opts)
  | storage .cas key data opts => return .flag (← cas key data opts)
  | retrieve .get key => return .result (← get key)
  | retrieve .gets key => return .result (← gets key)
  | touch key exp => return .flag (← McacheClient.touch key exp)
  | del key => return .flag (← McacheClient.del key)

def key : Call → Bytes
  | storage _ key .. | retrieve _ key | touch key _ | del key => key

/-- The request that the method makes. -/
def request : Call → Request
  | storage name key data opts => .storage name key data opts
  | retrieve name key => .retrieve name key
  | touch key exp => .touch key exp
  | del key => .delete key

/-- Does the method excuse a `not_found`? -/
def h404 : Call → Bool
  | retrieve .. => true
  | _ => false

/-- The codes that a storage method returns false for. -/
def refused : StorageName → List ResponseCode
  | .set => []
  | .add => [.exists, .notStored]
  | .replace | .append | .prepend => [.notStored]
  | .cas => [.notFound]

/-- What the method makes of a response. -/
def finish : Call → Response → Except Exn Value
  | storage name _ _ _, response =>
    (storageResult (refused name) response).map fun b => if name = .set then .done else .flag b
  | retrieve name _, response =>
    match response.code with
    | .ok => .ok (.result {
        found := true
        data := response.data
        flags := response.flags
        cas := if name = .gets then response.cas else 0 })
    | .notFound => .ok (.result { found := false })
    | _ => .error response.exception
  | touch .., response =>
    match response.code with
    | .touched => .ok (.flag true)
    | .notFound => .ok (.flag false)
    | _ => .error response.exception
  | del _, response =>
    match response.code with
    | .ok | .deleted => .ok (.flag true)
    | .notFound => .ok (.flag false)
    | _ => .error response.exception

/-- `cas` without an id throws before it makes a request. -/
def NoId : Call → Prop
  | storage .cas _ _ opts => opts.cas = 0
  | _ => False

theorem exec_noId {σ : Type} (interp : (o : ClientOp) → σ → o.Answer × σ) {call : Call}
    (h : call.NoId) (s : σ) :
    call.program.run.exec interp s = (.error (.mc .badArgument "invalid cas"), s) := by
  cases call with
  | storage name key data opts =>
    cases name <;> try exact h.elim
    have hcas : opts.cas = 0 := h
    simp only [program, cas, hcas]
    rfl
  | retrieve | touch | del => exact h.elim

theorem program_eq {call : Call} (h : ¬call.NoId) : ∃ next,
    call.program.run = Program.call (.run call.request call.h404) next ∧
      ∀ result, next result = Program.done (result.bind call.finish) := by
  cases call with
  | storage name key data opts =>
    cases name with
    | cas =>
      have hcas : opts.cas ≠ 0 := h
      simp only [program, cas, if_neg hcas]
      refine ⟨_, rfl, fun result => ?_⟩
      rcases result with e | ⟨code, data, flags, cas⟩
      · rfl
      · cases code <;> rfl
    | _ =>
      refine ⟨_, rfl, fun result => ?_⟩
      rcases result with e | ⟨code, data, flags, cas⟩
      · rfl
      · cases code <;> rfl
  | retrieve name key =>
    cases name <;> refine ⟨_, rfl, fun result => ?_⟩ <;>
      rcases result with e | ⟨code, data, flags, cas⟩
    · rfl
    · cases code <;> rfl
    · rfl
    · cases code <;> rfl
  | touch | del =>
    refine ⟨_, rfl, fun result => ?_⟩
    rcases result with e | ⟨code, data, flags, cas⟩
    · rfl
    · cases code <;> rfl

/-- **A method** finishes with the response to its request. -/
theorem exec_program {σ : Type} (exchange : Request → Bool → σ → Except Exn Response × σ)
    (callback : Bytes → UInt32 → σ → Except Exn (Bytes × UInt32) × σ) {call : Call}
    (h : ¬call.NoId) (s : σ) : call.program.run.exec (interpret exchange callback) s =
      ((exchange call.request call.h404 s).1.bind call.finish,
        (exchange call.request call.h404 s).2) := by
  obtain ⟨next, hcall, hnext⟩ := program_eq h
  rw [hcall, Program.exec_call]
  simp only [interpret, hnext, Program.exec_done]

end Call

end McacheClient
