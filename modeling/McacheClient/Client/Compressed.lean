import McacheClient.Client.Methods
import McacheClient.Client.Store

/-!
# Compressed values

A sequence of storage commands on one key, all with the builtin flag `compress` or all without it,
and a `get`.

* `StorageCall`, `storeAll`: the commands, and what a server keeps of all of them;
* `foundAfter`: what `get` returns afterwards;
* `CarriedOut`: when a storage command stores something;
* `Pieces`, `pieces`: the data of the commands that a value is put together from;
* `storeAll_pieces`: a server keeps the pieces one after the other, each packed by itself;
* **`transparent_iff`**: `get` finds the same data with and without the flag exactly when the first
  piece is not empty and every other one is.
-/

namespace McacheClient

/-- A storage command without its key, and what happens around it: the id that its mutation gets,
and whether the server lost the entry before, which expired or was evicted. -/
structure StorageCall where
  name : StorageName
  data : Bytes
  opts : Opts := {}
  fresh : CasId := ⟨1, by decide⟩
  lost : Bool := false

/-- What is left of an entry that may be lost. -/
def unlost {α : Type} (lost : Bool) (entry : Option α) : Option α := if lost then none else entry

/-- The options with other flags. -/
def Opts.withFlags (opts : Opts) (flags : UInt32) : Opts := { opts with flags }

/-- The flags of a value that is to be compressed. -/
def withCompress (flags : UInt32) : UInt32 := flags ||| Opts.compress

/-- The flags of a value that is not. -/
def withoutCompress (flags : UInt32) : UInt32 := flags &&& ~~~Opts.compress

section Sequence

variable (api : Api) (zlib : Zlib) (key : Bytes) (mark : UInt32 → UInt32)

/-- The entry after the commands, whose flags are changed by `mark`. What the constructor or the
serialization of a command throws ends the sequence. -/
def storeAll : List StorageCall → Option Entry → Except Exn (Option Entry)
  | [], entry => .ok entry
  | call :: calls, entry =>
    let request := Request.storage call.name key call.data
      (call.opts.withFlags (mark call.opts.flags))
    match serve api zlib none request (unlost call.lost entry) with
    | (.error e, _) => .error e
    | (.ok _, effect) => storeAll calls (effect.apply call.fresh (unlost call.lost entry))

/-- What `client_template_t::get` returns for an entry. -/
def getResult (entry : Option Entry) : Except Exn Result :=
  let exchange request _ entry := ((serve api zlib none request entry).1, entry)
  let callback _ _ entry := (.ok ([], 0), entry)
  ((get key).run.exec (interpret exchange callback) entry).1

/-- Does a `get` after the commands find a value, and which data? The entry may be lost before. -/
def foundAfter (calls : List StorageCall) (lost : Bool) : Except Exn (Bool × Bytes) := do
  let entry ← storeAll api zlib key mark calls none
  let result ← getResult api zlib key (unlost lost entry)
  return (result.found, result.data)

end Sequence

/-! ## Pieces -/

section Pieces

variable (api : Api)

/-- Is a storage command carried out on the entry with this id, or on none? -/
def CarriedOut (name : StorageName) (opts : Opts) : Option CasId → Prop
  | none => ¬Conditional api name opts ∧ name ∈ [StorageName.set, .add]
  | some id =>
    (Conditional api name opts → id.val = opts.cas) ∧ (name = .add → Conditional api name opts)

instance (name : StorageName) (opts : Opts) : (id : Option CasId) →
    Decidable (CarriedOut api name opts id)
  | none => inferInstanceAs (Decidable (_ ∧ _))
  | some _ => inferInstanceAs (Decidable ((_ → _) ∧ (_ → _)))

/-- What a value is put together from, in the order in which it is stored; its flags are those of
the command that started it. -/
structure Pieces where
  parts : List Bytes
  flags : UInt32
  cas : CasId

/-- What a command makes of a value. -/
def Pieces.combined (call : StorageCall) (v : Pieces) : Pieces :=
  match call.name with
  | .append => ⟨v.parts ++ [call.data], v.flags, call.fresh⟩
  | .prepend => ⟨call.data :: v.parts, v.flags, call.fresh⟩
  | .set | .add | .replace | .cas => ⟨[call.data], call.opts.flags, call.fresh⟩

/-- The value after one command. -/
def Pieces.after (v : Option Pieces) (call : StorageCall) : Option Pieces :=
  let v := unlost call.lost v
  if CarriedOut api call.name call.opts (v.map Pieces.cas) then
    match v with
    | none => some ⟨[call.data], call.opts.flags, call.fresh⟩
    | some v => some (v.combined call)
  else v

/-- The value after the commands. -/
def pieces (calls : List StorageCall) : Option Pieces := calls.foldl (Pieces.after api) none

/-- What a server keeps of a value: its pieces one after the other, each packed by itself. -/
def Pieces.entry (pack : Bytes → Bytes) (mark : UInt32 → UInt32) (v : Pieces) : Entry where
  data := (v.parts.map pack).flatten
  flags := mark v.flags
  cas := v.cas

variable {api} {zlib : Zlib} {key : Bytes} {name : StorageName} {opts : Opts} {data : Bytes}

/-! ### What a server makes of a command -/

theorem carriedOut_withFlags {flags : UInt32} {id : Option CasId} :
    CarriedOut api name (opts.withFlags flags) id ↔ CarriedOut api name opts id := by
  cases id <;> rfl

variable (data) in
theorem verdict_carriedOut {entry : Option Entry}
    (h : CarriedOut api name opts (entry.map Entry.cas)) : verdict api name data opts entry =
      .ok ((entry.map (combined name data opts.flags)).getD (data, opts.flags)) := by
  cases entry with
  | none =>
    rw [verdict, if_neg h.1]
    have hname := h.2
    simp only [List.mem_cons, List.not_mem_nil, or_false] at hname
    rcases hname with rfl | rfl <;> rfl
  | some e =>
    have hcas : ¬(Conditional api name opts ∧ e.cas.val ≠ opts.cas) := fun hc => hc.2 (h.1 hc.1)
    have hadd : ¬(name = .add ∧ ¬Conditional api name opts) := fun hc => hc.2 (h.2 hc.1)
    rw [verdict, if_neg hcas, if_neg hadd]
    rfl

variable (data) in
theorem verdict_not_carriedOut {entry : Option Entry}
    (h : ¬CarriedOut api name opts (entry.map Entry.cas)) :
    ∃ code, verdict api name data opts entry = .error code := by
  cases hv : verdict api name data opts entry with
  | error code => exact ⟨code, rfl⟩
  | ok v =>
    refine absurd ?_ h
    cases entry with
    | none =>
      rw [verdict] at hv
      split_ifs at hv with hcond
      refine ⟨hcond, ?_⟩
      cases name <;> first | decide | cases hv
    | some e =>
      rw [verdict] at hv
      split_ifs at hv with hcas hadd
      refine ⟨fun hcond => ?_, fun hname => ?_⟩
      · by_contra hne
        exact hcas ⟨hcond, hne⟩
      · by_contra hcond
        exact hadd ⟨hname, hcond⟩

variable {pack : Bytes → Bytes} {mark : UInt32 → UInt32} {call : StorageCall}

variable (pack mark call) in
theorem combined_entry (v : Pieces) :
    combined call.name (pack call.data) (mark call.opts.flags) (v.entry pack mark) =
      (((v.combined call).entry pack mark).data, ((v.combined call).entry pack mark).flags) := by
  obtain ⟨name, data, opts, fresh, lost⟩ := call
  cases name <;> simp [combined, Pieces.combined, Pieces.entry]

variable (call) in
theorem cas_combined (v : Pieces) : (v.combined call).cas = call.fresh := by
  obtain ⟨name, data, opts, fresh, lost⟩ := call
  cases name <;> rfl

theorem combined_ne_nil (v : Pieces) : (v.combined call).parts ≠ [] := by
  unfold Pieces.combined
  split <;> simp

theorem mem_combined {v : Pieces} {d : Bytes} (h : d ∈ (v.combined call).parts) :
    d = call.data ∨ d ∈ v.parts := by
  unfold Pieces.combined at h
  split at h <;> simp at h <;> tauto

theorem mem_of_mem_unlost {α : Type} (lost : Bool) {v : Option α} {x : α}
    (h : x ∈ unlost lost v) : x ∈ v := by
  unfold unlost at h
  split_ifs at h
  · cases h
  · exact h

theorem unlost_map {α β : Type} (f : α → β) (lost : Bool) (v : Option α) :
    unlost lost (v.map f) = (unlost lost v).map f := by
  cases lost <;> rfl

/-- **One command**: the pieces say what is kept. -/
theorem serve_pieces (api : Api) (hkey : checkKey key = .ok ()) (hne : key ≠ [])
    (v : Option Pieces)
    (hpacked : packed zlib call.data (call.opts.withFlags (mark call.opts.flags)) =
      .ok (pack call.data)) :
    ∃ response effect,
      serve api zlib none (.storage call.name key call.data
        (call.opts.withFlags (mark call.opts.flags)))
        (unlost call.lost (v.map (Pieces.entry pack mark))) = (.ok response, effect) ∧
      effect.apply call.fresh (unlost call.lost (v.map (Pieces.entry pack mark))) =
        (Pieces.after api v call).map (Pieces.entry pack mark) := by
  rw [unlost_map]
  have hcas : ∀ v : Option Pieces, (v.map (Pieces.entry pack mark)).map Entry.cas =
      v.map Pieces.cas := fun v => by cases v <;> rfl
  unfold Pieces.after
  generalize unlost call.lost v = v
  have hiff : CarriedOut api call.name (call.opts.withFlags (mark call.opts.flags))
      ((v.map (Pieces.entry pack mark)).map Entry.cas) ↔
        CarriedOut api call.name call.opts (v.map Pieces.cas) := by
    rw [hcas]
    exact carriedOut_withFlags
  by_cases hout : CarriedOut api call.name call.opts (v.map Pieces.cas)
  · have hv := verdict_carriedOut (pack call.data) (hiff.mpr hout)
    refine ⟨_, _, serve_storage_ok hkey hne none hpacked hv, ?_⟩
    simp only [if_pos hout]
    cases v with
    | none => simp [Effect.apply, Pieces.entry, Opts.withFlags]
    | some v =>
      have hcombined := combined_entry pack mark call v
      simp only [Option.map_some, Option.getD_some, Opts.withFlags, hcombined, Effect.apply]
      rw [← cas_combined call v]
      rfl
  · obtain ⟨code, hv⟩ := verdict_not_carriedOut (pack call.data) (mt hiff.mp hout)
    refine ⟨_, _, serve_storage_error hkey hne none hpacked hv, ?_⟩
    simp only [if_neg hout]
    rfl

/-- **A sequence**: the pieces say what is kept. -/
theorem storeAll_pieces (api : Api) (mark : UInt32 → UInt32) (pack : Bytes → Bytes)
    (hkey : checkKey key = .ok ()) (hne : key ≠ []) (calls : List StorageCall)
    (hpacked : ∀ call ∈ calls, packed zlib call.data
      (call.opts.withFlags (mark call.opts.flags)) = .ok (pack call.data)) (v : Option Pieces) :
    storeAll api zlib key mark calls (v.map (Pieces.entry pack mark)) =
      .ok ((calls.foldl (Pieces.after api) v).map (Pieces.entry pack mark)) := by
  induction calls generalizing v with
  | nil => rfl
  | cons call calls ih =>
    obtain ⟨hcall, hcalls⟩ := List.forall_mem_cons.mp hpacked
    obtain ⟨response, effect, hserve, heffect⟩ := serve_pieces api hkey hne v hcall
    rw [storeAll]
    simp only [hserve, heffect]
    exact ih hcalls _

theorem serve_issued {number : Option Bytes} {entry : Option Entry} {response : Response}
    (h : (serve api zlib number (.storage name key data opts) entry).1 = .ok response) :
    checkKey key = .ok () ∧ ∃ stored, packed zlib data opts = .ok stored := by
  unfold serve at h
  cases hdata : packed zlib data opts with
  | error e =>
    cases api <;> simp [Api.command, Text.command, Binary.command, hdata, Except.bind] at h
  | ok stored =>
    cases hkey : checkKey key with
    | ok u => exact ⟨rfl, stored, rfl⟩
    | error e =>
      cases api <;>
        simp [Api.command, Text.command, Binary.command, hdata, Except.bind, Text.storageCommand,
          Text.keyed, Binary.storageCommand, Binary.keyed, hkey] at h

theorem storeAll_issued {calls : List StorageCall} {entry entry' : Option Entry}
    (h : storeAll api zlib key mark calls entry = .ok entry') : ∀ call ∈ calls,
      checkKey key = .ok () ∧
        ∃ stored, packed zlib call.data (call.opts.withFlags (mark call.opts.flags)) =
          .ok stored := by
  induction calls generalizing entry with
  | nil => exact nofun
  | cons call calls ih =>
    rw [storeAll] at h
    split at h
    · cases h
    · rename_i response effect hserve
      exact List.forall_mem_cons.mpr ⟨serve_issued (congrArg Prod.fst hserve), ih h⟩

theorem mem_after {v : Option Pieces} {w : Pieces} (hw : w ∈ Pieces.after api v call) :
    w ∈ v ∨ w.parts ≠ [] ∧ ∀ d ∈ w.parts, d = call.data ∨ ∃ u ∈ v, d ∈ u.parts := by
  unfold Pieces.after at hw
  have hleft : ∀ u ∈ unlost call.lost v, u ∈ v := fun u => mem_of_mem_unlost call.lost
  generalize unlost call.lost v = left at hw hleft
  simp only at hw
  split_ifs at hw
  · right
    cases left with
    | none =>
      cases hw
      simp
    | some u =>
      cases hw
      refine ⟨combined_ne_nil u, fun d hd => ?_⟩
      rcases mem_combined hd with rfl | hd
      · exact Or.inl rfl
      · exact Or.inr ⟨u, hleft u rfl, hd⟩
  · exact Or.inl (hleft w hw)

theorem pieces_parts {P : Bytes → Prop} {calls : List StorageCall}
    (hP : ∀ call ∈ calls, P call.data) {v : Pieces} (hv : v ∈ pieces api calls) :
    v.parts ≠ [] ∧ ∀ d ∈ v.parts, P d := by
  suffices h : ∀ v₀ : Option Pieces, (∀ v ∈ v₀, v.parts ≠ [] ∧ ∀ d ∈ v.parts, P d) →
      ∀ v ∈ calls.foldl (Pieces.after api) v₀, v.parts ≠ [] ∧ ∀ d ∈ v.parts, P d from
    h none nofun v hv
  clear hv
  induction calls with
  | nil => exact fun v₀ h => h
  | cons call calls ih =>
    obtain ⟨hcall, hcalls⟩ := List.forall_mem_cons.mp hP
    refine fun v₀ h => ih hcalls _ fun w hw => ?_
    rcases mem_after hw with hw | ⟨hne, hparts⟩
    · exact h w hw
    · refine ⟨hne, fun d hd => ?_⟩
      rcases hparts d hd with rfl | ⟨u, hu, hd⟩
      · exact hcall
      · exact (h u hu).2 d hd

end Pieces

/-! ## Reading the value -/

section Read

variable {api : Api} {zlib : Zlib} {key : Bytes}

theorem getResult_none (hkey : checkKey key = .ok ()) (hne : key ≠ []) :
    getResult api zlib key none = .ok { found := false } := by
  show (Program.exec _ (Program.call _ fun r => _) _).1 = _
  rw [Program.exec_call]
  simp only [interpret, serve_retrieve_ok api zlib hkey hne]
  rfl

theorem getResult_some (hkey : checkKey key = .ok ()) (hne : key ≠ []) (e : Entry) :
    getResult api zlib key (some e) = (unpack zlib e.flags e.data).map fun data =>
      { found := true, data, flags := e.flags } := by
  show (Program.exec _ (Program.call _ fun r => _) _).1 = _
  rw [Program.exec_call]
  simp only [interpret, serve_retrieve_ok api zlib hkey hne, retrieved]
  cases unpack zlib e.flags e.data <;> rfl

theorem getResult_ok {entry : Option Entry} {result : Result}
    (h : getResult api zlib key entry = .ok result) : checkKey key = .ok () ∧ key ≠ [] := by
  cases hkey : checkKey key with
  | error e =>
    have hthrown : getResult api zlib key entry = .error e := by
      show (Program.exec _ (Program.call _ fun r => _) _).1 = _
      rw [Program.exec_call]
      simp only [interpret, serve_retrieve_error hkey]
      rfl
    cases hthrown.symm.trans h
  | ok u =>
    refine ⟨rfl, ?_⟩
    rintro rfl
    have hthrown : getResult api zlib [] entry =
        .error (Response.exception { code := malformed api }) := by
      show (Program.exec _ (Program.call _ fun r => _) _).1 = _
      rw [Program.exec_call]
      simp only [interpret, serve_retrieve_nil]
      cases api <;> rfl
    cases hthrown.symm.trans h

theorem compressed_withCompress (flags : UInt32) : compressed (withCompress flags) = true := by
  have h : withCompress flags &&& Opts.compress = Opts.compress := by
    apply UInt32.toBitVec_inj.mp
    ext i hi
    simp [withCompress]
    grind
  rw [compressed, h]
  decide

theorem compressed_withoutCompress (flags : UInt32) :
    compressed (withoutCompress flags) = false := by
  have h : withoutCompress flags &&& Opts.compress = 0 := by
    rw [withoutCompress, UInt32.and_assoc, UInt32.not_and_self, UInt32.and_zero]
  rw [compressed, h]
  decide

theorem packed_withCompress (data : Bytes) (opts : Opts) :
    packed zlib data (opts.withFlags (withCompress opts.flags)) = zlib.compress data :=
  if_pos (compressed_withCompress opts.flags)

theorem packed_withoutCompress (zlib : Zlib) (data : Bytes) (opts : Opts) :
    packed zlib data (opts.withFlags (withoutCompress opts.flags)) = .ok data :=
  if_neg (Bool.eq_false_iff.mp (compressed_withoutCompress opts.flags))

theorem foundAfter_eq (hkey : checkKey key = .ok ()) (hne : key ≠ []) {mark : UInt32 → UInt32}
    {calls : List StorageCall} {v : Option Pieces} {pack : Bytes → Bytes}
    (hstored : storeAll api zlib key mark calls none = .ok (v.map (Pieces.entry pack mark)))
    (lost : Bool) : foundAfter api zlib key mark calls lost =
      match unlost lost v with
      | none => .ok (false, [])
      | some w => (unpack zlib (mark w.flags) (w.parts.map pack).flatten).map (true, ·) := by
  rw [foundAfter, hstored]
  simp only [bind, Except.bind, unlost_map]
  cases unlost lost v with
  | none =>
    rw [Option.map_none, getResult_none hkey hne]
    rfl
  | some w =>
    rw [Option.map_some, getResult_some hkey hne]
    simp only [Pieces.entry]
    cases unpack zlib (mark w.flags) (w.parts.map pack).flatten <;> rfl

/-- The pieces that were compressed, each by itself: only the first is read, and it must not be
empty. -/
theorem unpack_withCompress (hz : zlib.Delimited) (flags : UInt32) {pack : Bytes → Bytes}
    {d : Bytes} (hd : zlib.compress d = .ok (pack d)) (parts : List Bytes) :
    unpack zlib (withCompress flags) ((d :: parts).map pack).flatten =
      if d = [] then .error .undefined else .ok d := by
  rw [unpack, if_pos (compressed_withCompress flags)]
  split_ifs with hempty
  · subst hempty
    exact Zlib.uncompress_compress_nil hd _
  · exact Zlib.uncompress_stream hz hempty hd _

theorem unpack_withoutCompress (flags : UInt32) (parts : List Bytes) :
    unpack zlib (withoutCompress flags) (parts.map id).flatten = .ok parts.flatten := by
  rw [unpack, compressed_withoutCompress, if_neg Bool.false_ne_true, List.map_id]

/-- A `get` after the commands returns the same with and without the flag. -/
def Transparent (api : Api) (zlib : Zlib) (key : Bytes) (calls : List StorageCall) (lost : Bool) :
    Prop :=
  ∃ result, foundAfter api zlib key withCompress calls lost = .ok result ∧
    foundAfter api zlib key withoutCompress calls lost = .ok result

/-- The first piece is not empty, and every other one is. -/
def Pieces.OnlyFirst (v : Pieces) : Prop := v.parts.head? ≠ some [] ∧ ∀ d ∈ v.parts.tail, d = []

/-- **Compression is transparent** exactly when the key is valid and not empty and the value is its
first piece, which has a byte in it. -/
theorem transparent_iff (hz : zlib.Delimited) {calls : List StorageCall} {entry : Option Entry}
    (hissued : storeAll api zlib key withCompress calls none = .ok entry) (lost : Bool) :
    Transparent api zlib key calls lost ↔
      (checkKey key = .ok () ∧ key ≠ []) ∧
        ∀ v ∈ unlost lost (pieces api calls), v.OnlyFirst := by
  by_cases hvalid : checkKey key = .ok () ∧ key ≠ []
  swap
  · refine iff_of_false ?_ fun h => hvalid h.1
    rintro ⟨result, hfound, -⟩
    rw [foundAfter, hissued] at hfound
    cases hresult : getResult api zlib key (unlost lost entry) with
    | error e => simp [bind, Except.bind, hresult] at hfound
    | ok r => exact hvalid (getResult_ok hresult)
  rw [and_iff_right hvalid]
  obtain ⟨hkey, hkne⟩ := hvalid
  -- every piece was compressed by itself
  let pack : Bytes → Bytes := fun d => (zlib.compress d).toOption.getD []
  have hpack : ∀ call ∈ calls, zlib.compress call.data = .ok (pack call.data) := by
    intro call hcall
    obtain ⟨-, stored, hstored⟩ := storeAll_issued hissued call hcall
    rw [packed_withCompress] at hstored
    simp only [pack, hstored, Except.toOption, Option.getD_some]
  have hwith := storeAll_pieces api withCompress pack hkey hkne calls
    (fun call hcall => (packed_withCompress call.data call.opts).trans (hpack call hcall)) none
  have hwithout := storeAll_pieces api withoutCompress id hkey hkne calls
    (fun call _ => packed_withoutCompress zlib call.data call.opts) none
  have hparts : ∀ v ∈ pieces api calls, v.parts ≠ [] ∧ ∀ d ∈ v.parts,
      zlib.compress d = .ok (pack d) := fun v => pieces_parts hpack
  rw [Transparent, foundAfter_eq hkey hkne hwith lost, foundAfter_eq hkey hkne hwithout lost]
  have hleft := fun v hv => hparts v (mem_of_mem_unlost lost hv)
  rw [← pieces]
  generalize unlost lost (pieces api calls) = v at hleft
  cases v with
  | none => exact iff_of_true ⟨_, rfl, rfl⟩ nofun
  | some v =>
    obtain ⟨hne, hcompressed⟩ := hleft v rfl
    obtain ⟨d, parts, hd⟩ := List.exists_cons_of_ne_nil hne
    have hfirst : zlib.compress d = .ok (pack d) := hcompressed d (by simp [hd])
    simp only [hd, unpack_withCompress hz v.flags hfirst, unpack_withoutCompress]
    by_cases hempty : d = []
    · simp [hempty, Except.map, Pieces.OnlyFirst, hd]
    · simp [hempty, Except.map, Pieces.OnlyFirst, hd]

end Read

/-! ## Commands on two values -/

/-- A value, and something that is appended to it. -/
def setAppend (first second : Bytes) : List StorageCall :=
  [{ name := .set, data := first, fresh := ⟨1, by decide⟩ },
    { name := .append, data := second, fresh := ⟨2, by decide⟩ }]

/-- What was appended is lost: `get` finds "a" and not "ab". -/
theorem not_transparent_setAppend : Zlib.counted.Delimited ∧
    (storeAll .text .counted (ascii "k") withCompress (setAppend (ascii "a") (ascii "b"))
      none).isOk = true ∧
    foundAfter .text .counted (ascii "k") withCompress (setAppend (ascii "a") (ascii "b")) false =
      .ok (true, ascii "a") ∧
    foundAfter .text .counted (ascii "k") withoutCompress (setAppend (ascii "a") (ascii "b"))
      false = .ok (true, ascii "ab") ∧
    ¬Transparent .text .counted (ascii "k") (setAppend (ascii "a") (ascii "b")) false := by
  have hwith : foundAfter .text .counted (ascii "k") withCompress
      (setAppend (ascii "a") (ascii "b")) false = .ok (true, ascii "a") := by decide +kernel
  have hwithout : foundAfter .text .counted (ascii "k") withoutCompress
      (setAppend (ascii "a") (ascii "b")) false = .ok (true, ascii "ab") := by decide +kernel
  refine ⟨Zlib.delimited_counted, by decide +kernel, hwith, hwithout, ?_⟩
  rintro ⟨result, hr, hr'⟩
  rw [hwith] at hr
  rw [hwithout, ← hr] at hr'
  exact absurd hr' (by decide)

theorem transparent_setAppend :
    Transparent .binary .counted (ascii "k") (setAppend (ascii "a") []) false := by
  have hissued : storeAll .binary .counted (ascii "k") withCompress (setAppend (ascii "a") [])
      none = .ok (some ⟨[1, 0, 0, 0, 97, 0, 0, 0, 0], Opts.compress, ⟨2, by decide⟩⟩) := by
    decide +kernel
  refine (transparent_iff Zlib.delimited_counted hissued false).mpr
    ⟨⟨by decide, by decide⟩, fun v hv => ?_⟩
  cases hv
  refine ⟨by decide, fun d hd => ?_⟩
  simpa [Pieces.combined] using hd

end McacheClient
