import McacheClient.Proto.Text

/-!
# What a server reads

The text grammar on the side of a server: a line up to the first CRLF, split into words at spaces,
and for storage commands a block of data of the announced size.

* `WireCommand`, `readCommand`: a command as the server reads it, and the bytes after it;
* `wire`: the command that a request stands for;
* `readLine_line`: the words of a serialized line come back;
* `key_ne_nil`: the server never reads an empty key;
* **`recovers_iff`**: the server reads the one command that was serialized exactly when its key is
  not empty and, where it insists on it, the cas of `cas` is there.
-/

namespace McacheClient.Text

open Numeral

/-- A command as a server reads it. -/
inductive WireCommand
  | retrieve (name key : Bytes)
  | storage (name key : Bytes) (flags : ℕ) (expiration : ℤ) (data : Bytes) (cas : ℕ)
  | counter (name key : Bytes) (value : ℕ)
  | delete (key : Bytes)
  | flushAll (expiration : ℕ)
  deriving DecidableEq

def WireCommand.key : WireCommand → Option Bytes
  | retrieve _ key | storage _ key .. | counter _ key _ | delete key => some key
  | flushAll _ => none

/-! ## Reading a command -/

/-- A word of digits. -/
def readNat (word : Bytes) : Option ℕ :=
  if word ≠ [] ∧ word.all isDigit then some (ofDecimal word) else none

/-- A word of digits after an optional sign. -/
def readInt : Bytes → Option ℤ
  | 45 :: word => (readNat word).map fun n : ℕ => -(n : ℤ)
  | word => (readNat word).map Int.ofNat

/-- The words of a line up to the first CRLF, and what follows it. -/
def readLine (input : Bytes) : Option (List Bytes × Bytes) :=
  (List.cutAfter crlf input).map fun (line, rest) => (line.dropLast.dropLast.words 32, rest)

/-- A block of data of a given size before CRLF. -/
def readBlock (size : ℕ) (input : Bytes) : Option (Bytes × Bytes) :=
  if crlf.isPrefixOf (input.drop size) then
    some (input.take size, (input.drop size).drop crlf.length)
  else none

/-- The optional `<cas unique>`. A strict server insists on it when the command is `cas`. -/
def readUnique (strict : Bool) (name : Bytes) : List Bytes → Option ℕ
  | [] => if strict && name == storageName .cas then none else some 0
  | [cas] => readNat cas
  | _ => none

/-- The arguments of a storage command, `<key> <flags> <exptime> <bytes> [<cas unique>]`, and its
data. -/
def readStorage (strict : Bool) (name : Bytes) (args : List Bytes) (input : Bytes) :
    Option (WireCommand × Bytes) :=
  match args with
  | key :: flags :: expiration :: bytes :: unique => do
    let flags ← readNat flags
    let expiration ← readInt expiration
    let bytes ← readNat bytes
    let cas ← readUnique strict name unique
    let (data, rest) ← readBlock bytes input
    return (.storage name key flags expiration data cas, rest)
  | _ => none

/-- The command that a server reads, and the bytes that it leaves unread. -/
def readCommand (strict : Bool) (input : Bytes) : Option (WireCommand × Bytes) :=
  match readLine input with
  | some (name :: args, rest) =>
    if name = retrieveName .get ∨ name = retrieveName .gets then
      match args with
      | [key] => some (.retrieve name key, rest)
      | _ => none
    else if name ∈ [StorageName.set, .add, .replace, .append, .prepend, .cas].map storageName then
      readStorage strict name args rest
    else if name ∈ [counterName .incr, counterName .decr, ascii "touch"] then
      match args with
      | [key, value] => (readNat value).map fun value => (.counter name key value, rest)
      | _ => none
    else if name = ascii "delete" then
      match args with
      | [key] => some (.delete key, rest)
      | _ => none
    else if name = ascii "flush_all" then
      match args with
      | [] => some (.flushAll 0, rest)
      | [expiration] => (readNat expiration).map fun expiration => (.flushAll expiration, rest)
      | _ => none
    else none
  | _ => none

/-! ## Serializing and reading back -/

/-- The command that a request stands for. -/
def wire (zlib : Zlib) : Request → Except Exn WireCommand
  | .retrieve name key => .ok (.retrieve (retrieveName name) key)
  | .storage name key data opts => do
    let data ← packed zlib data opts
    return .storage (storageName name) key opts.flags.toNat opts.expiration.toInt data
      opts.cas.toNat
  | .counter name key value _ => .ok (.counter (counterName name) key value.toNat)
  | .touch key expiration => .ok (.counter (ascii "touch") key expiration.toNat)
  | .delete key => .ok (.delete key)
  | .flushAll expiration => .ok (.flushAll expiration.toNat)

/-- The server reads exactly one command from the bytes, the one that was requested. -/
def Recovers (strict : Bool) (zlib : Zlib) (request : Request) (bytes : Bytes) : Prop :=
  ∃ command, wire zlib request = .ok command ∧ readCommand strict bytes = some (command, [])

/-- The key is not empty, and where a strict server reads `cas`, the cas is not 0. -/
def Readable (strict : Bool) : Request → Prop
  | .retrieve _ key | .counter _ key .. | .touch key _ | .delete key => key ≠ []
  | .storage name key _ opts => key ≠ [] ∧ (strict = true → name = .cas → opts.cas ≠ 0)
  | .flushAll _ => True

theorem readNat_eq_some {word : Bytes} {n : ℕ} :
    readNat word = some n ↔ word ≠ [] ∧ (∀ c ∈ word, isDigit c = true) ∧ ofDecimal word = n := by
  rw [readNat, Option.ite_none_right_eq_some, Option.some.injEq, List.all_eq_true, and_assoc]

theorem readNat_decimal (n : ℕ) : readNat (decimal n) = some n :=
  readNat_eq_some.mpr ⟨decimal_ne_nil n, fun _ => isDigit_of_mem_decimal, ofDecimal_decimal n⟩

theorem readInt_of_head {word : Bytes} (h : ∀ c ∈ word.head?, c ≠ 45) :
    readInt word = (readNat word).map Int.ofNat := by
  cases word with
  | nil => rfl
  | cons c word =>
    unfold readInt
    split
    · rename_i heq
      exact absurd (List.cons.inj heq).1 (h c rfl)
    · rfl

theorem readInt_decimalInt (z : ℤ) : readInt (decimalInt z) = some z := by
  unfold decimalInt
  split_ifs with hz
  · rw [readInt, readNat_decimal, Option.map_some]
    exact congrArg some (by omega)
  · have hhead : ∀ c ∈ (decimal z.natAbs).head?, c ≠ 45 := fun c hc h => by
      have := isDigit_of_mem_decimal (List.mem_of_mem_head? hc)
      rw [h] at this
      cases this
    rw [readInt_of_head hhead, readNat_decimal, Option.map_some]
    exact congrArg some (Int.natAbs_of_nonneg (not_lt.mp hz))

theorem readBlock_append (data rest : Bytes) :
    readBlock data.length (data ++ crlf ++ rest) = some (data, rest) := by
  have hp : crlf.isPrefixOf (crlf ++ rest) = true := by simp
  rw [readBlock, List.append_assoc, List.drop_left, if_pos hp, List.take_left, List.drop_left]

/-! ## Lines -/

/-- A word of a serialized line. -/
def IsWord (w : Bytes) : Prop := w ≠ [] ∧ ∀ c ∈ w, c ≠ 13 ∧ c ≠ 32

instance (w : Bytes) : Decidable (IsWord w) :=
  decidable_of_iff (w ≠ [] ∧ w.all fun c => c ≠ 13 ∧ c ≠ 32) (by simp [IsWord])

theorem isWord_decimal (n : ℕ) : IsWord (decimal n) := by
  refine ⟨decimal_ne_nil n, fun c hc => ?_⟩
  have := isDigit_of_mem_decimal hc
  constructor <;> rintro rfl <;> cases this

theorem isWord_decimalInt (z : ℤ) : IsWord (decimalInt z) := by
  unfold decimalInt
  split_ifs with hz
  · refine ⟨List.cons_ne_nil _ _, fun c hc => ?_⟩
    rcases List.mem_cons.mp hc with rfl | hc
    · decide
    · exact (isWord_decimal _).2 c hc
  · exact isWord_decimal _

theorem isWord_key {key : Bytes} (h : checkKey key = .ok ()) (hne : key ≠ []) : IsWord key := by
  refine ⟨hne, fun c hc => ?_⟩
  have hchar := (checkKey_ok.mp h).2 c hc
  constructor <;> rintro rfl <;> revert hchar <;> decide

theorem isWord_retrieveName (name : RetrieveName) : IsWord (retrieveName name) := by
  cases name <;> decide

theorem isWord_storageName (name : StorageName) : IsWord (storageName name) := by
  cases name <;> decide

theorem cr_notMem {words : List Bytes} (hw : ∀ w ∈ words, IsWord w) :
    (13 : UInt8) ∉ [32].intercalate words := fun h => by
  rcases List.mem_intercalate h with h | ⟨w, hmem, h⟩
  · exact absurd h (by decide)
  · exact ((hw w hmem).2 13 h).1 rfl

/-- **The words of a line come back.** -/
theorem readLine_line {words : List Bytes} (hne : words ≠ []) (hw : ∀ w ∈ words, IsWord w)
    (rest : Bytes) : readLine (line words ++ rest) = some (words, rest) := by
  have hcut : List.cutAfter crlf (line words ++ rest) = some (line words, rest) :=
    List.cutAfter_append (cr_notMem hw) [10] rest
  have hline : (line words).dropLast.dropLast = [32].intercalate words := by
    simp [line, crlf]
  have hfilter : (words.filter fun w => w ≠ []) = words :=
    List.filter_eq_self.mpr fun w hmem => decide_eq_true (hw w hmem).1
  rw [readLine, hcut, Option.map_some]
  simp only
  rw [hline, List.words_intercalate (fun w hmem h => ((hw w hmem).2 32 h).2 rfl) hne, hfilter]

/-! ## Keys -/

theorem ne_nil_of_readLine {input rest : Bytes} {words : List Bytes}
    (h : readLine input = some (words, rest)) : ∀ w ∈ words, w ≠ [] := by
  obtain ⟨_, _, hcut⟩ := Option.map_eq_some_iff.mp h
  cases hcut
  exact fun w => List.ne_nil_of_mem_words

theorem key_mem_of_readStorage {strict : Bool} {name input rest : Bytes} {args : List Bytes}
    {command : WireCommand} (h : readStorage strict name args input = some (command, rest)) :
    ∀ key ∈ command.key, key ∈ args := by
  unfold readStorage at h
  split at h
  · simp only [Option.bind_eq_bind, Option.bind_eq_some_iff] at h
    obtain ⟨_, -, _, -, _, -, _, -, _, -, h⟩ := h
    cases h
    exact fun key hkey => Option.mem_some_iff.mp hkey ▸ List.mem_cons_self
  · cases h

theorem key_mem_of_readCommand {strict : Bool} {input rest : Bytes} {command : WireCommand}
    (h : readCommand strict input = some (command, rest)) :
    ∃ words rest', readLine input = some (words, rest') ∧ ∀ key ∈ command.key, key ∈ words := by
  unfold readCommand at h
  split at h
  · rename_i name args rest' hline
    refine ⟨name :: args, rest', hline, fun key hkey => List.mem_cons_of_mem name ?_⟩
    split_ifs at h
    · split at h
      · cases h
        exact Option.mem_some_iff.mp hkey ▸ List.mem_cons_self
      · cases h
    · exact key_mem_of_readStorage h key hkey
    · split at h
      · obtain ⟨_, -, h⟩ := Option.map_eq_some_iff.mp h
        cases h
        exact Option.mem_some_iff.mp hkey ▸ List.mem_cons_self
      · cases h
    · split at h
      · cases h
        exact Option.mem_some_iff.mp hkey ▸ List.mem_cons_self
      · cases h
    · split at h
      · cases h
        cases hkey
      · obtain ⟨_, -, h⟩ := Option.map_eq_some_iff.mp h
        cases h
        cases hkey
      · cases h
  · cases h

theorem key_ne_nil {strict : Bool} {input rest : Bytes} {command : WireCommand}
    (h : readCommand strict input = some (command, rest)) : ∀ key ∈ command.key, key ≠ [] := by
  obtain ⟨words, rest', hline, hmem⟩ := key_mem_of_readCommand h
  exact fun key hkey => ne_nil_of_readLine hline key (hmem key hkey)

/-! ## Reading back what was serialized -/

theorem keyed_ok {key request bytes : Bytes} (h : keyed key request = .ok bytes) :
    checkKey key = .ok () ∧ bytes = request := by
  unfold keyed at h
  cases hkey : checkKey key with
  | error e => rw [hkey] at h; cases h
  | ok u => rw [hkey] at h; cases h; exact ⟨rfl, rfl⟩

theorem readLine_request {key bytes : Bytes} {words : List Bytes}
    (hser : keyed key (line words) = .ok bytes) (hne : key ≠ []) (hmem : words ≠ [])
    (hw : ∀ w ∈ words, w = key ∨ IsWord w) : readLine bytes = some (words, []) := by
  obtain ⟨hkey, rfl⟩ := keyed_ok hser
  rw [← List.append_nil (line words)]
  refine readLine_line hmem (fun w h => ?_) []
  rcases hw w h with rfl | hword
  · exact isWord_key hkey hne
  · exact hword

theorem readCommand_retrieveCommand {strict : Bool} {zlib : Zlib} {name : RetrieveName}
    {key bytes : Bytes}
    (hser : (retrieveCommand zlib (retrieveName name) key).serialize = .ok bytes) (hne : key ≠ []) :
    readCommand strict bytes = some (.retrieve (retrieveName name) key, []) := by
  have hline : readLine bytes = some ([retrieveName name, key], []) :=
    readLine_request hser hne (List.cons_ne_nil _ _) (by simp [isWord_retrieveName])
  rw [readCommand, hline]
  cases name <;> rfl

theorem readCommand_incrDecrCommand {strict : Bool} {name key bytes : Bytes} {value : UInt64}
    (hser : (incrDecrCommand name key value).serialize = .ok bytes)
    (hname : name ∈ [counterName .incr, counterName .decr, ascii "touch"]) (hne : key ≠ []) :
    readCommand strict bytes = some (.counter name key value.toNat, []) := by
  have hword : ∀ w ∈ [counterName .incr, counterName .decr, ascii "touch"], IsWord w := by
    decide
  have hline : readLine bytes = some ([name, key, decimal value.toNat], []) :=
    readLine_request hser hne (List.cons_ne_nil _ _) (by simp [hword name hname, isWord_decimal])
  have hvalue :
      (readNat (decimal value.toNat)).map (fun n => (WireCommand.counter name key n, [])) =
        some (.counter name key value.toNat, ([] : Bytes)) := by rw [readNat_decimal]; rfl
  rw [readCommand, hline]
  simp only [List.mem_cons, List.not_mem_nil, or_false] at hname
  rcases hname with rfl | rfl | rfl <;> exact hvalue

theorem readCommand_deleteCommand {strict : Bool} {key bytes : Bytes}
    (hser : (deleteCommand key).serialize = .ok bytes) (hne : key ≠ []) :
    readCommand strict bytes = some (.delete key, []) := by
  have hword : IsWord (ascii "delete") := by decide
  have hline : readLine bytes = some ([ascii "delete", key], []) :=
    readLine_request hser hne (List.cons_ne_nil _ _) (by simp [hword])
  rw [readCommand, hline]
  rfl

theorem readCommand_flushAllCommand {strict : Bool} {expiration : UInt32} {bytes : Bytes}
    (hser : (flushAllCommand expiration).serialize = .ok bytes) :
    readCommand strict bytes = some (.flushAll expiration.toNat, []) := by
  have hword : IsWord (ascii "flush_all") := by decide
  cases hser
  by_cases hzero : expiration = 0
  · have hline := readLine_line (List.cons_ne_nil (ascii "flush_all") []) (by simp [hword]) []
    rw [List.append_nil] at hline
    rw [if_neg (not_not.mpr hzero), readCommand, hline, hzero]
    rfl
  · have hline := readLine_line
      (List.cons_ne_nil (ascii "flush_all") [decimal expiration.toNat])
      (by simp [hword, isWord_decimal]) []
    have hn : (readNat (decimal expiration.toNat)).map (fun n => (WireCommand.flushAll n, [])) =
        some (.flushAll expiration.toNat, ([] : Bytes)) := by rw [readNat_decimal]; rfl
    rw [List.append_nil] at hline
    rw [if_pos hzero, readCommand, hline]
    exact hn

theorem readStorage_append (strict : Bool) (name key : Bytes) (flags : ℕ) (expiration : ℤ)
    (unique : List Bytes) (data rest : Bytes) :
    readStorage strict name
        (key :: decimal flags :: decimalInt expiration :: decimal data.length :: unique)
        (data ++ crlf ++ rest) =
      (readUnique strict name unique).map fun cas =>
        (.storage name key flags expiration data cas, rest) := by
  simp only [readStorage, readNat_decimal, readInt_decimalInt, Option.bind_eq_bind,
    Option.bind_some, readBlock_append]
  cases readUnique strict name unique <;> rfl

theorem readCommand_storageCommand {strict : Bool} {name : StorageName} {key data bytes : Bytes}
    {opts : Opts} (hser : (storageCommand (storageName name) key data opts).serialize = .ok bytes)
    (hne : key ≠ []) :
    readCommand strict bytes =
      (readUnique strict (storageName name)
        (if opts.cas ≠ 0 then [decimal opts.cas.toNat] else [])).map fun cas =>
        (.storage (storageName name) key opts.flags.toNat opts.expiration.toInt data cas, []) := by
  obtain ⟨hkey, rfl⟩ := keyed_ok hser
  have hunique : ∀ w ∈ if opts.cas ≠ 0 then [decimal opts.cas.toNat] else [], IsWord w := by
    intro w hmem
    split_ifs at hmem
    · exact List.mem_singleton.mp hmem ▸ isWord_decimal _
    · cases hmem
  have hw : ∀ w ∈ storageName name :: key :: decimal opts.flags.toNat ::
      decimalInt opts.expiration.toInt :: decimal data.length ::
        if opts.cas ≠ 0 then [decimal opts.cas.toNat] else [], IsWord w := by
    simp only [List.forall_mem_cons]
    exact ⟨isWord_storageName name, isWord_key hkey hne, isWord_decimal _, isWord_decimalInt _,
      isWord_decimal _, hunique⟩
  have hread := readStorage_append strict (storageName name) key opts.flags.toNat
    opts.expiration.toInt (if opts.cas ≠ 0 then [decimal opts.cas.toNat] else []) data []
  rw [List.append_nil] at hread
  rw [← hread, List.append_assoc, readCommand, readLine_line (List.cons_ne_nil _ _) hw]
  cases name <;> rfl

theorem readUnique_cas {strict : Bool} {name : StorageName} (cas : UInt64) :
    readUnique strict (storageName name) (if cas ≠ 0 then [decimal cas.toNat] else []) =
      if strict = true ∧ name = .cas ∧ cas = 0 then none else some cas.toNat := by
  have hname : (storageName name == storageName .cas) = decide (name = .cas) := by
    cases name <;> rfl
  by_cases hcas : cas = 0
  · rw [if_neg (not_not.mpr hcas), readUnique, hname, hcas]
    simp
  · rw [if_pos hcas, readUnique, readNat_decimal, if_neg fun h => hcas h.2.2]

/-- **A serialized request is read as it was meant** by a server when its key is not empty. -/
theorem recovers_of_readable {strict : Bool} {zlib : Zlib} {request : Request} {command : Command}
    {bytes : Bytes} (hcommand : Text.command zlib request = .ok command)
    (hser : command.serialize = .ok bytes) (h : Readable strict request) :
    Recovers strict zlib request bytes := by
  cases request with
  | retrieve name key =>
    cases hcommand
    exact ⟨_, rfl, readCommand_retrieveCommand hser h⟩
  | storage name key data opts =>
    cases hdata : packed zlib data opts with
    | error e => rw [Text.command, hdata] at hcommand; cases hcommand
    | ok stored =>
      rw [Text.command, hdata] at hcommand
      cases hcommand
      have hcas : ¬(strict = true ∧ name = .cas ∧ opts.cas = 0) := fun hc => h.2 hc.1 hc.2.1 hc.2.2
      refine ⟨_, by rw [wire, hdata]; rfl, ?_⟩
      rw [readCommand_storageCommand hser h.1, readUnique_cas, if_neg hcas, Option.map_some]
  | counter name key value opts =>
    rw [Text.command] at hcommand
    split_ifs at hcommand
    cases hcommand
    exact ⟨_, rfl, readCommand_incrDecrCommand hser (by cases name <;> decide) h⟩
  | touch key expiration =>
    cases hcommand
    exact ⟨_, rfl, readCommand_incrDecrCommand hser (by decide) h⟩
  | delete key =>
    cases hcommand
    exact ⟨_, rfl, readCommand_deleteCommand hser h⟩
  | flushAll expiration =>
    cases hcommand
    exact ⟨_, rfl, readCommand_flushAllCommand hser⟩

theorem packed_of_wire {zlib : Zlib} {name : StorageName} {key data : Bytes} {opts : Opts}
    {command : WireCommand} (h : wire zlib (.storage name key data opts) = .ok command) :
    ∃ stored, packed zlib data opts = .ok stored ∧
      command = .storage (storageName name) key opts.flags.toNat opts.expiration.toInt stored
        opts.cas.toNat := by
  rw [wire] at h
  cases hdata : packed zlib data opts with
  | error e => rw [hdata] at h; cases h
  | ok stored => rw [hdata] at h; cases h; exact ⟨stored, rfl, rfl⟩

theorem readable_of_recovers {strict : Bool} {zlib : Zlib} {request : Request} {command : Command}
    {bytes : Bytes} (hcommand : Text.command zlib request = .ok command)
    (hser : command.serialize = .ok bytes) (h : Recovers strict zlib request bytes) :
    Readable strict request := by
  obtain ⟨read, hwire, hread⟩ := h
  have hkey := key_ne_nil hread
  cases request with
  | retrieve name key => cases hwire; exact hkey key rfl
  | storage name key data opts =>
    obtain ⟨stored, hdata, rfl⟩ := packed_of_wire hwire
    have hne : key ≠ [] := hkey key rfl
    refine ⟨hne, fun hstrict hname hcas => ?_⟩
    rw [Text.command, hdata] at hcommand
    cases hcommand
    rw [readCommand_storageCommand hser hne, readUnique_cas, if_pos ⟨hstrict, hname, hcas⟩] at hread
    cases hread
  | counter name key value opts => cases hwire; exact hkey key rfl
  | touch key expiration => cases hwire; exact hkey key rfl
  | delete key => cases hwire; exact hkey key rfl
  | flushAll expiration => trivial

/-- **When a request cannot be misread.** Whatever its data and options are, a request that
`serialize` does not refuse is read as the one command that it is, with no byte left, exactly when
its key is not empty and a server that insists on the cas of `cas` gets one. -/
theorem recovers_iff (strict : Bool) {zlib : Zlib} {request : Request} {command : Command}
    {bytes : Bytes} (hcommand : Text.command zlib request = .ok command)
    (hser : command.serialize = .ok bytes) :
    Recovers strict zlib request bytes ↔ Readable strict request :=
  ⟨readable_of_recovers hcommand hser, recovers_of_readable hcommand hser⟩

/-- A request whose data has a line of its own. -/
def twoLines (key : Bytes) : Request :=
  .storage .set key (ascii "x\r\nflush_all") { cas := 1 }

theorem recovers_iff_twoLines :
    Recovers true .plain (twoLines (ascii "k")) (ascii "set k 0 0 12 1\r\nx\r\nflush_all\r\n") :=
  have hcommand : Text.command .plain (twoLines (ascii "k")) = .ok (storageCommand _ _ _ _) := rfl
  (recovers_iff true hcommand (by decide +kernel)).mpr ⟨by decide, nofun⟩

/-- With an empty key the numbers of the line move to the left: the server takes the flags for the
key and the cas for the size, and what is left of the data is a second command. -/
theorem not_recovers_emptyKey :
    ∃ command bytes, Text.command .plain (twoLines []) = .ok command ∧
      command.serialize = .ok bytes ∧ ∀ strict, ¬Recovers strict .plain (twoLines []) bytes ∧
      readCommand strict bytes =
        some (.storage (ascii "set") (ascii "0") 0 12 (ascii "x") 0, ascii "flush_all\r\n") ∧
      readCommand strict (ascii "flush_all\r\n") = some (.flushAll 0, []) := by
  have hser : (storageCommand (ascii "set") [] (ascii "x\r\nflush_all") { cas := 1 }).serialize =
      .ok (ascii "set  0 0 12 1\r\nx\r\nflush_all\r\n") := by decide +kernel
  refine ⟨_, _, rfl, hser, fun strict => ?_⟩
  refine ⟨fun h => (readable_of_recovers rfl hser h).1 rfl, ?_, ?_⟩
  · cases strict <;> decide +kernel
  · cases strict <;> decide +kernel

end McacheClient.Text
