import McacheClient.Server.Complete

/-!
# Objects of Python

What the Python module stores for an object, and the object that it makes of what is stored.

* `Object`, `Interpreter`: objects, and what the module uses of the interpreter;
* `Raised`: what a method of the module raises;
* `toString`, `dataFromString`: `to_string` and `data_from_string`, which mark the type in the
  flags;
* `Options`, `Found`: the dictionaries that options come in, and those that are returned;
* `atoll_spaces`: a number may be followed by spaces;
* `Encodes`: the texts of an object;
* **`dataFromString_of_encodes`**, **`encodes_toString`**: an object is read back, except for what
  its type cannot keep.
-/

namespace McacheClient.Python

open Numeral

/-- Objects as far as `to_string` tells them apart: `R` are the floats, and `V` the objects that are
pickled. A `bool` is an integer for Python. -/
inductive Object (R V : Type)
  | str (text : String)
  | float (x : R)
  | bool (b : Bool)
  | int (n : ℤ)
  | other (v : V)
  deriving DecidableEq

/-- What the module uses of Python 3 and of the C library: `None`, the conversion `%f`, `strtold`
and the functions of the pickle module. -/
structure Interpreter (R V : Type) where
  none : V
  format : R → Bytes
  strtold : Bytes → R
  dumps : V → Option Bytes
  loads : Bytes → Option (Object R V)

/-- What is pickled is loaded again. -/
def Interpreter.Pickles {R V : Type} (py : Interpreter R V) : Prop :=
  ∀ v data, py.dumps v = some data → py.loads data = some (.other v)

/-- An exception of the library, an integer out of range, a text that is not UTF-8, or what the
pickle module raises. -/
inductive Raised
  | library (e : Exn)
  | overflow
  | unicode
  | pickling
  deriving DecidableEq

/-- The UTF-8 text of a string. -/
def utf8 (text : String) : Bytes := text.toUTF8.data.toList

/-- The string of a UTF-8 text. -/
def decode (data : Bytes) : Option String := String.fromUTF8? ⟨data.toArray⟩

/-! ## Marks of types -/

namespace Mark

def string : UInt32 := 0x00000000

def pickled : UInt32 := 0x20000000

def double : UInt32 := 0x40000000

def long : UInt32 := 0x80000000

def mask : UInt32 := 0xE0000000

end Mark

/-- The options with a mark. -/
def marked (opts : Opts) (mark : UInt32) : Opts := { opts with flags := opts.flags ||| mark }

/-- `extract<int64_t>`. -/
def extractInt64 (n : ℤ) : Except Raised Integral.int64.Value :=
  if h : Integral.int64.min ≤ n ∧ n ≤ Integral.int64.max then .ok ⟨n, h⟩ else .error .overflow

section Conversions

variable {R V : Type} (py : Interpreter R V)

/-- `client_t::to_string`, with what it makes of the options. -/
def toString (data : Object R V) (opts : Opts) : Except Raised (Bytes × Opts) :=
  if opts.flags &&& Mark.mask ≠ 0 then
    .error (.library (.mc .badArgument
      "three upper bits of flags are used by mcache python wrapper"))
  else
    match data with
    | .str text => .ok (utf8 text, opts)
    | .float x => .ok (py.format x, marked opts Mark.double)
    | .bool b => .ok (Integral.int64.write ⟨b.toNat, by cases b <;> decide⟩, marked opts Mark.long)
    | .int n => (extractInt64 n).map fun x => (Integral.int64.write x, marked opts Mark.long)
    | .other v =>
      match py.dumps v with
      | none => .error .pickling
      | some data => .ok (data, marked opts Mark.pickled)

/-- `client_t::data_from_string`. -/
def dataFromString (data : Bytes) (flags : UInt32) : Except Raised (Object R V) :=
  let mark := flags &&& Mark.mask
  if mark = Mark.pickled then
    match py.loads data with
    | none => .error .pickling
    | some object => .ok object
  else if mark = Mark.double then .ok (.float (py.strtold data))
  else if mark = Mark.long then .ok (.int (Integral.int64.read data))
  else
    match decode data with
    | none => .error .unicode
    | some text => .ok (.str text)

/-- The dictionary that a retrieval returns. -/
structure Found (R V : Type) where
  cas : UInt64 := 0
  flags : UInt32 := 0
  data : Object R V
  deriving DecidableEq

/-- `client_t::from_string`, with the default for a key without a value. -/
def fromString (result : Result) (default : Object R V) : Except Raised (Found R V) :=
  if result.found then
    (dataFromString py result.data result.flags).map fun data =>
      { cas := result.cas, flags := result.flags &&& ~~~Mark.mask, data }
  else .ok { data := default }

end Conversions

/-- The entries of a dictionary that `opts_from_python_dict` looks at. -/
structure Options where
  expiration : Option Int64 := none
  flags : Option UInt32 := none
  cas : Option UInt64 := none
  iters : Option UInt64 := none
  initial : Option UInt64 := none
  compress : Option Bool := none

/-- `opts_from_python_dict::construct`. -/
def Options.construct (dict : Options) : Except Raised Opts :=
  let flags := dict.flags.getD 0
  if flags &&& Opts.compress ≠ 0 then
    .error (.library (.mc .badArgument
      "some lower bits of upper uint16_t of the flags are used by mcache python wrapper"))
  else .ok {
    expiration := dict.expiration.getD 0
    flags := if dict.compress = some true then flags ||| Opts.compress else flags
    cas := (dict.cas <|> dict.iters <|> dict.initial).getD 0 }

/-! ## Texts -/

theorem decode_utf8 (text : String) : decode (utf8 text) = some text := by
  have hbytes : (⟨text.toUTF8.data.toList.toArray⟩ : ByteArray) = text.toUTF8 := by
    rw [Array.toArray_toList]
  rw [decode, utf8, hbytes]
  exact dif_pos text.isValidUTF8

theorem utf8_append (a b : String) : utf8 (a ++ b) = utf8 a ++ utf8 b := by
  simp [utf8]

/-- The string of a text of ASCII characters. -/
def textOf (data : Bytes) : String := .ofList (data.map fun c => Char.ofNat c.toNat)

theorem utf8EncodeChar_ofNat {c : UInt8} (h : c < 128) :
    String.utf8EncodeChar (.ofNat c.toNat) = [c] := by
  have hall : ∀ n < 128, String.utf8EncodeChar (.ofNat n) = [.ofNat n] := by decide
  rw [hall c.toNat (UInt8.lt_iff_toNat_lt.mp h), UInt8.ofNat_toNat]

theorem utf8_textOf {data : Bytes} (h : ∀ c ∈ data, c < 128) : utf8 (textOf data) = data := by
  induction data with
  | nil => rfl
  | cons c data ih =>
    have hc := utf8EncodeChar_ofNat (h c List.mem_cons_self)
    have htail := ih fun c hc => h c (List.mem_cons_of_mem _ hc)
    simp only [utf8, textOf, String.toUTF8, String.toByteArray_ofList, List.map_cons] at htail ⊢
    rw [List.utf8Encode_cons, List.utf8Encode_singleton, hc, ByteArray.data_append,
      Array.toList_append, htail]
    rfl

/-! ## Numbers with spaces -/

theorem takeWhile_spaces (s : Bytes) (k : ℕ) :
    (s ++ List.replicate k (32 : UInt8)).takeWhile isDigit = s.takeWhile isDigit := by
  have hspaces : (List.replicate k (32 : UInt8)).takeWhile isDigit = [] := by
    cases k <;> rfl
  rw [List.takeWhile_append, hspaces]
  split_ifs with hlength
  · rw [List.append_nil]
    exact ((List.takeWhile_prefix isDigit).eq_of_length hlength).symm
  · rfl

theorem atoll_spaces (n : ℤ) (k : ℕ) :
    atoll (decimalInt n ++ List.replicate k 32) = atoll (decimalInt n) := by
  obtain ⟨c, s, hs, hc⟩ : ∃ c s, decimalInt n = c :: s ∧ Stream.isSpace c = false := by
    unfold decimalInt
    split_ifs
    · exact ⟨45, _, rfl, rfl⟩
    · obtain ⟨c, s, hs⟩ := List.exists_cons_of_ne_nil (decimal_ne_nil n.natAbs)
      have hdigit : c ∈ decimal n.natAbs := hs ▸ List.mem_cons_self
      exact ⟨c, s, hs, Stream.isSpace_of_isDigit (isDigit_of_mem_decimal hdigit)⟩
  have hskip : ∀ t, Stream.skipSpace (c :: t) = c :: t := fun t =>
    List.dropWhile_cons_of_neg (by simp [hc])
  have hsign : (if c = 45 ∨ c = 43 then s ++ List.replicate k 32
      else c :: (s ++ List.replicate k 32)) = (if c = 45 ∨ c = 43 then s else c :: s) ++
        List.replicate k 32 := by
    split_ifs <;> rfl
  rw [hs, List.cons_append]
  unfold atoll
  simp only [hskip, List.head?_cons, Option.some.injEq, List.tail_cons]
  rw [hsign, takeWhile_spaces]

/-! ## What is read back -/

theorem or_and (a b c : UInt32) : (a ||| b) &&& c = a &&& c ||| b &&& c :=
  UInt32.toBitVec_inj.1 BitVec.and_or_distrib_right

theorem and_or (a b c : UInt32) : a &&& (b ||| c) = a &&& b ||| a &&& c :=
  UInt32.toBitVec_inj.1 BitVec.and_or_distrib_left

theorem and_mask {flags : UInt32} (h : flags &&& Mark.mask = 0) :
    flags &&& ~~~Mark.mask = flags := by
  have hsplit := and_or flags Mark.mask (~~~Mark.mask)
  rw [h, UInt32.zero_or, UInt32.or_not_self, UInt32.and_neg_one] at hsplit
  exact hsplit.symm

theorem marked_flags {opts : Opts} {mark : UInt32} (h : opts.flags &&& Mark.mask = 0)
    (hmark : mark &&& Mark.mask = mark) : (marked opts mark).flags &&& Mark.mask = mark ∧
      (marked opts mark).flags &&& ~~~Mark.mask = opts.flags := by
  have hrest : mark &&& ~~~Mark.mask = 0 := by
    rw [← hmark, UInt32.and_assoc, UInt32.and_not_self, UInt32.and_zero]
  simp only [marked, or_and]
  rw [h, hmark, UInt32.zero_or, hrest, UInt32.or_zero, and_mask h]
  exact ⟨rfl, rfl⟩

section Encodes

variable {R V : Type} (py : Interpreter R V)

/-- The texts of an object under a mark. A number may be followed by spaces, and a float is what its
text says. -/
inductive Encodes : Bytes → UInt32 → Object R V → Prop
  | str (text : String) : Encodes (utf8 text) Mark.string (.str text)
  | float (data : Bytes) : Encodes data Mark.double (.float (py.strtold data))
  | int {n : ℤ} (hn : Integral.int64.min ≤ n ∧ n ≤ Integral.int64.max) (k : ℕ) :
      Encodes (decimalInt n ++ List.replicate k 32) Mark.long (.int n)
  | other {data : Bytes} {v : V} (hloads : py.loads data = some (.other v)) :
      Encodes data Mark.pickled (.other v)

/-- What is read back for an object. -/
def kept : Object R V → Object R V
  | .float x => .float (py.strtold (py.format x))
  | .bool b => .int b.toNat
  | object => object

variable {py} {data : Bytes} {flags : UInt32} {object : Object R V} {opts opts' : Opts}

theorem read_int64 {n : ℤ} (h : Integral.int64.min ≤ n ∧ n ≤ Integral.int64.max) (k : ℕ) :
    (Integral.int64.read (decimalInt n ++ List.replicate k 32) : ℤ) = n := by
  have hwrite := Integral.read_write .int64 ⟨n, h⟩
  have hmax : n ≤ 2 ^ 63 - 1 := h.2
  rw [Integral.write_eq, min_eq_left hmax] at hwrite
  rwa [Integral.read, atoll_spaces]

theorem encodes_int {n : ℤ} (h : Integral.int64.min ≤ n ∧ n ≤ Integral.int64.max) :
    Encodes py (decimalInt n) Mark.long (.int n) := by
  have hint : Encodes py (decimalInt n ++ List.replicate 0 32) Mark.long (.int n) := .int h 0
  rwa [List.replicate_zero, List.append_nil] at hint

/-- **A text of an object** is read as this object. -/
theorem dataFromString_of_encodes (h : Encodes py data (flags &&& Mark.mask) object) :
    dataFromString py data flags = .ok object := by
  unfold dataFromString
  generalize flags &&& Mark.mask = mark at h ⊢
  cases h with
  | str text =>
    simp only [decode_utf8]
    rfl
  | float => rfl
  | int hn k =>
    simp only [read_int64 hn k]
    rfl
  | other hloads =>
    simp only [hloads]
    rfl

/-- **An object is stored as a text of what is kept of it**, under the flags of the user. -/
theorem encodes_toString (hpickles : py.Pickles) (h : toString py object opts = .ok (data, opts')) :
    Encodes py data (opts'.flags &&& Mark.mask) (kept py object) ∧
      opts'.flags &&& ~~~Mark.mask = opts.flags ∧
      opts' = { opts with flags := opts'.flags } := by
  unfold toString at h
  split_ifs at h with hflags
  rw [not_not] at hflags
  cases object with
  | str text =>
    obtain ⟨rfl, rfl⟩ := Prod.mk.inj (Except.ok.inj h)
    rw [hflags]
    exact ⟨.str text, and_mask hflags, rfl⟩
  | float x =>
    obtain ⟨rfl, rfl⟩ := Prod.mk.inj (Except.ok.inj h)
    obtain ⟨hmark, hrest⟩ := marked_flags hflags (show Mark.double &&& Mark.mask = _ from rfl)
    rw [hmark]
    exact ⟨.float _, hrest, rfl⟩
  | bool b =>
    obtain ⟨rfl, rfl⟩ := Prod.mk.inj (Except.ok.inj h)
    obtain ⟨hmark, hrest⟩ := marked_flags hflags (show Mark.long &&& Mark.mask = _ from rfl)
    rw [hmark, Integral.write_eq]
    exact ⟨encodes_int (by cases b <;> decide), hrest, rfl⟩
  | int n =>
    by_cases hn : Integral.int64.min ≤ n ∧ n ≤ Integral.int64.max
    · simp only [extractInt64, dif_pos hn] at h
      obtain ⟨rfl, rfl⟩ := Prod.mk.inj (Except.ok.inj h)
      obtain ⟨hmark, hrest⟩ := marked_flags hflags (show Mark.long &&& Mark.mask = _ from rfl)
      rw [hmark, Integral.write_eq]
      exact ⟨encodes_int hn, hrest, rfl⟩
    · simp only [extractInt64, dif_neg hn] at h
      cases h
  | other v =>
    cases hdumps : py.dumps v with
    | none => simp [hdumps] at h
    | some stored =>
      simp only [hdumps] at h
      obtain ⟨rfl, rfl⟩ := Prod.mk.inj (Except.ok.inj h)
      obtain ⟨hmark, hrest⟩ := marked_flags hflags (show Mark.pickled &&& Mark.mask = _ from rfl)
      rw [hmark]
      exact ⟨.other (hpickles v _ hdumps), hrest, rfl⟩

end Encodes

end McacheClient.Python
