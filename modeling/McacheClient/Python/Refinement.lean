import McacheClient.Client.Interchange
import McacheClient.Python.Dictionary
import Mathlib.Data.Option.Basic

/-!
# The Python client is a dictionary

* `Represents`, `Holds`: an item that stands for an entry, and a server that stands for a shelf;
* `Holds.put`, `Holds.change`: what keeps a server standing for its shelf;
* `store_refines`, `retrieve_refines`, `count_refines`, `touch_refines`, `del_refines`: one method
  on one server;
* `perform_refines`: one method over the servers;
* **`results_refine`**: the client returns what the dictionary does.
-/

namespace McacheClient.Python

open Numeral

section Relation

variable {R V : Type} (py : Interpreter R V) (zlib : Zlib)

/-- The item of a server that stands for an entry. -/
structure Represents (item : StoredItem) (slot : Slot R V) : Prop where
  text : ∃ text, unpack zlib item.flags item.data = .ok text ∧
    Encodes py text (item.flags &&& Mark.mask) slot.object
  flags : item.flags &&& ~~~Mark.mask = slot.flags
  deadline : item.deadline = slot.deadline
  cas : item.cas = slot.cas
  fits : 4 + item.data.length < 2 ^ 32

/-- A server that stands for a shelf. -/
structure Holds (server : Memcached) (shelf : Shelf R V) : Prop where
  lastCas : server.lastCas = shelf.lastCas
  items : ∀ key, Option.Rel (Represents py zlib) (server.items key) (shelf.items key)

variable {py zlib} {server : Memcached} {shelf : Shelf R V} {key : Bytes} {now : ℤ}
  {item : StoredItem} {slot : Slot R V}

theorem Represents.live (h : Represents py zlib item slot) (now : ℤ) :
    item.deadline.all (now < ·) = slot.deadline.all (now < ·) := by
  rw [h.deadline]

theorem Holds.find (h : Holds py zlib server shelf) (now : ℤ) (key : Bytes) :
    Option.Rel (Represents py zlib) (server.find now key) (shelf.find now key) := by
  have hitems := h.items key
  unfold Memcached.find Shelf.find
  generalize server.items key = item at hitems ⊢
  generalize shelf.items key = slot at hitems ⊢
  cases hitems with
  | none => exact .none
  | some hrel =>
    rw [Option.filter_some, Option.filter_some, hrel.live]
    split_ifs
    · exact .some hrel
    · exact .none

theorem Holds.update (h : Holds py zlib server shelf) {item : Option StoredItem}
    {slot : Option (Slot R V)} (hrel : Option.Rel (Represents py zlib) item slot)
    {cas cas' : UInt64} (hcas : cas = cas') :
    Holds py zlib { items := Function.update server.items key item, lastCas := cas }
      { items := Function.update shelf.items key slot, lastCas := cas' } := by
  refine ⟨hcas, fun x => ?_⟩
  by_cases hx : x = key
  · subst hx
    simpa using hrel
  · simpa [hx] using h.items x

theorem Holds.put (h : Holds py zlib server shelf) {data text : Bytes} {flags : UInt32}
    {object : Object R V} {deadline : Option ℤ} (htext : unpack zlib flags data = .ok text)
    (hencodes : Encodes py text (flags &&& Mark.mask) object) (hfits : 4 + data.length < 2 ^ 32) :
    Holds py zlib (server.put key data flags deadline).2
      (shelf.put key object (flags &&& ~~~Mark.mask) deadline) := by
  unfold Memcached.put Shelf.put
  rw [h.lastCas]
  exact h.update (.some ⟨⟨text, htext, hencodes⟩, rfl, rfl, rfl, hfits⟩) rfl

/-! ## Compressed values -/

theorem compressed_flags (h : Represents py zlib item slot) :
    compressed item.flags = compressed slot.flags := by
  have hbit : ~~~Mark.mask &&& Opts.compress = Opts.compress := by decide
  rw [compressed, compressed, ← h.flags, UInt32.and_assoc, hbit]

end Relation

/-! ## One method on one server -/

section Methods

variable {R V : Type} {py : Interpreter R V} {zlib : Zlib} {server : Memcached} {shelf : Shelf R V}
  {key : Bytes} {i : Instant} {result : Except Exn Response}

theorem conclude_storage {name : StorageName} {data : Object R V} {dict : Options}
    {code : ResponseCode} {text : Bytes} :
    silent ((Method.storage name key data dict).conclude py (.ok { code, data := text })) =
      if code = .ok ∨ code = .stored then .ok (if name = .set then .none else .bool true)
      else if code ∈ Call.refused name then .ok (if name = .set then .none else .bool false)
      else Shelf.refused code := by
  simp only [Method.conclude, Except.bind]
  by_cases hok : code = .ok ∨ code = .stored
  · rw [if_pos hok]
    rcases hok with rfl | rfl <;> rfl
  · have hresult : storageResult (Call.refused name) { code, data := text } =
        if code ∈ Call.refused name then .ok false else .error (.proto code text) := by
      cases code <;> first | rfl | exact absurd (by simp) hok
    rw [if_neg hok, hresult]
    split_ifs <;> rfl

theorem stored_str {b : String} {dict : Options} {opts opts' : Opts} {text stored : Bytes}
    (hdict : dict.construct = .ok opts) (hcompress : dict.compress ≠ some true)
    (hstring : toString py (.str b) opts = .ok (text, opts'))
    (hpacked : packed zlib text opts' = .ok stored) : stored = utf8 b := by
  have hplain : compressed opts.flags = false := by
    unfold Options.construct at hdict
    dsimp only at hdict
    rw [if_neg hcompress] at hdict
    split_ifs at hdict with hflags
    rw [← Except.ok.inj hdict, compressed]
    simpa using hflags
  unfold toString at hstring
  split_ifs at hstring
  obtain ⟨rfl, rfl⟩ := Prod.mk.inj (Except.ok.inj hstring)
  rw [packed, hplain] at hpacked
  exact (Except.ok.inj hpacked).symm

theorem item_str {item : StoredItem} {slot : Slot R V} {a : String}
    (h : Represents py zlib item slot) (hobject : slot.object = .str a)
    (hplain : compressed slot.flags = false) :
    item.data = utf8 a ∧ item.flags &&& Mark.mask = Mark.string := by
  obtain ⟨text, htext, hencodes⟩ := h.text
  rw [unpack, compressed_flags h, hplain] at htext
  obtain rfl := Except.ok.inj htext
  rw [hobject] at hencodes
  generalize item.data = data at hencodes ⊢
  generalize item.flags &&& Mark.mask = mark at hencodes ⊢
  cases hencodes
  exact ⟨rfl, rfl⟩

theorem put_str (hholds : Holds py zlib server shelf) {item : StoredItem} {slot : Slot R V}
    {a text : String} (h : Represents py zlib item slot) (hobject : slot.object = .str a)
    (hplain : compressed slot.flags = false) (hfits : 4 + (utf8 text).length < 2 ^ 32) :
    Holds py zlib (server.put key (utf8 text) item.flags item.deadline).2
      (shelf.put key (.str text) slot.flags slot.deadline) := by
  have hunpack : unpack zlib item.flags (utf8 text) = .ok (utf8 text) := by
    rw [unpack, compressed_flags h, hplain]
    rfl
  have hencodes : Encodes py (utf8 text) (item.flags &&& Mark.mask) (.str text) := by
    rw [(item_str h hobject hplain).2]
    exact .str text
  rw [← h.flags, ← h.deadline]
  exact hholds.put hunpack hencodes hfits

/-- **A storage method** whose request is executed. -/
theorem store_refines (hz : zlib.Lossless) (hpickles : py.Pickles) {name : StorageName}
    {data : Object R V} {dict : Options} {opts opts' : Opts} {text stored : Bytes}
    (hdict : dict.construct = .ok opts) (hstring : toString py data opts = .ok (text, opts'))
    (htext : Restorable text opts'.flags)
    (hpacked : packed zlib text opts' = .ok stored) (hfits : 4 + stored.length < 2 ^ 32)
    (hsuits : Suits i.now shelf (.storage name key data dict)) (hholds : Holds py zlib server shelf)
    (hshows : ShowsTask .binary zlib false (executeTask i.now (.item (.storage name key
      opts'.flags.toNat opts'.expiration.toInt stored opts'.cas.toNat)) server).1 result) :
    silent ((Method.storage name key data dict).conclude py result) =
        silent (shelf.store i.now name key (kept py data) opts).1 ∧
      Holds py zlib (executeTask i.now (.item (.storage name key opts'.flags.toNat
        opts'.expiration.toInt stored opts'.cas.toNat)) server).2
        (shelf.store i.now name key (kept py data) opts).2 := by
  obtain ⟨hencodes, hflags, hopts⟩ := encodes_toString hpickles hstring
  have hunpack := unpack_packed hz htext hpacked
  have hput : ∀ deadline, Holds py zlib (server.put key stored opts'.flags deadline).2
      (shelf.put key (kept py data) opts.flags deadline) := fun deadline =>
    hflags ▸ hholds.put hunpack hencodes hfits
  have hexpiration : opts'.expiration = opts.expiration := by rw [hopts]
  have hid : opts'.cas = opts.cas := by rw [hopts]
  have hfind := hholds.find i.now key
  simp only [Suits] at hsuits
  simp only [executeTask, execute, ServerCommand.key, Shelf.store, UInt32.ofNat_toNat,
    hexpiration, hid] at hshows ⊢
  generalize server.find i.now key = item at hfind hshows ⊢
  generalize shelf.find i.now key = slot at hfind hsuits ⊢
  cases name with
  | set =>
    obtain ⟨data', rfl⟩ := hshows
    rw [conclude_storage]
    exact ⟨rfl, hput _⟩
  | add =>
    cases hfind with
    | none =>
      obtain ⟨data', rfl⟩ := hshows
      rw [conclude_storage]
      exact ⟨rfl, hput _⟩
    | some hrel =>
      obtain ⟨data', rfl⟩ := hshows
      rw [conclude_storage]
      exact ⟨rfl, hholds⟩
  | replace =>
    cases hfind with
    | none =>
      obtain ⟨data', rfl⟩ := hshows
      rw [conclude_storage]
      exact ⟨rfl, hholds⟩
    | some hrel =>
      obtain ⟨data', rfl⟩ := hshows
      rw [conclude_storage]
      exact ⟨rfl, hput _⟩
  | append =>
    cases hfind with
    | none =>
      obtain ⟨data', rfl⟩ := hshows
      rw [conclude_storage]
      exact ⟨rfl, hholds⟩
    | some hrel =>
      obtain ⟨a, b, hobject, rfl, hplain, hcompress, hsize⟩ := hsuits (by simp) _ rfl
      obtain rfl := stored_str hdict hcompress hstring hpacked
      simp only [hobject, (item_str hrel hobject hplain).1, kept, Object.concat, ← utf8_append]
        at hshows ⊢
      obtain ⟨data', rfl⟩ := hshows
      rw [conclude_storage]
      exact ⟨rfl, put_str hholds hrel hobject hplain (by simp [utf8_append]; omega)⟩
  | prepend =>
    cases hfind with
    | none =>
      obtain ⟨data', rfl⟩ := hshows
      rw [conclude_storage]
      exact ⟨rfl, hholds⟩
    | some hrel =>
      obtain ⟨a, b, hobject, rfl, hplain, hcompress, hsize⟩ := hsuits (by simp) _ rfl
      obtain rfl := stored_str hdict hcompress hstring hpacked
      simp only [hobject, (item_str hrel hobject hplain).1, kept, Object.concat, ← utf8_append]
        at hshows ⊢
      obtain ⟨data', rfl⟩ := hshows
      rw [conclude_storage]
      exact ⟨rfl, put_str hholds hrel hobject hplain (by simp [utf8_append]; omega)⟩
  | cas =>
    cases hfind with
    | none =>
      obtain ⟨data', rfl⟩ := hshows
      rw [conclude_storage]
      exact ⟨rfl, hholds⟩
    | some hrel =>
      rename_i item slot
      by_cases hsame : slot.cas = opts.cas
      · have hnat : item.cas.toNat = opts.cas.toNat := by rw [hrel.cas, hsame]
        simp only [if_pos hnat] at hshows ⊢
        obtain ⟨data', rfl⟩ := hshows
        rw [conclude_storage, if_pos hsame]
        exact ⟨rfl, hput _⟩
      · have hnat : item.cas.toNat ≠ opts.cas.toNat := fun h =>
          hsame (by rw [← hrel.cas, UInt64.toNat_inj.mp h])
        simp only [if_neg hnat] at hshows ⊢
        obtain ⟨data', rfl⟩ := hshows
        rw [conclude_storage, if_neg hsame]
        exact ⟨rfl, hholds⟩

theorem conclude_retrieve {name : RetrieveName} {default : Option (Object R V)}
    {response : Response} {found : Result}
    (h : Method.retrieveResult name response = .ok found) :
    (Method.retrieve name key default).conclude py (.ok response) =
      (fromString py found (default.getD (.other py.none))).map .found := by
  have hne : ¬((Except.ok response : Except Exn Response) = .error .outOfServers ∧
      default.isSome = true) := by rintro ⟨h, -⟩; cases h
  rw [Method.conclude, if_neg hne, Except.bind, h]
  rfl

/-- **A retrieval** that is executed. -/
theorem retrieve_refines {unique : Bool} (name : RetrieveName) (default : Option (Object R V))
    (hholds : Holds py zlib server shelf)
    (hshows : ShowsTask .binary zlib unique
      (executeTask i.now (.item (.retrieve key)) server).1 result) :
    (Method.retrieve name key default).conclude py result =
        .ok (.found (shelf.look i.now name key (default.getD (.other py.none)))) ∧
      Holds py zlib (executeTask i.now (.item (.retrieve key)) server).2 shelf := by
  have hfind := hholds.find i.now key
  simp only [executeTask, execute_retrieve, Shelf.look] at hshows ⊢
  refine ⟨?_, hholds⟩
  generalize server.find i.now key = item at hfind hshows ⊢
  generalize shelf.find i.now key = slot at hfind ⊢
  cases hfind with
  | none =>
    obtain ⟨data', rfl⟩ := hshows
    rw [conclude_retrieve rfl]
    rfl
  | @some item slot hrel =>
    obtain ⟨text, htext, hencodes⟩ := hrel.text
    have hshown : result = (unpack zlib item.flags item.data).map fun data =>
        { code := .ok, data, flags := item.flags, cas := item.cas } := by
      simpa [ShowsTask, Shows] using hshows
    rw [htext] at hshown
    rw [hshown, Except.map, conclude_retrieve rfl, fromString, if_pos rfl,
      dataFromString_of_encodes hencodes]
    simp only [Except.map, hrel.flags, hrel.cas]

theorem conclude_counter {name : CounterName} {value : UInt64} {dict : Options} {n : ℕ}
    (hn : n < 2 ^ 63) : (Method.counter name key value dict).conclude py
      (.ok { code := .ok, data := decimal n }) = .ok (.number (.ofNat n)) := by
  have hlt : (UInt64.ofNat n).toNat = n := UInt64.toNat_ofNat_of_lt' (by
    show n < 2 ^ 64
    omega)
  have hcnv := cnvUInt64_decimal (.ofNat n)
  rw [hlt, if_pos hn] at hcnv
  simp only [Method.conclude, Except.bind, counterResult, hcnv]
  rfl

theorem number_decimalInt {n : ℤ} (h : Integral.int64.min ≤ n ∧ n ≤ Integral.int64.max) (k : ℕ) :
    number (decimalInt n ++ List.replicate k 32) = (Object.int n : Object R V).number := by
  have hmax : n ≤ 2 ^ 63 - 1 := h.2
  rw [Object.number, decimalInt]
  by_cases hneg : n < 0
  · rw [if_pos hneg, if_neg (not_le.mpr hneg)]
    rfl
  · have hpadded : decimal n.natAbs ++ List.replicate k 32 =
        padded ((decimal n.natAbs).length + k) n.natAbs := by rw [padded, Nat.add_sub_cancel_left]
    rw [if_neg hneg, if_pos (not_lt.mp hneg), hpadded, number_padded _ (by omega)]
    exact congrArg some (by omega)

theorem number_item {item : StoredItem} {slot : Slot R V} (h : Represents py zlib item slot)
    (hplain : compressed slot.flags = false) (hcountable : slot.object.countable = true) :
    number item.data = slot.object.number := by
  obtain ⟨text, htext, hencodes⟩ := h.text
  rw [unpack, compressed_flags h, hplain] at htext
  obtain rfl := Except.ok.inj htext
  generalize item.data = data at hencodes ⊢
  generalize item.flags &&& Mark.mask = mark at hencodes
  generalize slot.object = object at hencodes hcountable ⊢
  cases hencodes with
  | str text => rfl
  | int hn k => exact number_decimalInt hn k
  | float | other => cases hcountable

theorem ascii_decimal (n : ℕ) : ∀ c ∈ decimal n, c < 128 := by
  intro c hc
  have hdigit := isDigit_of_mem_decimal hc
  simp only [isDigit, Bool.and_eq_true, decide_eq_true_eq] at hdigit
  exact UInt8.lt_of_le_of_lt hdigit.2 (show (57 : UInt8) < 128 by decide)

theorem ascii_padded (size n : ℕ) : ∀ c ∈ padded size n, c < 128 := by
  intro c hc
  rcases List.mem_append.mp hc with hc | hc
  · exact ascii_decimal n c hc
  · rw [List.eq_of_mem_replicate hc]
    decide

theorem encodes_counted {item : StoredItem} {slot : Slot R V} (h : Represents py zlib item slot)
    (hplain : compressed slot.flags = false) (hcountable : slot.object.countable = true) {n : ℕ}
    (hn : n < 2 ^ 63) : Encodes py (padded item.data.length n) (item.flags &&& Mark.mask)
      (slot.object.counted n) := by
  obtain ⟨text, htext, hencodes⟩ := h.text
  rw [unpack, compressed_flags h, hplain] at htext
  obtain rfl := Except.ok.inj htext
  generalize item.data = data at hencodes ⊢
  generalize item.flags &&& Mark.mask = mark at hencodes ⊢
  generalize slot.object = object at hencodes hcountable ⊢
  cases hencodes with
  | str text =>
    have htext : Encodes py (utf8 (textOf (padded (utf8 text).length n))) Mark.string
        ((Object.str text).counted n) := .str _
    rwa [utf8_textOf (ascii_padded _ n)] at htext
  | int hn' k =>
    have hint : decimalInt n = decimal n := if_neg (by omega)
    have hmin : Integral.int64.min ≤ 0 := by decide
    have hmax : Integral.int64.max = 2 ^ 63 - 1 := by decide
    rw [padded, ← hint]
    exact .int ⟨by omega, by omega⟩ _
  | float | other => cases hcountable

theorem length_padded_le (size : ℕ) {n : ℕ} (hn : n < 2 ^ 63) :
    (padded size n).length ≤ max size 19 := by
  have hdigits := length_decimal_le (show 0 < 19 by decide) (show n < 10 ^ 19 by omega)
  rw [padded, List.length_append, List.length_replicate]
  omega

/-- **A counter method** whose request is executed. -/
theorem count_refines {name : CounterName} {value : UInt64} {dict : Options} {opts : Opts}
    (hdict : dict.construct = .ok opts) (hsuits : Suits i.now shelf (.counter name key value dict))
    (hholds : Holds py zlib server shelf)
    (hshows : ShowsTask .binary zlib false (executeTask i.now (.count name key value.toNat
      (initialOf opts .binary)) server).1 result) :
    silent ((Method.counter name key value dict).conclude py result) =
        silent (shelf.count i.now name key value opts).1 ∧
      Holds py zlib (executeTask i.now (.count name key value.toNat (initialOf opts .binary))
        server).2 (shelf.count i.now name key value opts).2 := by
  obtain ⟨hinitial, hslots⟩ := hsuits
  have hfind := hholds.find i.now key
  simp only [executeTask, Memcached.count, Shelf.count, initialOf, Binary.initially] at hshows ⊢
  generalize server.find i.now key = item at hfind hshows ⊢
  generalize shelf.find i.now key = slot at hfind hslots ⊢
  cases hfind with
  | none =>
    by_cases hexist : opts.expiration.toInt = Binary.mustExist
    · simp only [if_pos hexist] at hshows ⊢
      obtain ⟨data', rfl⟩ := hshows
      exact ⟨rfl, hholds⟩
    · simp only [if_neg hexist] at hshows ⊢
      have hsmall := hinitial opts hdict
      have hlen := length_decimal_le (show 0 < 19 by decide)
        (show opts.initial.toNat < 10 ^ 19 by omega)
      have hencodes : Encodes py (decimal opts.initial.toNat) (0 &&& Mark.mask)
          (.str (textOf (decimal opts.initial.toNat))) := by
        have hstr : Encodes py (utf8 (textOf (decimal opts.initial.toNat))) Mark.string
          (.str (textOf (decimal opts.initial.toNat))) := .str _
        rwa [utf8_textOf (ascii_decimal _)] at hstr
      obtain rfl := hshows
      rw [conclude_counter hsmall, UInt64.ofNat_toNat]
      exact ⟨rfl, hholds.put rfl hencodes (by omega)⟩
  | @some item slot hrel =>
    obtain ⟨hplain, hcountable, hbelow⟩ := hslots _ rfl
    have hnumber := number_item hrel hplain hcountable
    cases hobject : slot.object.number with
    | none =>
      simp only [hnumber, hobject] at hshows ⊢
      obtain ⟨data', rfl⟩ := hshows
      exact ⟨rfl, hholds⟩
    | some n =>
      simp only [hnumber, hobject] at hshows ⊢
      have hn := hbelow n hobject
      have hlen := length_padded_le item.data.length hn
      have hfits := hrel.fits
      have hunpack : ∀ data, unpack zlib item.flags data = .ok data := fun data => by
        rw [unpack, compressed_flags hrel, hplain]
        rfl
      obtain rfl := hshows
      rw [conclude_counter hn, ← hrel.flags, ← hrel.deadline]
      exact ⟨rfl, hholds.put (hunpack _) (encodes_counted hrel hplain hcountable hn) (by omega)⟩

/-- **A method for a key that must be there**, whose request is executed. -/
theorem touch_refines {exp : UInt64} (hholds : Holds py zlib server shelf)
    (hshows : ShowsTask .binary zlib false (executeTask i.now (.item (.touch key exp.toNat))
      server).1 result) :
    let changed := shelf.change i.now key fun slot =>
      some { slot with deadline := deadline i.now exp.toNat }
    (Method.touch key exp).conclude py result = changed.1 ∧
      Holds py zlib (executeTask i.now (.item (.touch key exp.toNat)) server).2 changed.2 := by
  have hfind := hholds.find i.now key
  simp only [executeTask, execute, ServerCommand.key, Shelf.change] at hshows ⊢
  generalize server.find i.now key = item at hfind hshows ⊢
  generalize shelf.find i.now key = slot at hfind ⊢
  cases hfind with
  | none =>
    obtain ⟨data', rfl⟩ := hshows
    exact ⟨rfl, hholds⟩
  | @some item slot hrel =>
    have hslot : Represents py zlib { item with deadline := deadline i.now exp.toNat }
        { slot with deadline := deadline i.now exp.toNat } :=
      ⟨hrel.text, hrel.flags, rfl, hrel.cas, hrel.fits⟩
    obtain ⟨data', rfl⟩ := hshows
    exact ⟨rfl, hholds.update (.some hslot) hholds.lastCas⟩

theorem del_refines (hholds : Holds py zlib server shelf)
    (hshows : ShowsTask .binary zlib false (executeTask i.now (.item (.delete key))
      server).1 result) :
    (Method.del key).conclude py result = (shelf.change i.now key fun _ => none).1 ∧
      Holds py zlib (executeTask i.now (.item (.delete key)) server).2
        (shelf.change i.now key fun _ => none).2 := by
  have hfind := hholds.find i.now key
  simp only [executeTask, execute, ServerCommand.key, Shelf.change] at hshows ⊢
  generalize server.find i.now key = item at hfind hshows ⊢
  generalize shelf.find i.now key = slot at hfind ⊢
  cases hfind with
  | none =>
    obtain ⟨data', rfl⟩ := hshows
    exact ⟨rfl, hholds⟩
  | some hrel =>
    obtain ⟨data', rfl⟩ := hshows
    exact ⟨rfl, hholds.update .none hholds.lastCas⟩

/-! ### Any method -/

theorem Holds.fits (hholds : Holds py zlib server shelf) (now : ℤ) (task : ServerTask) :
    FitsTask now server task := by
  cases task with
  | item served =>
    intro item hitem
    have hfind := hholds.find now served.key
    rw [hitem] at hfind
    generalize shelf.find now served.key = slot at hfind
    cases hfind with
    | some hrel => exact hrel.fits
  | count | flush => trivial

/-- What a server that executes a request makes of a shelf. -/
def Refines (py : Interpreter R V) (zlib : Zlib) (now : ℤ) (m : Method R V) (request : Request)
    (task : ServerTask) : Prop :=
  ∀ (server : Memcached) (shelf : Shelf R V) (result : Except Exn Response),
    Holds py zlib server shelf → Suits now shelf m →
    ShowsTask .binary zlib request.unique (executeTask now task server).1 result →
      silent (m.conclude py result) = silent (shelf.perform py now m).1 ∧
        Holds py zlib (executeTask now task server).2 (shelf.perform py now m).2

theorem exists_task (hz : zlib.Lossless) (hpickles : py.Pickles) {m : Method R V}
    (hsendable : Sendable py zlib m) {request : Request} (hprepare : m.prepare py = .ok request)
    (i : Instant) : ∃ task, Requests .binary zlib request task ∧ request.key = some m.key ∧
      Refines py zlib i.now m request task := by
  obtain ⟨hne, hkey, hcarried⟩ := hsendable
  have hcarried := hcarried request hprepare
  cases m with
  | storage name key data dict =>
    cases hdict : dict.construct with
    | error e => simp [Method.prepare, hdict, bind, Except.bind] at hprepare
    | ok opts =>
      cases hstring : toString py data opts with
      | error e => simp [Method.prepare, hdict, hstring, bind, Except.bind] at hprepare
      | ok p =>
        obtain ⟨text, opts'⟩ := p
        have hperform : ∀ shelf : Shelf R V, shelf.perform py i.now (.storage name key data dict) =
            shelf.store i.now name key (kept py data) opts := by
          intro shelf
          rw [Shelf.perform, hprepare]
          simp only [hdict]
        by_cases hcas : name = .cas ∧ opts'.cas = 0
        · simp [Method.prepare, hdict, hstring, hcas, bind, Except.bind, throw, throwThe,
            MonadExceptOf.throw] at hprepare
        · simp only [Method.prepare, hdict, hstring, if_neg hcas, bind, Except.bind] at hprepare
          obtain rfl := Except.ok.inj hprepare
          obtain ⟨hid, h0, h1, htext, stored, hpacked, hfits⟩ := hcarried
          have hportable : Portable zlib (.storage name key text opts') :=
            ⟨hne, ⟨hid, fun hname hzero => hcas ⟨hname, hzero⟩⟩, h0, h1, fun stored' hstored' => by
              rwa [Except.ok.inj (hstored'.symm.trans hpacked)]⟩
          refine ⟨_, .item (.storage hpacked) hportable hkey, rfl,
            fun server shelf result hholds hsuits hshows => ?_⟩
          rw [hperform]
          exact store_refines hz hpickles hdict hstring htext hpacked (by omega) hsuits hholds
            hshows
  | retrieve name key default =>
    obtain rfl := Except.ok.inj hprepare
    refine ⟨_, .item (.retrieve name key) hne hkey, rfl,
      fun server shelf result hholds _ hshows => ?_⟩
    obtain ⟨hreturned, hholds'⟩ := retrieve_refines (i := i) name default hholds hshows
    exact ⟨congrArg silent hreturned, hholds'⟩
  | counter name key value dict =>
    cases hdict : dict.construct with
    | error e => simp [Method.prepare, hdict, bind, Except.bind] at hprepare
    | ok opts =>
      simp only [Method.prepare, hdict, bind, Except.bind] at hprepare
      obtain rfl := Except.ok.inj hprepare
      refine ⟨_, .count name value hne hkey hcarried, rfl,
        fun server shelf result hholds hsuits hshows => ?_⟩
      have hperform : shelf.perform py i.now (.counter name key value dict) =
          shelf.count i.now name key value opts := by
        simp [Shelf.perform, Method.prepare, hdict, bind, Except.bind, pure, Except.pure]
      rw [hperform]
      exact count_refines hdict hsuits hholds hshows
  | touch key exp =>
    obtain rfl := Except.ok.inj hprepare
    refine ⟨_, .item (.touch key exp) ⟨hne, hcarried⟩ hkey, rfl,
      fun server shelf result hholds _ hshows => ?_⟩
    obtain ⟨hreturned, hholds'⟩ := touch_refines (i := i) hholds hshows
    exact ⟨congrArg silent hreturned, hholds'⟩
  | del key =>
    obtain rfl := Except.ok.inj hprepare
    refine ⟨_, .item (.delete key) hne hkey, rfl, fun server shelf result hholds _ hshows => ?_⟩
    obtain ⟨hreturned, hholds'⟩ := del_refines (i := i) hholds hshows
    exact ⟨congrArg silent hreturned, hholds'⟩

end Methods

/-! ## Exceptions of the dictionary -/

section Silent

variable {R V : Type} {py : Interpreter R V}

theorem construct_ne_proto (dict : Options) (code : ResponseCode) (msg : Bytes) :
    dict.construct ≠ .error (.library (.proto code msg)) := by
  unfold Options.construct
  dsimp only
  split_ifs <;> simp

theorem toString_ne_proto (py : Interpreter R V) (data : Object R V) (opts : Opts)
    (code : ResponseCode) (msg : Bytes) :
    toString py data opts ≠ .error (.library (.proto code msg)) := by
  unfold toString
  split_ifs
  · simp
  · cases data with
    | str | float | bool => simp
    | int n => by_cases hn : Integral.int64.min ≤ n ∧ n ≤ Integral.int64.max <;>
        simp [extractInt64, hn, Except.map]
    | other v => cases hdumps : py.dumps v <;> simp [hdumps]

theorem prepare_ne_proto (m : Method R V) (code : ResponseCode) (msg : Bytes) :
    m.prepare py ≠ .error (.library (.proto code msg)) := by
  cases m with
  | storage name key data dict =>
    cases hdict : dict.construct with
    | error e =>
      have he := construct_ne_proto dict code msg
      simpa [Method.prepare, hdict, bind, Except.bind] using he
    | ok opts =>
      cases hstring : toString py data opts with
      | error e =>
        have he := toString_ne_proto py data opts code msg
        simpa [Method.prepare, hdict, hstring, bind, Except.bind] using he
      | ok p =>
        simp only [Method.prepare, hdict, hstring, bind, Except.bind]
        split_ifs <;> simp [throw, throwThe, MonadExceptOf.throw, pure, Except.pure]
  | counter name key value dict =>
    cases hdict : dict.construct with
    | error e =>
      have he := construct_ne_proto dict code msg
      simpa [Method.prepare, hdict, bind, Except.bind] using he
    | ok opts => simp [Method.prepare, hdict, bind, Except.bind, pure, Except.pure]
  | retrieve | touch | del => simp [Method.prepare]

theorem silent_error {e : Raised} (h : ∀ code msg, e ≠ .library (.proto code msg)) :
    silent (.error e : Except Raised (Returned R V)) = .error e := by
  unfold silent
  split
  · rename_i heq
    exact absurd (Except.error.inj heq) (h _ _)
  · rfl

theorem silent_store (now : ℤ) (name : StorageName) (key : Bytes) (object : Object R V)
    (opts : Opts) (shelf : Shelf R V) : silent (shelf.store now name key object opts).1 =
      (shelf.store now name key object opts).1 := by
  unfold Shelf.store
  cases name <;> cases shelf.find now key <;> first | rfl | (dsimp only; split_ifs <;> rfl)

theorem silent_count (now : ℤ) (name : CounterName) (key : Bytes) (value : UInt64) (opts : Opts)
    (shelf : Shelf R V) : silent (shelf.count now name key value opts).1 =
      (shelf.count now name key value opts).1 := by
  unfold Shelf.count
  cases shelf.find now key with
  | none =>
    dsimp only
    split_ifs <;> rfl
  | some slot => cases hnumber : slot.object.number <;> simp only [hnumber] <;> rfl

theorem silent_perform (now : ℤ) (m : Method R V) (shelf : Shelf R V) :
    silent (shelf.perform py now m).1 = (shelf.perform py now m).1 := by
  unfold Shelf.perform
  cases hprepare : m.prepare py with
  | error e =>
    exact silent_error fun code msg h => prepare_ne_proto m code msg (h ▸ hprepare)
  | ok request =>
    cases m with
    | storage name key data dict =>
      cases hdict : dict.construct with
      | error e =>
        simp only [hdict]
        exact silent_error fun code msg h => construct_ne_proto dict code msg (h ▸ hdict)
      | ok opts =>
        simp only [hdict]
        exact silent_store now name key (kept py data) opts shelf
    | retrieve name key default => rfl
    | counter name key value dict =>
      cases hdict : dict.construct with
      | error e =>
        simp only [hdict]
        exact silent_error fun code msg h => construct_ne_proto dict code msg (h ▸ hdict)
      | ok opts =>
        simp only [hdict]
        exact silent_count now name key value opts shelf
    | touch | del =>
      simp only [Shelf.change]
      split <;> rfl

theorem silent_answers (home : Bytes → UInt32) (calls : List (Instant × Method R V))
    (shelves : UInt32 → Shelf R V) :
    (answers py home calls shelves).map silent = answers py home calls shelves := by
  induction calls generalizing shelves with
  | nil => rfl
  | cons c calls ih =>
    obtain ⟨i, m⟩ := c
    simp only [answers, List.map_cons, silent_perform, ih]

end Silent

/-! ## Series of methods -/

section Runs

variable {R V : Type} {py : Interpreter R V} {zlib : Zlib} {pool : Pool} {cfg : ClientConfig}
  {home : Bytes → UInt32} {servers : UInt32 → Memcached}
  {shelves : UInt32 → Shelf R V} {s : UInt32 → Peer}

/-- Every server stands for its shelf. -/
def AllHold (py : Interpreter R V) (zlib : Zlib) (servers : UInt32 → Memcached)
    (shelves : UInt32 → Shelf R V) : Prop :=
  ∀ idx, Holds py zlib (servers idx) (shelves idx)

theorem AllHold.update (h : AllHold py zlib servers shelves) {idx : UInt32} {server : Memcached}
    {shelf : Shelf R V} (hholds : Holds py zlib server shelf) :
    AllHold py zlib (Function.update servers idx server) (Function.update shelves idx shelf) := by
  intro x
  by_cases hx : x = idx
  · subst hx
    simpa using hholds
  · simpa [hx] using h x

/-- **One method** over the servers. -/
theorem perform_refines (what : UInt32 → Bytes) (hz : zlib.Lossless) (hpickles : py.Pickles)
    {m : Method R V} (hsendable : Sendable py zlib m) {i : Instant} {idx : UInt32}
    (hanswered : AnsweredBy pool cfg i m.key idx) (hsuits : Suits i.now (shelves idx) m)
    (hs : Serving servers s) (hall : AllHold py zlib servers shelves) :
    ∃ result s' servers', m.perform py zlib pool cfg what i s = (result, s') ∧
      silent result = silent ((shelves idx).perform py i.now m).1 ∧ Serving servers' s' ∧
      AllHold py zlib servers'
        (Function.update shelves idx ((shelves idx).perform py i.now m).2) := by
  rw [Method.perform, Method.exec_program]
  cases hprepare : m.prepare py with
  | error e =>
    have hperform : (shelves idx).perform py i.now m = (.error e, shelves idx) := by
      unfold Shelf.perform
      rw [hprepare]
    rw [hperform, Function.update_eq_self]
    exact ⟨_, s, servers, rfl, rfl, hs, hall⟩
  | ok request =>
    obtain ⟨task, hrequests, hkey, hrefines⟩ := exists_task hz hpickles hsendable hprepare i
    obtain ⟨result, s', hrun, hshows, hs'⟩ := run_answered what hrequests hkey hanswered m.h404 hs
      ((hall idx).fits i.now task)
    obtain ⟨hreturned, hholds⟩ := hrefines _ _ result (hall idx) hsuits hshows
    simp only [hrun]
    exact ⟨_, s', _, rfl, hreturned, hs', hall.update hholds⟩

/-- **The Python client over memcached servers is a dictionary of objects**: whatever methods it is
called with, of those that are `Sendable` and suit the objects there, they return what the
dictionary returns, up to the texts of exceptions. -/
theorem results_refine (what : UInt32 → Bytes) (hz : zlib.Lossless) (hpickles : py.Pickles)
    (calls : List (Instant × Method R V))
    (hsendable : ∀ c ∈ calls, Sendable py zlib c.2)
    (hanswered : ∀ c ∈ calls, AnsweredBy pool cfg c.1 c.2.key (home c.2.key))
    (hsuit : AllSuit py home calls shelves) (hs : Serving servers s)
    (hall : AllHold py zlib servers shelves) :
    (results py zlib pool cfg what calls s).map silent = answers py home calls shelves := by
  rw [← silent_answers]
  induction calls generalizing servers shelves s with
  | nil => rfl
  | cons c calls ih =>
    obtain ⟨i, m⟩ := c
    obtain ⟨result, s', servers', hperform, hreturned, hs', hall'⟩ :=
      perform_refines what hz hpickles (hsendable _ List.mem_cons_self)
        (hanswered _ List.mem_cons_self) hsuit.1 hs hall
    have hrest := ih (fun c hc => hsendable c (List.mem_cons_of_mem _ hc))
      (fun c hc => hanswered c (List.mem_cons_of_mem _ hc)) hsuit.2 hs' hall'
    simp only [results, answers, hperform, List.map_cons, hreturned, hrest]

end Runs

/-! ### A counter under one key -/

/-- An interpreter whose floats are numbers, and whose other objects are their pickles. -/
def digits : Interpreter ℕ Bytes where
  none := []
  format := decimal
  strtold data := ofDecimal (data.takeWhile isDigit)
  dumps := some
  loads data := some (.other data)

theorem pickles_digits : digits.Pickles := by
  intro v data h
  rw [← Option.some.inj h]
  rfl

def longUp : Instant where
  now := 0
  lifespan _ := 300

theorem answeredBy_k : AnsweredBy threePool {} longUp (ascii "k") 2 where
  first := by rw [visits_k]; rfl
  callable := rfl
  reached := rfl
  lifespan := le_rfl

def countingCalls : List (Instant × Method ℕ Bytes) :=
  [.storage .set (ascii "k") (.int 10) {}, .counter .decr (ascii "k") 1 {},
    .retrieve .get (ascii "k") none, .del (ascii "k"),
    .counter .incr (ascii "k") 5 { initial := some 1 }, .retrieve .get (ascii "k") none].map
    (longUp, ·)

def emptyShelves (_ : UInt32) : Shelf ℕ Bytes where
  items _ := none

theorem allHold_empty : AllHold digits .plain emptyServers emptyShelves :=
  fun _ => ⟨rfl, fun _ => .none⟩

theorem sendable_countingCalls : ∀ c ∈ countingCalls, Sendable digits .plain c.2 := by
  have hstored : Carried .plain (.storage .set (ascii "k") (ascii "10")
      { flags := Mark.long }) := by
    refine ⟨by simp, by decide, by decide, by decide, ascii "10", ?_, by decide⟩
    decide +kernel
  intro c hc
  simp only [countingCalls, List.map_cons, List.map_nil, List.mem_cons, List.not_mem_nil,
    or_false] at hc
  rcases hc with rfl | rfl | rfl | rfl | rfl | rfl <;>
    refine ⟨by decide, by decide, fun request h => ?_⟩
  · have hprepare : (Method.storage .set (ascii "k") (.int 10) {}).prepare digits =
        .ok (.storage .set (ascii "k") (ascii "10") { flags := Mark.long }) := rfl
    rwa [← Except.ok.inj (hprepare.symm.trans h)]
  · rw [← Except.ok.inj h]
    exact ⟨by decide, by decide⟩
  · rw [← Except.ok.inj h]
    trivial
  · rw [← Except.ok.inj h]
    trivial
  · rw [← Except.ok.inj h]
    exact ⟨by decide, by decide⟩
  · rw [← Except.ok.inj h]
    trivial

theorem answeredBy_countingCalls :
    ∀ c ∈ countingCalls, AnsweredBy threePool {} c.1 c.2.key 2 := by
  intro c hc
  simp only [countingCalls, List.map_cons, List.map_nil, List.mem_cons, List.not_mem_nil,
    or_false] at hc
  rcases hc with rfl | rfl | rfl | rfl | rfl | rfl <;> exact answeredBy_k

theorem allSuit_countingCalls : AllSuit digits (fun _ => 2) countingCalls emptyShelves := by
  refine ⟨by simp [Suits], ⟨?_, ?_⟩, trivial, trivial, ⟨?_, ?_⟩, trivial, trivial⟩
  · intro opts hopts
    rw [← Except.ok.inj hopts]
    decide
  · intro slot hslot
    obtain rfl : ⟨.int 10, 0, none, 1⟩ = slot := Option.some.inj hslot
    refine ⟨rfl, rfl, fun n hn => ?_⟩
    obtain rfl : 10 = n := Option.some.inj hn
    decide
  · intro opts hopts
    rw [← Except.ok.inj hopts]
    decide
  · rintro slot ⟨⟩

theorem results_refine_counting : (results digits .plain threePool {} (fun _ => [])
    countingCalls (peers emptyServers)).map silent =
      [.ok .none, .ok (.number 9), .ok (.found { data := .int 9 }), .ok (.bool true),
        .ok (.number 1), .ok (.found { data := .str "1" })] :=
  (results_refine (fun _ => []) Zlib.lossless_plain pickles_digits countingCalls
    sendable_countingCalls answeredBy_countingCalls allSuit_countingCalls (serving_peers _)
    allHold_empty).trans (by decide +kernel)

end McacheClient.Python
