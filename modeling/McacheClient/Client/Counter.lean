import McacheClient.Client.Conversion

/-!
# Counters

The value that `incr` and `decr` return for the one that the server answers.

* `CounterReply`: a successful answer of the server under either protocol;
* `exchange_counter`: both protocols turn it into the decimal digits of the value;
* `cnvUInt64_decimal`: the conversion of the digits saturates at the largest signed number;
* **`counter_eq_iff`**: the client returns the server's value exactly when it is below `2 ^ 63`.
-/

namespace McacheClient

open Numeral

/-- The answer of a server whose counter has a new value: a header with status 0 and the value in
network order, or its digits on a line. -/
inductive CounterReply (v : UInt64) : Api → Bytes → Prop
  | binary (hdr : Binary.Header) (hmagic : hdr.magic = Binary.Header.responseMagic)
      (hstatus : hdr.status = 0) (hlen : hdr.bodyLen = 8) :
      CounterReply v .binary (hdr.bytes ++ bigEndian 8 v.toNat)
  | text : CounterReply v .text (decimal v.toNat ++ Text.crlf)

/-! ## The response -/

theorem startsWith_decimal {n : ℕ} {rest : Bytes} {s : String} {d : UInt8} {l : Bytes}
    (hs : ascii s = d :: l) (hd : isDigit d = false) :
    Text.startsWith (decimal n ++ rest) s = false := by
  rw [Text.startsWith, hs]
  cases hdec : decimal n ++ rest with
  | nil => rfl
  | cons c tail =>
    have hc : isDigit c = true := head?_decimal n rest c (by rw [hdec]; rfl)
    have hne : d ≠ c := fun h => by rw [h, hc] at hd; cases hd
    simp [List.isPrefixOf, hne]

theorem trim_decimal (n : ℕ) : Text.trim (decimal n ++ Text.crlf) = decimal n := by
  have hlast : ∀ c ∈ (decimal n).reverse.head?, Stream.isSpace c = false := fun c hc =>
    Stream.isSpace_of_isDigit
      (isDigit_of_mem_decimal (List.mem_reverse.mp (List.mem_of_mem_head? hc)))
  have hspace : ∀ c ∈ Text.crlf.reverse, Stream.isSpace c = true := List.all_eq_true.mp rfl
  have hdrop := Stream.skipSpace_append _ hspace hlast
  have hskip := skipSpace_decimal n Text.crlf
  rw [Stream.skipSpace] at hdrop hskip
  rw [Text.trim, hskip, List.reverse_append, hdrop, List.reverse_reverse]

theorem incrDecrKnown_decimal (v : UInt64) : Text.incrDecrKnown (decimal v.toNat ++ Text.crlf) =
    some { response := { code := .ok, data := decimal v.toNat } } := by
  have hnum := Stream.extractUnsigned_decimal [] v.toNat_lt nofun
    (show ∀ c ∈ Text.crlf.head?, isDigit c = false from fun c hc => by cases hc; rfl)
  have hdigit : (decimal v.toNat ++ Text.crlf).head?.any isDigit = true := by
    cases hdec : decimal v.toNat ++ Text.crlf with
    | nil => exact absurd (List.append_eq_nil_iff.mp hdec).1 (decimal_ne_nil _)
    | cons c tail => exact head?_decimal v.toNat Text.crlf c (by rw [hdec]; rfl)
  rw [List.nil_append] at hnum
  rw [Text.incrDecrKnown, startsWith_decimal (l := ascii "OUCHED") rfl rfl,
    startsWith_decimal (l := ascii "OT_FOUND") rfl rfl, hnum, hdigit, trim_decimal]
  rfl

theorem Binary.exchange_counter (zlib : Zlib) (name : CounterName) {key : Bytes} (value : UInt64)
    {opts : Opts} (hkey : checkKey key = .ok ()) {v : UInt64} {hdr : Binary.Header}
    (hmagic : hdr.magic = Binary.Header.responseMagic) (hstatus : hdr.status = 0)
    (hlen : hdr.bodyLen = 8) {rest : Bytes} {c : Connection}
    (hc : c.input = hdr.bytes ++ bigEndian 8 v.toNat ++ rest) :
    (Api.binary.exchange zlib (.counter name key value opts) c).1 =
      .ok { code := .ok, data := decimal v.toNat } := by
  obtain ⟨data, hdata⟩ : ∃ data,
      (Binary.incrDecrCommand (Binary.counterCode name) key value opts).serialize = .ok data :=
    ⟨_, by rw [Binary.incrDecrCommand, Binary.keyed, hkey]; rfl⟩
  rw [Api.exchange_eq rfl, Binary.commandParserSend_header hdata rfl rfl hmagic
    (hc.trans (List.append_assoc _ _ _)), if_pos hstatus, Binary.incrDecrSuccess,
    if_neg (not_not_intro hlen)]
  have hsize : hdr.bodyLen.toUInt64.toNat = (bigEndian 8 v.toNat).length := by
    rw [hlen, length_bigEndian]
    rfl
  have hvalue : ofBigEndian (bigEndian 8 v.toNat) = v.toNat := by
    rw [ofBigEndian_bigEndian]
    exact Nat.mod_eq_of_lt v.toNat_lt
  have hne : bigEndian 8 v.toNat ≠ [] := fun h => by
    have := length_bigEndian 8 v.toNat
    rw [h] at this
    cases this
  rw [deserializeBody_append rfl hsize hne]
  simp [Binary.incrDecrSetBody, hvalue]

theorem Text.exchange_counter (zlib : Zlib) (name : CounterName) {key : Bytes} (value : UInt64)
    {opts : Opts} (hkey : checkKey key = .ok ()) (hinit : opts.initial = 0) {v : UInt64}
    {rest : Bytes} {c : Connection} (hc : c.input = decimal v.toNat ++ Text.crlf ++ rest) :
    (Api.text.exchange zlib (.counter name key value opts) c).1 =
      .ok { code := .ok, data := decimal v.toNat } := by
  have hcmd : Api.text.command zlib (.counter name key value opts) =
      .ok (Text.incrDecrCommand (Text.counterName name) key value) :=
    if_neg (not_not_intro hinit)
  have hser : (Text.incrDecrCommand (Text.counterName name) key value).serialize =
      .ok (Text.line [Text.counterName name, key, decimal value.toNat]) := by
    rw [Text.incrDecrCommand, Text.keyed, hkey]
    rfl
  have h13 : (13 : UInt8) ∉ decimal v.toNat := fun h => nomatch isDigit_of_mem_decimal h
  have hheader : Text.deserializeHeader Text.incrDecrKnown (decimal v.toNat ++ Text.crlf) =
      .ok { response := { code := .ok, data := decimal v.toNat } } := by
    have hne : decimal v.toNat ++ Text.crlf ≠ [] := by simp [Text.crlf]
    rw [Text.deserializeHeader, if_neg hne, incrDecrKnown_decimal]
    rfl
  rw [Api.exchange_eq hcmd, Text.commandParserSend_line hser rfl h13 hheader hc]
  rfl

/-- **Both protocols give the digits of the server's value.** -/
theorem exchange_counter {api : Api} (zlib : Zlib) (name : CounterName) {key : Bytes}
    (value : UInt64) {opts : Opts} (hkey : checkKey key = .ok ())
    (hinit : api = .text → opts.initial = 0) {v : UInt64} {reply rest : Bytes}
    (hreply : CounterReply v api reply) {c : Connection} (hc : c.input = reply ++ rest) :
    (api.exchange zlib (.counter name key value opts) c).1 =
      .ok { code := .ok, data := decimal v.toNat } := by
  cases hreply with
  | binary hdr hmagic hstatus hlen =>
    exact Binary.exchange_counter zlib name value hkey hmagic hstatus hlen hc
  | text => exact Text.exchange_counter zlib name value hkey (hinit rfl) hc

/-! ## The conversion -/

theorem cnvUInt64_decimal (v : UInt64) :
    cnvUInt64 (decimal v.toNat) = if v.toNat < 2 ^ 63 then v else 9223372036854775807 := by
  rw [cnvUInt64, atoll_decimal]
  split_ifs with hv
  · rw [min_eq_left (by omega), Int64.ofInt_eq_ofNat]
    exact UInt64.ofNat_toNat
  · rw [min_eq_right (by omega)]
    rfl

/-- The requests of a client over one connection, and a functor. -/
def overConnection (api : Api) (zlib : Zlib)
    (callback : Bytes → UInt32 → Connection → Except Exn (Bytes × UInt32) × Connection) :
    (o : ClientOp) → Connection → o.Answer × Connection :=
  interpret (fun request _ => api.exchange zlib request) callback

/-- **The client returns the server's value exactly when it is below `2 ^ 63`.** -/
theorem counter_eq_iff {api : Api} {zlib : Zlib} (callback) (name : CounterName) {key : Bytes}
    (value : UInt64) {opts : Opts} (hkey : checkKey key = .ok ())
    (hinit : api = .text → opts.initial = 0) {v : UInt64} {reply rest : Bytes}
    (hreply : CounterReply v api reply) {c : Connection} (hc : c.input = reply ++ rest) :
    ((counter name key value opts).run.exec (overConnection api zlib callback) c).1 =
        .ok (v, true) ↔ v.toNat < 2 ^ 63 := by
  have hresponse := exchange_counter zlib name value hkey hinit hreply hc
  have hexec : ((counter name key value opts).run.exec (overConnection api zlib callback) c).1 =
      .ok (cnvUInt64 (decimal v.toNat), true) := by
    show (Program.exec _ (Program.call _ fun r => _) c).1 = _
    rw [Program.exec_call]
    simp only [overConnection, interpret, hresponse]
    rfl
  rw [hexec, cnvUInt64_decimal]
  split_ifs with hv
  · exact iff_of_true rfl hv
  · refine iff_of_false (fun h => hv ?_) hv
    rw [← (Prod.mk.inj (Except.ok.inj h)).1]
    decide

/-- Both answers to `incr` of the key `n` with the value `2 ^ 63`, and what the client returns. -/
theorem not_counter_eq :
    ((incr (ascii "n") 1 {}).run.exec (overConnection .text .plain fun _ _ c => (.ok ([], 0), c))
      { input := ascii "9223372036854775808\r\n" }).1 = .ok (9223372036854775807, true) ∧
    ((incr (ascii "n") 1 {}).run.exec (overConnection .binary .plain fun _ _ c => (.ok ([], 0), c))
      { input :=
          { magic := 0x81, keyLen := 0, extrasLen := 0, bodyLen := 8 : Binary.Header }.bytes ++
            bigEndian 8 9223372036854775808 }).1 = .ok (9223372036854775807, true) := by
  constructor <;> rfl

theorem counter_eq_iff_five :
    ((incr (ascii "n") 1 {}).run.exec (overConnection .text .plain fun _ _ c => (.ok ([], 0), c))
      { input := ascii "5\r\n" }).1 = .ok (5, true) ↔ (5 : UInt64).toNat < 2 ^ 63 :=
  counter_eq_iff _ .incr 1 rfl (fun _ => rfl) CounterReply.text (List.append_nil _).symm

end McacheClient
