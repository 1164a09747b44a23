import McacheClient.Client.Updates
import McacheClient.Python.Refinement

/-!
# Updates of objects

`atomic_update` of the Python client, whose functor converts what is stored to an object, calls a
function of Python, and converts the object that this returns.

* `shown`, `functor`: `atomic_updateo`'s functor; an empty string is shown as `None`;
* `shownAs`: what the next function is shown of an object that was stored;
* `shown_of_toString`: it is shown so;
* `applied_objects`: functors that are applied one after the other, as functions of objects;
* **`objects_serialized`**: updates by functions of Python are serialized.
-/

namespace McacheClient.Python

section Functor

variable {R V : Type} (py : Interpreter R V)

/-- What a function of Python is called with. -/
def shown (value : Bytes × UInt32) : Except Raised (Object R V) :=
  if value.1 = [] ∧ value.2 = 0 then .ok (.other py.none)
  else dataFromString py value.1 value.2

/-- The functor that `atomic_updateo` makes of a function, with the object that it keeps to return
it. -/
def functor (callback : Object R V → Except Raised (Object R V)) (value : Bytes × UInt32) :
    Except Raised (Object R V × Bytes × UInt32) := do
  let res ← callback (← shown py value)
  let (data, opts) ← toString py res {}
  return (res, data, opts.flags)

/-- What the next function is called with. -/
def shownAs : Object R V → Object R V
  | .str text => if text = "" then .other py.none else .str text
  | object => kept py object

/-- An object is stored as this value. -/
def StoredAs (object : Object R V) (value : Bytes × UInt32) : Prop :=
  ∃ opts, toString py object {} = .ok (value.1, opts) ∧ opts.flags = value.2

variable {py} {object : Object R V} {value : Bytes × UInt32}

theorem utf8_eq_nil {text : String} (h : utf8 text = []) : text = "" := by
  have hdecode := decode_utf8 text
  rw [h] at hdecode
  exact Option.some.inj (hdecode.symm.trans (decode_utf8 ""))

theorem Encodes.eq_str {data : Bytes} {mark : UInt32} (h : Encodes py data mark object)
    (hmark : mark = 0) : ∃ text, object = .str text ∧ data = utf8 text := by
  cases h with
  | str text => exact ⟨text, rfl, rfl⟩
  | float | int | other => exact absurd hmark (by decide)

/-- **What was stored** is shown to the next function. -/
theorem shown_of_storedAs (hpickles : py.Pickles) (h : StoredAs py object value) :
    shown py value = .ok (shownAs py object) := by
  obtain ⟨opts, hstring, hflags⟩ := h
  have hencodes := (encodes_toString hpickles hstring).1
  rw [hflags] at hencodes
  unfold shown
  split_ifs with hempty
  · obtain ⟨text, hkept, htext⟩ := hencodes.eq_str (by rw [hempty.2, UInt32.zero_and])
    have hobject : object = .str text := by
      cases object <;> simp_all [kept]
    have hnil : text = "" := utf8_eq_nil (htext.symm.trans hempty.1)
    rw [hobject, shownAs, if_pos hnil]
  · rw [dataFromString_of_encodes hencodes]
    cases object with
    | str text =>
      have hne : text ≠ "" := by
        rintro rfl
        obtain ⟨hdata, rfl⟩ := Prod.mk.inj (Except.ok.inj hstring)
        exact hempty ⟨hdata.symm, hflags.symm⟩
      rw [shownAs, if_neg hne]
      rfl
    | _ => rfl

/-- **A functor** calls its function with what is shown, and the object is stored. -/
theorem functor_eq_ok {callback : Object R V → Except Raised (Object R V)} {now : Object R V}
    (hshown : shown py value = .ok now) {res : Object R V} {newData : Bytes × UInt32}
    (h : functor py callback value = .ok (res, newData)) :
    callback now = .ok res ∧ StoredAs py res newData := by
  unfold functor at h
  simp only [hshown, bind, Except.bind] at h
  cases hres : callback now with
  | error e => simp [hres] at h
  | ok object =>
    simp only [hres] at h
    cases hstring : toString py object {} with
    | error e => simp [hstring] at h
    | ok p =>
      simp only [hstring] at h
      obtain ⟨rfl, rfl⟩ := Prod.mk.inj (Except.ok.inj h)
      exact ⟨rfl, p.2, hstring, rfl⟩

end Functor

/-! ## One after the other -/

section Serialized

variable {R V τ : Type} (py : Interpreter R V) (raise : Raised → Exn)
  (callback : τ → Object R V → Except Raised (Object R V))

/-- The functor as the client sees it; what it raises is thrown by the client. -/
def thrown (t : τ) (value : Bytes × UInt32) : Except Exn (Bytes × UInt32) :=
  ((functor py (callback t) value).map Prod.snd).mapError raise

variable {py raise callback}

/-- Updates as the server knows them, and as their functions do. -/
def SameUpdates (py : Interpreter R V) :
    List (τ × Bytes × UInt32) → List (τ × Object R V) → Prop :=
  List.Forall₂ fun x y => x.1 = y.1 ∧ StoredAs py y.2 x.2

namespace SameUpdates

variable {order : List (τ × Bytes × UInt32)} {objects : List (τ × Object R V)} {t : τ}

theorem map_fst (h : SameUpdates py order objects) :
    order.map Prod.fst = objects.map Prod.fst := by
  induction h with
  | nil => rfl
  | cons hxy _ ih => rw [List.map_cons, List.map_cons, hxy.1, ih]

theorem stored (h : SameUpdates py order objects) {object : Object R V}
    (hmem : (t, object) ∈ objects) : ∃ newData, (t, newData) ∈ order ∧
      StoredAs py object newData := by
  induction h with
  | nil => cases hmem
  | @cons x y order objects hxy _ ih =>
    rcases List.mem_cons.mp hmem with rfl | hmem
    · obtain ⟨u, data⟩ := x
      obtain rfl : u = t := hxy.1
      exact ⟨data, List.mem_cons_self, hxy.2⟩
    · obtain ⟨newData, hdata, hstored⟩ := ih hmem
      exact ⟨newData, List.mem_cons_of_mem _ hdata, hstored⟩

theorem returned (h : SameUpdates py order objects) {newData : Bytes × UInt32}
    (hmem : (t, newData) ∈ order) : ∃ object, (t, object) ∈ objects ∧
      StoredAs py object newData := by
  induction h with
  | nil => cases hmem
  | @cons x y order objects hxy _ ih =>
    rcases List.mem_cons.mp hmem with rfl | hmem
    · obtain ⟨u, object⟩ := y
      obtain rfl : t = u := hxy.1
      exact ⟨object, List.mem_cons_self, hxy.2⟩
    · obtain ⟨object, hobject, hstored⟩ := ih hmem
      exact ⟨object, List.mem_cons_of_mem _ hobject, hstored⟩

end SameUpdates

/-- **Functors that are applied one after the other** are functions of objects. -/
theorem applied_objects (hpickles : py.Pickles) {first : Object R V} {v u : Bytes × UInt32}
    {order : List (τ × Bytes × UInt32)} (h : Applied (thrown py raise callback) v order u)
    (hv : shown py v = .ok (shownAs py first)) :
    ∃ objects last, Applied (fun t object => callback t (shownAs py object)) first objects last ∧
      shown py u = .ok (shownAs py last) ∧
      SameUpdates py order objects := by
  induction h with
  | first => exact ⟨[], first, .first, hv, .nil⟩
  | @next order u w t h hf ih =>
    obtain ⟨objects, last, happlied, hu, hsame⟩ := ih
    obtain ⟨res, hres⟩ : ∃ res, functor py (callback t) u = .ok (res, w) := by
      unfold thrown at hf
      cases hfunctor : functor py (callback t) u with
      | error e =>
        rw [hfunctor] at hf
        cases hf
      | ok p =>
        rw [hfunctor] at hf
        exact ⟨p.1, congrArg (fun x => Except.ok (p.1, x)) (Except.ok.inj hf)⟩
    obtain ⟨hcall, hstored⟩ := functor_eq_ok hu hres
    exact ⟨objects ++ [(t, res)], res, happlied.next hcall, shown_of_storedAs hpickles hstored,
      List.rel_append hsame (.cons ⟨rfl, hstored⟩ .nil)⟩

variable [DecidableEq τ] {client : τ → Client} {zlib : Zlib} {updates : τ → Option Opts}
  {key : Bytes}

/-- **Updates by functions of Python are serialized.** All requests reach one live server, which
never fails, nothing expires, and every new entry gets a new cas id. In every run of any number of
threads that update a key by `atomic_update` of the Python client, or spare it: the object under the
key is what the functions of the updates that returned make of the first object, one after the
other, each exactly once. A function is called with what is kept of the object before, and with
`None` for an empty string, as for no value. -/
theorem objects_serialized (hpickles : py.Pickles) (hz : zlib.Lossless) {first : Object R V}
    {v : Bytes × UInt32} {entries : Bytes → Option Entry}
    {program : τ → ClientM (Bytes × UInt32)} (hprogram : ∀ t, Does key (program t) (updates t))
    (hv : Held zlib v.1 v.2 (entries key)) (hfirst : shown py v = .ok (shownAs py first))
    {ls : List (τ × ClientChoice)} {s : ClientThreads τ}
    (hrun : Run.exec (clientStep client zlib) (.initially entries program) ls = some s)
    (hf : Run.Along (clientStep client zlib)
      (fun s l _ => Functional (thrown py raise callback) updates s l)
      (.initially entries program) ls) :
    ∃ objects last u,
      Applied (fun t object => callback t (shownAs py object)) first objects last ∧
      HasValue zlib u (s.shared.entries key) ∧ shown py u = .ok (shownAs py last) ∧
      (objects.map Prod.fst).Nodup ∧
      (∀ t object, (t, object) ∈ objects → updates t ≠ none ∧
        ∃ newData, s.left t = .done (.ok newData) ∧ StoredAs py object newData) ∧
      ∀ t newData, updates t ≠ none → s.left t = .done (.ok newData) →
        ∃ object, (t, object) ∈ objects ∧ StoredAs py object newData := by
  obtain ⟨order, u, happlied, hheld, hnodup, hmem⟩ := updates_serialized hz hprogram hv hrun hf
  obtain ⟨objects, last, hobjects, hu, hsame⟩ := applied_objects hpickles happlied hfirst
  refine ⟨objects, last, u, hobjects, hheld, hu, hsame.map_fst ▸ hnodup, fun t object h => ?_,
    fun t newData ht hdone => hsame.returned ((hmem t newData).mpr ⟨ht, hdone⟩)⟩
  obtain ⟨newData, hdata, hstored⟩ := hsame.stored h
  obtain ⟨ht, hdone⟩ := (hmem t newData).mp hdata
  exact ⟨ht, newData, hdone, hstored⟩

end Serialized

/-! ### A counter of objects -/

/-- Both threads count, from nothing. -/
def countUp (_ : Bool) : Object ℕ Bytes → Except Raised (Object ℕ Bytes)
  | .int n => .ok (.int (n + 1))
  | _ => .ok (.int 1)

def raised (_ : Raised) : Exn := .undefined

/-- The functor, if it is called, returns this text of a number. -/
def numberChoice (text : String) (fresh : CasId) : ClientChoice where
  result := .ok (ascii text, Mark.long)
  fresh := fresh
  now := 1000

def countedTwice : List (Bool × ClientChoice) :=
  [(true, numberChoice "1" ⟨30, by decide⟩), (true, numberChoice "1" ⟨30, by decide⟩),
    (true, numberChoice "1" ⟨30, by decide⟩), (false, numberChoice "2" ⟨32, by decide⟩),
    (false, numberChoice "2" ⟨32, by decide⟩), (false, numberChoice "2" ⟨32, by decide⟩)]

theorem objects_serialized_countedTwice : ∃ s,
    Run.exec (clientStep textClients .plain) (.initially (fun _ => none) bothUpdate) countedTwice =
        some s ∧
      s.left false = .done (.ok (ascii "2", Mark.long)) ∧
      ∃ objects last u,
        Applied (fun t object => countUp t (shownAs digits object)) (.other []) objects last ∧
        HasValue .plain u (s.shared.entries (ascii "zz")) ∧
        shown digits u = .ok (shownAs digits last) ∧ (objects.map Prod.fst).Nodup ∧
        (∀ t object, (t, object) ∈ objects → some ({} : Opts) ≠ none ∧
          ∃ newData, s.left t = .done (.ok newData) ∧ StoredAs digits object newData) ∧
        ∀ t newData, some ({} : Opts) ≠ none → s.left t = .done (.ok newData) →
          ∃ object, (t, object) ∈ objects ∧ StoredAs digits object newData := by
  obtain ⟨s, hrun, hfunctional, hleft⟩ : ∃ s,
      Run.exec (clientStep textClients .plain) (.initially (fun _ => none) bothUpdate)
        countedTwice = some s ∧
      Run.Along (clientStep textClients .plain)
        (fun s l _ => Functional (thrown digits raised countUp) (fun _ => some {}) s l)
        (.initially (fun _ => none) bothUpdate) countedTwice ∧
      s.left false = .done (.ok (ascii "2", Mark.long)) := by
    refine Run.exists_cons (Threads.step_call rfl
      (clientAtomic_onlyServer rfl (by decide) (by decide))) (by rintro _ - _ _ _ ⟨⟩) ?_
    refine Run.exists_cons (Threads.step_call rfl rfl) (by rintro _ - _ _ _ ⟨⟩; rfl) ?_
    refine Run.exists_cons (Threads.step_call rfl
      (clientAtomic_onlyServer rfl (by decide) (by decide))) (by rintro _ - _ _ _ ⟨⟩) ?_
    refine Run.exists_cons (Threads.step_call rfl
      (clientAtomic_onlyServer rfl (by decide) (by decide))) (by rintro _ - _ _ _ ⟨⟩) ?_
    refine Run.exists_cons (Threads.step_call rfl rfl) (by rintro _ - _ _ _ ⟨⟩; rfl) ?_
    refine Run.exists_cons (Threads.step_call rfl
      (clientAtomic_onlyServer rfl (by decide) (by decide))) (by rintro _ - _ _ _ ⟨⟩) ?_
    exact ⟨_, rfl, trivial, rfl⟩
  have hprogram : ∀ t, Does (ascii "zz") (bothUpdate t) (some {}) := fun _ => rfl
  have hfirst : shown digits ([], 0) = .ok (shownAs digits (.other [])) := rfl
  have hv : Held .plain ([] : Bytes) 0 (none : Option Entry) := ⟨rfl, rfl⟩
  exact ⟨s, hrun, hleft, objects_serialized pickles_digits Zlib.lossless_plain
    (v := ([], 0)) hprogram hv hfirst hrun hfunctional⟩

end McacheClient.Python
