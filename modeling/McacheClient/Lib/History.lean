import Mathlib.Data.List.Basic
import Mathlib.Data.List.Nodup
import Mathlib.Tactic.SplitIfs

/-!
# Linearizable histories

Calls that threads make of a service: a call is invoked, takes effect at most once, and may return
later, or not at all.

* `Service`: what operations do one after the other, and what calls have to do with them;
* `CallHistory`: the calls that were invoked, in order, those that took effect, and those that
  returned;
* `CallHistory.Explains`: the answers are those of the operations one after the other;
* **`CallHistory.Linearizable`**: every call that returned a result took effect between its
  invocation and its return, and the result shows the answer that it got there;
* `CallHistory.Extends`: calls were added; what took effect stays so;
* `Linearizable.invoke`, `Linearizable.execute`, `Linearizable.respond`: what keeps a history so;
* **`Linearizable.realTime`**: a call that returned before another one was invoked took effect
  before it.
-/

/-- Operations `ι` with answers `ο` over states `σ`, and calls `κ` with results `ρ` of them. -/
structure Service (κ ι ο ρ σ : Type) where
  step : ι → σ → ο × σ
  asks : κ → ι → Prop
  shows : κ → ο → ρ → Prop
  failed : ρ → Prop

/-- A call of a thread, invoked after `since` calls took effect. -/
structure Invocation (θ κ : Type) where
  thread : θ
  call : κ
  since : ℕ

/-- The operation by which a call took effect. The call is known by its place in the history. -/
structure Execution (ι ο : Type) where
  ticket : ℕ
  op : ι
  answer : ο

/-- A call that returned to its thread after `till` calls took effect. -/
structure Return (θ ρ : Type) where
  thread : θ
  ticket : ℕ
  result : ρ
  till : ℕ

structure CallHistory (θ κ ι ο ρ : Type) where
  invoked : List (Invocation θ κ) := []
  log : List (Execution ι ο) := []
  returned : List (Return θ ρ) := []

namespace CallHistory

variable {θ κ ι ο ρ σ : Type}

def invoke (h : CallHistory θ κ ι ο ρ) (thread : θ) (call : κ) : CallHistory θ κ ι ο ρ :=
  { h with invoked := h.invoked ++ [⟨thread, call, h.log.length⟩] }

def execute (h : CallHistory θ κ ι ο ρ) (ticket : ℕ) (op : ι) (answer : ο) :
    CallHistory θ κ ι ο ρ :=
  { h with log := h.log ++ [⟨ticket, op, answer⟩] }

def respond (h : CallHistory θ κ ι ο ρ) (thread : θ) (ticket : ℕ) (result : ρ) :
    CallHistory θ κ ι ο ρ :=
  { h with returned := h.returned ++ [⟨thread, ticket, result, h.log.length⟩] }

/-- The operations of a log lead from one state to another, with their answers. -/
def Explains (step : ι → σ → ο × σ) : List (Execution ι ο) → σ → σ → Prop
  | [], s, s' => s = s'
  | x :: log, s, s' => x.answer = (step x.op s).1 ∧ Explains step log (step x.op s).2 s'

theorem explains_append {step : ι → σ → ο × σ} {log : List (Execution ι ο)} {x : Execution ι ο}
    {s s' : σ} (h : Explains step log s s') (hanswer : x.answer = (step x.op s').1) :
    Explains step (log ++ [x]) s (step x.op s').2 := by
  induction log generalizing s with
  | nil =>
    obtain rfl := show s = s' from h
    exact ⟨hanswer, rfl⟩
  | cons y log ih => exact ⟨h.1, ih h.2⟩

/-- The call took effect as operation `k`, after it was invoked, and `answer` is what it got. -/
structure TookEffect (h : CallHistory θ κ ι ο ρ) (thread : θ) (call : κ) (ticket k : ℕ)
    (answer : ο) : Prop where
  invocation : ∃ i, h.invoked[ticket]? = some i ∧ i.thread = thread ∧ i.call = call ∧ i.since ≤ k
  execution : ∃ x, h.log[k]? = some x ∧ x.ticket = ticket ∧ x.answer = answer

/-- A history that leads from one state of a service to another one. -/
structure Linearizable (service : Service κ ι ο ρ σ) (s s' : σ) (h : CallHistory θ κ ι ο ρ) :
    Prop where
  asked : ∀ (k : ℕ) x, h.log[k]? = some x →
    ∃ i, h.invoked[x.ticket]? = some i ∧ i.since ≤ k ∧ service.asks i.call x.op
  once : (h.log.map Execution.ticket).Nodup
  explains : Explains service.step h.log s s'
  since_le : ∀ i ∈ h.invoked, i.since ≤ h.log.length
  called : ∀ r ∈ h.returned, ∃ i, h.invoked[r.ticket]? = some i ∧ i.thread = r.thread
  returned : ∀ r ∈ h.returned, service.failed r.result ∨
    ∃ call k answer, k < r.till ∧ h.TookEffect r.thread call r.ticket k answer ∧
      service.shows call answer r.result
  returned_once : (h.returned.map Return.ticket).Nodup

variable {service : Service κ ι ο ρ σ} {s s' : σ} {h : CallHistory θ κ ι ο ρ}

theorem linearizable_nil (service : Service κ ι ο ρ σ) (s : σ) :
    ({} : CallHistory θ κ ι ο ρ).Linearizable service s s where
  asked _ _ hx := nomatch hx
  once := List.nodup_nil
  explains := rfl
  since_le _ hi := nomatch hi
  called _ hr := nomatch hr
  returned _ hr := nomatch hr
  returned_once := List.nodup_nil

/-! ## What happens later -/

theorem getElem?_append_of_some {α : Type} {l : List α} {k : ℕ} {a : α} (h : l[k]? = some a)
    (l' : List α) : (l ++ l')[k]? = some a := by
  rw [List.getElem?_append_left (List.getElem?_eq_some_iff.mp h).1, h]

/-- Calls were added. -/
structure Extends (h h' : CallHistory θ κ ι ο ρ) : Prop where
  invoked : h.invoked <+: h'.invoked
  log : h.log <+: h'.log

theorem extends_invoke (h : CallHistory θ κ ι ο ρ) (thread : θ) (call : κ) :
    h.Extends (h.invoke thread call) :=
  ⟨List.prefix_append _ _, List.prefix_rfl⟩

theorem extends_execute (h : CallHistory θ κ ι ο ρ) (ticket : ℕ) (op : ι) (answer : ο) :
    h.Extends (h.execute ticket op answer) :=
  ⟨List.prefix_rfl, List.prefix_append _ _⟩

theorem extends_respond (h : CallHistory θ κ ι ο ρ) (thread : θ) (ticket : ℕ) (result : ρ) :
    h.Extends (h.respond thread ticket result) :=
  ⟨List.prefix_rfl, List.prefix_rfl⟩

theorem Extends.getElem?_invoked {h' : CallHistory θ κ ι ο ρ} (he : h.Extends h') {ticket : ℕ}
    {i : Invocation θ κ} (hi : h.invoked[ticket]? = some i) : h'.invoked[ticket]? = some i := by
  obtain ⟨l, hl⟩ := he.invoked
  rw [← hl]
  exact getElem?_append_of_some hi l

theorem TookEffect.mono {h' : CallHistory θ κ ι ο ρ} {thread : θ} {call : κ} {ticket k : ℕ}
    {answer : ο} (heffect : h.TookEffect thread call ticket k answer) (he : h.Extends h') :
    h'.TookEffect thread call ticket k answer where
  invocation := by
    obtain ⟨i, hi, hcall⟩ := heffect.invocation
    exact ⟨i, he.getElem?_invoked hi, hcall⟩
  execution := by
    obtain ⟨x, hx, hticket⟩ := heffect.execution
    obtain ⟨l, hl⟩ := he.log
    rw [← hl]
    exact ⟨x, getElem?_append_of_some hx l, hticket⟩

theorem tookEffect_execute {ticket : ℕ} {i : Invocation θ κ} (hi : h.invoked[ticket]? = some i)
    (hsince : i.since ≤ h.log.length) (op : ι) (answer : ο) :
    (h.execute ticket op answer).TookEffect i.thread i.call ticket h.log.length answer where
  invocation := ⟨i, hi, rfl, rfl, hsince⟩
  execution := by
    refine ⟨⟨ticket, op, answer⟩, ?_, rfl, rfl⟩
    show (h.log ++ [_])[h.log.length]? = _
    rw [List.getElem?_append_right (Nat.le_refl _), Nat.sub_self]
    rfl

/-! ## Linearizable histories stay so -/

namespace Linearizable

theorem invoke (hh : h.Linearizable service s s') (thread : θ) (call : κ) :
    (h.invoke thread call).Linearizable service s s' where
  asked k x hx := by
    obtain ⟨i, hi, hasks⟩ := hh.asked k x hx
    exact ⟨i, getElem?_append_of_some hi _, hasks⟩
  once := hh.once
  explains := hh.explains
  since_le i hi := by
    rcases List.mem_append.mp hi with hi | hi
    · exact hh.since_le i hi
    · rw [List.mem_singleton.mp hi]
      exact Nat.le_refl _
  called r hr := by
    obtain ⟨i, hi, hthread⟩ := hh.called r hr
    exact ⟨i, getElem?_append_of_some hi _, hthread⟩
  returned r hr := by
    refine (hh.returned r hr).imp_right ?_
    rintro ⟨call', k, answer, hk, heffect, hshows⟩
    exact ⟨call', k, answer, hk, heffect.mono (extends_invoke h thread call), hshows⟩
  returned_once := hh.returned_once

/-- **A call takes effect** that did not before. -/
theorem execute (hh : h.Linearizable service s s') {ticket : ℕ} {i : Invocation θ κ} {op : ι}
    (hi : h.invoked[ticket]? = some i) (hasks : service.asks i.call op)
    (hfresh : ticket ∉ h.log.map Execution.ticket) :
    (h.execute ticket op (service.step op s').1).Linearizable service s (service.step op s').2 where
  asked k x hx := by
    have hx : (h.log ++ [_])[k]? = some x := hx
    by_cases hk : k < h.log.length
    · rw [List.getElem?_append_left hk] at hx
      exact hh.asked k x hx
    · rw [List.getElem?_append_right (Nat.not_lt.mp hk), List.getElem?_singleton] at hx
      split_ifs at hx
      obtain rfl := Option.some.inj hx
      have hsince := hh.since_le i (List.mem_of_getElem? hi)
      exact ⟨i, hi, by omega, hasks⟩
  once := by
    show ((h.log ++ [_]).map Execution.ticket).Nodup
    rw [List.map_append]
    refine List.nodup_append.mpr ⟨hh.once, List.nodup_singleton _, ?_⟩
    rintro a ha b hb rfl
    rw [List.map_singleton, List.mem_singleton] at hb
    rw [hb] at ha
    exact hfresh ha
  explains := explains_append hh.explains rfl
  since_le i hi := by
    have hle := hh.since_le i hi
    show i.since ≤ (h.log ++ [_]).length
    rw [List.length_append]
    omega
  called := hh.called
  returned r hr := by
    refine (hh.returned r hr).imp_right ?_
    rintro ⟨call, k, answer, hk, heffect, hshows⟩
    exact ⟨call, k, answer, hk, heffect.mono (extends_execute h _ _ _), hshows⟩
  returned_once := hh.returned_once

/-- **A call returns** that did not before: it failed, or it took effect. -/
theorem respond (hh : h.Linearizable service s s') {i : Invocation θ κ} {ticket : ℕ} {result : ρ}
    (hi : h.invoked[ticket]? = some i)
    (hresult : service.failed result ∨ ∃ k answer,
      h.TookEffect i.thread i.call ticket k answer ∧ service.shows i.call answer result)
    (hfresh : ticket ∉ h.returned.map Return.ticket) :
    (h.respond i.thread ticket result).Linearizable service s s' where
  asked := hh.asked
  once := hh.once
  explains := hh.explains
  since_le := hh.since_le
  called r hr := by
    rcases List.mem_append.mp hr with hr | hr
    · exact hh.called r hr
    · rw [List.mem_singleton.mp hr]
      exact ⟨i, hi, rfl⟩
  returned r hr := by
    rcases List.mem_append.mp hr with hr | hr
    · refine (hh.returned r hr).imp_right ?_
      rintro ⟨call, k, answer, hk, heffect, hshows⟩
      exact ⟨call, k, answer, hk, heffect.mono (extends_respond h _ _ _), hshows⟩
    · rw [List.mem_singleton.mp hr]
      refine hresult.imp_right ?_
      rintro ⟨k, answer, heffect, hshows⟩
      obtain ⟨x, hx, -⟩ := heffect.execution
      have hk : k < h.log.length := (List.getElem?_eq_some_iff.mp hx).1
      exact ⟨i.call, k, answer, hk, heffect.mono (extends_respond h _ _ _), hshows⟩
  returned_once := by
    show ((h.returned ++ [_]).map Return.ticket).Nodup
    rw [List.map_append]
    refine List.nodup_append.mpr ⟨hh.returned_once, List.nodup_singleton _, ?_⟩
    rintro a ha b hb rfl
    rw [List.map_singleton, List.mem_singleton] at hb
    rw [hb] at ha
    exact hfresh ha

theorem next_ticket (hh : h.Linearizable service s s') :
    h.invoked.length ∉ h.log.map Execution.ticket ∧
      h.invoked.length ∉ h.returned.map Return.ticket := by
  constructor <;> intro hmem
  · obtain ⟨x, hx, hticket⟩ := List.mem_map.mp hmem
    obtain ⟨k, hk⟩ := List.mem_iff_getElem?.mp hx
    obtain ⟨i, hi, -⟩ := hh.asked k x hk
    rw [hticket, List.getElem?_eq_none (Nat.le_refl _)] at hi
    cases hi
  · obtain ⟨r, hr, hticket⟩ := List.mem_map.mp hmem
    obtain ⟨i, hi, -⟩ := hh.called r hr
    rw [hticket, List.getElem?_eq_none (Nat.le_refl _)] at hi
    cases hi

/-! ## The order of effects -/

theorem index_eq (hh : h.Linearizable service s s') {x y : Execution ι ο} {j k : ℕ}
    (hx : h.log[j]? = some x) (hy : h.log[k]? = some y) (hticket : x.ticket = y.ticket) :
    j = k := by
  have hj : (h.log.map Execution.ticket)[j]? = some x.ticket := by rw [List.getElem?_map, hx]; rfl
  have hk : (h.log.map Execution.ticket)[k]? = some x.ticket := by
    rw [List.getElem?_map, hy, hticket]
    rfl
  obtain ⟨hjlt, hj⟩ := List.getElem?_eq_some_iff.mp hj
  obtain ⟨hklt, hk⟩ := List.getElem?_eq_some_iff.mp hk
  exact (List.Nodup.getElem_inj_iff hh.once).mp (hj.trans hk.symm)

/-- **Effects keep the order of calls in time**: a call that returned a result before another one
was invoked took effect before it. -/
theorem realTime (hh : h.Linearizable service s s') {r : Return θ ρ} {i : Invocation θ κ}
    {x y : Execution ι ο} {j k : ℕ} (hr : r ∈ h.returned) (hok : ¬service.failed r.result)
    (hx : h.log[j]? = some x) (hxr : x.ticket = r.ticket) (hy : h.log[k]? = some y)
    (hi : h.invoked[y.ticket]? = some i) (htime : r.till ≤ i.since) : j < k := by
  obtain ⟨call, l, answer, hl, heffect, -⟩ := (hh.returned r hr).resolve_left hok
  obtain ⟨z, hz, hzr, -⟩ := heffect.execution
  have hjl : j = l := hh.index_eq hx hz (hxr.trans hzr.symm)
  obtain ⟨i', hi', hsince, -⟩ := hh.asked k y hy
  obtain rfl := Option.some.inj (hi.symm.trans hi')
  omega

end Linearizable

end CallHistory
