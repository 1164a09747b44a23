import McacheClient.Lib.Program
import Mathlib.Logic.Function.Basic

/-!
# Transition systems and threads

* `Run.exec`, `Run.Along`: the runs of a guarded step function, and a condition on their steps;
* **`Run.invariant`**: what every step of a run keeps holds at its end;
* **`Run.simulates`**: a simulation, with stuttering, of runs;
* **`Run.along_iff`**: two conditions on steps that agree under an invariant agree along a run;
* `Run.along_of_invariant`: a condition on steps that an invariant gives;
* `Threads`, `Threads.step`: programs that take turns on a shared state, one operation at a time;
* **`Threads.follows_step`**: a discipline that every program follows is kept by every step;
* **`Threads.exec_withPhase`**: a run has phases of any discipline.
-/

namespace Run

variable {σ ℓ : Type} (step : σ → ℓ → Option σ)

/-- Take the steps of a list of labels; none when a step is not enabled. -/
def exec : σ → List ℓ → Option σ
  | s, [] => some s
  | s, l :: ls => (step s l).bind fun s' => exec s' ls

/-- Every step of the run meets a condition on the states before and after it. -/
def Along (P : σ → ℓ → σ → Prop) : σ → List ℓ → Prop
  | _, [] => True
  | s, l :: ls => ∀ s', step s l = some s' → P s l s' ∧ Along P s' ls

variable {step} {P Q : σ → ℓ → σ → Prop}

theorem exec_cons {s s' : σ} {l : ℓ} {ls : List ℓ} (h : exec step s (l :: ls) = some s') :
    ∃ t, step s l = some t ∧ exec step t ls = some s' := Option.bind_eq_some_iff.mp h

theorem along_cons {s s' : σ} {l : ℓ} {ls : List ℓ} (h : step s l = some s') :
    Along step P s (l :: ls) ↔ P s l s' ∧ Along step P s' ls := by
  refine ⟨fun hP => hP s' h, fun hP t ht => ?_⟩
  obtain rfl := Option.some.inj (h.symm.trans ht)
  exact hP

theorem exists_cons {goal : σ → Prop} {s s' : σ} {l : ℓ} {ls : List ℓ} (h : step s l = some s')
    (hp : P s l s') (hrest : ∃ t, exec step s' ls = some t ∧ Along step P s' ls ∧ goal t) :
    ∃ t, exec step s (l :: ls) = some t ∧ Along step P s (l :: ls) ∧ goal t := by
  obtain ⟨t, hrun, halong, ht⟩ := hrest
  refine ⟨t, ?_, (along_cons h).mpr ⟨hp, halong⟩, ht⟩
  rw [exec, h]
  exact hrun

/-- **What every step keeps holds at the end of a run.** -/
theorem invariant (inv : σ → Prop)
    (hstep : ∀ s l s', inv s → step s l = some s' → P s l s' → inv s')
    {s s' : σ} {ls : List ℓ} (hs : inv s) (hrun : exec step s ls = some s')
    (hP : Along step P s ls) : inv s' := by
  induction ls generalizing s with
  | nil => exact Option.some.inj hrun ▸ hs
  | cons l ls ih =>
    obtain ⟨t, ht, hrun⟩ := exec_cons hrun
    obtain ⟨hp, hP⟩ := hP t ht
    exact ih (hstep s l t hs ht hp) hrun hP

section Simulation

variable {σ' ℓ' : Type} {step' : σ' → ℓ' → Option σ'} {P' : σ' → ℓ' → σ' → Prop}

/-- **Simulation with stuttering**: when every step of one system is a step of the other one or
leaves the states related, every run of the one has a run of the other. -/
theorem simulates (related : σ → σ' → Prop)
    (hstep : ∀ s l s' t, related s t → step s l = some s' → P s l s' →
      related s' t ∨ ∃ l' t', step' t l' = some t' ∧ P' t l' t' ∧ related s' t')
    {s s' : σ} {t : σ'} {ls : List ℓ} (hs : related s t) (hrun : exec step s ls = some s')
    (hP : Along step P s ls) :
    ∃ ls' t', exec step' t ls' = some t' ∧ Along step' P' t ls' ∧ related s' t' := by
  induction ls generalizing s t with
  | nil => exact ⟨[], t, rfl, trivial, Option.some.inj hrun ▸ hs⟩
  | cons l ls ih =>
    obtain ⟨m, hm, hrun⟩ := exec_cons hrun
    obtain ⟨hp, hP⟩ := hP m hm
    rcases hstep s l m t hs hm hp with hstay | ⟨l', n, hn, hp', hmn⟩
    · exact ih hstay hrun hP
    · obtain ⟨ls', t', hrest⟩ := ih hmn hrun hP
      obtain ⟨t'', hrun', hP', ht'⟩ := exists_cons hn hp' ⟨t', hrest⟩
      exact ⟨l' :: ls', t'', hrun', hP', ht'⟩

end Simulation

theorem along_of_forall (h : ∀ s l s', P s l s') (s : σ) (ls : List ℓ) : Along step P s ls := by
  induction ls generalizing s with
  | nil => trivial
  | cons l ls ih => exact fun t _ => ⟨h s l t, ih t⟩

theorem invariant_exec (inv : σ → Prop) (hstep : ∀ s l s', inv s → step s l = some s' → inv s')
    {s s' : σ} {ls : List ℓ} (hs : inv s) (hrun : exec step s ls = some s') : inv s' :=
  invariant (P := fun _ _ _ => True) inv (fun s l s' hs h _ => hstep s l s' hs h) hs hrun
    (along_of_forall (fun _ _ _ => trivial) s ls)

/-- **Conditions that agree under an invariant agree along a run**, when the first one keeps the
invariant. -/
theorem along_iff (inv : σ → Prop)
    (hiff : ∀ s l s', inv s → step s l = some s' → (P s l s' ↔ Q s l s'))
    (hstep : ∀ s l s', inv s → step s l = some s' → P s l s' → inv s')
    {s : σ} {ls : List ℓ} (hs : inv s) : Along step P s ls ↔ Along step Q s ls := by
  induction ls generalizing s with
  | nil => rfl
  | cons l ls ih =>
    apply forall_congr'
    intro t
    apply imp_congr_right
    intro ht
    rw [← hiff s l t hs ht]
    exact and_congr_right fun hp => ih (hstep s l t hs ht hp)

/-- A condition that keeps an invariant has along the run what the invariant gives. -/
theorem along_of_invariant (inv : σ → Prop)
    (hstep : ∀ s l s', inv s → step s l = some s' → P s l s' → inv s')
    (hQ : ∀ s l s', inv s → step s l = some s' → P s l s' → Q s l s')
    {s : σ} {ls : List ℓ} (hs : inv s) (h : Along step P s ls) : Along step Q s ls := by
  induction ls generalizing s with
  | nil => trivial
  | cons l ls ih =>
    intro t ht
    obtain ⟨hp, h⟩ := h t ht
    exact ⟨hQ s l t hs ht hp, ih (hstep s l t hs ht hp) h⟩

end Run

/-- Threads over a shared state: what is left of every program, and the phase of the discipline
that it follows. The phases are ghosts, no step reads them. -/
structure Threads (τ σ ς op : Type) (ans : op → Type) (α : Type) where
  shared : σ
  left : τ → Program op ans α
  phase : τ → ς

namespace Threads

variable {τ σ ς op ε α : Type} {ans : op → Type} [DecidableEq τ]
  (atomic : τ → ε → (o : op) → σ → Option (ans o × σ)) (advance : ς → (o : op) → ans o → ς)

/-- The next operation of a thread, with what the environment chose for it. -/
def step (s : Threads τ σ ς op ans α) : τ × ε → Option (Threads τ σ ς op ans α)
  | (t, e) =>
    match s.left t with
    | .done _ => none
    | .call o next =>
      (atomic t e o s.shared).map fun (r, shared) =>
        { shared := shared
          left := Function.update s.left t (next r)
          phase := Function.update s.phase t (advance (s.phase t) o r) }

variable {atomic advance} {s s' : Threads τ σ ς op ans α}

/-- **What a step can do**: one thread executes its next operation. -/
theorem step_eq_some {t : τ} {e : ε} (h : step atomic advance s (t, e) = some s') :
    ∃ o next r, s.left t = .call o next ∧ atomic t e o s.shared = some (r, s'.shared) ∧
      s'.left = Function.update s.left t (next r) ∧
      s'.phase = Function.update s.phase t (advance (s.phase t) o r) := by
  unfold step at h
  cases hleft : s.left t with
  | done a => simp [hleft] at h
  | call o next =>
    simp only [hleft, Option.map_eq_some_iff] at h
    obtain ⟨⟨r, shared⟩, hatomic, rfl⟩ := h
    exact ⟨o, next, r, rfl, hatomic, rfl, rfl⟩

theorem step_call {t : τ} {e : ε} {o : op} {next : ans o → Program op ans α} {r : ans o}
    {shared : σ} (hleft : s.left t = .call o next)
    (hatomic : atomic t e o s.shared = some (r, shared)) :
    step atomic advance s (t, e) = some
      { shared := shared
        left := Function.update s.left t (next r)
        phase := Function.update s.phase t (advance (s.phase t) o r) } := by
  simp only [step, hleft, hatomic, Option.map_some]

/-- Every thread follows a discipline from its phase. -/
def Disciplined (allowed : ς → op → Prop) (advance : ς → (o : op) → ans o → ς)
    (final : ς → α → Prop) (s : Threads τ σ ς op ans α) : Prop :=
  ∀ t, Program.Follows allowed advance final (s.phase t) (s.left t)

/-- **A discipline is kept** by every step. -/
theorem follows_step {allowed : ς → op → Prop} {final : ς → α → Prop}
    (hs : Disciplined allowed advance final s) {l : τ × ε}
    (h : step atomic advance s l = some s') : Disciplined allowed advance final s' := by
  obtain ⟨t, e⟩ := l
  obtain ⟨o, next, r, hleft, -, hl, hp⟩ := step_eq_some h
  intro u
  rw [hl, hp]
  by_cases hu : u = t
  · subst hu
    rw [Function.update_self, Function.update_self]
    have hf := hs u
    rw [hleft] at hf
    exact hf.2 r
  · rw [Function.update_of_ne hu, Function.update_of_ne hu]
    exact hs u

omit [DecidableEq τ] in
theorem Disciplined.allowed {allowed : ς → op → Prop} {final : ς → α → Prop}
    (hs : Disciplined allowed advance final s) {t : τ} {o : op} {next : ans o → Program op ans α}
    (hleft : s.left t = .call o next) : allowed (s.phase t) o := by
  have hfollows := hs t
  rw [hleft] at hfollows
  exact hfollows.1

omit [DecidableEq τ] in
theorem Disciplined.final {allowed : ς → op → Prop} {final : ς → α → Prop}
    (hs : Disciplined allowed advance final s) {t : τ} {a : α} (hleft : s.left t = .done a) :
    final (s.phase t) a := by
  have hfollows := hs t
  rw [hleft] at hfollows
  exact hfollows

/-! ## Ghosts -/

variable {ς' : Type}

/-- The same threads with other phases. -/
def withPhase (s : Threads τ σ ς op ans α) (phase : τ → ς') : Threads τ σ ς' op ans α where
  shared := s.shared
  left := s.left
  phase := phase

/-- **Phases can be added to a run**, of any discipline and from any start. -/
theorem exec_withPhase (advance' : ς' → (o : op) → ans o → ς') {ls : List (τ × ε)}
    (h : Run.exec (step atomic advance) s ls = some s') (phase : τ → ς') :
    ∃ phase', Run.exec (step atomic advance') (s.withPhase phase) ls =
      some (s'.withPhase phase') := by
  induction ls generalizing s phase with
  | nil =>
    cases h
    exact ⟨phase, rfl⟩
  | cons l ls ih =>
    obtain ⟨t, e⟩ := l
    obtain ⟨m, hm, hrun⟩ := Run.exec_cons h
    obtain ⟨o, next, r, hleft, hatomic, hl, -⟩ := step_eq_some hm
    have hstep : step atomic advance' (s.withPhase phase) (t, e) =
        some (m.withPhase (Function.update phase t (advance' (phase t) o r))) := by
      simp only [step, withPhase, hleft, hatomic, Option.map_some, hl]
    obtain ⟨phase', hphase⟩ := ih hrun (Function.update phase t (advance' (phase t) o r))
    exact ⟨phase', by rw [Run.exec, hstep, Option.bind_some, hphase]⟩

end Threads
