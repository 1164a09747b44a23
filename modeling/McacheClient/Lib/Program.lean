import Mathlib.Tactic.Common

/-!
# Programs over operations

A program is a tree: it asks for operations one after the other and ends with a result. The same
program can be run alone (`Program.exec`), or as one thread among others (`Lib/Threads.lean`).

* `Program`: the monad of programs whose operations `o : op` are answered by values of `ans o`;
* `Program.exec`: the run of a program against an interpretation of its operations;
* `Program.Follows`: every path of a program obeys a discipline, written as an automaton that
  reads the operations and their answers;
* **`Program.follows_bind`**: the discipline of a sequence from those of its parts.
-/

/-- A program over the operations `op`. -/
inductive Program (op : Type) (ans : op → Type) (α : Type)
  | done (result : α)
  | call (o : op) (next : ans o → Program op ans α)

namespace Program

variable {op : Type} {ans : op → Type} {α β : Type}

/-- Run a program, then the one that its result selects. -/
def andThen : Program op ans α → (α → Program op ans β) → Program op ans β
  | done a, f => f a
  | call o next, f => call o fun r => (next r).andThen f

instance : Monad (Program op ans) where
  pure := done
  bind := andThen

/-- The program that asks for one operation and returns the answer. -/
def ask (o : op) : Program op ans (ans o) := call o done

@[simp] theorem pure_eq (a : α) : (pure a : Program op ans α) = done a := rfl

@[simp] theorem done_bind (a : α) (f : α → Program op ans β) : done a >>= f = f a := rfl

@[simp] theorem call_bind (o : op) (next : ans o → Program op ans α)
    (f : α → Program op ans β) : call o next >>= f = call o fun r => next r >>= f := rfl

@[simp] theorem ask_bind (o : op) (f : ans o → Program op ans β) : ask o >>= f = call o f := rfl

/-! ## Running a program alone -/

section Exec

variable {σ : Type} (interp : (o : op) → σ → ans o × σ)

/-- The run of a program alone, from a state. -/
def exec : Program op ans α → σ → α × σ
  | done a, s => (a, s)
  | call o next, s => (next (interp o s).1).exec (interp o s).2

@[simp] theorem exec_done (a : α) (s : σ) : (done a : Program op ans α).exec interp s = (a, s) :=
  rfl

@[simp] theorem exec_call (o : op) (next : ans o → Program op ans α) (s : σ) :
    (call o next).exec interp s = (next (interp o s).1).exec interp (interp o s).2 := rfl

theorem exec_bind (p : Program op ans α) (f : α → Program op ans β) (s : σ) :
    (p >>= f).exec interp s = (f (p.exec interp s).1).exec interp (p.exec interp s).2 := by
  induction p generalizing s with
  | done a => rfl
  | call o next ih => exact ih _ _

end Exec

/-! ## Disciplines -/

section Follows

variable {ς : Type} (allowed : ς → op → Prop) (advance : ς → (o : op) → ans o → ς)

/-- Every path of the program, from phase `s` of the discipline, asks for operations that are
allowed and ends in a phase that is final for its result. -/
def Follows (final : ς → α → Prop) : ς → Program op ans α → Prop
  | s, done a => final s a
  | s, call o next => allowed s o ∧ ∀ r, Follows final (advance s o r) (next r)

variable {allowed advance}

@[simp] theorem follows_done {final : ς → α → Prop} {s : ς} {a : α} :
    Follows allowed advance final s (done a : Program op ans α) ↔ final s a := Iff.rfl

@[simp] theorem follows_call {final : ς → α → Prop} {s : ς} {o : op}
    {next : ans o → Program op ans α} :
    Follows allowed advance final s (call o next) ↔
      allowed s o ∧ ∀ r, Follows allowed advance final (advance s o r) (next r) := Iff.rfl

/-- **A sequence follows a discipline** when its first part leads to phases from which the second
part does. -/
theorem follows_bind {final : ς → β → Prop} {s : ς} {p : Program op ans α}
    {f : α → Program op ans β} :
    Follows allowed advance final s (p >>= f) ↔
      Follows allowed advance (fun s a => Follows allowed advance final s (f a)) s p := by
  induction p generalizing s with
  | done a => rfl
  | call o next ih => exact and_congr_right fun _ => forall_congr' fun r => ih r

theorem Follows.mono {final final' : ς → α → Prop} {s : ς} {p : Program op ans α}
    (h : Follows allowed advance final s p) (hf : ∀ s a, final s a → final' s a) :
    Follows allowed advance final' s p := by
  induction p generalizing s with
  | done a => exact hf _ _ h
  | call o next ih => exact ⟨h.1, fun r => ih r (h.2 r)⟩

theorem Follows.exec_congr {σ : Type} {interp interp' : (o : op) → σ → ans o × σ}
    {final : ς → α → Prop} {s : ς} {p : Program op ans α}
    (h : Follows allowed advance final s p)
    (hsame : ∀ s o t, allowed s o → interp o t = interp' o t) (t : σ) :
    p.exec interp t = p.exec interp' t := by
  induction p generalizing s t with
  | done a => rfl
  | call o next ih =>
    rw [exec_call, exec_call, hsame s o t h.1]
    exact ih _ (h.2 _) _

end Follows

end Program
