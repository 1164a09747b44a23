import Mathlib.Data.List.Basic
import Mathlib.Tactic.Ring

/-!
# Processing a list in blocks

* `List.foldBlocks`: a fold over the first blocks of a list;
* `List.Absorbed`: whole blocks of a list were processed, the rest is left; its rules say what is
  kept when elements arrive and when blocks of the rest are processed;
* **`List.Absorbed.finish`**: the order of both does not matter in the end;
* `List.slice?`: elements of a list from a position on, within bounds.
-/

namespace List

variable {α σ : Type}

/-- Process the first `count` blocks of `n`. -/
def foldBlocks (process : σ → List α → σ) (n : ℕ) : ℕ → σ → List α → σ
  | 0, s, _ => s
  | count + 1, s, l => foldBlocks process n count (process s (l.take n)) (l.drop n)

section Fold

variable {process : σ → List α → σ} {n : ℕ}

theorem foldBlocks_append_left {count : ℕ} {l : List α} (h : count * n ≤ l.length) (s : σ)
    (l' : List α) : foldBlocks process n count s (l ++ l') = foldBlocks process n count s l := by
  induction count generalizing s l with
  | zero => rfl
  | succ count ih =>
    have hn : n ≤ l.length := (Nat.le_mul_of_pos_left n (Nat.succ_pos count)).trans h
    have hdrop : count * n ≤ (l.drop n).length := by
      rw [length_drop]
      rw [Nat.succ_mul] at h
      omega
    rw [foldBlocks, foldBlocks, take_append_of_le_length hn, drop_append_of_le_length hn, ih hdrop]

theorem foldBlocks_add (count more : ℕ) (s : σ) (l : List α) :
    foldBlocks process n (count + more) s l =
      foldBlocks process n more (foldBlocks process n count s l) (l.drop (count * n)) := by
  induction count generalizing s l with
  | zero => rw [Nat.zero_add, Nat.zero_mul, drop_zero, foldBlocks]
  | succ count ih =>
    rw [Nat.succ_add, foldBlocks, foldBlocks, ih, drop_drop, Nat.succ_mul, Nat.add_comm n]

theorem foldBlocks_append {count : ℕ} {l : List α} (h : l.length = count * n) (more : ℕ) (s : σ)
    (l' : List α) : foldBlocks process n (count + more) s (l ++ l') =
      foldBlocks process n more (foldBlocks process n count s l) l' := by
  rw [foldBlocks_add, foldBlocks_append_left h.ge, ← h, drop_left]

end Fold

/-! ## Elements that arrive over time -/

/-- Of the elements `l`, whole blocks were processed, from the state `s₀` to `s`, and `rest` is
left. -/
def Absorbed (process : σ → List α → σ) (n : ℕ) (s₀ : σ) (l : List α) (s : σ) (rest : List α) :
    Prop :=
  ∃ count whole, l = whole ++ rest ∧ whole.length = count * n ∧
    s = foldBlocks process n count s₀ whole

namespace Absorbed

variable {process : σ → List α → σ} {n : ℕ} {s₀ s : σ} {l rest : List α}

theorem init (process : σ → List α → σ) (n : ℕ) (s : σ) (l : List α) :
    Absorbed process n s l s l :=
  ⟨0, [], rfl, (Nat.zero_mul n).symm, rfl⟩

theorem append (h : Absorbed process n s₀ l s rest) (more : List α) :
    Absorbed process n s₀ (l ++ more) s (rest ++ more) := by
  obtain ⟨count, whole, rfl, hlength, rfl⟩ := h
  exact ⟨count, whole, append_assoc whole rest more, hlength, rfl⟩

theorem blocks (h : Absorbed process n s₀ l s rest) {k : ℕ} (hk : k * n ≤ rest.length) :
    Absorbed process n s₀ l (foldBlocks process n k s rest) (rest.drop (k * n)) := by
  obtain ⟨count, whole, rfl, hlength, rfl⟩ := h
  have htake : (rest.take (k * n)).length = k * n := length_take_of_le hk
  refine ⟨count + k, whole ++ rest.take (k * n), ?_, ?_, ?_⟩
  · rw [append_assoc, take_append_drop]
  · rw [length_append, hlength, htake]
    ring
  · rw [foldBlocks_append hlength]
    conv_lhs => rw [← take_append_drop (k * n) rest]
    exact foldBlocks_append_left htake.ge _ _

theorem length_le (h : Absorbed process n s₀ l s rest) : rest.length ≤ l.length := by
  obtain ⟨count, whole, rfl, -, -⟩ := h
  rw [length_append]
  exact Nat.le_add_left _ _

/-- **When less than a block is left**, all blocks were processed, in whatever portions. -/
theorem finish (h : Absorbed process n s₀ l s rest) (hrest : rest.length < n) :
    s = foldBlocks process n (l.length / n) s₀ l ∧ rest = l.drop (l.length / n * n) := by
  obtain ⟨count, whole, rfl, hlength, rfl⟩ := h
  have hcount : (whole ++ rest).length / n = count := by
    rw [length_append, hlength, Nat.mul_comm, Nat.mul_add_div (by omega),
      Nat.div_eq_of_lt hrest, Nat.add_zero]
  rw [hcount, foldBlocks_append_left hlength.ge, ← hlength, drop_left]
  exact ⟨rfl, rfl⟩

end Absorbed

/-! ## Reading within bounds -/

/-- `n` elements from position `start` on, when the list has them. -/
def slice? (start n : ℕ) (l : List α) : Option (List α) :=
  if start + n ≤ l.length then some ((l.drop start).take n) else none

theorem slice?_eq_some {start n : ℕ} {l : List α} (h : start + n ≤ l.length) :
    slice? start n l = some ((l.drop start).take n) :=
  if_pos h

end List
