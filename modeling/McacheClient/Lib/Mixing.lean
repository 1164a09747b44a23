import Mathlib.Data.BitVec
import Mathlib.Dynamics.PeriodicPts.Lemmas
import Mathlib.Order.Interval.Set.Nat

/-!
# Mixing steps that lose nothing

Steps that hash functions are made of, on words of any width, and the orbits of such steps.

* `BitVec.xor_ushiftRight_injective`, `BitVec.rotate_injective`: the steps are injective;
* **`Function.ncard_iterates`**: the values that an injective step runs through from a point are as
  many as there were steps, until it is back at the point.
-/

namespace BitVec

variable {w : ℕ}

/-- `x ^ (x >> k)` is undone from the high bits down. -/
theorem xor_ushiftRight_injective {k : ℕ} (hk : 0 < k) :
    Function.Injective fun x : BitVec w => x ^^^ (x >>> k) := by
  intro x y h
  have hstep : ∀ j, (x.getLsbD j ^^ x.getLsbD (k + j)) = (y.getLsbD j ^^ y.getLsbD (k + j)) := by
    intro j
    have hbit := congrArg (fun z => z.getLsbD j) h
    simpa only [getLsbD_xor, getLsbD_ushiftRight] using hbit
  have hbits : ∀ n j, w ≤ n + j → x.getLsbD j = y.getLsbD j := by
    intro n
    induction n with
    | zero =>
      intro j hj
      rw [getLsbD_of_ge x j (by omega), getLsbD_of_ge y j (by omega)]
    | succ n ih =>
      intro j hj
      have hbit := hstep j
      rw [ih (k + j) (by omega)] at hbit
      exact Bool.xor_left_inj.mp hbit
  apply eq_of_getLsbD_eq
  intro j hj
  exact hbits w j (Nat.le_add_right w j)

theorem rotate_injective {r : ℕ} (hr : r ≤ w) :
    Function.Injective fun x : BitVec w => (x <<< r) ||| (x >>> (w - r)) := by
  intro x y h
  apply eq_of_getLsbD_eq
  intro j hj
  by_cases hlow : r + j < w
  · have hbit := congrArg (fun z => z.getLsbD (r + j)) h
    have hout : ∀ z : BitVec w, z.getLsbD (w - r + (r + j)) = false := fun z =>
      getLsbD_of_ge z _ (by omega)
    simpa only [getLsbD_or, getLsbD_shiftLeft, getLsbD_ushiftRight, hout, hlow, decide_true,
      Bool.true_and, Nat.not_lt.mpr (Nat.le_add_right r j), decide_false, Bool.not_false,
      Bool.or_false, Nat.add_sub_cancel_left] using hbit
  · have hbit := congrArg (fun z => z.getLsbD (r + j - w)) h
    have hlt : r + j - w < r := by omega
    have hback : w - r + (r + j - w) = j := by omega
    simpa only [getLsbD_or, getLsbD_shiftLeft, getLsbD_ushiftRight, hlt, hback, decide_true,
      Bool.not_true, Bool.and_false, Bool.false_and, Bool.false_or] using hbit

end BitVec

/-! ## The values that a step runs through -/

namespace Function

variable {α : Type} {f : α → α}

theorem image_iterate_eq {x : α} (hx : x ∈ periodicPts f) (n : ℕ) :
    (f^[·] x) '' Set.Iio n = (f^[·] x) '' Set.Iio (min n (minimalPeriod f x)) := by
  have hpos := minimalPeriod_pos_of_mem_periodicPts hx
  apply Set.Subset.antisymm
  · rintro _ ⟨m, hm, rfl⟩
    refine ⟨m % minimalPeriod f x, ?_, iterate_mod_minimalPeriod_eq⟩
    have hm : m < n := hm
    exact lt_min ((Nat.mod_le _ _).trans_lt hm) (Nat.mod_lt _ hpos)
  · exact Set.image_mono (Set.Iio_subset_Iio (min_le_left _ _))

/-- **An injective step** takes as many values as it is applied, until it is back at the start. -/
theorem ncard_iterates [Finite α] (hf : Injective f) (x : α) (n : ℕ) :
    {y | ∃ m < n, y = f^[m + 1] x}.ncard = min n (minimalPeriod f x) := by
  have hx : x ∈ periodicPts f := hf.mem_periodicPts x
  have himage : {y | ∃ m < n, y = f^[m + 1] x} = f '' ((f^[·] x) '' Set.Iio n) := by
    ext y
    constructor
    · rintro ⟨m, hm, rfl⟩
      exact ⟨f^[m] x, ⟨m, hm, rfl⟩, (iterate_succ_apply' f m x).symm⟩
    · rintro ⟨_, ⟨m, hm, rfl⟩, rfl⟩
      exact ⟨m, hm, (iterate_succ_apply' f m x).symm⟩
  have hinj : Set.InjOn (f^[·] x) (Set.Iio (min n (minimalPeriod f x))) :=
    iterate_injOn_Iio_minimalPeriod.mono (Set.Iio_subset_Iio (min_le_right _ _))
  rw [himage, Set.ncard_image_of_injective _ hf, image_iterate_eq hx, hinj.ncard_image,
    Set.ncard_Iio_nat]

end Function
