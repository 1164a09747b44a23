import McacheClient.Lib.SortedMap
import Mathlib.Data.Nat.Find
import Mathlib.Tactic.SplitIfs

/-!
# Consistent hashing on a circle

What the namespace ring is for, without hashes and maps: every server owns a set of points of a
circle, a point that several servers claim belongs to the first of them, and a key at `h` is
served by the owner of the next point clockwise.

* `FirstOwner`, `Serves`: the owner of a point, the server of a key;
* **`Serves.eraseIdx`**: removing a server only moves the keys it served.
-/

namespace McacheClient

variable {κ : Type} [LinearOrder κ]

/-- Server `j` is the first one that claims point `k`. -/
def FirstOwner (points : List (Set κ)) (k : κ) (j : ℕ) : Prop :=
  (∃ s, points[j]? = some s ∧ k ∈ s) ∧ ∀ i < j, ∀ s, points[i]? = some s → k ∉ s

/-- All points of the circle that some server claims. -/
def claimed (points : List (Set κ)) : Set κ := {k | ∃ s ∈ points, k ∈ s}

/-- A key at `h` is served by `j`: the owner of the next point clockwise. -/
def Serves (points : List (Set κ)) (h : κ) (j : ℕ) : Prop :=
  ∃ k, IsNext (claimed points) h k ∧ FirstOwner points k j

/-- The position of server `j` after position `i` is removed. -/
def shiftIdx (i j : ℕ) : ℕ := if i < j then j - 1 else j

omit [LinearOrder κ] in
theorem getElem?_eraseIdx_shiftIdx {α : Type} (l : List α) {i j : ℕ} (hij : j ≠ i) :
    (l.eraseIdx i)[shiftIdx i j]? = l[j]? := by
  unfold shiftIdx
  split_ifs with h
  · rw [List.getElem?_eraseIdx, if_neg (by omega)]
    congr 1; omega
  · rw [List.getElem?_eraseIdx, if_pos (by omega)]

omit [LinearOrder κ] in
theorem FirstOwner.unique {points : List (Set κ)} {k : κ} {i j : ℕ} (hi : FirstOwner points k i)
    (hj : FirstOwner points k j) : i = j := by
  obtain ⟨⟨s, hs, hks⟩, hmin⟩ := hi
  obtain ⟨⟨s', hs', hks'⟩, hmin'⟩ := hj
  rcases Nat.lt_trichotomy i j with h | h | h
  · exact absurd hks (hmin' i h s hs)
  · exact h
  · exact absurd hks' (hmin j h s' hs')

omit [LinearOrder κ] in
theorem FirstOwner.mem_claimed {points : List (Set κ)} {k : κ} {j : ℕ}
    (h : FirstOwner points k j) : k ∈ claimed points := by
  obtain ⟨s, hs, hk⟩ := h.1
  exact ⟨s, List.mem_of_getElem? hs, hk⟩

omit [LinearOrder κ] in
theorem exists_firstOwner {points : List (Set κ)} {k : κ} (hk : k ∈ claimed points) :
    ∃ j, FirstOwner points k j := by
  classical
  have hex : ∃ (j : ℕ) (s : Set κ), points[j]? = some s ∧ k ∈ s := by
    obtain ⟨s, hs, hks⟩ := hk
    obtain ⟨j, hj⟩ := List.mem_iff_getElem?.mp hs
    exact ⟨j, s, hj, hks⟩
  refine ⟨Nat.find hex, Nat.find_spec hex, fun i hi s hs hks => ?_⟩
  exact Nat.find_min hex hi ⟨s, hs, hks⟩

omit [LinearOrder κ] in
theorem claimed_eraseIdx_subset (points : List (Set κ)) (i : ℕ) :
    claimed (points.eraseIdx i) ⊆ claimed points :=
  fun _ ⟨s, hs, hk⟩ => ⟨s, (List.eraseIdx_sublist points i).subset hs, hk⟩

omit [LinearOrder κ] in
/-- A point keeps its owner when another server is removed. -/
theorem FirstOwner.eraseIdx {points : List (Set κ)} {k : κ} {i j : ℕ}
    (h : FirstOwner points k j) (hij : j ≠ i) :
    FirstOwner (points.eraseIdx i) k (shiftIdx i j) := by
  obtain ⟨hown, hmin⟩ := h
  refine ⟨by rwa [getElem?_eraseIdx_shiftIdx points hij], fun m hm s hs => ?_⟩
  rw [List.getElem?_eraseIdx] at hs
  unfold shiftIdx at hm
  split_ifs at hs hm
  · exact hmin m (by omega) s hs
  · exact hmin m (by omega) s hs
  · exact hmin (m + 1) (by omega) s hs
  · exact hmin (m + 1) (by omega) s hs

/-- **Removing a server only moves the keys it served.** -/
theorem Serves.eraseIdx {points : List (Set κ)} {h : κ} {i j : ℕ} (hj : Serves points h j)
    (hij : j ≠ i) : Serves (points.eraseIdx i) h (shiftIdx i j) := by
  obtain ⟨k, hnext, hown⟩ := hj
  have hown' := hown.eraseIdx hij
  exact ⟨k, hnext.anti (claimed_eraseIdx_subset points i) hown'.mem_claimed, hown'⟩

end McacheClient
