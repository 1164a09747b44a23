import McacheClient.Pool.Ring
import Mathlib.Data.List.Rotate
import Mathlib.Tactic.SplitIfs

/-!
# Walking the ring

* `ConstIterator.remaining`: the increments left until the iterator equals `end()`;
* `ConstIterator.walk`: the server indices the iterator yields until then;
* **`walk_choose`**: from `choose(key)` the walk is the ring from the key's node to its end, and
  then the whole ring once more;
* **`iterate_increment_choose`**: the loop from `choose(key)` to `end()` takes `2 * n - p` steps and
  reads the owners in that order.
-/

namespace McacheClient

namespace ConstIterator

variable {ring : Ring}

theorem equal_endIt {it : ConstIterator ring} :
    it.equal (endIt ring) = true ↔ it.inode = ring.size := decide_eq_true_iff

theorem lt_of_not_end {it : ConstIterator ring} (h : it.equal (endIt ring) = false) :
    it.inode < ring.size := by
  have hne : it.inode ≠ ring.size := fun he => by rw [equal_endIt.mpr he] at h; cases h
  have := it.inode_le
  omega

/-- The increments left until the iterator equals `end()`. -/
def remaining (it : ConstIterator ring) : ℕ :=
  if it.stop then ring.size - it.inode else 2 * ring.size - it.inode

theorem remaining_increment {it : ConstIterator ring} (h : it.equal (endIt ring) = false) :
    it.increment.remaining + 1 = it.remaining := by
  have hlt := lt_of_not_end h
  unfold increment
  split_ifs with h1 h2
  · simp only [remaining]; split_ifs <;> omega
  · simp only [remaining, if_pos h2, ↓reduceIte]; omega
  · simp only [remaining, if_neg h2, ↓reduceIte]; omega

/-- The server indices that the iterator yields until it equals `end()`. -/
def walk (it : ConstIterator ring) : List UInt32 :=
  (ring.entries.drop it.inode ++ if it.stop then [] else ring.entries).map Prod.snd

theorem walk_end {it : ConstIterator ring} (h : it.equal (endIt ring) = true) : it.walk = [] := by
  have he := equal_endIt.mp h
  have hdrop : ring.entries.drop it.inode = [] := List.drop_eq_nil_of_le he.ge
  unfold walk
  rw [hdrop]
  split_ifs with hstop
  · rfl
  · rw [List.length_eq_zero_iff.mp (it.at_node (by simpa using hstop) he)]; rfl

theorem walk_cons {it : ConstIterator ring} (h : it.equal (endIt ring) = false) :
    ∃ idx, it.deref = some idx ∧ it.walk = idx :: it.increment.walk := by
  have hlt : it.inode < ring.entries.length := lt_of_not_end h
  refine ⟨_, by rw [deref, List.getElem?_eq_getElem hlt]; rfl, ?_⟩
  unfold walk
  rw [List.drop_eq_getElem_cons hlt, List.cons_append, List.map_cons]
  congr 2
  by_cases h1 : it.inode + 1 < ring.size
  · rw [increment, dif_pos h1]
  · -- the last node of this lap: the second lap follows the first one
    have hdrop : ring.entries.drop (it.inode + 1) = [] := List.drop_eq_nil_of_le (Nat.not_lt.mp h1)
    cases hstop : it.stop with
    | true =>
      have hend : ring.entries.drop ring.size = [] := List.drop_eq_nil_of_le le_rfl
      simp [increment, h1, hstop, hdrop, hend]
    | false => simp [increment, h1, hstop, hdrop]

end ConstIterator

/-- **The walk from `choose(key)`** goes over the whole ring at least once. -/
theorem walk_choose (pool : Pool) (key : Bytes) : (pool.choose key).walk =
    (pool.ring.entries.drop (pool.ring.nextPos (pool.hashf key 0)) ++ pool.ring.entries).map
      Prod.snd := rfl

theorem mem_walk_choose {pool : Pool} {key : Bytes} {idx : UInt32} :
    idx ∈ (pool.choose key).walk ↔ ∃ h, (h, idx) ∈ pool.ring.entries := by
  rw [walk_choose, List.map_append, List.mem_append]
  have hring : idx ∈ pool.ring.entries.map Prod.snd ↔ ∃ h, (h, idx) ∈ pool.ring.entries := by
    simp
  rw [hring]
  refine ⟨fun h => h.elim (fun hd => ?_) id, Or.inr⟩
  exact hring.mp (((List.drop_sublist _ _).map _).subset hd)

/-! ## The loop from `choose(key)` to `end()` -/

namespace ConstIterator

variable {ring : Ring}

theorem equal_endIt_iff_remaining {it : ConstIterator ring} :
    it.equal (endIt ring) = true ↔ it.remaining = 0 := by
  have hle := it.inode_le
  rw [equal_endIt, remaining]
  split_ifs with hstop
  · omega
  · have hnode := it.at_node (by simpa using hstop)
    constructor
    · intro he
      have := hnode he
      omega
    · intro hr
      omega

@[simp] theorem length_walk (it : ConstIterator ring) : it.walk.length = it.remaining := by
  have hle := it.inode_le
  unfold walk remaining
  rw [List.length_map, List.length_append, List.length_drop]
  unfold SortedMap.size at hle ⊢
  split_ifs
  · simp
  · omega

theorem iterate_increment {it : ConstIterator ring} {k : ℕ} (hk : k ≤ it.remaining) :
    (increment^[k] it).remaining = it.remaining - k ∧
      (increment^[k] it).walk = it.walk.drop k := by
  induction k generalizing it with
  | zero => simp
  | succ k ih =>
    have hne : it.equal (endIt ring) = false := by
      rw [← Bool.not_eq_true, equal_endIt_iff_remaining]
      omega
    have hrem := remaining_increment hne
    obtain ⟨idx, -, hwalk⟩ := walk_cons hne
    obtain ⟨hr, hw⟩ := ih (show k ≤ it.increment.remaining by omega)
    rw [Function.iterate_succ_apply, hr, hw, hwalk, List.drop_succ_cons]
    exact ⟨by omega, rfl⟩

theorem equal_iterate_increment {it : ConstIterator ring} {k : ℕ} (hk : k ≤ it.remaining) :
    (increment^[k] it).equal (endIt ring) = true ↔ k = it.remaining := by
  rw [equal_endIt_iff_remaining, (iterate_increment hk).1]
  omega

theorem deref_iterate_increment {it : ConstIterator ring} {k : ℕ} (hk : k < it.remaining) :
    (increment^[k] it).deref = it.walk[k]? := by
  have hne : (increment^[k] it).equal (endIt ring) = false := by
    rw [← Bool.not_eq_true, equal_iterate_increment hk.le]
    omega
  obtain ⟨idx, hderef, hwalk⟩ := walk_cons hne
  rw [(iterate_increment hk.le).2] at hwalk
  rw [hderef, ← List.head?_drop, hwalk, List.head?_cons]

theorem map_deref_range {it : ConstIterator ring} {m : ℕ} (hm : m ≤ it.remaining) :
    ((List.range m).map fun k => (increment^[k] it).deref) = (it.walk.take m).map some := by
  refine List.ext_getElem (by simp [hm]) fun k h1 h2 => ?_
  have hk : k < m := by simpa using h1
  have hderef := deref_iterate_increment (hk.trans_le hm)
  rw [List.getElem_map, List.getElem_range, hderef]
  simp

end ConstIterator

theorem remaining_choose (pool : Pool) (key : Bytes) : (pool.choose key).remaining =
    2 * pool.ring.size - pool.ring.nextPos (pool.hashf key 0) := rfl

theorem take_walk_choose (pool : Pool) (key : Bytes) :
    (pool.choose key).walk.take pool.ring.size =
      (pool.ring.entries.rotate (pool.ring.nextPos (pool.hashf key 0))).map Prod.snd := by
  have hle : pool.ring.nextPos (pool.hashf key 0) ≤ pool.ring.entries.length := by
    unfold SortedMap.nextPos
    split_ifs
    · exact Nat.zero_le _
    · exact pool.ring.lowerBound_le_size _
  rw [walk_choose, ← List.map_take, List.rotate_eq_drop_append_take hle, List.take_append,
    List.length_drop]
  rw [SortedMap.size, Nat.sub_sub_self hle, List.take_of_length_le (by simp)]

/-- **The loop from `choose(key)` to `end()`.** With `p` the position of the first node that is not
below the key's hash, or 0, it takes `2 * n - p` steps and no fewer, and reads the owners of the
nodes from `p` to the end and then those of the whole ring: first the ring in clockwise order from
the key, which meets every owner. -/
theorem iterate_increment_choose (pool : Pool) (key : Bytes) :
    let n := pool.ring.size
    let p := (pool.ring.entries.findIdx? fun node => decide (pool.hashf key 0 ≤ node.1)).getD 0
    let iter := fun k => ConstIterator.increment^[k] (pool.choose key)
    (∀ k < 2 * n - p, (iter k).equal (.endIt pool.ring) = false) ∧
      (iter (2 * n - p)).equal (.endIt pool.ring) = true ∧
      ((List.range (2 * n - p)).map fun k => (iter k).deref) =
        ((pool.ring.entries.drop p ++ pool.ring.entries).map fun node => some node.2) ∧
      ((List.range n).map fun k => (iter k).deref) =
        ((pool.ring.entries.rotate p).map fun node => some node.2) ∧
      (∀ node ∈ pool.ring.entries, ∃ k < n, (iter k).deref = some node.2) ∧
      (n = 0 → (pool.choose key).equal (.endIt pool.ring) = true) := by
  intro n p iter
  have hp : p = pool.ring.nextPos (pool.hashf key 0) := (pool.ring.nextPos_eq_findIdx? _).symm
  have hrem : (pool.choose key).remaining = 2 * n - p := by rw [hp, remaining_choose]
  have hreads : ∀ m ≤ 2 * n - p, ((List.range m).map fun k => (iter k).deref) =
      ((pool.choose key).walk.take m).map some :=
    fun m hm => ConstIterator.map_deref_range (hm.trans_eq hrem.symm)
  have hlap : n ≤ 2 * n - p := by
    rcases Nat.eq_zero_or_pos n with hn | hn
    · omega
    · have := pool.ring.nextPos_lt hn (pool.hashf key 0)
      omega
  have hfirst : ((List.range n).map fun k => (iter k).deref) =
      (pool.ring.entries.rotate p).map fun node => some node.2 := by
    rw [hreads n hlap, take_walk_choose, hp, List.map_map]
    rfl
  refine ⟨fun k hk => ?_, ?_, ?_, hfirst, fun node hnode => ?_, fun hn => ?_⟩
  · rw [← Bool.not_eq_true, ConstIterator.equal_iterate_increment (by omega)]
    omega
  · exact (ConstIterator.equal_iterate_increment (by omega)).mpr hrem.symm
  · rw [hreads _ le_rfl, ← hrem, ← ConstIterator.length_walk, List.take_length, walk_choose, hp,
      List.map_map]
    rfl
  · have hmem : some node.2 ∈ (List.range n).map fun k => (iter k).deref := by
      rw [hfirst]
      exact List.mem_map_of_mem (List.mem_rotate.mpr hnode)
    obtain ⟨k, hk, heq⟩ := List.mem_map.mp hmem
    exact ⟨k, List.mem_range.mp hk, heq⟩
  · rw [ConstIterator.equal_endIt_iff_remaining, hrem]
    omega

/-- No server has the index that marks "no server yet". -/
theorem sentinel_not_mem_walk {hashf : HashFunction} {cfg : PoolConfig} {addresses : Addresses}
    {pool : Pool} (h : consistentHashingPool hashf cfg addresses = .ok pool) (key : Bytes) :
    4294967295 ∉ (pool.choose key).walk := by
  intro hmem
  obtain ⟨k, hk⟩ := mem_walk_choose.mp hmem
  have := idx_lt h hk
  exact absurd addresses.length_lt (Nat.not_lt.mpr this.le)

end McacheClient
