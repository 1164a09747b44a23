import McacheClient.Error
import McacheClient.Pool.Circle
import Mathlib.Data.List.InsertIdx
import Mathlib.Tactic.SplitIfs

/-!
# The namespace ring

`consistent_hashing_pool_t`: the constructor inserts `virtual_nodes` hashes per address, each
computed from the one before, into a map that keeps the first owner of a hash.

* `pushServer`, `pushServers`, `consistentHashingPool`: the two insertion loops and the constructor;
* `Pool.choose`, `ConstIterator`: the position of a key, and the iterator over the ring;
* `mem_pushServers`: the entries of the ring, from the hash chains of the addresses;
* **`deref_choose_iff`**: the ring refines the circle: `*choose(key)` is `j` exactly when server
  `j` serves the key.
-/

namespace McacheClient

/-- A hash functor: `operator()(str, seed = 0)`. -/
abbrev HashFunction : Type := Bytes → UInt32 → UInt32

/-- `ring_t`: from the hash of a node to the index of its server. -/
abbrev Ring : Type := SortedMap UInt32 UInt32

/-- `consistent_hashing_pool_config_t`. -/
structure PoolConfig where
  virtualNodes : UInt32 := 200

/-- A list of server addresses. The largest `value_type` marks "no server yet" in `run`, which
relies on there never being that many servers. -/
structure Addresses where
  list : List Bytes
  length_lt : list.length < 4294967295

/-- The list without position `i`. -/
def Addresses.eraseIdx (addresses : Addresses) (i : ℕ) : Addresses :=
  ⟨addresses.list.eraseIdx i, (List.eraseIdx_sublist _ _).length_le.trans_lt addresses.length_lt⟩

section Build

variable (hashf : HashFunction)

/-- The inner loop of the constructor: push the virtual nodes of a server that are left; `hash` is
the last one pushed. -/
def pushServer (addr : Bytes) (idx : UInt32) : ℕ → UInt32 → Ring → Ring
  | 0, _, ring => ring
  | n + 1, hash, ring =>
    let hash := hashf addr hash
    pushServer addr idx n hash (ring.insert hash idx)

/-- The outer loop of the constructor: push the servers from position `i` on. -/
def pushServers (virtualNodes : UInt32) : List Bytes → ℕ → Ring → Ring
  | [], _, ring => ring
  | addr :: addrs, i, ring =>
    pushServers virtualNodes addrs (i + 1)
      (pushServer hashf addr (UInt32.ofNat i) virtualNodes.toNat 0 ring)

end Build

/-- `consistent_hashing_pool_t`. -/
structure Pool where
  ring : Ring
  hashf : HashFunction

/-- The constructor; at least one address must be supplied. -/
def consistentHashingPool (hashf : HashFunction) (cfg : PoolConfig) (addresses : Addresses) :
    Except Exn Pool :=
  if addresses.list = [] then .error .outOfRange
  else .ok ⟨pushServers hashf cfg.virtualNodes addresses.list 0 .empty, hashf⟩

/-! ## The iterator -/

/-- `consistent_hashing_pool_const_iterator` over a ring: `snode` and `enode` are the first
position and the one past the last. An iterator that may still wrap around is at a node, unless
the ring has none. -/
structure ConstIterator (ring : Ring) where
  inode : ℕ
  stop : Bool
  inode_le : inode ≤ ring.size
  at_node : stop = false → inode = ring.size → ring.size = 0

namespace ConstIterator

variable {ring : Ring}

/-- The constructor of `choose` and `begin`: the end of the ring becomes its start. -/
def mk' (ring : Ring) (inode : ℕ) (h : inode ≤ ring.size) : ConstIterator ring where
  inode := if inode = ring.size then 0 else inode
  stop := false
  inode_le := by split_ifs <;> omega
  at_node := by intro _; split_ifs <;> omega

/-- The constructor of `end`. -/
def endIt (ring : Ring) : ConstIterator ring := ⟨ring.size, true, le_rfl, by simp⟩

/-- `equal` compares the current nodes only. -/
def equal (it other : ConstIterator ring) : Bool := it.inode = other.inode

/-- `dereference`; there is nothing to read at the end. -/
def deref (it : ConstIterator ring) : Option UInt32 := ring.entries[it.inode]?.map Prod.snd

/-- `increment`: the first time the end is reached, go back to the start. -/
def increment (it : ConstIterator ring) : ConstIterator ring :=
  if h : it.inode + 1 < ring.size then
    { it with inode := it.inode + 1, inode_le := h.le, at_node := fun _ he => by omega }
  else if it.stop then ⟨ring.size, true, le_rfl, by simp⟩
  else ⟨0, true, Nat.zero_le _, by simp⟩

end ConstIterator

/-- `choose`: the iterator at the first usable server of a key. -/
def Pool.choose (pool : Pool) (key : Bytes) : ConstIterator pool.ring :=
  .mk' pool.ring (pool.ring.lowerBound (pool.hashf key 0)) (pool.ring.lowerBound_le_size _)

/-- The index a pool built from the addresses routes a key to: `*choose(key)`. -/
def route (hashf : HashFunction) (cfg : PoolConfig) (addresses : Addresses) (key : Bytes) :
    Option UInt32 :=
  match consistentHashingPool hashf cfg addresses with
  | .ok pool => (pool.choose key).deref
  | .error _ => none

/-! ## The entries of the ring -/

section Entries

variable (hashf : HashFunction)

/-- The hashes of the next `n` virtual nodes of an address, after `hash`. -/
def hashChain (addr : Bytes) (hash : UInt32) (n : ℕ) : Set UInt32 :=
  {h | ∃ m < n, h = (hashf addr)^[m + 1] hash}

/-- The points that the addresses claim on the circle. -/
def nodePoints (virtualNodes : UInt32) (addrs : List Bytes) : List (Set UInt32) :=
  addrs.map fun addr => hashChain hashf addr 0 virtualNodes.toNat

variable {hashf}

@[simp] theorem not_mem_hashChain_zero (addr : Bytes) (hash h : UInt32) :
    h ∉ hashChain hashf addr hash 0 := by
  rintro ⟨m, hm, -⟩; omega

theorem mem_hashChain_succ {addr : Bytes} {hash h : UInt32} {n : ℕ} :
    h ∈ hashChain hashf addr hash (n + 1) ↔
      h = hashf addr hash ∨ h ∈ hashChain hashf addr (hashf addr hash) n := by
  constructor
  · rintro ⟨_ | m, hm, rfl⟩
    · exact Or.inl rfl
    · exact Or.inr ⟨m, by omega, rfl⟩
  · rintro (rfl | ⟨m, hm, rfl⟩)
    · exact ⟨0, by omega, rfl⟩
    · exact ⟨m + 1, by omega, rfl⟩

theorem mem_pushServer {addr : Bytes} {idx : UInt32} {n : ℕ} {hash : UInt32} {ring : Ring}
    {h x : UInt32} : (h, x) ∈ (pushServer hashf addr idx n hash ring).entries ↔
      (h, x) ∈ ring.entries ∨ (x = idx ∧ h ∈ hashChain hashf addr hash n ∧ h ∉ ring.keys) := by
  induction n generalizing hash ring with
  | zero => simp [pushServer]
  | succ n ih =>
    rw [pushServer, ih, SortedMap.mem_insert, mem_hashChain_succ, SortedMap.keys_insert,
      Set.mem_insert_iff, Prod.mk.injEq]
    by_cases hh : h = hashf addr hash
    · subst hh; tauto
    · tauto

theorem keys_pushServer {addr : Bytes} {idx : UInt32} {n : ℕ} {hash : UInt32} {ring : Ring}
    {h : UInt32} : h ∈ (pushServer hashf addr idx n hash ring).keys ↔
      h ∈ ring.keys ∨ h ∈ hashChain hashf addr hash n := by
  simp only [SortedMap.mem_keys, mem_pushServer]
  constructor
  · rintro ⟨x, hx | ⟨-, hh, -⟩⟩
    · exact Or.inl ⟨x, hx⟩
    · exact Or.inr hh
  · by_cases hk : ∃ x, (h, x) ∈ ring.entries
    · exact fun _ => hk.imp fun x hx => Or.inl hx
    · rintro (hx | hh)
      · exact absurd hx hk
      · exact ⟨idx, Or.inr ⟨rfl, hh, hk⟩⟩

/-- **The entries of the ring**: a hash belongs to the first address whose chain contains it. -/
theorem mem_pushServers {virtualNodes : UInt32} {addrs : List Bytes} {i : ℕ} {ring : Ring}
    {h x : UInt32} : (h, x) ∈ (pushServers hashf virtualNodes addrs i ring).entries ↔
      (h, x) ∈ ring.entries ∨ (h ∉ ring.keys ∧
        ∃ j, x = UInt32.ofNat (i + j) ∧ FirstOwner (nodePoints hashf virtualNodes addrs) h j) := by
  induction addrs generalizing i ring with
  | nil => simp [pushServers, FirstOwner, nodePoints]
  | cons addr addrs ih =>
    rw [pushServers, ih, mem_pushServer, keys_pushServer]
    have hcons : ∀ j, FirstOwner (nodePoints hashf virtualNodes (addr :: addrs)) h j ↔
        (j = 0 ∧ h ∈ hashChain hashf addr 0 virtualNodes.toNat) ∨
          (h ∉ hashChain hashf addr 0 virtualNodes.toNat ∧
            ∃ j', j = j' + 1 ∧ FirstOwner (nodePoints hashf virtualNodes addrs) h j') := by
      intro j
      cases j with
      | zero => simp [FirstOwner, nodePoints]
      | succ j =>
        simp only [FirstOwner, nodePoints, List.map_cons, List.getElem?_cons_succ,
          Nat.add_right_cancel_iff, Nat.add_one_ne_zero, false_and, false_or]
        constructor
        · rintro ⟨hown, hmin⟩
          refine ⟨hmin 0 (by omega) _ rfl, j, rfl, hown, fun m hm => ?_⟩
          exact hmin (m + 1) (by omega)
        · rintro ⟨h0, _, rfl, hown, hmin⟩
          refine ⟨hown, fun m hm s hs => ?_⟩
          cases m with
          | zero => obtain rfl : _ = s := by simpa using hs
                    exact h0
          | succ m => exact hmin m (by omega) s (by simpa using hs)
    simp only [hcons]
    constructor
    · rintro ((hx | ⟨rfl, hh, hk⟩) | ⟨hk, j, rfl, hj⟩)
      · exact Or.inl hx
      · exact Or.inr ⟨hk, 0, by simp, Or.inl ⟨rfl, hh⟩⟩
      · obtain ⟨hk1, hk2⟩ := not_or.mp hk
        exact Or.inr ⟨hk1, j + 1, by congr 1; omega, Or.inr ⟨hk2, j, rfl, hj⟩⟩
    · rintro (hx | ⟨hk, j, rfl, ⟨rfl, hh⟩ | ⟨hh, j, rfl, hj⟩⟩)
      · exact Or.inl (Or.inl hx)
      · exact Or.inl (Or.inr ⟨by simp, hh, hk⟩)
      · exact Or.inr ⟨not_or.mpr ⟨hk, hh⟩, j, by congr 1; omega, hj⟩

end Entries

/-! ## The ring refines the circle -/

section Refine

variable {hashf : HashFunction} {cfg : PoolConfig} {addresses : Addresses} {pool : Pool}

theorem consistentHashingPool_ok (h : consistentHashingPool hashf cfg addresses = .ok pool) :
    addresses.list ≠ [] ∧
      pool = ⟨pushServers hashf cfg.virtualNodes addresses.list 0 .empty, hashf⟩ := by
  by_cases he : addresses.list = []
  · rw [consistentHashingPool, if_pos he] at h; cases h
  · rw [consistentHashingPool, if_neg he] at h
    exact ⟨he, (Except.ok.inj h).symm⟩

theorem FirstOwner.lt_length {virtualNodes : UInt32} {addrs : List Bytes} {k : UInt32} {j : ℕ}
    (h : FirstOwner (nodePoints hashf virtualNodes addrs) k j) : j < addrs.length := by
  obtain ⟨s, hs, -⟩ := h.1
  have := (List.getElem?_eq_some_iff.mp hs).1
  rwa [nodePoints, List.length_map] at this

theorem FirstOwner.toNat_ofNat {virtualNodes : UInt32} {k : UInt32} {j : ℕ}
    (h : FirstOwner (nodePoints hashf virtualNodes addresses.list) k j) :
    (UInt32.ofNat j).toNat = j :=
  UInt32.toNat_ofNat_of_lt' ((h.lt_length.trans addresses.length_lt).trans (by decide))

theorem mem_ring (h : consistentHashingPool hashf cfg addresses = .ok pool) {k x : UInt32} :
    (k, x) ∈ pool.ring.entries ↔
      FirstOwner (nodePoints hashf cfg.virtualNodes addresses.list) k x.toNat := by
  obtain ⟨-, rfl⟩ := consistentHashingPool_ok h
  rw [mem_pushServers]
  constructor
  · rintro (hx | ⟨-, j, rfl, hj⟩)
    · simp at hx
    · rwa [Nat.zero_add, hj.toNat_ofNat]
  · intro hj
    refine Or.inr ⟨by rintro ⟨y, hy⟩; simp at hy, x.toNat, by simp, hj⟩

theorem keys_ring (h : consistentHashingPool hashf cfg addresses = .ok pool) :
    pool.ring.keys = claimed (nodePoints hashf cfg.virtualNodes addresses.list) := by
  ext k
  rw [SortedMap.mem_keys]
  constructor
  · rintro ⟨x, hx⟩
    exact ((mem_ring h).mp hx).mem_claimed
  · intro hk
    obtain ⟨j, hj⟩ := exists_firstOwner hk
    exact ⟨UInt32.ofNat j, (mem_ring h).mpr (by rwa [hj.toNat_ofNat])⟩

theorem idx_lt (h : consistentHashingPool hashf cfg addresses = .ok pool) {k x : UInt32}
    (hx : (k, x) ∈ pool.ring.entries) : x.toNat < addresses.list.length :=
  ((mem_ring h).mp hx).lt_length

/-- **The ring refines the circle.** -/
theorem deref_choose_iff (h : consistentHashingPool hashf cfg addresses = .ok pool) {key : Bytes}
    {x : UInt32} : (pool.choose key).deref = some x ↔
      Serves (nodePoints hashf cfg.virtualNodes addresses.list) (hashf key 0) x.toNat := by
  have hhash : pool.hashf = hashf := by rw [(consistentHashingPool_ok h).2]
  change (pool.ring.entries[pool.ring.nextPos (pool.hashf key 0)]?).map Prod.snd = some x ↔ _
  rw [hhash, Option.map_eq_some_iff]
  constructor
  · rintro ⟨e, he, rfl⟩
    obtain ⟨hmem, hnext⟩ := SortedMap.getElem?_nextPos he
    exact ⟨e.1, keys_ring h ▸ hnext, (mem_ring h).mp hmem⟩
  · rintro ⟨k, hnext, hown⟩
    refine ⟨(k, x), ?_, rfl⟩
    exact SortedMap.getElem?_nextPos_of_isNext ((mem_ring h).mpr hown) (keys_ring h ▸ hnext)

theorem route_eq_some_iff {key : Bytes} {x : UInt32} : route hashf cfg addresses key = some x ↔
    Serves (nodePoints hashf cfg.virtualNodes addresses.list) (hashf key 0) x.toNat := by
  unfold route
  cases h : consistentHashingPool hashf cfg addresses with
  | ok pool => exact deref_choose_iff h
  | error e =>
    have he : addresses.list = [] := by
      by_contra he
      rw [consistentHashingPool, if_neg he] at h
      cases h
    constructor
    · intro hx; cases hx
    · rintro ⟨k, ⟨⟨s, hs, -⟩, -⟩, -⟩
      simp [nodePoints, he] at hs

end Refine

/-! ## Minimal disruption -/

theorem nodePoints_eraseIdx (hashf : HashFunction) (virtualNodes : UInt32) (addrs : List Bytes)
    (i : ℕ) : nodePoints hashf virtualNodes (addrs.eraseIdx i) =
      (nodePoints hashf virtualNodes addrs).eraseIdx i := by
  rw [nodePoints, nodePoints, List.eraseIdx_map]

theorem toNat_shiftIdx (i : ℕ) (j : UInt32) :
    (if i < j.toNat then j - 1 else j).toNat = shiftIdx i j.toNat := by
  unfold shiftIdx
  split_ifs with hlt
  · have h1 : (1 : UInt32) ≤ j := UInt32.le_iff_toNat_le.mpr (by simp; omega)
    rw [UInt32.toNat_sub_of_le j 1 h1]
    rfl
  · rfl

/-- **Removing a server only moves the keys it served**; the servers after it move up by one. -/
theorem route_eraseIdx (hashf : HashFunction) (cfg : PoolConfig) (addresses : Addresses)
    (key : Bytes) (i : ℕ) (j : UInt32) (hroute : route hashf cfg addresses key = some j)
    (hij : j.toNat ≠ i) :
    route hashf cfg (addresses.eraseIdx i) key = some (if i < j.toNat then j - 1 else j) := by
  rw [route_eq_some_iff] at hroute ⊢
  rw [toNat_shiftIdx, Addresses.eraseIdx, nodePoints_eraseIdx]
  exact hroute.eraseIdx hij

/-- A hash functor for small rings: the bytes are added to the seed. -/
def byteSum : HashFunction := fun str seed => str.foldl (fun h b => h + b.toUInt32) seed

/-- Three servers with two nodes each: `10, 20`, `15, 30` and `100, 200`. -/
def threeServers : Addresses := ⟨[[10], [15], [100]], by decide⟩

theorem route_eraseIdx_threeServers :
    route byteSum ⟨2⟩ threeServers [25] = some 1 ∧
      route byteSum ⟨2⟩ (threeServers.eraseIdx 0) [25] = some 0 :=
  ⟨by decide, route_eraseIdx byteSum ⟨2⟩ threeServers [25] 0 1 (by decide) (by decide)⟩

end McacheClient
