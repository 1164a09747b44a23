import McacheClient.Pool.Ring

/-!
# The order of the addresses

Pools of the same addresses in different orders.

* `routeAddress`: the address that a pool routes a key to;
* `claimed_perm`: the nodes of the ring do not depend on the order;
* **`routeAddress_perm`**: neither does the address of a key, unless two addresses have its node.
-/

namespace McacheClient

variable {hashf : HashFunction} {cfg : PoolConfig} {addresses addresses' : Addresses}

/-- The address of the server that a pool built from the addresses routes a key to. -/
def routeAddress (hashf : HashFunction) (cfg : PoolConfig) (addresses : Addresses) (key : Bytes) :
    Option Bytes :=
  (route hashf cfg addresses key).bind fun idx => addresses.list[idx.toNat]?

theorem claimed_perm {κ : Type} {points points' : List (Set κ)} (h : points.Perm points') :
    claimed points = claimed points' := by
  ext k
  exact exists_congr fun s => and_congr_left fun _ => h.mem_iff

theorem nodePoints_perm (hashf : HashFunction) (virtualNodes : UInt32)
    (h : addresses.list.Perm addresses'.list) :
    (nodePoints hashf virtualNodes addresses.list).Perm
      (nodePoints hashf virtualNodes addresses'.list) := h.map _

theorem FirstOwner.exists_address {virtualNodes : UInt32} {addrs : List Bytes} {node : UInt32}
    {j : ℕ} (h : FirstOwner (nodePoints hashf virtualNodes addrs) node j) :
    ∃ addr, addrs[j]? = some addr ∧ node ∈ hashChain hashf addr 0 virtualNodes.toNat := by
  obtain ⟨s, hs, hnode⟩ := h.1
  rw [nodePoints, List.getElem?_map, Option.map_eq_some_iff] at hs
  obtain ⟨addr, haddr, rfl⟩ := hs
  exact ⟨addr, haddr, hnode⟩

theorem routeAddress_of_isNext {key : Bytes} {node : UInt32}
    (h : IsNext (claimed (nodePoints hashf cfg.virtualNodes addresses.list)) (hashf key 0) node) :
    ∃ addr ∈ addresses.list, routeAddress hashf cfg addresses key = some addr ∧
      node ∈ hashChain hashf addr 0 cfg.virtualNodes.toNat := by
  obtain ⟨j, hj⟩ := exists_firstOwner h.1
  obtain ⟨addr, haddr, hnode⟩ := hj.exists_address
  have hroute : route hashf cfg addresses key = some (UInt32.ofNat j) :=
    route_eq_some_iff.mpr (by rw [hj.toNat_ofNat]; exact ⟨node, h, hj⟩)
  refine ⟨addr, List.mem_of_getElem? haddr, ?_, hnode⟩
  rw [routeAddress, hroute, Option.bind_some, hj.toNat_ofNat, haddr]

theorem routeAddress_eq_none {key : Bytes}
    (h : ∀ node, ¬IsNext (claimed (nodePoints hashf cfg.virtualNodes addresses.list))
      (hashf key 0) node) : routeAddress hashf cfg addresses key = none := by
  cases hroute : route hashf cfg addresses key with
  | none => rw [routeAddress, hroute, Option.bind_none]
  | some x =>
    obtain ⟨node, hnode, -⟩ := route_eq_some_iff.mp hroute
    exact absurd hnode (h node)

/-- The node belongs to the hash chains of two different addresses. -/
def SharedNode (hashf : HashFunction) (cfg : PoolConfig) (addresses : Addresses)
    (node : UInt32) : Prop :=
  ∃ a ∈ addresses.list, ∃ b ∈ addresses.list, a ≠ b ∧
    node ∈ hashChain hashf a 0 cfg.virtualNodes.toNat ∧
    node ∈ hashChain hashf b 0 cfg.virtualNodes.toNat

theorem routeAddress_agree (hperm : addresses.list.Perm addresses'.list) {key : Bytes}
    {node : UInt32}
    (hnode : IsNext (claimed (nodePoints hashf cfg.virtualNodes addresses.list)) (hashf key 0) node)
    (hshared : ¬SharedNode hashf cfg addresses node) :
    ∃ addr ∈ addresses.list, node ∈ hashChain hashf addr 0 cfg.virtualNodes.toNat ∧
      routeAddress hashf cfg addresses key = some addr ∧
      routeAddress hashf cfg addresses' key = some addr := by
  obtain ⟨a, ha, hroute, hchain⟩ := routeAddress_of_isNext hnode
  rw [claimed_perm (nodePoints_perm hashf cfg.virtualNodes hperm)] at hnode
  obtain ⟨b, hb, hroute', hchain'⟩ := routeAddress_of_isNext hnode
  have hab : a = b := by
    by_contra hab
    exact hshared ⟨a, ha, b, hperm.mem_iff.mpr hb, hab, hchain, hchain'⟩
  exact ⟨a, ha, hchain, hroute, hab ▸ hroute'⟩

theorem mem_claimed_nodePoints {virtualNodes : UInt32} {addrs : List Bytes} {node : UInt32} :
    node ∈ claimed (nodePoints hashf virtualNodes addrs) ↔
      ∃ addr ∈ addrs, node ∈ hashChain hashf addr 0 virtualNodes.toNat := by
  simp [claimed, nodePoints]

/-- **Routing does not depend on the order of the addresses**: a permutation gives a pool with the
same nodes, those of the chains of the addresses; a key whose node is in the chain of one address
only goes to that address, and so only keys with shared nodes can go to different ones. -/
theorem routeAddress_perm {pool : Pool}
    (hpool : consistentHashingPool hashf cfg addresses = .ok pool)
    (hperm : addresses.list.Perm addresses'.list) :
    ∃ pool', consistentHashingPool hashf cfg addresses' = .ok pool' ∧
      pool.ring.keys = pool'.ring.keys ∧
      (∀ node, node ∈ pool.ring.keys ↔
        ∃ addr ∈ addresses.list, node ∈ hashChain hashf addr 0 cfg.virtualNodes.toNat) ∧
      (∀ key node, IsNext pool.ring.keys (hashf key 0) node →
        ¬SharedNode hashf cfg addresses node →
          ∃ addr ∈ addresses.list, node ∈ hashChain hashf addr 0 cfg.virtualNodes.toNat ∧
            routeAddress hashf cfg addresses key = some addr ∧
            routeAddress hashf cfg addresses' key = some addr) ∧
      ∀ key, routeAddress hashf cfg addresses key ≠ routeAddress hashf cfg addresses' key →
        ∃ node, IsNext pool.ring.keys (hashf key 0) node ∧ SharedNode hashf cfg addresses node := by
  have hclaimed := claimed_perm (nodePoints_perm hashf cfg.virtualNodes hperm)
  have hne : addresses'.list ≠ [] := fun h => by
    rw [h] at hperm
    exact (consistentHashingPool_ok hpool).1 hperm.eq_nil
  have hpool' : consistentHashingPool hashf cfg addresses' = .ok _ := if_neg hne
  rw [keys_ring hpool]
  refine ⟨_, hpool', ?_, fun node => mem_claimed_nodePoints,
    fun key node => routeAddress_agree hperm, fun key hdiffer => ?_⟩
  · rw [keys_ring hpool', hclaimed]
  · by_contra hno
    push Not at hno
    refine hdiffer ?_
    by_cases hnode : ∃ node,
        IsNext (claimed (nodePoints hashf cfg.virtualNodes addresses.list)) (hashf key 0) node
    · obtain ⟨node, hnode⟩ := hnode
      obtain ⟨addr, -, -, hroute, hroute'⟩ := routeAddress_agree hperm hnode (hno node hnode)
      rw [hroute, hroute']
    · rw [not_exists] at hnode
      rw [routeAddress_eq_none hnode]
      rw [hclaimed] at hnode
      rw [routeAddress_eq_none hnode]

/-- The servers of `threeServers`, from the last one to the first one. -/
def reversedServers : Addresses := ⟨[[100], [15], [10]], by decide⟩

/-- The key `25` is routed to the node `30`, which only the second server has. -/
theorem routeAddress_perm_threeServers :
    routeAddress byteSum ⟨2⟩ threeServers [25] = some [15] ∧
      routeAddress byteSum ⟨2⟩ reversedServers [25] = some [15] := by
  have hpool : consistentHashingPool byteSum ⟨2⟩ threeServers =
      .ok ⟨pushServers byteSum 2 threeServers.list 0 .empty, byteSum⟩ := rfl
  have hperm : threeServers.list.Perm reversedServers.list := by decide
  obtain ⟨pool', hpool', -, hnodes, hroute, -⟩ := routeAddress_perm hpool hperm
  -- no other server has the node
  have hothers : ∀ addr ∈ threeServers.list, (30 : UInt32) ∈ hashChain byteSum addr 0 2 →
      addr = [15] := by
    have hne : ∀ addr ∈ threeServers.list, ∀ m < 2, 30 = (byteSum addr)^[m + 1] 0 →
        addr = [15] := by decide
    rintro addr haddr ⟨m, hm, hnode⟩
    exact hne addr haddr m hm hnode
  have hnext : IsNext (pushServers byteSum 2 threeServers.list 0 .empty).keys
      (byteSum [25] 0) 30 := by
    refine ⟨(hnodes 30).mpr ⟨[15], by decide, 1, by decide, by decide⟩,
      Or.inl ⟨by decide, fun node hnode => ?_⟩⟩
    have hle : ∀ addr ∈ threeServers.list, ∀ m < 2, 25 ≤ (byteSum addr)^[m + 1] 0 →
        30 ≤ (byteSum addr)^[m + 1] 0 := by decide
    obtain ⟨addr, haddr, m, hm, rfl⟩ := (hnodes node).mp hnode
    exact hle addr haddr m hm
  obtain ⟨addr, haddr, hnode, hbefore, hafter⟩ := hroute [25] 30 hnext
    fun ⟨a, ha, b, hb, hab, hchain, hchain'⟩ =>
      hab ((hothers a ha hchain).trans (hothers b hb hchain').symm)
  obtain rfl := hothers addr haddr hnode
  exact ⟨hbefore, hafter⟩

end McacheClient
