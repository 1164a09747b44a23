import McacheClient.Client.Failover

/-!
# Failover equals removal

A command that is routed while one server is down goes to the server that it would go to if the
one that is down were not in the list of addresses.

* `claimed_eraseIdx`: the nodes that are left without a server that shares none;
* `route_of_walk`: the first other server of the walk serves the key once the server is removed;
* `run_of_walk`: `run` delivers the command to it;
* `FirstStands`: the answer of the first server tried is not excused;
* **`run_down`**: it is the server that `run` delivers the command to.
-/

namespace McacheClient

section Circle

variable {κ : Type} [LinearOrder κ] {points : List (Set κ)} {i : ℕ}

/-- Server `i` shares no point with another server. -/
def SharesNone (points : List (Set κ)) (i : ℕ) : Prop :=
  ∀ j, j ≠ i → ∀ s t, points[i]? = some s → points[j]? = some t → ∀ k ∈ s, k ∉ t

omit [LinearOrder κ] in
theorem mem_claimed_eraseIdx {k : κ} :
    k ∈ claimed (points.eraseIdx i) ↔ ∃ j, j ≠ i ∧ ∃ s, points[j]? = some s ∧ k ∈ s := by
  constructor
  · rintro ⟨s, hs, hk⟩
    obtain ⟨m, hm⟩ := List.mem_iff_getElem?.mp hs
    rw [List.getElem?_eraseIdx] at hm
    split_ifs at hm with hlt
    · exact ⟨m, by omega, s, hm, hk⟩
    · exact ⟨m + 1, by omega, s, hm, hk⟩
  · rintro ⟨j, hij, s, hs, hk⟩
    rw [← getElem?_eraseIdx_shiftIdx points hij] at hs
    exact ⟨s, List.mem_of_getElem? hs, hk⟩

omit [LinearOrder κ] in
/-- The points that are left are the ones that other servers own. -/
theorem claimed_eraseIdx (h : SharesNone points i) :
    claimed (points.eraseIdx i) = {k | ∃ j, j ≠ i ∧ FirstOwner points k j} := by
  ext k
  rw [mem_claimed_eraseIdx]
  constructor
  · rintro ⟨j, hij, s, hs, hk⟩
    have hclaimed : k ∈ claimed points := ⟨s, List.mem_of_getElem? hs, hk⟩
    obtain ⟨m, hm⟩ := exists_firstOwner hclaimed
    refine ⟨m, ?_, hm⟩
    rintro rfl
    obtain ⟨t, ht, hkt⟩ := hm.1
    exact h j hij t s ht hs k hkt hk
  · rintro ⟨j, hij, hj⟩
    obtain ⟨s, hs, hk⟩ := hj.1
    exact ⟨j, hij, s, hs, hk⟩

end Circle

section Walk

variable {hashf : HashFunction} {pcfg : PoolConfig} {addresses : Addresses} {pool : Pool} {i : ℕ}
  {key : Bytes} {idx : UInt32}

/-- **The first other server of the walk serves the key** once server `i` is removed. -/
theorem route_of_walk (hpool : consistentHashingPool hashf pcfg addresses = .ok pool)
    (hshares : SharesNone (nodePoints hashf pcfg.virtualNodes addresses.list) i)
    (hidx : (pool.choose key).walk.find? (fun x => x.toNat ≠ i) = some idx) :
    idx.toNat ≠ i ∧ route hashf pcfg (addresses.eraseIdx i) key =
      some (if i < idx.toNat then idx - 1 else idx) := by
  have hne : idx.toNat ≠ i := by simpa using List.find?_some hidx
  refine ⟨hne, ?_⟩
  have hhash : pool.hashf = hashf := by rw [(consistentHashingPool_ok hpool).2]
  rw [walk_choose, List.find?_map, Option.map_eq_some_iff, hhash] at hidx
  obtain ⟨⟨node, x⟩, hnode, rfl⟩ := hidx
  have hmem : (node, x) ∈ pool.ring.entries := by
    rcases List.mem_append.mp (List.mem_of_find?_eq_some hnode) with hmem | hmem
    · exact List.mem_of_mem_drop hmem
    · exact hmem
  have hown := (mem_ring hpool).mp hmem
  have hkeys : {k | ∃ x, (k, x) ∈ pool.ring.entries ∧
      ((fun x : UInt32 => decide (x.toNat ≠ i)) ∘ Prod.snd) (k, x) = true} =
      claimed ((nodePoints hashf pcfg.virtualNodes addresses.list).eraseIdx i) := by
    rw [claimed_eraseIdx hshares]
    ext k
    constructor
    · rintro ⟨y, hy, hyi⟩
      exact ⟨y.toNat, by simpa using hyi, (mem_ring hpool).mp hy⟩
    · rintro ⟨j, hij, hj⟩
      refine ⟨UInt32.ofNat j, (mem_ring hpool).mpr (by rwa [hj.toNat_ofNat]), ?_⟩
      simpa [hj.toNat_ofNat] using hij
  have hnext := SortedMap.isNext_of_find? hnode
  rw [hkeys] at hnext
  rw [route_eq_some_iff, toNat_shiftIdx, Addresses.eraseIdx, nodePoints_eraseIdx]
  exact ⟨node, hnext, hown.eraseIdx hne⟩

end Walk

section Down

variable {κ : Type} (command : κ) {hashf : HashFunction} {pcfg : PoolConfig}
  {addresses : Addresses} {pool : Pool} (cfg : ClientConfig) (h404 : Bool)
  {outcome : UInt32 → Outcome} {i : ℕ}

theorem tryAll_up {idx : UInt32} {conts : ℕ} (hup : ¬(outcome idx).Down)
    (hexcused : ¬(outcome idx).Excused cfg h404 conts) (idxs : List UInt32) (oos : Bool)
    (s : Calls) :
    tryAll (assigned outcome) cfg command h404 (idx :: idxs) conts oos s =
      (.ok (outcome idx).response,
        { probed := s.probed ++ [idx], sent := s.sent ++ [idx] }) := by
  have hcallable : (outcome idx).callable = true := by
    simpa [Outcome.Down] using (not_or.mp hup).1
  rw [tryAll, tryServer_assigned, if_neg hup, if_neg hexcused, if_pos hcallable]

/-- The answer of the first server on the walk is not excused, unless it is server `i`. -/
def FirstStands (cfg : ClientConfig) (h404 : Bool) (outcome : UInt32 → Outcome) (i : ℕ)
    (walk : List UInt32) : Prop :=
  ∀ idx ∈ walk.head?, idx.toNat ≠ i → ¬(outcome idx).Excused cfg h404 0

/-- The command ends at the first other server of the walk, and only server `i` fails before. -/
theorem run_of_walk (hpool : consistentHashingPool hashf pcfg addresses = .ok pool)
    (hmax : 2 ≤ cfg.maxContinues) (hdown : ∀ idx, idx.toNat = i → (outcome idx).Down)
    {idx : UInt32} (hup : ¬(outcome idx).Down) {key : Bytes}
    (hfirst : FirstStands cfg h404 outcome i (pool.choose key).walk)
    (hidx : (pool.choose key).walk.find? (fun x => x.toNat ≠ i) = some idx) :
    ∃ failed, (run (assigned outcome) cfg command h404 pool key {}).1 =
        .ok (outcome idx).response ∧
      (run (assigned outcome) cfg command h404 pool key {}).2.sent = failed ++ [idx] ∧
      ∀ x ∈ failed, x.toNat = i := by
  have hmax' : 2 ≤ cfg.maxContinues.toNat := UInt32.le_iff_toNat_le.mp hmax
  obtain ⟨n, hn⟩ := Nat.exists_eq_add_of_le' hmax'
  rw [run_eq _ _ _ _ (sentinel_not_mem_walk hpool key), hn]
  cases hwalk : (pool.choose key).walk with
  | nil => simp [hwalk] at hidx
  | cons x w =>
    rw [hwalk] at hidx hfirst
    by_cases hx : x.toNat = i
    · -- the walk goes on to the first server that is not `x`
      have hfind : w.find? (· ≠ x) = some idx := by
        rw [List.find?_cons_of_neg (by simpa using hx)] at hidx
        rw [← hidx]
        congr 1
        funext y
        simp only [← hx, ne_eq, UInt32.toNat_inj]
      obtain ⟨t, ht⟩ := List.exists_destutter'_of_find? hfind
      have htried := tryServer_assigned cfg command h404 outcome x 0 {}
      rw [if_pos (hdown x hx)] at htried
      rw [List.destutter_cons', ht, List.take_succ_cons, List.take_succ_cons, tryAll_next htried,
        tryAll_up command cfg h404 hup fun h => absurd h.2.1 (Nat.succ_ne_zero 0)]
      refine ⟨if (outcome x).callable then [x] else [], rfl, rfl, ?_⟩
      intro y hy
      split_ifs at hy
      · rwa [List.mem_singleton.mp hy]
      · cases hy
    · obtain rfl : x = idx := by
        rw [List.find?_cons_of_pos (by simpa using hx)] at hidx
        exact Option.some.inj hidx
      rw [List.destutter_cons', ← List.cons_tail_destutter', List.take_succ_cons,
        tryAll_up command cfg h404 hup (hfirst x rfl hx)]
      exact ⟨[], rfl, rfl, nofun⟩

/-- **Failover equals removal**: while server `i`, which shares no node, is down and the others
answer, `run` delivers a command to the server that the pool without `i` routes its key to. Only
the answer of the first server tried can be excused. -/
theorem run_down (hpool : consistentHashingPool hashf pcfg addresses = .ok pool)
    (hshares : SharesNone (nodePoints hashf pcfg.virtualNodes addresses.list) i)
    (hother : ∃ idx ∈ owners pool, idx.toNat ≠ i) (hmax : 2 ≤ cfg.maxContinues)
    (hdown : ∀ idx, idx.toNat = i → (outcome idx).Down)
    (hup : ∀ idx, idx.toNat ≠ i → ¬(outcome idx).Down) {key : Bytes}
    (hfirst : FirstStands cfg h404 outcome i (pool.choose key).walk) : ∃ idx failed,
      route hashf pcfg (addresses.eraseIdx i) key =
        some (if i < idx.toNat then idx - 1 else idx) ∧ idx.toNat ≠ i ∧
      (run (assigned outcome) cfg command h404 pool key {}).1 = .ok (outcome idx).response ∧
      (run (assigned outcome) cfg command h404 pool key {}).2.sent = failed ++ [idx] ∧
      ∀ x ∈ failed, x.toNat = i := by
  obtain ⟨idx, hidx⟩ : ∃ idx,
      (pool.choose key).walk.find? (fun x => x.toNat ≠ i) = some idx := by
    obtain ⟨x, hx, hxi⟩ := hother
    refine Option.isSome_iff_exists.mp (List.find?_isSome.mpr ⟨x, ?_, by simpa using hxi⟩)
    exact (mem_owners key).mp hx
  obtain ⟨hne, hroute⟩ := route_of_walk hpool hshares hidx
  obtain ⟨failed, hresult, hsent, hfailed⟩ :=
    run_of_walk command cfg h404 hpool hmax hdown (hup idx hne) hfirst hidx
  exact ⟨idx, failed, hroute, hne, hresult, hsent, hfailed⟩

end Down

/-! ## One of three servers -/

/-- Server 0 is not callable, the others have just been restored and find nothing. -/
def firstDown (idx : UInt32) : Outcome where
  callable := idx != 0
  response := { code := .notFound }

theorem sharesNone_threeServers : SharesNone (nodePoints byteSum 2 threeServers.list) 0 := by
  have hne : ∀ m < 2, ∀ n < 2, ∀ addr ∈ [[15], [100]],
      (byteSum [10])^[m + 1] 0 ≠ (byteSum addr)^[n + 1] 0 := by decide
  rintro j hj s t hs ht k hks hkt
  obtain rfl : hashChain byteSum [10] 0 2 = s := Option.some.inj hs
  obtain ⟨addr, haddr, rfl⟩ := Option.map_eq_some_iff.mp (List.getElem?_map ▸ ht)
  obtain ⟨m, hm, rfl⟩ := hks
  obtain ⟨n, hn, hmn⟩ := hkt
  refine hne m hm n hn addr ?_ hmn
  match j, haddr with
  | 0, _ => contradiction
  | 1, rfl => simp
  | 2, rfl => simp

theorem run_down_threePool : ∃ idx failed,
    route byteSum ⟨2⟩ (threeServers.eraseIdx 0) (ascii "zz") =
      some (if 0 < idx.toNat then idx - 1 else idx) ∧ idx.toNat ≠ 0 ∧
    (run (assigned firstDown) {} () true threePool (ascii "zz") {}).1 =
      .ok (firstDown idx).response ∧
    (run (assigned firstDown) {} () true threePool (ascii "zz") {}).2.sent = failed ++ [idx] ∧
    ∀ x ∈ failed, x.toNat = 0 := by
  have hzero : ∀ idx : UInt32, idx.toNat = 0 ↔ idx = 0 := fun idx => UInt32.toNat_inj (b := 0)
  refine run_down () {} true consistentHashingPool_threeServers sharesNone_threeServers
    ⟨1, by decide, by decide⟩ (by decide) ?_ ?_ ?_
  · intro idx hidx
    rw [(hzero idx).mp hidx]
    decide
  · intro idx hidx
    have hne : idx ≠ 0 := fun h => hidx ((hzero idx).mpr h)
    simp [firstDown, Outcome.Down, hne]
  · rw [walk_threePool]
    rintro idx hidx hne
    obtain rfl : (0 : UInt32) = idx := Option.some.inj hidx
    exact absurd rfl hne

end McacheClient
