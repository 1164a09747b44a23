import McacheClient.Client.Run
import Mathlib.Data.Finset.Card
import Mathlib.Data.List.Nodup

/-!
# Failover

One call of `run` when every server has a fixed outcome: it is not callable, it answers
`io_error`, or it answers with a real response.

* `probes`: the servers that are tried, a prefix of the collapsed walk that ends at the first
  server that answers;
* `exists_up_sent`: a command that meets a server that is up is delivered to one;
* **`reachesHealthy_iff`**: the servers tried are distinct, and a healthy server is found, exactly
  when the walk does not come back to a server it left.
-/

namespace McacheClient

open scoped List

/-- What the proxy of a server does during one call of `run`. -/
structure Outcome where
  callable : Bool
  response : Response
  lifespan : ℤ := 0

/-- The server is not callable or answers `io_error`. -/
def Outcome.Down (o : Outcome) : Prop := o.callable = false ∨ o.response.code = .ioError

/-- The server answers `not_found` so soon after its restoration that a neighbour is asked. It must
be the first server that is tried. -/
def Outcome.Excused (cfg : ClientConfig) (h404 : Bool) (conts : ℕ) (o : Outcome) : Prop :=
  h404 = true ∧ conts = 0 ∧ o.callable = true ∧ o.response.code = .notFound ∧
    o.lifespan < cfg.h404Duration

theorem Outcome.Excused.not_down {cfg : ClientConfig} {h404 : Bool} {conts : ℕ} {o : Outcome}
    (h : o.Excused cfg h404 conts) : ¬o.Down := by
  rintro (hcallable | hcode)
  · exact absurd (h.2.2.1.symm.trans hcallable) (by decide)
  · exact absurd (h.2.2.2.1.symm.trans hcode) (by decide)

instance (o : Outcome) : Decidable o.Down := by unfold Outcome.Down; infer_instance

instance (cfg : ClientConfig) (h404 : Bool) (conts : ℕ) (o : Outcome) :
    Decidable (o.Excused cfg h404 conts) := by
  unfold Outcome.Excused; infer_instance

/-- The calls made on the proxies: the servers of the `callable` and of the `send` calls. -/
structure Calls where
  probed : List UInt32 := []
  sent : List UInt32 := []
  deriving DecidableEq

/-- Proxies with a fixed outcome for every server, which record the calls. -/
def assigned {κ : Type} (outcome : UInt32 → Outcome) : ServerProxies Calls κ where
  callable idx s := ((outcome idx).callable, { s with probed := s.probed ++ [idx] })
  send idx _ s := (.ok (outcome idx).response, { s with sent := s.sent ++ [idx] })
  lifespan idx s := ((outcome idx).lifespan, s)

section Probes

variable {κ : Type} (cfg : ClientConfig) (command : κ) (h404 : Bool) (outcome : UInt32 → Outcome)

/-- The `n`-th server tried is passed over. -/
def Passed (n : ℕ) (idx : UInt32) : Prop :=
  (outcome idx).Down ∨ (outcome idx).Excused cfg h404 n

instance (n : ℕ) (idx : UInt32) : Decidable (Passed cfg h404 outcome n idx) := by
  unfold Passed; infer_instance

/-- The servers tried from a list: up to the first one that is not passed over. -/
def probes : List UInt32 → ℕ → List UInt32
  | [], _ => []
  | idx :: idxs, n => idx :: if Passed cfg h404 outcome n idx then probes idxs (n + 1) else []

omit outcome in
theorem tryServer_of_outcome {σ : Type} {proxies : ServerProxies σ κ} {o : Outcome} {idx : UInt32}
    {s s₁ s₂ : σ} (hcallable : proxies.callable idx s = (o.callable, s₁))
    (hsend : o.callable = true → proxies.send idx command s₁ = (.ok o.response, s₂))
    (hlifespan : proxies.lifespan idx s₂ = (o.lifespan, s₂)) (conts : ℕ) :
    tryServer proxies cfg command h404 idx conts s =
      (if o.Down then .next false
        else if o.Excused cfg h404 conts then .next true
        else .back (.ok o.response), if o.callable then s₂ else s₁) := by
  unfold tryServer
  cases hc : o.callable with
  | false =>
    rw [hc] at hcallable
    simp [hcallable, Outcome.Down, hc]
  | true =>
    rw [hc] at hcallable
    simp only [hcallable, hsend hc]
    cases hr : o.response.code with
    | notFound =>
      by_cases hex : h404 = true ∧ conts = 0
      · by_cases hl : o.lifespan < cfg.h404Duration <;>
          simp [Outcome.Down, Outcome.Excused, hc, hr, hex, hl, hlifespan]
      · have hex' : ¬o.Excused cfg h404 conts := fun h => hex ⟨h.1, h.2.1⟩
        have hex'' : (h404 && conts == 0) = false := by simpa using hex
        simp [Outcome.Down, hc, hr, hex', hex'']
    | _ => simp [Outcome.Down, Outcome.Excused, hc, hr]

theorem tryServer_assigned (idx : UInt32) (conts : ℕ) (s : Calls) :
    tryServer (assigned outcome) cfg command h404 idx conts s =
      (if (outcome idx).Down then .next false
        else if (outcome idx).Excused cfg h404 conts then .next true
        else .back (.ok (outcome idx).response),
      { probed := s.probed ++ [idx],
        sent := s.sent ++ if (outcome idx).callable then [idx] else [] }) := by
  refine (tryServer_of_outcome cfg command h404 (o := outcome idx) rfl (fun _ => rfl) rfl _).trans
    ?_
  cases (outcome idx).callable <;> simp

theorem tryAll_probed (idxs : List UInt32) (conts : ℕ) (oos : Bool) (s : Calls) :
    (tryAll (assigned outcome) cfg command h404 idxs conts oos s).2.probed =
      s.probed ++ probes cfg h404 outcome idxs conts := by
  induction idxs generalizing conts oos s with
  | nil => simp [tryAll, probes]
  | cons idx idxs ih =>
    rw [tryAll, tryServer_assigned, probes]
    by_cases hdown : (outcome idx).Down
    · have hpass : Passed cfg h404 outcome conts idx := Or.inl hdown
      rw [if_pos hdown, if_pos hpass]
      simp [ih]
    · rw [if_neg hdown]
      by_cases hex : (outcome idx).Excused cfg h404 conts
      · have hpass : Passed cfg h404 outcome conts idx := Or.inr hex
        rw [if_pos hex, if_pos hpass]
        simp [ih]
      · have hpass : ¬ Passed cfg h404 outcome conts idx := not_or.mpr ⟨hdown, hex⟩
        rw [if_neg hex, if_neg hpass]

theorem tryAll_sent_subset (idxs : List UInt32) (conts : ℕ) (oos : Bool) (s : Calls) :
    s.sent ⊆ (tryAll (assigned outcome) cfg command h404 idxs conts oos s).2.sent := by
  induction idxs generalizing conts oos s with
  | nil => exact List.Subset.refl _
  | cons idx idxs ih =>
    rw [tryAll, tryServer_assigned]
    intro i hi
    by_cases hdown : (outcome idx).Down
    · rw [if_pos hdown]
      exact ih _ _ _ (List.mem_append_left _ hi)
    · rw [if_neg hdown]
      by_cases hex : (outcome idx).Excused cfg h404 conts
      · rw [if_pos hex]
        exact ih _ _ _ (List.mem_append_left _ hi)
      · rw [if_neg hex]
        exact List.mem_append_left _ hi

theorem tryAll_ne_outOfServers (idxs : List UInt32) (conts : ℕ) (s : Calls) :
    (tryAll (assigned outcome) cfg command h404 idxs conts false s).1 ≠ .error .outOfServers := by
  induction idxs generalizing conts s with
  | nil => simp [tryAll, afterLoop]
  | cons idx idxs ih =>
    rw [tryAll, tryServer_assigned]
    split_ifs <;> simp [ih]

/-- **A list with a server that is up**: the command is delivered to one. -/
theorem exists_up_sent (idxs : List UInt32) (conts : ℕ) (oos : Bool) (s : Calls)
    (hup : ∃ idx ∈ idxs, ¬ (outcome idx).Down) :
    (tryAll (assigned outcome) cfg command h404 idxs conts oos s).1 ≠ .error .outOfServers ∧
      ∃ idx ∈ (tryAll (assigned outcome) cfg command h404 idxs conts oos s).2.sent,
        ¬ (outcome idx).Down := by
  induction idxs generalizing conts oos s with
  | nil => simp at hup
  | cons idx idxs ih =>
    rw [tryAll, tryServer_assigned]
    by_cases hdown : (outcome idx).Down
    · rw [if_pos hdown]
      refine ih _ _ _ ?_
      obtain ⟨i, hi, hi'⟩ := hup
      rcases List.mem_cons.mp hi with rfl | hi
      · exact absurd hdown hi'
      · exact ⟨i, hi, hi'⟩
    · have hcall : (outcome idx).callable = true := by
        simpa [Outcome.Down] using (not_or.mp hdown).1
      have hsent : idx ∈ s.sent ++ if (outcome idx).callable then [idx] else [] := by simp [hcall]
      rw [if_neg hdown]
      by_cases hex : (outcome idx).Excused cfg h404 conts
      · rw [if_pos hex]
        simp only [Bool.not_true, Bool.and_false]
        exact ⟨tryAll_ne_outOfServers cfg command h404 outcome _ _ _,
          idx, tryAll_sent_subset cfg command h404 outcome _ _ _ _ hsent, hdown⟩
      · rw [if_neg hex]
        exact ⟨by simp, idx, hsent, hdown⟩

theorem probes_prefix (idxs : List UInt32) (n : ℕ) : probes cfg h404 outcome idxs n <+: idxs := by
  induction idxs generalizing n with
  | nil => exact List.prefix_rfl
  | cons idx idxs ih =>
    rw [probes, List.prefix_cons_inj]
    split_ifs
    · exact ih _
    · exact List.nil_prefix

theorem passed_of_mem_dropLast {idxs : List UInt32} {n : ℕ} {idx : UInt32}
    (h : idx ∈ (probes cfg h404 outcome idxs n).dropLast) :
    (outcome idx).Down ∨ (idxs.head? = some idx ∧ (outcome idx).Excused cfg h404 n) := by
  induction idxs generalizing n with
  | nil => simp [probes] at h
  | cons i idxs ih =>
    rw [probes] at h
    split_ifs at h with hpass
    · cases hp : probes cfg h404 outcome idxs (n + 1) with
      | nil => simp [hp] at h
      | cons j js =>
        rw [hp, List.dropLast_cons_cons, List.mem_cons, ← hp] at h
        rcases h with rfl | h
        · exact hpass.imp_right fun hex => ⟨rfl, hex⟩
        · rcases ih h with hd | ⟨-, hex⟩
          · exact Or.inl hd
          · exact absurd hex.2.1 (Nat.succ_ne_zero n)
    · simp at h

theorem not_passed_of_prefix {idxs l : List UInt32} {n : ℕ} {idx : UInt32}
    (hp : probes cfg h404 outcome idxs n = l ++ [idx]) (hne : idxs ≠ l ++ [idx]) :
    ¬ Passed cfg h404 outcome (n + l.length) idx := by
  induction idxs generalizing n l with
  | nil => simp [probes] at hp
  | cons i idxs ih =>
    rw [probes] at hp
    split_ifs at hp with hpass
    · cases l with
      | nil =>
        obtain ⟨rfl, hnil⟩ := List.cons.inj hp
        cases idxs with
        | nil => exact absurd rfl hne
        | cons j js => simp [probes] at hnil
      | cons j l =>
        obtain ⟨rfl, htail⟩ := List.cons.inj hp
        have := ih htail (fun he => hne (by rw [he]; rfl))
        rwa [List.length_cons, show n + (l.length + 1) = n + 1 + l.length by omega]
    · cases l with
      | nil => obtain ⟨rfl, -⟩ := List.cons.inj hp
               simpa using hpass
      | cons j l => simp at hp

theorem probes_eq_nil {idxs : List UInt32} {n : ℕ} (h : probes cfg h404 outcome idxs n = []) :
    idxs = [] := by
  cases idxs with
  | nil => rfl
  | cons i idxs => simp [probes] at h

theorem probes_eq_self {idxs : List UInt32} {n : ℕ} (h : ∀ i ∈ idxs, (outcome i).Down) :
    probes cfg h404 outcome idxs n = idxs := by
  induction idxs generalizing n with
  | nil => rfl
  | cons i idxs ih =>
    have hp : Passed cfg h404 outcome n i := Or.inl (h i List.mem_cons_self)
    rw [probes, if_pos hp, ih fun j hj => h j (List.mem_cons_of_mem _ hj)]

/-! ## Coming back to a server -/

/-- Going along the walk, with only servers that are passed over before the last node and at most
`max_continues` changes of server, no server comes back after another one. -/
def NeverReturns (walk : List UInt32) : Prop :=
  ∀ u, u <+: walk →
    (∀ i ∈ u.dropLast, (outcome i).Down ∨ (walk.head? = some i ∧ (outcome i).Excused cfg h404 0)) →
    (u.destutter (· ≠ ·)).length ≤ cfg.maxContinues.toNat →
    ∀ s t, s ≠ t → ¬ [s, t, s] <+ u

variable {cfg h404 outcome} {walk : List UInt32}

theorem head?_take_destutter (hne : (walk.destutter (· ≠ ·)).take cfg.maxContinues.toNat ≠ []) :
    ((walk.destutter (· ≠ ·)).take cfg.maxContinues.toNat).head? = walk.head? := by
  have hmax : cfg.maxContinues.toNat ≠ 0 := fun h => hne (by rw [h, List.take_zero])
  rw [List.head?_take, if_neg hmax, List.head?_destutter_ne]

theorem nodup_of_prefix {l v : List UInt32} (hv : v <+: l)
    (hpass : ∀ i ∈ v.dropLast,
      (outcome i).Down ∨ (l.head? = some i ∧ (outcome i).Excused cfg h404 0))
    (hnd : (probes cfg h404 outcome l 0).Nodup) : v.Nodup := by
  have hp := probes_prefix cfg h404 outcome l 0
  rcases List.prefix_or_prefix_of_prefix hv hp with h | ⟨t, ht⟩
  · exact hnd.sublist h.sublist
  rcases List.eq_nil_or_concat (probes cfg h404 outcome l 0) with hnil | ⟨m, x, hx⟩
  · rw [probes_eq_nil cfg h404 outcome hnil, List.prefix_nil] at hv
    rw [hv]; exact List.nodup_nil
  rw [List.concat_eq_append] at hx
  cases t with
  | nil => rw [List.append_nil] at ht; rw [← ht]; exact hnd
  | cons y t =>
    -- the last server tried was not passed over, but `v` goes on
    have hne : l ≠ m ++ [x] := by
      intro he
      have := hv.length_le
      rw [← ht, hx, he] at this
      simp at this
    have hnot := not_passed_of_prefix cfg h404 outcome hx hne
    have hmem : x ∈ v.dropLast := by
      rw [← ht, hx, List.dropLast_append_of_ne_nil (by simp)]
      simp
    rcases hpass x hmem with hd | ⟨hhead, hex⟩
    · exact absurd (Or.inl hd) hnot
    · cases m with
      | nil => exact absurd (Or.inr hex) hnot
      | cons z m =>
        have hz : l.head? = some z := by
          obtain ⟨r, hr⟩ := hp
          rw [← hr, hx]; rfl
        rw [hhead] at hz
        rw [hx, ← Option.some.inj hz] at hnd
        simp at hnd

theorem nodup_probes_iff : (probes cfg h404 outcome
    ((walk.destutter (· ≠ ·)).take cfg.maxContinues.toNat) 0).Nodup ↔
      NeverReturns cfg h404 outcome walk := by
  constructor
  · intro hnd u hu hpass hlen
    rw [← List.nodup_destutter_iff]
    have hv : u.destutter (· ≠ ·) <+: (walk.destutter (· ≠ ·)).take cfg.maxContinues.toNat :=
      List.prefix_take_iff.mpr ⟨List.destutter_prefix hu, hlen⟩
    refine nodup_of_prefix hv (fun i hi => ?_) hnd
    rcases hpass i (List.dropLast_destutter_subset u hi) with hd | ⟨hhead, hex⟩
    · exact Or.inl hd
    · refine Or.inr ⟨?_, hex⟩
      rwa [head?_take_destutter]
      intro hnil
      rw [hnil, List.prefix_nil] at hv
      rw [hv] at hi
      simp at hi
  · intro h
    have hp := probes_prefix cfg h404 outcome
      ((walk.destutter (· ≠ ·)).take cfg.maxContinues.toNat) 0
    obtain ⟨u, hu, heq, hsub⟩ := List.exists_prefix_destutter (hp.trans (List.take_prefix _ _))
    rw [← heq, List.nodup_destutter_iff]
    refine h u hu (fun i hi => ?_) ?_
    · rcases passed_of_mem_dropLast cfg h404 outcome (hsub hi) with hd | ⟨hhead, hex⟩
      · exact Or.inl hd
      · refine Or.inr ⟨?_, hex⟩
        rwa [head?_take_destutter] at hhead
        intro hnil
        rw [hnil] at hhead
        simp at hhead
    · rw [heq]
      exact hp.length_le.trans (List.length_take_le _ _)

end Probes

/-! ## Reaching a healthy server -/

section Healthy

variable {κ : Type} (command : κ) {hashf : HashFunction} {pcfg : PoolConfig}
  {addresses : Addresses} {pool : Pool}

/-- The servers that own nodes of the ring. -/
def owners (pool : Pool) : Finset UInt32 := (pool.ring.entries.map Prod.snd).toFinset

/-- The servers that own nodes and are down. -/
def downOwners (outcome : UInt32 → Outcome) (pool : Pool) : Finset UInt32 :=
  (owners pool).filter fun idx => (outcome idx).Down

/-- The servers that one call of `run` tries are distinct, and when fewer than `max_continues`
owners are down and another one is up, the command is delivered to a server that is up. -/
def ReachesHealthy (cfg : ClientConfig) (h404 : Bool) (outcome : UInt32 → Outcome) (pool : Pool)
    (key : Bytes) : Prop :=
  let r := run (assigned outcome) cfg command h404 pool key {}
  r.2.probed.Nodup ∧
    ((downOwners outcome pool).card < cfg.maxContinues.toNat →
      (∃ idx ∈ owners pool, ¬ (outcome idx).Down) →
      r.1 ≠ .error .outOfServers ∧ ∃ idx ∈ r.2.sent, ¬ (outcome idx).Down)

theorem mem_owners (key : Bytes) {idx : UInt32} :
    idx ∈ owners pool ↔ idx ∈ (pool.choose key).walk := by
  rw [mem_walk_choose, owners]
  simp

/-- **Failover reaches a healthy server exactly when the walk never returns** to a server that it
left. -/
theorem reachesHealthy_iff (hpool : consistentHashingPool hashf pcfg addresses = .ok pool)
    (cfg : ClientConfig) (h404 : Bool) (outcome : UInt32 → Outcome) (key : Bytes) :
    ReachesHealthy command cfg h404 outcome pool key ↔
      NeverReturns cfg h404 outcome (pool.choose key).walk := by
  rw [← nodup_probes_iff, ReachesHealthy, run_eq _ _ _ _ (sentinel_not_mem_walk hpool key),
    tryAll_probed]
  refine and_iff_left_of_imp fun hnd hcard hup => exists_up_sent _ _ _ _ _ _ _ _ ?_
  set l := ((pool.choose key).walk.destutter (· ≠ ·)).take cfg.maxContinues.toNat with hl
  rw [show ({} : Calls).probed = [] from rfl, List.nil_append] at hnd
  by_contra hno
  push Not at hno
  -- all servers that can be tried are down, so all of them are tried
  rw [probes_eq_self cfg h404 outcome hno] at hnd
  obtain ⟨up, hup, hup'⟩ := hup
  rcases Nat.lt_or_ge (((pool.choose key).walk.destutter (· ≠ ·)).length)
    cfg.maxContinues.toNat with hlen | hlen
  · -- the whole walk can be tried, and it meets every owner
    refine hup' (hno up ?_)
    rw [hl, List.take_of_length_le hlen.le, List.mem_destutter_ne]
    exact (mem_owners key).mp hup
  · have hsub : l.toFinset ⊆ downOwners outcome pool := by
      intro i hi
      rw [List.mem_toFinset] at hi
      refine Finset.mem_filter.mpr ⟨(mem_owners key).mpr ?_, hno i hi⟩
      exact List.mem_destutter_ne.mp ((List.take_subset _ _) hi)
    have := Finset.card_le_card hsub
    rw [List.toFinset_card_of_nodup hnd, hl, List.length_take, Nat.min_eq_left hlen] at this
    omega

end Healthy

/-! ## A walk that returns -/

/-- The ring of the three servers of `threeServers`. -/
def threePool : Pool := ⟨pushServers byteSum 2 threeServers.list 0 .empty, byteSum⟩

theorem consistentHashingPool_threeServers :
    consistentHashingPool byteSum ⟨2⟩ threeServers = .ok threePool := rfl

theorem walk_threePool :
    (threePool.choose (ascii "zz")).walk = [0, 1, 0, 1, 2, 2, 0, 1, 0, 1, 2, 2] := by decide

/-- Servers 0 and 1 are not callable, server 2 stores. -/
def twoDown (idx : UInt32) : Outcome where
  callable := idx == 2
  response := { code := .stored }

/-- The walk is `0, 1, 0, 1, 2, 2, …`: the three tries go to two servers, and the third one, which
is up, is never asked. -/
theorem not_reachesHealthy_twoDown :
    consistentHashingPool byteSum ⟨2⟩ threeServers = .ok threePool ∧
      ¬ ReachesHealthy () {} false twoDown threePool (ascii "zz") ∧
      (downOwners twoDown threePool).card = 2 ∧ 2 ∈ owners threePool ∧ ¬ (twoDown 2).Down ∧
      run (assigned twoDown) {} () false threePool (ascii "zz") {} =
        (.error .outOfServers, { probed := [0, 1, 0], sent := [] }) := by
  have hrun : run (assigned twoDown) {} () false threePool (ascii "zz") {} =
      (.error .outOfServers, { probed := [0, 1, 0], sent := [] }) := by
    rw [run_eq _ _ _ _ (by rw [walk_threePool]; decide), walk_threePool]
    rfl
  refine ⟨rfl, fun h => ?_, by decide, by decide, by decide, hrun⟩
  have hnd := h.1
  rw [hrun] at hnd
  exact absurd hnd (by decide)

theorem reachesHealthy_iff_threePool :
    ReachesHealthy () {} false twoDown threePool (ascii "zz") ↔
      NeverReturns {} false twoDown (threePool.choose (ascii "zz")).walk :=
  reachesHealthy_iff () consistentHashingPool_threeServers {} false twoDown (ascii "zz")

end McacheClient
