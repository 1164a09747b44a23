import McacheClient.Proxy.Sharing

/-!
# Connections of a pool

Any number of threads run the programs of the proxy over one `lock::caching_connection_pool_t`,
one operation at a time.

* `Connections`, `pooledAtomic`: the stack of the pool, and what each operation does to it;
* `Grip`: the connection that a thread holds, a ghost;
* `usesOwn_rules`: a thread exchanges on the connection that it picked, and pushes back one whose
  response is below `resp::error`;
* `ExclusiveUse`, `Owned`: the property, and the invariant that implies it;
* **`exclusiveUse`**: every connection is held by one thread or pooled once, and the pooled ones are
  fit for use.
-/

namespace McacheClient

/-- A server and its pool. The connections that were made are numbered from 0; `last` is a ghost,
the code of the command that a connection completed last. -/
structure Connections (τ : Type) where
  server : Shared τ
  stack : List ℕ := []
  opened : ℕ := 0
  last : ℕ → Option ResponseCode := fun _ => none

section Atomic

variable {τ κ : Type}

/-- One operation of thread `t` on a pool of at most `capacity` connections. -/
def pooledAtomic (capacity : ℕ) (t : τ) (e : Choice) :
    (o : ProxyOp κ) → Connections τ → Option (o.Answer × Connections τ)
  | .pick, s =>
    match s.stack, e.connection with
    | connection :: stack, _ => some (.ok connection, { s with stack })
    | [], .ok _ => some (.ok s.opened, { s with opened := s.opened + 1 })
    | [], .error x => some (.error x, s)
  | .exchange connection _, s =>
    let code := e.response.toOption.map Response.code
    some (e.response, { s with last := Function.update s.last connection code })
  | .pushBack connection, s =>
    some ((), if s.stack.length < capacity then { s with stack := connection :: s.stack } else s)
  | .clear, s => some ((), { s with stack := [] })
  | o, s => (atomic t e o s.server).map fun (r, server) => (r, { s with server })

/-- What a thread does with a connection: nothing, picked it, got a response over it, or threw
while it used it. -/
inductive Grip
  | none
  | picked (connection : ℕ)
  | answered (connection : ℕ) (code : ResponseCode)
  | thrown (connection : ℕ)

/-- The connection that is held. -/
def Grip.connection? : Grip → Option ℕ
  | none => Option.none
  | picked connection | answered connection _ | thrown connection => some connection

/-- A connection that is not pushed back is dropped when its scope ends; it counts as held until
the next operation of its thread. -/
def Grip.advance : Grip → (o : ProxyOp κ) → o.Answer → Grip
  | _, .pick, .ok connection => picked connection
  | _, .exchange connection _, .ok response => answered connection response.code
  | _, .exchange connection _, .error _ => thrown connection
  | answered connection code, .storeDead _, _ => answered connection code
  | answered connection code, .storeFails _, _ => answered connection code
  | _, _, _ => none

/-- Threads over a pool. -/
abbrev PoolThreads (τ κ α : Type) : Type :=
  Threads τ (Connections τ) Grip (ProxyOp κ) ProxyOp.Answer α

end Atomic

/-! ## What a thread does with its connection -/

section Uses

variable {κ α β : Type}

/-- A command goes over the connection that was picked, and one that is pushed back has just
answered with a code below `resp::error`. -/
def Grip.mayUse (g : Grip) : ProxyOp κ → Prop
  | .exchange connection _ => g = picked connection
  | .pushBack connection =>
    ∃ code : ResponseCode, g = answered connection code ∧ code.value < ResponseCode.error.value
  | _ => True

/-- The program uses its own connections only, whatever the thread did before. -/
def UsesOwn (p : ProxyM κ α) : Prop :=
  ∀ g, p.Follows Grip.mayUse Grip.advance (fun _ _ => True) g

theorem UsesOwn.bind {p : ProxyM κ α} {f : α → ProxyM κ β} (hp : UsesOwn p)
    (hf : ∀ a, UsesOwn (f a)) : UsesOwn (p >>= f) :=
  fun g => Program.follows_bind.mpr ((hp g).mono fun g' a _ => hf a g')

theorem usesOwn_pure (a : α) : UsesOwn (pure a : ProxyM κ α) := fun _ => trivial

theorem usesOwn_perform_bind {o : ProxyOp κ} {f : o.Answer → ProxyM κ α}
    (hexchange : ∀ connection command, o ≠ .exchange connection command)
    (hpush : ∀ connection, o ≠ .pushBack connection) (hf : ∀ r, UsesOwn (f r)) :
    UsesOwn (perform o >>= f) := by
  intro g
  cases o with
  | exchange connection command => exact absurd rfl (hexchange connection command)
  | pushBack connection => exact absurd rfl (hpush connection)
  | _ => exact ⟨trivial, fun r => hf r _⟩

theorem usesOwn_scopeGuard {f : Bool → ProxyM κ α} (hf : ∀ b, UsesOwn (f b)) :
    UsesOwn (scopeGuard fun tryLock => tryLock >>= f) := by
  apply UsesOwn.bind
  · exact usesOwn_perform_bind nofun nofun hf
  · exact fun a => usesOwn_perform_bind nofun nofun fun _ => usesOwn_pure a

theorem usesOwn_sendTry (command : κ) : UsesOwn (sendTry command) := by
  intro g
  refine ⟨trivial, fun connection => ?_⟩
  cases connection with
  | error x => trivial
  | ok connection =>
    refine ⟨rfl, fun response => ?_⟩
    cases response with
    | error x => trivial
    | ok response =>
      refine ⟨trivial, fun _ => ⟨trivial, fun _ => ?_⟩⟩
      by_cases hcode : response.code.value < ResponseCode.error.value
      · simp only [if_pos hcode]
        exact ⟨⟨response.code, rfl, hcode⟩, fun _ => trivial⟩
      · simp only [if_neg hcode]
        trivial

theorem usesOwn_rules : ProxyRules fun {α} _ (p : ProxyM κ α) => UsesOwn p where
  of_pure _ := usesOwn_pure
  of_bind := UsesOwn.bind
  of_perform ho := usesOwn_perform_bind (by rintro _ _ rfl; exact ho) (by rintro _ rfl; exact ho)
  of_scopeGuard := usesOwn_scopeGuard
  of_sendTry := usesOwn_sendTry

end Uses

/-! ## Every connection has one user -/

section Owned

variable {τ κ : Type} [DecidableEq τ] {capacity : ℕ}

/-- Before the first step: no connection was made. -/
def startPool (cfg : ServerProxyConfig) (server : Shared τ) (calls : τ → List (ServerCall κ)) :
    PoolThreads τ κ Unit where
  shared := { server }
  left t := callAll cfg (calls t)
  phase _ := .none

/-- One operation of one thread. -/
abbrev poolStep (capacity : ℕ) {α : Type} :
    PoolThreads τ κ α → τ × Choice → Option (PoolThreads τ κ α) :=
  Threads.step (pooledAtomic capacity) Grip.advance

variable {α : Type}

/-- The thread holds the connection. -/
def Holds (s : PoolThreads τ κ α) (t : τ) (connection : ℕ) : Prop :=
  (s.phase t).connection? = some connection

/-- No connection is held twice, held and pooled, or pooled twice; the pool has room for all that
it holds; and every pooled connection completed its last command below `resp::error`. -/
structure ExclusiveUse (capacity : ℕ) (s : PoolThreads τ κ α) : Prop where
  held_once : ∀ t u connection, Holds s t connection → Holds s u connection → t = u
  not_pooled : ∀ t connection, Holds s t connection → connection ∉ s.shared.stack
  pooled_once : s.shared.stack.Nodup
  length_le : s.shared.stack.length ≤ capacity
  completed : ∀ connection ∈ s.shared.stack, ∃ code : ResponseCode,
    s.shared.last connection = some code ∧ code.value < ResponseCode.error.value

/-- Besides, threads use their own connections, which have been made, and know what the last
command on them was. -/
structure Owned (capacity : ℕ) (s : PoolThreads τ κ α) : Prop extends ExclusiveUse capacity s where
  disciplined : s.Disciplined Grip.mayUse Grip.advance fun _ _ => True
  held_opened : ∀ t connection, Holds s t connection → connection < s.shared.opened
  pooled_opened : ∀ connection ∈ s.shared.stack, connection < s.shared.opened
  answered : ∀ t connection code, s.phase t = .answered connection code →
    s.shared.last connection = some code

variable {s s' : PoolThreads τ κ α} {t : τ} {e : Choice}

omit [DecidableEq τ] in
theorem owned_startPool (cfg : ServerProxyConfig) (server : Shared τ)
    (calls : τ → List (ServerCall κ)) : Owned capacity (startPool cfg server calls) where
  held_once _ _ _ h := nomatch h
  not_pooled _ _ h := nomatch h
  pooled_once := List.nodup_nil
  length_le := Nat.zero_le _
  completed _ h := nomatch h
  disciplined t := usesOwn_rules.callAll cfg (calls t) _
  held_opened _ _ h := nomatch h
  pooled_opened _ h := nomatch h
  answered _ _ _ h := nomatch h

theorem holds_update {g : Grip} (hphase : s'.phase = Function.update s.phase t g) (u : τ)
    (connection : ℕ) :
    Holds s' u connection ↔
      if u = t then g.connection? = some connection else Holds s u connection := by
  rw [Holds, hphase, Function.update_apply]
  split_ifs <;> rfl

/-- A step after which the thread holds what it held, or nothing, and the pool has lost
connections or none. -/
theorem Owned.shrink (hs : Owned capacity s)
    (hd : s'.Disciplined Grip.mayUse Grip.advance fun _ _ => True) {g : Grip}
    (hphase : s'.phase = Function.update s.phase t g) (hg : g = .none ∨ g = s.phase t)
    (hstack : s'.shared.stack.Sublist s.shared.stack) (hopened : s'.shared.opened = s.shared.opened)
    (hlast : s'.shared.last = s.shared.last) : Owned capacity s' := by
  have hholds : ∀ u connection, Holds s' u connection → Holds s u connection := by
    intro u connection hu
    rw [holds_update hphase] at hu
    split_ifs at hu with hut
    · rcases hg with rfl | rfl
      · cases hu
      · rwa [hut]
    · exact hu
  refine {
    held_once := fun u v c hu hv => hs.held_once u v c (hholds u c hu) (hholds v c hv)
    not_pooled := fun u c hu hc => hs.not_pooled u c (hholds u c hu) (hstack.subset hc)
    pooled_once := hs.pooled_once.sublist hstack
    length_le := Nat.le_trans hstack.length_le hs.length_le
    completed := fun c hc => by
      rw [hlast]
      exact hs.completed c (hstack.subset hc)
    disciplined := hd
    held_opened := fun u c hu => by
      rw [hopened]
      exact hs.held_opened u c (hholds u c hu)
    pooled_opened := fun c hc => by
      rw [hopened]
      exact hs.pooled_opened c (hstack.subset hc)
    answered := fun u c code hu => ?_ }
  rw [hphase, Function.update_apply] at hu
  rw [hlast]
  split_ifs at hu with hut
  · rcases hg with rfl | rfl
    · cases hu
    · exact hs.answered t c code hu
  · exact hs.answered u c code hu

theorem Owned.pick (hs : Owned capacity s)
    (hd : s'.Disciplined Grip.mayUse Grip.advance fun _ _ => True) {c : ℕ}
    (hphase : s'.phase = Function.update s.phase t (.picked c)) (hfree : ∀ u, ¬Holds s u c)
    (hstack : s'.shared.stack.Sublist s.shared.stack) (hpool : c ∉ s'.shared.stack)
    (hopened : s.shared.opened ≤ s'.shared.opened)
    (hc : c < s'.shared.opened) (hlast : s'.shared.last = s.shared.last) :
    Owned capacity s' := by
  have hholds : ∀ u d, Holds s' u d → u = t ∧ d = c ∨ u ≠ t ∧ Holds s u d := by
    intro u d hu
    rw [holds_update hphase] at hu
    split_ifs at hu with hut
    · exact Or.inl ⟨hut, (Option.some.inj hu).symm⟩
    · exact Or.inr ⟨hut, hu⟩
  refine {
    held_once := fun u v d hu hv => ?_
    not_pooled := fun u d hu hd => ?_
    pooled_once := hs.pooled_once.sublist hstack
    length_le := Nat.le_trans hstack.length_le hs.length_le
    completed := fun d hd => by
      rw [hlast]
      exact hs.completed d (hstack.subset hd)
    disciplined := hd
    held_opened := fun u d hu => ?_
    pooled_opened := fun d hd => Nat.lt_of_lt_of_le (hs.pooled_opened d (hstack.subset hd)) hopened
    answered := fun u d code hu => ?_ }
  · rcases hholds u d hu with ⟨rfl, rfl⟩ | ⟨-, hu⟩ <;> rcases hholds v d hv with ⟨rfl, h⟩ | ⟨-, hv⟩
    · rfl
    · exact absurd hv (hfree v)
    · exact absurd (h ▸ hu) (hfree u)
    · exact hs.held_once u v d hu hv
  · rcases hholds u d hu with ⟨-, rfl⟩ | ⟨-, hu⟩
    · exact hpool hd
    · exact hs.not_pooled u d hu (hstack.subset hd)
  · rcases hholds u d hu with ⟨-, rfl⟩ | ⟨-, hu⟩
    · exact hc
    · exact Nat.lt_of_lt_of_le (hs.held_opened u d hu) hopened
  · rw [hphase, Function.update_apply] at hu
    rw [hlast]
    split_ifs at hu with hut
    exact hs.answered u d code hu

theorem Owned.exchange (hs : Owned capacity s)
    (hd : s'.Disciplined Grip.mayUse Grip.advance fun _ _ => True) {c : ℕ} {g : Grip}
    {code : Option ResponseCode} (hheld : Holds s t c)
    (hphase : s'.phase = Function.update s.phase t g) (hg : g.connection? = some c)
    (hcode : ∀ d code', g = .answered d code' → code = some code')
    (hstack : s'.shared.stack = s.shared.stack) (hopened : s'.shared.opened = s.shared.opened)
    (hlast : s'.shared.last = Function.update s.shared.last c code) : Owned capacity s' := by
  have hholds : ∀ u d, Holds s' u d ↔ Holds s u d := by
    intro u d
    rw [holds_update hphase]
    split_ifs with hut
    · rw [hut, Holds, show (s.phase t).connection? = some c from hheld, hg]
    · rfl
  refine {
    held_once := fun u v d hu hv => hs.held_once u v d ((hholds u d).mp hu) ((hholds v d).mp hv)
    not_pooled := fun u d hu => by
      rw [hstack]
      exact hs.not_pooled u d ((hholds u d).mp hu)
    pooled_once := by rw [hstack]; exact hs.pooled_once
    length_le := by rw [hstack]; exact hs.length_le
    completed := fun d hd => ?_
    disciplined := hd
    held_opened := fun u d hu => by
      rw [hopened]
      exact hs.held_opened u d ((hholds u d).mp hu)
    pooled_opened := fun d hd => by
      rw [hstack] at hd
      rw [hopened]
      exact hs.pooled_opened d hd
    answered := fun u d code' hu => ?_ }
  · rw [hstack] at hd
    have hne : d ≠ c := by
      rintro rfl
      exact hs.not_pooled t d hheld hd
    rw [hlast, Function.update_of_ne hne]
    exact hs.completed d hd
  · have hheld' : Holds s' u d := by rw [Holds, hu]; rfl
    rw [hphase, Function.update_apply] at hu
    rw [hlast]
    split_ifs at hu with hut
    · subst hu
      obtain rfl := Option.some.inj hg
      rw [Function.update_self]
      exact hcode d code' rfl
    · have hne : d ≠ c := by
        rintro rfl
        exact hut (hs.held_once u t d ((hholds u d).mp hheld') hheld)
      rw [Function.update_of_ne hne]
      exact hs.answered u d code' hu

theorem Owned.push (hs : Owned capacity s)
    (hd : s'.Disciplined Grip.mayUse Grip.advance fun _ _ => True) {c : ℕ} {code : ResponseCode}
    (hgrip : s.phase t = .answered c code) (hcode : code.value < ResponseCode.error.value)
    (hroom : s.shared.stack.length < capacity)
    (hphase : s'.phase = Function.update s.phase t .none)
    (hshared : s'.shared = { s.shared with stack := c :: s.shared.stack }) :
    Owned capacity s' := by
  have hheld : Holds s t c := by rw [Holds, hgrip]; rfl
  have hholds : ∀ u d, Holds s' u d → u ≠ t ∧ Holds s u d := by
    intro u d hu
    rw [holds_update hphase] at hu
    split_ifs at hu with hut
    · cases hu
    · exact ⟨hut, hu⟩
  refine {
    held_once := fun u v d hu hv => hs.held_once u v d (hholds u d hu).2 (hholds v d hv).2
    not_pooled := fun u d hu hd => ?_
    pooled_once := by
      rw [hshared]
      exact List.nodup_cons.mpr ⟨hs.not_pooled t c hheld, hs.pooled_once⟩
    length_le := by rw [hshared]; exact hroom
    completed := fun d hd => ?_
    disciplined := hd
    held_opened := fun u d hu => by
      rw [hshared]
      exact hs.held_opened u d (hholds u d hu).2
    pooled_opened := fun d hd => ?_
    answered := fun u d code' hu => ?_ }
  · obtain ⟨hut, hu⟩ := hholds u d hu
    rw [hshared] at hd
    rcases List.mem_cons.mp hd with rfl | hd
    · exact hut (hs.held_once u t d hu hheld)
    · exact hs.not_pooled u d hu hd
  · rw [hshared] at hd ⊢
    rcases List.mem_cons.mp hd with rfl | hd
    · exact ⟨code, hs.answered t d code hgrip, hcode⟩
    · exact hs.completed d hd
  · rw [hshared] at hd ⊢
    rcases List.mem_cons.mp hd with rfl | hd
    · exact hs.held_opened t d hheld
    · exact hs.pooled_opened d hd
  · rw [hphase, Function.update_apply] at hu
    rw [hshared]
    split_ifs at hu with hut
    exact hs.answered u d code' hu

omit [DecidableEq τ] in
theorem pooledAtomic_server {o : ProxyOp κ} {r : o.Answer} {sh sh' : Connections τ}
    (h : pooledAtomic capacity t e o sh = some (r, sh')) (hpick : o ≠ .pick)
    (hexchange : ∀ connection command, o ≠ .exchange connection command)
    (hpush : ∀ connection, o ≠ .pushBack connection) (hclear : o ≠ .clear) :
    ∃ server, sh' = { sh with server } := by
  have hmap : (atomic t e o sh.server).map
      (fun (r, server) => (r, { sh with server })) = some (r, sh') := by
    cases o with
    | pick => exact absurd rfl hpick
    | exchange connection command => exact absurd rfl (hexchange connection command)
    | pushBack connection => exact absurd rfl (hpush connection)
    | clear => exact absurd rfl hclear
    | _ => exact h
  obtain ⟨⟨r', server⟩, -, hr⟩ := Option.map_eq_some_iff.mp hmap
  exact ⟨server, (Prod.mk.inj hr).2.symm⟩

omit [DecidableEq τ] in
theorem advance_eq (g : Grip) {o : ProxyOp κ} (r : o.Answer) (hpick : o ≠ .pick)
    (hexchange : ∀ connection command, o ≠ .exchange connection command) :
    g.advance o r = .none ∨ g.advance o r = g := by
  cases o with
  | pick => exact absurd rfl hpick
  | exchange connection command => exact absurd rfl (hexchange connection command)
  | storeDead dead | storeFails fails => cases g <;> simp [Grip.advance]
  | _ => exact Or.inl rfl

theorem Owned.step_pick (hs : Owned capacity s)
    (hd : s'.Disciplined Grip.mayUse Grip.advance fun _ _ => True)
    {r : (ProxyOp.pick : ProxyOp κ).Answer}
    (hatomic : pooledAtomic capacity t e (.pick : ProxyOp κ) s.shared = some (r, s'.shared))
    (hphase : s'.phase = Function.update s.phase t ((s.phase t).advance (.pick : ProxyOp κ) r)) :
    Owned capacity s' := by
  cases hstack : s.shared.stack with
  | cons c stack =>
    simp only [pooledAtomic, hstack] at hatomic
    obtain ⟨rfl, hshared⟩ := Prod.mk.inj (Option.some.inj hatomic)
    have hc : c ∈ s.shared.stack := by simp [hstack]
    have hnodup := hs.pooled_once
    rw [hstack, List.nodup_cons] at hnodup
    apply hs.pick hd hphase (fun u hu => hs.not_pooled u c hu hc) <;> simp only [← hshared]
    · rw [hstack]
      exact List.sublist_cons_self c stack
    · exact hnodup.1
    · exact Nat.le_refl _
    · exact hs.pooled_opened c hc
  | nil =>
    cases hconnection : e.connection with
    | ok c =>
      simp only [pooledAtomic, hstack, hconnection] at hatomic
      obtain ⟨rfl, hshared⟩ := Prod.mk.inj (Option.some.inj hatomic)
      have hfresh : ∀ u, ¬Holds s u s.shared.opened := fun u hu =>
        Nat.lt_irrefl _ (hs.held_opened u _ hu)
      apply hs.pick hd hphase hfresh <;> simp only [← hshared]
      · exact List.nil_sublist _
      · exact List.not_mem_nil
      · exact Nat.le_succ _
      · exact Nat.lt_succ_self _
    | error x =>
      simp only [pooledAtomic, hstack, hconnection] at hatomic
      obtain ⟨rfl, hshared⟩ := Prod.mk.inj (Option.some.inj hatomic)
      apply hs.shrink hd hphase (Or.inl rfl) <;> simp only [← hshared]
      exact .refl _

theorem Owned.step_exchange (hs : Owned capacity s)
    (hd : s'.Disciplined Grip.mayUse Grip.advance fun _ _ => True) {c : ℕ} {command : κ}
    (hmay : (s.phase t).mayUse (.exchange c command))
    {r : (ProxyOp.exchange c command).Answer}
    (hatomic : pooledAtomic capacity t e (.exchange c command) s.shared = some (r, s'.shared))
    (hphase : s'.phase = Function.update s.phase t ((s.phase t).advance (.exchange c command) r)) :
    Owned capacity s' := by
  have hheld : Holds s t c := by
    rw [Holds, show s.phase t = .picked c from hmay]
    rfl
  obtain ⟨rfl, hshared⟩ := Prod.mk.inj (Option.some.inj hatomic)
  cases hresponse : e.response with
  | ok response =>
    rw [hresponse] at hphase hshared
    have hcode : ∀ d code, Grip.answered c response.code = .answered d code →
        some response.code = some code := by
      rintro d code ⟨⟩
      rfl
    apply hs.exchange hd hheld hphase rfl hcode <;> simp only [← hshared]
    rfl
  | error x =>
    rw [hresponse] at hphase hshared
    have hcode : ∀ d code, Grip.thrown c = .answered d code → none = some code := nofun
    apply hs.exchange hd hheld hphase rfl hcode <;> simp only [← hshared]
    rfl

theorem Owned.step_pushBack (hs : Owned capacity s)
    (hd : s'.Disciplined Grip.mayUse Grip.advance fun _ _ => True) {c : ℕ}
    (hmay : (s.phase t).mayUse (.pushBack c : ProxyOp κ))
    {r : (ProxyOp.pushBack c : ProxyOp κ).Answer}
    (hatomic : pooledAtomic capacity t e (.pushBack c : ProxyOp κ) s.shared = some (r, s'.shared))
    (hphase : s'.phase =
      Function.update s.phase t ((s.phase t).advance (.pushBack c : ProxyOp κ) r)) :
    Owned capacity s' := by
  obtain ⟨code, hgrip, hcode⟩ := hmay
  obtain ⟨rfl, hshared⟩ := Prod.mk.inj (Option.some.inj hatomic)
  rw [hgrip] at hphase
  split_ifs at hshared with hroom
  · exact hs.push hd hgrip hcode hroom hphase hshared.symm
  · apply hs.shrink hd hphase (Or.inl rfl) <;> simp only [← hshared]
    exact .refl _

/-- **Every connection keeps one user** in every step. -/
theorem Owned.step (hs : Owned capacity s) (h : poolStep capacity s (t, e) = some s') :
    Owned capacity s' := by
  have hd := Threads.follows_step hs.disciplined h
  obtain ⟨o, next, r, hleft, hatomic, -, hphase⟩ := Threads.step_eq_some h
  have hmay : (s.phase t).mayUse o := hs.disciplined.allowed hleft
  cases o with
  | pick => exact hs.step_pick hd hatomic hphase
  | exchange c command => exact hs.step_exchange hd hmay hatomic hphase
  | pushBack c => exact hs.step_pushBack hd hmay hatomic hphase
  | clear =>
    obtain ⟨rfl, hshared⟩ := Prod.mk.inj (Option.some.inj hatomic)
    apply hs.shrink hd hphase (Or.inl rfl) <;> simp only [← hshared]
    exact List.nil_sublist _
  | _ =>
    obtain ⟨server, hshared⟩ := pooledAtomic_server hatomic nofun nofun nofun nofun
    apply hs.shrink hd hphase (advance_eq (s.phase t) r nofun nofun) <;> simp only [hshared]
    exact .refl _

/-- **Exclusive use of pooled connections**, in every state that any number of threads reach in any
order of their operations. -/
theorem exclusiveUse (cfg : ServerProxyConfig) (server : Shared τ) (calls : τ → List (ServerCall κ))
    {labels : List (τ × Choice)} {s : PoolThreads τ κ Unit}
    (hrun : Run.exec (poolStep capacity) (startPool cfg server calls) labels = some s) :
    ExclusiveUse capacity s := by
  have hs : Owned capacity s := Run.invariant_exec _
    (fun s l s' hs h => hs.step (t := l.1) (e := l.2) h) (owned_startPool cfg server calls) hrun
  exact hs.toExclusiveUse

end Owned

/-- Two threads that take turns with one `send` each, over a pool of one connection: each makes a
connection of its own, and the second one does not fit into the pool any more. -/
def twoSends : List (ℕ × Choice) := [0, 1, 0, 1, 0, 1, 0, 1, 0, 1].map fun t => (t, {})

theorem exclusiveUse_twoSends : ∃ s : PoolThreads ℕ Unit Unit,
    Run.exec (poolStep 1) (startPool {} deadServer fun _ => [.send ()]) twoSends = some s ∧
      s.shared.opened = 2 ∧ s.shared.stack = [0] ∧ ExclusiveUse 1 s :=
  ⟨_, rfl, rfl, rfl, exclusiveUse {} deadServer (fun _ => [.send ()])
    (show Run.exec (poolStep 1) _ twoSends = _ from rfl)⟩

end McacheClient
