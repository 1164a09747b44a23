import McacheClient.Hash.Words
import McacheClient.Lib.Program
import McacheClient.Pool.Ring
import Mathlib.Data.Set.Basic
import Mathlib.Order.Interval.Set.Defs

/-!
# City

`city`, a hash function that reads words anywhere in its key, as a program that asks for the words.

* `City.Fetch`, `CityM`: a read of some bytes of the key, and programs of them;
* `City.hashLen0to16`, `City.hashLen17to32`, `City.hashLen33to64`, `City.loop`, `City.program`: the
  function;
* `city`: the program on a key;
* `City.Reads`, `reads_ask`: what is read, a discipline of programs;
* `reads_loop`: the loop reads blocks of 64 bytes;
* **`city_reads`**: no byte outside the key is read, and every byte of it is.
-/

namespace McacheClient

namespace City

/-- A read of `size` bytes at a position of the key. -/
structure Fetch where
  pos : ℕ
  size : ℕ

/-- Programs that read the key; a word comes as 64 bits. -/
abbrev CityM (α : Type) : Type := Program Fetch (fun _ => UInt64) α

def fetch64 (pos : ℕ) : CityM UInt64 := Program.ask ⟨pos, 8⟩

def fetch32 (pos : ℕ) : CityM UInt64 := Program.ask ⟨pos, 4⟩

/-- `s[pos]`. -/
def fetch8 (pos : ℕ) : CityM UInt64 := Program.ask ⟨pos, 1⟩

def k0 : UInt64 := 0xc3a5c85c97cb3127

def k1 : UInt64 := 0xb492b66fbe98f273

def k2 : UInt64 := 0x9ae16a3b2f90404f

def k3 : UInt64 := 0xc949d7c7509e6557

/-- `Rotate` and `RotateByAtLeast1`, for shifts from 1 to 63. -/
def rotate (val : UInt64) (shift : UInt64) : UInt64 := (val >>> shift) ||| (val <<< (64 - shift))

def shiftMix (val : UInt64) : UInt64 := val ^^^ (val >>> 47)

/-- `Hash128to64` of two words. -/
def hashLen16 (u v : UInt64) : UInt64 :=
  let kMul : UInt64 := 0x9ddfea08eb382d69
  let a := (u ^^^ v) * kMul
  let a := a ^^^ (a >>> 47)
  let b := (v ^^^ a) * kMul
  let b := b ^^^ (b >>> 47)
  b * kMul

def hashLen0to16 (len : ℕ) : CityM UInt64 :=
  if 8 < len then do
    let a ← fetch64 0
    let b ← fetch64 (len - 8)
    return hashLen16 a (rotate (b + UInt64.ofNat len) (UInt64.ofNat len)) ^^^ b
  else if 4 ≤ len then do
    let a ← fetch32 0
    let b ← fetch32 (len - 4)
    return hashLen16 (UInt64.ofNat len + (a <<< 3)) b
  else if 0 < len then do
    let a ← fetch8 0
    let b ← fetch8 (len / 2)
    let c ← fetch8 (len - 1)
    -- `y` and `z` are of 32 bits
    let y := a.toUInt32 + (b.toUInt32 <<< 8)
    let z := UInt32.ofNat len + (c.toUInt32 <<< 2)
    return shiftMix (y.toUInt64 * k2 ^^^ z.toUInt64 * k3) * k2
  else
    return k2

def hashLen17to32 (len : ℕ) : CityM UInt64 := do
  let a := (← fetch64 0) * k1
  let b ← fetch64 8
  let c := (← fetch64 (len - 8)) * k2
  let d := (← fetch64 (len - 16)) * k0
  return hashLen16 (rotate (a - b) 43 + rotate c 30 + d)
    (a + rotate (b ^^^ k3) 20 - c + UInt64.ofNat len)

/-- `WeakHashLen32WithSeeds` of four words. -/
def weakHash (w x y z a b : UInt64) : UInt64 × UInt64 :=
  let a := a + w
  let b := rotate (b + a + z) 21
  let c := a
  let a := a + x
  let a := a + y
  let b := b + rotate a 44
  (a + z, b + c)

/-- `WeakHashLen32WithSeeds` of the 32 bytes from a position on. -/
def weakHashLen32WithSeeds (pos : ℕ) (a b : UInt64) : CityM (UInt64 × UInt64) := do
  let w ← fetch64 pos
  let x ← fetch64 (pos + 8)
  let y ← fetch64 (pos + 16)
  let z ← fetch64 (pos + 24)
  return weakHash w x y z a b

def hashLen33to64 (len : ℕ) : CityM UInt64 := do
  let z ← fetch64 24
  let first ← fetch64 0
  let a := first + (UInt64.ofNat len + (← fetch64 (len - 16))) * k0
  let b := rotate (a + z) 52
  let c := rotate a 37
  let a := a + (← fetch64 8)
  let c := c + rotate a 7
  let a := a + (← fetch64 16)
  let vf := a + z
  let vs := b + rotate a 31 + c
  let third ← fetch64 16
  let a := third + (← fetch64 (len - 32))
  let z ← fetch64 (len - 8)
  let b := rotate (a + z) 52
  let c := rotate a 37
  let a := a + (← fetch64 (len - 24))
  let c := c + rotate a 7
  let a := a + (← fetch64 (len - 16))
  let wf := a + z
  let ws := b + rotate a 31 + c
  let r := shiftMix ((vf + ws) * k2 + (wf + vs) * k0)
  return shiftMix (r * k0 + vs) * k2

/-- The 56 bytes of state for a long key. -/
structure State where
  v : UInt64 × UInt64
  w : UInt64 × UInt64
  x : UInt64
  y : UInt64
  z : UInt64

/-- The loop over the blocks of 64 bytes that are left, from a position on. -/
def loop : ℕ → ℕ → State → CityM State
  | 0, _, s => return s
  | count + 1, pos, s => do
    let x := rotate (s.x + s.y + s.v.1 + (← fetch64 (pos + 8))) 37 * k1
    let y := rotate (s.y + s.v.2 + (← fetch64 (pos + 48))) 42 * k1
    let x := x ^^^ s.w.2
    let y := y + s.v.1 + (← fetch64 (pos + 40))
    let z := rotate (s.z + s.w.1) 33 * k1
    let v ← weakHashLen32WithSeeds pos (s.v.2 * k1) (x + s.w.1)
    let third ← fetch64 (pos + 16)
    let w ← weakHashLen32WithSeeds (pos + 32) (z + s.w.2) (y + third)
    -- `x` and `z` are swapped
    loop count (pos + 64) ⟨v, w, z, y, x⟩

/-- Keys of more than 64 bytes: the end first, then the blocks. -/
def hashLong (len : ℕ) (S : UInt64) : CityM UInt64 := do
  let x ← fetch64 (len - 40)
  let y16 ← fetch64 (len - 16)
  let y56 ← fetch64 (len - 56)
  let y := y16 + y56
  let z48 ← fetch64 (len - 48)
  let z24 ← fetch64 (len - 24)
  let z := hashLen16 (z48 + UInt64.ofNat len) z24 ^^^ S
  let v ← weakHashLen32WithSeeds (len - 64) (UInt64.ofNat len) z
  let w ← weakHashLen32WithSeeds (len - 32) (y + k1) x
  let first ← fetch64 0
  let s ← loop ((len - 1) / 64) 0 ⟨v, w, x * k1 + first, y, z⟩
  return hashLen16 (hashLen16 s.v.1 s.w.1 + shiftMix s.y * k1 + s.z) (hashLen16 s.v.2 s.w.2 + s.x)

/-- The hash of the four bytes of the seed. -/
def seedHash (seed : UInt32) : UInt64 :=
  ((hashLen0to16 4).exec (fun _ s => (seed.toUInt64, s)) ()).1

/-- `city`. -/
def program (len : ℕ) (seed : UInt32) : CityM UInt32 :=
  let S := seedHash seed
  if len ≤ 16 then return ((← hashLen0to16 len) ^^^ S).toUInt32
  else if len ≤ 32 then return ((← hashLen17to32 len) + S).toUInt32
  else if len ≤ 64 then return ((← hashLen33to64 len) + S).toUInt32
  else return (← hashLong len S).toUInt32

/-- The word that a read finds, in the low bytes. -/
def word (memory : Bytes) (o : Fetch) : UInt64 :=
  UInt64.ofNat (Numeral.ofLittleEndian ((memory.drop o.pos).take o.size))

/-- The hash of the first bytes of a memory. -/
def run (memory : Bytes) (len : ℕ) (seed : UInt32) : UInt32 :=
  ((program len seed).exec (fun o s => (word memory o, s)) ()).1

end City

/-- `city_t`. -/
def city : HashFunction := fun key seed => City.run key key.length seed

/-! ## What is read -/

namespace City

variable {len : ℕ} {read : Set ℕ} {α β : Type}

/-- The positions of a read. -/
def Fetch.positions (o : Fetch) : Set ℕ := Set.Ico o.pos (o.pos + o.size)

/-- A program that stays within the first `len` bytes, and has read what `final` says at its end. -/
def Reads (len : ℕ) (final : Set ℕ → α → Prop) (read : Set ℕ) (p : CityM α) : Prop :=
  p.Follows (fun _ o => o.pos + o.size ≤ len) (fun read o _ => read ∪ o.positions) final read

theorem reads_pure {final : Set ℕ → α → Prop} {a : α} (h : final read a) :
    Reads len final read (pure a) := h

theorem reads_ask {final : Set ℕ → β → Prop} {o : Fetch} {f : UInt64 → CityM β}
    (hfits : o.pos + o.size ≤ len) (hf : ∀ r, Reads len final (read ∪ o.positions) (f r)) :
    Reads len final read (Program.ask o >>= f) := ⟨hfits, hf⟩

theorem Reads.bind {mid : Set ℕ → α → Prop} {final : Set ℕ → β → Prop} {p : CityM α}
    {f : α → CityM β} (hp : Reads len mid read p)
    (hf : ∀ read a, mid read a → Reads len final read (f a)) :
    Reads len final read (p >>= f) :=
  Program.follows_bind.mpr (Program.Follows.mono hp hf)

/-- All bytes were read. -/
def All (len : ℕ) (read : Set ℕ) (_ : α) : Prop := ∀ i < len, i ∈ read

theorem reads_hashLen0to16 (hle : len ≤ 16) : Reads len (All len) ∅ (hashLen0to16 len) := by
  unfold hashLen0to16
  split_ifs with h8 h4 h0
  · refine reads_ask (by simp; omega) fun a => reads_ask (by simp; omega) fun b => reads_pure ?_
    intro i hi
    simp only [Fetch.positions, Set.mem_union, Set.mem_Ico]
    omega
  · refine reads_ask (by simp; omega) fun a => reads_ask (by simp; omega) fun b => reads_pure ?_
    intro i hi
    simp only [Fetch.positions, Set.mem_union, Set.mem_Ico]
    omega
  · refine reads_ask (by simp; omega) fun a => reads_ask (by simp; omega) fun b => ?_
    refine reads_ask (by simp; omega) fun c => reads_pure ?_
    intro i hi
    simp only [Fetch.positions, Set.mem_union, Set.mem_Ico]
    omega
  · exact reads_pure fun i hi => absurd hi (by omega)

theorem reads_hashLen17to32 (h : 16 < len) (hle : len ≤ 32) :
    Reads len (All len) ∅ (hashLen17to32 len) := by
  refine reads_ask (by simp; omega) fun a => reads_ask (by simp; omega) fun b => ?_
  refine reads_ask (by simp; omega) fun c => reads_ask (by simp; omega) fun d => reads_pure ?_
  intro i hi
  simp only [Fetch.positions, Set.mem_union, Set.mem_Ico]
  omega

theorem reads_hashLen33to64 (h : 32 < len) (hle : len ≤ 64) :
    Reads len (All len) ∅ (hashLen33to64 len) := by
  iterate 10 refine reads_ask (by simp; omega) fun _ => ?_
  refine reads_pure fun i hi => ?_
  simp only [Fetch.positions, Set.mem_union, Set.mem_Ico]
  omega

theorem reads_weakHash {final : Set ℕ → β → Prop} {pos : ℕ} {a b : UInt64}
    {f : UInt64 × UInt64 → CityM β} (hfits : pos + 32 ≤ len)
    (hf : ∀ r, Reads len final (read ∪ Set.Ico pos (pos + 32)) (f r)) :
    Reads len final read (weakHashLen32WithSeeds pos a b >>= f) := by
  refine reads_ask (by simp; omega) fun w => reads_ask (by simp; omega) fun x => ?_
  refine reads_ask (by simp; omega) fun y => reads_ask (by simp; omega) fun z => ?_
  convert hf (weakHash w x y z a b) using 1
  ext i
  by_cases hi : i ∈ read
  · simp [hi]
  · simp only [Fetch.positions, Set.mem_union, Set.mem_Ico, hi, false_or]
    omega

/-- **The loop** reads the blocks that are left, and the positions before them were read. -/
theorem reads_loop {count pos : ℕ} {s : State} (hfits : pos + 64 * count ≤ len)
    (hread : ∀ i < pos, i ∈ read) :
    Reads len (fun read' _ => read ⊆ read' ∧ ∀ i < pos + 64 * count, i ∈ read') read
      (loop count pos s) := by
  induction count generalizing pos read s with
  | zero => exact ⟨subset_rfl, hread⟩
  | succ count ih =>
    iterate 3 refine reads_ask (by simp; omega) fun _ => ?_
    refine reads_weakHash (by omega) fun _ => reads_ask (by simp; omega) fun _ => ?_
    refine reads_weakHash (by omega) fun _ => ?_
    refine (ih (by omega) fun i hi => ?_).mono fun read' _ hread' => ⟨?_, fun i hi => ?_⟩
    · by_cases hi' : i < pos
      · simp [hread i hi']
      · simp only [Fetch.positions, Set.mem_union, Set.mem_Ico]
        omega
    · refine subset_trans ?_ hread'.1
      intro i hi
      simp [hi]
    · exact hread'.2 i (by omega)

theorem reads_hashLong (h : 64 < len) (S : UInt64) : Reads len (All len) ∅ (hashLong len S) := by
  iterate 5 refine reads_ask (by simp; omega) fun _ => ?_
  refine reads_weakHash (by omega) fun _ => reads_weakHash (by omega) fun _ => ?_
  refine reads_ask (by simp; omega) fun _ => ?_
  refine (reads_loop (by omega) fun i hi => absurd hi (Nat.not_lt_zero i)).bind fun read' s hs => ?_
  refine reads_pure fun i hi => ?_
  -- the blocks end in the last 64 bytes
  by_cases hblock : i < 0 + 64 * ((len - 1) / 64)
  · exact hs.2 i hblock
  · apply hs.1
    simp only [Fetch.positions, Set.mem_union, Set.mem_Ico]
    omega

theorem reads_program (len : ℕ) (seed : UInt32) : Reads len (All len) ∅ (program len seed) := by
  have hdone : ∀ (g : UInt64 → UInt32) {p : CityM UInt64}, Reads len (All len) ∅ p →
      Reads len (All len) ∅ (p >>= fun h => pure (g h)) :=
    fun g p hp => hp.bind fun read' h hread' => reads_pure hread'
  unfold program
  split_ifs
  · exact hdone _ (reads_hashLen0to16 (by omega))
  · exact hdone _ (reads_hashLen17to32 (by omega) (by omega))
  · exact hdone _ (reads_hashLen33to64 (by omega) (by omega))
  · exact hdone _ (reads_hashLong (by omega) _)

theorem word_take {memory : Bytes} {o : Fetch} (h : o.pos + o.size ≤ len) :
    word (memory.take len) o = word memory o := by
  rw [word, word, List.drop_take, List.take_take, Nat.min_eq_left (by omega)]

end City

/-- **No byte outside the key is read, and every byte of it is**, whatever the bytes are; so the
hash does not depend on what follows the key. -/
theorem city_reads (len : ℕ) (seed : UInt32) :
    City.Reads len (City.All len) ∅ (City.program len seed) ∧
      ∀ memory : Bytes, City.run memory len seed = City.run (memory.take len) len seed := by
  have hreads := City.reads_program len seed
  refine ⟨hreads, fun memory => ?_⟩
  have hsame : (City.program len seed).exec (fun o s => (City.word memory o, s)) () =
      (City.program len seed).exec (fun o s => (City.word (memory.take len) o, s)) () :=
    hreads.exec_congr (fun _ o t ho => by rw [City.word_take ho]) ()
  exact congrArg Prod.fst hsame

end McacheClient
