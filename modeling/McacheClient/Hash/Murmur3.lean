import McacheClient.Hash.Words
import McacheClient.Lib.Blocks
import McacheClient.Pool.Ring

/-!
# Murmur3

`MurmurHash3_x86_32`, the hash function of the default clients' pool. The length is an `int`: what
follows is about keys of less than 2³¹ bytes.

* `fmix`, `mixKey`, `mixBlock`, `mixTail`, `murmurHash3`, `murmur3`: the function;
* `murmur3_eq`: what it computes of a key whose length is an `int`;
* **`murmur3_injective`**: with such a key, the seed can be read off the hash;
* **`murmur3_block_inj`**: keys that differ in one aligned block only have different hashes;
* `ncard_hashChain`: the nodes of an address, with any hash function of the first kind;
* **`ncard_nodes`**: a server of a default pool gets all its virtual nodes, as long as the hashes of
  its address do not come back to 0, and keeps those that later servers leave it.
-/

namespace McacheClient

namespace Murmur3

def c1 : UInt32 := 0xcc9e2d51

def c2 : UInt32 := 0x1b873593

def fmix (h : UInt32) : UInt32 :=
  let h := h ^^^ (h >>> 16)
  let h := h * 0x85ebca6b
  let h := h ^^^ (h >>> 13)
  let h := h * 0xc2b2ae35
  h ^^^ (h >>> 16)

/-- What the body and the tail do to four bytes of the key. -/
def mixKey (k1 : UInt32) : UInt32 :=
  let k1 := k1 * c1
  let k1 := rotl32 k1 15
  k1 * c2

/-- One round of the body. -/
def mixBlock (h1 : UInt32) (block : Bytes) : UInt32 :=
  let h1 := h1 ^^^ mixKey (load32 block 0)
  let h1 := rotl32 h1 13
  h1 * 5 + 0xe6546b64

/-- The word of the tail, of less than four bytes: the cases fall through. -/
def tailWord (tail : Bytes) : UInt32 :=
  let k1 : UInt32 := 0
  let k1 := if 3 ≤ tail.length then k1 ^^^ (byteAt tail 2).toUInt32 <<< 16 else k1
  let k1 := if 2 ≤ tail.length then k1 ^^^ (byteAt tail 1).toUInt32 <<< 8 else k1
  if 1 ≤ tail.length then k1 ^^^ (byteAt tail 0).toUInt32 else k1

def mixTail (h1 : UInt32) (tail : Bytes) : UInt32 :=
  if tail.length = 0 then h1 else h1 ^^^ mixKey (tailWord tail)

end Murmur3

open Murmur3

/-- `MurmurHash3_x86_32` of `len` bytes. With a negative number of blocks the loop runs over the end
of the key and of `int`: that is undefined. -/
def murmurHash3 (key : Bytes) (len : Int32) (seed : UInt32) : Option UInt32 :=
  let nblocks := len.toInt.tdiv 4
  if nblocks < 0 then none
  else
    let nblocks := nblocks.toNat
    let h1 := List.foldBlocks mixBlock 4 nblocks seed key
    let tail := (key.drop (nblocks * 4)).take (len.toUInt32 &&& 3).toNat
    let h1 := mixTail h1 tail
    some (fmix (h1 ^^^ len.toUInt32))

/-- `murmur3_t`, which makes an `int` of the size. Where the hash is undefined, the 0 stays that it
begins with. -/
def murmur3 : HashFunction := fun key seed =>
  (murmurHash3 key (Int32.ofNat key.length) seed).getD 0

/-- The hash of a key whose length is an `int`. -/
theorem murmur3_eq {key : Bytes} (h : key.length < 2 ^ 31) (seed : UInt32) : murmur3 key seed =
    fmix (mixTail (List.foldBlocks mixBlock 4 (key.length / 4) seed key)
      (key.drop (key.length / 4 * 4)) ^^^ UInt32.ofNat key.length) := by
  have hblocks : (Int32.ofNat key.length).toInt.tdiv 4 = ((key.length / 4 : ℕ) : ℤ) := by
    rw [Int32.toInt_ofNat_of_lt h]
    rfl
  have htail : ((Int32.ofNat key.length).toUInt32 &&& 3).toNat = key.length % 4 := by
    rw [Int32.toUInt32_ofNat', UInt32.toNat_and, UInt32.toNat_ofNat_of_lt' (h.trans (by decide))]
    exact Nat.and_two_pow_sub_one_eq_mod key.length 2
  have hrest : (key.drop (key.length / 4 * 4)).length ≤ key.length % 4 := by
    rw [List.length_drop]
    omega
  rw [murmur3, murmurHash3]
  simp only [hblocks, htail, Int.toNat_natCast]
  rw [if_neg (Int.not_lt.mpr (Int.natCast_nonneg _)), List.take_of_length_le hrest]
  rfl

/-! ## The steps lose nothing -/

namespace Murmur3

theorem xor_left_injective (k : UInt32) : Function.Injective fun x => x ^^^ k := by
  intro x y h
  exact UInt32.xor_left_inj k |>.mp h

theorem xor_right_injective (k : UInt32) : Function.Injective fun x => k ^^^ x := by
  intro x y h
  exact UInt32.xor_right_inj k |>.mp h

theorem add_right_injective' (k : UInt32) : Function.Injective fun x => x + k := by
  intro x y h
  exact UInt32.add_left_inj k |>.mp h

theorem fmix_injective : Function.Injective fmix :=
  (xorShift_injective (k := 16) (by decide) (by decide)).comp <|
    (mul_injective (c := 0xc2b2ae35) (d := 0x7ed1b41d) (by decide)).comp <|
      (xorShift_injective (k := 13) (by decide) (by decide)).comp <|
        (mul_injective (c := 0x85ebca6b) (d := 0xa5cb9243) (by decide)).comp <|
          xorShift_injective (k := 16) (by decide) (by decide)

theorem mixKey_injective : Function.Injective mixKey :=
  (mul_injective (c := c2) (d := 0x56ed309b) (by decide)).comp <|
    (rotl32_injective (r := 15) (by decide) (by decide)).comp <|
      mul_injective (c := c1) (d := 0xdee13bb1) (by decide)

theorem mixBlock_injective (block : Bytes) : Function.Injective fun h1 => mixBlock h1 block :=
  (add_right_injective' 0xe6546b64).comp <|
    (mul_injective (c := 5) (d := 0xcccccccd) (by decide)).comp <|
      (rotl32_injective (r := 13) (by decide) (by decide)).comp <|
        xor_left_injective (mixKey (load32 block 0))

theorem mixBlock_inj {h1 : UInt32} {block block' : Bytes} (h : block.length = 4)
    (h' : block'.length = 4) (heq : mixBlock h1 block = mixBlock h1 block') : block = block' := by
  have hsum := add_right_injective' 0xe6546b64 heq
  have hrot := mul_injective (c := 5) (d := 0xcccccccd) (by decide) hsum
  have hxor := rotl32_injective (r := 13) (by decide) (by decide) hrot
  exact load32_injective h h' (mixKey_injective (xor_right_injective h1 hxor))

theorem mixBlocks_injective (key : Bytes) (count : ℕ) :
    Function.Injective fun h1 => List.foldBlocks mixBlock 4 count h1 key := by
  induction count generalizing key with
  | zero => exact fun x y h => h
  | succ count ih => exact (ih (key.drop 4)).comp (mixBlock_injective (key.take 4))

theorem mixTail_injective (tail : Bytes) : Function.Injective fun h1 => mixTail h1 tail := by
  unfold mixTail
  split_ifs
  · exact fun x y h => h
  · exact xor_left_injective _

theorem toNat_shiftLeft_xor (b : UInt8) {x k : UInt32} {n : ℕ} (hk : k.toNat = n) (hn : n ≤ 24)
    (hx : x.toNat < 2 ^ n) : (b.toUInt32 <<< k ^^^ x).toNat = 2 ^ n * b.toNat + x.toNat := by
  have hb : b.toNat < 256 := b.toNat_lt
  have hshift : (b.toUInt32 <<< k).toNat = 2 ^ n * b.toNat := by
    have hmul : 2 ^ n * b.toNat < 4294967296 :=
      calc 2 ^ n * b.toNat ≤ 2 ^ 24 * b.toNat :=
            Nat.mul_le_mul_right _ (Nat.pow_le_pow_right (by decide) hn)
        _ < 4294967296 := by omega
    rw [UInt32.toNat_shiftLeft, UInt8.toNat_toUInt32, hk, Nat.mod_eq_of_lt (show n < 32 by omega),
      Nat.shiftLeft_eq, Nat.mul_comm]
    exact Nat.mod_eq_of_lt hmul
  have hdiv : (2 ^ n * b.toNat ^^^ x.toNat) / 2 ^ n = b.toNat := by
    rw [Nat.xor_div_two_pow, Nat.mul_div_cancel_left _ (Nat.two_pow_pos n), Nat.div_eq_of_lt hx,
      Nat.xor_zero]
  have hmod : (2 ^ n * b.toNat ^^^ x.toNat) % 2 ^ n = x.toNat := by
    rw [Nat.xor_mod_two_pow, Nat.mul_mod_right, Nat.mod_eq_of_lt hx, Nat.zero_xor]
  rw [UInt32.toNat_xor, hshift, ← Nat.div_add_mod (_ ^^^ _) (2 ^ n), hdiv, hmod]

theorem toNat_tailWord {tail : Bytes} (h : tail.length < 4) :
    (tailWord tail).toNat = Numeral.ofLittleEndian tail := by
  rcases tail with _ | ⟨a, _ | ⟨b, _ | ⟨c, _ | ⟨d, tail⟩⟩⟩⟩
  · rfl
  · rw [Numeral.ofLittleEndian_cons, Numeral.ofLittleEndian_nil, Nat.mul_zero, Nat.add_zero]
    exact congrArg UInt32.toNat (UInt32.zero_xor (a := a.toUInt32))
  · have hword : tailWord [a, b] = b.toUInt32 <<< 8 ^^^ a.toUInt32 :=
      congrArg (· ^^^ a.toUInt32) UInt32.zero_xor
    have hlow := toNat_shiftLeft_xor b (x := a.toUInt32) (k := 8) (n := 8) rfl (by decide)
      a.toNat_lt
    rw [UInt8.toNat_toUInt32] at hlow
    rw [hword, hlow]
    simp only [Numeral.ofLittleEndian_cons, Numeral.ofLittleEndian_nil]
    omega
  · have hword : tailWord [a, b, c] = c.toUInt32 <<< 16 ^^^ (b.toUInt32 <<< 8 ^^^ a.toUInt32) := by
      rw [← UInt32.xor_assoc]
      exact congrArg (· ^^^ b.toUInt32 <<< 8 ^^^ a.toUInt32) UInt32.zero_xor
    have ha := a.toNat_lt
    have hb := b.toNat_lt
    have hlow := toNat_shiftLeft_xor b (x := a.toUInt32) (k := 8) (n := 8) rfl (by decide)
      a.toNat_lt
    rw [UInt8.toNat_toUInt32] at hlow
    rw [hword, toNat_shiftLeft_xor c (k := 16) (n := 16) rfl (by decide) (by omega), hlow]
    simp only [Numeral.ofLittleEndian_cons, Numeral.ofLittleEndian_nil]
    omega
  · exact absurd h (by simp only [List.length_cons]; omega)

theorem mixTail_inj {h1 : UInt32} {tail tail' : Bytes} (h : tail.length < 4)
    (hlength : tail.length = tail'.length) (heq : mixTail h1 tail = mixTail h1 tail') :
    tail = tail' := by
  unfold mixTail at heq
  by_cases h0 : tail.length = 0
  · have h0' : tail'.length = 0 := hlength ▸ h0
    rw [List.length_eq_zero_iff.mp h0, List.length_eq_zero_iff.mp h0']
  · rw [if_neg h0, if_neg (hlength ▸ h0)] at heq
    have hword := mixKey_injective (xor_right_injective h1 heq)
    apply Numeral.ofLittleEndian_inj hlength
    rw [← toNat_tailWord h, ← toNat_tailWord (hlength ▸ h), hword]

end Murmur3

/-! ## What follows for the hash -/

/-- **The seed can be read off the hash** of a key whose length is an `int`. -/
theorem murmur3_injective {key : Bytes} (h : key.length < 2 ^ 31) :
    Function.Injective (murmur3 key) := by
  rw [show murmur3 key = _ from funext (murmur3_eq h)]
  exact fmix_injective.comp <|
    (xor_left_injective (UInt32.ofNat key.length)).comp <|
      (mixTail_injective (key.drop (key.length / 4 * 4))).comp <|
        mixBlocks_injective key (key.length / 4)

theorem finite_uint32 : Finite UInt32 :=
  Finite.of_injective UInt32.toFin fun _ _ h => UInt32.toFin_inj.mp h

theorem murmur3_append {count : ℕ} {head tail : Bytes} (hint : (head ++ tail).length < 2 ^ 31)
    (hhead : head.length = count * 4) (htail : tail.length < 4) (seed : UInt32) :
    murmur3 (head ++ tail) seed =
      fmix (mixTail (List.foldBlocks mixBlock 4 count seed head) tail ^^^
        UInt32.ofNat (head.length + tail.length)) := by
  have hcount : (head ++ tail).length / 4 = count := by
    rw [List.length_append]
    omega
  have hlength : (head ++ tail).length = head.length + tail.length := List.length_append
  rw [murmur3_eq hint, hcount, List.foldBlocks_append_left hhead.ge, ← hhead, List.drop_left,
    hlength]

theorem murmur3_block {count : ℕ} {head block rest : Bytes}
    (hint : (head ++ block ++ rest).length < 2 ^ 31) (hhead : head.length = count * 4)
    (hblock : block.length = 4) (seed : UInt32) : murmur3 (head ++ block ++ rest) seed =
      fmix (mixTail (List.foldBlocks mixBlock 4 (rest.length / 4)
          (mixBlock (List.foldBlocks mixBlock 4 count seed head) block) rest)
        (rest.drop (rest.length / 4 * 4)) ^^^ UInt32.ofNat (head.length + 4 + rest.length)) := by
  have hwhole : (head ++ block).length = (count + 1) * 4 := by
    rw [List.length_append]
    omega
  have hnblocks : (head ++ block ++ rest).length / 4 = count + 1 + rest.length / 4 := by
    rw [List.length_append]
    omega
  have hdrop : (head ++ block ++ rest).drop ((count + 1 + rest.length / 4) * 4) =
      rest.drop (rest.length / 4 * 4) := by
    rw [Nat.add_mul, ← hwhole, ← List.drop_drop, List.drop_left]
  have hone : List.foldBlocks mixBlock 4 1 (List.foldBlocks mixBlock 4 count seed head) block =
      mixBlock (List.foldBlocks mixBlock 4 count seed head) block := by
    rw [List.foldBlocks, List.foldBlocks, List.take_of_length_le hblock.le]
  have hlength : (head ++ block ++ rest).length = head.length + 4 + rest.length := by
    rw [List.length_append, List.length_append, hblock]
  rw [murmur3_eq hint, hnblocks, hdrop, List.foldBlocks_append hwhole,
    List.foldBlocks_append hhead, hone, hlength]

/-- **One aligned block** of a key of less than 2³¹ bytes can be read off the hash, when the rest of
the key and the seed are known: four bytes at a multiple of four, or the tail. -/
theorem murmur3_block_inj {seed : UInt32} {head block block' rest : Bytes}
    (hint : (head ++ block ++ rest).length < 2 ^ 31)
    (hhead : head.length % 4 = 0) (hlength : block.length = block'.length)
    (hblock : block.length = 4 ∨ block.length < 4 ∧ rest = []) :
    murmur3 (head ++ block ++ rest) seed = murmur3 (head ++ block' ++ rest) seed ↔
      block = block' := by
  refine ⟨fun heq => ?_, fun heq => by rw [heq]⟩
  have hint' : (head ++ block' ++ rest).length < 2 ^ 31 := by
    simpa only [List.length_append, hlength] using hint
  obtain ⟨count, hcount⟩ : ∃ count, head.length = count * 4 :=
    ⟨head.length / 4, (Nat.div_mul_cancel (Nat.dvd_of_mod_eq_zero hhead)).symm⟩
  rcases hblock with hblock | ⟨hblock, rfl⟩
  · rw [murmur3_block hint hcount hblock, murmur3_block hint' hcount (hlength ▸ hblock)]
      at heq
    have htail := xor_left_injective _ (fmix_injective heq)
    have hblocks := mixBlocks_injective _ _ (mixTail_injective _ htail)
    exact mixBlock_inj hblock (hlength ▸ hblock) hblocks
  · rw [List.append_nil] at hint hint'
    rw [List.append_nil, List.append_nil, murmur3_append hint hcount hblock,
      murmur3_append hint' hcount (hlength ▸ hblock), ← hlength] at heq
    exact mixTail_inj hblock hlength (xor_left_injective _ (fmix_injective heq))

theorem murmur3_block_inj_firstBlock :
    murmur3 ([] ++ ascii "key1" ++ ascii "23") 0 ≠
      murmur3 ([] ++ ascii "key2" ++ ascii "23") 0 := by
  have hint : ([] ++ ascii "key1" ++ ascii "23").length < 2 ^ 31 := by decide
  have hhead : ([] : Bytes).length % 4 = 0 := rfl
  have hlength : (ascii "key1").length = (ascii "key2").length := rfl
  have hblock : (ascii "key1").length = 4 := rfl
  intro heq
  exact absurd ((murmur3_block_inj hint hhead hlength (.inl hblock)).mp heq) (by decide)

/-! ## The nodes of a default pool -/

section Nodes

variable {hashf : HashFunction} {cfg : PoolConfig} {addresses : Addresses} {pool : Pool}

theorem ncard_hashChain {addr : Bytes} (hf : Function.Injective (hashf addr)) (hash : UInt32)
    (n : ℕ) : (hashChain hashf addr hash n).ncard =
      min n (Function.minimalPeriod (hashf addr) hash) :=
  have := finite_uint32
  Function.ncard_iterates hf hash n

/-- The hashes of address `j` that an earlier address claims. -/
def lostNodes (hashf : HashFunction) (virtualNodes : UInt32) (addrs : List Bytes) (j : ℕ) :
    Set UInt32 :=
  {k | ∃ s, (nodePoints hashf virtualNodes addrs)[j]? = some s ∧ k ∈ s ∧
    ∃ i < j, ∃ s, (nodePoints hashf virtualNodes addrs)[i]? = some s ∧ k ∈ s}

/-- **The nodes of a server** of a pool with the default hash, and the hashes that earlier servers
took, are as many as its virtual nodes, unless its hashes come back to 0 before. The addresses have
less than 2³¹ bytes. -/
theorem ncard_nodes (h : consistentHashingPool murmur3 cfg addresses = .ok pool)
    (hint : ∀ addr ∈ addresses.list, addr.length < 2 ^ 31) {j : ℕ}
    {addr : Bytes} (haddr : addresses.list[j]? = some addr) :
    {k | (k, UInt32.ofNat j) ∈ pool.ring.entries}.ncard +
        (lostNodes murmur3 cfg.virtualNodes addresses.list j).ncard =
      min cfg.virtualNodes.toNat (Function.minimalPeriod (murmur3 addr) 0) := by
  have hfinite := finite_uint32
  have hlt : j < addresses.list.length := (List.getElem?_eq_some_iff.mp haddr).1
  have htoNat : (UInt32.ofNat j).toNat = j :=
    UInt32.toNat_ofNat_of_lt' ((hlt.trans addresses.length_lt).trans (by decide))
  have hpoints : (nodePoints murmur3 cfg.virtualNodes addresses.list)[j]? =
      some (hashChain murmur3 addr 0 cfg.virtualNodes.toNat) := by
    rw [nodePoints, List.getElem?_map, haddr, Option.map_some]
  have hnodes : {k | (k, UInt32.ofNat j) ∈ pool.ring.entries} =
      hashChain murmur3 addr 0 cfg.virtualNodes.toNat \
        lostNodes murmur3 cfg.virtualNodes addresses.list j := by
    ext k
    show (k, UInt32.ofNat j) ∈ pool.ring.entries ↔ _
    rw [mem_ring h, htoNat, FirstOwner]
    constructor
    · rintro ⟨⟨s, hs, hk⟩, hmin⟩
      rw [hpoints] at hs
      refine ⟨Option.some.inj hs ▸ hk, ?_⟩
      rintro ⟨-, -, -, i, hi, t, ht, hkt⟩
      exact hmin i hi t ht hkt
    · rintro ⟨hk, hlost⟩
      exact ⟨⟨_, hpoints, hk⟩, fun i hi t ht hkt => hlost ⟨_, hpoints, hk, i, hi, t, ht, hkt⟩⟩
  have hlost : lostNodes murmur3 cfg.virtualNodes addresses.list j ⊆
      hashChain murmur3 addr 0 cfg.virtualNodes.toNat := by
    rintro k ⟨s, hs, hk, -⟩
    rw [hpoints] at hs
    rwa [← Option.some.inj hs] at hk
  rw [hnodes, Set.ncard_sdiff_add_ncard_of_subset hlost]
  exact ncard_hashChain (murmur3_injective (hint addr (List.mem_of_getElem? haddr))) 0 _

theorem ncard_nodes_threeServers : ∃ pool,
    consistentHashingPool murmur3 ⟨2⟩ threeServers = .ok pool ∧
      {k | (k, 1) ∈ pool.ring.entries}.ncard + (lostNodes murmur3 2 threeServers.list 1).ncard =
        min 2 (Function.minimalPeriod (murmur3 [15]) 0) :=
  have hpool : consistentHashingPool murmur3 ⟨2⟩ threeServers =
      .ok ⟨pushServers murmur3 2 threeServers.list 0 .empty, murmur3⟩ := rfl
  have haddr : threeServers.list[1]? = some [15] := rfl
  have hint : ∀ addr ∈ threeServers.list, addr.length < 2 ^ 31 := by decide
  ⟨_, hpool, ncard_nodes hpool hint haddr⟩

end Nodes

end McacheClient
