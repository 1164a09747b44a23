import McacheClient.Hash.Words
import McacheClient.Lib.Blocks
import McacheClient.Pool.Ring
import Mathlib.Tactic.IntervalCases

/-!
# Jenkins

`jenkins`, the lookup3 hash function, which reads its key in words of four bytes, the last word too.

* `Jenkins.mix`, `Jenkins.final`, `Jenkins.word?`, `jenkins?`: the function over the memory from the
  key on, none when it reads what is not there;
* `lookup3`: the plain function, three words of the key at a time, the last ones filled up with
  zeros;
* `load32_and`: what a mask leaves of a word;
* **`jenkins_eq_lookup3`**: the function is the plain one when the memory goes on to the end of the
  last word, and otherwise it reads too far.
-/

namespace McacheClient

namespace Jenkins

/-- `a`, `b` and `c`. -/
structure State where
  a : UInt32
  b : UInt32
  c : UInt32

/-- A step of `mix`: `x -= z; x ^= rot(z, r); z += y`. -/
def mixStep (x y z r : UInt32) : UInt32 × UInt32 := ((x - z) ^^^ rotl32 z r, z + y)

def mix (s : State) : State :=
  let ⟨a, b, c⟩ := s
  let (a, c) := mixStep a b c 4
  let (b, a) := mixStep b c a 6
  let (c, b) := mixStep c a b 8
  let (a, c) := mixStep a b c 16
  let (b, a) := mixStep b c a 19
  let (c, b) := mixStep c a b 4
  ⟨a, b, c⟩

/-- A step of `final`: `x ^= y; x -= rot(y, r)`. -/
def finalStep (x y r : UInt32) : UInt32 := (x ^^^ y) - rotl32 y r

/-- The `c` after `final`. -/
def final (s : State) : UInt32 :=
  let ⟨a, b, c⟩ := s
  let c := finalStep c b 14
  let a := finalStep a c 11
  let b := finalStep b a 25
  let c := finalStep c b 16
  let a := finalStep a c 4
  let b := finalStep b a 14
  finalStep c b 24

def init (length : ℕ) (initval : UInt32) : State :=
  let a := 0xdeadbeef + UInt32.ofNat length + initval
  ⟨a, a, a⟩

/-- `k[i]`; none when the memory ends before. -/
def word? (memory : Bytes) (i : ℕ) : Option UInt32 :=
  if 4 * i + 4 ≤ memory.length then some (load32 memory (4 * i)) else none

/-- `a += k[0]`, `b += k[1]` and `c += k[2]`, as far as these are read. -/
def add (k0 k1 k2 : Option UInt32) (s : State) : Option State :=
  match k0, k1, k2 with
  | some k0, some k1, some k2 => some ⟨s.a + k0, s.b + k1, s.c + k2⟩
  | _, _, _ => none

/-- The cases of the switch, from 1 to 12; what a case does not add is 0. -/
def last (memory : Bytes) (length : ℕ) (s : State) : Option State :=
  let k := word? memory
  match length with
  | 12 => add (k 0) (k 1) (k 2) s
  | 11 => add (k 0) (k 1) ((k 2).map (· &&& 0xffffff)) s
  | 10 => add (k 0) (k 1) ((k 2).map (· &&& 0xffff)) s
  | 9 => add (k 0) (k 1) ((k 2).map (· &&& 0xff)) s
  | 8 => add (k 0) (k 1) (some 0) s
  | 7 => add (k 0) ((k 1).map (· &&& 0xffffff)) (some 0) s
  | 6 => add (k 0) ((k 1).map (· &&& 0xffff)) (some 0) s
  | 5 => add (k 0) ((k 1).map (· &&& 0xff)) (some 0) s
  | 4 => add (k 0) (some 0) (some 0) s
  | 3 => add ((k 0).map (· &&& 0xffffff)) (some 0) (some 0) s
  | 2 => add ((k 0).map (· &&& 0xffff)) (some 0) (some 0) s
  | 1 => add ((k 0).map (· &&& 0xff)) (some 0) (some 0) s
  | _ => some s

/-- The loop and the switch. -/
def loop (memory : Bytes) (length : ℕ) (s : State) : Option UInt32 :=
  if 12 < length then
    match add (word? memory 0) (word? memory 1) (word? memory 2) s with
    | some s => loop (memory.drop 12) (length - 12) (mix s)
    | none => none
  else if length = 0 then some s.c
  else (last memory length s).map final
termination_by length

end Jenkins

open Jenkins

/-- `jenkins` on a key of this length at the beginning of the memory that can be read. -/
def jenkins? (memory : Bytes) (length : ℕ) (initval : UInt32) : Option UInt32 :=
  loop memory length (init length initval)

/-! ## The plain function -/

namespace Jenkins

/-- Add up to twelve bytes. -/
def absorb (s : State) (block : Bytes) : State :=
  ⟨s.a + load32 block 0, s.b + load32 block 4, s.c + load32 block 8⟩

/-- Blocks of twelve bytes are mixed, but the last one, which may be shorter. -/
def plain (key : Bytes) (s : State) : UInt32 :=
  if key = [] then s.c
  else
    let blocks := (key.length - 1) / 12
    let s := List.foldBlocks (fun s block => mix (absorb s block)) 12 blocks s key
    final (absorb s (key.drop (blocks * 12)))

end Jenkins

/-- The plain function. -/
def lookup3 : HashFunction := fun key initval => plain key (init key.length initval)

/-! ## Words -/

theorem load32_eq (memory : Bytes) (i : ℕ) :
    load32 memory i = load32 ((memory.drop i).take 4) 0 := by
  rw [load32, load32, List.drop_zero, List.take_take, Nat.min_self]

theorem load32_take {memory : Bytes} {i n : ℕ} (h : i + 4 ≤ n) :
    load32 (memory.take n) i = load32 memory i := by
  rw [load32, List.drop_take, List.take_take, Nat.min_eq_left (by omega), load32]

theorem load32_of_length_le {memory : Bytes} {i : ℕ} (h : memory.length ≤ i) :
    load32 memory i = 0 := by
  rw [load32, List.drop_eq_nil_of_le h]
  rfl

/-- **What a mask leaves of a word** are its first bytes. -/
theorem load32_and (n : ℕ) (mask : UInt32) (hmask : mask.toNat = 2 ^ (8 * n) - 1) (hn : n ≤ 4)
    (memory : Bytes) (i : ℕ) : load32 memory i &&& mask = load32 (memory.take (i + n)) i := by
  have hfirst : ((memory.take (i + n)).drop i).take 4 = ((memory.drop i).take 4).take n := by
    rw [List.drop_take, Nat.add_sub_cancel_left, List.take_take, List.take_take, Nat.min_comm]
  have hpow : 2 ^ (8 * n) = 256 ^ n := pow_mul 2 8 n
  apply UInt32.toNat_inj.mp
  rw [load32_eq (memory.take (i + n)), hfirst, load32_eq memory, UInt32.toNat_and, hmask,
    Nat.and_two_pow_sub_one_eq_mod, hpow, toNat_load32 (List.length_take_le _ _),
    toNat_load32 ((List.length_take_le _ _).trans hn), Numeral.ofLittleEndian_mod]

namespace Jenkins

variable {memory : Bytes} {length : ℕ} {s : State}

theorem absorb_take (n : ℕ) (h : 12 ≤ n) : absorb s (memory.take n) = absorb s memory := by
  rw [absorb, absorb, load32_take (by omega), load32_take (by omega), load32_take (by omega)]

theorem plain_block {key : Bytes} (h : 12 < key.length) (s : State) :
    plain key s = plain (key.drop 12) (mix (absorb s key)) := by
  have hne : key ≠ [] := List.ne_nil_of_length_pos (by omega)
  have hdrop : key.drop 12 ≠ [] := List.ne_nil_of_length_pos (by rw [List.length_drop]; omega)
  have hblocks : (key.length - 1) / 12 = (key.length - 12 - 1) / 12 + 1 := by omega
  have hrest : 12 + (key.length - 12 - 1) / 12 * 12 = ((key.length - 12 - 1) / 12 + 1) * 12 := by
    omega
  rw [plain, plain, if_neg hne, if_neg hdrop]
  simp only [List.length_drop, hblocks, List.foldBlocks, absorb_take 12 le_rfl, List.drop_drop,
    hrest]

theorem plain_last {key : Bytes} (hpos : key ≠ []) (hle : key.length ≤ 12) (s : State) :
    plain key s = final (absorb s key) := by
  have hblocks : (key.length - 1) / 12 = 0 := by omega
  rw [plain, if_neg hpos]
  simp only [hblocks, List.foldBlocks, Nat.zero_mul, List.drop_zero]

theorem add_words (h : 12 ≤ memory.length) :
    add (word? memory 0) (word? memory 1) (word? memory 2) s = some (absorb s memory) := by
  rw [word?, word?, word?, if_pos (by omega), if_pos (by omega), if_pos (by omega)]
  rfl

/-- **The switch** adds the last block when its last word is there. -/
theorem last_eq (hpos : 0 < length) (hle : length ≤ 12) (hmem : length ≤ memory.length) :
    last memory length s = if 4 * ((length + 3) / 4) ≤ memory.length then
      some (absorb s (memory.take length)) else none := by
  have h8 := load32_and 1 0xff rfl (by decide) memory
  have h16 := load32_and 2 0xffff rfl (by decide) memory
  have h24 := load32_and 3 0xffffff rfl (by decide) memory
  have hzero : ∀ n i, n ≤ i → load32 (memory.take n) i = 0 := fun n i h =>
    load32_of_length_le ((List.length_take_le n memory).trans h)
  interval_cases length
  all_goals
    simp only [last, word?, absorb, Nat.reduceMul, Nat.reduceAdd, Nat.reduceDiv]
    split_ifs <;>
      first
        | omega
        | simp [add, h8, h16, h24, hzero, load32_take]

/-- **The loop** reads whole words to the end of the key. -/
theorem loop_eq (hmem : length ≤ memory.length) :
    loop memory length s = if 4 * ((length + 3) / 4) ≤ memory.length then
      some (plain (memory.take length) s) else none := by
  -- induction on what is left of the key
  induction hn : length using Nat.strong_induction_on generalizing memory length s with
  | _ n ih =>
    subst hn
    have hlength : (memory.take length).length = length := List.length_take_of_le hmem
    rw [loop]
    by_cases hblock : 12 < length
    · have hdrop : length - 12 ≤ (memory.drop 12).length := by
        rw [List.length_drop]
        omega
      have hwords : 4 * ((length - 12 + 3) / 4) ≤ (memory.drop 12).length ↔
          4 * ((length + 3) / 4) ≤ memory.length := by
        rw [List.length_drop]
        omega
      rw [if_pos hblock, add_words (by omega), plain_block (by rwa [hlength]), List.drop_take,
        absorb_take length hblock.le]
      simp only [ih (length - 12) (by omega) hdrop rfl, hwords]
    · rw [if_neg hblock]
      by_cases hempty : length = 0
      · rw [if_pos hempty, hempty, if_pos (Nat.zero_le _)]
        rfl
      · have hne : memory.take length ≠ [] := List.ne_nil_of_length_pos (by omega)
        rw [if_neg hempty, last_eq (by omega) (by omega) hmem, plain_last hne (by omega)]
        split_ifs <;> rfl

end Jenkins

/-- **The function is the plain one** when the memory goes on to the end of the last word of the
key, whatever it holds there; otherwise the function reads past the end. -/
theorem jenkins_eq_lookup3 (memory : Bytes) (length : ℕ) (hmem : length ≤ memory.length)
    (initval : UInt32) : jenkins? memory length initval =
      if 4 * ((length + 3) / 4) ≤ memory.length then some (lookup3 (memory.take length) initval)
      else none := by
  rw [jenkins?, loop_eq hmem, lookup3, List.length_take_of_le hmem]

/-- A string of six bytes with the zero after it, in memory that goes on or not. -/
theorem jenkins_eq_lookup3_six :
    jenkins? [115, 101, 122, 110, 97, 109, 0, 99] 6 0 =
        some (lookup3 [115, 101, 122, 110, 97, 109] 0) ∧
      jenkins? [115, 101, 122, 110, 97, 109, 0] 6 0 = none :=
  ⟨jenkins_eq_lookup3 [115, 101, 122, 110, 97, 109, 0, 99] 6 (by decide) 0,
    jenkins_eq_lookup3 [115, 101, 122, 110, 97, 109, 0] 6 (by decide) 0⟩

end McacheClient
