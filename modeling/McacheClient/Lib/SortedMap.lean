import Mathlib.Data.List.TakeWhile
import Mathlib.Data.Set.Insert
import Mathlib.Order.Lattice
import Mathlib.Tactic.Common

/-!
# Ordered maps and the next key clockwise

* `SortedMap`: the entries of a map with unique keys, by strictly ascending key; `insert` keeps
  the value a key already has, `lowerBound` is the position of the first key not below a bound.
* `SortedMap.nextPos_eq_findIdx?`: the position where a walk clockwise starts is the first one from
  a bound on, or 0.
* `IsNext S h k`: going clockwise from `h`, `k` is the first point of `S`: the least point not
  below `h`, or the least of all when every point is below `h`.
* `IsNext.anti`: removing other points does not change the next one.
* **`SortedMap.isNext_of_find?`**: the first entry from `lowerBound` on, around the end, that meets
  a condition is the entry of the next key of those that do.
* `SortedMap.getElem?_nextPos`: so is the entry at `lowerBound`, or the first entry when that is the
  end, among all entries.
-/

/-- An ordered map with unique keys: its entries, by strictly ascending key. -/
@[ext] structure SortedMap (κ α : Type) [LinearOrder κ] where
  entries : List (κ × α)
  sorted : entries.Pairwise fun a b => a.1 < b.1

/-- Going clockwise from `h`, `k` is the first point of `S`. -/
def IsNext {κ : Type} [LinearOrder κ] (S : Set κ) (h k : κ) : Prop :=
  k ∈ S ∧ ((h ≤ k ∧ ∀ k' ∈ S, h ≤ k' → k ≤ k') ∨ ((∀ k' ∈ S, k' < h) ∧ ∀ k' ∈ S, k ≤ k'))

section IsNext

variable {κ : Type} [LinearOrder κ] {S T : Set κ} {h k k' : κ}

/-- **Removing other points does not change the next one.** -/
theorem IsNext.anti (hk : IsNext S h k) (hT : T ⊆ S) (hkT : k ∈ T) : IsNext T h k := by
  refine ⟨hkT, ?_⟩
  rcases hk.2 with ⟨h1, h2⟩ | ⟨h1, h2⟩
  · exact Or.inl ⟨h1, fun k' hk' => h2 k' (hT hk')⟩
  · exact Or.inr ⟨fun k' hk' => h1 k' (hT hk'), fun k' hk' => h2 k' (hT hk')⟩

theorem IsNext.unique (hk : IsNext S h k) (hk' : IsNext S h k') : k = k' := by
  obtain ⟨m, ⟨h1, h2⟩ | ⟨h1, h2⟩⟩ := hk <;> obtain ⟨m', ⟨h1', h2'⟩ | ⟨h1', h2'⟩⟩ := hk'
  · exact le_antisymm (h2 k' m' h1') (h2' k m h1)
  · exact absurd (h1' k m) (not_lt.mpr h1)
  · exact absurd (h1 k' m') (not_lt.mpr h1')
  · exact le_antisymm (h2 k' m') (h2' k m)

end IsNext

namespace SortedMap

variable {κ α : Type} [LinearOrder κ]

/-- The map without entries. -/
def empty : SortedMap κ α := ⟨[], List.Pairwise.nil⟩

/-- Insert an entry in its place; a key that is there already keeps its value. -/
def insertEntry (k : κ) (x : α) : List (κ × α) → List (κ × α)
  | [] => [(k, x)]
  | e :: es =>
    if k < e.1 then (k, x) :: e :: es
    else if k = e.1 then e :: es
    else e :: insertEntry k x es

theorem mem_insertEntry {k : κ} {x : α} {es : List (κ × α)}
    (hs : es.Pairwise fun a b => a.1 < b.1) {e : κ × α} :
    e ∈ insertEntry k x es ↔ e ∈ es ∨ (e = (k, x) ∧ ∀ e' ∈ es, e'.1 ≠ k) := by
  induction es with
  | nil => simp [insertEntry]
  | cons a es ih =>
    obtain ⟨ha, hs⟩ := List.pairwise_cons.mp hs
    rw [insertEntry]
    split_ifs with h1 h2
    · have hne : ∀ e' ∈ a :: es, e'.1 ≠ k := by
        rintro e' he' rfl
        rcases List.mem_cons.mp he' with rfl | he'
        · exact lt_irrefl _ h1
        · exact lt_asymm h1 (ha e' he')
      rw [List.mem_cons, and_iff_left hne, or_comm]
    · constructor
      · exact Or.inl
      · rintro (he | ⟨-, hne⟩)
        · exact he
        · exact absurd h2.symm (hne a List.mem_cons_self)
    · rw [List.mem_cons, ih hs, List.mem_cons, List.forall_mem_cons, and_iff_right (Ne.symm h2),
        or_assoc]

theorem insertEntry_sorted (k : κ) (x : α) {es : List (κ × α)}
    (hs : es.Pairwise fun a b => a.1 < b.1) :
    (insertEntry k x es).Pairwise fun a b => a.1 < b.1 := by
  induction es with
  | nil => simp [insertEntry]
  | cons a es ih =>
    obtain ⟨ha, hs'⟩ := List.pairwise_cons.mp hs
    rw [insertEntry]
    split_ifs with h1 h2
    · refine hs.cons fun e he => ?_
      rcases List.mem_cons.mp he with rfl | he
      · exact h1
      · exact h1.trans (ha e he)
    · exact hs
    · refine (ih hs').cons fun e he => ?_
      rcases (mem_insertEntry hs').mp he with he | ⟨rfl, -⟩
      · exact ha e he
      · exact lt_of_le_of_ne (not_lt.mp h1) (Ne.symm h2)

/-- `insert` keeps the value a key already has. -/
def insert (m : SortedMap κ α) (k : κ) (x : α) : SortedMap κ α :=
  ⟨insertEntry k x m.entries, insertEntry_sorted k x m.sorted⟩

/-- The number of entries, which is also the position past the last one. -/
def size (m : SortedMap κ α) : ℕ := m.entries.length

/-- The keys of the map. -/
def keys (m : SortedMap κ α) : Set κ := {k | ∃ x, (k, x) ∈ m.entries}

/-- The position of the first entry whose key is not below `k`, or `size`. -/
def lowerBound (m : SortedMap κ α) (k : κ) : ℕ := (m.entries.takeWhile fun e => e.1 < k).length

@[simp] theorem entries_empty : (empty : SortedMap κ α).entries = [] := rfl

@[simp] theorem mem_insert {m : SortedMap κ α} {k : κ} {x : α} {e : κ × α} :
    e ∈ (m.insert k x).entries ↔ e ∈ m.entries ∨ (e = (k, x) ∧ k ∉ m.keys) := by
  rw [insert, mem_insertEntry m.sorted]
  refine or_congr Iff.rfl (and_congr Iff.rfl ?_)
  exact ⟨fun h ⟨y, hy⟩ => h (k, y) hy rfl, fun h e' he' hk => h ⟨e'.2, hk ▸ he'⟩⟩

theorem mem_keys {m : SortedMap κ α} {k : κ} : k ∈ m.keys ↔ ∃ x, (k, x) ∈ m.entries := Iff.rfl

theorem keys_insert {m : SortedMap κ α} {k : κ} {x : α} :
    (m.insert k x).keys = Insert.insert k m.keys := by
  ext k'
  simp only [mem_keys, mem_insert, Set.mem_insert_iff, Prod.mk.injEq]
  by_cases hk : k' = k
  · subst hk
    by_cases h : ∃ y, (k', y) ∈ m.entries
    · exact iff_of_true (h.imp fun y hy => Or.inl hy) (Or.inl rfl)
    · exact iff_of_true ⟨x, Or.inr ⟨⟨rfl, rfl⟩, h⟩⟩ (Or.inl rfl)
  · simp [hk]

theorem value_unique {m : SortedMap κ α} {k : κ} {x y : α} (hx : (k, x) ∈ m.entries)
    (hy : (k, y) ∈ m.entries) : x = y := by
  obtain ⟨i, hi, ex⟩ := List.mem_iff_getElem.mp hx
  obtain ⟨j, hj, ey⟩ := List.mem_iff_getElem.mp hy
  have hp := List.pairwise_iff_getElem.mp m.sorted
  rcases Nat.lt_trichotomy i j with h | h | h
  · have := hp i j hi hj h; simp [ex, ey] at this
  · subst h; rw [ex] at ey; exact (Prod.mk.inj ey).2
  · have := hp j i hj hi h; simp [ex, ey] at this

theorem lowerBound_spec (m : SortedMap κ α) (k : κ) : ∃ below above, m.entries = below ++ above ∧
    below.length = m.lowerBound k ∧ (∀ e ∈ below, e.1 < k) ∧ ∀ e ∈ above, k ≤ e.1 := by
  refine ⟨_, _, List.takeWhile_append_dropWhile.symm, rfl, fun e he => ?_, ?_⟩
  · simpa using List.mem_takeWhile_imp he
  · have hs := m.sorted.sublist (List.dropWhile_sublist fun e : κ × α => decide (e.1 < k))
    cases h : m.entries.dropWhile fun e => decide (e.1 < k) with
    | nil => simp
    | cons a es =>
      have ha : k ≤ a.1 := by
        have := List.head?_dropWhile_not (fun e : κ × α => decide (e.1 < k)) m.entries
        simpa [h] using this
      rw [h] at hs
      intro e he
      rcases List.mem_cons.mp he with rfl | he
      · exact ha
      · exact ha.trans ((List.pairwise_cons.mp hs).1 e he).le

theorem lowerBound_le_size (m : SortedMap κ α) (k : κ) : m.lowerBound k ≤ m.size :=
  (List.takeWhile_sublist _).length_le

/-- The position of the next key clockwise from `h`. -/
def nextPos (m : SortedMap κ α) (h : κ) : ℕ :=
  if m.lowerBound h = m.size then 0 else m.lowerBound h

theorem nextPos_lt {m : SortedMap κ α} (hm : 0 < m.size) (h : κ) : m.nextPos h < m.size := by
  have := m.lowerBound_le_size h
  unfold nextPos
  split_ifs <;> omega

/-- `nextPos` is the position of the first key not below `h`, or the first position if there is
none. -/
theorem nextPos_eq_findIdx? (m : SortedMap κ α) (h : κ) :
    m.nextPos h = (m.entries.findIdx? fun e => decide (h ≤ e.1)).getD 0 := by
  have hnot : (fun e : κ × α => !decide (e.1 < h)) = fun e => decide (h ≤ e.1) := by
    funext e
    simp only [← decide_not, not_lt]
  have hlower : m.lowerBound h = m.entries.findIdx fun e => decide (h ≤ e.1) := by
    rw [lowerBound, List.takeWhile_eq_take_findIdx_not, List.length_take, hnot]
    exact Nat.min_eq_left List.findIdx_le_length
  rw [nextPos, hlower, List.findIdx?_eq_guard_findIdx_lt, Option.guard_apply, size]
  have hle : (m.entries.findIdx fun e => decide (h ≤ e.1)) ≤ m.entries.length :=
    List.findIdx_le_length
  split_ifs with h1 h2 h2
  · simp only [decide_eq_true_eq] at h2
    omega
  · rfl
  · rfl
  · simp only [decide_eq_true_eq] at h2
    omega

/-- In a sorted list, the first entry that meets a condition has the least key of those that do. -/
theorem find?_le {l : List (κ × α)} (hl : l.Pairwise fun a b => a.1 < b.1) {p : κ × α → Bool}
    {e : κ × α} (he : l.find? p = some e) : ∀ e' ∈ l, p e' = true → e.1 ≤ e'.1 := by
  intro e' he' hp
  obtain ⟨-, before, after, rfl, hbefore⟩ := List.find?_eq_some_iff_append.mp he
  rw [List.pairwise_append, List.pairwise_cons] at hl
  rcases List.mem_append.mp he' with he' | he'
  · exact absurd hp (by simpa using hbefore e' he')
  · rcases List.mem_cons.mp he' with rfl | he'
    · exact le_rfl
    · exact (hl.2.1.1 e' he').le

/-- **Walking clockwise to the first entry that meets a condition** gives the next key of those
that do. -/
theorem isNext_of_find? {m : SortedMap κ α} {p : κ × α → Bool} {h : κ} {e : κ × α}
    (he : (m.entries.drop (m.nextPos h) ++ m.entries).find? p = some e) :
    IsNext {k | ∃ x, (k, x) ∈ m.entries ∧ p (k, x) = true} h e.1 := by
  obtain ⟨below, above, hsplit, hlen, hbelow, habove⟩ := m.lowerBound_spec h
  have hsorted := m.sorted
  have hmem : e ∈ m.entries := by
    rcases List.mem_append.mp (List.mem_of_find?_eq_some he) with hmem | hmem
    · exact List.mem_of_mem_drop hmem
    · exact hmem
  refine ⟨⟨e.2, hmem, List.find?_some he⟩, ?_⟩
  rw [List.find?_append] at he
  cases hfind : above.find? p with
  | some e' =>
    left
    have hpos : m.nextPos h = below.length := by
      have hne : above ≠ [] := List.ne_nil_of_mem (List.mem_of_find?_eq_some hfind)
      have hlt := List.length_pos_iff.mpr hne
      rw [nextPos, if_neg, ← hlen]
      rw [← hlen, size, hsplit, List.length_append]
      omega
    rw [hpos, hsplit, List.drop_left, hfind, Option.some_or] at he
    obtain rfl := Option.some.inj he
    refine ⟨habove e' (List.mem_of_find?_eq_some hfind), ?_⟩
    rintro k ⟨x, hx, hp⟩ hk
    rw [hsplit, List.mem_append] at hx
    rcases hx with hx | hx
    · exact absurd (hbelow _ hx) (not_lt.mpr hk)
    · rw [hsplit, List.pairwise_append] at hsorted
      exact find?_le hsorted.2.1 hfind (k, x) hx hp
  | none =>
    right
    have hfirst : m.entries.find? p = some e := by
      by_cases hend : m.lowerBound h = m.size
      · rw [nextPos, if_pos hend, List.drop_zero, Option.or_self] at he
        exact he
      · rw [nextPos, if_neg hend, ← hlen, hsplit, List.drop_left, hfind, Option.none_or,
          ← hsplit] at he
        exact he
    refine ⟨?_, ?_⟩
    · rintro k ⟨x, hx, hp⟩
      rw [hsplit, List.mem_append] at hx
      rcases hx with hx | hx
      · exact hbelow _ hx
      · exact absurd hp (List.find?_eq_none.mp hfind _ hx)
    · rintro k ⟨x, hx, hp⟩
      exact find?_le hsorted hfirst (k, x) hx hp

/-- **The entry at `nextPos` is the entry of the next key clockwise.** -/
theorem getElem?_nextPos {m : SortedMap κ α} {h : κ} {e : κ × α}
    (he : m.entries[m.nextPos h]? = some e) : e ∈ m.entries ∧ IsNext m.keys h e.1 := by
  have hfirst : (m.entries.drop (m.nextPos h)).find? (fun _ => true) = some e := by
    obtain ⟨hlt, rfl⟩ := List.getElem?_eq_some_iff.mp he
    rw [List.drop_eq_getElem_cons hlt, List.find?_cons_of_pos rfl]
  have hfind : (m.entries.drop (m.nextPos h) ++ m.entries).find? (fun _ => true) = some e := by
    rw [List.find?_append, hfirst, Option.some_or]
  have hnext := isNext_of_find? hfind
  simp only [and_true] at hnext
  exact ⟨List.mem_of_getElem? he, hnext⟩

theorem getElem?_nextPos_of_isNext {m : SortedMap κ α} {h : κ} {e : κ × α} (hmem : e ∈ m.entries)
    (hnext : IsNext m.keys h e.1) : m.entries[m.nextPos h]? = some e := by
  obtain ⟨e', he'⟩ : ∃ e', m.entries[m.nextPos h]? = some e' :=
    ⟨_, List.getElem?_eq_getElem (nextPos_lt (List.length_pos_of_mem hmem) h)⟩
  obtain ⟨hmem', hnext'⟩ := getElem?_nextPos he'
  have hkey : e'.1 = e.1 := hnext'.unique hnext
  have hval : e'.2 = e.2 := value_unique (k := e.1) (hkey ▸ hmem') hmem
  rw [he', Prod.ext hkey hval]

end SortedMap
