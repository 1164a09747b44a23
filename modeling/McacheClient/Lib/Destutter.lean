import Mathlib.Data.List.Destutter
import Mathlib.Tactic.Common

/-!
# Collapsing runs of equal elements

`l.destutter (· ≠ ·)` keeps one element of every run of equal neighbours.

* `destutter_concat`: what one more element at the end adds;
* `destutter_prefix`, `exists_prefix_destutter`: prefixes of a list and of its collapsed form;
* **`nodup_destutter_iff`**: the collapsed list has no duplicates exactly when no value comes back
  after another one.
-/

namespace List

variable {α : Type} [DecidableEq α]

theorem destutter'_concat (a x : α) (l : List α) :
    (l ++ [x]).destutter' (· ≠ ·) a =
      l.destutter' (· ≠ ·) a ++ if (a :: l).getLast? = some x then [] else [x] := by
  induction l generalizing a with
  | nil => by_cases h : a = x <;> simp [h]
  | cons b l ih =>
    rw [cons_append, getLast?_cons_cons]
    by_cases h : a = b
    · subst h
      rw [destutter'_cons_neg _ (by simp), destutter'_cons_neg _ (by simp), ih]
    · rw [destutter'_cons_pos _ h, destutter'_cons_pos _ h, ih, cons_append]

theorem cons_tail_destutter' (a : α) (l : List α) :
    a :: (l.destutter' (· ≠ ·) a).tail = l.destutter' (· ≠ ·) a := by
  induction l with
  | nil => rfl
  | cons b l ih =>
    by_cases h : a = b
    · rw [destutter'_cons_neg _ (by simpa using h), ih]
    · rw [destutter'_cons_pos _ h, tail_cons]

theorem tail_destutter'_of_not_mem {a : α} {l : List α} (h : a ∉ l) :
    (l.destutter' (· ≠ ·) a).tail = l.destutter (· ≠ ·) := by
  cases l with
  | nil => rfl
  | cons b l =>
    rw [destutter'_cons_pos _ (ne_of_not_mem_cons h), tail_cons, destutter_cons']

/-- **One more element at the end** is added unless it repeats the last one. -/
theorem destutter_concat (l : List α) (x : α) :
    (l ++ [x]).destutter (· ≠ ·) =
      l.destutter (· ≠ ·) ++ if l.getLast? = some x then [] else [x] := by
  cases l with
  | nil => simp
  | cons a l => rw [cons_append, destutter_cons', destutter_cons', destutter'_concat]

@[simp] theorem mem_destutter_ne {l : List α} {x : α} : x ∈ l.destutter (· ≠ ·) ↔ x ∈ l := by
  refine ⟨fun h => (destutter_sublist _ l).subset h, fun h => ?_⟩
  induction l using List.reverseRecOn with
  | nil => exact h
  | append_singleton l y ih =>
    rw [destutter_concat, mem_append]
    rcases mem_append.mp h with h | h
    · exact Or.inl (ih h)
    · obtain rfl := mem_singleton.mp h
      split_ifs with hlast
      · exact Or.inl (ih (mem_of_getLast? hlast))
      · exact Or.inr h

theorem destutter_prefix {l m : List α} (h : l <+: m) :
    l.destutter (· ≠ ·) <+: m.destutter (· ≠ ·) := by
  obtain ⟨t, rfl⟩ := h
  induction t using List.reverseRecOn with
  | nil => simp
  | append_singleton t x ih =>
    rw [← append_assoc, destutter_concat]
    exact ih.trans (prefix_append _ _)

theorem dropLast_destutter_subset (l : List α) :
    (l.destutter (· ≠ ·)).dropLast ⊆ l.dropLast := by
  induction l using List.reverseRecOn with
  | nil => simp
  | append_singleton l x ih =>
    intro y hy
    rw [dropLast_concat]
    rw [destutter_concat] at hy
    split_ifs at hy
    · rw [append_nil] at hy
      exact mem_destutter_ne.mp ((dropLast_subset _) hy)
    · rw [dropLast_concat] at hy
      exact mem_destutter_ne.mp hy

theorem head?_destutter_ne (l : List α) : (l.destutter (· ≠ ·)).head? = l.head? := by
  cases l with
  | nil => rfl
  | cons a l => rw [destutter_cons', ← cons_tail_destutter']; rfl

/-- Every prefix of the collapsed list is a collapsed prefix, ending where its last element is
first met. -/
theorem exists_prefix_destutter {l v : List α} (h : v <+: l.destutter (· ≠ ·)) :
    ∃ u, u <+: l ∧ u.destutter (· ≠ ·) = v ∧ u.dropLast ⊆ v.dropLast := by
  induction l using List.reverseRecOn with
  | nil => exact ⟨[], prefix_rfl, (prefix_nil.mp h).symm, by simp⟩
  | append_singleton l x ih =>
    rw [destutter_concat] at h
    by_cases hv : v <+: l.destutter (· ≠ ·)
    · obtain ⟨u, hu, rfl, hsub⟩ := ih hv
      exact ⟨u, hu.trans (prefix_append _ _), rfl, hsub⟩
    · split_ifs at h with hlast
      · rw [append_nil] at h; exact absurd h hv
      · obtain rfl : v = l.destutter (· ≠ ·) ++ [x] := by
          rcases prefix_concat_iff.mp h with h | h
          · exact h
          · exact absurd h hv
        refine ⟨l ++ [x], prefix_rfl, by rw [destutter_concat, if_neg hlast], ?_⟩
        rw [dropLast_concat, dropLast_concat]
        exact fun y hy => mem_destutter_ne.mpr hy

theorem exists_destutter'_of_find? {a b : α} {l : List α} (h : l.find? (· ≠ a) = some b) :
    ∃ t, l.destutter' (· ≠ ·) a = a :: b :: t := by
  induction l with
  | nil => simp at h
  | cons c l ih =>
    by_cases hc : a = c
    · subst hc
      rw [find?_cons_of_neg (by simp)] at h
      obtain ⟨t, ht⟩ := ih h
      exact ⟨t, by rw [destutter'_cons_neg _ (by simp), ht]⟩
    · rw [find?_cons_of_pos (by simpa using Ne.symm hc)] at h
      obtain rfl := Option.some.inj h
      exact ⟨_, by rw [destutter'_cons_pos _ hc, ← cons_tail_destutter']⟩

theorem sublist_destutter {l m : List α} (hm : m <+ l) (hc : m.IsChain (· ≠ ·)) :
    m <+ l.destutter (· ≠ ·) := by
  induction l using List.reverseRecOn generalizing m with
  | nil => exact hm
  | append_singleton l x ih =>
    rw [destutter_concat]
    obtain ⟨m₁, m₂, rfl, h₁, h₂⟩ := sublist_append_iff.mp hm
    rcases sublist_singleton.mp h₂ with rfl | rfl
    · rw [append_nil] at hc ⊢
      exact (ih h₁ hc).trans (sublist_append_left _ _)
    · split_ifs with hlast
      · -- the new element repeats the last one, which the chain cannot use twice
        obtain ⟨l', rfl⟩ := getLast?_eq_some_iff.mp hlast
        rw [append_nil]
        refine ih ?_ hc
        obtain ⟨a, b, rfl, ha, hb⟩ := sublist_append_iff.mp h₁
        rcases sublist_singleton.mp hb with rfl | rfl
        · rw [append_nil]; exact ha.append (Sublist.refl _)
        · rw [append_assoc] at hc
          have := (isChain_append.mp hc).2.1
          simp at this
      · exact (ih h₁ (isChain_append.mp hc).1).append (Sublist.refl _)

omit [DecidableEq α] in
theorem exists_between_of_isChain {l : List α} (hc : l.IsChain (· ≠ ·)) {s : α}
    (hs : [s, s] <+ l) : ∃ t, s ≠ t ∧ [s, t, s] <+ l := by
  induction l with
  | nil => simp at hs
  | cons a l ih =>
    rcases sublist_cons_iff.mp hs with hs | ⟨_, he, hs⟩
    · obtain ⟨t, hst, ht⟩ := ih hc.tail hs
      exact ⟨t, hst, ht.cons a⟩
    · obtain ⟨rfl, rfl⟩ := cons.inj he
      rw [singleton_sublist] at hs
      obtain ⟨t, l, rfl⟩ := exists_cons_of_ne_nil (ne_nil_of_mem hs)
      have hst : s ≠ t := (isChain_cons_cons.mp hc).1
      have hmem : s ∈ l := (mem_cons.mp hs).resolve_left hst
      exact ⟨t, hst, ((singleton_sublist.mpr hmem).cons_cons t).cons_cons s⟩

/-- **The collapsed list has no duplicates exactly when no value comes back after another one.** -/
theorem nodup_destutter_iff {l : List α} :
    (l.destutter (· ≠ ·)).Nodup ↔ ∀ s t, s ≠ t → ¬ [s, t, s] <+ l := by
  constructor
  · intro hnd s t hst hsub
    have := hnd.sublist (sublist_destutter hsub (by simp [hst, hst.symm]))
    simp at this
  · intro h
    rw [nodup_iff_sublist]
    intro s hs
    obtain ⟨t, hst, ht⟩ := exists_between_of_isChain (isChain_destutter _ l) hs
    exact h s t hst (ht.trans (destutter_sublist _ l))

end List
