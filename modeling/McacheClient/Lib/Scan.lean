import Mathlib.Data.List.Basic

/-!
# Cutting lists

* `List.cutAfter`: a list cut after the first occurrence of a delimiter;
* **`List.cutAfter_append`**: the cut, when the head of the delimiter does not occur before it;
* `List.EndsAtFirst`, `List.endsAtFirst_of_cutAfter`: a cut piece ends with the first delimiter;
* `List.cutAfter_append_right`: what follows a cut does not change it;
* `List.words`, `List.words_intercalate`: the nonempty pieces between separators.
-/

namespace List

variable {α : Type} [DecidableEq α]

/-- Cut a list after the first occurrence of a delimiter. -/
def cutAfter (delimiter : List α) : List α → Option (List α × List α)
  | [] => if delimiter = [] then some ([], []) else none
  | a :: l =>
    if delimiter.isPrefixOf (a :: l) then some (delimiter, (a :: l).drop delimiter.length)
    else (cutAfter delimiter l).map fun (before, after) => (a :: before, after)

/-- **The first delimiter** is where its head first occurs. -/
theorem cutAfter_append {d : α} {l : List α} (hd : d ∉ l) (delimiter rest : List α) :
    cutAfter (d :: delimiter) (l ++ d :: delimiter ++ rest) =
      some (l ++ d :: delimiter, rest) := by
  induction l with
  | nil =>
    have hp : (d :: delimiter).isPrefixOf (d :: (delimiter ++ rest)) = true := by simp
    rw [nil_append, cons_append, cutAfter, if_pos hp]
    simp
  | cons a l ih =>
    have hne : d ≠ a := fun h => hd (h ▸ mem_cons_self)
    have hp : (d :: delimiter).isPrefixOf (a :: (l ++ d :: delimiter ++ rest)) = false := by
      simp [isPrefixOf, hne]
    rw [cons_append, cons_append, cutAfter, hp, ih fun h => hd (mem_cons_of_mem a h)]
    rfl

/-- A list ends with a delimiter that does not occur in it before. -/
def EndsAtFirst (delimiter l : List α) : Prop :=
  delimiter <:+ l ∧ ∀ before after, l = before ++ delimiter ++ after → after = []

theorem isPrefixOf_iff {l₁ l₂ : List α} : l₁.isPrefixOf l₂ = true ↔ l₁ <+: l₂ :=
  isPrefixOf_iff_prefix

/-- **A cut piece ends with the first delimiter**, and the rest follows it. -/
theorem endsAtFirst_of_cutAfter {delimiter l found rest : List α}
    (h : cutAfter delimiter l = some (found, rest)) :
    found ++ rest = l ∧ EndsAtFirst delimiter found := by
  have hself : EndsAtFirst delimiter delimiter := by
    refine ⟨suffix_rfl, fun before after heq => ?_⟩
    have hlen := congrArg length heq
    simp only [length_append] at hlen
    exact length_eq_zero_iff.mp (by omega)
  induction l generalizing found with
  | nil =>
    rw [cutAfter] at h
    split_ifs at h with hd
    obtain ⟨rfl, rfl⟩ := Prod.mk.inj (Option.some.inj h)
    exact ⟨rfl, hd ▸ hself⟩
  | cons a l ih =>
    rw [cutAfter] at h
    split_ifs at h with hp
    · obtain ⟨rfl, rfl⟩ := Prod.mk.inj (Option.some.inj h)
      exact ⟨prefix_iff_eq_append.mp (isPrefixOf_iff.mp hp), hself⟩
    · obtain ⟨⟨tail, after⟩, hcut, heq⟩ := Option.map_eq_some_iff.mp h
      obtain ⟨rfl, rfl⟩ := Prod.mk.inj heq
      obtain ⟨happend, hsuffix, hfirst⟩ := ih hcut
      refine ⟨by rw [cons_append, happend], hsuffix.trans (suffix_cons a tail), ?_⟩
      intro before rest heq
      cases before with
      | nil =>
        -- the delimiter would be at the head of the whole list
        refine absurd (isPrefixOf_iff.mpr ⟨rest ++ after, ?_⟩) hp
        rw [nil_append] at heq
        rw [← append_assoc, ← heq, cons_append, happend]
      | cons b before =>
        rw [cons_append, cons_append] at heq
        exact hfirst before rest (cons.inj heq).2

/-- **What follows a cut does not change it.** -/
theorem cutAfter_append_right {delimiter l found rest : List α}
    (h : cutAfter delimiter l = some (found, rest)) (more : List α) :
    cutAfter delimiter (l ++ more) = some (found, rest ++ more) := by
  induction l generalizing found with
  | nil =>
    rw [cutAfter] at h
    split_ifs at h with hd
    obtain ⟨rfl, rfl⟩ := Prod.mk.inj (Option.some.inj h)
    cases more <;> simp [cutAfter, hd]
  | cons a l ih =>
    rw [cutAfter] at h
    rw [cons_append, cutAfter]
    split_ifs at h with hp
    · obtain ⟨rfl, rfl⟩ := Prod.mk.inj (Option.some.inj h)
      have hstart := isPrefixOf_iff.mp hp
      have hmore : delimiter.isPrefixOf (a :: (l ++ more)) = true :=
        isPrefixOf_iff.mpr (hstart.trans (prefix_append (a :: l) more))
      rw [if_pos hmore, ← cons_append, drop_append_of_le_length hstart.length_le]
    · obtain ⟨⟨tail, after⟩, hcut, heq⟩ := Option.map_eq_some_iff.mp h
      obtain ⟨rfl, rfl⟩ := Prod.mk.inj heq
      obtain ⟨happend, hsuffix, -⟩ := endsAtFirst_of_cutAfter hcut
      have hlen : delimiter.length ≤ (a :: l).length := by
        have := hsuffix.length_le
        rw [← happend, length_cons, length_append]
        omega
      have hmore : ¬delimiter.isPrefixOf (a :: (l ++ more)) = true := fun hpm =>
        hp (isPrefixOf_iff.mpr (prefix_of_prefix_length_le
          (isPrefixOf_iff.mp hpm) (prefix_append (a :: l) more) hlen))
      rw [if_neg hmore, ih hcut]
      rfl

/-- The nonempty pieces of a list between separators. -/
def words (x : α) (l : List α) : List (List α) := (l.splitOn x).filter fun w => w ≠ []

theorem ne_nil_of_mem_words {x : α} {l w : List α} (h : w ∈ words x l) : w ≠ [] := by
  simpa using (mem_filter.mp h).2

theorem words_intercalate {x : α} {ws : List (List α)} (hx : ∀ w ∈ ws, x ∉ w) (hne : ws ≠ []) :
    words x ([x].intercalate ws) = ws.filter fun w => w ≠ [] := by
  rw [words, splitOn_intercalate x hx hne]

omit [DecidableEq α] in
theorem mem_intercalate {x a : α} {ws : List (List α)} (h : a ∈ [x].intercalate ws) :
    a = x ∨ ∃ w ∈ ws, a ∈ w := by
  induction ws with
  | nil => exact absurd h not_mem_nil
  | cons w ws ih =>
    cases ws with
    | nil =>
      rw [intercalate_singleton] at h
      exact Or.inr ⟨w, mem_cons_self, h⟩
    | cons v ws =>
      rw [intercalate_cons_cons, mem_append, mem_append, mem_singleton] at h
      rcases h with (h | h) | h
      · exact Or.inr ⟨w, mem_cons_self, h⟩
      · exact Or.inl h
      · rcases ih h with h | ⟨u, hu, h⟩
        · exact Or.inl h
        · exact Or.inr ⟨u, mem_cons_of_mem w hu, h⟩

end List
