import McacheClient.Lib.Numeral
import Mathlib.Data.List.TakeWhile

/-!
# Formatted input

The extraction of words and unsigned integers from an `std::istringstream`.

* `skipSpace`, `extractWord`, `extractUnsigned`: white space is skipped, then as many bytes are
  taken as fit; an integer that does not fit its type fails;
* `ReadsWord`, `ReadsNumber`: text that begins with a word or with a number that may have a sign;
* **`extractWord_iff`**, **`extractUnsigned_iff`**: the extractions succeed on exactly such text;
* `extractWord_append`, **`extractUnsigned_decimal`**: a word or number that was written is read;
* `tokens`, `tokens_of_readsWord`, `ReadsNumber.of_tokens`: the words of a text, and what the
  extractions take of them;
* `extractWord_append_blank`, `extractUnsigned_append_blank`: white space after a text is left.
-/

namespace Stream

open Numeral

/-- The white space of the C locale. -/
def isSpace (c : UInt8) : Bool := c == 32 || 9 ≤ c && c ≤ 13

/-- The bytes up to the first one that does not have a property, and the rest. -/
def cutWhile (p : UInt8 → Bool) (s : List UInt8) : List UInt8 × List UInt8 :=
  (s.takeWhile p, s.dropWhile p)

def skipSpace (s : List UInt8) : List UInt8 := s.dropWhile isSpace

/-- `is >> word`: the word and what follows it; none when the stream fails. -/
def extractWord (s : List UInt8) : Option (List UInt8 × List UInt8) :=
  let s := skipSpace s
  if s = [] then none else some (cutWhile (fun c => !isSpace c) s)

/-- `is >> n` for an unsigned type with `2 ^ width` values: the value that `n` gets, and what
follows it; none when the stream fails. A minus sign negates the number in the type. -/
def extractUnsigned (width : ℕ) (s : List UInt8) : ℕ × Option (List UInt8) :=
  let s := skipSpace s
  let negative := s.head? = some 45
  let s := if s.head? = some 45 ∨ s.head? = some 43 then s.tail else s
  let (digits, rest) := cutWhile isDigit s
  let n := ofDecimal digits
  if digits = [] then (0, none)
  else if 2 ^ width ≤ n then (2 ^ width - 1, none)
  else (if negative then (2 ^ width - n) % 2 ^ width else n, some rest)

theorem skipSpace_append (space : List UInt8) {s : List UInt8}
    (hspace : ∀ c ∈ space, isSpace c = true) (hs : ∀ c ∈ s.head?, isSpace c = false) :
    skipSpace (space ++ s) = s := by
  rw [skipSpace, List.dropWhile_append_of_pos hspace]
  cases s with
  | nil => rfl
  | cons c s => rw [List.dropWhile_cons_of_neg (by simp [hs c rfl])]

theorem cutWhile_append {p : UInt8 → Bool} {l r : List UInt8} (hl : ∀ c ∈ l, p c = true)
    (hr : ∀ c ∈ r.head?, p c = false) : cutWhile p (l ++ r) = (l, r) := by
  rw [cutWhile, List.takeWhile_append_of_pos hl, List.dropWhile_append_of_pos hl]
  cases r with
  | nil => simp
  | cons c r =>
    rw [List.takeWhile_cons_of_neg (by simp [hr c rfl]),
      List.dropWhile_cons_of_neg (by simp [hr c rfl]), List.append_nil]

theorem head?_append {l : List UInt8} (hne : l ≠ []) {p : UInt8 → Prop} (hl : ∀ c ∈ l, p c)
    (r : List UInt8) : ∀ c ∈ (l ++ r).head?, p c := by
  cases l with
  | nil => exact absurd rfl hne
  | cons a l =>
    intro c hc
    exact Option.mem_some_iff.mp hc ▸ hl a List.mem_cons_self

theorem extractWord_append (space : List UInt8) {word rest : List UInt8}
    (hspace : ∀ c ∈ space, isSpace c = true) (hne : word ≠ [])
    (hword : ∀ c ∈ word, isSpace c = false) (hrest : ∀ c ∈ rest.head?, isSpace c = true) :
    extractWord (space ++ word ++ rest) = some (word, rest) := by
  rw [extractWord, List.append_assoc, skipSpace_append space hspace (head?_append hne hword rest),
    cutWhile_append (fun c hc => by rw [hword c hc]; rfl) fun c hc => by rw [hrest c hc]; rfl]
  exact if_neg fun h => hne (List.append_eq_nil_iff.mp h).1

theorem isSpace_of_isDigit {c : UInt8} (h : isDigit c = true) : isSpace c = false := by
  simp only [isDigit, isSpace, Bool.and_eq_true, decide_eq_true_eq, UInt8.le_iff_toNat_le,
    Bool.or_eq_false_iff, beq_eq_false_iff_ne, Bool.and_eq_false_iff, decide_eq_false_iff_not,
    ne_eq, ← UInt8.toNat_inj, UInt8.reduceToNat] at h ⊢
  omega

/-! ## What the extractions read -/

/-- White space only. -/
def Blank (s : List UInt8) : Prop := ∀ c ∈ s, isSpace c = true

/-- White space, a word, and what follows it. -/
structure ReadsWord (s word rest : List UInt8) : Prop where
  split : ∃ space, Blank space ∧ s = space ++ word ++ rest
  ne_nil : word ≠ []
  word : ∀ c ∈ word, isSpace c = false
  rest : ∀ c ∈ rest.head?, isSpace c = true

/-- White space, a number that may have a sign, and what follows its digits. -/
structure ReadsNumber (s sign digits rest : List UInt8) : Prop where
  split : ∃ space, Blank space ∧ s = space ++ sign ++ digits ++ rest
  sign : sign ∈ [[], [43], [45]]
  ne_nil : digits ≠ []
  digits : ∀ c ∈ digits, isDigit c = true
  rest : ∀ c ∈ rest.head?, isDigit c = false

theorem blank_takeWhile (s : List UInt8) : Blank (s.takeWhile isSpace) :=
  fun _ => List.mem_takeWhile_imp

theorem head?_dropWhile {p : UInt8 → Bool} {s : List UInt8} :
    ∀ c ∈ (s.dropWhile p).head?, p c = false := by
  intro c hc
  have hnot := List.head?_dropWhile_not p s
  rw [Option.mem_def.mp hc] at hnot
  simpa using hnot

/-- **A word is extracted** exactly when there is one. -/
theorem extractWord_iff {s word rest : List UInt8} :
    extractWord s = some (word, rest) ↔ ReadsWord s word rest := by
  constructor
  · intro h
    rw [extractWord] at h
    simp only [Option.ite_none_left_eq_some, Option.some.injEq, cutWhile, Prod.mk.injEq] at h
    obtain ⟨hne, rfl, rfl⟩ := h
    refine ⟨⟨_, blank_takeWhile s, ?_⟩, fun hword => ?_, fun c hc => ?_, fun c hc => ?_⟩
    · rw [List.append_assoc, List.takeWhile_append_dropWhile]
      exact List.takeWhile_append_dropWhile.symm
    · obtain ⟨c, t, ht⟩ := List.exists_cons_of_ne_nil hne
      have hc : isSpace c = false := head?_dropWhile (s := s) c (congrArg List.head? ht)
      rw [ht, List.takeWhile_cons_of_pos (by simp [hc])] at hword
      cases hword
    · simpa using List.mem_takeWhile_imp hc
    · simpa using head?_dropWhile c hc
  · rintro ⟨⟨space, hspace, rfl⟩, hne, hword, hrest⟩
    exact extractWord_append space hspace hne hword hrest

theorem extractUnsigned_of_readsNumber {s sign digits rest : List UInt8}
    (h : ReadsNumber s sign digits rest) (width : ℕ) : extractUnsigned width s =
      if 2 ^ width ≤ ofDecimal digits then (2 ^ width - 1, none)
      else (if sign = [45] then (2 ^ width - ofDecimal digits) % 2 ^ width else ofDecimal digits,
        some rest) := by
  obtain ⟨⟨space, hspace, rfl⟩, hsign, hne, hdigits, hrest⟩ := h
  have hdigit := head?_append hne hdigits rest
  have hcut := cutWhile_append hdigits hrest
  have hno : ∀ c : UInt8, isDigit c = false → (digits ++ rest).head? ≠ some c :=
    fun c hc h => by rw [hdigit c h] at hc; cases hc
  simp only [List.mem_cons, List.not_mem_nil, or_false] at hsign
  have hhead : ∀ c ∈ (sign ++ (digits ++ rest)).head?, isSpace c = false := by
    rcases hsign with rfl | rfl | rfl
    · exact fun c hc => isSpace_of_isDigit (hdigit c hc)
    · rintro c ⟨⟩
      rfl
    · rintro c ⟨⟩
      rfl
  rw [extractUnsigned, List.append_assoc, List.append_assoc, skipSpace_append space hspace hhead]
  rcases hsign with rfl | rfl | rfl
  · simp only [List.nil_append, hno 45 rfl, hno 43 rfl]
    simp [hcut, hne]
  · simp [hcut, hne]
  · simp [hcut, hne]

theorem exists_sign (s : List UInt8) : ∃ sign ∈ [[], [43], [45]],
    s = sign ++ if s.head? = some 45 ∨ s.head? = some 43 then s.tail else s := by
  split_ifs with hsign
  · cases s with
    | nil => simp at hsign
    | cons c s => exact ⟨[c], by simpa [or_comm] using hsign, rfl⟩
  · exact ⟨[], List.mem_cons_self, rfl⟩

/-- **A number is extracted** exactly when there is one that fits the type. -/
theorem extractUnsigned_iff {width v : ℕ} {s rest : List UInt8} :
    extractUnsigned width s = (v, some rest) ↔ ∃ sign digits, ReadsNumber s sign digits rest ∧
      ofDecimal digits < 2 ^ width ∧
      v = if sign = [45] then (2 ^ width - ofDecimal digits) % 2 ^ width else ofDecimal digits := by
  constructor
  · intro h
    have hreads : ∃ sign digits rest', ReadsNumber s sign digits rest' := by
      obtain ⟨sign, hsign, hskip⟩ := exists_sign (skipSpace s)
      rw [extractUnsigned] at h
      simp only at h
      generalize (if (skipSpace s).head? = some 45 ∨ (skipSpace s).head? = some 43
        then (skipSpace s).tail else skipSpace s) = number at h hskip
      refine ⟨sign, number.takeWhile isDigit, number.dropWhile isDigit,
        ⟨s.takeWhile isSpace, blank_takeWhile s, ?_⟩, hsign, fun hnil => ?_,
        fun _ => List.mem_takeWhile_imp, head?_dropWhile⟩
      · rw [List.append_assoc _ _ (number.dropWhile isDigit), List.takeWhile_append_dropWhile,
          List.append_assoc, ← hskip]
        exact List.takeWhile_append_dropWhile.symm
      · rw [cutWhile, if_pos hnil] at h
        cases h
    obtain ⟨sign, digits, rest', hnumber⟩ := hreads
    rw [extractUnsigned_of_readsNumber hnumber] at h
    split_ifs at h with hfits hminus
    · cases h
    · obtain ⟨rfl, hrest⟩ := Prod.mk.inj h
      obtain rfl := Option.some.inj hrest
      exact ⟨sign, digits, hnumber, Nat.not_le.mp hfits, (if_pos hminus).symm⟩
    · obtain ⟨rfl, hrest⟩ := Prod.mk.inj h
      obtain rfl := Option.some.inj hrest
      exact ⟨sign, digits, hnumber, Nat.not_le.mp hfits, (if_neg hminus).symm⟩
  · rintro ⟨sign, digits, hnumber, hfits, rfl⟩
    rw [extractUnsigned_of_readsNumber hnumber, if_neg (Nat.not_le.mpr hfits)]

/-- **A decimal number is read back** when it fits the type and no digit follows it. -/
theorem extractUnsigned_decimal (space : List UInt8) {rest : List UInt8} {width n : ℕ}
    (hn : n < 2 ^ width)
    (hspace : ∀ c ∈ space, isSpace c = true) (hrest : ∀ c ∈ rest.head?, isDigit c = false) :
    extractUnsigned width (space ++ decimal n ++ rest) = (n, some rest) := by
  have hnumber : ReadsNumber (space ++ decimal n ++ rest) [] (decimal n) rest :=
    ⟨⟨space, hspace, by rw [List.append_nil]⟩, List.mem_cons_self, decimal_ne_nil n,
      fun _ => isDigit_of_mem_decimal, hrest⟩
  rw [extractUnsigned_of_readsNumber hnumber, ofDecimal_decimal, if_neg (Nat.not_le.mpr hn)]
  rfl

/-! ## Tokens -/

/-- The words of a text: its nonempty pieces between white space. -/
def tokens (s : List UInt8) : List (List UInt8) := (s.splitOnP isSpace).filter fun w => w ≠ []

theorem tokens_cons_of_isSpace {c : UInt8} (hc : isSpace c = true) (s : List UInt8) :
    tokens (c :: s) = tokens s := by
  rw [tokens, List.splitOnP_cons_eq_if_modifyHead, if_pos hc]
  rfl

theorem tokens_append_of_blank {space : List UInt8} (hspace : Blank space) (s : List UInt8) :
    tokens (space ++ s) = tokens s := by
  induction space with
  | nil => rfl
  | cons c space ih =>
    rw [List.cons_append, tokens_cons_of_isSpace (hspace c List.mem_cons_self),
      ih fun d hd => hspace d (List.mem_cons_of_mem c hd)]

theorem tokens_of_readsWord {s word rest : List UInt8} (h : ReadsWord s word rest) :
    tokens s = word :: tokens rest := by
  obtain ⟨⟨space, hspace, rfl⟩, hne, hword, hrest⟩ := h
  rw [List.append_assoc, tokens_append_of_blank hspace]
  cases rest with
  | nil => simp [tokens, List.splitOnP_eq_singleton hword, hne]
  | cons c rest =>
    have hc : isSpace c = true := hrest c rfl
    rw [tokens_cons_of_isSpace hc, tokens, List.splitOnP_append_cons_of_forall_mem hword c hc,
      List.filter_cons_of_pos (by simpa using hne)]
    rfl

theorem tokens_eq_nil_iff {s : List UInt8} : tokens s = [] ↔ Blank s := by
  constructor
  · intro h
    cases hword : extractWord s with
    | none =>
      rw [extractWord] at hword
      simp only [ite_eq_left_iff, reduceCtorEq, imp_false, not_not] at hword
      exact fun c hc => List.dropWhile_eq_nil_iff.mp hword c hc
    | some p =>
      rw [tokens_of_readsWord (extractWord_iff.mp hword)] at h
      cases h
  · intro h
    rw [← List.append_nil s, tokens_append_of_blank h]
    rfl

theorem readsWord_of_tokens {s word : List UInt8} {words : List (List UInt8)}
    (h : tokens s = word :: words) : ∃ rest, ReadsWord s word rest ∧ tokens rest = words := by
  cases hword : extractWord s with
  | none =>
    rw [extractWord] at hword
    simp only [ite_eq_left_iff, reduceCtorEq, imp_false, not_not] at hword
    rw [tokens_eq_nil_iff.mpr fun c hc => List.dropWhile_eq_nil_iff.mp hword c hc] at h
    cases h
  | some p =>
    obtain ⟨word', rest⟩ := p
    have hreads := extractWord_iff.mp hword
    rw [tokens_of_readsWord hreads] at h
    obtain ⟨rfl, rfl⟩ := List.cons.inj h
    exact ⟨rest, hreads, rfl⟩

theorem ReadsWord.number {s digits rest : List UInt8} (h : ReadsWord s digits rest)
    (hdigits : ∀ c ∈ digits, isDigit c = true) : ReadsNumber s [] digits rest := by
  obtain ⟨⟨space, hspace, rfl⟩, hne, -, hrest⟩ := h
  refine ⟨⟨space, hspace, by rw [List.append_nil]⟩, List.mem_cons_self, hne, hdigits,
    fun c hc => ?_⟩
  have hc := hrest c hc
  by_contra hdigit
  rw [isSpace_of_isDigit (by simpa using hdigit)] at hc
  cases hc

theorem ReadsNumber.word {s digits rest : List UInt8} (h : ReadsNumber s [] digits rest)
    (hrest : ∀ c ∈ rest.head?, isSpace c = true) : ReadsWord s digits rest where
  split := by simpa using h.split
  ne_nil := h.ne_nil
  word c hc := isSpace_of_isDigit (h.digits c hc)
  rest := hrest

/-- Between two numbers of which the second has no sign there is white space. -/
theorem ReadsNumber.head?_isSpace {s digits rest : List UInt8} (h : ReadsNumber s [] digits rest)
    (hs : ∀ c ∈ s.head?, isDigit c = false) : ∀ c ∈ s.head?, isSpace c = true := by
  obtain ⟨⟨space, hspace, hsplit⟩, -, hne, hdigits, -⟩ := h
  cases space with
  | nil =>
    obtain ⟨d, tail, hd⟩ := List.exists_cons_of_ne_nil hne
    have hhead : s.head? = some d := by rw [hsplit, hd]; rfl
    have hdigit := hdigits d (hd ▸ List.mem_cons_self)
    rw [hs d hhead] at hdigit
    cases hdigit
  | cons c space =>
    have hhead : s.head? = some c := by rw [hsplit]; rfl
    intro d hd
    rw [hhead] at hd
    exact Option.mem_some_iff.mp hd ▸ hspace c List.mem_cons_self

theorem extractUnsigned_of_blank {s : List UInt8} (h : Blank s) (width : ℕ) :
    extractUnsigned width s = (0, none) := by
  have hskip : skipSpace s = [] := List.dropWhile_eq_nil_iff.mpr h
  rw [extractUnsigned, hskip]
  rfl

theorem ReadsNumber.exists_readsWord {s sign digits rest : List UInt8}
    (h : ReadsNumber s sign digits rest) :
    ∃ junk rest', rest = junk ++ rest' ∧ ReadsWord s (sign ++ digits ++ junk) rest' := by
  obtain ⟨⟨space, hspace, rfl⟩, hsign, hne, hdigits, -⟩ := h
  have hsplit := List.takeWhile_append_dropWhile (p := fun c => !isSpace c) (l := rest)
  have hsignSpace : ∀ c ∈ sign, isSpace c = false := by
    simp only [List.mem_cons, List.not_mem_nil, or_false] at hsign
    rcases hsign with rfl | rfl | rfl
    · exact nofun
    · exact List.forall_mem_singleton.mpr rfl
    · exact List.forall_mem_singleton.mpr rfl
  refine ⟨_, _, hsplit.symm, ⟨space, hspace, ?_⟩, by simp [hne], fun c hc => ?_, fun c hc => ?_⟩
  · simp only [List.append_assoc, hsplit]
  · simp only [List.mem_append] at hc
    rcases hc with (hc | hc) | hc
    · exact hsignSpace c hc
    · exact isSpace_of_isDigit (hdigits c hc)
    · simpa using List.mem_takeWhile_imp hc
  · simpa using head?_dropWhile c hc

theorem ReadsNumber.of_tokens {s sign digits rest word : List UInt8} {words : List (List UInt8)}
    (h : ReadsNumber s sign digits rest) (htokens : tokens s = word :: words)
    (hword : ∀ c ∈ word, isDigit c = true) : sign = [] ∧ digits = word ∧ tokens rest = words := by
  obtain ⟨junk, rest', rfl, hreads⟩ := h.exists_readsWord
  rw [tokens_of_readsWord hreads] at htokens
  obtain ⟨rfl, rfl⟩ := List.cons.inj htokens
  have hsign := h.sign
  have hnil : sign = [] := by
    simp only [List.mem_cons, List.not_mem_nil, or_false] at hsign
    rcases hsign with rfl | rfl | rfl
    · rfl
    · cases hword 43 (by simp)
    · cases hword 45 (by simp)
  have hjunk : junk = [] := by
    cases junk with
    | nil => rfl
    | cons c junk =>
      -- the first byte after the digits is no digit, but it is part of the token
      have hdigit := hword c (by simp)
      rw [h.rest c rfl] at hdigit
      cases hdigit
  rw [hnil, hjunk]
  exact ⟨rfl, (List.append_nil _).symm, rfl⟩

/-! ## White space after a text -/

section Trailing

variable {s t : List UInt8}

theorem skipSpace_append_blank (ht : Blank t) :
    skipSpace (s ++ t) = if skipSpace s = [] then [] else skipSpace s ++ t := by
  have hblank : skipSpace t = [] := List.dropWhile_eq_nil_iff.mpr ht
  unfold skipSpace at hblank ⊢
  rw [List.dropWhile_append, hblank]
  simp only [List.isEmpty_iff]

theorem cutWhile_append_right {p : UInt8 → Bool} (ht : ∀ c ∈ t.head?, p c = false) :
    cutWhile p (s ++ t) = ((cutWhile p s).1, (cutWhile p s).2 ++ t) := by
  have hall := List.takeWhile_append_dropWhile (p := p) (l := s)
  have hcut := cutWhile_append (p := p) (l := s.takeWhile p) (r := s.dropWhile p ++ t)
    (fun c => List.mem_takeWhile_imp) ?_
  · rw [← List.append_assoc, hall] at hcut
    exact hcut
  · cases hrest : s.dropWhile p with
    | nil => exact ht
    | cons c rest => exact fun d hd => head?_dropWhile (s := s) d (by rwa [hrest])

theorem Blank.head? (ht : Blank t) : ∀ c ∈ t.head?, isSpace c = true := fun c hc =>
  ht c (List.mem_of_mem_head? hc)

theorem extractWord_append_blank (ht : Blank t) :
    extractWord (s ++ t) = (extractWord s).map fun (word, rest) => (word, rest ++ t) := by
  rw [extractWord, extractWord, skipSpace_append_blank ht]
  by_cases hs : skipSpace s = []
  · simp [hs]
  · have hne : skipSpace s ++ t ≠ [] := fun h => hs (List.append_eq_nil_iff.mp h).1
    rw [if_neg hs, if_neg hs, if_neg hne,
      cutWhile_append_right fun c hc => by rw [ht.head? c hc]; rfl]
    rfl

theorem tail_append_of_ne_nil (hs : s ≠ []) : (s ++ t).tail = s.tail ++ t := by
  cases s with
  | nil => exact absurd rfl hs
  | cons c s => rfl

theorem extractUnsigned_append_blank (ht : Blank t) (width : ℕ) : extractUnsigned width (s ++ t) =
    ((extractUnsigned width s).1, (extractUnsigned width s).2.map (· ++ t)) := by
  by_cases hs : skipSpace s = []
  · have hs' : skipSpace (s ++ t) = [] := by rw [skipSpace_append_blank ht, if_pos hs]
    rw [extractUnsigned_of_blank (List.dropWhile_eq_nil_iff.mp hs),
      extractUnsigned_of_blank (List.dropWhile_eq_nil_iff.mp hs')]
    rfl
  · have hhead : (skipSpace s ++ t).head? = (skipSpace s).head? := by
      rw [List.head?_append_of_ne_nil _ hs]
    have hdigit : ∀ c ∈ t.head?, isDigit c = false := by
      intro c hc
      by_contra h
      have hspace := ht.head? c hc
      rw [isSpace_of_isDigit (by simpa using h)] at hspace
      cases hspace
    have hsign : (if (skipSpace s).head? = some 45 ∨ (skipSpace s).head? = some 43
        then (skipSpace s ++ t).tail else skipSpace s ++ t) =
        (if (skipSpace s).head? = some 45 ∨ (skipSpace s).head? = some 43
          then (skipSpace s).tail else skipSpace s) ++ t := by
      rw [tail_append_of_ne_nil hs]
      split_ifs <;> rfl
    simp only [extractUnsigned, skipSpace_append_blank ht, if_neg hs, hhead, hsign,
      cutWhile_append_right hdigit]
    split_ifs <;> rfl

end Trailing

end Stream
