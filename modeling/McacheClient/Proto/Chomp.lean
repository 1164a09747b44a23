import McacheClient.Proto.Api

/-!
# Headers without their delimiter

`read` over TCP returns a header with the delimiter at its end, over UDP without it.

* `startsWith_crlf`, `trim_crlf`: what is asked of a header does not depend on CRLF at its end;
* `PendingResponse.Fine`: the response is no error, or it has a body;
* `Command.Chomps`: a header with a fine response gives it without the delimiter, too;
* **`chomps_command`**: so it is for every command object of both protocols.
-/

namespace McacheClient

/-- A response that the proxy takes for one of the server: its code is below the errors, or the
server sent a body. -/
def PendingResponse.Fine (p : PendingResponse) : Prop :=
  p.response.code.value < ResponseCode.error.value ∨ p.bytes ≠ 0

/-- A fine header means the same without its delimiter. -/
def Command.Chomps (command : Command) : Prop :=
  ∀ delimiter l, command.headerDelimiter = .text delimiter →
    ∃ p, command.deserializeHeader (l ++ delimiter) = .ok p ∧
      (p.Fine → command.deserializeHeader l = .ok p)

theorem not_fine_error {p : PendingResponse}
    (hcode : ResponseCode.error.value ≤ p.response.code.value) (hbytes : p.bytes = 0) :
    ¬p.Fine := by
  rintro (h | h)
  · exact absurd hcode (Nat.not_le.mpr h)
  · exact h hbytes

namespace Text

open Numeral Stream

theorem blank_crlf : Blank crlf := by
  intro c hc
  rw [crlf, List.mem_cons, List.mem_singleton] at hc
  rcases hc with rfl | rfl <;> rfl

theorem isPrefixOf_append_crlf {s l : Bytes} (hs : 13 ∉ s) :
    s.isPrefixOf (l ++ crlf) = s.isPrefixOf l := by
  induction s generalizing l with
  | nil => rfl
  | cons c s ih =>
    rw [List.mem_cons, not_or] at hs
    obtain ⟨hc, hs⟩ := hs
    cases l with
    | nil =>
      have hne : (c == 13) = false := beq_eq_false_iff_ne.mpr fun h => hc h.symm
      rw [List.nil_append, crlf, List.isPrefixOf_cons_cons, hne, Bool.false_and]
      rfl
    | cons d l => rw [List.cons_append, List.isPrefixOf_cons_cons, List.isPrefixOf_cons_cons, ih hs]

theorem startsWith_crlf {s : String} (hs : 13 ∉ ascii s) (l : Bytes) :
    startsWith (l ++ crlf) s = startsWith l s :=
  isPrefixOf_append_crlf hs

theorem trim_crlf (l : Bytes) : trim (l ++ crlf) = trim l := by
  have hskip : (l ++ crlf).dropWhile isSpace =
      if skipSpace l = [] then [] else skipSpace l ++ crlf :=
    skipSpace_append_blank blank_crlf
  rw [trim, trim, hskip]
  split_ifs with hl
  · rw [show l.dropWhile isSpace = [] from hl]
  · have hblank : ∀ c ∈ crlf.reverse, isSpace c = true := fun c hc =>
      blank_crlf c (List.mem_reverse.mp hc)
    rw [List.reverse_append, List.dropWhile_append_of_pos hblank, skipSpace]

/-! ## The headers that the commands know -/

/-- A fine header that is known with CRLF is known without it. -/
def Ends (known : Bytes → Option PendingResponse) : Prop :=
  known [] = none ∧ ∀ l p, known (l ++ crlf) = some p → p.Fine → known l = some p

theorem ends_of_eq {known : Bytes → Option PendingResponse} (hnil : known [] = none)
    (h : ∀ l, known (l ++ crlf) = known l) : Ends known :=
  ⟨hnil, fun l _ hp _ => h l ▸ hp⟩

theorem ends_storageKnown : Ends storageKnown := by
  refine ends_of_eq rfl fun l => ?_
  simp only [storageKnown, startsWith_crlf (s := "EXISTS") (by decide),
    startsWith_crlf (s := "NOT_FOUND") (by decide), startsWith_crlf (s := "NOT_STORED") (by decide),
    startsWith_crlf (s := "STORED") (by decide)]

theorem ends_deleteKnown : Ends deleteKnown := by
  refine ends_of_eq rfl fun l => ?_
  simp only [deleteKnown, startsWith_crlf (s := "DELETED") (by decide),
    startsWith_crlf (s := "NOT_FOUND") (by decide)]

theorem ends_flushAllKnown : Ends flushAllKnown := by
  refine ends_of_eq rfl fun l => ?_
  simp only [flushAllKnown, startsWith_crlf (s := "OK") (by decide)]

theorem ends_incrDecrKnown : Ends incrDecrKnown := by
  refine ends_of_eq rfl fun l => ?_
  have hdigit : (l ++ crlf).head?.any isDigit = l.head?.any isDigit := by
    cases l <;> rfl
  simp only [incrDecrKnown, startsWith_crlf (s := "TOUCHED") (by decide),
    startsWith_crlf (s := "NOT_FOUND") (by decide), hdigit, trim_crlf,
    extractUnsigned_append_blank blank_crlf, Option.isSome_map]

theorem not_fine_syntaxErr (data : Bytes) :
    ¬PendingResponse.Fine { response := { code := .syntaxErr, data } } :=
  not_fine_error (by simp [ResponseCode.value]) rfl

/-- A VALUE line with four or five words is read without CRLF as with it; the text of another line
is part of the error. -/
theorem deserializeValueResp_crlf {zlib : Zlib} {l : Bytes}
    (h : (deserializeValueResp zlib (l ++ crlf)).Fine) :
    deserializeValueResp zlib (l ++ crlf) = deserializeValueResp zlib l := by
  simp only [deserializeValueResp, extractWord_append_blank blank_crlf] at h ⊢
  cases hcommand : extractWord l with
  | none =>
    rw [hcommand] at h
    exact absurd h (not_fine_syntaxErr _)
  | some p =>
    obtain ⟨word, is⟩ := p
    simp only [hcommand, Option.map_some, extractWord_append_blank blank_crlf] at h ⊢
    cases hkey : extractWord is with
    | none =>
      rw [hkey] at h
      exact absurd h (not_fine_syntaxErr _)
    | some p =>
      obtain ⟨key, is⟩ := p
      simp only [hkey, Option.map_some, extractUnsigned_append_blank blank_crlf] at h ⊢
      rcases hflags : extractUnsigned 32 is with ⟨flags, _ | is⟩
      · rw [hflags] at h
        exact absurd h (not_fine_syntaxErr _)
      · simp only [hflags, Option.map_some, extractUnsigned_append_blank blank_crlf] at h ⊢
        rcases hbytes : extractUnsigned 64 is with ⟨bytes, _ | is⟩
        · rw [hbytes] at h
          exact absurd h (not_fine_syntaxErr _)
        · simp only [Option.map_some, extractUnsigned_append_blank blank_crlf]

theorem ends_retrieveKnown (zlib : Zlib) : Ends (retrieveKnown zlib) := by
  refine ⟨rfl, fun l p hp hfine => ?_⟩
  simp only [retrieveKnown, startsWith_crlf (s := "END") (by decide),
    startsWith_crlf (s := "VALUE") (by decide)] at hp ⊢
  split_ifs at hp ⊢
  · exact hp
  · obtain rfl := Option.some.inj hp
    rw [deserializeValueResp_crlf hfine]

theorem not_fine_generalHeader (header : Bytes) : ¬(generalHeader header).Fine := by
  unfold generalHeader
  split_ifs
  all_goals exact not_fine_error (by simp [pending, ResponseCode.value]) rfl

theorem deserializeHeader_crlf {known : Bytes → Option PendingResponse} (h : Ends known)
    (l : Bytes) : ∃ p, deserializeHeader known (l ++ crlf) = .ok p ∧
      (p.Fine → deserializeHeader known l = .ok p) := by
  have hne : l ++ crlf ≠ [] := by simp [crlf]
  refine ⟨_, if_neg hne, fun hfine => ?_⟩
  cases hknown : known (l ++ crlf) with
  | none =>
    rw [hknown] at hfine
    exact absurd hfine (not_fine_generalHeader _)
  | some p =>
    rw [hknown] at hfine
    have hl := h.2 l p hknown hfine
    have hnil : l ≠ [] := fun hnil => by
      rw [hnil, h.1] at hl
      cases hl
    rw [deserializeHeader, if_neg hnil, hl]
    rfl

theorem chomps_of_ends {command : Command} {known : Bytes → Option PendingResponse}
    (hdelimiter : command.headerDelimiter = .text crlf)
    (hheader : command.deserializeHeader = deserializeHeader known) (h : Ends known) :
    command.Chomps := by
  rintro delimiter l hd
  obtain rfl := Delimiter.text.inj (hdelimiter.symm.trans hd)
  rw [hheader]
  exact deserializeHeader_crlf h l

theorem chomps_command {zlib : Zlib} {request : Request} {c : Command}
    (h : command zlib request = .ok c) : c.Chomps := by
  cases request with
  | retrieve name key =>
    cases h
    exact chomps_of_ends rfl rfl (ends_retrieveKnown zlib)
  | storage name key data opts =>
    cases hpacked : packed zlib data opts with
    | error e =>
      rw [command, hpacked] at h
      cases h
    | ok stored =>
      rw [command, hpacked] at h
      cases h
      exact chomps_of_ends rfl rfl ends_storageKnown
  | counter name key value opts =>
    rw [command] at h
    split_ifs at h
    cases h
    exact chomps_of_ends rfl rfl ends_incrDecrKnown
  | touch key expiration =>
    cases h
    exact chomps_of_ends rfl rfl ends_incrDecrKnown
  | delete key =>
    cases h
    exact chomps_of_ends rfl rfl ends_deleteKnown
  | flushAll expiration =>
    cases h
    exact chomps_of_ends rfl rfl ends_flushAllKnown

end Text

theorem Binary.chomps_command {zlib : Zlib} {request : Request} {c : Command}
    (h : Binary.command zlib request = .ok c) : c.Chomps := by
  intro delimiter l hdelimiter
  cases request with
  | storage name key data opts =>
    cases hpacked : packed zlib data opts with
    | error e =>
      rw [Binary.command, hpacked] at h
      cases h
    | ok stored =>
      rw [Binary.command, hpacked] at h
      cases h
      cases hdelimiter
  | _ =>
    cases h
    cases hdelimiter

/-- **Every command** can do without the delimiter of its header. -/
theorem chomps_command {api : Api} {zlib : Zlib} {request : Request} {c : Command}
    (h : api.command zlib request = .ok c) : c.Chomps := by
  cases api with
  | text => exact Text.chomps_command h
  | binary => exact Binary.chomps_command h

end McacheClient
