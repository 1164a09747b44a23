import McacheClient.Io.Udp
import McacheClient.Lib.Numeral

/-!
# Reassembly of a message

`fill` over the datagrams as they come from the network.

* `Raw`, `Datagram.ofRaw`: a datagram on the wire, and what `receive` makes of it;
* `Follow`, `Message`: the first datagrams are a message, with the numbers 0, 1, 2 and so on;
* `Sized`: none of the datagrams that `fill` receives is shorter than a header;
* `fill_outcome`: a message, an `io::error_t` or, with a short datagram, `std::length_error`;
* **`reassembles_iff`**: `fill` puts messages together and refuses everything else exactly when no
  short datagram is received.
-/

namespace McacheClient.Udp

open Numeral

/-- A datagram on the wire; the length field of UDP bounds its size. -/
structure Raw where
  bytes : Bytes
  length_le : bytes.length ≤ 65527

namespace Raw

/-- The id is not swapped, and the platform is little-endian. -/
def id (raw : Raw) : UInt16 := .ofNat (ofBigEndian (raw.bytes.take 2).reverse)

def seq (raw : Raw) : UInt16 := .ofNat (ofBigEndian ((raw.bytes.drop 2).take 2))

def count (raw : Raw) : UInt16 := .ofNat (ofBigEndian ((raw.bytes.drop 4).take 2))

/-- The bytes after the header. -/
def payload (raw : Raw) : Bytes := raw.bytes.drop 8

end Raw

/-- `receive` of a datagram into its buffer of `1 << 16` bytes. The header is read there; the size
of a payload of less than no bytes wraps around, and `append` throws. -/
def Datagram.ofRaw (raw : Raw) : Except Exn Datagram :=
  let b := raw.bytes.take (1 <<< 16)
  if b.length < 8 then .error .lengthError
  else .ok {
    id := .ofNat (ofBigEndian (b.take 2).reverse)
    seq := .ofNat (ofBigEndian ((b.drop 2).take 2))
    count := .ofNat (ofBigEndian ((b.drop 4).take 2))
    payload := b.drop 8 }

theorem Datagram.ofRaw_short {raw : Raw} (h : raw.bytes.length < 8) :
    Datagram.ofRaw raw = .error .lengthError := by
  have hlen : (raw.bytes.take (1 <<< 16)).length < 8 :=
    Nat.lt_of_le_of_lt (List.length_take_le' _ _) h
  simp only [ofRaw, if_pos hlen]

theorem Datagram.ofRaw_sized {raw : Raw} (h : 8 ≤ raw.bytes.length) :
    Datagram.ofRaw raw = .ok ⟨raw.id, raw.seq, raw.count, raw.payload⟩ := by
  have htake : raw.bytes.take (1 <<< 16) = raw.bytes :=
    List.take_of_length_le (Nat.le_trans raw.length_le (by decide))
  simp only [ofRaw, htake, if_neg (Nat.not_lt.mpr h)]
  rfl

/-! ## Messages -/

/-- A datagram of a message. -/
def Belongs (id count : UInt16) (i : ℕ) (raw : Raw) : Prop :=
  raw.seq.toNat = i ∧ raw.count = count ∧ raw.id = id

/-- The first `n` datagrams are those of a message from number `i` on. -/
def Follow (id count : UInt16) (i n : ℕ) (raws : List Raw) : Prop :=
  ∀ k < n, ∃ raw, raws[k]? = some raw ∧ Belongs id count (i + k) raw

/-- The datagrams begin with a message: one with the sequence number 0 and the id of the request,
which has the count, and those that follow. -/
def Message (id : UInt16) : List Raw → Prop
  | [] => False
  | first :: rest =>
    first.seq = 0 ∧ first.id = id ∧ Follow id first.count 1 (first.count.toNat - 1) rest

/-- The bytes after the headers of the datagrams of a message. -/
def messageBytes : List Raw → Bytes
  | [] => []
  | first :: rest => first.payload ++ (rest.take (first.count.toNat - 1)).flatMap Raw.payload

/-- Of `n` datagrams, none that comes after datagrams of the message is short. -/
def SizedNext (id count : UInt16) (i n : ℕ) (raws : List Raw) : Prop :=
  ∀ k < n, Follow id count i k raws → ∀ raw ∈ raws[k]?, 8 ≤ raw.bytes.length

/-- No datagram that `fill` receives is shorter than a header. -/
def Sized (id : UInt16) : List Raw → Prop
  | [] => True
  | first :: rest => 8 ≤ first.bytes.length ∧ (first.seq = 0 → first.id = id →
      SizedNext id first.count 1 (first.count.toNat - 1) rest)

variable {id count : UInt16} {i n : ℕ} {raw : Raw} {raws : List Raw}

theorem follow_zero : Follow id count i 0 raws := nofun

theorem not_follow_nil : ¬Follow id count i (n + 1) [] := fun h => by
  obtain ⟨raw, hraw, -⟩ := h 0 (Nat.zero_lt_succ n)
  cases hraw

theorem follow_cons : Follow id count i (n + 1) (raw :: raws) ↔
    Belongs id count i raw ∧ Follow id count (i + 1) n raws := by
  constructor
  · intro h
    obtain ⟨first, hfirst, hbelongs⟩ := h 0 (Nat.zero_lt_succ n)
    obtain rfl := Option.some.inj hfirst
    refine ⟨hbelongs, fun k hk => ?_⟩
    obtain ⟨next, hnext, hbelongs⟩ := h (k + 1) (Nat.succ_lt_succ hk)
    have hi : i + 1 + k = i + (k + 1) := by omega
    exact ⟨next, hnext, hi ▸ hbelongs⟩
  · rintro ⟨hbelongs, h⟩ k hk
    cases k with
    | zero => exact ⟨raw, rfl, hbelongs⟩
    | succ k =>
      have hi : i + (k + 1) = i + 1 + k := by omega
      rw [hi]
      exact h k (Nat.lt_of_succ_lt_succ hk)

theorem sizedNext_nil : SizedNext id count i n [] := fun k _ _ => by simp

theorem sizedNext_cons : SizedNext id count i (n + 1) (raw :: raws) ↔ 8 ≤ raw.bytes.length ∧
    (Belongs id count i raw → SizedNext id count (i + 1) n raws) := by
  constructor
  · intro h
    refine ⟨h 0 (Nat.zero_lt_succ n) follow_zero raw rfl, fun hbelongs k hk hfollow => ?_⟩
    exact h (k + 1) (Nat.succ_lt_succ hk) (follow_cons.mpr ⟨hbelongs, hfollow⟩)
  · rintro ⟨hlen, h⟩ k hk hfollow
    cases k with
    | zero =>
      intro first hfirst
      obtain rfl := Option.some.inj hfirst
      exact hlen
    | succ k =>
      obtain ⟨hbelongs, hfollow⟩ := follow_cons.mp hfollow
      exact h hbelongs k (Nat.lt_of_succ_lt_succ hk) hfollow

theorem sized_and_not_follow (hlen : 8 ≤ raw.bytes.length) (hnot : ¬Belongs id count i raw) :
    SizedNext id count i (n + 1) (raw :: raws) ∧ ¬Follow id count i (n + 1) (raw :: raws) :=
  ⟨sizedNext_cons.mpr ⟨hlen, fun h => absurd h hnot⟩, fun h => hnot (follow_cons.mp h).1⟩

/-! ## The outcome of a `fill` -/

/-- A message is in the buffer, an `io::error_t` says that there is none, or there was a short
datagram. -/
def Outcome (sized message : Prop) (bytes : Bytes) (result : Except Exn Unit × Connection) : Prop :=
  (¬sized → result.1 = .error .lengthError) ∧
    (sized → message → result.1 = .ok () ∧ result.2.buffer.map Prod.fst = bytes) ∧
    (sized → ¬message → ∃ code msg, result.1 = .error (.io code msg))

section Outcome

variable {sized message : Prop} {bytes : Bytes} {s : Connection}

theorem outcome_refused (hsized : sized) (hmessage : ¬message) (code : IoErrorCode) (msg : String) :
    Outcome sized message bytes (.error (.io code msg), s) :=
  ⟨fun h => absurd hsized h, fun _ h => absurd h hmessage, fun _ _ => ⟨code, msg, rfl⟩⟩

theorem outcome_short (hsized : ¬sized) :
    Outcome sized message bytes (.error .lengthError, s) :=
  ⟨fun _ => rfl, fun h => absurd h hsized, fun h => absurd h hsized⟩

end Outcome

theorem receive_cons {s : Connection} (hs : s.incoming = (raw :: raws).map Datagram.ofRaw) :
    (raw.bytes.length < 8 ∧
      s.receive = (.error .lengthError, { s with incoming := raws.map Datagram.ofRaw })) ∨
    (8 ≤ raw.bytes.length ∧ ∃ s', s'.id = s.id ∧ s'.incoming = raws.map Datagram.ofRaw ∧
      s'.buffer.map Prod.fst = s.buffer.map Prod.fst ++ raw.payload ∧
      s.receive = (.ok ⟨raw.id, raw.seq, raw.count, raw.payload⟩, s')) := by
  rw [List.map_cons] at hs
  rcases Nat.lt_or_ge raw.bytes.length 8 with hlen | hlen
  · rw [Datagram.ofRaw_short hlen] at hs
    exact Or.inl ⟨hlen, by rw [Connection.receive, hs]⟩
  · rw [Datagram.ofRaw_sized hlen] at hs
    refine Or.inr ⟨hlen, _, ?_, ?_, ?_, by rw [Connection.receive, hs]⟩
    · rfl
    · rfl
    · simp [Datagram.bytes, Function.comp_def]

theorem fillNext_outcome (count : UInt16) (n i : ℕ) (raws : List Raw) (s : Connection)
    (hs : s.incoming = raws.map Datagram.ofRaw) :
    Outcome (SizedNext s.id count i n raws) (Follow s.id count i n raws)
      (s.buffer.map Prod.fst ++ (raws.take n).flatMap Raw.payload)
      (Connection.fillNext count n i s) := by
  induction n generalizing i raws s with
  | zero =>
    have hsized : SizedNext s.id count i 0 raws := nofun
    exact ⟨fun h => absurd hsized h, fun _ _ => ⟨rfl, by simp [Connection.fillNext]⟩,
      fun _ h => absurd follow_zero h⟩
  | succ n ih =>
    rw [Connection.fillNext]
    cases raws with
    | nil =>
      rw [Connection.receive, hs]
      exact outcome_refused sizedNext_nil not_follow_nil _ _
    | cons raw raws =>
      rcases receive_cons hs with ⟨hlen, hreceive⟩ | ⟨hlen, s', hid, hs', hbuffer, hreceive⟩
      · rw [hreceive]
        exact outcome_short fun h => absurd (sizedNext_cons.mp h).1 (by omega)
      · rw [hreceive]
        simp only
        split_ifs with hseq hcount hident
        · obtain ⟨hsized, hfollow⟩ := sized_and_not_follow hlen fun h => hseq h.1
          exact outcome_refused hsized hfollow _ _
        · obtain ⟨hsized, hfollow⟩ := sized_and_not_follow hlen fun h => hcount h.2.1
          exact outcome_refused hsized hfollow _ _
        · obtain ⟨hsized, hfollow⟩ :=
            sized_and_not_follow hlen fun h => hident (h.2.2.trans hid.symm)
          exact outcome_refused hsized hfollow _ _
        · have hbelongs : Belongs s.id count i raw :=
            ⟨not_not.mp hseq, not_not.mp hcount, (not_not.mp hident).trans hid⟩
          have hsized : SizedNext s.id count i (n + 1) (raw :: raws) ↔
              SizedNext s.id count (i + 1) n raws := by
            rw [sizedNext_cons, and_iff_right hlen, forall_prop_of_true hbelongs]
          have hfollow : Follow s.id count i (n + 1) (raw :: raws) ↔
              Follow s.id count (i + 1) n raws := by
            rw [follow_cons, and_iff_right hbelongs]
          have hnext := ih (i + 1) raws s' hs'
          rw [hid, hbuffer, List.append_assoc] at hnext
          rw [hsized, hfollow]
          exact hnext

/-- **What `fill` makes of the datagrams.** -/
theorem fill_outcome (addr : String) (id : UInt16) (raws : List Raw) :
    Outcome (Sized id raws) (Message id raws) (messageBytes raws)
      (Connection.fill { addr, id, incoming := raws.map Datagram.ofRaw }) := by
  rw [Connection.fill]
  cases raws with
  | nil =>
    rw [Connection.receive]
    exact outcome_refused trivial (fun h : False => h) _ _
  | cons first rest =>
    rcases receive_cons (s := { addr, id, incoming := (first :: rest).map Datagram.ofRaw }) rfl with
      ⟨hlen, hreceive⟩ | ⟨hlen, s', hid, hs', hbuffer, hreceive⟩
    · rw [hreceive]
      exact outcome_short fun h => absurd h.1 (by omega)
    · rw [hreceive]
      simp only
      split_ifs with hseq hident
      · exact outcome_refused ⟨hlen, fun h => absurd h hseq⟩ (fun h => hseq h.1) _ _
      · have hne : first.id ≠ id := fun h => hident (h.trans hid.symm)
        exact outcome_refused ⟨hlen, fun _ h => absurd h hne⟩ (fun h => hne h.2.1) _ _
      · have hident := (not_not.mp hident).trans hid
        have hsized : Sized id (first :: rest) ↔
            SizedNext id first.count 1 (first.count.toNat - 1) rest := by
          rw [Sized, and_iff_right hlen, forall_prop_of_true (not_not.mp hseq),
            forall_prop_of_true hident]
        have hmessage : Message id (first :: rest) ↔
            Follow id first.count 1 (first.count.toNat - 1) rest := by
          rw [Message, and_iff_right (not_not.mp hseq), and_iff_right hident]
        have hnext := fillNext_outcome first.count (first.count.toNat - 1) 1 rest s' hs'
        rw [hid, hbuffer] at hnext
        rw [hsized, hmessage]
        exact hnext

/-- `fill` returns exactly for a message, which is then in the buffer, and throws an `io::error_t`
otherwise. -/
def Reassembles (addr : String) (id : UInt16) (raws : List Raw) : Prop :=
  let result := Connection.fill { addr, id, incoming := raws.map Datagram.ofRaw }
  (result.1 = .ok () ↔ Message id raws) ∧
    (result.1 = .ok () → result.2.buffer.map Prod.fst = messageBytes raws) ∧
    (¬Message id raws → ∃ code msg, result.1 = .error (.io code msg))

/-- **`fill` puts messages together and refuses everything else** exactly when it receives no
datagram that is shorter than a header. -/
theorem reassembles_iff (addr : String) (id : UInt16) (raws : List Raw) :
    Reassembles addr id raws ↔ Sized id raws := by
  obtain ⟨hshort, hmessage, hrefused⟩ := fill_outcome addr id raws
  rw [Reassembles]
  constructor
  · rintro ⟨hiff, -, herror⟩
    by_contra hsized
    have hresult := hshort hsized
    by_cases hm : Message id raws
    · rw [hiff.mpr hm] at hresult
      cases hresult
    · obtain ⟨code, msg, hio⟩ := herror hm
      rw [hio] at hresult
      cases hresult
  · intro hsized
    have hok : (Connection.fill { addr, id, incoming := raws.map Datagram.ofRaw }).1 = .ok () →
        Message id raws := by
      intro hok
      by_contra hm
      obtain ⟨code, msg, hio⟩ := hrefused hsized hm
      rw [hok] at hio
      cases hio
    exact ⟨⟨hok, fun hm => (hmessage hsized hm).1⟩, fun h => (hmessage hsized (hok h)).2,
      hrefused hsized⟩

/-- A datagram that ends in the middle of its header. -/
def threeBytes : Raw := ⟨[8, 0, 0], by decide⟩

theorem not_reassembles_threeBytes :
    (Connection.fill { id := 7, incoming := [threeBytes].map Datagram.ofRaw }).1 =
      .error .lengthError ∧ ¬Reassembles "" 7 [threeBytes] := by
  have hfill : (Connection.fill { id := 7, incoming := [threeBytes].map Datagram.ofRaw }).1 =
      .error .lengthError := rfl
  refine ⟨hfill, fun h => ?_⟩
  have hm : ¬Message 7 [threeBytes] := fun h => absurd h.2.1 (by decide)
  obtain ⟨code, msg, hio⟩ := h.2.2 hm
  rw [hfill] at hio
  cases hio

end McacheClient.Udp
