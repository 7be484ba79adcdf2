/-!
# Byte ranges of a text

Offsets into a text count UTF-8 bytes.  A range is usable only when both ends stand on
character boundaries inside the text; everything here answers `none` (or falls back) for any
other range, so a result is always a text again.

* `slice?` reads a range; `slice?_eq_some_iff` says which ranges can be read and what is read.
* `splice?` replaces a range; `splice?_eq_some_iff` is the same statement for it.
* `takeBytes` keeps the longest beginning that fits into a number of bytes.
-/

namespace Unqualify.Text

/-- A character starts at byte `n` of `s`, or the text ends there. -/
abbrev IsBoundary (s : String) (n : Nat) : Prop := String.Pos.Raw.IsValid s ⟨n⟩

/-- The position of byte `n` of `s`, if a character starts there or the text ends there. -/
def boundary? (s : String) (n : Nat) : Option s.Pos :=
  if h : String.Pos.Raw.IsValid s ⟨n⟩ then some ⟨⟨n⟩, h⟩ else none

/-- The part of `s` from byte `start` up to, not including, byte `stop`. -/
def slice? (s : String) (start stop : Nat) : Option String :=
  if start ≤ stop then do
    let first ← boundary? s start
    let last ← boundary? s stop
    some (String.extract first last)
  else
    none

/-- The part of `s` in a range, or nothing when the range cannot be read. -/
def slice (s : String) (start stop : Nat) : String :=
  (slice? s start stop).getD ""

/-- The text `s` with the bytes from `start` up to `stop` replaced by `new`. -/
def splice? (s : String) (start stop : Nat) (new : String) : Option String :=
  if start ≤ stop then do
    let first ← boundary? s start
    let last ← boundary? s stop
    some (String.extract s.startPos first ++ new ++ String.extract last s.endPos)
  else
    none

/-- The greatest character boundary of `s` that is at most `n`. -/
def boundaryBelow (s : String) : Nat → Nat
  | 0 => 0
  | n + 1 => if String.Pos.Raw.IsValid s ⟨n + 1⟩ then n + 1 else boundaryBelow s n

/-- The longest beginning of `s` that takes up at most `n` bytes. -/
def takeBytes (s : String) (n : Nat) : String :=
  slice s 0 (boundaryBelow s (min n s.utf8ByteSize))

/-! ### What a range holds -/

theorem boundary?_eq_some_iff {s : String} {n : Nat} {p : s.Pos} :
    boundary? s n = some p ↔ p.offset.byteIdx = n := by
  unfold boundary?
  split
  · simp only [Option.some.injEq]
    constructor
    · rintro rfl; rfl
    · rintro rfl; rfl
  · next h =>
    simp only [reduceCtorEq, false_iff]
    rintro rfl
    exact h p.isValid

/-- Two positions in order cut a text into three. -/
theorem append_extract (s : String) (p q : s.Pos) (h : p.offset.byteIdx ≤ q.offset.byteIdx) :
    String.extract s.startPos p ++ String.extract p q ++ String.extract q s.endPos = s := by
  have hq : q.offset.byteIdx ≤ s.endPos.offset.byteIdx := q.isValid.le_rawEndPos
  apply String.toByteArray_inj.1
  simp only [String.toByteArray_append, String.toByteArray_extract]
  rw [← ByteArray.extract_eq_extract_append_extract _ (by simp) h,
    ← ByteArray.extract_eq_extract_append_extract _ (by simp) hq]
  simp [← String.size_toByteArray]

theorem utf8ByteSize_extract (s : String) (p q : s.Pos) :
    (String.extract p q).utf8ByteSize = q.offset.byteIdx - p.offset.byteIdx := by
  have hq : q.offset.byteIdx ≤ s.utf8ByteSize := q.isValid.le_rawEndPos
  rw [← String.size_toByteArray, String.toByteArray_extract, ByteArray.size_extract,
    String.size_toByteArray, Nat.min_eq_left hq]

/-- Beginnings of one text that have the same size are the same text. -/
theorem append_inj {u u' v v' : String} (h : u ++ v = u' ++ v')
    (hsize : u.utf8ByteSize = u'.utf8ByteSize) : u = u' ∧ v = v' := by
  have hu : u = u' := by
    apply String.toByteArray_inj.1
    apply ByteArray.append_inj_left (by simpa using congrArg String.toByteArray h)
    simpa using hsize
  subst hu
  exact ⟨rfl, (String.append_right_inj u).1 h⟩

/-- Positions between the parts of a text read those parts back. -/
theorem extract_append {s u t v : String} {p q : s.Pos} (hs : s = u ++ t ++ v)
    (hp : p.offset.byteIdx = u.utf8ByteSize) (hq : q.offset.byteIdx = (u ++ t).utf8ByteSize) :
    String.extract s.startPos p = u ∧ String.extract p q = t ∧
      String.extract q s.endPos = v := by
  have h := (append_extract s p q (by simp [hp, hq])).trans hs
  rw [String.append_assoc, String.append_assoc] at h
  obtain ⟨hu, h⟩ := append_inj h (by simp [utf8ByteSize_extract, hp])
  obtain ⟨ht, hv⟩ := append_inj h (by simp [utf8ByteSize_extract, hp, hq])
  exact ⟨hu, ht, hv⟩

/-- A range can be read exactly when it cuts `s` into three texts; the middle one is read. -/
theorem slice?_eq_some_iff {s t : String} {start stop : Nat} :
    slice? s start stop = some t ↔
      ∃ u v, s = u ++ t ++ v ∧ u.utf8ByteSize = start ∧ (u ++ t).utf8ByteSize = stop := by
  simp only [slice?]
  constructor
  · intro h
    split at h
    · next hle =>
      simp only [Option.bind_eq_bind, Option.bind_eq_some_iff, boundary?_eq_some_iff,
        Option.some.injEq] at h
      obtain ⟨p, rfl, q, rfl, rfl⟩ := h
      refine ⟨_, _, (append_extract s p q hle).symm, by simp [utf8ByteSize_extract], ?_⟩
      simp [utf8ByteSize_extract, Nat.add_sub_cancel' hle]
    · cases h
  · rintro ⟨u, v, hs, rfl, rfl⟩
    have hp : String.Pos.Raw.IsValid s ⟨u.utf8ByteSize⟩ :=
      String.Pos.Raw.isValid_iff_exists_append.2 ⟨u, t ++ v, by rw [hs, String.append_assoc], rfl⟩
    have hq : String.Pos.Raw.IsValid s ⟨(u ++ t).utf8ByteSize⟩ :=
      String.Pos.Raw.isValid_iff_exists_append.2 ⟨u ++ t, v, hs, rfl⟩
    simp only [boundary?, dif_pos hp, dif_pos hq]
    rw [if_pos (by simp)]
    simp only [Option.bind_eq_bind, Option.bind_some, Option.some.injEq]
    exact (extract_append hs rfl rfl).2.1

/-- A range can be replaced exactly when it can be read, and nothing else changes. -/
theorem splice?_eq_some_iff {s new r : String} {start stop : Nat} :
    splice? s start stop new = some r ↔
      ∃ u t v, s = u ++ t ++ v ∧ u.utf8ByteSize = start ∧ (u ++ t).utf8ByteSize = stop ∧
        r = u ++ new ++ v := by
  simp only [splice?]
  constructor
  · intro h
    split at h
    · next hle =>
      simp only [Option.bind_eq_bind, Option.bind_eq_some_iff, boundary?_eq_some_iff,
        Option.some.injEq] at h
      obtain ⟨p, rfl, q, rfl, rfl⟩ := h
      refine ⟨_, _, _, (append_extract s p q hle).symm, by simp [utf8ByteSize_extract], ?_, rfl⟩
      simp [utf8ByteSize_extract, Nat.add_sub_cancel' hle]
    · cases h
  · rintro ⟨u, t, v, hs, rfl, rfl, rfl⟩
    have hp : String.Pos.Raw.IsValid s ⟨u.utf8ByteSize⟩ :=
      String.Pos.Raw.isValid_iff_exists_append.2 ⟨u, t ++ v, by rw [hs, String.append_assoc], rfl⟩
    have hq : String.Pos.Raw.IsValid s ⟨(u ++ t).utf8ByteSize⟩ :=
      String.Pos.Raw.isValid_iff_exists_append.2 ⟨u ++ t, v, hs, rfl⟩
    simp only [boundary?, dif_pos hp, dif_pos hq]
    rw [if_pos (by simp)]
    simp only [Option.bind_eq_bind, Option.bind_some, Option.some.injEq]
    obtain ⟨hu, -, hv⟩ := extract_append (p := ⟨_, hp⟩) (q := ⟨_, hq⟩) hs rfl rfl
    rw [hu, hv]

end Unqualify.Text
