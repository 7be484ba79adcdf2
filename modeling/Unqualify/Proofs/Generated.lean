import Unqualify.Generated
import Unqualify.Proofs.Edit.Removal

/-!
# The banner of generated files

A file whose name does not give it away is generated exactly when the bytes of the banner stand
among the first 1024 bytes of its text (`Generated.isGenerated_iff_bytes`).

The search itself is one for characters, in a beginning of the text that may be shorter: the end of
the window goes back to a character boundary first (`Text.boundaryBelow`).  Neither makes a
difference.  The bytes of one text stand in another only as whole characters
(`Text.bytes_prefix_drop_iff`), so an occurrence ends on a character boundary, and the end of the
window never goes back behind one (`Text.le_boundaryBelow`).
-/

namespace Unqualify

namespace Text

variable {s p : String} {n : Nat}

/-! ### Characters and bytes -/

theorem occursIn_eq_true_iff {pattern cs : List Char} :
    occursIn pattern cs = true ↔ pattern <:+: cs := by
  induction cs with
  | nil => simp [occursIn]
  | cons c cs ih =>
    rw [occursIn, Bool.or_eq_true, ih, List.isPrefixOf_iff_prefix, List.infix_cons_iff]

theorem infix_toList_iff : p.toList <:+: s.toList ↔ ∃ u v, s = u ++ p ++ v := by
  constructor
  · rintro ⟨a, b, hab⟩
    refine ⟨String.ofList a, String.ofList b, ?_⟩
    apply String.toList_inj.1
    simp [← hab]
  · rintro ⟨u, v, rfl⟩
    exact ⟨u.toList, v.toList, by simp⟩

/-- Where the bytes of `p` stand in `s`, they are cut out as an array. -/
theorem extract_eq_of_prefix_drop {i : Nat} (h : bytes p <+: (bytes s).drop i) :
    s.toByteArray.extract i (i + p.utf8ByteSize) = p.toByteArray := by
  apply ByteArray.ext
  apply Array.toList_inj.1
  have hcut : (s.toByteArray.extract i (i + p.utf8ByteSize)).data.toList =
      ((bytes s).drop i).take (bytes p).length := by
    rw [ByteArray.data_extract, Array.toList_extract, length_bytes, List.extract_eq_take_drop,
      Nat.add_sub_cancel_left]
    rfl
  rw [hcut]
  exact (List.prefix_iff_eq_take.1 h).symm

/-- **Bytes of a text stand in another one as whole characters.**  Wherever the bytes of `p` are
found among those of `s`, the text `p` itself stands there. -/
theorem bytes_prefix_drop_iff {i : Nat} (hp : p ≠ "") :
    bytes p <+: (bytes s).drop i ↔ ∃ u v, s = u ++ p ++ v ∧ u.utf8ByteSize = i := by
  constructor
  · intro h
    have hpos : p.utf8ByteSize ≠ 0 := fun hzero => hp (String.utf8ByteSize_eq_zero_iff.1 hzero)
    have hle : i + p.utf8ByteSize ≤ s.utf8ByteSize := by
      have hlength := h.length_le
      rw [List.length_drop, length_bytes, length_bytes] at hlength
      omega
    have hextract := extract_eq_of_prefix_drop h
    -- bytes that are a text by themselves are cut out at boundaries
    have hvalid := p.isValidUTF8
    rw [← hextract] at hvalid
    rcases (String.Pos.Raw.isValidUTF8_extract_iff ⟨i⟩ ⟨i + p.utf8ByteSize⟩
      (by simp [String.Pos.Raw.le_iff]) (by simpa [String.Pos.Raw.le_iff] using hle)).1 hvalid
      with heq | ⟨hstart, hstop⟩
    · have := congrArg String.Pos.Raw.byteIdx heq
      simp only at this
      omega
    · let first : s.Pos := ⟨⟨i⟩, hstart⟩
      let last : s.Pos := ⟨⟨i + p.utf8ByteSize⟩, hstop⟩
      have hmiddle : String.extract first last = p := by
        apply String.toByteArray_inj.1
        rw [String.toByteArray_extract]
        exact hextract
      refine ⟨String.extract s.startPos first, String.extract last s.endPos, ?_, ?_⟩
      · rw [← hmiddle]
        exact (append_extract s first last (Nat.le_add_right _ _)).symm
      · simp [utf8ByteSize_extract, first]
  · rintro ⟨u, v, rfl, rfl⟩
    simp

/-! ### The end of the window -/

/-- The way back ends on a boundary. -/
theorem isBoundary_boundaryBelow (s : String) (n : Nat) : IsBoundary s (boundaryBelow s n) := by
  fun_induction boundaryBelow s n with
  | case1 => exact String.Pos.Raw.isValid_zero
  | case2 n h => exact h
  | case3 n _ ih => exact ih

theorem boundaryBelow_le (s : String) (n : Nat) : boundaryBelow s n ≤ n := by
  fun_induction boundaryBelow s n with
  | case1 => exact Nat.le_refl 0
  | case2 n _ => exact Nat.le_refl _
  | case3 n _ ih => exact Nat.le_succ_of_le ih

/-- The way back passes no boundary. -/
theorem le_boundaryBelow {b : Nat} (hb : IsBoundary s b) (hle : b ≤ n) :
    b ≤ boundaryBelow s n := by
  fun_induction boundaryBelow s n with
  | case1 => exact hle
  | case2 n _ => exact hle
  | case3 n hn ih =>
    refine ih (Nat.lt_succ_iff.1 (Nat.lt_of_le_of_ne hle ?_))
    rintro rfl
    exact hn hb

/-- The beginning of a text that fits into some bytes ends where the way back from there does. -/
theorem exists_takeBytes_append (s : String) (n : Nat) :
    ∃ rest, s = takeBytes s n ++ rest ∧
      (takeBytes s n).utf8ByteSize = boundaryBelow s (min n s.utf8ByteSize) := by
  obtain ⟨u, t, v, hs, hu, ht⟩ := exists_split (Nat.zero_le _) String.Pos.Raw.isValid_zero
    (isBoundary_boundaryBelow s (min n s.utf8ByteSize))
  have htake : takeBytes s n = t := by
    rw [takeBytes, slice, slice?_eq_some_iff.2 ⟨u, v, hs, hu, ht⟩, Option.getD_some]
  obtain rfl := String.utf8ByteSize_eq_zero_iff.1 hu
  rw [String.empty_append] at hs ht
  exact ⟨v, by rw [htake, hs], by rw [htake, ht]⟩

end Text

namespace Generated

variable {text : String}

/-- Where the search for a banner ends: at the last character boundary of the window. -/
def windowEnd (text : String) : Nat :=
  Text.boundaryBelow text (min bannerWindow text.utf8ByteSize)

theorem windowEnd_le (text : String) : windowEnd text ≤ bannerWindow :=
  Nat.le_trans (Text.boundaryBelow_le _ _) (Nat.min_le_left _ _)

/-- A beginning of the text fits into the window exactly when it ends before the search does. -/
theorem size_le_bannerWindow_iff {u v : String} (h : text = u ++ v) :
    u.utf8ByteSize ≤ bannerWindow ↔ u.utf8ByteSize ≤ windowEnd text := by
  constructor
  · intro hle
    have hboundary : Text.IsBoundary text u.utf8ByteSize :=
      String.Pos.Raw.isValid_iff_exists_append.2 ⟨u, v, h, rfl⟩
    have hsize : u.utf8ByteSize ≤ text.utf8ByteSize := by simp [h]
    exact Text.le_boundaryBelow hboundary (Nat.le_min.2 ⟨hle, hsize⟩)
  · intro hle
    exact Nat.le_trans hle (windowEnd_le text)

theorem hasBanner_eq_true_iff :
    hasBanner text = true ↔
      ∃ u v, text = u ++ banner ++ v ∧ (u ++ banner).utf8ByteSize ≤ bannerWindow := by
  obtain ⟨rest, hrest, hsize⟩ := Text.exists_takeBytes_append text bannerWindow
  rw [hasBanner, Text.occursIn_eq_true_iff, Text.infix_toList_iff]
  constructor
  · rintro ⟨u, v, htake⟩
    refine ⟨u, v ++ rest, ?_, ?_⟩
    · rw [← String.append_assoc, ← htake]
      exact hrest
    · have hle : (u ++ banner).utf8ByteSize ≤ (Text.takeBytes text bannerWindow).utf8ByteSize := by
        simp [htake]
      rw [hsize] at hle
      exact Nat.le_trans hle (windowEnd_le text)
  · rintro ⟨u, v, htext, hle⟩
    -- the banner ends on a boundary of the window, so it lies in what is searched
    have hin := (size_le_bannerWindow_iff htext).1 hle
    rw [windowEnd, ← hsize] at hin
    obtain ⟨x, hx, -⟩ := Text.exists_append_of_le (htext.symm.trans hrest) hin
    exact ⟨u, x, hx⟩

/-- The bytes of the banner stand in a text from an offset on. -/
def BannerAt (text : String) (offset : Nat) : Prop :=
  Text.bytes "<auto-generated" <+: (Text.bytes text).drop offset

theorem bannerAt_iff {offset : Nat} :
    BannerAt text offset ↔ ∃ u v, text = u ++ banner ++ v ∧ u.utf8ByteSize = offset :=
  Text.bytes_prefix_drop_iff (by decide)

theorem hasEnding_eq_false_iff {name : String} :
    hasEnding name = false ↔
      ∀ ending ∈ endings, ¬ ending.toList <:+ name.toList.map Char.toLower := by
  simp [hasEnding, Text.endsWith, List.isSuffixOf_iff_suffix]

/-- **The banner counts exactly when its bytes stand among the first 1024.**  Take a path whose file
name, in lower case, has none of the endings.  The file is generated if and only if the 15 bytes of
the banner stand somewhere in the text and end at byte 1024 at the latest.  The search ends on a
character boundary, reads the text up to there, and cuts no banner off that the window holds. -/
theorem isGenerated_iff_bytes (path : String)
    (hname : ∀ name ∈ Path.fileName? path, ∀ ending ∈ endings,
      ¬ ending.toList <:+ name.toList.map Char.toLower) (text : String) :
    (isGenerated path text = true ↔ ∃ offset, offset + 15 ≤ 1024 ∧ BannerAt text offset) ∧
      Text.IsBoundary text (windowEnd text) ∧
      Text.slice? text 0 (windowEnd text) = some (Text.takeBytes text 1024) ∧
      ∀ offset, BannerAt text offset →
        (offset + 15 ≤ 1024 ↔ offset + 15 ≤ windowEnd text) := by
  have hsize (u : String) : (u ++ banner).utf8ByteSize = u.utf8ByteSize + 15 :=
    String.utf8ByteSize_append
  have hunnamed : (Path.fileName? path).any hasEnding = false := by
    cases hfile : Path.fileName? path with
    | none => rfl
    | some name => exact hasEnding_eq_false_iff.2 (hname name hfile)
  refine ⟨?_, Text.isBoundary_boundaryBelow _ _, ?_, ?_⟩
  · rw [isGenerated, hunnamed, Bool.false_or, hasBanner_eq_true_iff]
    constructor
    · rintro ⟨u, v, htext, hle⟩
      rw [hsize] at hle
      exact ⟨u.utf8ByteSize, hle, bannerAt_iff.2 ⟨u, v, htext, rfl⟩⟩
    · rintro ⟨offset, hle, hbanner⟩
      obtain ⟨u, v, htext, rfl⟩ := bannerAt_iff.1 hbanner
      exact ⟨u, v, htext, by rw [hsize]; exact hle⟩
  · obtain ⟨rest, hrest, hend⟩ := Text.exists_takeBytes_append text bannerWindow
    refine Text.slice?_eq_some_iff.2 ⟨"", rest, ?_, rfl, ?_⟩
    · rw [String.empty_append]
      exact hrest
    · rw [String.empty_append]
      exact hend
  · intro offset hbanner
    obtain ⟨u, v, htext, rfl⟩ := bannerAt_iff.1 hbanner
    have hfits := size_le_bannerWindow_iff htext
    rw [hsize] at hfits
    exact hfits

/-- A text in which the last character of the window lies across its end, right after a banner. -/
def straddledText : String := String.ofList (List.replicate 1008 ' ') ++ banner ++ "é>"

/-- The window ends inside a character, so the search ends one byte earlier, which is where the
banner ends: it is found. -/
theorem straddled_banner_found :
    ¬ Text.IsBoundary straddledText 1024 ∧ BannerAt straddledText 1008 ∧
      isGenerated "src/Api.cs" straddledText = true ∧ windowEnd straddledText = 1023 := by
  have hcut : ¬ Text.IsBoundary straddledText 1024 := by decide +kernel
  have hbanner : BannerAt straddledText 1008 := bannerAt_iff.2 ⟨_, _, rfl, by decide +kernel⟩
  obtain ⟨hiff, hend, -, hkept⟩ :=
    isGenerated_iff_bytes "src/Api.cs" (by decide +kernel) straddledText
  have hle := windowEnd_le straddledText
  have hge := (hkept 1008 hbanner).1 (by decide)
  have hne : windowEnd straddledText ≠ 1024 := fun h => hcut (h ▸ hend)
  refine ⟨hcut, hbanner, hiff.2 ⟨1008, by decide, hbanner⟩, ?_⟩
  have hwindow : bannerWindow = 1024 := rfl
  omega

end Generated

end Unqualify
