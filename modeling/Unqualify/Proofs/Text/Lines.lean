import Unqualify.Text.Lines
import Unqualify.Proofs.Edit.Removal
import Mathlib.Data.List.Induction

/-!
# Lines and positions

A text is cut at an offset, and the line that the offset lies in is what stands around the cut
between two newlines (`Text.LineAt`).  Three things are read off a text in different ways and agree
on it (`Text.exists_line`): the position of the offset, counted from the newlines in front of it
(`Text.positionIn_lineStarts`), the line of that number (`Text.getElem?_lines`), and what the text
goes on with behind the cut, up to the next line break (`Text.firstLine_prefix`).

A carriage return belongs to the line break if a newline follows it.  So a line is shorter than what
stands between two newlines when it ends in one, and the cut may lie behind the end of its line.
-/

namespace Unqualify.Text

/-! ### Sizes -/

/-- The number of bytes that characters take up. -/
def size (cs : List Char) : Nat := (String.ofList cs).utf8ByteSize

@[simp] theorem size_nil : size [] = 0 := rfl

@[simp] theorem size_append (cs ds : List Char) : size (cs ++ ds) = size cs + size ds := by
  rw [size, String.ofList_append, String.utf8ByteSize_append]
  rfl

@[simp] theorem size_cons (c : Char) (cs : List Char) : size (c :: cs) = c.utf8Size + size cs := by
  have hone : size [c] = c.utf8Size := by
    rw [size, ← String.singleton_eq_ofList, String.utf8ByteSize_singleton]
  rw [← List.singleton_append, size_append, hone]

theorem size_toList (s : String) : size s.toList = s.utf8ByteSize := by
  rw [size, String.ofList_toList]

/-- Every character takes up a byte. -/
theorem length_le_size (cs : List Char) : cs.length ≤ size cs := by
  induction cs with
  | nil => exact Nat.le_refl 0
  | cons c cs ih =>
    have hsize := c.utf8Size_pos
    rw [List.length_cons, size_cons]
    omega

theorem utf8Size_newline : '\n'.utf8Size = 1 := rfl

/-! ### Positions -/

theorem lt_of_mem_breaksFrom {offset b : Nat} {cs : List Char} (h : b ∈ breaksFrom offset cs) :
    offset < b := by
  induction cs generalizing offset with
  | nil => cases h
  | cons c cs ih =>
    have hsize := c.utf8Size_pos
    rw [breaksFrom] at h
    split_ifs at h
    · rcases List.mem_cons.1 h with rfl | h
      · omega
      · have := ih h
        omega
    · have := ih h
      omega

theorem breaksFrom_append {front : List Char} (h : '\n' ∉ front) (offset : Nat)
    (rest : List Char) :
    breaksFrom offset (front ++ rest) = breaksFrom (offset + size front) rest := by
  induction front generalizing offset with
  | nil => rfl
  | cons c front ih =>
    obtain ⟨hc, hfront⟩ := not_or.1 (mt List.mem_cons.2 h)
    rw [List.cons_append, breaksFrom, if_neg (Ne.symm hc), ih hfront, size_cons, Nat.add_assoc]

theorem positionAfter_of_lt {line start offset : Nat} {starts : List Nat}
    (h : ∀ next ∈ starts, offset < next) :
    positionAfter line start offset starts = { line, column := offset - start + 1 } := by
  cases starts with
  | nil => rfl
  | cons next starts => exact if_neg (Nat.not_le_of_lt (h next List.mem_cons_self))

/-- The newlines in front of an offset are passed one by one. -/
theorem positionAfter_breaksFrom {line start offset first number next : Nat}
    {above rest : List Char} (hnumber : number = line + above.count '\n' + 1)
    (hnext : next = first + size above + 1) (hle : next ≤ offset) :
    positionAfter line start offset (breaksFrom first (above ++ '\n' :: rest)) =
      positionAfter number next offset (breaksFrom next rest) := by
  induction above generalizing line start first with
  | nil =>
    obtain rfl : next = first + 1 := hnext
    obtain rfl : number = line + 1 := hnumber
    rw [List.nil_append, breaksFrom, if_pos rfl, positionAfter, if_pos hle]
  | cons c above ih =>
    rw [List.cons_append, breaksFrom]
    rw [size_cons] at hnext
    by_cases hc : c = '\n'
    · rw [hc, List.count_cons_self] at hnumber
      rw [hc, utf8Size_newline] at hnext
      rw [if_pos hc, positionAfter, if_pos (by omega)]
      exact ih (by omega) (by omega)
    · rw [List.count_cons_of_ne hc] at hnumber
      rw [if_neg hc]
      exact ih hnumber (by omega)

/-- What stands above a line: nothing, or something that ends with a newline. -/
def EndsLine (above : List Char) : Prop := above = [] ∨ ∃ cs, above = cs ++ ['\n']

/-- **The position of an offset** counts the newlines in front of it, and the bytes since the last
one. -/
theorem positionIn_lineStarts {text : String} {above front rest : List Char}
    (htext : text.toList = above ++ front ++ rest) (habove : EndsLine above)
    (hfront : '\n' ∉ front) :
    positionIn (lineStarts text) (size (above ++ front)) =
      { line := above.count '\n' + 1, column := size front + 1 } := by
  -- with the last newline passed, all others lie behind the offset
  have hlast (line first : Nat) (offset : Nat) (hoffset : offset = first + size front) :
      positionAfter line first offset (breaksFrom first (front ++ rest)) =
        { line, column := size front + 1 } := by
    subst hoffset
    rw [breaksFrom_append hfront, positionAfter_of_lt fun _ => lt_of_mem_breaksFrom,
      Nat.add_sub_cancel_left]
  rw [positionIn, lineStarts, positionAfter, if_pos (Nat.zero_le _), htext, List.append_assoc]
  rcases habove with rfl | ⟨cs, rfl⟩
  · exact hlast 1 0 _ (by simp)
  · have hnumber : cs.count '\n' + 1 + 1 = 0 + 1 + cs.count '\n' + 1 := by omega
    have hnext : size cs + 1 = 0 + size cs + 1 := by omega
    have hsize : size (cs ++ ['\n'] ++ front) = size cs + 1 + size front := by
      simp [utf8Size_newline, Nat.add_assoc]
    have happend : cs ++ ['\n'] ++ (front ++ rest) = cs ++ '\n' :: (front ++ rest) := by simp
    rw [happend, positionAfter_breaksFrom hnumber hnext (by omega), List.count_append,
      List.count_singleton_self]
    exact hlast _ _ _ hsize

/-! ### Lines -/

theorem chomp_append {cs : List Char} (h : cs ≠ []) (front : List Char) :
    chomp (front ++ cs) = front ++ chomp cs := by
  obtain ⟨init, last, rfl⟩ := (List.eq_nil_or_concat' cs).resolve_left h
  rw [← List.append_assoc, chomp, chomp, List.getLast?_concat, List.getLast?_concat,
    List.dropLast_concat, List.dropLast_concat]
  split <;> simp_all

theorem chomp_eq_self {cs : List Char} (h : cs.getLast? ≠ some '\r') : chomp cs = cs := by
  rw [chomp]
  split
  · next hlast => exact absurd hlast h
  · rfl

theorem chomp_concat (cs : List Char) : chomp (cs ++ ['\r']) = cs := by
  simp [chomp]

theorem linesFrom_cons {c : Char} (h : c ≠ '\n') (line cs : List Char) :
    linesFrom line (c :: cs) = linesFrom (c :: line) cs := by
  rw [linesFrom]
  exact h

/-- A line ends at the next newline. -/
theorem linesFrom_append_newline {tail : List Char} (h : '\n' ∉ tail) (line rest : List Char) :
    linesFrom line (tail ++ '\n' :: rest) = chomp (line.reverse ++ tail) :: linesFrom [] rest := by
  induction tail generalizing line with
  | nil => rw [List.nil_append, linesFrom, List.append_nil]
  | cons c tail ih =>
    obtain ⟨hc, htail⟩ := not_or.1 (mt List.mem_cons.2 h)
    rw [List.cons_append, linesFrom_cons (Ne.symm hc), ih htail, List.reverse_cons,
      List.append_assoc, List.singleton_append]

/-- The last line ends with the text. -/
theorem linesFrom_of_not_mem {tail : List Char} (h : '\n' ∉ tail) {line : List Char}
    (hne : line.reverse ++ tail ≠ []) : linesFrom line tail = [line.reverse ++ tail] := by
  induction tail generalizing line with
  | nil =>
    rw [List.append_nil] at hne ⊢
    rw [linesFrom, if_neg (by simpa using hne)]
  | cons c tail ih =>
    obtain ⟨hc, htail⟩ := not_or.1 (mt List.mem_cons.2 h)
    rw [linesFrom_cons (Ne.symm hc), ih htail (by simp), List.reverse_cons, List.append_assoc,
      List.singleton_append]

/-- Above a line there are as many lines as newlines. -/
theorem exists_linesFrom_append (line above rest : List Char) :
    ∃ ls, ls.length = above.count '\n' + 1 ∧
      linesFrom line (above ++ '\n' :: rest) = ls ++ linesFrom [] rest := by
  induction above generalizing line with
  | nil => exact ⟨[chomp line.reverse], rfl, rfl⟩
  | cons c above ih =>
    by_cases hc : c = '\n'
    · subst hc
      obtain ⟨ls, hlength, hlines⟩ := ih []
      refine ⟨chomp line.reverse :: ls, ?_, ?_⟩
      · rw [List.length_cons, hlength, List.count_cons_self]
      · rw [List.cons_append, linesFrom, hlines, List.cons_append]
    · obtain ⟨ls, hlength, hlines⟩ := ih (c :: line)
      refine ⟨ls, ?_, ?_⟩
      · rw [hlength, List.count_cons_of_ne hc]
      · rw [List.cons_append, linesFrom_cons hc, hlines]

theorem getElem?_linesFrom {above : List Char} (h : EndsLine above) (rest : List Char) :
    (linesFrom [] (above ++ rest))[above.count '\n']? = (linesFrom [] rest)[0]? := by
  rcases h with rfl | ⟨cs, rfl⟩
  · rfl
  · obtain ⟨ls, hlength, hlines⟩ := exists_linesFrom_append [] cs rest
    rw [List.append_assoc, List.singleton_append, hlines, List.count_append,
      List.count_singleton_self, ← hlength, List.getElem?_append_right (Nat.le_refl _),
      Nat.sub_self]

/-! ### The line at an offset -/

/-- The line that ends in front of `after`: a carriage return at its end belongs to the line break,
if there is one. -/
def lineBefore (after raw : List Char) : List Char := if after = [] then raw else chomp raw

/-- Behind a line comes a newline, or nothing. -/
def StartsBreak (after : List Char) : Prop := after = [] ∨ ∃ cs, after = '\n' :: cs

theorem exists_endsLine (cs : List Char) :
    ∃ above front, cs = above ++ front ∧ EndsLine above ∧ '\n' ∉ front := by
  induction cs using List.reverseRecOn with
  | nil => exact ⟨[], [], rfl, Or.inl rfl, by simp⟩
  | append_singleton cs c ih =>
    obtain ⟨above, front, rfl, habove, hfront⟩ := ih
    by_cases hc : c = '\n'
    · exact ⟨above ++ front ++ [c], [], by simp, Or.inr ⟨above ++ front, by rw [hc]⟩, by simp⟩
    · refine ⟨above, front ++ [c], by simp, habove, ?_⟩
      rw [List.mem_append, List.mem_singleton, not_or]
      exact ⟨hfront, Ne.symm hc⟩

theorem exists_startsBreak (cs : List Char) :
    ∃ tail after, cs = tail ++ after ∧ StartsBreak after ∧ '\n' ∉ tail := by
  by_cases h : '\n' ∈ cs
  · obtain ⟨tail, below, rfl, htail⟩ := List.eq_append_cons_of_mem h
    exact ⟨tail, '\n' :: below, rfl, Or.inr ⟨below, rfl⟩, htail⟩
  · exact ⟨cs, [], by simp, Or.inl rfl, h⟩

/-- **The line of a number** is what stands between two newlines, without the carriage return of its
line break. -/
theorem getElem?_lines {text : String} {above raw after : List Char}
    (htext : text.toList = above ++ (raw ++ after)) (habove : EndsLine above)
    (hafter : StartsBreak after) (hraw : '\n' ∉ raw) (hne : raw ++ after ≠ []) :
    (lines text)[above.count '\n']? = some (String.ofList (lineBefore after raw)) := by
  have hfirst : (linesFrom [] (raw ++ after))[0]? = some (lineBefore after raw) := by
    rcases hafter with rfl | ⟨below, rfl⟩
    · rw [List.append_nil] at hne ⊢
      rw [linesFrom_of_not_mem hraw (by simpa using hne)]
      rfl
    · rw [linesFrom_append_newline hraw]
      rfl
  rw [lines, List.getElem?_map, htext, getElem?_linesFrom habove, hfirst, Option.map_some]

/-- The line of a text that an offset lies in, cut out together with the break that ends it. -/
structure LineAt (text : String) (offset : Nat) (above line ending below : String) : Prop where
  /-- The line is a part of the text. -/
  text_eq : text = above ++ line ++ ending ++ below
  /-- It starts the text, or after a newline. -/
  above_ends : EndsLine above.toList
  /-- It holds no newline. -/
  noNewline : '\n' ∉ line.toList
  /-- It is ended by a newline, together with a carriage return in front of it, or by the text. -/
  ends : ending = "\n" ∧ line.toList.getLast? ≠ some '\r' ∨ ending = "\r\n" ∨
    ending = "" ∧ below = ""
  /-- The offset does not lie above the line. -/
  start_le : above.utf8ByteSize ≤ offset
  /-- The offset does not lie below the line. -/
  lt_stop : offset < (above ++ line ++ ending).utf8ByteSize

/-- The break that ends a line takes what the line leaves of the carriage return. -/
theorem exists_ending (raw : List Char) {after : List Char} (hafter : StartsBreak after) :
    ∃ ending below : String,
      raw ++ after = lineBefore after raw ++ ending.toList ++ below.toList ∧
      (ending = "\n" ∧ (lineBefore after raw).getLast? ≠ some '\r' ∨ ending = "\r\n" ∨
        ending = "" ∧ below = "") ∧
      size raw ≤ size (lineBefore after raw) + ending.utf8ByteSize ∧
      (after ≠ [] → size raw < size (lineBefore after raw) + ending.utf8ByteSize) := by
  rcases hafter with rfl | ⟨cs, rfl⟩
  · exact ⟨"", "", by simp [lineBefore], Or.inr (Or.inr ⟨rfl, rfl⟩), by simp [lineBefore], by simp⟩
  · have hline : lineBefore ('\n' :: cs) raw = chomp raw := if_neg (List.cons_ne_nil _ _)
    rw [hline]
    by_cases hlast : raw.getLast? = some '\r'
    · obtain ⟨init, rfl⟩ : ∃ init, raw = init ++ ['\r'] := by
        obtain ⟨init, last, rfl⟩ := (List.eq_nil_or_concat' raw).resolve_left
          (by rintro rfl; cases hlast)
        rw [List.getLast?_concat, Option.some.injEq] at hlast
        exact ⟨init, by rw [hlast]⟩
      have hsize : '\r'.utf8Size = 1 := rfl
      have hending : "\r\n".utf8ByteSize = 2 := rfl
      rw [chomp_concat]
      refine ⟨"\r\n", String.ofList cs, by simp, Or.inr (Or.inl rfl), ?_, fun _ => ?_⟩ <;>
        simp [hsize, hending]
    · have hending : "\n".utf8ByteSize = 1 := rfl
      rw [chomp_eq_self hlast]
      refine ⟨"\n", String.ofList cs, by simp, Or.inl ⟨rfl, hlast⟩, by simp, fun _ => ?_⟩
      simp [hending]

theorem mem_of_mem_lineBefore {after raw : List Char} {c : Char} (h : c ∈ lineBefore after raw) :
    c ∈ raw := by
  rw [lineBefore] at h
  split_ifs at h
  · exact h
  · rw [chomp] at h
    split at h
    · exact (List.dropLast_sublist raw).subset h
    · exact h

/-- A text that is cut at an offset, and in front of and behind it at the next newlines, shows the
line that the offset lies in. -/
theorem exists_lineAt {text : String} {above front tail after : List Char}
    (htext : text.toList = above ++ (front ++ tail ++ after)) (habove : EndsLine above)
    (hafter : StartsBreak after) (hraw : '\n' ∉ front ++ tail) (hne : tail ++ after ≠ []) :
    ∃ ending below, LineAt text (size (above ++ front)) (String.ofList above)
      (String.ofList (lineBefore after (front ++ tail))) ending below := by
  obtain ⟨ending, below, hsplit, hends, hle, hlt⟩ := exists_ending (front ++ tail) hafter
  refine ⟨ending, below, ?_⟩
  exact {
    text_eq := by
      rw [← String.toList_inj, htext, hsplit]
      simp
    above_ends := by rwa [String.toList_ofList]
    noNewline := by
      rw [String.toList_ofList]
      exact fun h => hraw (mem_of_mem_lineBefore h)
    ends := by rwa [String.toList_ofList]
    start_le := by
      rw [size_append]
      exact Nat.le_add_right _ _
    lt_stop := by
      rw [size_append] at *
      simp only [String.utf8ByteSize_append]
      change size above + size front < size above + size (lineBefore after (front ++ tail)) + _
      by_cases hnil : after = []
      · have hpos : 0 < tail.length := List.length_pos_iff.2 (by simpa [hnil] using hne)
        have hsize := length_le_size tail
        omega
      · have := hlt hnil
        omega }

/-- The lines of a text are told apart by the number of newlines above them. -/
theorem LineAt.above_eq {text : String} {offset offset' : Nat}
    {above line ending below above' line' ending' below' : String}
    (h : LineAt text offset above line ending below)
    (h' : LineAt text offset' above' line' ending' below')
    (hcount : above.toList.count '\n' = above'.toList.count '\n') : above = above' := by
  have hmore {a a' x : List Char} (ha' : EndsLine a') (hx : a' = a ++ x)
      (hcount : a.count '\n' = a'.count '\n') : x = [] := by
    rw [hx, List.count_append] at hcount
    have hnone : '\n' ∉ x := List.count_eq_zero.1 (by omega)
    rcases List.eq_nil_or_concat' x with rfl | ⟨init, last, rfl⟩
    · rfl
    · rcases ha' with rfl | ⟨cs, rfl⟩
      · simp at hx
      · rw [← List.append_assoc] at hx
        obtain ⟨-, hlast⟩ := List.append_inj' hx rfl
        rw [← hlast] at hnone
        simp at hnone
  have htext : above.toList ++ (line ++ ending ++ below).toList =
      above'.toList ++ (line' ++ ending' ++ below').toList := by
    rw [← String.toList_append, ← String.toList_append]
    simpa [String.append_assoc] using congrArg String.toList (h.text_eq.symm.trans h'.text_eq)
  rw [← String.toList_inj]
  rcases List.append_eq_append_iff.1 htext with ⟨x, hx, -⟩ | ⟨x, hx, -⟩
  · rw [hx, hmore h'.above_ends hx hcount, List.append_nil]
  · rw [hx, hmore h.above_ends hx hcount.symm, List.append_nil]

/-! ### The first line of a part -/

/-- The part of a text before its first line break. -/
def firstLine (s : String) : String :=
  if '\n' ∈ s.toList then String.ofList (chomp (s.toList.takeWhile (· ≠ '\n'))) else s

theorem takeWhile_append_of_startsBreak {tail after : List Char} (htail : '\n' ∉ tail)
    (hafter : StartsBreak after) : (tail ++ after).takeWhile (· ≠ '\n') = tail := by
  have hall : ∀ c ∈ tail, decide (c ≠ '\n') = true := by
    intro c hc
    rw [decide_eq_true_eq]
    rintro rfl
    exact htail hc
  rw [List.takeWhile_append_of_pos hall]
  rcases hafter with rfl | ⟨cs, rfl⟩ <;> simp

/-- **A part of a text goes on, up to its first line break, as the line does that it starts in.**
It must not end with a carriage return, which could belong to a line break of the text. -/
theorem firstLine_prefix {front tail after more : List Char} {part : String}
    (hrest : tail ++ after = part.toList ++ more) (hafter : StartsBreak after)
    (htail : '\n' ∉ tail) (hne : part ≠ "") (hlast : part.toList.getLast? ≠ some '\r') :
    bytes (firstLine part) <+:
      (bytes (String.ofList (lineBefore after (front ++ tail)))).drop (size front) := by
  have hdrop {part : String} {x : List Char}
      (h : lineBefore after (front ++ tail) = front ++ (part.toList ++ x)) :
      bytes part <+:
        (bytes (String.ofList (lineBefore after (front ++ tail)))).drop (size front) := by
    rw [h, String.ofList_append, String.ofList_append, String.ofList_toList, bytes_append,
      bytes_append, List.drop_left' (by rw [length_bytes]; rfl)]
    exact List.prefix_append _ _
  have htake := takeWhile_append_of_startsBreak htail hafter
  rw [hrest] at htake
  by_cases hmem : '\n' ∈ part.toList
  · -- the line break of the part is the one that ends the line
    have hfirst : part.toList.takeWhile (· ≠ '\n') = tail := by
      obtain ⟨init, rest, hpart, hinit⟩ := List.eq_append_cons_of_mem hmem
      rw [← htake, hpart, List.append_assoc, List.cons_append,
        takeWhile_append_of_startsBreak hinit (Or.inr ⟨_, rfl⟩),
        takeWhile_append_of_startsBreak hinit (Or.inr ⟨_, rfl⟩)]
    have hbreak : after ≠ [] := by
      rintro rfl
      rw [List.append_nil] at hrest
      exact htail (hrest ▸ List.mem_append_left more hmem)
    rw [firstLine, if_pos hmem, hfirst]
    by_cases hnil : tail = []
    · rw [hnil]
      exact List.nil_prefix
    · refine hdrop (x := []) ?_
      rw [lineBefore, if_neg hbreak, chomp_append hnil, String.toList_ofList, List.append_nil]
  · have hall : ∀ c ∈ part.toList, decide (c ≠ '\n') = true := by
      intro c hc
      rw [decide_eq_true_eq]
      rintro rfl
      exact hmem hc
    rw [List.takeWhile_append_of_pos hall] at htake
    rw [firstLine, if_neg hmem]
    generalize more.takeWhile (· ≠ '\n') = rest at htake
    subst htake
    by_cases hnil : rest = []
    · refine hdrop (x := []) ?_
      have hne' : part.toList ≠ [] := by simpa using hne
      rw [hnil, List.append_nil, lineBefore]
      split_ifs
      · rfl
      · rw [chomp_append hne', chomp_eq_self hlast]
    · refine hdrop (x := lineBefore after rest) ?_
      rw [lineBefore, lineBefore]
      split_ifs
      · rfl
      · rw [← List.append_assoc, chomp_append hnil, List.append_assoc]

/-! ### The line of a part -/

/-- **The line that a part of a text starts in** is the one that its position counts: the part
starts in it, at the column, and the line goes on there as the part does. -/
theorem exists_line {text before part after : String} (htext : text = before ++ part ++ after)
    (hne : part ≠ "") :
    ∃ above line ending below, LineAt text before.utf8ByteSize above line ending below ∧
      (lines text)[above.toList.count '\n']? = some line ∧
      ∃ column, above.utf8ByteSize + column = before.utf8ByteSize ∧
        positionIn (lineStarts text) before.utf8ByteSize =
          { line := above.toList.count '\n' + 1, column := column + 1 } ∧
        (part.toList.getLast? ≠ some '\r' →
          bytes (firstLine part) <+: (bytes line).drop column) := by
  -- the text is cut at the start of the part, and at the newlines around it
  obtain ⟨above, front, hbefore, habove, hfront⟩ := exists_endsLine before.toList
  obtain ⟨tail, rest, hrest, hbreak, htail⟩ := exists_startsBreak (part ++ after).toList
  have hcut : text.toList = above ++ (front ++ tail ++ rest) := by
    rw [htext, String.append_assoc, String.toList_append, hbefore, hrest]
    simp only [List.append_assoc]
  have hsize : before.utf8ByteSize = size (above ++ front) := by rw [← hbefore, size_toList]
  have hraw : '\n' ∉ front ++ tail := by
    rw [List.mem_append, not_or]
    exact ⟨hfront, htail⟩
  have hmore : tail ++ rest ≠ [] := by
    rw [← hrest]
    simp [hne]
  obtain ⟨ending, below, hat⟩ := exists_lineAt hcut habove hbreak hraw hmore
  refine ⟨_, _, ending, below, by rwa [hsize], ?_, size front, ?_, ?_, fun hlast => ?_⟩
  · rw [String.toList_ofList]
    exact getElem?_lines hcut habove hbreak hraw (by simpa using fun _ => hmore)
  · rw [hsize, size_append]
    rfl
  · rw [hsize, String.toList_ofList]
    exact positionIn_lineStarts (by simpa using hcut) habove hfront
  · exact firstLine_prefix (by rw [← hrest, String.toList_append]) hbreak htail hne hlast

end Unqualify.Text
