import Unqualify.Proofs.Name
import Unqualify.Proofs.Using.Layout

/-!
# Directives are read by their tokens

A directive is a list of tokens (`Using.Directive`), and a text is a way to lay them out
(`Using.Layout`).  Reading works on the text: it trims, takes off the words at the beginning, cuts
at the first equals sign and drops the blanks of what is left.

* `Using.parse?_text` says that all this comes to the meaning of the tokens;
* so the layout does not matter (`Using.parse?_layout_irrelevant`);
* and a directive for a dotted path gives that path (`Using.directives_read_back`).

There is one condition on the layout.  A modifier is taken off together with a plain space behind
it (`Using.Layout.SpacesModifiers`), while every other word may have any blank there.  With a tab or
a line break behind it, the modifier is left as the beginning of the path.
-/

namespace Unqualify

namespace Using

open Text (isBlank trim trimStart squeeze)

/-! ### Directives as tokens -/

/-- The words that can stand between `using` and what is imported. -/
def modifierWords : List String := ["static", "unsafe"]

/-- A word that is not a modifier. -/
def IsFree (s : String) : Prop := IsWord s ∧ s ∉ modifierWords

instance (s : String) : Decidable (IsFree s) := inferInstanceAs (Decidable (_ ∧ _))

/-- What a directive says about its target: an optional `global` before the word `using`, and
modifiers and an optional name behind it. -/
structure Heading where
  /-- Whether the directive begins with `global`. -/
  isGlobal : Bool
  /-- The modifiers. -/
  modifiers : List String
  /-- The name that is given to the target. -/
  name? : Option String
  /-- There are no other modifiers. -/
  modifiers_known : ∀ m ∈ modifiers, m ∈ modifierWords
  /-- The name is a word of its own. -/
  name_free : ∀ name ∈ name?, IsFree name

namespace Heading

/-- The tokens that give a name to the target. -/
def named (h : Heading) : List String :=
  match h.name? with
  | none => []
  | some name => [name, "="]

/-- What a directive with this heading does with a path. -/
def importing (h : Heading) (path : String) : Using :=
  match h.name? with
  | some name => .aliasOf name path
  | none => if "static" ∈ h.modifiers then .members path else .types path

end Heading

/-- A target can be any tokens but these: equals signs, semicolons and modifiers. -/
def IsTargetToken (x : String) : Prop := '=' ∉ x.toList ∧ ';' ∉ x.toList ∧ x ∉ modifierWords

instance (x : String) : Decidable (IsTargetToken x) := inferInstanceAs (Decidable (_ ∧ _ ∧ _))

/-- A directive: a heading, and the tokens of the name or the type that is imported. -/
structure Directive extends Heading where
  /-- What is imported. -/
  target : List String
  /-- Something is imported. -/
  target_ne : target ≠ []
  /-- The target is made of tokens that a target can have. -/
  target_plain : ∀ x ∈ target, IsTargetToken x

namespace Directive

/-- The tokens of a directive, up to its semicolon. -/
def tokens (d : Directive) : List String :=
  (if d.isGlobal then ["global"] else []) ++ "using" :: (d.modifiers ++ (d.named ++ d.target)) ++
    [";"]

/-- What the directive means by its tokens. -/
def meaning? (d : Directive) : Option Using :=
  let path := compactPath (joined d.target)
  if path = "" then none else some (d.importing path)

end Directive

/-- A way to lay tokens out as a text. -/
structure Layout (tokens : List String) where
  /-- The tokens with the blanks in front of them. -/
  pieces : List Piece
  /-- The blanks behind the last token. -/
  trail : List Char
  /-- The tokens are those that were given. -/
  tokens_eq : pieces.map (·.token) = tokens
  /-- Words do not run together. -/
  apart : pieces.IsChain Apart
  /-- Nothing but blanks behind the last token. -/
  trail_blank : ∀ c ∈ trail, isBlank c = true

/-- The text of a layout. -/
def Layout.text {tokens : List String} (l : Layout tokens) : String :=
  String.ofList (spell l.pieces ++ l.trail)

/-- If a token is a modifier, the blanks behind it begin with a plain space. -/
def SpaceBehind (p q : Piece) : Prop := p.token ∈ modifierWords → q.gap.head? = some ' '

/-- Behind every modifier there is a plain space. -/
def Layout.SpacesModifiers {tokens : List String} (l : Layout tokens) : Prop :=
  l.pieces.IsChain SpaceBehind

instance : DecidableRel SpaceBehind := fun _ _ => inferInstanceAs (Decidable (_ → _))

instance {tokens : List String} (l : Layout tokens) : Decidable l.SpacesModifiers :=
  inferInstanceAs (Decidable (List.IsChain _ _))

/-! ### The text without its ends -/

theorem dropSemicolons_append {cs : List Char} (h : ';' ∉ cs) :
    dropSemicolons (cs ++ [';']) = cs := by
  have hdrop : cs.reverse.dropWhile (· == ';') = cs.reverse := by
    rw [← List.mem_reverse] at h
    cases hcs : cs.reverse with
    | nil => rfl
    | cons c rest =>
      have hc : c ≠ ';' := by rintro rfl; exact h (by simp [hcs])
      exact List.dropWhile_cons_of_neg (by simpa using hc)
  rw [dropSemicolons, List.reverse_append, List.reverse_singleton, List.singleton_append,
    List.dropWhile_cons_of_pos (by simp), hdrop, List.reverse_reverse]

/-- Without the blanks and the semicolon at its end, a text is its tokens up to the semicolon. -/
theorem trim_dropSemicolons {p semi : Piece} {ps : List Piece} {trail : List Char}
    (hsemi : semi.token = ";") (hps : ∀ q ∈ p :: ps, ';' ∉ q.token.toList)
    (htrail : ∀ c ∈ trail, isBlank c = true) :
    trim (dropSemicolons (trim (spell (p :: ps ++ [semi]) ++ trail))) =
      p.token.toList ++ spell ps := by
  have hblank : isBlank ';' = false := by decide
  have hfree : ';' ∉ p.token.toList ++ spell ps ++ semi.gap := by
    simp only [List.mem_append, not_or]
    refine ⟨⟨hps p List.mem_cons_self, fun hmem => ?_⟩, fun hmem => ?_⟩
    · obtain ⟨q, hq, hmem⟩ := mem_of_mem_spell hmem hblank
      exact hps q (List.mem_cons_of_mem _ hq) hmem
    · rw [semi.gap_blank ';' hmem] at hblank
      cases hblank
  calc trim (dropSemicolons (trim (spell (p :: ps ++ [semi]) ++ trail)))
      = trim (dropSemicolons (p.token.toList ++ spell ps ++ semi.gap ++ [';'])) := by
        rw [List.cons_append, trim_spell p (ps ++ [semi]) htrail]
        simp [hsemi]
    _ = trim (p.token.toList ++ spell ps ++ semi.gap) := by rw [dropSemicolons_append hfree]
    _ = p.token.toList ++ spell ps := trim_append_spell p ps semi.gap_blank

/-- What is left of a directive's text, with or without `global` in front, begins with `using`. -/
theorem body_spell {front ps : List Piece} {p semi : Piece} {trail : List Char} {isGlobal : Bool}
    (hfront : front.map (·.token) = if isGlobal then ["global"] else [])
    (hp : p.token = "using") (hsemi : semi.token = ";") (hps : ∀ q ∈ ps, ';' ∉ q.token.toList)
    (htrail : ∀ c ∈ trail, isBlank c = true) :
    body (String.ofList (spell (front ++ p :: ps ++ [semi]) ++ trail)) =
      "using".toList ++ spell ps := by
  have husing : ∀ q ∈ p :: ps, ';' ∉ q.token.toList := by
    simpa [hp] using hps
  simp only [body, String.toList_ofList]
  cases isGlobal with
  | false =>
    obtain rfl : front = [] := by simpa using hfront
    rw [List.nil_append, trim_dropSemicolons hsemi husing htrail, hp]
    rfl
  | true =>
    obtain ⟨g, rfl, hg⟩ : ∃ g, front = [g] ∧ g.token = "global" := by
      simpa [List.map_eq_singleton_iff] using hfront
    have hglobal : ∀ q ∈ g :: p :: ps, ';' ∉ q.token.toList := by
      simpa [hg] using husing
    have hstrip : "global".toList.isPrefixOf? ("global".toList ++ spell (p :: ps)) =
        some (spell (p :: ps)) := List.isPrefixOf?_eq_some_iff_append_eq.2 rfl
    rw [List.singleton_append, trim_dropSemicolons hsemi hglobal htrail, hg, hstrip]
    exact (trimStart_spell_cons p ps).trans (by rw [hp])

/-! ### Modifiers -/

/-- A modifier with a plain space behind it is read off. -/
theorem modifiers_append {word : String} (h : word ∈ modifierWords) (rest : List Char) :
    modifiers (word.toList ++ ' ' :: rest) =
      (decide (word = "static") || (modifiers (trimStart rest)).1,
        (modifiers (trimStart rest)).2) := by
  rcases List.mem_pair.1 h with rfl | rfl
  · exact modifiers.eq_1 rest
  · exact modifiers.eq_2 rest

theorem modifiers_of_not_modifier {p : Piece} {ps : List Piece} (hp : p.token ∉ modifierWords)
    (hapart : (p :: ps).IsChain Apart) :
    modifiers (p.token.toList ++ spell ps) = (false, p.token.toList ++ spell ps) := by
  have hword (word : String) (hmem : word ∈ modifierWords) (hword : IsWord word)
      (rest : List Char) : p.token.toList ++ spell ps ≠ word.toList ++ ' ' :: rest := by
    intro h
    have heq := token_eq_of_append_eq hapart hword (by decide) h
    exact hp (heq ▸ hmem)
  rw [modifiers]
  · intro rest h
    exact hword "static" (by decide) (by decide) rest h
  · intro rest h
    exact hword "unsafe" (by decide) (by decide) rest h

/-- All modifiers are read off, and nothing else. -/
theorem modifiers_spell {ms ps : List Piece} {p : Piece}
    (hms : ∀ m ∈ ms, m.token ∈ modifierWords) (hp : p.token ∉ modifierWords)
    (hapart : (ms ++ p :: ps).IsChain Apart) (hspace : (ms ++ p :: ps).IsChain SpaceBehind) :
    modifiers (trimStart (spell (ms ++ p :: ps))) =
      (decide ("static" ∈ ms.map (·.token)), p.token.toList ++ spell ps) := by
  induction ms with
  | nil =>
    rw [List.nil_append, trimStart_spell_cons, modifiers_of_not_modifier hp hapart]
    rfl
  | cons m ms ih =>
    have hm := hms m List.mem_cons_self
    specialize ih (fun x hx => hms x (List.mem_cons_of_mem _ hx)) hapart.tail hspace.tail
    obtain ⟨q, qs, hqs⟩ := List.exists_cons_of_ne_nil (l := ms ++ p :: ps) (by simp)
    rw [List.cons_append] at hspace ⊢
    rw [hqs] at ih hspace ⊢
    obtain ⟨rest, hrest⟩ : ∃ rest, q.gap = ' ' :: rest :=
      List.head?_eq_some_iff.1 ((List.isChain_cons_cons.1 hspace).1 hm)
    -- the space that ends the modifier is one of the blanks before the next token
    have hgap : trimStart (rest ++ q.token.toList ++ spell qs) = trimStart (spell (q :: qs)) := by
      rw [spell_cons, hrest]
      rfl
    rw [trimStart_spell_cons, spell_cons, hrest, List.cons_append, List.cons_append,
      modifiers_append hm, hgap, ih]
    simp [eq_comm]

/-! ### What is imported -/

theorem squeeze_append_spell (p : Piece) (ps : List Piece) :
    squeeze (p.token.toList ++ spell ps) = squeeze (spell (p :: ps)) := by
  rw [spell_cons, List.append_assoc, Text.squeeze_append p.gap, Text.squeeze_of_blank p.gap_blank,
    List.nil_append]

/-- The blanks of a path do not matter. -/
theorem compactPath_of_squeeze_eq {cs : List Char} {ps : List Piece}
    (h : squeeze cs = squeeze (spell ps)) :
    compactPath cs = compactPath (joined (ps.map (·.token))) := by
  have hidem : squeeze (squeeze (spell ps)) = squeeze (spell ps) :=
    Text.squeeze_eq_self fun _ => Text.isBlank_of_mem_squeeze
  simp only [compactPath]
  rw [← squeeze_spell, hidem, h]

/-- Without an equals sign there is a path alone. -/
theorem target?_path (isStatic : Bool) {p : Piece} {ps : List Piece}
    (h : ∀ q ∈ p :: ps, '=' ∉ q.token.toList) :
    target? isStatic (p.token.toList ++ spell ps) =
      let path := compactPath (joined ((p :: ps).map (·.token)))
      if path = "" then none
      else if isStatic then some (.members path) else some (.types path) := by
  have hequals : '=' ∉ p.token.toList ++ spell ps := by
    intro hmem
    rcases List.mem_append.1 hmem with hmem | hmem
    · exact h p List.mem_cons_self hmem
    · obtain ⟨q, hq, hmem⟩ := mem_of_mem_spell hmem (by decide)
      exact h q (List.mem_cons_of_mem _ hq) hmem
  simp only [target?, Text.splitFirst?_eq_none hequals,
    compactPath_of_squeeze_eq (squeeze_append_spell p ps)]

/-- With an equals sign behind the first token, that token is the name of the path. -/
theorem target?_alias (isStatic : Bool) {p q : Piece} {ps : List Piece} (hp : '=' ∉ p.token.toList)
    (hq : q.token = "=") :
    target? isStatic (p.token.toList ++ spell (q :: ps)) =
      let path := compactPath (joined (ps.map (·.token)))
      if path = "" then none else some (.aliasOf p.token path) := by
  have hequals : '=' ∉ p.token.toList ++ q.gap := by
    intro hmem
    rcases List.mem_append.1 hmem with hmem | hmem
    · exact hp hmem
    · exact absurd (q.gap_blank _ hmem) (by decide)
  have hsplit : Text.splitFirst? '=' (p.token.toList ++ spell (q :: ps)) =
      some (p.token.toList ++ q.gap, spell ps) := by
    rw [← Text.splitFirst?_append hequals, spell_cons, hq]
    simp
  have hname : String.ofList (trim (p.token.toList ++ q.gap)) = p.token := by
    have htrim := trim_append_spell p [] q.gap_blank
    rw [spell_nil, List.append_nil] at htrim
    rw [htrim, String.ofList_toList]
  have hne : p.token ≠ "" := by simpa using p.token_ne_nil
  simp only [target?, hsplit, hname, hne, false_or, compactPath_of_squeeze_eq rfl]

/-! ### The directive that is read -/

/-- The pieces of a layout, part by part. -/
theorem Layout.exists_parts {d : Directive} (l : Layout d.tokens) :
    ∃ front p ms ps semi, l.pieces = front ++ p :: (ms ++ ps) ++ [semi] ∧
      front.map (·.token) = (if d.isGlobal then ["global"] else []) ∧ p.token = "using" ∧
      ms.map (·.token) = d.modifiers ∧ ps.map (·.token) = d.named ++ d.target ∧
      semi.token = ";" := by
  obtain ⟨rest, last, hpieces, hrest, hlast⟩ := List.map_eq_append_iff.1 l.tokens_eq
  obtain ⟨front, behind, rfl, hfront, hbehind⟩ := List.map_eq_append_iff.1 hrest
  obtain ⟨p, parts, rfl, hp, hparts⟩ := List.map_eq_cons_iff.1 hbehind
  obtain ⟨ms, ps, rfl, hms, hps⟩ := List.map_eq_append_iff.1 hparts
  obtain ⟨semi, rfl, hsemi⟩ := List.map_eq_singleton_iff.1 hlast
  exact ⟨front, p, ms, ps, semi, hpieces, hfront, hp, hms, hps, hsemi⟩

namespace Directive

variable {d : Directive}

theorem semicolon_not_mem {x : String} (hx : x ∈ d.modifiers ++ (d.named ++ d.target)) :
    ';' ∉ x.toList := by
  have hmodifiers : ∀ m ∈ modifierWords, ';' ∉ m.toList := by decide
  simp only [List.mem_append] at hx
  rcases hx with hx | hx | hx
  · exact hmodifiers x (d.modifiers_known x hx)
  · cases hname : d.name? with
    | none => simp [Heading.named, hname] at hx
    | some name =>
      simp only [Heading.named, hname, List.mem_pair] at hx
      rcases hx with rfl | rfl
      · exact (d.name_free x hname).1.mark_not_mem (by decide)
      · decide
  · exact (d.target_plain x hx).2.1

/-- What follows the modifiers is read as it is meant. -/
theorem target?_spell {q : Piece} {qs : List Piece}
    (h : (q :: qs).map (·.token) = d.named ++ d.target) :
    q.token ∉ modifierWords ∧
      target? (decide ("static" ∈ d.modifiers)) (q.token.toList ++ spell qs) = d.meaning? := by
  cases hname : d.name? with
  | none =>
    have htarget : (q :: qs).map (·.token) = d.target := by
      simpa [Heading.named, hname] using h
    have hplain : ∀ r ∈ q :: qs, IsTargetToken r.token := fun r hr =>
      d.target_plain _ (htarget ▸ List.mem_map_of_mem hr)
    refine ⟨(hplain q List.mem_cons_self).2.2, ?_⟩
    rw [target?_path _ fun r hr => (hplain r hr).1, htarget]
    simp [meaning?, Heading.importing, hname, apply_ite some]
  | some name =>
    obtain ⟨hword, hmodifier⟩ := d.name_free name hname
    have hnamed : q.token = name ∧ qs.map (·.token) = "=" :: d.target := by
      simpa [Heading.named, hname] using h
    obtain ⟨rfl, hqs⟩ := hnamed
    obtain ⟨equals, ts, rfl, hequals, hts⟩ := List.map_eq_cons_iff.1 hqs
    refine ⟨hmodifier, ?_⟩
    rw [target?_alias _ (hword.mark_not_mem (by decide)) hequals, hts]
    simp [meaning?, Heading.importing, hname]

end Directive

/-- **What is read from a text is what its tokens mean**, however they are laid out, as long as
there is a plain space behind every modifier. -/
theorem parse?_text {d : Directive} (l : Layout d.tokens) (h : l.SpacesModifiers) :
    parse? l.text = d.meaning? := by
  obtain ⟨front, p, ms, ps, semi, hpieces, hfront, hp, hms, hps, hsemi⟩ := l.exists_parts
  have hpart : ms ++ ps <:+: l.pieces := ⟨front ++ [p], [semi], by simp [hpieces]⟩
  have hapart := List.IsChain.infix l.apart hpart
  have hspace := List.IsChain.infix h hpart
  obtain ⟨q, qs, rfl⟩ : ∃ q qs, ps = q :: qs := by
    refine List.exists_cons_of_ne_nil ?_
    rintro rfl
    simp [d.target_ne] at hps
  obtain ⟨hq, htarget⟩ := Directive.target?_spell hps
  have hsemicolon : ∀ r ∈ ms ++ q :: qs, ';' ∉ r.token.toList := by
    intro r hr
    refine d.semicolon_not_mem ?_
    rw [← hms, ← hps, ← List.map_append]
    exact List.mem_map_of_mem hr
  have hmodifiers : ∀ m ∈ ms, m.token ∈ modifierWords := fun m hm =>
    d.modifiers_known _ (hms ▸ List.mem_map_of_mem hm)
  have husing : "using".toList.isPrefixOf? ("using".toList ++ spell (ms ++ q :: qs)) =
      some (spell (ms ++ q :: qs)) := List.isPrefixOf?_eq_some_iff_append_eq.2 rfl
  rw [Layout.text, hpieces, parse?, body_spell hfront hp hsemi hsemicolon l.trail_blank, husing]
  simp only [Option.bind_eq_bind, Option.bind_some]
  rw [modifiers_spell hmodifiers hq hapart hspace, hms]
  exact htarget

/-! ### Dotted paths -/

/-- The tokens of a dotted path, with `global::` in front of it if it begins at the root. -/
def pathTokens (isRooted : Bool) (path : List String) : List String :=
  (if isRooted then ["global", "::"] else []) ++ path.intersperse "."

theorem joined_intersperse (path : List String) :
    joined (path.intersperse ".") = (Name.ofSegments path).toList := by
  have hmap : ∀ xs : List String,
      (xs.intersperse ".").map String.toList = (xs.map String.toList).intersperse ['.'] := by
    intro xs
    induction xs with
    | nil => rfl
    | cons x xs ih =>
      cases xs with
      | nil => rfl
      | cons y ys => simpa using ih
  rw [joined, List.flatMap_def, hmap, Name.ofSegments, String.toList_intercalate]
  rfl

theorem eq_or_mem_of_mem_intersperse {x sep : String} {xs : List String}
    (h : x ∈ xs.intersperse sep) : x = sep ∨ x ∈ xs := by
  induction xs with
  | nil => cases h
  | cons y xs ih =>
    cases xs with
    | nil => exact .inr h
    | cons z zs =>
      rw [List.intersperse_cons_cons, List.mem_cons, List.mem_cons] at h
      rcases h with rfl | rfl | h
      · exact .inr List.mem_cons_self
      · exact .inl rfl
      · exact (ih h).imp_right (List.mem_cons_of_mem y)

section Path

variable {path : List String}

/-- There are no blanks and no colons in a dotted path of words. -/
theorem of_mem_ofSegments (hpath : ∀ x ∈ path, IsWord x) {c : Char}
    (hc : c ∈ (Name.ofSegments path).toList) : isBlank c = false ∧ c ≠ ':' := by
  rw [← joined_intersperse] at hc
  obtain ⟨x, hx, hc⟩ := List.mem_flatMap.1 hc
  rcases eq_or_mem_of_mem_intersperse hx with rfl | hx
  · obtain rfl : c = '.' := by simpa using hc
    decide
  · refine ⟨((hpath x hx).2 c hc).1, ?_⟩
    rintro rfl
    exact (hpath x hx).mark_not_mem (by decide) hc

theorem ofSegments_ne_empty (hne : path ≠ []) (hpath : ∀ x ∈ path, IsWord x) :
    Name.ofSegments path ≠ "" := by
  intro hempty
  have hsegments := Name.segments_ofSegments hne fun x hx => (hpath x hx).mark_not_mem (by decide)
  have hmem : "" ∈ path := by
    rw [← hsegments, hempty]
    decide
  exact (hpath "" hmem).1 rfl

/-- A path of words is what is left of its tokens, whether it begins at the root or not. -/
theorem compactPath_pathTokens (isRooted : Bool) (hpath : ∀ x ∈ path, IsWord x) :
    compactPath (joined (pathTokens isRooted path)) = Name.ofSegments path := by
  have hsqueeze : squeeze (Name.ofSegments path).toList = (Name.ofSegments path).toList :=
    Text.squeeze_eq_self fun c hc => (of_mem_ofSegments hpath hc).1
  cases isRooted with
  | false =>
    have hjoined : joined (pathTokens false path) = (Name.ofSegments path).toList :=
      joined_intersperse path
    have hroot : "global::".toList.isPrefixOf? (Name.ofSegments path).toList = none := by
      refine Option.eq_none_iff_forall_ne_some.2 fun rest hrest => ?_
      have hcolon : ':' ∈ (Name.ofSegments path).toList := by
        simp [← List.isPrefixOf?_eq_some_iff_append_eq.1 hrest]
      exact (of_mem_ofSegments hpath hcolon).2 rfl
    simp only [compactPath, hjoined, hsqueeze, hroot, String.ofList_toList]
  | true =>
    have hjoined : joined (pathTokens true path) =
        "global::".toList ++ (Name.ofSegments path).toList := by
      rw [← joined_intersperse]
      rfl
    have hroot : "global::".toList.isPrefixOf?
        (squeeze ("global::".toList ++ (Name.ofSegments path).toList)) =
          some (Name.ofSegments path).toList := by
      rw [Text.squeeze_append, hsqueeze]
      exact List.isPrefixOf?_eq_some_iff_append_eq.2 rfl
    simp only [compactPath, hjoined, hroot, String.ofList_toList]

end Path

/-- A directive for a dotted path. -/
structure Import extends Heading where
  /-- Whether the path begins with `global::`. -/
  isRooted : Bool
  /-- The identifiers of the path. -/
  path : List String
  /-- There is at least one identifier. -/
  path_ne : path ≠ []
  /-- Identifiers are words that are not modifiers. -/
  path_free : ∀ x ∈ path, IsFree x

namespace Import

theorem isTargetToken_of_mem (i : Import) {x : String} (hx : x ∈ pathTokens i.isRooted i.path) :
    IsTargetToken x := by
  have hroot : ∀ isRooted : Bool, ∀ x ∈ (if isRooted then ["global", "::"] else []),
      IsTargetToken x := by decide
  rcases List.mem_append.1 hx with hx | hx
  · exact hroot i.isRooted x hx
  · rcases eq_or_mem_of_mem_intersperse hx with rfl | hx
    · decide
    · obtain ⟨hword, hfree⟩ := i.path_free x hx
      exact ⟨hword.mark_not_mem (by decide), hword.mark_not_mem (by decide), hfree⟩

/-- The directive token by token. -/
def directive (i : Import) : Directive where
  toHeading := i.toHeading
  target := pathTokens i.isRooted i.path
  target_ne := by
    obtain ⟨x, xs, hpath⟩ := List.exists_cons_of_ne_nil i.path_ne
    cases xs <;> simp [pathTokens, hpath]
  target_plain := fun _ => i.isTargetToken_of_mem

theorem meaning?_directive (i : Import) :
    i.directive.meaning? = some (i.importing (Name.ofSegments i.path)) := by
  have hwords : ∀ x ∈ i.path, IsWord x := fun x hx => (i.path_free x hx).1
  have hpath : compactPath (joined i.directive.target) = Name.ofSegments i.path :=
    compactPath_pathTokens i.isRooted hwords
  simp only [Directive.meaning?, hpath, ofSegments_ne_empty i.path_ne hwords, if_false]
  rfl

end Import

/-! ### What can be read -/

/-- The path of a directive. -/
def path : Using → String
  | types path => path
  | members path => path
  | aliasOf _ path => path

/-- The name that a directive gives to its path. -/
def name? : Using → Option String
  | aliasOf name _ => some name
  | _ => none

theorem isBlank_of_mem_compactPath {cs : List Char} {c : Char} (h : c ∈ (compactPath cs).toList) :
    isBlank c = false := by
  have hmem : c ∈ squeeze cs := by
    simp only [compactPath] at h
    split at h
    · next rest hrest =>
      rw [← List.isPrefixOf?_eq_some_iff_append_eq.1 hrest]
      exact List.mem_append_right _ (by simpa using h)
    · simpa using h
  exact Text.isBlank_of_mem_squeeze hmem

/-- Nothing is read with an empty path or an empty name, and no path with blanks in it. -/
theorem of_parse? {text : String} {u : Using} (h : parse? text = some u) :
    u.path ≠ "" ∧ (∀ c ∈ u.path.toList, isBlank c = false) ∧ ∀ name ∈ u.name?, name ≠ "" := by
  rw [parse?, Option.bind_eq_bind, Option.bind_eq_some_iff] at h
  obtain ⟨rest, -, h⟩ := h
  simp only [target?] at h
  split at h
  · split at h
    · cases h
    · next hempty =>
      obtain ⟨hname, hpath⟩ := not_or.1 hempty
      cases h
      exact ⟨hpath, fun _ => isBlank_of_mem_compactPath, by simpa [name?] using hname⟩
  · split at h
    · cases h
    · next hpath =>
      split at h <;> cases h <;>
        exact ⟨hpath, fun _ => isBlank_of_mem_compactPath, by simp [name?]⟩

/-- **Every directive for a dotted path is read back**, whatever blanks it is written with, as long
as there is a plain space behind every modifier: as an alias if it gives a name, and otherwise as
what imports members or types.  The path is read in its compact form, without `global::`.  And
nothing is ever read but non-empty paths without blanks and non-empty names. -/
theorem directives_read_back :
    (∀ (i : Import) (l : Layout i.directive.tokens), l.SpacesModifiers →
      parse? l.text = some (i.importing (Name.ofSegments i.path))) ∧
    ∀ (text : String) (u : Using), parse? text = some u →
      u.path ≠ "" ∧ (∀ c ∈ u.path.toList, isBlank c = false) ∧ ∀ name ∈ u.name?, name ≠ "" := by
  constructor
  · intro i l hspaces
    rw [parse?_text l hspaces, i.meaning?_directive]
  · intro text u h
    exact of_parse? h

/-- The directive `using static A.B;`. -/
def membersImport : Import where
  isGlobal := false
  modifiers := ["static"]
  name? := none
  isRooted := false
  path := ["A", "B"]
  modifiers_known := by decide
  name_free := by simp
  path_ne := by decide
  path_free := by decide

/-- The directive `using static A.B;` with the given blanks behind `static`. -/
def membersLayout (gap : List Char) (hgap : gap.all isBlank = true) (hne : gap ≠ []) :
    Layout membersImport.directive.tokens where
  pieces := [⟨[], "using", by simp, by decide⟩,
    ⟨[' '], "static", List.all_eq_true.1 rfl, by decide⟩,
    ⟨gap, "A", List.all_eq_true.1 hgap, by decide⟩, ⟨[], ".", by simp, by decide⟩,
    ⟨[], "B", by simp, by decide⟩, ⟨[], ";", by simp, by decide⟩]
  trail := []
  tokens_eq := rfl
  apart := by
    have hmarks : ¬IsWord "." ∧ ¬IsWord ";" := by decide
    simp [Apart, hne, hmarks]
  trail_blank := by simp

theorem members_read_back :
    (membersLayout [' ', '\t', '\u2003'] (by decide) (by decide)).SpacesModifiers ∧
      parse? "using static \t\u2003A.B;" = some (.members "A.B") ∧
      "A.B" ≠ "" ∧ ∀ c ∈ "A.B".toList, isBlank c = false := by
  have hspaces : (membersLayout [' ', '\t', '\u2003'] (by decide) (by decide)).SpacesModifiers := by
    decide
  have hread := directives_read_back.1 membersImport _ hspaces
  obtain ⟨hne, hblank, -⟩ := directives_read_back.2 _ (.members "A.B") hread
  exact ⟨hspaces, hread, hne, hblank⟩

/-- **The blanks between tokens do not matter**: a directive is read alike however its tokens are
laid out, as long as there is a plain space behind every modifier. -/
theorem parse?_layout_irrelevant (d : Directive) (x y : Layout d.tokens) (hx : x.SpacesModifiers)
    (hy : y.SpacesModifiers) : parse? x.text = parse? y.text := by
  rw [parse?_text x hx, parse?_text y hy]

theorem members_layout_irrelevant :
    parse? (membersLayout [' '] (by decide) (by decide)).text =
      parse? (membersLayout [' ', '\n'] (by decide) (by decide)).text :=
  parse?_layout_irrelevant membersImport.directive _ _ (by decide) (by decide)

/-- With a tab in place of the plain space behind it, `static` becomes part of the path. -/
theorem members_misread_with_tab :
    parse? (membersLayout [' '] (by decide) (by decide)).text = some (.members "A.B") ∧
      parse? (membersLayout ['\t'] (by decide) (by decide)).text = some (.types "staticA.B") := by
  decide +kernel

end Using

end Unqualify
