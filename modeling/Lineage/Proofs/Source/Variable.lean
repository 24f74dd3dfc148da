import Lineage.Proofs.Source.Phrase
import Lineage.Proofs.Text.Search

/-!
# Declarations of variables

The declaration of a variable is a line, blank lines in front of it aside, that starts with a word,
goes on with a type, with or without `CONSTANT` before it and a size behind it, and closes with a
mark. What is recognised is told by these parts, as a text that is put together from them.
-/

namespace Lineage.Source

open Text (isBlank isWord)

variable {before text rest back name blanks word size close body : List Char}

/-! ## Sizes -/

/-- Whether some characters are the size of a type: a text in parentheses, blanks in front of it
aside. It is not empty and has no closing parenthesis. -/
def IsSize (size : List Char) : Prop :=
  ∃ blanks body, AllBlank blanks ∧ body ≠ [] ∧ ')' ∉ body ∧ size = blanks ++ '(' :: (body ++ [')'])

theorem parenthesized?_append (hblanks : AllBlank blanks) (hne : body ≠ []) (hbody : ')' ∉ body)
    (rest : List Char) : parenthesized? (blanks ++ '(' :: (body ++ ')' :: rest)) =
      some (blanks ++ '(' :: (body ++ [')'])) := by
  have hstops : Stops isBlank ('(' :: (body ++ ')' :: rest)) := stops_cons.mpr (by decide)
  have hspan : (body ++ ')' :: rest).span (· != ')') = (body, ')' :: rest) := by
    rw [List.span_eq_takeWhile_dropWhile, takeWhile_bne_append hbody, dropWhile_bne_append hbody]
  rw [parenthesized?, afterGap_append hblanks hstops, gap_append_of_stops hblanks hstops,
    List.take_left]
  simp only [hspan]
  exact congrArg some (List.append_assoc _ _ _)

theorem parenthesized?_eq_some_iff :
    parenthesized? text = some size ↔ IsSize size ∧ ∃ rest, text = size ++ rest := by
  constructor
  · intro h
    obtain ⟨blanks, back, hblanks, hstops, rfl⟩ := exists_blanks text
    rw [parenthesized?, afterGap_append hblanks hstops, gap_append_of_stops hblanks hstops,
      List.take_left] at h
    split at h
    · rename_i inside
      rw [List.span_eq_takeWhile_dropWhile] at h
      split at h
      · cases h
      · cases h
      · rename_i body c rest hne heq
        obtain ⟨hbody, hrest⟩ := Prod.mk.inj heq
        obtain rfl := Option.some_inj.mp h
        -- what stops the body is the closing parenthesis
        have hclose : c = ')' := by
          have hc := List.head?_dropWhile_not (· != ')') inside
          rw [hrest] at hc
          simpa using hc
        subst hclose
        refine ⟨⟨blanks, body, hblanks, hne, ?_,
          List.append_assoc _ _ _⟩, rest, ?_⟩
        · rw [← hbody]
          exact fun hmem ↦ by simpa using List.mem_takeWhile_imp hmem
        · have hinside := List.takeWhile_append_dropWhile (p := (· != ')')) (l := inside)
          rw [hbody, hrest] at hinside
          simp [← hinside]
    · cases h
  · rintro ⟨⟨blanks, body, hblanks, hne, hbody, rfl⟩, rest, rfl⟩
    simpa using parenthesized?_append hblanks hne hbody rest

/-! ## Closing marks -/

/-- Whether a declaration closes with a mark in front of a text. -/
inductive Closes : List Char → List Char → Prop
  | assignment {rest : List Char} : Closes [':', '='] rest
  | semicolon {rest : List Char} : Closes [';'] rest
  | default {spelled rest : List Char} (hspelled : Spells "DEFAULT".toList spelled)
      (hrest : Stops isWord rest) : Closes spelled rest

theorem Closes.stops_isBlank (h : Closes close rest) (back : List Char) :
    Stops isBlank (close ++ back) := by
  cases h with
  | assignment | semicolon => exact stops_cons.mpr (by decide)
  | default hspelled _ => exact (hspelled.isWord (by decide)).stops_isBlank back

theorem Closes.append_ne_open (h : Closes close rest) (back text : List Char) :
    close ++ back ≠ '(' :: text := by
  cases h with
  | assignment | semicolon => exact fun heq ↦ absurd (List.cons_eq_cons.mp heq).1 (by decide)
  | default hspelled _ => exact (hspelled.isWord (by decide)).append_ne (by decide) _ _

theorem declarationEnd?_eq_some_iff {length : Nat} : declarationEnd? text = some length ↔
    ∃ blanks close rest, AllBlank blanks ∧ Closes close rest ∧ text = blanks ++ (close ++ rest) ∧
      length = blanks.length + close.length := by
  constructor
  · intro h
    obtain ⟨blanks, back, hblanks, hstops, rfl⟩ := exists_blanks text
    rw [declarationEnd?, afterGap_append hblanks hstops, gap_append_of_stops hblanks hstops] at h
    split at h
    · rename_i rest
      exact ⟨blanks, [':', '='], rest, hblanks, .assignment, rfl, (Option.some_inj.mp h).symm⟩
    · rename_i rest
      exact ⟨blanks, [';'], rest, hblanks, .semicolon, rfl, (Option.some_inj.mp h).symm⟩
    · simp only [Option.ite_none_right_eq_some, Bool.and_eq_true] at h
      obtain ⟨⟨hkeyword, hend⟩, hlength⟩ := h
      obtain ⟨spelled, rest, hspelled, rfl⟩ := startsWithKeyword_iff.mp hkeyword
      rw [← hspelled.length_eq, List.drop_left] at hend
      rw [← hspelled.length_eq] at hlength
      exact ⟨blanks, spelled, rest, hblanks, .default hspelled (atWordEnd_iff.mp hend), rfl,
        (Option.some_inj.mp hlength).symm⟩
  · rintro ⟨blanks, close, rest, hblanks, hclose, rfl, rfl⟩
    have hstops := hclose.stops_isBlank rest
    rw [declarationEnd?, afterGap_append hblanks hstops, gap_append_of_stops hblanks hstops]
    cases hclose with
    | assignment | semicolon => rfl
    | default hspelled hrest =>
      -- a keyword begins with neither of the two marks
      have hword : IsWord close := hspelled.isWord (by decide)
      split
      · rename_i heq
        exact absurd heq (hword.append_ne (by decide) _ _)
      · rename_i heq
        exact absurd heq (hword.append_ne (by decide) _ _)
      · have hkeyword := startsWithKeyword_iff.mpr ⟨close, rest, hspelled, rfl⟩
        simp only [← hspelled.length_eq, List.drop_left, hkeyword, atWordEnd_iff.mpr hrest,
          Bool.and_self, if_true]

/-! ## Types -/

/-- Whether a word, a size, blanks and a mark, one after the other, are a type and the end of its
declaration, in front of a text. -/
structure IsTyped (word size blanks close rest : List Char) : Prop where
  isWord : IsWord word
  isSize : size = [] ∨ IsSize size
  allBlank : AllBlank blanks
  closes : Closes close rest
  stops : Stops Text.isWord (size ++ (blanks ++ (close ++ rest)))

theorem typeToEnd?_eq_some_iff {length : Nat} : typeToEnd? text = some length ↔
    ∃ word size blanks close rest, IsTyped word size blanks close rest ∧
      text = word ++ (size ++ (blanks ++ (close ++ rest))) ∧
      length = word.length + size.length + (blanks.length + close.length) := by
  constructor
  · intro h
    rw [typeToEnd?, Option.bind_eq_bind, Option.bind_eq_some_iff] at h
    obtain ⟨word, hfound, h⟩ := h
    obtain ⟨hword, back, hstops, rfl⟩ := word?_eq_some_iff.mp hfound
    rw [List.drop_left] at h
    dsimp only at h
    rw [Option.bind_eq_bind, Option.bind_eq_some_iff] at h
    obtain ⟨tail, htail, hlength⟩ := h
    obtain ⟨blanks, close, rest, hblanks, hclose, hback, rfl⟩ :=
      declarationEnd?_eq_some_iff.mp htail
    cases hsize : parenthesized? back with
    | none =>
      rw [hsize] at hback hlength
      have hback' : back = blanks ++ (close ++ rest) := hback
      subst hback'
      exact ⟨word, [], blanks, close, rest, ⟨hword, Or.inl rfl, hblanks, hclose, hstops⟩, rfl,
        (Option.some_inj.mp hlength).symm⟩
    | some size =>
      rw [hsize, Option.getD_some] at hback hlength
      obtain ⟨hissize, rest', rfl⟩ := parenthesized?_eq_some_iff.mp hsize
      rw [List.drop_left] at hback
      subst hback
      exact ⟨word, size, blanks, close, rest, ⟨hword, Or.inr hissize, hblanks, hclose, hstops⟩, rfl,
        (Option.some_inj.mp hlength).symm⟩
  · rintro ⟨word, size, blanks, close, rest, htyped, rfl, rfl⟩
    have htail := declarationEnd?_eq_some_iff.mpr
      ⟨blanks, close, rest, htyped.allBlank, htyped.closes, rfl, rfl⟩
    have hsize : (parenthesized? (size ++ (blanks ++ (close ++ rest)))).getD [] = size := by
      rcases htyped.isSize with rfl | hsize
      · cases hnone : parenthesized? ([] ++ (blanks ++ (close ++ rest))) with
        | none => rfl
        | some size =>
          -- a size would start with a parenthesis where the mark stands
          obtain ⟨⟨blanks', body, hblanks', -, -, rfl⟩, rest', heq⟩ :=
            parenthesized?_eq_some_iff.mp hnone
          rw [List.nil_append, List.append_assoc] at heq
          obtain ⟨-, hmark⟩ := run_append_inj htyped.allBlank hblanks'
            (htyped.closes.stops_isBlank rest) (stops_cons.mpr (by decide)) heq
          exact absurd hmark (htyped.closes.append_ne_open _ _)
      · rw [parenthesized?_eq_some_iff.mpr ⟨hsize, _, rfl⟩, Option.getD_some]
    rw [typeToEnd?, word?_append htyped.isWord htyped.stops]
    simp only [Option.bind_eq_bind, Option.bind_some, List.drop_left, hsize, htail]

/-- Whether some characters are empty or `CONSTANT` and blanks. -/
def IsModifier (modifier : List Char) : Prop :=
  modifier = [] ∨ ∃ spelled blanks, Spells "CONSTANT".toList spelled ∧ AllBlank blanks ∧
    blanks ≠ [] ∧ modifier = spelled ++ blanks

theorem exists_of_constantToEnd? {length : Nat} (h : constantToEnd? text = some length) :
    ∃ modifier rest tail, IsModifier modifier ∧ typeToEnd? rest = some tail ∧
      text = modifier ++ rest ∧ length = modifier.length + tail := by
  rw [constantToEnd?, Option.or_eq_some_iff] at h
  rcases h with h | ⟨-, h⟩
  · rw [Option.bind_eq_some_iff] at h
    obtain ⟨taken, htaken, h⟩ := h
    obtain ⟨tail, htail, rfl⟩ := Option.map_eq_some_iff.mp h
    obtain ⟨spelled, blanks, rest, hspelled, hblanks, hne, -, rfl, rfl⟩ :=
      phrase?_singleton_iff.mp htaken
    rw [drop_append_append] at htail
    exact ⟨spelled ++ blanks, rest, tail, Or.inr ⟨spelled, blanks, hspelled, hblanks, hne, rfl⟩,
      htail, (List.append_assoc _ _ _).symm, by rw [List.length_append]⟩
  · exact ⟨[], text, length, Or.inl rfl, h, rfl, (Nat.zero_add length).symm⟩

theorem isSome_constantToEnd?_iff : (constantToEnd? text).isSome = true ↔
    ∃ modifier rest, IsModifier modifier ∧ (typeToEnd? rest).isSome = true ∧
      text = modifier ++ rest := by
  constructor
  · intro h
    obtain ⟨length, h⟩ := Option.isSome_iff_exists.mp h
    obtain ⟨modifier, rest, tail, hmodifier, htail, rfl, -⟩ := exists_of_constantToEnd? h
    exact ⟨modifier, rest, hmodifier, Option.isSome_iff_exists.mpr ⟨tail, htail⟩, rfl⟩
  · rintro ⟨modifier, rest, hmodifier, htail, rfl⟩
    rw [constantToEnd?, Option.isSome_or, Bool.or_eq_true]
    rcases hmodifier with rfl | ⟨spelled, blanks, hspelled, hblanks, hne, rfl⟩
    · exact Or.inr htail
    · obtain ⟨tail, htail⟩ := Option.isSome_iff_exists.mp htail
      obtain ⟨word, size, blanks', close, rest', htyped, rfl, -⟩ := typeToEnd?_eq_some_iff.mp htail
      have hstops := htyped.isWord.stops_isBlank (size ++ (blanks' ++ (close ++ rest')))
      have hphrase := phrase?_singleton_iff.mpr ⟨spelled, blanks, _, hspelled, hblanks, hne, hstops,
        List.append_assoc _ _ _, rfl⟩
      rw [hphrase, Option.bind_some, ← List.length_append, List.drop_left, htail]
      exact Or.inl rfl

/-! ## Declarations -/

/-- The name that is declared by a word, none if the word declares none. -/
def declaredName? (word : List Char) : Option (List Char) :=
  if isDeclarationKeyword (String.ofList word) then none else some word

/-- A declaration is recognised exactly where a line starts, blank lines aside, with a word, blanks
and what is read as a type and the end of its declaration. -/
theorem declaredVariable_eq_some_iff {found : Option (List Char)} {length : Nat} :
    declaredVariable before text = some (found, length) ↔
      atLineStart before = true ∧ ∃ indent name gap back tail, AllBlank indent ∧ IsWord name ∧
        AllBlank gap ∧ gap ≠ [] ∧ Stops isBlank back ∧ constantToEnd? back = some tail ∧
        text = indent ++ (name ++ (gap ++ back)) ∧ found = declaredName? name ∧
        length = indent.length + name.length + gap.length + tail := by
  rw [declaredVariable]
  split
  · rename_i hstart
    rw [and_iff_right hstart]
    constructor
    · intro h
      obtain ⟨indent, back, hindent, hstops, rfl⟩ := exists_blanks text
      rw [gap_append_of_stops hindent hstops] at h
      dsimp only at h
      rw [List.drop_left, Option.bind_eq_bind, Option.bind_eq_some_iff] at h
      obtain ⟨name, hname, h⟩ := h
      obtain ⟨hword, behind, hbehind, rfl⟩ := word?_eq_some_iff.mp hname
      obtain ⟨gap, rest, hgap, hrest, rfl⟩ := exists_blanks behind
      rw [drop_append_append, gap_append_of_stops hgap hrest, afterGap_append hgap hrest] at h
      split at h
      · cases h
      · rename_i hne
        rw [Option.bind_eq_bind, Option.bind_eq_some_iff] at h
        obtain ⟨tail, htail, h⟩ := h
        obtain ⟨rfl, rfl⟩ := Prod.mk.inj (Option.some_inj.mp h)
        exact ⟨indent, name, gap, rest, tail, hindent, hword, hgap,
          fun hnil ↦ hne (by rw [hnil]; rfl), hrest, htail, rfl, rfl, rfl⟩
    · rintro ⟨indent, name, gap, back, tail, hindent, hword, hgap, hne, hback, htail, rfl, rfl, rfl⟩
      have hzero : gap.length ≠ 0 := fun hzero ↦ hne (List.length_eq_zero_iff.mp hzero)
      simp only [gap_append_of_stops hindent (hword.stops_isBlank _), List.drop_left,
        word?_append hword (hgap.stops_isWord hne _), Option.bind_eq_bind, Option.bind_some,
        drop_append_append,
        gap_append_of_stops hgap hback, afterGap_append hgap hback, htail, if_neg hzero]
      rfl
  · rename_i hstart
    exact ⟨nofun, fun h ↦ absurd h.1 hstart⟩

theorem takesText_declaredVariable : Text.TakesText declaredVariable := by
  intro before text found length h
  obtain ⟨-, indent, name, gap, back, tail, -, hword, -, -, -, htail, rfl, -, rfl⟩ :=
    declaredVariable_eq_some_iff.mp h
  obtain ⟨modifier, rest, taken, -, htaken, rfl, rfl⟩ := exists_of_constantToEnd? htail
  obtain ⟨word, size, blanks, close, rest', -, rfl, rfl⟩ := typeToEnd?_eq_some_iff.mp htaken
  have hpos := List.length_pos_iff.mpr hword.ne_nil
  simp only [List.length_append]
  omega

end Lineage.Source
