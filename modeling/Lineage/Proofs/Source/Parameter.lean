import Lineage.Proofs.Source.Function
import Lineage.Proofs.Source.Variable

/-!
# Parameters that are read as variables

The search for variables knows no parentheses. A parameter that is the first word on its line and is
followed by a type and a default looks like a variable, and it is reported as one, unless something
that is found before reaches over the start of its line. What reaches over it is, in the ordinary
case, its own list: behind a procedure at the start of a line the list is read as the size of a
type, from the opening parenthesis to the first closing one, so it is passed over with the
declaration if no parenthesis is closed in it and a semicolon follows. That of a function is not, as
its return type follows.
-/

namespace Lineage.Source

open Text (isBlank isWord)

/-! ## Parameters -/

/-- The keywords whose declarations have parameter lists. -/
def listKeywords : List (List Char) := ["PROCEDURE".toList, "FUNCTION".toList]

/-- The front of a parameter list: a keyword, a name and the opening parenthesis, with the blanks
between them. -/
structure ListHead where
  keyword : List Char
  afterKeyword : List Char
  name : List Char
  afterName : List Char
  spells_keyword : ∃ k ∈ listKeywords, Spells k keyword
  allBlank_afterKeyword : AllBlank afterKeyword
  afterKeyword_ne_nil : afterKeyword ≠ []
  name_ne_nil : name ≠ []
  all_name : ∀ c ∈ name, isNameChar c = true
  allBlank_afterName : AllBlank afterName

/-- The characters of the front of a list. -/
def ListHead.chars (head : ListHead) : List Char :=
  head.keyword ++ (head.afterKeyword ++ (head.name ++ (head.afterName ++ ['('])))

/-- Whether a text ends within the parentheses of a parameter list: the one that opens the list is
not closed again, those in literals aside. -/
def EndsInList (front : List Char) : Prop :=
  ∃ before, ∃ head : ListHead, ∃ inside pieces, atWordStart before.reverse = true ∧
    front = before ++ (head.chars ++ inside) ∧ Splits inside pieces ∧
    (depthAfter? 0 (pieces.flatMap Piece.code)).isSome = true

/-- Whether every identifier of a text that is a name stands in a parameter list. -/
def OnlyInLists (text name : List Char) : Prop :=
  ∀ front back, IsIdentifier front name back → text = front ++ (name ++ back) → EndsInList front

/-- Whether a name is an identifier in a parameter list of a text. -/
structure IsParameter (text front name back : List Char) : Prop where
  text_eq : text = front ++ (name ++ back)
  isIdentifier : IsIdentifier front name back
  endsInList : EndsInList front

/-! ## Variables -/

/-- Whether a text goes on as the declaration of a variable does behind the name. -/
def IsVariableTail (back : List Char) : Prop :=
  ∃ gap modifier word size blanks close rest, AllBlank gap ∧ gap ≠ [] ∧ IsModifier modifier ∧
    IsTyped word size blanks close rest ∧
    back = gap ++ (modifier ++ (word ++ (size ++ (blanks ++ (close ++ rest)))))

/-- Whether a text ends with nothing but blanks behind a text in front of a line. -/
def StartsLine (ahead front : List Char) : Prop :=
  ∃ indent, AllBlank indent ∧ atLineStart ahead.reverse = true ∧ front = ahead ++ indent

theorem StartsLine.stops {p : Char → Bool} {ahead front : List Char} (h : StartsLine ahead front)
    (hp : ∀ {c}, isBlank c = true → p c = false) : Stops p front.reverse := by
  obtain ⟨indent, hindent, hstart, rfl⟩ := h
  rw [List.reverse_append]
  refine hindent.reverse.stops_append hp ?_
  cases hahead : ahead.reverse with
  | nil => exact stops_nil p
  | cons c before =>
    rw [hahead] at hstart
    obtain rfl := eq_of_beq hstart
    exact stops_cons.mpr (hp (by decide))

/-- Whether a declaration of a variable that is found in a text reaches over a position. -/
def IsReachedOver (text : List Char) (pos : Nat) : Prop :=
  ∃ m, Text.Finds declaredVariable text m ∧ m.start < pos ∧ pos < m.stop

theorem isVariableTail_iff {back : List Char} : IsVariableTail back ↔
    ∃ gap rest tail, AllBlank gap ∧ gap ≠ [] ∧ Stops isBlank rest ∧
      constantToEnd? rest = some tail ∧ back = gap ++ rest := by
  constructor
  · rintro ⟨gap, modifier, word, size, blanks, close, rest, hgap, hne, hmodifier, htyped, rfl⟩
    have htail := typeToEnd?_eq_some_iff.mpr ⟨word, size, blanks, close, rest, htyped, rfl, rfl⟩
    obtain ⟨tail, htail⟩ := Option.isSome_iff_exists.mp (isSome_constantToEnd?_iff.mpr
      ⟨modifier, _, hmodifier, Option.isSome_iff_exists.mpr ⟨_, htail⟩, rfl⟩)
    refine ⟨gap, _, tail, hgap, hne, ?_, htail, rfl⟩
    rcases hmodifier with rfl | ⟨spelled, blanks, hspelled, -, -, rfl⟩
    · exact htyped.isWord.stops_isBlank _
    · rw [List.append_assoc]
      exact (hspelled.isWord (by decide)).stops_isBlank _
  · rintro ⟨gap, rest, tail, hgap, hne, -, htail, rfl⟩
    obtain ⟨modifier, back, taken, hmodifier, htaken, rfl, -⟩ := exists_of_constantToEnd? htail
    obtain ⟨word, size, blanks, close, rest, htyped, rfl, -⟩ := typeToEnd?_eq_some_iff.mp htaken
    exact ⟨gap, modifier, word, size, blanks, close, rest, hgap, hne, hmodifier, htyped, rfl⟩

theorem declaredName?_eq_some_iff {word name : List Char} : declaredName? word = some name ↔
    word = name ∧ isDeclarationKeyword (String.ofList word) = false := by
  rw [declaredName?]
  split
  · rename_i h
    simp [h]
  · rename_i h
    simp [h]

/-- The variables that are reported are the words that start a line and go on as the declaration of
a variable does, where nothing that is found reaches over the start of the line. -/
theorem mem_variableNames_iff {p : Package} {name : List Char} :
    String.ofList name ∈ variableNames p ↔
      isDeclarationKeyword (String.ofList name) = false ∧ IsWord name ∧
      ∃ ahead front back, specification p = front ++ (name ++ back) ∧ IsVariableTail back ∧
        StartsLine ahead front ∧ ¬IsReachedOver (specification p) ahead.length := by
  rw [variableNames, List.mem_map]
  simp only [List.mem_filterMap, id, Text.mem_scan_iff takesText_declaredVariable]
  constructor
  · rintro ⟨found, ⟨value, ⟨m, hm, hvalue⟩, rfl⟩, hname⟩
    obtain rfl := String.ofList_injective hname
    obtain ⟨hmatch, hclear⟩ := (Text.finds_iff takesText_declaredVariable).mp hm
    obtain ⟨hstart, indent, name, gap, rest, tail, hindent, hword, hgap, hne, hrest, htail, htext,
      hfound, -⟩ := declaredVariable_eq_some_iff.mp (Text.recognise_of_matchAt? hmatch)
    obtain ⟨rfl, hkeyword⟩ := declaredName?_eq_some_iff.mp (hfound.symm.trans hvalue)
    -- the declaration starts inside the text, so that much stands ahead of it
    have hlength : ((specification p).take m.start).length = m.start := by
      have hstop := takesText_declaredVariable.start_lt_stop hmatch
      rw [List.length_take]
      omega
    refine ⟨hkeyword, hword, (specification p).take m.start,
      (specification p).take m.start ++ indent, gap ++ rest, ?_,
      isVariableTail_iff.mpr ⟨gap, rest, tail, hgap, hne, hrest, htail, rfl⟩,
      ⟨indent, hindent, hstart, rfl⟩, ?_⟩
    · rw [List.append_assoc, ← htext, List.take_append_drop]
    · rintro ⟨m', hm', hlt, hover⟩
      rw [hlength] at hlt hover
      exact absurd hover (Nat.not_lt.mpr (hclear m' hm' hlt))
  · rintro ⟨hkeyword, hword, ahead, front, back, htext, hback, ⟨indent, hindent, hstart, rfl⟩,
      hclear⟩
    obtain ⟨gap, rest, tail, hgap, hne, hrest, htail, rfl⟩ := isVariableTail_iff.mp hback
    have hdeclared := declaredVariable_eq_some_iff.mpr ⟨hstart, indent, name, gap, rest, tail,
      hindent, hword, hgap, hne, hrest, htail, rfl, rfl, rfl⟩
    have hname : declaredName? name = some name := declaredName?_eq_some_iff.mpr ⟨rfl, hkeyword⟩
    rw [List.append_assoc] at htext
    rw [hname] at hdeclared
    rw [htext] at hclear ⊢
    have hfound := Text.finds_append takesText_declaredVariable hdeclared fun m hm hlt ↦
      Nat.not_lt.mp fun hover ↦ hclear ⟨m, hm, hlt, hover⟩
    exact ⟨name, ⟨some name, ⟨_, hfound, rfl⟩, rfl⟩, rfl⟩

/-! ## Lists that are read as sizes -/

/-- A name in a parameter list that is read as the size of a type: its declaration starts a line, no
parenthesis is closed before the list is, and behind the list the declaration closes as that of a
variable does. -/
structure FlatList where
  ahead : List Char
  indent : List Char
  head : ListHead
  inside : List Char
  name : List Char
  more : List Char
  afterList : List Char
  close : List Char
  rest : List Char
  atLineStart_ahead : atLineStart ahead.reverse = true
  allBlank_indent : AllBlank indent
  isWord_head : IsWord head.name
  head_ne_default : ¬Spells "DEFAULT".toList head.name
  name_ne_nil : name ≠ []
  close_not_mem : ')' ∉ inside ++ (name ++ more)
  allBlank_afterList : AllBlank afterList
  closes : Closes close rest

namespace FlatList

variable (d : FlatList)

/-- The text between the start of the line and the name. -/
def opening : List Char := d.indent ++ (d.head.chars ++ d.inside)

/-- The text in front of the name. -/
def front : List Char := d.ahead ++ d.opening

/-- The text behind the name. -/
def back : List Char := d.more ++ ')' :: (d.afterList ++ (d.close ++ d.rest))

/-- The list, with its parentheses. -/
def size : List Char := d.head.afterName ++ '(' :: ((d.inside ++ (d.name ++ d.more)) ++ [')'])

/-- The text behind the keyword and the blanks that follow it. -/
def signature : List Char := d.head.name ++ (d.size ++ (d.afterList ++ (d.close ++ d.rest)))

/-- The text from the keyword on. -/
def declaration : List Char := d.head.keyword ++ (d.head.afterKeyword ++ d.signature)

/-- The number of characters from the start of the line to the end of the declaration. -/
def span : Nat :=
  d.indent.length + d.head.keyword.length + d.head.afterKeyword.length +
    (d.head.name.length + d.size.length + (d.afterList.length + d.close.length))

variable {d} {blanks close rest : List Char} {length : Nat}

theorem isWord_keyword : IsWord d.head.keyword := by
  obtain ⟨k, hk, hspelled⟩ := d.head.spells_keyword
  have hall : ∀ k ∈ listKeywords, k ≠ [] ∧ k.all Char.isUpper = true := by decide
  exact hspelled.isWord (hall k hk)

theorem not_spells_keyword {k : List Char} (hk : k ∉ listKeywords) : ¬Spells k d.head.keyword := by
  obtain ⟨k', hk', hspelled⟩ := d.head.spells_keyword
  intro h
  exact hk ((show d.head.keyword.map foldLetter = k from h) ▸
    (show d.head.keyword.map foldLetter = k' from hspelled) ▸ hk')

theorem isTyped : IsTyped d.head.name d.size d.afterList d.close d.rest where
  isWord := d.isWord_head
  isSize := Or.inr ⟨d.head.afterName, _, d.head.allBlank_afterName, by simp [d.name_ne_nil],
    d.close_not_mem, rfl⟩
  allBlank := d.allBlank_afterList
  closes := d.closes
  stops := by
    rw [size, List.append_assoc]
    exact d.head.allBlank_afterName.stops_append isWord_of_isBlank (stops_cons.mpr (by decide))

theorem front_append : d.front ++ (d.name ++ d.back) = d.ahead ++ (d.indent ++ d.declaration) := by
  simp [front, opening, back, declaration, signature, size, ListHead.chars]

/-- The name of the procedure or function is read as a type, and the list as its size. -/
theorem constantToEnd?_signature : constantToEnd? d.signature =
    some (d.head.name.length + d.size.length + (d.afterList.length + d.close.length)) := by
  have htype := typeToEnd?_eq_some_iff.mpr ⟨_, _, _, _, _, d.isTyped, rfl, rfl⟩
  -- no type follows a name that is the modifier, as a parenthesis does
  have hnone : ((phrase? ["CONSTANT".toList] d.signature).bind fun length =>
      (typeToEnd? (d.signature.drop length)).map (length + ·)) = none := by
    rw [Option.bind_eq_none_iff]
    intro length hlength
    obtain ⟨spelled, blanks, back, hspelled, hblanks, hne, hback, htext, rfl⟩ :=
      phrase?_singleton_iff.mp hlength
    have hword : IsWord spelled := hspelled.isWord (by decide)
    obtain ⟨-, hsize⟩ := run_append_inj d.isWord_head.all_isWord hword.all_isWord d.isTyped.stops
      (hblanks.stops_isWord hne back) htext
    rw [size, List.append_assoc] at hsize
    obtain ⟨-, hopen⟩ := run_append_inj d.head.allBlank_afterName hblanks
      (stops_cons.mpr (by decide)) hback hsize
    have hword? : word? back = none := word?_eq_none_iff.mpr (hopen ▸ stops_cons.mpr (by decide))
    rw [htext, drop_append_append, typeToEnd?, hword?]
    rfl
  rw [constantToEnd?, hnone]
  exact htype

theorem declaredVariable_line : declaredVariable d.ahead.reverse (d.indent ++ d.declaration) =
    some (declaredName? d.head.keyword, d.span) :=
  declaredVariable_eq_some_iff.mpr ⟨d.atLineStart_ahead, d.indent, d.head.keyword,
    d.head.afterKeyword, d.signature, _, d.allBlank_indent, isWord_keyword,
    d.head.allBlank_afterKeyword, d.head.afterKeyword_ne_nil, d.isWord_head.stops_isBlank _,
    constantToEnd?_signature, rfl, rfl, rfl⟩

theorem close_not_mem_opening : ')' ∉ d.opening ++ (d.name ++ d.more) := by
  have hclose := d.close_not_mem
  simp only [opening, ListHead.chars, List.mem_append, List.mem_cons, List.not_mem_nil, or_false,
    not_or] at hclose ⊢
  exact ⟨⟨d.allBlank_indent.not_mem (by decide), ⟨isWord_keyword.not_mem (by decide),
    d.head.allBlank_afterKeyword.not_mem (by decide), d.isWord_head.not_mem (by decide),
    d.head.allBlank_afterName.not_mem (by decide), by decide⟩, hclose.1⟩, hclose.2⟩

theorem indent_append_declaration : d.indent ++ d.declaration =
    (d.opening ++ (d.name ++ d.more)) ++ ')' :: (d.afterList ++ (d.close ++ d.rest)) := by
  simp [opening, declaration, signature, size, ListHead.chars]

theorem length_opening_lt_span : d.opening.length < d.span := by
  have hpos := List.length_pos_iff.mpr d.name_ne_nil
  simp only [span, opening, ListHead.chars, size, List.length_append, List.length_cons,
    List.length_nil]
  omega

/-! ### What the keyword is not -/

theorem append_ne_declaration {k spelled : List Char} (hspelled : Spells k spelled)
    (hword : IsWord spelled) (hk : k ∉ listKeywords) (hrest : Stops isWord rest) :
    spelled ++ rest ≠ d.declaration := by
  intro heq
  obtain ⟨rfl, -⟩ := run_append_inj hword.all_isWord isWord_keyword.all_isWord hrest
    (d.head.allBlank_afterKeyword.stops_isWord d.head.afterKeyword_ne_nil _) heq
  exact not_spells_keyword hk hspelled

theorem close_append_ne_declaration (h : Closes close rest) : close ++ rest ≠ d.declaration := by
  cases h with
  | assignment | semicolon => exact fun heq ↦ isWord_keyword.append_ne (by decide) _ _ heq.symm
  | default hspelled hrest =>
    exact append_ne_declaration hspelled (hspelled.isWord (by decide)) (by decide) hrest

theorem typeToEnd?_declaration : typeToEnd? d.declaration = none := by
  rw [Option.eq_none_iff_forall_ne_some]
  intro length h
  obtain ⟨word, size, blanks, close, rest, htyped, htext, -⟩ := typeToEnd?_eq_some_iff.mp h
  obtain ⟨-, hbehind⟩ := run_append_inj isWord_keyword.all_isWord htyped.isWord.all_isWord
    (d.head.allBlank_afterKeyword.stops_isWord d.head.afterKeyword_ne_nil _) htyped.stops htext
  have hstops : Stops isBlank d.signature := d.isWord_head.stops_isBlank _
  rcases htyped.isSize with rfl | ⟨blanks', body, hblanks', -, -, rfl⟩
  · obtain ⟨-, hclose⟩ := run_append_inj d.head.allBlank_afterKeyword htyped.allBlank hstops
      (htyped.closes.stops_isBlank rest) hbehind
    cases htyped.closes with
    | assignment | semicolon => exact d.isWord_head.append_ne (by decide) _ _ hclose
    | default hspelled hrest =>
      have hword : IsWord close := hspelled.isWord (by decide)
      obtain ⟨hname, -⟩ := run_append_inj d.isWord_head.all_isWord hword.all_isWord d.isTyped.stops
        hrest hclose
      exact d.head_ne_default (hname ▸ hspelled)
  · rw [List.append_assoc] at hbehind
    obtain ⟨-, hopen⟩ := run_append_inj d.head.allBlank_afterKeyword hblanks' hstops
      (stops_cons.mpr (by decide)) hbehind
    exact d.isWord_head.append_ne (by decide) _ _ hopen

theorem constantToEnd?_declaration : constantToEnd? d.declaration = none := by
  rw [Option.eq_none_iff_forall_ne_some]
  intro length h
  obtain ⟨modifier, rest, tail, hmodifier, htail, htext, -⟩ := exists_of_constantToEnd? h
  rcases hmodifier with rfl | ⟨spelled, blanks, hspelled, hblanks, hne, rfl⟩
  · rw [List.nil_append] at htext
    rw [← htext, typeToEnd?_declaration] at htail
    cases htail
  · rw [List.append_assoc] at htext
    exact append_ne_declaration hspelled (hspelled.isWord (by decide)) (by decide)
      (hblanks.stops_isWord hne _) htext.symm

/-! ### What reaches over the start of the line -/

section Reach

variable {before : List Char}

theorem exists_of_isWord {word behind line : List Char} (hword : IsWord word)
    (h : word ++ behind = before ++ '\n' :: line) :
    ∃ before', before = word ++ before' ∧ behind = before' ++ '\n' :: line :=
  split_append_of_not_mem (hword.not_mem (by decide)) h

theorem exists_of_allBlank (hblanks : AllBlank blanks) (hrest : Stops isBlank rest)
    (h : blanks ++ rest = before ++ '\n' :: (d.indent ++ d.declaration)) :
    blanks = before ++ '\n' :: d.indent ∧ rest = d.declaration ∨
      ∃ before', before = blanks ++ before' ∧
        rest = before' ++ '\n' :: (d.indent ++ d.declaration) :=
  run_append_split hblanks hrest d.allBlank_indent (isWord_keyword.stops_isBlank _) h

theorem length_le_of_closes (hblanks : AllBlank blanks) (hclose : Closes close rest)
    (h : blanks ++ (close ++ rest) = before ++ '\n' :: (d.indent ++ d.declaration)) :
    blanks.length + close.length ≤ before.length := by
  rcases exists_of_allBlank hblanks (hclose.stops_isBlank rest) h with
    ⟨-, hline⟩ | ⟨before, rfl, hrest⟩
  · exact absurd hline (close_append_ne_declaration hclose)
  · have hnewline : '\n' ∉ close := by
      cases hclose with
      | assignment | semicolon => decide
      | default hspelled _ =>
        exact (hspelled.isWord (by decide)).not_mem (by decide)
    obtain ⟨before, rfl, -⟩ := split_append_of_not_mem hnewline hrest
    simp only [List.length_append]
    omega

theorem exists_of_body {body : List Char} (hbody : ')' ∉ body)
    (h : body ++ ')' :: rest = before ++ '\n' :: (d.indent ++ d.declaration)) :
    before.length + d.opening.length + 1 < body.length ∨
      ∃ before', before = body ++ ')' :: before' ∧
        rest = before' ++ '\n' :: (d.indent ++ d.declaration) := by
  rcases split_append h with ⟨behind, rfl⟩ | ⟨before, rfl, hrest⟩
  · left
    rw [List.append_assoc, List.cons_append] at h
    obtain ⟨-, hline⟩ := List.cons_eq_cons.mp (List.append_cancel_left h)
    have hbehind : ')' ∉ behind := fun hmem ↦ hbody (by simp [hmem])
    have hsame : behind = d.opening ++ (d.name ++ d.more) := by
      rw [← takeWhile_bne_append hbehind rest, hline, indent_append_declaration,
        takeWhile_bne_append close_not_mem_opening]
    have hpos := List.length_pos_iff.mpr d.name_ne_nil
    rw [hsame]
    simp only [List.length_append, List.length_cons]
    omega
  · right
    cases before with
    | nil => exact absurd (List.cons_eq_cons.mp hrest).1 (by decide)
    | cons c before =>
      obtain ⟨rfl, hbehind⟩ := List.cons_eq_cons.mp hrest
      exact ⟨before, rfl, hbehind⟩

theorem length_of_typeToEnd?
    (h : typeToEnd? (before ++ '\n' :: (d.indent ++ d.declaration)) = some length) :
    length ≤ before.length ∨ before.length + d.opening.length + 1 < length := by
  obtain ⟨word, size, blanks, close, rest, htyped, htext, rfl⟩ := typeToEnd?_eq_some_iff.mp h
  obtain ⟨before, rfl, hsize⟩ := exists_of_isWord htyped.isWord htext.symm
  -- only a size can hold the start of the line, and then it holds what opens the list, too
  rcases htyped.isSize with rfl | ⟨blanks', body, hblanks', -, hbody, rfl⟩
  · left
    have hle := length_le_of_closes htyped.allBlank htyped.closes hsize
    simp only [List.length_append, List.length_nil]
    omega
  · have hstops : Stops isBlank ('(' :: (body ++ ')' :: (blanks ++ (close ++ rest)))) :=
      stops_cons.mpr (by decide)
    rcases exists_of_allBlank hblanks' hstops (by simpa using hsize) with
      ⟨-, hopen⟩ | ⟨before, rfl, hinside⟩
    · exact absurd hopen.symm (isWord_keyword.append_ne (by decide) _ _)
    · have hbody' : ')' ∉ '(' :: body := by simp [hbody]
      rcases exists_of_body hbody' hinside with hlt | ⟨before, rfl, hend⟩
      · right
        simp only [List.length_append, List.length_cons, List.length_nil] at hlt ⊢
        omega
      · left
        have hle := length_le_of_closes htyped.allBlank htyped.closes hend
        simp only [List.length_append, List.length_cons, List.length_nil]
        omega

theorem length_of_constantToEnd?
    (h : constantToEnd? (before ++ '\n' :: (d.indent ++ d.declaration)) = some length) :
    length ≤ before.length ∨ before.length + d.opening.length + 1 < length := by
  obtain ⟨modifier, rest, tail, hmodifier, htail, htext, rfl⟩ := exists_of_constantToEnd? h
  rcases hmodifier with rfl | ⟨spelled, blanks, hspelled, hblanks, -, rfl⟩
  · rw [List.nil_append] at htext
    rw [← htext] at htail
    simpa using length_of_typeToEnd? htail
  · obtain ⟨word, size, gap, close, behind, htyped, rfl, -⟩ := typeToEnd?_eq_some_iff.mp htail
    rw [List.append_assoc] at htext
    obtain ⟨before, rfl, hmodified⟩ := exists_of_isWord
      (hspelled.isWord (by decide)) htext.symm
    rcases exists_of_allBlank hblanks (htyped.isWord.stops_isBlank _) hmodified with
      ⟨-, hline⟩ | ⟨before, rfl, hrest⟩
    · -- the modifier ends right before the line, which is not read as a type
      rw [hline, typeToEnd?_declaration] at htail
      cases htail
    · rw [hrest] at htail
      have hlength := length_of_typeToEnd? htail
      simp only [List.length_append]
      omega

/-- A declaration of a variable that reaches over the start of the line reaches over the name. -/
theorem length_of_declaredVariable {ahead : List Char} {found : Option (List Char)}
    (h : declaredVariable ahead (before ++ '\n' :: (d.indent ++ d.declaration)) =
      some (found, length)) :
    length ≤ before.length ∨ before.length + d.opening.length + 1 < length := by
  obtain ⟨-, indent, name, gap, back, tail, hindent, hword, hgap, hne, hback, htail, htext, -,
    rfl⟩ := declaredVariable_eq_some_iff.mp h
  rcases exists_of_allBlank hindent (hword.stops_isBlank _) htext.symm with
    ⟨rfl, hline⟩ | ⟨before, rfl, hname⟩
  · -- it is the declaration of the list itself
    right
    obtain ⟨rfl, hbehind⟩ := run_append_inj hword.all_isWord isWord_keyword.all_isWord
      (hgap.stops_isWord hne _) (d.head.allBlank_afterKeyword.stops_isWord
        d.head.afterKeyword_ne_nil _) hline
    obtain ⟨rfl, hsignature⟩ := run_append_inj hgap d.head.allBlank_afterKeyword hback
      (d.isWord_head.stops_isBlank _) hbehind
    have hback : back = d.signature := hsignature
    rw [hback, constantToEnd?_signature] at htail
    obtain rfl := Option.some_inj.mp htail
    have hspan := length_opening_lt_span (d := d)
    rw [span] at hspan
    rw [List.length_append, List.length_cons]
    omega
  · obtain ⟨before, rfl, hbehind⟩ := exists_of_isWord hword hname
    rcases exists_of_allBlank hgap hback hbehind with ⟨-, hline⟩ | ⟨before, rfl, hrest⟩
    · rw [hline, constantToEnd?_declaration] at htail
      cases htail
    · rw [hrest] at htail
      have hlength := length_of_constantToEnd? htail
      simp only [List.length_append]
      omega

end Reach

theorem endsInList_front : EndsInList d.front := by
  obtain ⟨pieces, hpieces⟩ := exists_splits d.inside
  have hline : StartsLine d.ahead (d.ahead ++ d.indent) :=
    ⟨d.indent, d.allBlank_indent, d.atLineStart_ahead, rfl⟩
  refine ⟨d.ahead ++ d.indent, d.head, d.inside, pieces,
    atWordStart_iff.mpr (hline.stops isWord_of_isBlank), ?_, hpieces, ?_⟩
  · rw [front, opening, List.append_assoc]
  · refine isSome_depthAfter?_of_not_mem (fun hmem ↦ ?_) 0
    obtain ⟨q, hq, hcode⟩ := List.mem_flatMap.mp hmem
    have hinside : ')' ∈ d.inside :=
      hpieces.flatMap_chars ▸ List.mem_flatMap.mpr ⟨q, hq, q.code_subset hcode⟩
    exact d.close_not_mem (List.mem_append_left _ hinside)

/-- Some declaration is found that starts no later than the line and reaches over the name. -/
theorem exists_finds {text : List Char} (htext : text = d.front ++ (d.name ++ d.back)) :
    ∃ m, Text.Finds declaredVariable text m ∧ m.start ≤ d.ahead.length ∧
      d.front.length < m.stop := by
  rw [front_append] at htext
  rw [front, List.length_append]
  by_cases hclear : ∀ m, Text.Finds declaredVariable text m → m.start < d.ahead.length →
      m.stop ≤ d.ahead.length
  · -- the declaration of the list itself is found
    rw [htext] at hclear ⊢
    exact ⟨_, Text.finds_append takesText_declaredVariable declaredVariable_line hclear,
      Nat.le_refl _, Nat.add_lt_add_left length_opening_lt_span _⟩
  · simp only [not_forall, not_le] at hclear
    obtain ⟨m, hm, hlt, hover⟩ := hclear
    refine ⟨m, hm, Nat.le_of_lt hlt, ?_⟩
    have hmatch := ((Text.finds_iff takesText_declaredVariable).mp hm).1
    have hrecognised := Text.recognise_of_matchAt? hmatch
    -- a line that is not the first starts behind a newline
    have hstart := d.atLineStart_ahead
    rcases List.eq_nil_or_concat d.ahead with hnil | ⟨before, c, hahead⟩
    · rw [hnil] at hlt
      cases hlt
    · rw [hahead, List.concat_eq_append, List.reverse_append] at hstart
      obtain rfl := eq_of_beq hstart
      rw [hahead, List.concat_eq_append, List.length_append, List.length_singleton] at hlt hover ⊢
      have hle : m.start ≤ before.length := Nat.le_of_lt_succ hlt
      rw [htext, hahead, List.concat_eq_append, List.append_assoc, List.singleton_append,
        List.drop_append_of_le_length hle] at hrecognised
      have hlength := length_of_declaredVariable hrecognised
      rw [List.length_drop] at hlength
      rw [Text.Match.stop] at hover ⊢
      omega

/-- Where the name is the first on its line, something reaches over the start of that line. -/
theorem isReachedOver_of_startsLine {text ahead : List Char}
    (htext : text = d.front ++ (d.name ++ d.back)) (h : StartsLine ahead d.front) :
    IsReachedOver text ahead.length := by
  obtain ⟨indent, hindent, -, hfront⟩ := h
  obtain ⟨m, hm, hstart, hstop⟩ := exists_finds htext
  have hlt : d.ahead.length < ahead.length := by
    by_contra hle
    -- the keyword would be one of the blanks in front of the name
    obtain ⟨behind, hahead⟩ := (List.prefix_of_prefix_length_le (List.prefix_append ahead indent)
      (hfront ▸ List.prefix_append d.ahead d.opening) (Nat.not_lt.mp hle))
    rw [front, ← hahead, List.append_assoc] at hfront
    have hmem : ∀ c ∈ d.head.keyword, c ∈ indent := by
      intro c hc
      rw [← List.append_cancel_left hfront]
      simp [opening, ListHead.chars, hc]
    obtain ⟨c, hc⟩ := List.exists_mem_of_ne_nil _ (isWord_keyword (d := d)).ne_nil
    have hblank := isBlank_of_isWord (isWord_keyword.all_isWord c hc)
    rw [hindent c (hmem c hc)] at hblank
    cases hblank
  have hle : ahead.length ≤ d.front.length := by
    rw [hfront, List.length_append]
    omega
  exact ⟨m, hm, Nat.lt_of_le_of_lt hstart hlt, Nat.lt_of_le_of_lt hle hstop⟩

end FlatList

/-! ## Parameters that are reported -/

theorem isIdentifier_of_startsLine {ahead front name back : List Char} (hword : IsWord name)
    (hfront : StartsLine ahead front) (hback : IsVariableTail back) :
    IsIdentifier front name back where
  ne_nil := hword.ne_nil
  all_isNameChar c hc := isNameChar_of_isWord (hword.all_isWord c hc)
  front_stops := hfront.stops isNameChar_of_isBlank
  back_stops := by
    obtain ⟨gap, rest, -, hgap, hne, -, -, rfl⟩ := isVariableTail_iff.mp hback
    refine Stops.append_of_ne_nil (fun c hc ↦ isNameChar_of_isBlank (hgap c ?_)) hne _
    exact List.mem_of_mem_head? hc

theorem eq_of_place {text front name back : List Char} {i : Nat}
    (hplace : ∀ j ≤ text.length, name <+: text.drop j → j = i)
    (htext : text = front ++ (name ++ back)) :
    front = text.take i ∧ back = text.drop (i + name.length) := by
  have hlength : front.length = i := by
    refine hplace _ ?_ ?_
    · rw [htext, List.length_append]
      omega
    · rw [htext, List.drop_left]
      exact List.prefix_append _ _
  subst hlength
  rw [← List.drop_drop, htext, List.take_left, List.drop_left, List.drop_left]
  exact ⟨rfl, rfl⟩

theorem onlyInLists_of_place {text name : List Char} {i : Nat}
    (hplace : ∀ j ≤ text.length, name <+: text.drop j → j = i) (hlist : EndsInList (text.take i)) :
    OnlyInLists text name :=
  fun _ _ _ htext ↦ (eq_of_place hplace htext).1 ▸ hlist

/-- **Parameters and variables.** A name that stands in parameter lists only is reported as a
variable exactly if it is a word, not one that declares nothing, and stands somewhere as the first
on its line and in front of a type and the end of a declaration, where no declaration of a variable
that is found reaches over the start of the line. So it is not reported if each such place is in a
list that is read as the size of a type. -/
theorem mem_variableNames_iff_of_onlyInLists (p : Package) (name : List Char)
    (honly : OnlyInLists (specification p) name) :
    (String.ofList name ∈ variableNames p ↔
      isDeclarationKeyword (String.ofList name) = false ∧ IsWord name ∧
        ∃ ahead front back, IsParameter (specification p) front name back ∧ IsVariableTail back ∧
          StartsLine ahead front ∧ ¬IsReachedOver (specification p) ahead.length) ∧
    ((∀ ahead front back, IsParameter (specification p) front name back → IsVariableTail back →
      StartsLine ahead front → ∃ d : FlatList, d.front = front ∧ d.name = name ∧ d.back = back) →
      String.ofList name ∉ variableNames p) := by
  -- a name that declares a variable is an identifier, so it stands in a list
  have hparameter : ∀ ahead front back, IsWord name → specification p = front ++ (name ++ back) →
      IsVariableTail back → StartsLine ahead front →
      IsParameter (specification p) front name back := by
    intro ahead front back hword htext hback hfront
    have hidentifier := isIdentifier_of_startsLine hword hfront hback
    exact ⟨htext, hidentifier, honly front back hidentifier htext⟩
  rw [mem_variableNames_iff]
  constructor
  · constructor
    · rintro ⟨hkeyword, hword, ahead, front, back, htext, hback, hfront, hclear⟩
      exact ⟨hkeyword, hword, ahead, front, back, hparameter _ _ _ hword htext hback hfront, hback,
        hfront, hclear⟩
    · rintro ⟨hkeyword, hword, ahead, front, back, hparameter, hback, hfront, hclear⟩
      exact ⟨hkeyword, hword, ahead, front, back, hparameter.text_eq, hback, hfront, hclear⟩
  · rintro hflat ⟨-, hword, ahead, front, back, htext, hback, hfront, hclear⟩
    obtain ⟨d, rfl, rfl, rfl⟩ := hflat ahead front back
      (hparameter _ _ _ hword htext hback hfront) hback hfront
    exact hclear (FlatList.isReachedOver_of_startsLine htext hfront)

theorem exists_flatList_rate : ∃ d : FlatList, d.front = "PROCEDURE rate(\n  ".toList ∧
    d.name = "base".toList ∧ d.back = " NUMBER := 1\n);".toList := by
  refine ⟨{
    ahead := []
    indent := []
    head := {
      keyword := "PROCEDURE".toList
      afterKeyword := [' ']
      name := "rate".toList
      afterName := []
      spells_keyword := ⟨"PROCEDURE".toList, List.mem_cons_self, by decide⟩
      allBlank_afterKeyword := by decide
      afterKeyword_ne_nil := by decide
      name_ne_nil := by decide
      all_name := List.all_eq_true.mp (by decide)
      allBlank_afterName := by decide }
    inside := "\n  ".toList
    name := "base".toList
    more := " NUMBER := 1\n".toList
    afterList := []
    close := [';']
    rest := []
    atLineStart_ahead := rfl
    allBlank_indent := by decide
    isWord_head := by decide
    head_ne_default := by decide
    name_ne_nil := by decide
    close_not_mem := by decide
    allBlank_afterList := by decide
    closes := .semicolon }, ?_, ?_, ?_⟩ <;> decide

/-- The parameter of the procedure is not reported. -/
theorem mem_variableNames_iff_of_onlyInLists_procedure :
    OnlyInLists "PROCEDURE rate(\n  base NUMBER := 1\n);".toList "base".toList ∧
      "base" ∉ variableNames (payPackage "PROCEDURE rate(\n  base NUMBER := 1\n);") := by
  obtain ⟨d, hfront, hname, hback⟩ := exists_flatList_rate
  -- the name stands at one position only
  have hplace : ∀ j ≤ "PROCEDURE rate(\n  base NUMBER := 1\n);".toList.length,
      "base".toList <+: "PROCEDURE rate(\n  base NUMBER := 1\n);".toList.drop j → j = 18 := by
    decide
  have hlist : EndsInList "PROCEDURE rate(\n  ".toList := hfront ▸ d.endsInList_front
  have honly : OnlyInLists "PROCEDURE rate(\n  base NUMBER := 1\n);".toList "base".toList :=
    onlyInLists_of_place hplace hlist
  have hspecification : specification (payPackage "PROCEDURE rate(\n  base NUMBER := 1\n);") =
      "PROCEDURE rate(\n  base NUMBER := 1\n);".toList := by decide
  refine ⟨honly, (mem_variableNames_iff_of_onlyInLists (payPackage _) "base".toList
    (hspecification ▸ honly)).2 fun ahead front back hparameter _ _ ↦ ?_⟩
  obtain ⟨rfl, rfl⟩ := eq_of_place hplace (hspecification ▸ hparameter.text_eq)
  exact ⟨d, hfront, hname, hback⟩

/-- The parameter of a function is reported as a variable, although it stands in the list only. -/
theorem mem_variableNames_function :
    OnlyInLists (specification (payPackage "FUNCTION rate(\n  base NUMBER := 1\n) RETURN NUMBER;"))
        "base".toList ∧
      variableNames (payPackage "FUNCTION rate(\n  base NUMBER := 1\n) RETURN NUMBER;") =
        ["base"] := by
  have hspecification :
      specification (payPackage "FUNCTION rate(\n  base NUMBER := 1\n) RETURN NUMBER;") =
        "FUNCTION rate(\n  base NUMBER := 1\n) RETURN NUMBER;".toList := by decide
  have hplace : ∀ j ≤ "FUNCTION rate(\n  base NUMBER := 1\n) RETURN NUMBER;".toList.length,
      "base".toList <+: "FUNCTION rate(\n  base NUMBER := 1\n) RETURN NUMBER;".toList.drop j →
        j = 17 := by decide
  have hsplits : Splits ("\n  ".toList ++ []) _ := splits_append_of_no_marks (by decide) .nil
  have hlist : EndsInList "FUNCTION rate(\n  ".toList := ⟨[], {
    keyword := "FUNCTION".toList
    afterKeyword := [' ']
    name := "rate".toList
    afterName := []
    spells_keyword := ⟨"FUNCTION".toList, List.mem_cons_of_mem _ List.mem_cons_self, by decide⟩
    allBlank_afterKeyword := by decide
    afterKeyword_ne_nil := by decide
    name_ne_nil := by decide
    all_name := List.all_eq_true.mp (by decide)
    allBlank_afterName := by decide }, "\n  ".toList, _, rfl, by decide, hsplits, by decide⟩
  rw [hspecification]
  exact ⟨onlyInLists_of_place hplace hlist, by decide⟩

end Lineage.Source
