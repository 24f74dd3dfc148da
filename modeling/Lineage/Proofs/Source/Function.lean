import Lineage.Proofs.Source.Declaration
import Lineage.Proofs.Source.Parenthesis
import Lineage.Proofs.Source.Piece

/-!
# Functions and the literals in their parameters

The declaration of a function is read behind the parenthesis that closes its parameter list, where
its return type stands. Which parenthesis that is, is found by counting, and the count takes in the
parentheses in literals. So a function is found if the parentheses of its parameters are balanced as
characters. They are balanced in the language as soon as those outside literals are; the two are the
same where no literal holds a parenthesis, and where one does the count may close the list too early
or never.

Then the function is not found, unless the text that is left happens to go on with a return type, or
some other part of the text reads as a declaration. Where the parameters leave neither possible, a
function is found exactly if its parameters are balanced, literals included, and its name and type
are words.

Removing comments has to leave the text as it is for any of this. It does if there is no comment
among the parameters, even where these leave a literal open: that a comment was removed shows in the
length of what is written (`length_written_add_cost_le`), and behind the parameters there is no
character that has a meaning for it.
-/

namespace Lineage.Source

open Text (isBlank isWord)

variable {p : Package} {text front back rest blanks : List Char} {pieces : List Piece}

/-! ## Texts without comments -/

/-- The characters that removing comments acts upon, outside comments. -/
def commentMarks : List Char := ['\'', '-', '/']

/-- Whether a text has none of these characters. -/
def IsUnmarked (text : List Char) : Prop := ∀ c ∈ text, c ∉ commentMarks

instance (text : List Char) : Decidable (IsUnmarked text) :=
  decidable_of_iff (text.all (· ∉ commentMarks) = true) (by simp [IsUnmarked])

namespace Mode

variable {mode : Mode}

/-- The number of characters by which the output is shorter than the text, at least. -/
def cost : Mode → Nat
  | code | literal | apostrophe => 0
  | dash | slash => 1
  | line | block => 2
  | star => 3

theorem length_stepCode_add_cost_le (c : Char) :
    (stepCode c).2.length + (stepCode c).1.cost ≤ 1 := by
  rw [stepCode]
  split_ifs <;> simp [cost]

theorem length_step_add_cost_le (mode : Mode) (c : Char) :
    (mode.step c).2.length + (mode.step c).1.cost ≤ mode.cost + 1 := by
  have hcode := length_stepCode_add_cost_le c
  cases mode with
  | code => exact hcode
  | dash | slash =>
    simp only [step]
    split
    · simp [cost]
    · exact Nat.add_right_comm _ 1 _ ▸ Nat.add_le_add_right hcode 1
  | apostrophe =>
    simp only [step]
    split
    · simp [cost]
    · exact hcode
  | literal | line | block =>
    simp only [step]
    split <;> simp [cost]
  | star =>
    simp only [step]
    split
    · decide
    · split <;> decide

theorem length_written_add_cost_le (mode : Mode) (text : List Char) :
    (mode.written text).length + (mode.after text).cost ≤ mode.cost + text.length := by
  induction text generalizing mode with
  | nil => simp
  | cons c text ih =>
    have hstep := mode.length_step_add_cost_le c
    have hrest := ih (mode.step c).1
    rw [written_cons, after_cons, List.length_append, List.length_cons]
    omega

/-- A text that is its own output ends in a literal or in plain code. -/
theorem isPlain_or_literal_of_output_eq (h : Mode.code.output text = text) :
    (Mode.code.after text).isPlain = true ∨ Mode.code.after text = .literal := by
  have hwritten := Mode.code.length_written_add_cost_le text
  have hlength := congrArg List.length h
  rw [output, List.length_append] at hlength
  cases hmode : Mode.code.after text with
  | code | dash | slash | apostrophe => exact Or.inl rfl
  | literal => exact Or.inr rfl
  | line | block | star =>
    simp only [hmode, cost, finish, List.length_nil, List.length_cons] at hwritten hlength
    omega

theorem step_code_of_not_mem {c : Char} (hc : c ∉ commentMarks) :
    Mode.code.step c = (.code, [c]) := by
  simp only [commentMarks, List.mem_cons, List.not_mem_nil, or_false, not_or] at hc
  simp [step, stepCode, hc]

theorem read_of_no_marks (h : IsUnmarked text) :
    Mode.code.after text = .code ∧ Mode.code.written text = text := by
  induction text with
  | nil => exact ⟨rfl, rfl⟩
  | cons c text ih =>
    obtain ⟨hc, htext⟩ := List.forall_mem_cons.mp h
    rw [after_cons, written_cons, step_code_of_not_mem hc]
    exact ⟨(ih htext).1, congrArg (c :: ·) (ih htext).2⟩

theorem output_of_no_marks (hmode : mode.isPlain = true ∨ mode = .literal)
    (h : IsUnmarked text) (hstar : text.head? ≠ some '*') :
    mode.output text = mode.finish ++ text := by
  rcases hmode with hplain | rfl
  · have hcode : Mode.code.output text = text := by
      rw [output, (read_of_no_marks h).1, (read_of_no_marks h).2]
      exact List.append_nil text
    rw [output_of_awaited_ne hplain, hcode]
    intro c hc hhead
    have hmark : c ∉ commentMarks := h c (List.mem_of_mem_head? hhead)
    cases mode with
    | dash | apostrophe => exact hmark (Option.some_inj.mp hc ▸ by decide)
    | slash => exact hstar (hhead.trans hc.symm)
    | code | literal | line | block | star => cases hc
  · have hliteral : InLiteral text := by
      clear hstar
      induction text with
      | nil => exact .nil
      | cons c text ih =>
        obtain ⟨hc, htext⟩ := List.forall_mem_cons.mp h
        exact .other (fun heq ↦ hc (heq ▸ by decide)) (ih htext)
    rw [output, (read_inLiteral hliteral).1, (read_inLiteral hliteral).2]
    exact List.append_nil text

end Mode

namespace Piece

/-- Whether a piece is a comment. -/
def IsComment : Piece → Prop
  | lineComment _ | blockComment _ => True
  | literal _ | single _ => False

/-- Whether a piece is a literal. -/
def IsLiteral : Piece → Prop
  | literal _ => True
  | lineComment _ | blockComment _ | single _ => False

/-- What stands in a piece outside literals and comments. -/
def code : Piece → List Char
  | single c => [c]
  | literal _ | lineComment _ | blockComment _ => []

theorem code_subset (q : Piece) : q.code ⊆ q.chars := by
  cases q with
  | single => exact fun c hc ↦ hc
  | literal | lineComment | blockComment => exact List.nil_subset _

theorem kept_eq_chars {q : Piece} (h : ¬q.IsComment) : q.kept = q.chars := by
  cases q with
  | literal | single => rfl
  | lineComment | blockComment => exact absurd trivial h

end Piece

/-- A text without comments is left as it is, with any text without marks around it. -/
theorem withoutComments_eq_self {inside : List Char} (hpieces : Splits inside pieces)
    (hcomments : ∀ q ∈ pieces, ¬q.IsComment) (hfront : IsUnmarked front) (hback : IsUnmarked back)
    (hstar : back.head? ≠ some '*') :
    withoutComments (front ++ (inside ++ back)) = front ++ (inside ++ back) := by
  have hinside : Mode.code.output inside = inside := by
    rw [← withoutComments_eq_output, hpieces.withoutComments_eq]
    conv_rhs => rw [← hpieces.flatMap_chars]
    exact List.flatMap_congr fun q hq ↦ Piece.kept_eq_chars (hcomments q hq)
  have hmode := Mode.isPlain_or_literal_of_output_eq hinside
  obtain ⟨hafter, hwritten⟩ := Mode.read_of_no_marks hfront
  rw [withoutComments_eq_output, Mode.output_append, hafter, hwritten, Mode.output_append,
    Mode.output_of_no_marks hmode hback hstar, ← List.append_assoc _ _ back, ← Mode.output, hinside]

theorem splits_append_of_no_marks (hfront : IsUnmarked front) (hback : Splits back pieces) :
    Splits (front ++ back) (front.map .single ++ pieces) := by
  induction front with
  | nil => exact hback
  | cons c front ih =>
    obtain ⟨hc, hfront⟩ := List.forall_mem_cons.mp hfront
    simp only [commentMarks, List.mem_cons, List.not_mem_nil, or_false, not_or] at hc
    exact .cons (.single hc.1 (fun h ↦ absurd h hc.2.1) fun h ↦ absurd h hc.2.2) (ih hfront)

theorem depthAfter?_chars_eq_code (hcomments : ∀ q ∈ pieces, ¬q.IsComment)
    (hliterals : ∀ q ∈ pieces, q.IsLiteral → '(' ∉ q.chars ∧ ')' ∉ q.chars) (depth : Nat) :
    depthAfter? depth (pieces.flatMap Piece.chars) =
      depthAfter? depth (pieces.flatMap Piece.code) := by
  induction pieces generalizing depth with
  | nil => rfl
  | cons q pieces ih =>
    obtain ⟨hcomment, hcomments⟩ := List.forall_mem_cons.mp hcomments
    obtain ⟨hliteral, hliterals⟩ := List.forall_mem_cons.mp hliterals
    have hsame : depthAfter? depth q.chars = depthAfter? depth q.code := by
      cases q with
      | literal chars =>
        obtain ⟨hopen, hclose⟩ := hliteral trivial
        exact depthAfter?_of_not_mem hopen hclose depth
      | lineComment | blockComment => exact absurd trivial hcomment
      | single => rfl
    rw [List.flatMap_cons, List.flatMap_cons, depthAfter?_append, depthAfter?_append, hsame]
    exact Option.bind_congr fun after _ ↦ ih hcomments hliterals after

/-! ## Return types -/

theorem returnType?_append {spelled gap : List Char} (hblanks : AllBlank blanks)
    (hspelled : Spells "RETURN".toList spelled) (hgap : AllBlank gap) (hne : gap ≠ [])
    (hrest : Stops isBlank rest) :
    returnType? (blanks ++ (spelled ++ (gap ++ rest))) = typeName? rest := by
  have hword : IsWord spelled := hspelled.isWord (by decide)
  have hphrase := phrase?_singleton_iff.mpr
    ⟨spelled, gap, rest, hspelled, hgap, hne, hrest, rfl, rfl⟩
  simp only [returnType?, afterGap_append hblanks (hword.stops_isBlank _), hphrase,
    Option.bind_eq_bind, Option.bind_some, drop_append_append]

theorem exists_of_returnType? {type : List Char} (h : returnType? text = some type) :
    ∃ blanks spelled rest, AllBlank blanks ∧ Spells "RETURN".toList spelled ∧
      text = blanks ++ (spelled ++ rest) := by
  obtain ⟨blanks, back, hblanks, hstops, rfl⟩ := exists_blanks text
  rw [returnType?, afterGap_append hblanks hstops, Option.bind_eq_bind,
    Option.bind_eq_some_iff] at h
  obtain ⟨length, hlength, -⟩ := h
  obtain ⟨spelled, gap, rest, hspelled, -, -, -, rfl, -⟩ := phrase?_singleton_iff.mp hlength
  exact ⟨blanks, spelled, gap ++ rest, hblanks, hspelled, rfl⟩

/-! ## Declarations of functions -/

/-- The declaration of a function as a text of its own: its parts and the blanks around them. -/
structure FunctionText where
  keyword : List Char
  name : List Char
  parameters : List Char
  returnWord : List Char
  type : List Char
  indent : List Char
  afterKeyword : List Char
  afterName : List Char
  afterList : List Char
  afterReturn : List Char
  afterType : List Char
  tail : List Char
  spells_keyword : Spells "FUNCTION".toList keyword
  spells_returnWord : Spells "RETURN".toList returnWord
  name_ne_nil : name ≠ []
  all_name : ∀ c ∈ name, isNameChar c = true
  type_ne_nil : type ≠ []
  all_type : ∀ c ∈ type, isNameChar c = true ∨ c = '.' ∨ c = '%'
  afterKeyword_ne_nil : afterKeyword ≠ []
  afterReturn_ne_nil : afterReturn ≠ []
  allBlank : ∀ gap ∈ [indent, afterKeyword, afterName, afterList, afterReturn, afterType, tail],
    AllBlank gap

namespace FunctionText

variable (d : FunctionText)

/-- The text behind the parameter list. -/
def behindList : List Char :=
  d.afterList ++ (d.returnWord ++ (d.afterReturn ++ (d.type ++ (d.afterType ++ ';' :: d.tail))))

/-- The text behind the name. -/
def behindName : List Char := d.afterName ++ '(' :: (d.parameters ++ ')' :: d.behindList)

/-- The whole text. -/
def chars : List Char := d.indent ++ (d.keyword ++ (d.afterKeyword ++ (d.name ++ d.behindName)))

/-- Whether a package reports a function with the name and the return type of the declaration. -/
def IsReportedBy (p : Package) : Prop :=
  ∃ f ∈ functions p, f.name = String.ofList d.name ∧ f.returnType = some (String.ofList d.type)

/-- Whether the parameters leave nothing to be taken for another declaration or return type. -/
structure IsAlone : Prop where
  no_declaration : ∀ i ≠ d.indent.length,
    Text.matchAt? (declared "FUNCTION".toList) d.chars i = none
  no_return : ∀ spelled, spelled <:+: d.parameters → ¬Spells "RETURN".toList spelled

variable {d}

theorem isWord_keyword : IsWord d.keyword := d.spells_keyword.isWord (by decide)

theorem isWord_returnWord : IsWord d.returnWord :=
  d.spells_returnWord.isWord (by decide)

/-- What is neither blank nor part of a name nor a mark of the declaration does not stand in it,
parameters aside. -/
theorem not_mem {mark : Char} (hblank : isBlank mark = false) (hname : isNameChar mark = false)
    (hmarks : mark ∉ ['.', '%', ';']) :
    mark ∉ d.indent ++ (d.keyword ++ (d.afterKeyword ++ (d.name ++ d.afterName))) ∧
      mark ∉ d.behindList := by
  have hblanks := List.forall_mem_cons.mp d.allBlank
  simp only [List.forall_mem_cons, List.not_mem_nil, false_imp_iff, implies_true,
    and_true] at hblanks
  obtain ⟨hindent, hkeyword, hafterName, hlist, hreturn, htype, htail⟩ := hblanks
  have hword : ∀ {word : List Char}, IsWord word → mark ∉ word := by
    intro word h hmem
    rw [isNameChar_of_isWord (h.all_isWord mark hmem)] at hname
    cases hname
  simp only [List.mem_cons, List.not_mem_nil, or_false, not_or] at hmarks
  -- of the marks of a declaration a type may hold the full stop and the percent sign
  have hnotType : mark ∉ d.type := by
    intro hmem
    rcases d.all_type mark hmem with h | h | h
    · rw [hname] at h
      cases h
    · exact hmarks.1 h
    · exact hmarks.2.1 h
  have hnotName : mark ∉ d.name := by
    intro hmem
    rw [d.all_name mark hmem] at hname
    cases hname
  constructor
  · simp only [List.mem_append, not_or]
    exact ⟨hindent.not_mem hblank, hword isWord_keyword, hkeyword.not_mem hblank, hnotName,
      hafterName.not_mem hblank⟩
  · simp only [behindList, List.mem_append, List.mem_cons, not_or]
    exact ⟨hlist.not_mem hblank, hword isWord_returnWord, hreturn.not_mem hblank, hnotType,
      htype.not_mem hblank, hmarks.2.2, htail.not_mem hblank⟩

variable {d : FunctionText}

/-! ### What is read -/

theorem stops_isBlank_name (rest : List Char) : Stops isBlank (d.name ++ rest) := by
  refine Stops.append_of_ne_nil (fun c hc ↦ ?_) d.name_ne_nil rest
  have hname := d.all_name c (List.mem_of_mem_head? hc)
  rw [← Bool.not_eq_true]
  exact fun hblank ↦ absurd hname (by simp [isNameChar_of_isBlank hblank])

theorem specification_eq (hp : p.definition = some (String.ofList d.chars))
    (hpieces : Splits d.parameters pieces) (hcomments : ∀ q ∈ pieces, ¬q.IsComment) :
    specification p = d.chars := by
  have hmarks : ∀ mark ∈ commentMarks,
      mark ∉ d.indent ++ (d.keyword ++ (d.afterKeyword ++ (d.name ++ d.afterName))) ∧
        mark ∉ d.behindList := by
    simp only [commentMarks, List.forall_mem_cons]
    refine ⟨not_mem (by decide) (by decide) (by decide),
      not_mem (by decide) (by decide) (by decide),
      not_mem (by decide) (by decide) (by decide), nofun⟩
  have hchars : d.chars =
      (d.indent ++ (d.keyword ++ (d.afterKeyword ++ (d.name ++ d.afterName))) ++ ['(']) ++
        (d.parameters ++ ')' :: d.behindList) := by
    simp [chars, behindName]
  rw [specification, hp, Option.map_some, Option.getD_some, String.toList_ofList, hchars]
  refine withoutComments_eq_self hpieces hcomments (fun c hc hmark ↦ ?_) (fun c hc hmark ↦ ?_)
    (by simp)
  · rcases List.mem_append.mp hc with hc | hc
    · exact (hmarks c hmark).1 hc
    · exact absurd (List.mem_singleton.mp hc ▸ hmark) (by decide)
  · rcases List.mem_cons.mp hc with rfl | hc
    · exact absurd hmark (by decide)
    · exact (hmarks c hmark).2 hc

theorem matchAt?_chars (hname : IsWord d.name) :
    Text.matchAt? (declared "FUNCTION".toList) d.chars d.indent.length =
      some ⟨d.indent.length, (d.name, d.behindName),
        d.keyword.length + d.afterKeyword.length + d.name.length⟩ := by
  have hindent : AllBlank d.indent := d.allBlank _ (by simp)
  have hkeyword : AllBlank d.afterKeyword := d.allBlank _ (by simp)
  have hafterName : AllBlank d.afterName := d.allBlank _ (by simp)
  have hstart : Stops isWord (d.indent.reverse ++ []) :=
    hindent.reverse.stops_append isWord_of_isBlank (stops_nil _)
  rw [List.append_nil, ← atWordStart_iff] at hstart
  have hstops : Stops isWord d.behindName :=
    hafterName.stops_append isWord_of_isBlank (stops_cons.mpr (by decide))
  have hdeclared := declared_eq_some_iff.mpr ⟨hstart, d.keyword, d.afterKeyword, d.spells_keyword,
    hkeyword, d.afterKeyword_ne_nil, hname, hstops, rfl, rfl⟩
  rw [chars, Text.matchAt?_append, hdeclared, Option.map_some]

theorem matchAt?_indent {i : Nat} (hi : i < d.indent.length) :
    Text.matchAt? (declared "FUNCTION".toList) d.chars i = none := by
  have hindent : AllBlank d.indent := d.allBlank _ (by simp)
  rw [Option.eq_none_iff_forall_ne_some]
  intro m hm
  obtain ⟨-, spelled, blanks, hspelled, -, -, -, -, htext, -⟩ :=
    declared_eq_some_iff.mp (Text.recognise_of_matchAt? hm)
  have hword : IsWord spelled := hspelled.isWord (by decide)
  have hblank : isBlank d.indent[i] = false := by
    refine hword.stops_isBlank (blanks ++ (m.value.1 ++ m.value.2)) _ ?_
    rw [← htext, List.head?_drop, chars, List.getElem?_append_left hi, List.getElem?_eq_getElem hi]
    exact rfl
  rw [hindent _ (List.getElem_mem hi)] at hblank
  cases hblank

theorem append_eq_of_matchAt? {m : Text.Match (List Char × List Char)}
    (hm : Text.matchAt? (declared "FUNCTION".toList) d.chars d.indent.length = some m) :
    IsWord m.value.1 ∧ m.value.1 ++ m.value.2 = d.name ++ d.behindName := by
  have hkeyword : AllBlank d.afterKeyword := d.allBlank _ (by simp)
  have hrecognised := Text.recognise_of_matchAt? hm
  rw [chars, List.drop_left, List.take_left] at hrecognised
  obtain ⟨-, spelled, blanks, hspelled, hblanks, -, hword, -, htext, -⟩ :=
    declared_eq_some_iff.mp hrecognised
  obtain ⟨-, hbehind⟩ := List.append_inj htext
    (d.spells_keyword.length_eq.trans hspelled.length_eq.symm)
  exact ⟨hword, (run_append_inj hkeyword hblanks (stops_isBlank_name _)
    (hword.stops_isBlank _) hbehind).2.symm⟩

/-! ### Where the list ends -/

theorem signature_of_closed {inside : List Char} (hinside : depthAfter? 0 inside = some 0)
    (htext : d.parameters ++ ')' :: d.behindList = inside ++ ')' :: rest) :
    (signature d.behindName).2 = rest := by
  have hafterName : AllBlank d.afterName := d.allBlank _ (by simp)
  have hlist : parameterList? d.behindName = some (inside, rest) := by
    rw [behindName, parameterList?_append hafterName, htext, closeList_of_closed hinside]
    rfl
  rw [signature, hlist]

theorem signature_of_open {after : Nat}
    (htext : depthAfter? 0 (d.parameters ++ ')' :: d.behindList) = some after) :
    (signature d.behindName).2 = [] := by
  have hafterName : AllBlank d.afterName := d.allBlank _ (by simp)
  rw [signature, behindName, parameterList?_append hafterName, closeList_of_open htext]

theorem returnType?_behindList : returnType? d.behindList =
    typeName? (d.type ++ (d.afterType ++ ';' :: d.tail)) := by
  have hlist : AllBlank d.afterList := d.allBlank _ (by simp)
  have hreturn : AllBlank d.afterReturn := d.allBlank _ (by simp)
  refine returnType?_append hlist d.spells_returnWord hreturn d.afterReturn_ne_nil ?_
  refine Stops.append_of_ne_nil (fun c hc ↦ ?_) d.type_ne_nil _
  rw [← Bool.not_eq_true]
  intro hblank
  rcases d.all_type c (List.mem_of_mem_head? hc) with hname | hmark | hmark
  · rw [isNameChar_of_isBlank hblank] at hname
    cases hname
  · exact ne_of_isBlank (by decide) hblank hmark
  · exact ne_of_isBlank (by decide) hblank hmark

theorem returnType?_of_isTypeName (htype : IsTypeName d.type) :
    returnType? d.behindList = some d.type := by
  have hafterType : AllBlank d.afterType := d.allBlank _ (by simp)
  rw [returnType?_behindList]
  exact typeName?_append htype
    (hafterType.stops_append isTypeChar_of_isBlank (stops_cons.mpr (by decide)))

theorem isReportedBy_iff : d.IsReportedBy p ↔
    ∃ back, (d.name, back) ∈ Text.scan (declared "FUNCTION".toList) (specification p) ∧
      returnType? (signature back).2 = some d.type := by
  rw [IsReportedBy, functions_eq]
  constructor
  · rintro ⟨f, hf, hname, htype⟩
    obtain ⟨⟨name, back⟩, hfound, hfunction⟩ := List.mem_filterMap.mp hf
    obtain ⟨type, hreturn, rfl⟩ := Option.map_eq_some_iff.mp hfunction
    obtain rfl := String.ofList_injective hname
    obtain rfl := String.ofList_injective (Option.some_inj.mp htype)
    exact ⟨back, hfound, hreturn⟩
  · rintro ⟨back, hfound, hreturn⟩
    exact ⟨_, List.mem_filterMap.mpr ⟨_, hfound, Option.map_eq_some_iff.mpr ⟨_, hreturn, rfl⟩⟩,
      rfl, rfl⟩

/-- A function with balanced parameters is found. -/
theorem isReportedBy_of_isBalanced (hspecification : specification p = d.chars)
    (hname : ¬HasSign d.name) (htype : IsTypeName d.type) (hbalanced : IsBalanced d.parameters) :
    d.IsReportedBy p := by
  have hword : IsWord d.name := isWord_of_not_hasSign d.name_ne_nil d.all_name hname
  have hfound : (d.name, d.behindName) ∈ Text.scan (declared "FUNCTION".toList) d.chars := by
    refine Text.mem_scan_of_matchAt? (takesText_declared _) (matchAt?_chars hword) ?_
    intro i hi m hm
    rw [matchAt?_indent hi] at hm
    cases hm
  refine isReportedBy_iff.mpr ⟨d.behindName, hspecification ▸ hfound, ?_⟩
  rw [signature_of_closed hbalanced rfl, returnType?_of_isTypeName htype]

theorem IsAlone.returnType?_eq_none (halone : d.IsAlone) {inside behind : List Char}
    (hparameters : d.parameters = inside ++ ')' :: behind) :
    returnType? (behind ++ ')' :: d.behindList) = none := by
  rw [Option.eq_none_iff_forall_ne_some]
  intro type hreturn
  obtain ⟨blanks, spelled, rest, hblanks, hspelled, htext⟩ := exists_of_returnType? hreturn
  rw [← List.append_assoc] at htext
  rcases split_append htext.symm with ⟨more, hmore⟩ | ⟨more, hbehind, -⟩
  · -- neither the blanks nor the keyword hold the parenthesis
    have hmem : ')' ∈ blanks ++ spelled := by simp [hmore]
    rcases List.mem_append.mp hmem with hmem | hmem
    · exact hblanks.not_mem (by decide) hmem
    · exact (hspelled.isWord (by decide)).not_mem (by decide) hmem
  · refine halone.no_return spelled ⟨inside ++ ')' :: blanks, more, ?_⟩ hspelled
    simp [hparameters, hbehind]

/-- If nothing else can be taken for the declaration or its return type, a function is found only if
its parameters are balanced. -/
theorem IsAlone.of_isReportedBy (halone : d.IsAlone) (hspecification : specification p = d.chars)
    (hreported : d.IsReportedBy p) :
    ¬HasSign d.name ∧ IsTypeName d.type ∧ IsBalanced d.parameters := by
  obtain ⟨back, hfound, hreturn⟩ := isReportedBy_iff.mp hreported
  rw [hspecification] at hfound
  obtain ⟨m, i, hm, hvalue⟩ := Text.exists_matchAt?_of_mem_scan (takesText_declared _) hfound
  -- it is found at the keyword, so what is found are the name and the text behind it
  obtain rfl : i = d.indent.length := by
    by_contra hne
    rw [halone.no_declaration i hne] at hm
    cases hm
  obtain ⟨hword, hbehind⟩ := append_eq_of_matchAt? hm
  rw [hvalue] at hword hbehind
  obtain rfl : back = d.behindName := List.append_cancel_left hbehind
  refine ⟨hword.not_hasSign, ?_⟩
  rcases exists_closed_or_open 0 (d.parameters ++ ')' :: d.behindList) with
    ⟨inside, rest, hinside, htext⟩ | ⟨after, hopen⟩
  · rw [signature_of_closed hinside htext] at hreturn
    rcases split_append htext with ⟨behind, hparameters⟩ | ⟨more, rfl, hrest⟩
    · have hbehind : rest = behind ++ ')' :: d.behindList := by
        rw [hparameters, List.append_assoc, List.cons_append] at htext
        exact (List.cons_eq_cons.mp (List.append_cancel_left htext)).2.symm
      rw [hbehind, halone.returnType?_eq_none hparameters] at hreturn
      cases hreturn
    · cases more with
      | nil =>
        obtain ⟨-, rfl⟩ := List.cons_eq_cons.mp hrest
        rw [returnType?_behindList] at hreturn
        rw [List.append_nil] at hinside
        exact ⟨isTypeName_of_typeName? hreturn, hinside⟩
      | cons c more =>
        -- behind the list there is no parenthesis to end it
        have hnot : ')' ∉ d.behindList := (not_mem (by decide) (by decide) (by decide)).2
        exact absurd (by simp [(List.cons_eq_cons.mp hrest).2]) hnot
  · rw [signature_of_open hopen] at hreturn
    cases hreturn

theorem isBalanced_of_code (hpieces : Splits d.parameters pieces)
    (hcomments : ∀ q ∈ pieces, ¬q.IsComment) (hcode : IsBalanced (pieces.flatMap Piece.code))
    (hliterals : ∀ q ∈ pieces, q.IsLiteral → '(' ∉ q.chars ∧ ')' ∉ q.chars) :
    IsBalanced d.parameters := by
  rw [IsBalanced, ← hpieces.flatMap_chars, depthAfter?_chars_eq_code hcomments hliterals]
  exact hcode

/-- The declaration of a function with one parameter, which has a literal as its default. -/
def labelText (body : List Char) : FunctionText where
  keyword := "FUNCTION".toList
  name := "label".toList
  parameters := "mark VARCHAR2 := ".toList ++ '\'' :: (body ++ ['\''])
  returnWord := "RETURN".toList
  type := "NUMBER".toList
  indent := []
  afterKeyword := [' ']
  afterName := []
  afterList := [' ']
  afterReturn := [' ']
  afterType := []
  tail := []
  spells_keyword := by decide
  spells_returnWord := by decide
  name_ne_nil := by decide
  all_name := List.all_eq_true.mp (by decide)
  type_ne_nil := by decide
  all_type c hc := Or.inl (List.all_eq_true.mp (by decide) c hc)
  afterKeyword_ne_nil := by decide
  afterReturn_ne_nil := by decide
  allBlank := by decide

/-- The pieces of the parameter. -/
def labelPieces (body : List Char) : List Piece :=
  "mark VARCHAR2 := ".toList.map .single ++ [.literal ('\'' :: (body ++ ['\'']))]

theorem splits_labelPieces {body : List Char} (hbody : InLiteral body) :
    Splits (labelText body).parameters (labelPieces body) := by
  have hliteral := Splits.cons (.literal hbody (Or.inl ⟨rfl, by simp⟩)) .nil
  rw [List.append_nil] at hliteral
  exact splits_append_of_no_marks (by decide) hliteral

theorem not_isComment_labelPieces {body : List Char} : ∀ q ∈ labelPieces body, ¬q.IsComment := by
  intro q hq
  rcases List.mem_append.mp hq with hq | hq
  · obtain ⟨c, -, rfl⟩ := List.mem_map.mp hq
    exact id
  · obtain rfl := List.mem_singleton.mp hq
    exact id

theorem isAlone_labelText_open : (labelText ['(']).IsAlone where
  no_declaration i hi := by
    have hlength : (labelText ['(']).chars.length = 51 := by decide
    by_cases hlt : i < 51
    · have hnone : ∀ i < 51, i ≠ 0 →
          Text.matchAt? (declared "FUNCTION".toList) (labelText ['(']).chars i = none := by decide
      exact hnone i hlt hi
    · exact (takesText_declared _).matchAt?_of_length_le (by omega)
  no_return := by
    rintro spelled ⟨front, back, h⟩ hspelled
    have hnone : ∀ i ≤ 20, ¬Spells "RETURN".toList
        (((labelText ['(']).parameters.drop i).take 6) := by decide
    have hsix : spelled.length = 6 := hspelled.length_eq
    have hlength : (front ++ spelled ++ back).length = 20 := h ▸ by decide
    rw [List.length_append, List.length_append] at hlength
    refine hnone front.length (by omega) ?_
    rw [← h, List.append_assoc, List.drop_left, List.take_left' hsix]
    exact hspelled

/-- **Literals in parameters.** In a text that is the declaration of a function, with parameters
that hold no comment and have their parentheses balanced outside literals, the function is found if
its name and type are words and no literal holds a parenthesis, and whenever the parameters are
balanced as characters. Where the parameters leave nothing else to be taken for a declaration or a
return type, it is found in no other case. -/
theorem isReportedBy_iff_isBalanced (d : FunctionText) (p : Package) (pieces : List Piece)
    (hp : p.definition = some (String.ofList d.chars)) (hpieces : Splits d.parameters pieces)
    (hcomments : ∀ q ∈ pieces, ¬q.IsComment) (hcode : IsBalanced (pieces.flatMap Piece.code)) :
    (¬HasSign d.name → IsTypeName d.type →
      (∀ q ∈ pieces, q.IsLiteral → '(' ∉ q.chars ∧ ')' ∉ q.chars) → d.IsReportedBy p) ∧
    (¬HasSign d.name → IsTypeName d.type → IsBalanced d.parameters → d.IsReportedBy p) ∧
    (d.IsAlone → (d.IsReportedBy p ↔
      ¬HasSign d.name ∧ IsTypeName d.type ∧ IsBalanced d.parameters)) := by
  have hspecification := specification_eq hp hpieces hcomments
  refine ⟨fun hname htype hliterals ↦ ?_, fun hname htype hbalanced ↦ ?_, fun halone ↦ ?_⟩
  · exact isReportedBy_of_isBalanced hspecification hname htype
      (isBalanced_of_code hpieces hcomments hcode hliterals)
  · exact isReportedBy_of_isBalanced hspecification hname htype hbalanced
  · exact ⟨halone.of_isReportedBy hspecification,
      fun ⟨hname, htype, hbalanced⟩ ↦
        isReportedBy_of_isBalanced hspecification hname htype hbalanced⟩

/-- A literal with both parentheses leaves the function to be found, and one with an opening one
does not. -/
theorem isReportedBy_iff_isBalanced_label :
    (labelText ['(', ')']).IsReportedBy
        (payPackage "FUNCTION label(mark VARCHAR2 := '()') RETURN NUMBER;") ∧
      ¬(labelText ['(']).IsReportedBy
        (payPackage "FUNCTION label(mark VARCHAR2 := '(') RETURN NUMBER;") := by
  have hinside : InLiteral ['('] := .other (by decide) .nil
  have hinside' : InLiteral ['(', ')'] := .other (by decide) (.other (by decide) .nil)
  have htype : IsTypeName "NUMBER".toList :=
    ⟨"NUMBER".toList, [], [], by decide, Or.inl rfl, Or.inl rfl, rfl⟩
  constructor
  · exact (isReportedBy_iff_isBalanced _ (payPackage _) _ rfl (splits_labelPieces hinside')
      not_isComment_labelPieces (by decide)).2.1 (by decide) htype (by decide)
  · intro hreported
    have hbalanced := (((isReportedBy_iff_isBalanced _ (payPackage _) _ rfl
      (splits_labelPieces hinside) not_isComment_labelPieces (by decide)).2.2
        isAlone_labelText_open).mp hreported).2.2
    exact absurd hbalanced (by decide)

/-- A function is not found although its parameters are balanced outside the literal that is the
default of one of them. -/
theorem not_isReportedBy_openInLiteral :
    (labelText ['(']).chars = "FUNCTION label(mark VARCHAR2 := '(') RETURN NUMBER;".toList ∧
      Splits (labelText ['(']).parameters (labelPieces ['(']) ∧
      (∀ q ∈ labelPieces ['('], ¬q.IsComment) ∧
      IsBalanced ((labelPieces ['(']).flatMap Piece.code) ∧
      functions (payPackage "FUNCTION label(mark VARCHAR2 := '(') RETURN NUMBER;") = [] :=
  ⟨by decide, splits_labelPieces (.other (by decide) .nil), not_isComment_labelPieces, by decide,
    by decide⟩

end FunctionText

end Lineage.Source
