import Lineage.Proofs.Source.Part
import Lineage.Proofs.Source.Variable

/-!
# Arguments as they are printed

An argument is printed as its name, the words for its direction and its type, and a list of
arguments with a comma and a blank between two of them. What is printed is read back.

The words for a direction are tried in turn, the longest first, and a type may be spelled like one
of them or like `NOCOPY`. It is not taken for them, because a word for a direction has a blank
behind it and the first word of a type does not (`phrase?_eq_none_of_isDataType`). The size of a
type may hold commas, but only in its parentheses, so the list is split between the arguments and
nowhere else. All parts but the first start with the blank behind a comma, which is trimmed.
-/

namespace Lineage.Source

open Text (isBlank isWord)

variable {p : Char → Bool} {text rest blanks keyword spelled word type : List Char}
  {keywords : List (List Char)} {a : Argument} {arguments : List Argument}

/-! ## Phrases -/

theorem phrase?_cons (keyword : List Char) (keywords : List (List Char)) (text : List Char) :
    phrase? (keyword :: keywords) text = (phrase? [keyword] text).bind fun length ↦
      (phrase? keywords (text.drop length)).map (length + ·) := by
  simp only [phrase?]
  split
  · split
    · rfl
    · rw [Option.map_some, Option.bind_some, Nat.add_zero, List.drop_drop]
  · rfl

theorem phrase?_cons_append (hspelled : Spells keyword spelled) (hblanks : AllBlank blanks)
    (hne : blanks ≠ []) (hrest : Stops isBlank rest) :
    phrase? (keyword :: keywords) (spelled ++ (blanks ++ rest)) =
      (phrase? keywords rest).map (spelled.length + blanks.length + ·) := by
  have hfirst := phrase?_singleton_iff.mpr
    ⟨spelled, blanks, rest, hspelled, hblanks, hne, hrest, rfl, rfl⟩
  rw [phrase?_cons, hfirst, Option.bind_some, drop_append_append]

theorem spells_of_phrase? (hkeyword : keyword ≠ [] ∧ keyword.all Char.isUpper = true)
    (hword : IsWord word) (hrest : Stops isWord rest) {length : Nat}
    (h : phrase? [keyword] (word ++ rest) = some length) :
    Spells keyword word ∧ ¬Stops isBlank rest := by
  obtain ⟨spelled, blanks, back, hspelled, hblanks, hne, -, htext, -⟩ :=
    phrase?_singleton_iff.mp h
  obtain ⟨rfl, rfl⟩ := run_append_inj hword.all_isWord (hspelled.isWord hkeyword).all_isWord hrest
    (hblanks.stops_isWord hne back) htext
  refine ⟨hspelled, fun hstops ↦ ?_⟩
  cases blanks with
  | nil => exact hne rfl
  | cons b blanks =>
    rw [List.cons_append, stops_cons, hblanks b List.mem_cons_self] at hstops
    cases hstops

/-! ## Types -/

/-- Whether some characters are a type as it is printed: its name and, right behind it, a size with
no parentheses inside its own. -/
def IsDataType (type : List Char) : Prop :=
  ∃ name size, IsTypeName name ∧ type = name ++ size ∧ (size = [] ∨
    ∃ body, body ≠ [] ∧ '(' ∉ body ∧ ')' ∉ body ∧ size = '(' :: (body ++ [')']))

theorem isTypeChar_of_isWord {c : Char} (hc : isWord c = true) : isTypeChar c = true := by
  rw [isTypeChar, hc, Bool.true_or, Bool.true_or]

theorem Stops.marked_append {mark : Char} {marked : List Char} (hmark : p mark = false)
    (hmarked : IsMarked mark marked) (hrest : Stops p rest) : Stops p (marked ++ rest) := by
  rcases hmarked with rfl | ⟨word, -, rfl⟩
  · exact hrest
  · exact stops_cons.mpr hmark

theorem IsDataType.exists_word (h : IsDataType type) : ∃ word rest,
    IsWord word ∧ Stops isWord rest ∧ Stops isBlank rest ∧ type = word ++ rest := by
  obtain ⟨name, size, ⟨word, member, property, hword, hmember, hproperty, rfl⟩, rfl, hsize⟩ := h
  have hstops : ∀ {p : Char → Bool}, p '.' = false → p '%' = false → p '(' = false →
      Stops p (member ++ (property ++ size)) := by
    intro p hdot hpercent hopen
    refine .marked_append hdot hmember (.marked_append hpercent hproperty ?_)
    rcases hsize with rfl | ⟨body, -, -, -, rfl⟩
    · exact stops_nil p
    · exact stops_cons.mpr hopen
  exact ⟨word, member ++ (property ++ size), hword, hstops (by decide) (by decide) (by decide),
    hstops (by decide) (by decide) (by decide), by simp only [List.append_assoc]⟩

theorem IsDataType.stops_isBlank (h : IsDataType type) : Stops isBlank type := by
  obtain ⟨word, rest, hword, -, -, rfl⟩ := h.exists_word
  exact hword.stops_isBlank rest

/-- A type is not taken for a phrase. -/
theorem phrase?_eq_none_of_isDataType (h : IsDataType type)
    (hkeyword : keyword ≠ [] ∧ keyword.all Char.isUpper = true) (keywords : List (List Char)) :
    phrase? (keyword :: keywords) type = none := by
  have hfirst : phrase? [keyword] type = none := by
    rw [Option.eq_none_iff_forall_ne_some]
    intro length hlength
    obtain ⟨word, rest, hword, hrest, hstops, rfl⟩ := h.exists_word
    exact (spells_of_phrase? hkeyword hword hrest hlength).2 hstops
  rw [phrase?_cons, hfirst, Option.bind_none]

theorem dataType?_of_isDataType (h : IsDataType type) : dataType? type = some type := by
  obtain ⟨name, size, hname, rfl, hsize⟩ := h
  have hstops : Stops isTypeChar size := by
    rcases hsize with rfl | ⟨body, -, -, -, rfl⟩
    · exact stops_nil isTypeChar
    · exact stops_cons.mpr (by decide)
  have hfound : (parenthesized? size).getD [] = size := by
    rcases hsize with rfl | ⟨body, hne, -, hbody, rfl⟩
    · rfl
    · have hparenthesized := parenthesized?_append allBlank_nil hne hbody []
      exact congrArg (·.getD []) hparenthesized
  rw [dataType?, typeName?_append hname hstops, Option.map_some, List.drop_left, hfound]

theorem passedType?_of_isDataType (h : IsDataType type) : passedType? type = some type := by
  rw [passedType?, phrase?_eq_none_of_isDataType h (by decide), dataType?_of_isDataType h]
  rfl

theorem IsTypeName.all_isTypeChar {name : List Char} (h : IsTypeName name) :
    ∀ c ∈ name, isTypeChar c = true := by
  obtain ⟨word, member, property, hword, hmember, hproperty, rfl⟩ := h
  have hmarked : ∀ {mark : Char} {marked : List Char}, isTypeChar mark = true →
      IsMarked mark marked → ∀ c ∈ marked, isTypeChar c = true := by
    rintro mark marked hmark (rfl | ⟨word, hword, rfl⟩)
    · nofun
    · refine List.forall_mem_cons.mpr ⟨hmark, fun c hc ↦ ?_⟩
      exact isTypeChar_of_isWord (hword.all_isWord c hc)
  intro c hc
  rw [List.mem_append, List.mem_append] at hc
  rcases hc with hc | hc | hc
  · exact isTypeChar_of_isWord (hword.all_isWord c hc)
  · exact hmarked (by decide) hmember c hc
  · exact hmarked (by decide) hproperty c hc

theorem IsDataType.stops_reverse_append (h : IsDataType type) (rest : List Char) :
    Stops isBlank (type.reverse ++ rest) := by
  have hne : type ≠ [] := by
    obtain ⟨word, back, hword, -, -, rfl⟩ := h.exists_word
    exact List.append_ne_nil_of_left_ne_nil hword.ne_nil back
  refine Stops.append_of_ne_nil ?_ (List.reverse_ne_nil_iff.mpr hne) rest
  obtain ⟨name, size, hname, rfl, hsize⟩ := h
  rw [List.reverse_append]
  rcases hsize with rfl | ⟨body, -, -, -, rfl⟩
  · intro c hc
    have hchar := hname.all_isTypeChar c (List.mem_reverse.mp (List.mem_of_mem_head? hc))
    rw [← Bool.not_eq_true]
    exact fun hblank ↦ absurd hchar (by simp [isTypeChar_of_isBlank hblank])
  · rw [List.reverse_cons, List.reverse_append]
    exact stops_cons.mpr (by decide)

/-! ## Directions -/

/-- Keywords as they are printed, with a blank behind each. -/
def spaced (words : List (List Char)) : List Char := words.flatMap (· ++ [' '])

theorem spaced_cons_append (word : List Char) (words : List (List Char)) (rest : List Char) :
    spaced (word :: words) ++ rest = word ++ ([' '] ++ (spaced words ++ rest)) := by
  simp only [spaced, List.flatMap_cons, List.append_assoc]

/-- Whether some words are keywords in upper case. -/
def AllUpper (words : List (List Char)) : Prop :=
  ∀ word ∈ words, word ≠ [] ∧ word.all Char.isUpper = true

instance (words : List (List Char)) : Decidable (AllUpper words) :=
  inferInstanceAs (Decidable (∀ word ∈ words, _))

theorem spells_self (h : keyword.all Char.isUpper = true) : Spells keyword keyword := by
  refine (List.map_congr_left fun c hc ↦ ?_).trans (List.map_id keyword)
  have hupper : c.isUpper = true := List.all_eq_true.mp h c hc
  have hascii : c.toNat < 128 := by
    have hz : c.toNat ≤ 'Z'.toNat := (decide_eq_true_iff.mp hupper).2
    exact Nat.lt_of_le_of_lt hz (by decide)
  exact @Text.forall_ascii (fun c ↦ c.isUpper = true → foldLetter c = c) (by decide) c hascii hupper

theorem AllUpper.stops_spaced_append {words : List (List Char)} (hwords : AllUpper words)
    (hrest : Stops isBlank rest) : Stops isBlank (spaced words ++ rest) := by
  cases words with
  | nil => exact hrest
  | cons word words =>
    have hword := hwords word List.mem_cons_self
    rw [spaced_cons_append]
    exact ((spells_self hword.2).isWord hword).stops_isBlank _

/-- Of keywords that are printed in front of a type, a phrase takes the first, if they are its
own. -/
theorem phrase?_spaced_append {words : List (List Char)} (hkeywords : AllUpper keywords)
    (hwords : AllUpper words) (h : IsDataType type) : phrase? keywords (spaced words ++ type) =
      if keywords <+: words then some (spaced keywords).length else none := by
  -- along the keywords, each of which must be the next word
  induction keywords generalizing words with
  | nil => rw [if_pos List.nil_prefix]; rfl
  | cons keyword keywords ih =>
    obtain ⟨hkeyword, hothers⟩ := List.forall_mem_cons.mp hkeywords
    cases words with
    | nil =>
      rw [if_neg (by simp)]
      exact phrase?_eq_none_of_isDataType h hkeyword keywords
    | cons word words =>
      obtain ⟨hword, hbehind⟩ := List.forall_mem_cons.mp hwords
      have hspells := spells_self hword.2
      rw [spaced_cons_append]
      by_cases hsame : keyword = word
      · subst hsame
        have hstops := AllUpper.stops_spaced_append hbehind h.stops_isBlank
        rw [phrase?_cons_append hspells (by decide) (by decide) hstops, ih hothers hbehind]
        simp only [List.cons_prefix_cons, true_and]
        split_ifs
        · simp only [Option.map_some, spaced, List.flatMap_cons, List.length_append]
        · rfl
      · -- a word is a whole one, so it spells no other keyword
        have hfirst : phrase? [keyword] (word ++ ([' '] ++ (spaced words ++ type))) = none := by
          rw [Option.eq_none_iff_forall_ne_some]
          intro length hlength
          have hspells' := (spells_of_phrase? hkeyword (hspells.isWord hword)
            (stops_cons.mpr (by decide)) hlength).1
          exact hsame (hspells'.symm.trans hspells)
        rw [phrase?_cons, hfirst, if_neg (by simp [hsame])]
        rfl

/-- The words for a direction as they are printed. -/
def Direction.words (d : Direction) : List (List Char) :=
  if d.isOut then (if d.isIn then ["IN".toList, "OUT".toList] else ["OUT".toList])
  else ["IN".toList]

theorem allUpper_words (d : Direction) : AllUpper d.words := by
  rw [Direction.words]
  split_ifs <;> decide

theorem mode?_spaced_append (h : IsDataType type) {d : Direction}
    (hd : d.isIn = true ∨ d.isOut = true) :
    mode? (spaced d.words ++ type) = some (type, d) := by
  have hphrase : ∀ {keywords : List (List Char)}, AllUpper keywords →
      phrase? keywords (spaced d.words ++ type) =
        if keywords <+: d.words then some (spaced keywords).length else none :=
    fun hkeywords ↦ phrase?_spaced_append hkeywords (allUpper_words d) h
  simp (disch := decide) only [mode?, directions, List.findSome?_cons, hphrase]
  obtain ⟨isIn, isOut⟩ := d
  have htype := passedType?_of_isDataType h
  have hdrop : ∀ words, (spaced words ++ type).drop (spaced words).length = type :=
    fun words ↦ List.drop_left
  cases isOut with
  | false =>
    obtain rfl : isIn = true := by simpa using hd
    simp [Direction.words, hdrop, htype]
  | true => cases isIn <;> simp [Direction.words, hdrop, htype]

/-! ## Arguments -/

/-- Whether an argument is one that can be declared: its name is a word, its type is a type, and a
value goes in or comes out. -/
structure IsDeclarable (a : Argument) : Prop where
  isWord_name : IsWord a.name.toList
  isDataType : IsDataType a.dataType.toList
  isIn_or_isOut : a.isIn = true ∨ a.isOut = true

theorem toList_formatArgument (a : Argument) : (formatArgument a).toList =
    a.name.toList ++ ([' '] ++ (spaced (Direction.mk a.isIn a.isOut).words ++
      a.dataType.toList)) := by
  rw [formatArgument, Direction.words]
  cases a.isOut <;> cases a.isIn <;> simp [spaced]

theorem IsDeclarable.argument?_eq (h : IsDeclarable a) : argument? (formatArgument a).toList =
    some (a.name.toList, a.dataType.toList, ⟨a.isIn, a.isOut⟩) := by
  have hblank : AllBlank [' '] := by decide
  have hstops : Stops isBlank (spaced (Direction.mk a.isIn a.isOut).words ++ a.dataType.toList) :=
    (allUpper_words _).stops_spaced_append h.isDataType.stops_isBlank
  have hmode := mode?_spaced_append h.isDataType (d := ⟨a.isIn, a.isOut⟩) h.isIn_or_isOut
  have hname := word?_append h.isWord_name (hblank.stops_isWord (by decide)
    (spaced (Direction.mk a.isIn a.isOut).words ++ a.dataType.toList))
  rw [toList_formatArgument, argument?, hname, Option.bind_eq_bind, Option.bind_some]
  simp only [List.drop_left, gap_append_of_stops hblank hstops, afterGap_append hblank hstops,
    hmode]
  rfl

theorem trimChars_append (hblanks : AllBlank blanks) (htext : Stops isBlank text)
    (hreverse : Stops isBlank text.reverse) : Text.trimChars (blanks ++ text) = text := by
  rw [Text.trimChars, Text.trimStart, Text.trimStart, dropWhile_append_of_stops hblanks htext,
    dropWhile_of_stops hreverse, List.reverse_reverse]

theorem IsDeclarable.stops_isBlank (h : IsDeclarable a) :
    Stops isBlank (formatArgument a).toList ∧ Stops isBlank (formatArgument a).toList.reverse := by
  rw [toList_formatArgument]
  refine ⟨h.isWord_name.stops_isBlank _, ?_⟩
  simp only [List.reverse_append, List.append_assoc]
  exact h.isDataType.stops_reverse_append _

theorem isClosedPart_of_isTypeChar (h : ∀ c ∈ text, isTypeChar c = true ∨ isBlank c = true) :
    IsClosedPart text := by
  have hnot : ∀ {mark : Char}, isTypeChar mark = false → isBlank mark = false → mark ∉ text := by
    intro mark hchar hblank hmem
    have hmark := h mark hmem
    rw [hchar, hblank] at hmark
    simp at hmark
  exact isClosedPart_of_not_mem (hnot (by decide) (by decide)) (hnot (by decide) (by decide))
    (hnot (by decide) (by decide))

/-- What is printed of an argument is a part of a list, also with blanks in front of it. -/
theorem IsDeclarable.isClosedPart (h : IsDeclarable a) (hblanks : AllBlank blanks) :
    IsClosedPart (blanks ++ (formatArgument a).toList) := by
  obtain ⟨name, size, hname, htype, hsize⟩ := h.isDataType
  have hwords : ∀ c ∈ spaced (Direction.mk a.isIn a.isOut).words,
      isTypeChar c = true ∨ isBlank c = true := by
    intro c hc
    obtain ⟨word, hword, hc⟩ := List.mem_flatMap.mp hc
    obtain ⟨hne, hupper⟩ := allUpper_words _ word hword
    rcases List.mem_append.mp hc with hc | hc
    · have hspelled := (spells_self hupper).isWord ⟨hne, hupper⟩
      exact Or.inl (isTypeChar_of_isWord (hspelled.all_isWord c hc))
    · exact Or.inr (List.mem_singleton.mp hc ▸ by decide)
  have hsize : IsClosedPart size := by
    rcases hsize with rfl | ⟨body, -, hopen, hclose, rfl⟩
    · exact isClosedPart_of_isTypeChar nofun
    · exact isClosedPart_parenthesized hopen hclose
  have hblank : AllBlank [' '] := by decide
  rw [toList_formatArgument, htype]
  refine .append (isClosedPart_of_isTypeChar fun c hc ↦ Or.inr (hblanks c hc)) ?_
  refine .append (isClosedPart_of_isTypeChar fun c hc ↦ Or.inl ?_) ?_
  · exact isTypeChar_of_isWord (h.isWord_name.all_isWord c hc)
  refine .append (isClosedPart_of_isTypeChar fun c hc ↦ Or.inr (hblank c hc)) ?_
  refine .append (isClosedPart_of_isTypeChar hwords) ?_
  exact .append (isClosedPart_of_isTypeChar fun c hc ↦ Or.inl (hname.all_isTypeChar c hc)) hsize

theorem IsDeclarable.argument?_trimChars (h : IsDeclarable a) (hblanks : AllBlank blanks) :
    argument? (Text.trimChars (blanks ++ (formatArgument a).toList)) =
      some (a.name.toList, a.dataType.toList, ⟨a.isIn, a.isOut⟩) := by
  rw [trimChars_append hblanks h.stops_isBlank.1 h.stops_isBlank.2, h.argument?_eq]

/-! ## Lists of arguments -/

theorem intercalate_cons_eq_flatMap {α : Type} (separator first : List α) (others : List (List α)) :
    separator.intercalate (first :: others) = first ++ others.flatMap (separator ++ ·) := by
  induction others generalizing first with
  | nil => rw [List.intercalate_singleton, List.flatMap_nil, List.append_nil]
  | cons next others ih =>
    rw [List.intercalate_cons_cons, ih, List.flatMap_cons, List.append_assoc, List.append_assoc]

/-- The parts of a printed list, each but the first with the blank behind the comma. -/
theorem toList_formatArguments_cons (a : Argument) (arguments : List Argument) :
    (formatArguments (a :: arguments)).toList = [','].intercalate ((formatArgument a).toList ::
      arguments.map fun a ↦ [' '] ++ (formatArgument a).toList) := by
  rw [formatArguments, String.toList_intercalate, List.map_cons, List.map_cons, List.map_map,
    intercalate_cons_eq_flatMap, intercalate_cons_eq_flatMap, List.flatMap_map, List.flatMap_map]
  rfl

theorem filterMap_argument?_formatArguments (h : ∀ a ∈ arguments, IsDeclarable a) :
    (splitTopLevel (formatArguments arguments).toList).filterMap
        (fun part ↦ argument? (Text.trimChars part)) =
      arguments.map fun a ↦ (a.name.toList, a.dataType.toList, Direction.mk a.isIn a.isOut) := by
  cases arguments with
  | nil => rfl
  | cons a arguments =>
    obtain ⟨ha, hothers⟩ := List.forall_mem_cons.mp h
    have hsplit := isSplit_intercalate (List.cons_ne_nil (formatArgument a).toList
      (arguments.map fun a ↦ [' '] ++ (formatArgument a).toList)) <| by
        refine List.forall_mem_cons.mpr ⟨ha.isClosedPart allBlank_nil, ?_⟩
        exact List.forall_mem_map.mpr fun b hb ↦ (hothers b hb).isClosedPart (by decide)
    have hfirst := ha.argument?_trimChars allBlank_nil
    have hrest : (arguments.map fun a ↦ [' '] ++ (formatArgument a).toList).filterMap
        (fun part ↦ argument? (Text.trimChars part)) = arguments.map fun a ↦
          (a.name.toList, a.dataType.toList, Direction.mk a.isIn a.isOut) := by
      rw [List.filterMap_map, ← List.filterMap_eq_map]
      exact List.filterMap_congr fun b hb ↦ (hothers b hb).argument?_trimChars (by decide)
    rw [toList_formatArguments_cons, hsplit.splitTopLevel_eq, List.map_cons, ← hrest]
    exact List.filterMap_cons_some hfirst

/-- **Printed arguments are read back.** If every argument of a list has a word for a name, a type
with or without a size that is not empty and holds no parentheses, and a direction, and if their
ordinals count from one, then the list that is read from the printed one is the same. -/
theorem parseArguments_formatArguments (h : ∀ a ∈ arguments, IsDeclarable a)
    (hordinal : arguments.map (·.ordinal) = List.range' 1 arguments.length) :
    parseArguments (formatArguments arguments).toList = arguments := by
  rw [parseArguments]
  simp only [filterMap_argument?_formatArguments h]
  refine List.ext_getElem (by simp) fun i hi hi' ↦ ?_
  have hat : arguments[i].ordinal = i + 1 := by
    have hget := List.getElem_of_eq hordinal (i := i) (by simpa using hi')
    rw [List.getElem_map, List.getElem_range'] at hget
    omega
  simp [← hat]

/-- Arguments whose names and types are spelled like the words for a direction. -/
def keywordArguments : List Argument :=
  [⟨"IN", "OUT(10, 2)", 1, true, false⟩, ⟨"rate", "NOCOPY", 2, true, true⟩,
    ⟨"out", "hr.in%TYPE", 3, false, true⟩]

/-- The words are told apart by where they stand, and the comma in a size splits nothing. -/
theorem parseArguments_formatArguments_keywords :
    (∀ a ∈ keywordArguments, IsDeclarable a) ∧
      formatArguments keywordArguments =
        "IN IN OUT(10, 2), rate IN OUT NOCOPY, out OUT hr.in%TYPE" ∧
      parseArguments "IN IN OUT(10, 2), rate IN OUT NOCOPY, out OUT hr.in%TYPE".toList =
        keywordArguments := by
  have hword : ∀ {word : List Char}, IsWord word → IsTypeName word :=
    fun h ↦ ⟨_, [], [], h, Or.inl rfl, Or.inl rfl, by simp⟩
  have hsized : IsDataType "OUT(10, 2)".toList :=
    ⟨"OUT".toList, "(10, 2)".toList, hword (by decide), rfl,
      Or.inr ⟨"10, 2".toList, by decide, by decide, by decide, rfl⟩⟩
  have hbare : IsDataType "NOCOPY".toList :=
    ⟨"NOCOPY".toList, [], hword (by decide), rfl, Or.inl rfl⟩
  have hmember : IsDataType "hr.in%TYPE".toList :=
    ⟨"hr.in%TYPE".toList, [], ⟨"hr".toList, ".in".toList, "%TYPE".toList, by decide,
      Or.inr ⟨"in".toList, by decide, rfl⟩, Or.inr ⟨"TYPE".toList, by decide, rfl⟩, rfl⟩, rfl,
      Or.inl rfl⟩
  have hall : ∀ a ∈ keywordArguments, IsDeclarable a := by
    simp only [keywordArguments, List.forall_mem_cons]
    exact ⟨⟨by decide, hsized, by decide⟩, ⟨by decide, hbare, by decide⟩,
      ⟨by decide, hmember, by decide⟩, nofun⟩
  have htext : formatArguments keywordArguments =
      "IN IN OUT(10, 2), rate IN OUT NOCOPY, out OUT hr.in%TYPE" := by decide
  exact ⟨hall, htext, htext ▸ parseArguments_formatArguments hall (by decide)⟩

end Lineage.Source
