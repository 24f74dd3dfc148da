import Lineage.Proofs.Source.Lexeme
import Lineage.Proofs.Text.Capital
import Lineage.Source.Specification

/-!
# Keywords, blanks and words at the front of a text

The readers of a package specification take runs of characters from the front of a text: blanks as
far as they go, the characters of a word as far as they go. Such a run is what it is because of what
follows it, which *stops* it. Here the result of each reader is told by the text alone, as a text
that is put together from a keyword in some spelling, blanks and words, each stopped by what comes
next; and a text is put together from two parts in one way only if the second stops the first
(`run_append_inj`).
-/

namespace Lineage.Source

open Text (isBlank isWord)

variable {p : Char → Bool} {text run run' rest rest' blanks keyword spelled word : List Char}

/-! ## Runs -/

/-- Whether a run of characters stops in front of a text. -/
def Stops (p : Char → Bool) (rest : List Char) : Prop := ∀ c ∈ rest.head?, p c = false

@[simp] theorem stops_nil (p : Char → Bool) : Stops p [] := nofun

@[simp] theorem stops_cons {c : Char} : Stops p (c :: rest) ↔ p c = false := by
  simp [Stops]

theorem Stops.append_of_ne_nil (h : Stops p run) (hne : run ≠ []) (rest : List Char) :
    Stops p (run ++ rest) := by
  cases run with
  | nil => exact absurd rfl hne
  | cons c run => exact h

theorem takeWhile_append_of_stops (hrun : ∀ c ∈ run, p c = true) (hrest : Stops p rest) :
    (run ++ rest).takeWhile p = run := by
  rw [List.takeWhile_append_of_pos hrun]
  cases rest with
  | nil => exact List.append_nil run
  | cons c rest =>
    rw [List.takeWhile_cons_of_neg (by simpa using stops_cons.mp hrest), List.append_nil]

theorem dropWhile_append_of_stops (hrun : ∀ c ∈ run, p c = true) (hrest : Stops p rest) :
    (run ++ rest).dropWhile p = rest := by
  rw [List.dropWhile_append_of_pos hrun]
  cases rest with
  | nil => rfl
  | cons c rest => exact List.dropWhile_cons_of_neg (by simpa using stops_cons.mp hrest)

theorem takeWhile_of_stops (h : Stops p rest) : rest.takeWhile p = [] :=
  @takeWhile_append_of_stops p [] rest nofun h

theorem dropWhile_of_stops (h : Stops p rest) : rest.dropWhile p = rest :=
  @dropWhile_append_of_stops p [] rest nofun h

theorem stops_dropWhile (p : Char → Bool) (text : List Char) : Stops p (text.dropWhile p) := by
  intro c hc
  have hnot := List.head?_dropWhile_not p text
  rw [Option.mem_def.mp hc] at hnot
  exact hnot

theorem exists_run (p : Char → Bool) (text : List Char) :
    ∃ run rest, (∀ c ∈ run, p c = true) ∧ Stops p rest ∧ text = run ++ rest :=
  ⟨text.takeWhile p, text.dropWhile p, fun _ hc ↦ List.mem_takeWhile_imp hc,
    stops_dropWhile p text, List.takeWhile_append_dropWhile.symm⟩

theorem run_append_inj (hrun : ∀ c ∈ run, p c = true) (hrun' : ∀ c ∈ run', p c = true)
    (hrest : Stops p rest) (hrest' : Stops p rest') (h : run ++ rest = run' ++ rest') :
    run = run' ∧ rest = rest' := by
  have hsame : run = run' := by
    rw [← takeWhile_append_of_stops hrun hrest, h, takeWhile_append_of_stops hrun' hrest']
  subst hsame
  exact ⟨rfl, List.append_cancel_left h⟩

/-- A run that reaches a place within a run goes on to the end of that run. -/
theorem run_append_split {front back : List Char} {c : Char} (hrun : ∀ c ∈ run, p c = true)
    (hrest : Stops p rest) (hrun' : ∀ c ∈ run', p c = true) (hback : Stops p back)
    (h : run ++ rest = front ++ c :: (run' ++ back)) :
    run = front ++ c :: run' ∧ rest = back ∨
      ∃ before, front = run ++ before ∧ rest = before ++ c :: (run' ++ back) := by
  rcases split_append h with ⟨behind, rfl⟩ | hbefore
  · rw [List.append_assoc, List.cons_append] at h
    obtain ⟨-, hbehind⟩ := List.cons_eq_cons.mp (List.append_cancel_left h)
    have hall : ∀ c ∈ behind, p c = true := fun d hd ↦ hrun d (by simp [hd])
    obtain ⟨rfl, rfl⟩ := run_append_inj hall hrun' hrest hback hbehind
    exact Or.inl ⟨rfl, rfl⟩
  · exact Or.inr hbefore

/-! ## Blanks -/

instance (blanks : List Char) : Decidable (AllBlank blanks) :=
  decidable_of_iff (blanks.all isBlank = true) List.all_eq_true

theorem AllBlank.reverse (h : AllBlank blanks) : AllBlank blanks.reverse :=
  fun c hc ↦ h c (List.mem_reverse.mp hc)

/-- A run of what is not blank stops in front of blanks, and behind them where it stops there. -/
theorem AllBlank.stops_append (h : AllBlank blanks) (hp : ∀ {c}, isBlank c = true → p c = false)
    (hrest : Stops p rest) : Stops p (blanks ++ rest) := by
  cases blanks with
  | nil => exact hrest
  | cons b blanks => exact stops_cons.mpr (hp (h b List.mem_cons_self))

theorem afterGap_append (hblanks : AllBlank blanks) (hrest : Stops isBlank rest) :
    afterGap (blanks ++ rest) = rest := by
  rw [afterGap, drop_gap, dropWhile_append_of_stops hblanks hrest]

theorem gap_append_of_stops (hblanks : AllBlank blanks) (hrest : Stops isBlank rest) :
    gap (blanks ++ rest) = blanks.length := by
  rw [gap, takeWhile_append_of_stops hblanks hrest]

theorem exists_blanks (text : List Char) :
    ∃ blanks rest, AllBlank blanks ∧ Stops isBlank rest ∧ text = blanks ++ rest :=
  exists_run isBlank text

/-! ## Words -/

/-- Whether some characters are a word. -/
structure IsWord (word : List Char) : Prop where
  ne_nil : word ≠ []
  all_isWord : ∀ c ∈ word, isWord c = true

instance (word : List Char) : Decidable (IsWord word) :=
  decidable_of_iff (word ≠ [] ∧ word.all isWord = true)
    ⟨fun h ↦ ⟨h.1, List.all_eq_true.mp h.2⟩, fun h ↦ ⟨h.ne_nil, List.all_eq_true.mpr h.all_isWord⟩⟩

theorem isBlank_of_isWord {c : Char} (hc : isWord c = true) : isBlank c = false := by
  rw [← Bool.not_eq_true]
  exact fun h ↦ absurd hc (by simp [isWord_of_isBlank h])

theorem IsWord.stops_isBlank (h : IsWord word) (rest : List Char) :
    Stops isBlank (word ++ rest) := by
  refine Stops.append_of_ne_nil (fun c hc ↦ ?_) h.ne_nil rest
  exact isBlank_of_isWord (h.all_isWord c (List.mem_of_mem_head? hc))

theorem IsWord.not_mem (h : IsWord word) {mark : Char} (hmark : isWord mark = false) :
    mark ∉ word := by
  intro hmem
  rw [h.all_isWord mark hmem] at hmark
  cases hmark

theorem IsWord.append_ne (h : IsWord word) {mark : Char} (hmark : isWord mark = false)
    (rest back : List Char) : word ++ rest ≠ mark :: back := by
  intro heq
  cases word with
  | nil => exact h.ne_nil rfl
  | cons c word =>
    obtain ⟨rfl, -⟩ := List.cons_eq_cons.mp heq
    rw [h.all_isWord c List.mem_cons_self] at hmark
    cases hmark

theorem AllBlank.stops_isWord (h : AllBlank blanks) (hne : blanks ≠ []) (rest : List Char) :
    Stops isWord (blanks ++ rest) := by
  refine Stops.append_of_ne_nil (fun c hc ↦ ?_) hne rest
  exact isWord_of_isBlank (h c (List.mem_of_mem_head? hc))

theorem word?_eq_some_iff : word? text = some word ↔
    IsWord word ∧ ∃ rest, Stops isWord rest ∧ text = word ++ rest := by
  constructor
  · intro h
    rw [word?] at h
    split at h
    · cases h
    · rename_i hne
      obtain rfl := Option.some_inj.mp h
      exact ⟨⟨hne, fun c hc ↦ List.mem_takeWhile_imp hc⟩, text.dropWhile isWord,
        stops_dropWhile isWord text, List.takeWhile_append_dropWhile.symm⟩
  · rintro ⟨hword, rest, hrest, rfl⟩
    rw [word?, takeWhile_append_of_stops hword.all_isWord hrest]
    cases word with
    | nil => exact absurd rfl hword.ne_nil
    | cons c word => rfl

theorem word?_append (hword : IsWord word) (hrest : Stops isWord rest) :
    word? (word ++ rest) = some word := word?_eq_some_iff.mpr ⟨hword, rest, hrest, rfl⟩

theorem word?_eq_none_iff : word? text = none ↔ Stops isWord text := by
  constructor
  · intro h
    obtain ⟨run, rest, hrun, hrest, rfl⟩ := exists_run isWord text
    rcases eq_or_ne run [] with rfl | hne
    · exact hrest
    · rw [word?_append ⟨hne, hrun⟩ hrest] at h
      cases h
  · intro h
    rw [word?, takeWhile_of_stops h]

theorem atWordStart_iff {before : List Char} :
    atWordStart before = true ↔ Stops isWord before := by
  cases before <;> simp [atWordStart]

theorem atWordEnd_iff : atWordEnd text = true ↔ Stops isWord text := by
  cases text <;> simp [atWordEnd]

/-! ## Keywords -/

/-- Whether some characters are a spelling of a keyword. -/
def Spells (keyword spelled : List Char) : Prop := spelled.map foldLetter = keyword

instance (keyword spelled : List Char) : Decidable (Spells keyword spelled) :=
  inferInstanceAs (Decidable (_ = _))

theorem Spells.length_eq (h : Spells keyword spelled) : spelled.length = keyword.length := by
  rw [← show spelled.map foldLetter = keyword from h, List.length_map]

theorem startsWithKeyword_iff : startsWithKeyword keyword text = true ↔
    ∃ spelled rest, Spells keyword spelled ∧ text = spelled ++ rest := by
  induction keyword generalizing text with
  | nil => exact iff_of_true rfl ⟨[], text, rfl, rfl⟩
  | cons k keyword ih =>
    cases text with
    | nil =>
      refine iff_of_false (by simp [startsWithKeyword]) ?_
      rintro ⟨spelled, rest, hspelled, hnil⟩
      rw [(List.append_eq_nil_iff.mp hnil.symm).1] at hspelled
      cases hspelled
    | cons c text =>
      rw [startsWithKeyword, Bool.and_eq_true, beq_iff_eq, ih]
      constructor
      · rintro ⟨hc, spelled, rest, hspelled, rfl⟩
        exact ⟨c :: spelled, rest, List.cons_eq_cons.mpr ⟨hc, hspelled⟩, rfl⟩
      · rintro ⟨spelled, rest, hspelled, heq⟩
        cases spelled with
        | nil => cases hspelled
        | cons d spelled =>
          obtain ⟨hd, htail⟩ := List.cons_eq_cons.mp hspelled
          obtain ⟨rfl, rfl⟩ := List.cons_eq_cons.mp heq
          exact ⟨hd, spelled, rest, htail, rfl⟩

theorem isWord_of_foldLetter {c : Char} (hc : (foldLetter c).isUpper = true) : isWord c = true := by
  by_cases hs : c = '\u017F'
  · subst hs
    decide +kernel
  by_cases hk : c = '\u212A'
  · subst hk
    decide +kernel
  have hfold : foldLetter c = c.toUpper := by simp [foldLetter, hs, hk]
  rw [hfold] at hc
  by_cases hascii : c.toNat < 128
  · revert hc
    exact @Text.forall_ascii (fun c ↦ c.toUpper.isUpper = true → isWord c = true) (by decide) c
      hascii
  · rw [Text.toUpper_of_not_ascii hascii] at hc
    have hz : c.toNat ≤ 'Z'.toNat := (decide_eq_true_iff.mp hc).2
    exact absurd (Nat.lt_of_le_of_lt hz (by decide)) hascii

theorem Spells.isWord (h : Spells keyword spelled)
    (hkeyword : keyword ≠ [] ∧ keyword.all Char.isUpper = true) : IsWord spelled where
  ne_nil := by
    rintro rfl
    exact hkeyword.1 (Eq.symm h)
  all_isWord c hc :=
    isWord_of_foldLetter (List.all_eq_true.mp hkeyword.2 _ (h ▸ List.mem_map_of_mem hc))

theorem phrase?_singleton_iff {length : Nat} : phrase? [keyword] text = some length ↔
    ∃ spelled blanks rest, Spells keyword spelled ∧ AllBlank blanks ∧ blanks ≠ [] ∧
      Stops isBlank rest ∧ text = spelled ++ (blanks ++ rest) ∧
      length = spelled.length + blanks.length := by
  rw [phrase?]
  constructor
  · intro h
    split at h
    · rename_i hkeyword
      obtain ⟨spelled, back, hspelled, rfl⟩ := startsWithKeyword_iff.mp hkeyword
      obtain ⟨blanks, rest, hblanks, hrest, rfl⟩ := exists_blanks back
      rw [← hspelled.length_eq, List.drop_left] at h
      simp only [gap_append_of_stops hblanks hrest, phrase?, Option.map_some] at h
      split at h
      · cases h
      · rename_i hgap
        -- a keyword without blanks behind it is no phrase
        refine ⟨spelled, blanks, rest, hspelled, hblanks, ?_, hrest, rfl, ?_⟩
        · rintro rfl
          exact hgap rfl
        · exact (Option.some_inj.mp h).symm
    · cases h
  · rintro ⟨spelled, blanks, rest, hspelled, hblanks, hne, hrest, rfl, rfl⟩
    rw [if_pos (startsWithKeyword_iff.mpr ⟨spelled, _, hspelled, rfl⟩), ← hspelled.length_eq,
      List.drop_left]
    simp only [gap_append_of_stops hblanks hrest, phrase?, Option.map_some]
    rw [if_neg (by simpa using hne)]
    rfl

theorem wordAfter?_eq_some_iff {length : Nat} : wordAfter? keyword text = some (word, length) ↔
    ∃ spelled blanks rest, Spells keyword spelled ∧ AllBlank blanks ∧ blanks ≠ [] ∧
      IsWord word ∧ Stops isWord rest ∧ text = spelled ++ (blanks ++ (word ++ rest)) ∧
      length = spelled.length + blanks.length + word.length := by
  rw [wordAfter?, Option.bind_eq_bind, Option.bind_eq_some_iff]
  constructor
  · rintro ⟨taken, htaken, h⟩
    obtain ⟨spelled, blanks, back, hspelled, hblanks, hne, -, rfl, rfl⟩ :=
      phrase?_singleton_iff.mp htaken
    rw [drop_append_append, Option.bind_eq_bind, Option.bind_eq_some_iff] at h
    obtain ⟨found, hfound, h⟩ := h
    obtain ⟨rfl, rfl⟩ := Prod.mk.inj (Option.some_inj.mp h)
    obtain ⟨hword, rest, hrest, rfl⟩ := word?_eq_some_iff.mp hfound
    exact ⟨spelled, blanks, rest, hspelled, hblanks, hne, hword, hrest, rfl, rfl⟩
  · rintro ⟨spelled, blanks, rest, hspelled, hblanks, hne, hword, hrest, rfl, rfl⟩
    refine ⟨_, phrase?_singleton_iff.mpr ⟨spelled, blanks, word ++ rest, hspelled, hblanks, hne,
      hword.stops_isBlank rest, rfl, rfl⟩, ?_⟩
    rw [drop_append_append, word?_append hword hrest]
    rfl

/-! ## Types -/

/-- Whether a character may stand in the name of a type. -/
def isTypeChar (c : Char) : Bool := isWord c || c == '.' || c == '%'

theorem isTypeChar_of_isBlank {c : Char} (hc : isBlank c = true) : isTypeChar c = false := by
  have hdot : c ≠ '.' := ne_of_isBlank (by decide) hc
  have hpercent : c ≠ '%' := ne_of_isBlank (by decide) hc
  simp [isTypeChar, isWord_of_isBlank hc, hdot, hpercent]

/-- Whether some characters are empty or a mark with a word behind it. -/
def IsMarked (mark : Char) (marked : List Char) : Prop :=
  marked = [] ∨ ∃ word, IsWord word ∧ marked = mark :: word

/-- Whether some characters are the name of a type: a word, with or without a member behind a dot
and a property behind a percent sign. -/
def IsTypeName (type : List Char) : Prop :=
  ∃ word member property, IsWord word ∧ IsMarked '.' member ∧ IsMarked '%' property ∧
    type = word ++ (member ++ property)

theorem markedWord_append {mark : Char} {marked : List Char} (hmarked : IsMarked mark marked)
    (hword : Stops isWord rest) (hrest : rest.head? ≠ some mark) :
    markedWord mark (marked ++ rest) = marked := by
  rcases hmarked with rfl | ⟨word, hword', rfl⟩
  · cases rest with
    | nil => rfl
    | cons c rest =>
      rw [List.head?_cons, Ne, Option.some_inj] at hrest
      exact if_neg (by simpa using hrest)
  · rw [List.cons_append, markedWord, if_pos (beq_self_eq_true mark), word?_append hword' hword]
    rfl

theorem isMarked_markedWord (mark : Char) (text : List Char) :
    IsMarked mark (markedWord mark text) := by
  cases text with
  | nil => exact Or.inl rfl
  | cons c text =>
    rw [markedWord]
    split
    · rename_i hc
      obtain rfl := eq_of_beq hc
      cases hfound : word? text with
      | none => exact Or.inl rfl
      | some word => exact Or.inr ⟨word, (word?_eq_some_iff.mp hfound).1, rfl⟩
    · exact Or.inl rfl

theorem typeName?_append {type : List Char} (htype : IsTypeName type)
    (hrest : Stops isTypeChar rest) : typeName? (type ++ rest) = some type := by
  obtain ⟨word, member, property, hword, hmember, hproperty, rfl⟩ := htype
  have hends : ∀ c ∈ rest.head?, (isWord c = false ∧ c ≠ '.') ∧ c ≠ '%' := by
    intro c hc
    simpa [isTypeChar] using hrest c hc
  have hstops : Stops isWord rest := fun c hc ↦ (hends c hc).1.1
  -- each part stops the one before it, as the marks belong to no word
  have hmark : ∀ {mark : Char} {marked back : List Char}, isWord mark = false →
      IsMarked mark marked → Stops isWord back → Stops isWord (marked ++ back) := by
    rintro mark marked back hnot (rfl | ⟨word, -, rfl⟩) hback
    · exact hback
    · exact stops_cons.mpr hnot
  have hproperties := hmark (by decide) hproperty hstops
  have hmembers := hmark (by decide) hmember hproperties
  have hdot : (property ++ rest).head? ≠ some '.' := by
    rcases hproperty with rfl | ⟨word, -, rfl⟩
    · exact fun h ↦ (hends '.' h).1.2 rfl
    · simp
  have hpercent : rest.head? ≠ some '%' := fun h ↦ (hends '%' h).2 rfl
  simp only [typeName?, List.append_assoc, word?_append hword hmembers, Option.map_some,
    List.drop_left, markedWord_append hmember hproperties hdot, drop_append_append,
    markedWord_append hproperty hstops hpercent]

theorem isTypeName_of_typeName? {type : List Char} (h : typeName? text = some type) :
    IsTypeName type := by
  rw [typeName?, Option.map_eq_some_iff] at h
  obtain ⟨word, hword, rfl⟩ := h
  exact ⟨word, _, _, (word?_eq_some_iff.mp hword).1, isMarked_markedWord '.' _,
    isMarked_markedWord '%' _, List.append_assoc _ _ _⟩

end Lineage.Source
