import Lineage.Proofs.Source.Phrase
import Lineage.Proofs.Text.Search

/-!
# Declared identifiers

An identifier may hold dollar and number signs, here as everywhere in a source text, but the search
for declarations reads a word, which holds neither. So it may stop within the identifier, at the
first such sign. What is declared is therefore told by the *identifier*, the run of name characters
right behind the keyword, with the text after it, and what is reported is compared with that.

Where the search stops within an identifier there is a sign in front of it and no parenthesis: no
parameter list is found, and no return type either. So a procedure is reported under the front of
its identifier and without arguments, and a function is not reported at all. Everything that is
reported is right exactly if no identifier of a procedure holds one of the two signs.
-/

namespace Lineage.Source

open Text (isBlank isWord)

variable {before text rest back keyword identifier word : List Char} {d : List Char × List Char}

/-! ## Declarations -/

/-- A declaration is recognised exactly where a keyword, blanks and a word stand. -/
theorem declared_eq_some_iff {length : Nat} :
    declared keyword before text = some ((word, rest), length) ↔
      atWordStart before = true ∧ ∃ spelled blanks, Spells keyword spelled ∧ AllBlank blanks ∧
        blanks ≠ [] ∧ IsWord word ∧ Stops isWord rest ∧
        text = spelled ++ (blanks ++ (word ++ rest)) ∧
        length = spelled.length + blanks.length + word.length := by
  have hdrop : ∀ as bs cs ds : List Char,
      (as ++ (bs ++ (cs ++ ds))).drop (as.length + bs.length + cs.length) = ds := by
    intro as bs cs ds
    rw [← List.drop_drop, drop_append_append, List.drop_left]
  rw [declared]
  split
  · rename_i hstart
    rw [Option.map_eq_some_iff, and_iff_right hstart]
    constructor
    · rintro ⟨⟨word', length'⟩, hfound, heq⟩
      obtain ⟨spelled, blanks, rest', hspelled, hblanks, hne, hword, hrest, rfl, rfl⟩ :=
        wordAfter?_eq_some_iff.mp hfound
      simp only [hdrop, Prod.mk.injEq] at heq
      obtain ⟨⟨rfl, rfl⟩, rfl⟩ := heq
      exact ⟨spelled, blanks, hspelled, hblanks, hne, hword, hrest, rfl, rfl⟩
    · rintro ⟨spelled, blanks, hspelled, hblanks, hne, hword, hrest, rfl, rfl⟩
      refine ⟨(word, spelled.length + blanks.length + word.length), wordAfter?_eq_some_iff.mpr
        ⟨spelled, blanks, rest, hspelled, hblanks, hne, hword, hrest, rfl, rfl⟩, ?_⟩
      simp only [hdrop]
  · rename_i hstart
    exact ⟨nofun, fun h ↦ absurd h.1 hstart⟩

theorem takesText_declared (keyword : List Char) : Text.TakesText (declared keyword) := by
  rintro before text ⟨word, rest⟩ length h
  obtain ⟨-, spelled, blanks, -, -, -, hword, -, rfl, rfl⟩ := declared_eq_some_iff.mp h
  have hpos := List.length_pos_iff.mpr hword.ne_nil
  simp only [List.length_append]
  omega

/-! ## Identifiers -/

/-- Whether some characters between two texts are an identifier: a run of name characters as far as
it goes in either direction. -/
structure IsIdentifier (front identifier back : List Char) : Prop where
  ne_nil : identifier ≠ []
  all_isNameChar : ∀ c ∈ identifier, isNameChar c = true
  front_stops : Stops isNameChar front.reverse
  back_stops : Stops isNameChar back

/-- Whether an identifier with a text after it stands in a text right behind a keyword. -/
def IsDeclared (keyword text : List Char) (d : List Char × List Char) : Prop :=
  ∃ front spelled blanks, atWordStart front.reverse = true ∧ Spells keyword spelled ∧
    AllBlank blanks ∧ blanks ≠ [] ∧ IsIdentifier (front ++ (spelled ++ blanks)) d.1 d.2 ∧
    text = front ++ (spelled ++ (blanks ++ (d.1 ++ d.2)))

/-- A word with a text after it, with the word read on to the end of the identifier. -/
def toIdentifier (found : List Char × List Char) : List Char × List Char :=
  (found.1 ++ found.2.takeWhile isNameChar, found.2.dropWhile isNameChar)

/-- The identifiers that a keyword declares in a text, each with the text after it. -/
def declaredIdentifiers (keyword text : List Char) : List (List Char × List Char) :=
  (Text.scan (declared keyword) text).map toIdentifier

theorem isNameChar_of_isWord {c : Char} (hc : isWord c = true) : isNameChar c = true := by
  rw [isNameChar, hc, Bool.true_or, Bool.true_or]

theorem isWord_eq_false_iff {c : Char} (hc : isNameChar c = true) :
    isWord c = false ↔ c = '$' ∨ c = '#' := by
  constructor
  · intro hword
    rw [isNameChar, hword, Bool.false_or, Bool.or_eq_true, beq_iff_eq, beq_iff_eq] at hc
    exact hc
  · rintro (rfl | rfl) <;> decide

/-- The signs that an identifier may hold and a word may not. -/
def HasSign (identifier : List Char) : Prop := '$' ∈ identifier ∨ '#' ∈ identifier

instance (identifier : List Char) : Decidable (HasSign identifier) :=
  inferInstanceAs (Decidable (_ ∨ _))

theorem IsWord.not_hasSign (h : IsWord word) : ¬HasSign word := by
  rintro (hmem | hmem) <;> exact h.not_mem (by decide) hmem

theorem isWord_of_not_hasSign (hne : identifier ≠ [])
    (hname : ∀ c ∈ identifier, isNameChar c = true) (hsign : ¬HasSign identifier) :
    IsWord identifier where
  ne_nil := hne
  all_isWord c hc := by
    rw [← Bool.not_eq_false]
    intro hword
    rcases (isWord_eq_false_iff (hname c hc)).mp hword with rfl | rfl
    · exact hsign (Or.inl hc)
    · exact hsign (Or.inr hc)

theorem hasSign_append_iff (hword : IsWord word) (hrest : Stops isWord rest) :
    HasSign (word ++ rest.takeWhile isNameChar) ↔ ∃ c back, (c = '$' ∨ c = '#') ∧
      rest = c :: back := by
  obtain ⟨hdollar, hnumber⟩ := not_or.mp hword.not_hasSign
  rw [HasSign, List.mem_append, List.mem_append, or_iff_right hdollar, or_iff_right hnumber]
  cases rest with
  | nil => simp
  | cons c rest =>
    by_cases hc : isNameChar c = true
    · have hsign := (isWord_eq_false_iff hc).mp (stops_cons.mp hrest)
      refine iff_of_true ?_ ⟨c, rest, hsign, rfl⟩
      rw [List.takeWhile_cons_of_pos hc]
      rcases hsign with rfl | rfl
      · exact Or.inl List.mem_cons_self
      · exact Or.inr List.mem_cons_self
    · rw [List.takeWhile_cons_of_neg hc]
      refine iff_of_false (by simp) ?_
      rintro ⟨c, back, hsign, heq⟩
      obtain ⟨rfl, -⟩ := List.cons_eq_cons.mp heq
      rcases hsign with rfl | rfl <;> exact hc (by decide)

theorem isDeclared_of_mem (hd : d ∈ declaredIdentifiers keyword text) :
    IsDeclared keyword text d := by
  obtain ⟨⟨word, rest⟩, hfound, rfl⟩ := List.mem_map.mp hd
  obtain ⟨m, i, hm, hvalue⟩ := Text.exists_matchAt?_of_mem_scan (takesText_declared keyword) hfound
  have hrecognised := Text.recognise_of_matchAt? hm
  rw [hvalue] at hrecognised
  obtain ⟨hstart, spelled, blanks, hspelled, hblanks, hne, hword, -, htext, -⟩ :=
    declared_eq_some_iff.mp hrecognised
  refine ⟨text.take i, spelled, blanks, hstart, hspelled, hblanks, hne, ⟨?_, ?_, ?_, ?_⟩, ?_⟩
  · exact List.append_ne_nil_of_left_ne_nil hword.ne_nil _
  · intro c hc
    rcases List.mem_append.mp hc with hc | hc
    · exact isNameChar_of_isWord (hword.all_isWord c hc)
    · exact List.mem_takeWhile_imp hc
  · -- the character in front of the identifier is a blank
    rw [List.reverse_append, List.reverse_append, List.append_assoc]
    refine Stops.append_of_ne_nil (fun c hc ↦ isNameChar_of_isBlank (hblanks c ?_)) ?_ _
    · exact List.mem_reverse.mp (List.mem_of_mem_head? hc)
    · simpa using hne
  · exact stops_dropWhile isNameChar rest
  · rw [toIdentifier, List.append_assoc, List.takeWhile_append_dropWhile, ← htext,
      List.take_append_drop]

/-! ## What is reported -/

/-- The arguments in the parameter list right behind an identifier, none if there is no list. -/
def argumentsAfter (back : List Char) : List Argument :=
  ((parameterList? back).map fun list ↦ parseArguments list.1).getD []

/-- Whether a name and arguments are those of a declared identifier and of the parameter list right
behind it. -/
structure ReportsWhole (d : List Char × List Char) (name : String) (arguments : List Argument) :
    Prop where
  name_eq : name = String.ofList d.1
  arguments_eq : arguments = argumentsAfter d.2

/-- What is reported of a word behind `FUNCTION` with the text after it, if anything is. -/
def function? (p : Package) (found : List Char × List Char) : Option Function :=
  (returnType? (signature found.2).2).map fun type ↦ {
    owner := p.owner
    name := String.ofList found.1
    sql := none
    package := some p.name
    arguments := (signature found.2).1
    returnType := some (String.ofList type) }

theorem functions_eq (p : Package) : functions p =
    (Text.scan (declared "FUNCTION".toList) (specification p)).filterMap (function? p) := rfl

theorem signature_fst (back : List Char) : (signature back).1 = argumentsAfter back := by
  rw [signature, argumentsAfter]
  cases parameterList? back <;> rfl

theorem returnType?_of_sign {c : Char} (hc : c = '$' ∨ c = '#') :
    returnType? (signature (c :: back)).2 = none := by
  rcases hc with rfl | rfl <;> rfl

theorem toIdentifier_of_not_hasSign (hword : IsWord word) (hrest : Stops isWord rest)
    (hsign : ¬HasSign (toIdentifier (word, rest)).1) :
    toIdentifier (word, rest) = (word, rest) := by
  rw [toIdentifier, hasSign_append_iff hword hrest] at hsign
  have hstops : Stops isNameChar rest := by
    cases rest with
    | nil => exact stops_nil _
    | cons c rest =>
      rw [stops_cons, ← Bool.not_eq_true]
      exact fun hc ↦ hsign ⟨c, rest, (isWord_eq_false_iff hc).mp (stops_cons.mp hrest), rfl⟩
  rw [toIdentifier, takeWhile_of_stops hstops, dropWhile_of_stops hstops, List.append_nil]

/-- What is found of a declaration is its whole identifier exactly if that has no sign. -/
theorem eq_fst_toIdentifier_iff (hword : IsWord word) (hrest : Stops isWord rest) :
    word = (toIdentifier (word, rest)).1 ↔ ¬HasSign (toIdentifier (word, rest)).1 := by
  constructor
  · intro heq hsign
    obtain ⟨c, back, hc, rfl⟩ := (hasSign_append_iff hword hrest).mp hsign
    have hname : isNameChar c = true := by rcases hc with rfl | rfl <;> decide
    rw [toIdentifier, List.takeWhile_cons_of_pos hname] at heq
    exact absurd (List.self_eq_append_right.mp heq) (List.cons_ne_nil _ _)
  · exact fun hsign ↦ by rw [toIdentifier_of_not_hasSign hword hrest hsign]

theorem isWord_and_stops_of_mem_scan {found : List Char × List Char}
    (h : found ∈ Text.scan (declared keyword) text) : IsWord found.1 ∧ Stops isWord found.2 := by
  obtain ⟨before, back, length, hfound⟩ := Text.exists_of_mem_scan h
  obtain ⟨-, spelled, blanks, -, -, -, hword, hrest, -, -⟩ := declared_eq_some_iff.mp hfound
  exact ⟨hword, hrest⟩

/-- **Declared names.** Every identifier behind a keyword that is found to declare it is a run of
name characters as far as it goes. The procedures that are reported have, in order, these whole
identifiers as names and the arguments of the lists right behind them exactly if none of the
identifiers of procedures holds a dollar or number sign. The functions that are reported always do,
for some of the identifiers of functions, in order. -/
theorem declared_names_whole_iff (p : Package) :
    (∀ keyword, ∀ d ∈ declaredIdentifiers keyword (specification p),
      IsDeclared keyword (specification p) d) ∧
    (List.Forall₂ (fun d (q : Procedure) ↦ ReportsWhole d q.name q.arguments)
        (declaredIdentifiers "PROCEDURE".toList (specification p)) (procedures p) ↔
      ∀ d ∈ declaredIdentifiers "PROCEDURE".toList (specification p), ¬HasSign d.1) ∧
    ∃ ds, ds.Sublist (declaredIdentifiers "FUNCTION".toList (specification p)) ∧
      List.Forall₂ (fun d (f : Function) ↦ ReportsWhole d f.name f.arguments) ds
        (functions p) := by
  refine ⟨fun keyword d hd ↦ isDeclared_of_mem hd, ?_, ?_⟩
  · rw [declaredIdentifiers, procedures, List.forall₂_map_left_iff, List.forall₂_map_right_iff,
      List.forall₂_same, List.forall_mem_map]
    refine forall₂_congr fun found hfound ↦ ?_
    obtain ⟨hword, hrest⟩ := isWord_and_stops_of_mem_scan hfound
    rw [← eq_fst_toIdentifier_iff hword hrest]
    constructor
    · exact fun h ↦ String.ofList_injective h.name_eq
    · intro heq
      have hwhole := toIdentifier_of_not_hasSign hword hrest
        ((eq_fst_toIdentifier_iff hword hrest).mp heq)
      rw [hwhole]
      exact ⟨rfl, signature_fst found.2⟩
  · rw [functions_eq]
    refine exists_sublist_forall₂_filterMap fun found hfound f hf ↦ ?_
    obtain ⟨hword, hrest⟩ := isWord_and_stops_of_mem_scan hfound
    obtain ⟨type, htype, rfl⟩ := Option.map_eq_some_iff.mp hf
    -- behind a name that is cut short no type is found, so the function is skipped
    have hsign : ¬HasSign (toIdentifier found).1 := by
      intro hsign
      obtain ⟨c, back, hc, heq⟩ := (hasSign_append_iff hword hrest).mp hsign
      rw [heq, returnType?_of_sign hc] at htype
      cases htype
    rw [toIdentifier_of_not_hasSign hword hrest hsign]
    exact ⟨rfl, signature_fst found.2⟩

/-- A package with a specification. -/
def payPackage (definition : String) : Package := ⟨"HR", "PAY", some definition, none⟩

/-- A procedure with a dollar sign in its name is reported under the front of its name, which is not
an identifier of the text, and without the argument that it takes. -/
theorem not_reportsWhole_dollarSign :
    (procedures (payPackage "PROCEDURE pay$x(base NUMBER);")).map (·.name) = ["pay"] ∧
      (∀ front back, specification (payPackage "PROCEDURE pay$x(base NUMBER);") =
        front ++ ("pay".toList ++ back) → ¬IsIdentifier front "pay".toList back) ∧
      (procedures (payPackage "PROCEDURE pay$x(base NUMBER);")).map (·.arguments) = [[]] ∧
      IsDeclared "PROCEDURE".toList (specification (payPackage "PROCEDURE pay$x(base NUMBER);"))
        ("pay$x".toList, "(base NUMBER);".toList) ∧
      argumentsAfter "(base NUMBER);".toList = [⟨"base", "NUMBER", 1, true, false⟩] := by
  -- the front of the name stands at one position only
  have hplace : ∀ i ≤ 29, "pay".toList <+: "PROCEDURE pay$x(base NUMBER);".toList.drop i →
      i = 10 := by decide
  refine ⟨by decide, fun front back htext hidentifier ↦ ?_, by decide,
    isDeclared_of_mem (by decide), by decide⟩
  have hspecification : specification (payPackage "PROCEDURE pay$x(base NUMBER);") =
      "PROCEDURE pay$x(base NUMBER);".toList := by decide
  rw [hspecification] at htext
  have hlength := congrArg List.length htext
  have hten := hplace front.length (by simp at hlength; omega)
    (by rw [htext, List.drop_left]; exact List.prefix_append _ _)
  have hback : back = "$x(base NUMBER);".toList := by
    have hdrop := congrArg (List.drop 13) htext
    rw [← List.append_assoc, List.drop_left' (by simp [hten])] at hdrop
    exact hdrop.symm
  subst hback
  exact absurd (hidentifier.back_stops '$' rfl) (by decide)

end Lineage.Source
