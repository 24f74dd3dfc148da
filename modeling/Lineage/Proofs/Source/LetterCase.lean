import Lineage.Proofs.Source.Comment
import Lineage.Proofs.Text.Capital
import Lineage.Proofs.Text.Scan

/-!
# Letter case does not matter

A source text in capitals refers to what the text itself refers to, with the names in capitals. No
stage on the way from the text to the names tells a letter from its capital: comments are bounded by
marks, which no letter becomes, lexemes are made of classes of characters that a letter shares with
its capital, keywords are matched by folded letters, and known words, tables and repeats are looked
up by upper case.

So a recogniser follows the case of the text: it finds in capitals what it finds in the text, takes
as many characters for it, and gives it in capitals. This is `FollowsCase`, with one lemma for each
kind of lexeme and of context on the way to it, and it is all that a scan needs.
-/

namespace Lineage.Source

open Text (Recogniser capitalized)

variable {mode : Mode} {text : List Char}

/-! ## Comments -/

namespace Mode

theorem finish_map_toUpper (mode : Mode) : mode.finish.map Char.toUpper = mode.finish := by
  cases mode <;> rfl

theorem stepCode_toUpper (c : Char) :
    stepCode c.toUpper = ((stepCode c).1, (stepCode c).2.map Char.toUpper) := by
  simp (disch := decide) only [stepCode, Text.toUpper_beq]
  split_ifs <;> rfl

theorem step_toUpper (mode : Mode) (c : Char) :
    mode.step c.toUpper = ((mode.step c).1, (mode.step c).2.map Char.toUpper) := by
  cases mode with
  | code => exact stepCode_toUpper c
  | dash | slash | literal | apostrophe | line | block | star =>
    simp (disch := decide) only [step, Text.toUpper_beq, stepCode_toUpper]
    split_ifs <;> rfl

theorem after_map_toUpper : mode.after (text.map Char.toUpper) = mode.after text := by
  induction text generalizing mode with
  | nil => rfl
  | cons c text ih => rw [List.map_cons, after_cons, step_toUpper, ih, after_cons]

theorem written_map_toUpper :
    mode.written (text.map Char.toUpper) = (mode.written text).map Char.toUpper := by
  induction text generalizing mode with
  | nil => rfl
  | cons c text ih =>
    rw [List.map_cons, written_cons, step_toUpper, ih, written_cons, List.map_append]

end Mode

theorem withoutComments_map_toUpper (text : List Char) :
    withoutComments (text.map Char.toUpper) = (withoutComments text).map Char.toUpper := by
  rw [withoutComments_eq_output, Mode.output, Mode.after_map_toUpper, Mode.written_map_toUpper,
    withoutComments_eq_output, Mode.output, List.map_append, Mode.finish_map_toUpper]

theorem searched_capitalized (s : String) :
    searched (capitalized s) = (searched s).map Char.toUpper := by
  rw [searched, Text.toList_capitalized, withoutComments_map_toUpper, searched]

/-! ## Lexemes in capitals -/

theorem foldLetter_toUpper (c : Char) : foldLetter c.toUpper = foldLetter c :=
  Text.apply_toUpper (by decide) c

theorem isNameStart_toUpper (c : Char) : isNameStart c.toUpper = isNameStart c :=
  Text.apply_toUpper (by decide) c

theorem isNameChar_toUpper (c : Char) : isNameChar c.toUpper = isNameChar c :=
  Text.apply_toUpper (by decide) c

theorem startsWithKeyword_map_toUpper (keyword text : List Char) :
    startsWithKeyword keyword (text.map Char.toUpper) = startsWithKeyword keyword text := by
  induction keyword generalizing text with
  | nil => rfl
  | cons k keyword ih =>
    cases text with
    | nil => rfl
    | cons c text =>
      rw [List.map_cons, startsWithKeyword, foldLetter_toUpper, ih, startsWithKeyword]

theorem atWordStart_map_toUpper (before : List Char) :
    atWordStart (before.map Char.toUpper) = atWordStart before := by
  cases before with
  | nil => rfl
  | cons c before => exact congrArg (!·) (Text.isWord_toUpper c)

theorem atWordEnd_map_toUpper (text : List Char) :
    atWordEnd (text.map Char.toUpper) = atWordEnd text := by
  cases text with
  | nil => rfl
  | cons c text => exact congrArg (!·) (Text.isWord_toUpper c)

theorem gap_map_toUpper (text : List Char) : gap (text.map Char.toUpper) = gap text := by
  rw [gap, Text.takeWhile_map_toUpper Text.isBlank_toUpper, List.length_map, gap]

theorem name?_map_toUpper (text : List Char) :
    name? (text.map Char.toUpper) = (name? text).map (List.map Char.toUpper) := by
  cases text with
  | nil => rfl
  | cons c text =>
    rw [List.map_cons, name?, isNameStart_toUpper, Text.takeWhile_map_toUpper isNameChar_toUpper,
      name?]
    split
    · rfl
    · rfl

theorem qualifiedName?_map_toUpper (text : List Char) :
    qualifiedName? (text.map Char.toUpper) = (qualifiedName? text).map (List.map Char.toUpper) := by
  rw [qualifiedName?, name?_map_toUpper, qualifiedName?, Option.map_map, Option.map_map]
  refine Option.map_congr fun first _ ↦ ?_
  simp only [Function.comp, List.length_map, ← List.map_drop]
  -- a dot in capitals is a dot of the text, so both texts take the same branch
  cases text.drop first.length with
  | nil => rfl
  | cons c tail =>
    by_cases hc : c = '.'
    · subst hc
      have hdot : ('.' :: tail).map Char.toUpper = '.' :: tail.map Char.toUpper := rfl
      simp only [hdot, name?_map_toUpper]
      cases name? tail with
      | none => rfl
      | some second => simp
    · have hc' : c.toUpper ≠ '.' := Text.toUpper_ne (by decide) hc
      simp [hc, hc']

theorem phrase?_map_toUpper (phrase : List (List Char)) (text : List Char) :
    phrase? phrase (text.map Char.toUpper) = phrase? phrase text := by
  induction phrase generalizing text with
  | nil => rfl
  | cons keyword phrase ih =>
    rw [phrase?, startsWithKeyword_map_toUpper, phrase?]
    simp only [← List.map_drop, gap_map_toUpper, ih]

/-! ## Contexts in capitals -/

theorem previousWord_map_toUpper (before : List Char) :
    previousWord (before.map Char.toUpper) = (previousWord before).map Char.toUpper := by
  have hword : ∀ c : Char, (Text.isAlphanumeric c.toUpper || c.toUpper == '_') =
      (Text.isAlphanumeric c || c == '_') := by
    intro c
    rw [Text.isAlphanumeric_toUpper, Text.toUpper_beq (by decide)]
  rw [previousWord, Text.trimStart_map_toUpper, Text.takeWhile_map_toUpper hword,
    ← List.map_reverse, previousWord]

theorem notAfterFor_map_toUpper (before : List Char) :
    notAfterFor (before.map Char.toUpper) = notAfterFor before := by
  rw [notAfterFor, previousWord_map_toUpper, Text.map_toUpper_map_toUpper, notAfterFor]

theorem isDeclared_map_toUpper (before : List Char) :
    isDeclared (before.map Char.toUpper) = isDeclared before := by
  rw [isDeclared, previousWord_map_toUpper, Text.map_toUpper_map_toUpper, isDeclared]

theorem isSequenceColumn_map_toUpper (word : List Char) :
    isSequenceColumn (word.map Char.toUpper) = isSequenceColumn word := by
  rw [isSequenceColumn, Text.map_toUpper_map_toUpper, isSequenceColumn]

/-! ## Known words in capitals -/

theorem isSqlKeyword_capitalized (word : String) :
    isSqlKeyword (capitalized word) = isSqlKeyword word := by
  rw [isSqlKeyword, Text.upcase_capitalized, isSqlKeyword]

theorem isCallable_capitalized (name : String) :
    isCallable (capitalized name) = isCallable name := by
  rw [isCallable, isSqlKeyword_capitalized, isBuiltInFunction, Text.upcase_capitalized, isCallable,
    isBuiltInFunction]

/-- The tables of a text, with their names in capitals. -/
def TableReferences.capitalized (t : TableReferences) : TableReferences where
  reads := t.reads.map Text.capitalized
  inserts := t.inserts.map Text.capitalized
  updates := t.updates.map Text.capitalized
  deletes := t.deletes.map Text.capitalized
  merges := t.merges.map Text.capitalized

theorem TableReferences.contains_capitalized (t : TableReferences) (name : String) :
    t.capitalized.contains (Text.capitalized name) = t.contains name := by
  simp only [contains, TableReferences.capitalized, Text.hasName_capitalized]

theorem isPackageCall_capitalized (t : TableReferences) (before package member : List Char) :
    isPackageCall t.capitalized (before.map Char.toUpper) (package.map Char.toUpper)
        (member.map Char.toUpper) =
      isPackageCall t before package member := by
  have hbuiltIn : ∀ name, isBuiltInPackage (capitalized name) = isBuiltInPackage name := by
    intro name
    rw [isBuiltInPackage, Text.upcase_capitalized, isBuiltInPackage]
  have hsystem : ∀ name, isSystemSchema (capitalized name) = isSystemSchema name := by
    intro name
    rw [isSystemSchema, Text.upcase_capitalized, isSystemSchema]
  have hmember : capitalized (String.ofList (package ++ '.' :: member)) =
      String.ofList (package.map Char.toUpper ++ '.' :: member.map Char.toUpper) := by
    rw [Text.capitalized_ofList, List.map_append]
    rfl
  simp only [isPackageCall, bne, ← Text.capitalized_ofList, ← hmember, hbuiltIn, hsystem,
    Text.head?_map_toUpper_beq (by decide : ':'.isAlpha = false), isDeclared_map_toUpper,
    isSqlKeyword_capitalized, isSequenceColumn_map_toUpper, TableReferences.contains_capitalized]

/-! ## Recognisers -/

/-- Whether one recogniser finds in a text in capitals what another finds in the text itself,
changed by `f`, and takes as many characters for it. -/
def FollowsCase {α : Type} (f : α → α) (recognise recognise' : Recogniser α) : Prop :=
  ∀ before text, recognise' (before.map Char.toUpper) (text.map Char.toUpper) =
    (recognise before text).map (Prod.map f id)

theorem followsCase_tableAfter {accepts : List Char → Bool}
    (haccepts : ∀ before, accepts (before.map Char.toUpper) = accepts before)
    (phrase : List (List Char)) :
    FollowsCase (Option.map capitalized) (tableAfter accepts phrase)
      (tableAfter accepts phrase) := by
  intro before text
  rw [tableAfter, atWordStart_map_toUpper, phrase?_map_toUpper, tableAfter]
  split
  · cases phrase? phrase text with
    | none => rfl
    | some length =>
      simp only [Option.bind_eq_bind, Option.bind_some, ← List.map_drop, qualifiedName?_map_toUpper]
      cases qualifiedName? (text.drop length) with
      | none => rfl
      | some name =>
        simp only [Option.map_some, Option.bind_some, ← Text.capitalized_ofList,
          isSqlKeyword_capitalized, haccepts, List.length_map]
        split
        · rfl
        · rfl
  · rfl

theorem FollowsCase.or {α : Type} {f : α → α} {first first' second second' : Recogniser α}
    (hfirst : FollowsCase f first first') (hsecond : FollowsCase f second second') :
    FollowsCase f (fun before text ↦ (first before text).or (second before text))
      (fun before text ↦ (first' before text).or (second' before text)) := by
  intro before text
  dsimp only
  rw [hfirst, hsecond, Option.map_or]

theorem followsCase_anywhere (phrase : List (List Char)) :
    FollowsCase (Option.map capitalized) (tableAfter anywhere phrase)
      (tableAfter anywhere phrase) :=
  followsCase_tableAfter (fun _ ↦ rfl) phrase

theorem followsCase_fromTable : FollowsCase (Option.map capitalized) fromTable fromTable :=
  followsCase_anywhere _

theorem followsCase_joinTable : FollowsCase (Option.map capitalized) joinTable joinTable :=
  followsCase_anywhere _

theorem followsCase_insertTable : FollowsCase (Option.map capitalized) insertTable insertTable :=
  followsCase_anywhere _

theorem followsCase_updateTable : FollowsCase (Option.map capitalized) updateTable updateTable :=
  followsCase_tableAfter notAfterFor_map_toUpper _

theorem followsCase_deleteTable : FollowsCase (Option.map capitalized) deleteTable deleteTable :=
  (followsCase_anywhere _).or (followsCase_anywhere _)

theorem followsCase_mergeTable : FollowsCase (Option.map capitalized) mergeTable mergeTable :=
  followsCase_anywhere _

theorem followsCase_packageCall (t : TableReferences) :
    FollowsCase (Option.map capitalized) (packageCall t) (packageCall t.capitalized) := by
  intro before text
  rw [packageCall, atWordStart_map_toUpper, name?_map_toUpper, packageCall]
  split
  -- the package, the dot, the member and the mark behind it: each is there in both texts or in none
  · cases name? text with
    | none => rfl
    | some package =>
      simp only [Option.map_some, Option.bind_eq_bind, Option.bind_some, List.length_map,
        ← List.map_drop]
      cases text.drop package.length with
      | nil => rfl
      | cons c rest =>
        by_cases hc : c = '.'
        · subst hc
          have hdot : ('.' :: rest).map Char.toUpper = '.' :: rest.map Char.toUpper := rfl
          simp only [hdot, name?_map_toUpper]
          cases name? rest with
          | none => rfl
          | some member =>
            simp only [Option.map_some, Option.bind_some, List.length_map, ← List.map_drop,
              gap_map_toUpper]
            cases (rest.drop member.length).drop (gap (rest.drop member.length)) with
            | nil => rfl
            | cons mark tail =>
              simp only [List.map_cons, Text.toUpper_beq (by decide : '('.isAlpha = false),
                Text.toUpper_beq (by decide : ';'.isAlpha = false), isPackageCall_capitalized,
                ← Text.capitalized_ofList]
              split
              · split
                · rfl
                · rfl
              · rfl
        · have hc' : c.toUpper ≠ '.' := Text.toUpper_ne (by decide) hc
          simp [hc, hc']
  · rfl

theorem nameBeforeParen?_map_toUpper (text : List Char) :
    nameBeforeParen? (text.map Char.toUpper) =
      (nameBeforeParen? text).map (Prod.map (List.map Char.toUpper) id) := by
  rw [nameBeforeParen?, qualifiedName?_map_toUpper, nameBeforeParen?]
  cases qualifiedName? text with
  | none => rfl
  | some name =>
    simp only [Option.map_some, Option.bind_eq_bind, Option.bind_some, List.length_map,
      ← List.map_drop, gap_map_toUpper]
    cases (text.drop name.length).drop (gap (text.drop name.length)) with
    | nil => rfl
    | cons c rest =>
      by_cases hc : c = '('
      · subst hc
        rfl
      · have hc' : c.toUpper ≠ '(' := Text.toUpper_ne (by decide) hc
        simp [hc, hc']

theorem followsCase_procedureCall (t : TableReferences) :
    FollowsCase (Option.map capitalized) (procedureCall t) (procedureCall t.capitalized) := by
  intro before text
  rw [procedureCall, atWordStart_map_toUpper, nameBeforeParen?_map_toUpper, procedureCall]
  split
  · cases nameBeforeParen? text with
    | none => rfl
    | some found =>
      simp only [Option.map_some, Prod.map, ← Text.capitalized_ofList, bne,
        Text.head?_map_toUpper_beq (by decide : '.'.isAlpha = false), isCallable_capitalized,
        TableReferences.contains_capitalized]
      split
      · rfl
      · rfl
  · rfl

theorem callOpening?_map_toUpper (text : List Char) :
    callOpening? (text.map Char.toUpper) = callOpening? text := by
  -- both openings are made of marks, so the cases are those of the definition
  cases text with
  | nil => rfl
  | cons c text =>
    by_cases hcolon : c = ':'
    · subst hcolon
      cases text with
      | nil => rfl
      | cons d text =>
        by_cases hequals : d = '='
        · subst hequals
          rfl
        · have hequals' : d.toUpper ≠ '=' := Text.toUpper_ne (by decide) hequals
          simp [callOpening?, hequals, hequals']
    · by_cases hparen : c = '('
      · subst hparen
        rfl
      · have hcolon' : c.toUpper ≠ ':' := Text.toUpper_ne (by decide) hcolon
        have hparen' : c.toUpper ≠ '(' := Text.toUpper_ne (by decide) hparen
        simp [callOpening?, hcolon, hcolon', hparen, hparen']

theorem followsCase_functionCall :
    FollowsCase (Option.map capitalized) functionCall functionCall := by
  intro before text
  rw [functionCall, callOpening?_map_toUpper, functionCall]
  cases callOpening? text with
  | none => rfl
  | some opening =>
    simp only [Option.bind_eq_bind, Option.bind_some, ← List.map_drop, gap_map_toUpper,
      nameBeforeParen?_map_toUpper]
    cases nameBeforeParen? ((text.drop opening).drop (gap (text.drop opening))) with
    | none => rfl
    | some found =>
      -- the parenthesis is not passed, but that is one character less in both texts
      simp only [Option.map_some, Option.bind_some, Prod.map, ← Text.capitalized_ofList,
        isCallable_capitalized]
      split
      · rfl
      · rfl

theorem followsCase_dynamicStatement : FollowsCase id dynamicStatement dynamicStatement := by
  intro before text
  rw [dynamicStatement, atWordStart_map_toUpper, phrase?_map_toUpper, dynamicStatement]
  simp only [← List.map_drop, startsWithKeyword_map_toUpper, atWordEnd_map_toUpper,
    Text.head?_map_toUpper_beq (by decide : '.'.isAlpha = false), Prod.map_id, Option.map_id, id]

/-! ## Texts in capitals -/

/-- What is found in a text in capitals by name is what is found in the text, in capitals. -/
theorem names_map_toUpper {recognise recognise' : Recogniser (Option String)}
    (h : FollowsCase (Option.map capitalized) recognise recognise') (text : List Char) :
    (Text.scan recognise' (text.map Char.toUpper)).filterMap id =
      ((Text.scan recognise text).filterMap id).map capitalized := by
  rw [Text.scan_map h, List.filterMap_map, List.map_filterMap]
  rfl

theorem callsBy_map_toUpper {recognise recognise' : Recogniser (Option String)}
    (h : FollowsCase (Option.map capitalized) recognise recognise') (text : List Char) :
    callsBy recognise' (text.map Char.toUpper) = (callsBy recognise text).map capitalized := by
  rw [callsBy, names_map_toUpper h, Text.distinctNames_map_capitalized, callsBy]

theorem TableReferences.of_map_toUpper (text : List Char) :
    TableReferences.of (text.map Char.toUpper) = (TableReferences.of text).capitalized := by
  simp only [TableReferences.of, TableReferences.capitalized, tablesBy, List.map_append,
    ← Text.distinctNames_map_capitalized, names_map_toUpper followsCase_fromTable,
    names_map_toUpper followsCase_joinTable, names_map_toUpper followsCase_insertTable,
    names_map_toUpper followsCase_updateTable, names_map_toUpper followsCase_deleteTable,
    names_map_toUpper followsCase_mergeTable]

/-! ## Analyses in capitals -/

/-- An analysis with the names of tables and packages in capitals. -/
def Analysis.capitalized (a : Analysis) : Analysis where
  tables := a.tables.capitalized
  packageCalls := a.packageCalls.map Text.capitalized
  hasDynamicSql := a.hasDynamicSql

theorem tableReferences_capitalized (s : String) :
    tableReferences (capitalized s) = (tableReferences s).capitalized := by
  rw [tableReferences, searched_capitalized, TableReferences.of_map_toUpper, tableReferences]

theorem packageCalls_capitalized (s : String) :
    packageCalls (capitalized s) = (packageCalls s).map capitalized := by
  rw [packageCalls, tableReferences_capitalized, searched_capitalized,
    callsBy_map_toUpper (followsCase_packageCall _), packageCalls]

theorem procedureCalls_capitalized (s : String) :
    procedureCalls (capitalized s) = (procedureCalls s).map capitalized := by
  rw [procedureCalls, tableReferences_capitalized, searched_capitalized,
    callsBy_map_toUpper (followsCase_procedureCall _), procedureCalls]

theorem functionCalls_capitalized (s : String) :
    functionCalls (capitalized s) = (functionCalls s).map capitalized := by
  rw [functionCalls, searched_capitalized, callsBy_map_toUpper followsCase_functionCall,
    functionCalls]

theorem hasDynamicSql_capitalized (s : String) :
    hasDynamicSql (capitalized s) = hasDynamicSql s := by
  rw [hasDynamicSql, searched_capitalized, Text.scan_map followsCase_dynamicStatement, List.map_id,
    hasDynamicSql]

/-- **Letter case does not matter.** The analysis of a text in capitals is that of the text with its
names in capitals: the same tables in the same lists and order, the same packages, and dynamic SQL
in both or in neither. The same procedures and functions are called. -/
theorem analyze_and_calls_capitalized (s : String) :
    analyze (capitalized s) = (analyze s).capitalized ∧
      procedureCalls (capitalized s) = (procedureCalls s).map capitalized ∧
      functionCalls (capitalized s) = (functionCalls s).map capitalized := by
  refine ⟨?_, procedureCalls_capitalized s, functionCalls_capitalized s⟩
  rw [analyze, tableReferences_capitalized, packageCalls_capitalized, hasDynamicSql_capitalized,
    analyze, Analysis.capitalized]

end Lineage.Source
