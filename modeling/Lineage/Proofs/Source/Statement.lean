import Lineage.Proofs.Lists
import Lineage.Proofs.Source.Comment
import Lineage.Proofs.Text.Scan

/-!
# Statement by statement

A semicolon in plain code parts what is found in a text: the tables and the dynamic statements of
the whole are those of the text before it and of the text after it. Three things might reach across,
and none does. Removing comments leaves nothing to the rest of the text but the state and what is
held back, and a semicolon settles both. No lexeme has a semicolon in it, so a match that starts
before one also ends before it. And what a match asks of the text in front of it, whether a word may
start there and whether the word `FOR` stands there, is not asked beyond a semicolon.

The last two are what `StopsAt` says of a recogniser, and there is one lemma for each kind of lexeme
and of context on the way to it.

Calls of packages do not part in this way: the semicolon itself ends a call without arguments.
-/

namespace Lineage.Source

open Text (isBlank isWord StopsAt Recogniser)

variable {α : Type} {text rest before : List Char}

/-! ## Lexemes before a semicolon -/

theorem gap_append (text rest : List Char) : gap (text ++ ';' :: rest) = gap text := by
  rw [gap, takeWhile_append_cons_of_neg (by decide), gap]

theorem gap_le (text : List Char) : gap text ≤ text.length :=
  (List.takeWhile_sublist _).length_le

theorem startsWithKeyword_append {keyword : List Char} (hkeyword : ';' ∉ keyword)
    (text rest : List Char) :
    startsWithKeyword keyword (text ++ ';' :: rest) = startsWithKeyword keyword text := by
  induction keyword generalizing text with
  | nil => rfl
  | cons k keyword ih =>
    rw [List.mem_cons, not_or] at hkeyword
    cases text with
    | nil =>
      have hfold : foldLetter ';' = ';' := by decide
      simp only [List.nil_append, startsWithKeyword, hfold, beq_false_of_ne hkeyword.1,
        Bool.false_and]
    | cons c text => rw [List.cons_append, startsWithKeyword, ih hkeyword.2, startsWithKeyword]

theorem length_le_of_startsWithKeyword {keyword : List Char}
    (h : startsWithKeyword keyword text = true) : keyword.length ≤ text.length := by
  induction keyword generalizing text with
  | nil => exact Nat.zero_le _
  | cons k keyword ih =>
    cases text with
    | nil => cases h
    | cons c text =>
      rw [startsWithKeyword, Bool.and_eq_true] at h
      exact Nat.succ_le_succ (ih h.2)

/-- What is asked of the text after a keyword is answered before a semicolon, too. -/
theorem startsWithKeyword_and_append {keyword : List Char} {p : List Char → Bool}
    (hkeyword : ';' ∉ keyword) (hp : ∀ text rest, p (text ++ ';' :: rest) = p text)
    (text rest : List Char) :
    (startsWithKeyword keyword (text ++ ';' :: rest) &&
        p ((text ++ ';' :: rest).drop keyword.length)) =
      (startsWithKeyword keyword text && p (text.drop keyword.length)) := by
  rw [startsWithKeyword_append hkeyword]
  cases hstarts : startsWithKeyword keyword text with
  | false => rfl
  | true => rw [List.drop_append_of_le_length (length_le_of_startsWithKeyword hstarts), hp]

theorem name?_append (text rest : List Char) : name? (text ++ ';' :: rest) = name? text := by
  cases text with
  | nil => rfl
  | cons c text =>
    rw [List.cons_append, name?, takeWhile_append_cons_of_neg (by decide), name?]

theorem length_of_name? {name : List Char} (h : name? text = some name) :
    0 < name.length ∧ name.length ≤ text.length := by
  cases text with
  | nil => cases h
  | cons c text =>
    rw [name?] at h
    split at h
    · rw [← Option.some_inj.mp h]
      exact ⟨Nat.succ_pos _, Nat.succ_le_succ (List.takeWhile_sublist _).length_le⟩
    · cases h

theorem qualifiedName?_append (text rest : List Char) :
    qualifiedName? (text ++ ';' :: rest) = qualifiedName? text := by
  rw [qualifiedName?, name?_append, qualifiedName?]
  refine Option.map_congr fun first hfirst ↦ ?_
  rw [List.drop_append_of_le_length (length_of_name? hfirst).2]
  cases text.drop first.length with
  | nil => rfl
  | cons c tail =>
    by_cases hc : c = '.'
    · subst hc
      simp only [List.cons_append, name?_append]
    · rw [List.cons_append]
      split
      · rename_i heq
        exact absurd (List.cons_eq_cons.mp heq).1 hc
      · split
        · rename_i heq
          exact absurd (List.cons_eq_cons.mp heq).1 hc
        · rfl

theorem length_of_qualifiedName? {name : List Char} (h : qualifiedName? text = some name) :
    0 < name.length ∧ name.length ≤ text.length := by
  rw [qualifiedName?, Option.map_eq_some_iff] at h
  obtain ⟨first, hfirst, rfl⟩ := h
  obtain ⟨hpos, hle⟩ := length_of_name? hfirst
  split
  · rename_i tail htail
    split
    · rename_i second hsecond
      have htext : text.length = first.length + (tail.length + 1) := by
        rw [← List.length_cons, ← htail, List.length_drop]
        omega
      have hsecondLe := (length_of_name? hsecond).2
      rw [List.length_append, List.length_cons]
      omega
    · exact ⟨hpos, hle⟩
  · exact ⟨hpos, hle⟩

theorem length_le_of_phrase? {phrase : List (List Char)} {length : Nat}
    (h : phrase? phrase text = some length) : length ≤ text.length := by
  induction phrase generalizing text length with
  | nil =>
    rw [phrase?, Option.some_inj] at h
    exact h ▸ Nat.zero_le _
  | cons keyword phrase ih =>
    rw [phrase?] at h
    split at h
    · rename_i hkeyword
      dsimp only at h
      split at h
      · cases h
      · obtain ⟨n, hn, rfl⟩ := Option.map_eq_some_iff.mp h
        have hrest := ih hn
        have hgap := gap_le (text.drop keyword.length)
        have hlength := length_le_of_startsWithKeyword hkeyword
        simp only [List.length_drop] at hrest hgap
        omega
    · cases h

theorem phrase?_append {phrase : List (List Char)} (hphrase : ∀ keyword ∈ phrase, ';' ∉ keyword)
    (text rest : List Char) : phrase? phrase (text ++ ';' :: rest) = phrase? phrase text := by
  induction phrase generalizing text with
  | nil => rfl
  | cons keyword phrase ih =>
    rw [List.forall_mem_cons] at hphrase
    rw [phrase?, startsWithKeyword_append hphrase.1, phrase?]
    split
    · rename_i hkeyword
      have hlength := length_le_of_startsWithKeyword hkeyword
      simp only [List.drop_append_of_le_length hlength, gap_append,
        List.drop_append_of_le_length (gap_le _), ih hphrase.2]
    · rfl

/-! ## Contexts after a semicolon -/

theorem atWordStart_append (before rest : List Char) :
    atWordStart (before ++ ';' :: rest) = atWordStart before := by
  cases before with
  | nil => rfl
  | cons c before => rfl

theorem atWordEnd_append (text rest : List Char) :
    atWordEnd (text ++ ';' :: rest) = atWordEnd text := by
  cases text with
  | nil => rfl
  | cons c text => rfl

theorem previousWord_append (before rest : List Char) :
    previousWord (before ++ ';' :: rest) = previousWord before := by
  rw [previousWord, Text.trimStart, dropWhile_append_cons_of_neg (by decide),
    takeWhile_append_cons_of_neg (by decide), previousWord, Text.trimStart]

theorem notAfterFor_append (before rest : List Char) :
    notAfterFor (before ++ ';' :: rest) = notAfterFor before := by
  rw [notAfterFor, previousWord_append, notAfterFor]

/-! ## Recognisers -/

theorem stopsAt_tableAfter {accepts : List Char → Bool} {phrase : List (List Char)}
    (haccepts : ∀ before rest, accepts (before ++ ';' :: rest) = accepts before)
    (hphrase : ∀ keyword ∈ phrase, ';' ∉ keyword) : StopsAt (tableAfter accepts phrase) ';' where
  ahead before text rest := by
    rw [tableAfter, tableAfter, phrase?_append hphrase]
    cases hlength : phrase? phrase text with
    | none => rfl
    | some length =>
      simp only [Option.bind_eq_bind, Option.bind_some,
        List.drop_append_of_le_length (length_le_of_phrase? hlength), qualifiedName?_append]
  behind before rest text := by
    rw [tableAfter, tableAfter, atWordStart_append, haccepts]
  length_bounds {before text table length} h := by
    rw [tableAfter] at h
    split at h
    · rw [Option.bind_eq_bind, Option.bind_eq_some_iff] at h
      obtain ⟨taken, htaken, h⟩ := h
      rw [Option.bind_eq_bind, Option.bind_eq_some_iff] at h
      obtain ⟨name, hname, h⟩ := h
      obtain ⟨-, rfl⟩ := Prod.mk.inj (Option.some_inj.mp h)
      -- the name stands behind the phrase, and both inside the text
      have hle := length_le_of_phrase? htaken
      obtain ⟨hpos, hnameLe⟩ := length_of_qualifiedName? hname
      rw [List.length_drop] at hnameLe
      omega
    · cases h

theorem stopsAt_or {recognise recognise' : Recogniser α} {mark : Char}
    (h : StopsAt recognise mark) (h' : StopsAt recognise' mark) :
    StopsAt (fun before text ↦ (recognise before text).or (recognise' before text)) mark where
  ahead before text rest := by rw [h.ahead, h'.ahead]
  behind before rest text := by rw [h.behind, h'.behind]
  length_bounds hfound := by
    rcases Option.or_eq_some_iff.mp hfound with hfound | ⟨-, hfound⟩
    · exact h.length_bounds hfound
    · exact h'.length_bounds hfound

theorem stopsAt_anywhere {phrase : List (List Char)} (hphrase : ∀ keyword ∈ phrase, ';' ∉ keyword) :
    StopsAt (tableAfter anywhere phrase) ';' :=
  stopsAt_tableAfter (fun _ _ ↦ rfl) hphrase

theorem stopsAt_fromTable : StopsAt fromTable ';' := stopsAt_anywhere (by decide)

theorem stopsAt_joinTable : StopsAt joinTable ';' := stopsAt_anywhere (by decide)

theorem stopsAt_insertTable : StopsAt insertTable ';' := stopsAt_anywhere (by decide)

theorem stopsAt_mergeTable : StopsAt mergeTable ';' := stopsAt_anywhere (by decide)

theorem stopsAt_updateTable : StopsAt updateTable ';' :=
  stopsAt_tableAfter notAfterFor_append (by decide)

theorem stopsAt_deleteTable : StopsAt deleteTable ';' :=
  stopsAt_or (stopsAt_anywhere (by decide)) (stopsAt_anywhere (by decide))

theorem stopsAt_dynamicStatement : StopsAt dynamicStatement ';' where
  ahead before text rest := by
    -- the mark is not the full stop that is looked for behind `DBMS_SQL`
    have hdot : ∀ text rest : List Char,
        ((text ++ ';' :: rest).head? == some '.') = (text.head? == some '.') := by
      intro text rest
      cases text with
      | nil => rfl
      | cons c text => rfl
    have hmember := @startsWithKeyword_and_append "DBMS_SQL".toList (·.head? == some '.')
      (by decide) hdot
    have himmediate := @startsWithKeyword_and_append "IMMEDIATE".toList atWordEnd
      (by decide) atWordEnd_append
    rw [dynamicStatement, dynamicStatement, phrase?_append (by decide)]
    cases hlength : phrase? ["EXECUTE".toList] text with
    | none => simp only [hmember]
    | some length =>
      simp only [List.drop_append_of_le_length (length_le_of_phrase? hlength), himmediate]
  behind before rest text := by
    rw [dynamicStatement, dynamicStatement, atWordStart_append]
  length_bounds {before text found length} h := by
    rw [dynamicStatement] at h
    split at h
    · split at h
      · rename_i taken htaken
        dsimp only at h
        split at h
        · rename_i himmediate
          rw [Bool.and_eq_true] at himmediate
          obtain ⟨-, rfl⟩ := Prod.mk.inj (Option.some_inj.mp h)
          have htakenLe := length_le_of_phrase? htaken
          have hle := length_le_of_startsWithKeyword himmediate.1
          rw [List.length_drop] at hle
          have hpos : 0 < "IMMEDIATE".toList.length := by decide
          omega
        · cases h
      · dsimp only at h
        split at h
        · rename_i hmember
          rw [Bool.and_eq_true, beq_iff_eq] at hmember
          obtain ⟨-, rfl⟩ := Prod.mk.inj (Option.some_inj.mp h)
          -- a full stop stands behind the keyword, so the text goes on there
          obtain ⟨tail, htail⟩ := List.head?_eq_some_iff.mp hmember.2
          have hlength := congrArg List.length htail
          rw [List.length_drop, List.length_cons] at hlength
          omega
        · cases h
    · cases h

/-! ## Texts -/

theorem Mode.read_semicolon {mode : Mode} (hplain : mode.isPlain = true) :
    mode.after [';'] = .code ∧ mode.written [';'] = mode.finish ++ [';'] := by
  cases mode with
  | code | dash | slash | apostrophe => exact ⟨rfl, rfl⟩
  | literal | line | block | star => cases hplain

/-- Comments are removed statement by statement. -/
theorem withoutComments_semicolon {a : List Char} (hplain : (Mode.code.after a).isPlain = true)
    (b : List Char) :
    withoutComments (a ++ [';'] ++ b) = withoutComments a ++ ';' :: withoutComments b := by
  obtain ⟨hafter, hwritten⟩ := Mode.read_semicolon hplain
  simp only [withoutComments_eq_output]
  rw [Mode.output_append, Mode.written_append, Mode.after_append, hafter, hwritten]
  simp [Mode.output]

theorem searched_semicolon {a : String} (hplain : (Mode.code.after a.toList).isPlain = true)
    (b : String) : searched (a ++ ";" ++ b) = searched a ++ ';' :: searched b := by
  rw [searched, searched, searched, ← withoutComments_semicolon hplain]
  simp

/-! ## Analyses -/

theorem tablesBy_append {recognise : Recogniser (Option String)} (h : StopsAt recognise ';')
    (front back : List Char) :
    tablesBy recognise (front ++ ';' :: back) =
      tablesBy recognise front ++ tablesBy recognise back := by
  rw [tablesBy, h.scan_append, List.filterMap_append, tablesBy, tablesBy]

theorem distinctNames_append (names names' : List String) :
    Text.distinctNames (names ++ names') =
      Text.distinctNames (Text.distinctNames names ++ Text.distinctNames names') :=
  ((distinctBy_append_distinctBy Text.upcase _ names').trans
    (distinctBy_distinctBy_append Text.upcase names names')).symm

theorem distinctNames_tablesBy {recognise : Recogniser (Option String)}
    (h : StopsAt recognise ';') (front back : List Char) :
    Text.distinctNames (tablesBy recognise (front ++ ';' :: back)) =
      Text.distinctNames (Text.distinctNames (tablesBy recognise front) ++
        Text.distinctNames (tablesBy recognise back)) := by
  rw [tablesBy_append h, distinctNames_append]

theorem hasName_iff {names : List String} {name : String} :
    Text.hasName names name = true ↔ Text.upcase name ∈ names.map Text.upcase := by
  simp only [Text.hasName, List.any_eq_true, Text.sameName_iff, List.mem_map]

theorem hasName_distinctNames (names : List String) (name : String) :
    Text.hasName (Text.distinctNames names) name = Text.hasName names name := by
  rw [Bool.eq_iff_iff, hasName_iff, hasName_iff, Text.distinctNames, mem_map_distinctBy]

/-- Whether an analysis says what two others say together: it has the tables of the first and then
those of the second, each once. For the tables that are read it does so in some order. -/
structure Analysis.IsUnion (whole first second : Analysis) : Prop where
  hasName_reads : ∀ name, Text.hasName whole.tables.reads name =
    (Text.hasName first.tables.reads name || Text.hasName second.tables.reads name)
  inserts_eq :
    whole.tables.inserts = Text.distinctNames (first.tables.inserts ++ second.tables.inserts)
  updates_eq :
    whole.tables.updates = Text.distinctNames (first.tables.updates ++ second.tables.updates)
  deletes_eq :
    whole.tables.deletes = Text.distinctNames (first.tables.deletes ++ second.tables.deletes)
  merges_eq :
    whole.tables.merges = Text.distinctNames (first.tables.merges ++ second.tables.merges)
  hasDynamicSql_eq : whole.hasDynamicSql = (first.hasDynamicSql || second.hasDynamicSql)

theorem hasName_append (names names' : List String) (name : String) :
    Text.hasName (names ++ names') name =
      (Text.hasName names name || Text.hasName names' name) := List.any_append

theorem hasName_reads_append (front back : List Char) (name : String) :
    Text.hasName (TableReferences.of (front ++ ';' :: back)).reads name =
      (Text.hasName (TableReferences.of front).reads name ||
        Text.hasName (TableReferences.of back).reads name) := by
  have hreads : ∀ text, Text.hasName (TableReferences.of text).reads name =
      (Text.hasName (tablesBy fromTable text) name ||
        Text.hasName (tablesBy joinTable text) name) := by
    intro text
    rw [TableReferences.of, hasName_distinctNames, hasName_append]
  rw [hreads, hreads, hreads, tablesBy_append stopsAt_fromTable,
    tablesBy_append stopsAt_joinTable, hasName_append, hasName_append]
  ac_rfl

/-- **Statement by statement.** A semicolon in plain code parts what is found in a text: the
analysis of the whole is that of what comes before it and of what comes after it together. -/
theorem isUnion_analyze_semicolon {a : String}
    (hplain : (Mode.code.after a.toList).isPlain = true) (b : String) :
    (analyze (a ++ ";" ++ b)).IsUnion (analyze a) (analyze b) := by
  have hsearched := searched_semicolon hplain b
  -- the four lists of tables differ in what they recognise only
  have hparts : ∀ recognise : Recogniser (Option String), StopsAt recognise ';' →
      Text.distinctNames (tablesBy recognise (searched (a ++ ";" ++ b))) =
        Text.distinctNames (Text.distinctNames (tablesBy recognise (searched a)) ++
          Text.distinctNames (tablesBy recognise (searched b))) := by
    intro recognise h
    rw [hsearched, distinctNames_tablesBy h]
  constructor
  · intro name
    simp only [analyze, tableReferences]
    rw [hsearched, hasName_reads_append]
  · simp only [analyze, tableReferences, TableReferences.of]
    exact hparts insertTable stopsAt_insertTable
  · simp only [analyze, tableReferences, TableReferences.of]
    exact hparts updateTable stopsAt_updateTable
  · simp only [analyze, tableReferences, TableReferences.of]
    exact hparts deleteTable stopsAt_deleteTable
  · simp only [analyze, tableReferences, TableReferences.of]
    exact hparts mergeTable stopsAt_mergeTable
  · have hempty : ∀ found found' : List Unit,
        (!(found ++ found').isEmpty) = (!found.isEmpty || !found'.isEmpty) := by
      intro found found'
      cases found with
      | nil => rfl
      | cons _ found => rfl
    simp only [analyze, hasDynamicSql]
    rw [hsearched, stopsAt_dynamicStatement.scan_append, hempty]

/-- A table that is deleted from on both sides is listed once, and the rows that are locked before
the semicolon do not hide the update after it. -/
theorem updates_deletes_after_lock :
    (analyze ("DELETE FROM emp; SELECT n FROM emp FOR" ++ ";" ++
        "UPDATE dept; DELETE EMP")).tables.deletes = ["emp"] ∧
      (analyze ("DELETE FROM emp; SELECT n FROM emp FOR" ++ ";" ++
        "UPDATE dept; DELETE EMP")).tables.updates = ["dept"] := by
  have h := @isUnion_analyze_semicolon "DELETE FROM emp; SELECT n FROM emp FOR" (by decide)
    "UPDATE dept; DELETE EMP"
  exact ⟨h.deletes_eq.trans (by decide), h.updates_eq.trans (by decide)⟩

end Lineage.Source
