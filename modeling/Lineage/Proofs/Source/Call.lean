import Lineage.Proofs.Source.Lexeme
import Lineage.Proofs.Source.Reference
import Lineage.Proofs.Source.Statement
import Lineage.Proofs.Text.Search

/-!
# Every call of a function is found

A call of a function is `:=` or an opening parenthesis, a name and another opening parenthesis, with
blanks between them. The search for calls goes on from the last of these characters, which may be
the first one of a further call. No other character of a call may be that: names and blanks hold
neither a colon nor a parenthesis. So no call reaches over the beginning of another one, and all of
them are found, however they are nested.

For the same reason none is missed among the calls of procedures, which are looked for without
regard to what comes before the name and without overlap. A call of a procedure that starts before
the name of a function ends at the latest at the parenthesis or equals sign in front of it, and none
starts in the blanks between them. So the name is found again, unless it is that of a table.
-/

namespace Lineage.Source

open Text (Match matchAt? Rounds TakesText)

variable {before text rest name call : List Char} {found : Option String} {length i : Nat}

/-! ## Calls of functions -/

/-- What may open a call of a function. -/
def callOpenings : List (List Char) := [":=".toList, "(".toList]

/-- Whether a character is one of what may open a call. -/
def IsCallMark (c : Char) : Prop := c = ':' ∨ c = '=' ∨ c = '('

/-- Whether some characters are a call of a function up to the parenthesis before its arguments. -/
def IsCallOf (name call : List Char) : Prop :=
  IsQualifiedName name ∧ ∃ opening ∈ callOpenings, ∃ blanks blanks',
    AllBlank blanks ∧ AllBlank blanks' ∧ call = opening ++ (blanks ++ (name ++ blanks'))

/-- Whether a function is called at a position of a text. -/
def CallsAt (text : List Char) (i : Nat) (name : String) : Prop :=
  ∃ call, IsCallOf name.toList call ∧ call ++ ['('] <+: text.drop i

theorem AllBlank.mark_not_mem {blanks : List Char} (h : AllBlank blanks) {mark : Char}
    (hmark : IsCallMark mark) : mark ∉ blanks := by
  rcases hmark with rfl | rfl | rfl <;> exact h.not_mem (by decide)

theorem IsQualifiedName.mark_not_mem (h : IsQualifiedName name) {mark : Char}
    (hmark : IsCallMark mark) : mark ∉ name := by
  rcases hmark with rfl | rfl | rfl <;> exact h.not_mem (by decide) (by decide) (by decide)

theorem callOpening?_eq_some_iff {n : Nat} :
    callOpening? text = some n ↔
      ∃ opening ∈ callOpenings, ∃ rest, text = opening ++ rest ∧ n = opening.length := by
  constructor
  · intro h
    rw [callOpening?.eq_def] at h
    split at h
    · rename_i rest
      exact ⟨_, List.mem_cons_self, rest, rfl, (Option.some_inj.mp h).symm⟩
    · rename_i rest
      exact ⟨_, List.mem_cons_of_mem _ List.mem_cons_self, rest, rfl, (Option.some_inj.mp h).symm⟩
    · cases h
  · rintro ⟨opening, hopening, rest, rfl, rfl⟩
    rcases List.mem_pair.mp hopening with rfl | rfl
    · rfl
    · rfl

/-- A call is recognised exactly where it stands, and the parenthesis behind it is not taken. -/
theorem functionCall_eq_some_iff :
    functionCall before text = some (found, length) ↔
      ∃ name call rest, IsCallOf name call ∧ text = call ++ '(' :: rest ∧
        found = (if isCallable (String.ofList name) then some (String.ofList name) else none) ∧
        length = call.length := by
  constructor
  · intro h
    rw [functionCall, Option.bind_eq_bind, Option.bind_eq_some_iff] at h
    obtain ⟨n, hn, h⟩ := h
    obtain ⟨opening, hopening, back, rfl, rfl⟩ := callOpening?_eq_some_iff.mp hn
    rw [List.drop_left] at h
    dsimp only at h
    rw [Option.bind_eq_bind, Option.bind_eq_some_iff] at h
    obtain ⟨⟨name, taken⟩, htaken, h⟩ := h
    obtain ⟨hname, blanks', rest, hblanks', hback, rfl⟩ := nameBeforeParen?_eq_some_iff.mp htaken
    obtain ⟨hfound, hlength⟩ := Prod.mk.inj (Option.some_inj.mp h)
    have hblanks : AllBlank (back.takeWhile Text.isBlank) := fun c hc ↦ List.mem_takeWhile_imp hc
    -- the blanks before the name are those that are skipped behind the opening
    refine ⟨name, opening ++ (back.takeWhile Text.isBlank ++ (name ++ blanks')), rest,
      ⟨hname, opening, hopening, _, _, hblanks, hblanks', rfl⟩, ?_, hfound.symm, ?_⟩
    · simp only [List.append_assoc]
      rw [← hback, drop_gap, List.takeWhile_append_dropWhile]
    · rw [← hlength, gap]
      simp only [List.length_append]
      omega
  · rintro ⟨name, _, rest, ⟨hname, opening, hopening, blanks, blanks', hblanks, hblanks', rfl⟩,
      rfl, rfl, rfl⟩
    obtain ⟨c, cs, rfl, hc⟩ := hname.exists_cons
    -- a name begins with no blank, so what is skipped ends right before it
    have hcBlank : Text.isBlank c = false := by
      rw [← Bool.not_eq_true]
      exact fun h ↦ absurd hc (by simp [isNameStart_of_isBlank h])
    have htext : opening ++ (blanks ++ (c :: cs ++ blanks')) ++ '(' :: rest =
        opening ++ (blanks ++ c :: (cs ++ (blanks' ++ '(' :: rest))) := by simp
    have hback := nameBeforeParen?_eq_some_iff.mpr
      ⟨hname, blanks', rest, hblanks', rfl, rfl⟩
    rw [htext, functionCall, callOpening?_eq_some_iff.mpr ⟨opening, hopening, _, rfl, rfl⟩]
    simp only [Option.bind_eq_bind, Option.bind_some, List.drop_left,
      gap_of_allBlank hblanks hcBlank]
    rw [← List.cons_append, hback]
    simp only [Option.bind_some, List.length_append]
    congr 2
    omega

theorem IsCallOf.not_mem_tail (h : IsCallOf name call) {mark : Char}
    (hmark : mark = ':' ∨ mark = '(') : mark ∉ call.tail := by
  obtain ⟨hname, opening, hopening, blanks, blanks', hblanks, hblanks', rfl⟩ := h
  have hcall : IsCallMark mark := hmark.imp_right Or.inr
  have hinside : mark ∉ blanks ++ (name ++ blanks') := by
    rw [List.mem_append, List.mem_append, not_or, not_or]
    exact ⟨hblanks.mark_not_mem hcall, hname.mark_not_mem hcall, hblanks'.mark_not_mem hcall⟩
  rcases List.mem_pair.mp hopening with rfl | rfl
  · have hequals : mark ≠ '=' := by rcases hmark with rfl | rfl <;> decide
    exact List.not_mem_cons_of_ne_of_not_mem hequals hinside
  · exact hinside

theorem IsCallOf.exists_cons (h : IsCallOf name call) :
    ∃ mark cs, call = mark :: cs ∧ (mark = ':' ∨ mark = '(') := by
  obtain ⟨-, opening, hopening, blanks, blanks', -, -, rfl⟩ := h
  rcases List.mem_pair.mp hopening with rfl | rfl
  · exact ⟨':', _, rfl, Or.inl rfl⟩
  · exact ⟨'(', _, rfl, Or.inr rfl⟩

theorem takesText_functionCall : TakesText functionCall := by
  intro before text found length h
  obtain ⟨name, call, rest, hcall, rfl, -, rfl⟩ := functionCall_eq_some_iff.mp h
  obtain ⟨mark, cs, rfl, -⟩ := hcall.exists_cons
  rw [List.length_append]
  exact ⟨Nat.succ_pos _, Nat.le_add_right _ _⟩

/-- No call reaches over the beginning of another one. -/
theorem stop_le_of_functionCall {m m' : Match (Option String)}
    (hm : matchAt? functionCall text i = some m) {j : Nat} (hj : j < i)
    (hm' : matchAt? functionCall text j = some m') : m'.stop ≤ i := by
  obtain ⟨name, call, rest, hcall, htext, -, -⟩ :=
    functionCall_eq_some_iff.mp (Text.recognise_of_matchAt? hm)
  obtain ⟨name', call', rest', hcall', htext', -, hlength'⟩ :=
    functionCall_eq_some_iff.mp (Text.recognise_of_matchAt? hm')
  obtain ⟨mark, cs, rfl, hmark⟩ := hcall.exists_cons
  obtain ⟨mark', cs', rfl, -⟩ := hcall'.exists_cons
  have hat : text[i]? = some mark := by
    rw [← List.head?_drop, htext, List.cons_append, List.head?_cons]
  have htail : text.drop (j + 1) = cs' ++ '(' :: rest' := by
    rw [← List.tail_drop, htext', List.cons_append, List.tail_cons]
  have hle := add_length_le_of_not_mem htail hat hj (hcall'.not_mem_tail hmark)
  rw [Match.stop, Text.start_of_matchAt? hm', hlength', List.length_cons]
  omega

theorem mem_rounds_functionCall_iff {rounds : List (Match (Option String))}
    (h : Rounds functionCall text 0 rounds) {m : Match (Option String)} :
    m ∈ rounds ↔ matchAt? functionCall text m.start = some m := by
  constructor
  · exact h.matchAt?_of_mem m
  · intro hm
    exact h.mem_of_matchAt? hm (Nat.zero_le _) fun j hj m' hm' ↦ stop_le_of_functionCall hm hj hm'

theorem callsAt_iff {name : String} :
    (isCallable name = true ∧ CallsAt text i name) ↔
      ∃ m, matchAt? functionCall text i = some m ∧ m.value = some name := by
  constructor
  · rintro ⟨hcallable, call, hcall, rest, hrest⟩
    have htext : text.drop i = call ++ '(' :: rest := by rw [← hrest, List.append_assoc]; rfl
    have hfound : functionCall (text.take i).reverse (text.drop i) =
        some (some name, call.length) := by
      refine functionCall_eq_some_iff.mpr ⟨name.toList, call, rest, hcall, htext, ?_, rfl⟩
      rw [String.ofList_toList, if_pos hcallable]
    exact ⟨⟨i, some name, call.length⟩, by rw [matchAt?, hfound]; rfl, rfl⟩
  · rintro ⟨m, hm, hvalue⟩
    obtain ⟨cs, call, rest, hcall, htext, hfound, -⟩ :=
      functionCall_eq_some_iff.mp (Text.recognise_of_matchAt? hm)
    rw [hvalue] at hfound
    split at hfound
    · rename_i hcallable
      obtain rfl := Option.some_inj.mp hfound
      refine ⟨hcallable, call, by rwa [String.toList_ofList], rest, ?_⟩
      rw [htext, List.append_assoc]
      rfl
    · cases hfound

/-- **Functions.** The search for calls of functions goes on from a later position of the text in
every round, so it comes to an end. It finds the names before which `:=` or an opening parenthesis
stands and behind which another one stands, in order of position and each once, save those that are
keywords or come with the database. -/
theorem functionCalls_are_all_calls (source : String) :
    (∀ pos m, Text.IsFirst functionCall (searched source) pos m →
      pos < m.stop ∧ m.stop ≤ (searched source).length) ∧
    (∃ rounds, Rounds functionCall (searched source) 0 rounds ∧
      (0 :: rounds.map Match.stop).Pairwise (· < ·) ∧
      functionCalls source = Text.distinctNames (rounds.filterMap Match.value)) ∧
    ∃ calls : List (Nat × String),
      (calls.map Prod.fst).Pairwise (· < ·) ∧
      (∀ i name, (i, name) ∈ calls ↔
        isCallable name = true ∧ CallsAt (searched source) i name) ∧
      functionCalls source = Text.distinctNames (calls.map Prod.snd) := by
  obtain ⟨rounds, hrounds, hscan⟩ := Text.exists_rounds takesText_functionCall (searched source)
  have hnames : functionCalls source = Text.distinctNames (rounds.filterMap Match.value) := by
    rw [functionCalls, callsBy, hscan, List.filterMap_map]
    rfl
  have hstart := hrounds.pairwise_start takesText_functionCall
  refine ⟨fun pos m hm ↦ takesText_functionCall.lt_stop_of_isFirst hm,
    ⟨rounds, hrounds, hrounds.pairwise_stops takesText_functionCall, hnames⟩,
    rounds.filterMap fun m ↦ m.value.map (m.start, ·), ?_, ?_, ?_⟩
  · -- the calls stand in the order of the rounds that find them
    refine List.pairwise_map.mpr (List.pairwise_filterMap.mpr (hstart.imp ?_))
    intro m m' hlt call hcall call' hcall'
    obtain ⟨-, -, rfl⟩ := Option.map_eq_some_iff.mp hcall
    obtain ⟨-, -, rfl⟩ := Option.map_eq_some_iff.mp hcall'
    exact hlt
  · -- a round finds a name exactly where it is called
    intro i name
    rw [callsAt_iff, List.mem_filterMap]
    constructor
    · rintro ⟨m, hm, hcall⟩
      obtain ⟨_, hvalue, heq⟩ := Option.map_eq_some_iff.mp hcall
      obtain ⟨rfl, rfl⟩ := Prod.mk.inj heq
      exact ⟨m, (mem_rounds_functionCall_iff hrounds).mp hm, hvalue⟩
    · rintro ⟨m, hm, hvalue⟩
      obtain rfl := Text.start_of_matchAt? hm
      exact ⟨m, (mem_rounds_functionCall_iff hrounds).mpr hm, by rw [hvalue]; rfl⟩
  · rw [hnames, List.map_filterMap]
    refine congrArg Text.distinctNames (List.filterMap_congr fun m _ ↦ ?_)
    rw [Option.map_map]
    exact (congrFun Option.map_id m.value).symm

/-! ## Calls of procedures -/

variable {tables : TableReferences}

/-- What is taken for a call of a procedure: the name if it is one. -/
def procedureOf? (tables : TableReferences) (before : List Char) (call : String) :
    Option String :=
  if before.head? != some '.' && isCallable call && !tables.contains call then some call else none

theorem procedureCall_eq_some_iff :
    procedureCall tables before text = some (found, length) ↔
      atWordStart before = true ∧ ∃ name, nameBeforeParen? text = some (name, length) ∧
        procedureOf? tables before (String.ofList name) = found := by
  rw [procedureCall]
  split
  · rename_i hstart
    rw [Option.map_eq_some_iff]
    constructor
    · rintro ⟨⟨name, taken⟩, hname, heq⟩
      obtain ⟨hfound, rfl⟩ := Prod.mk.inj heq
      exact ⟨hstart, name, hname, hfound⟩
    · rintro ⟨-, name, hname, hfound⟩
      exact ⟨(name, length), hname, Prod.ext hfound rfl⟩
  · rename_i hstart
    exact ⟨nofun, fun h ↦ absurd h.1 hstart⟩

theorem takesText_procedureCall (tables : TableReferences) : TakesText (procedureCall tables) := by
  intro before text found length h
  obtain ⟨-, name, hname, -⟩ := procedureCall_eq_some_iff.mp h
  obtain ⟨-, blanks, rest, -, rfl, rfl⟩ := nameBeforeParen?_eq_some_iff.mp hname
  simp only [List.length_append, List.length_cons]
  omega

theorem exists_isNameStart_of_procedureCall {m : Match (Option String)}
    (hm : matchAt? (procedureCall tables) text i = some m) :
    ∃ c, text[i]? = some c ∧ isNameStart c = true := by
  obtain ⟨-, name, hfound, -⟩ := procedureCall_eq_some_iff.mp (Text.recognise_of_matchAt? hm)
  obtain ⟨hname, blanks, rest, -, hdrop, -⟩ := nameBeforeParen?_eq_some_iff.mp hfound
  obtain ⟨c, cs, rfl, hc⟩ := hname.exists_cons
  refine ⟨c, ?_, hc⟩
  rw [← List.head?_drop, hdrop, List.cons_append, List.head?_cons]

theorem stop_le_of_mark {mark : Char} (hmark : IsCallMark mark) (hat : text[i]? = some mark)
    {m : Match (Option String)} {j : Nat} (hj : j ≤ i)
    (hm : matchAt? (procedureCall tables) text j = some m) : m.stop ≤ i + 1 := by
  obtain ⟨-, name, hfound, -⟩ := procedureCall_eq_some_iff.mp (Text.recognise_of_matchAt? hm)
  obtain ⟨hname, blanks, rest, hblanks, hdrop, hlength⟩ := nameBeforeParen?_eq_some_iff.mp hfound
  have hnot : mark ∉ name ++ blanks := by
    rw [List.mem_append, not_or]
    exact ⟨hname.mark_not_mem hmark, hblanks.mark_not_mem hmark⟩
  rw [← List.append_assoc] at hdrop
  have hstop := add_length_le_of_not_mem hdrop hat hj hnot
  rw [List.length_append] at hstop
  rw [Match.stop, Text.start_of_matchAt? hm, hlength]
  omega

/-- A call of a procedure that starts before an equals sign or an opening parenthesis, or in the
blanks behind it, does not reach over these blanks. -/
theorem stop_le_of_procedureCall {front blanks back : List Char} {mark : Char}
    (htext : text = front ++ mark :: (blanks ++ back)) (hmark : mark = '=' ∨ mark = '(')
    (hblanks : AllBlank blanks) {m : Match (Option String)} {j : Nat}
    (hj : j < front.length + 1 + blanks.length)
    (hm : matchAt? (procedureCall tables) text j = some m) :
    m.stop ≤ front.length + 1 + blanks.length := by
  rcases Nat.lt_or_ge front.length j with hlt | hle
  · -- no name starts with a blank
    obtain ⟨k, rfl⟩ := Nat.exists_eq_add_of_lt hlt
    obtain ⟨c, hc, hstart⟩ := exists_isNameStart_of_procedureCall hm
    have hk : k < blanks.length := by omega
    have hinside : text[front.length + k + 1]? = blanks[k]? := by
      rw [htext, Nat.add_assoc, List.getElem?_append_right (Nat.le_add_right _ _),
        Nat.add_sub_cancel_left, List.getElem?_cons_succ, List.getElem?_append_left hk]
    have hmem : c ∈ blanks := List.mem_of_getElem? (hinside.symm.trans hc)
    exact absurd hstart (by simp [isNameStart_of_isBlank (hblanks c hmem)])
  · have hat : text[front.length]? = some mark := by simp [htext]
    exact Nat.le_trans (stop_le_of_mark (Or.inr hmark) hat hle hm) (Nat.le_add_right _ _)

theorem exists_mark_of_callOpening {opening : List Char} (h : opening ∈ callOpenings) :
    ∃ front mark, opening = front ++ [mark] ∧ (mark = '=' ∨ mark = '(') := by
  rcases List.mem_pair.mp h with rfl | rfl
  · exact ⟨[':'], '=', rfl, Or.inl rfl⟩
  · exact ⟨[], '(', rfl, Or.inr rfl⟩

theorem atWordStart_of_mark (front : List Char) {blanks : List Char} {mark : Char}
    (hmark : mark = '=' ∨ mark = '(') (hblanks : AllBlank blanks) :
    atWordStart (front ++ mark :: blanks).reverse = true ∧
      (front ++ mark :: blanks).reverse.head? ≠ some '.' := by
  rcases List.eq_nil_or_concat blanks with rfl | ⟨init, b, rfl⟩
  · rw [List.reverse_append, List.reverse_singleton, List.singleton_append, atWordStart,
      List.head?_cons]
    rcases hmark with rfl | rfl
    · exact ⟨by decide, by decide⟩
    · exact ⟨by decide, by decide⟩
  · have hb : Text.isBlank b = true := hblanks b (by simp)
    have hhead : (front ++ mark :: init.concat b).reverse.head? = some b := by simp
    rw [atWordStart, hhead]
    exact ⟨by simp [isWord_of_isBlank hb],
      fun h ↦ ne_of_isBlank (by decide) hb (Option.some_inj.mp h)⟩

/-- The name in a call of a function is found among the calls of procedures, too, unless a table has
that name. -/
theorem mem_scan_procedureCall {m : Match (Option String)} {name : String}
    (hm : matchAt? functionCall text i = some m) (hvalue : m.value = some name)
    (htables : tables.contains name = false) :
    some name ∈ Text.scan (procedureCall tables) text := by
  obtain ⟨hcallable, call, ⟨hname, opening, hopening, blanks, blanks', hblanks, hblanks', rfl⟩,
    rest, hrest⟩ := callsAt_iff.mpr ⟨m, hm, hvalue⟩
  -- what opens the call ends with a mark, so a word starts behind it
  obtain ⟨short, mark, rfl, hmark⟩ := exists_mark_of_callOpening hopening
  have htext : text = (text.take i ++ short) ++ mark ::
      (blanks ++ (name.toList ++ (blanks' ++ '(' :: rest))) := by
    conv_lhs => rw [← List.take_append_drop i text, ← hrest]
    simp
  generalize text.take i ++ short = front at htext
  obtain ⟨hword, hdot⟩ := atWordStart_of_mark front hmark hblanks
  have hfound : procedureCall tables (front ++ mark :: blanks).reverse
      (name.toList ++ (blanks' ++ '(' :: rest)) =
        some (some name, name.toList.length + blanks'.length + 1) := by
    refine procedureCall_eq_some_iff.mpr ⟨hword, name.toList,
      nameBeforeParen?_eq_some_iff.mpr ⟨hname, blanks', rest, hblanks', rfl, rfl⟩, ?_⟩
    rw [String.ofList_toList, procedureOf?, hcallable, htables]
    exact if_pos (by simpa using hdot)
  have hat := Text.matchAt?_append (procedureCall tables) (front ++ mark :: blanks)
    (name.toList ++ (blanks' ++ '(' :: rest))
  have hsplit : front ++ mark :: blanks ++ (name.toList ++ (blanks' ++ '(' :: rest)) = text := by
    rw [htext]
    simp
  have hlength : (front ++ mark :: blanks).length = front.length + 1 + blanks.length := by
    simp only [List.length_append, List.length_cons]
    omega
  rw [hsplit, hfound, hlength, Option.map_some] at hat
  -- nothing that is found before the name reaches over its start
  exact Text.mem_scan_of_matchAt? (takesText_procedureCall tables) hat
    fun j hj m' hm' ↦ stop_le_of_procedureCall htext hmark hblanks hj hm'

theorem hasName_all (t : TableReferences) (name : String) :
    Text.hasName t.all name = t.contains name := by
  simp only [TableReferences.all, hasName_distinctNames, hasName_append, TableReferences.contains]

/-- **Functions are procedures or tables.** A name that is found as that of a function is also found
as that of a procedure, unless it is found as that of a table, up to upper case. -/
theorem functionCalls_are_procedures_or_tables (source : String) :
    ∀ name ∈ functionCalls source, Text.hasName (procedureCalls source) name = true ∨
      Text.hasName (analyze source).allTables name = true := by
  intro name hname
  obtain ⟨found, hfound, rfl⟩ := List.mem_filterMap.mp (mem_of_mem_distinctNames hname)
  obtain ⟨m, i, hm, hvalue⟩ := Text.exists_matchAt?_of_mem_scan takesText_functionCall hfound
  cases htables : (tableReferences source).contains name with
  | true => exact Or.inr ((hasName_all _ name).trans htables)
  | false =>
    have hmem := mem_scan_procedureCall hm hvalue htables
    rw [procedureCalls, callsBy, hasName_distinctNames, hasName_iff]
    exact Or.inl (List.mem_map_of_mem (List.mem_filterMap.mpr ⟨_, hmem, rfl⟩))

/-- A call within the arguments of a function that comes with the database, within those of a
function that has the name of a table. -/
def nestedCalls : String := "DELETE FROM emp; n := Emp(NVL( rate (1), 0))"

/-- The function that has the name of a table is accounted for, and so is the one within its
arguments. -/
theorem functionCalls_nestedCalls :
    ("Emp" ∈ functionCalls nestedCalls ∧
      (Text.hasName (procedureCalls nestedCalls) "Emp" = true ∨
        Text.hasName (analyze nestedCalls).allTables "Emp" = true)) ∧
    "rate" ∈ functionCalls nestedCalls ∧
      (Text.hasName (procedureCalls nestedCalls) "rate" = true ∨
        Text.hasName (analyze nestedCalls).allTables "rate" = true) := by
  have hcalls : functionCalls nestedCalls = ["Emp", "rate"] := by decide +kernel
  have htable : "Emp" ∈ functionCalls nestedCalls := by rw [hcalls]; decide
  have hprocedure : "rate" ∈ functionCalls nestedCalls := by rw [hcalls]; decide
  exact ⟨⟨htable, functionCalls_are_procedures_or_tables nestedCalls "Emp" htable⟩, hprocedure,
    functionCalls_are_procedures_or_tables nestedCalls "rate" hprocedure⟩

end Lineage.Source
