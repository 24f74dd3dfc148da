import Lineage.Source.Analysis
import Mathlib.Data.List.Infix

/-!
# Comments do not matter

What a text without its comments is, part by part. The automaton that removes comments leaves only
its state behind, so the output of a text is the output of its front followed by that of the rest,
read in the state after the front (`Mode.output_append`). A comment is then a text of its own: in
plain code, whatever its body is, it writes what was held back and the mark that stands for it, and
leaves plain code with nothing held back.

Everything that looks for references in a text looks at it without its comments. So two texts that
differ only in the bodies of comments cannot be told apart by any of it.

A dash in front of `--` is the exception for the output: there the comment starts one character
earlier. A slash in front of `/*` is none, as a slash starts a comment only together with a star.
-/

namespace Lineage.Source

variable {mode : Mode} {a b c : List Char}

/-! ## The output of a part -/

namespace Mode

/-- What a text adds to the output, short of what is held back at its end. -/
def written (mode : Mode) (text : List Char) : List Char := (mode.run [] text).2.reverse

/-- What a text adds to the output when the text ends there. -/
def output (mode : Mode) (text : List Char) : List Char :=
  mode.written text ++ (mode.after text).finish

@[simp] theorem written_nil : mode.written [] = [] := rfl

theorem written_cons (x : Char) :
    mode.written (x :: c) = (mode.step x).2 ++ (mode.step x).1.written c := by
  rw [written, run, run_eq_append, written]
  simp

theorem written_append : mode.written (a ++ b) = mode.written a ++ (mode.after a).written b := by
  rw [written, run_append, run_eq_append, List.reverse_append, after_eq_run mode [], written,
    written]

@[simp] theorem after_nil : mode.after [] = mode := rfl

theorem after_cons (x : Char) : mode.after (x :: c) = (mode.step x).1.after c := rfl

theorem after_append : mode.after (a ++ b) = (mode.after a).after b := by
  rw [after, List.foldl_append, after, after]

theorem output_append : mode.output (a ++ b) = mode.written a ++ (mode.after a).output b := by
  rw [output, written_append, after_append, List.append_assoc, output]

end Mode

theorem withoutComments_eq_output (text : List Char) :
    withoutComments text = Mode.code.output text := by
  rw [Mode.output, Mode.after_eq_run .code []]
  rfl

/-! ## Line comments -/

namespace Mode

theorem eq_dash_of_step {x : Char} (h : (mode.step x).1 = .dash) : x = '-' := by
  have hcode : (stepCode x).1 = .dash → x = '-' := by
    rw [stepCode]
    split_ifs with hquote hdash hslash
    · exact fun h ↦ by cases h
    · exact fun _ ↦ eq_of_beq hdash
    · exact fun h ↦ by cases h
    · exact fun h ↦ by cases h
  cases mode with
  | code => exact hcode h
  | dash | slash | apostrophe =>
    simp only [step] at h
    split at h
    · cases h
    · exact hcode h
  | literal | line | block | star =>
    simp only [step] at h
    split_ifs at h

theorem after_ne_dash (hdash : a.getLast? ≠ some '-') : Mode.code.after a ≠ .dash := by
  rcases List.eq_nil_or_concat a with rfl | ⟨front, x, rfl⟩
  · rw [after_nil]
    exact nofun
  · rw [List.concat_eq_append, List.getLast?_concat, Ne, Option.some_inj] at hdash
    rw [List.concat_eq_append, after_append]
    exact fun h ↦ hdash (eq_dash_of_step h)

/-- A held back dash is the only reason for `--` not to write what is held back. -/
theorem read_dashes (hplain : mode.isPlain = true) (hdash : mode ≠ .dash) :
    mode.after ['-', '-'] = .line ∧ mode.written ['-', '-'] = mode.finish := by
  cases mode with
  | dash => exact absurd rfl hdash
  | code | slash | apostrophe => exact ⟨rfl, rfl⟩
  | literal | line | block | star => cases hplain

theorem read_inLine (hc : '\n' ∉ c) : Mode.line.after c = .line ∧ Mode.line.written c = [] := by
  induction c with
  | nil => exact ⟨rfl, rfl⟩
  | cons x c ih =>
    rw [List.mem_cons, not_or] at hc
    have hstep : Mode.line.step x = (.line, []) := if_neg fun h ↦ hc.1 (eq_of_beq h).symm
    rw [after_cons, written_cons, hstep, List.nil_append]
    exact ih hc.2

theorem read_lineComment (hplain : mode.isPlain = true) (hdash : mode ≠ .dash) (hc : '\n' ∉ c) :
    mode.after (['-', '-'] ++ c ++ ['\n']) = .code ∧
      mode.written (['-', '-'] ++ c ++ ['\n']) = mode.finish ++ ['\n'] := by
  obtain ⟨hafter, hwritten⟩ := read_dashes hplain hdash
  obtain ⟨hline, hnone⟩ := read_inLine hc
  constructor
  · rw [after_append, after_append, hafter, hline]
    rfl
  · rw [written_append, written_append, after_append, hafter, hwritten, hline, hnone,
      List.append_nil]
    rfl

/-! ## Block comments -/

theorem read_slashStar (hplain : mode.isPlain = true) :
    mode.after ['/', '*'] = .block ∧ mode.written ['/', '*'] = mode.finish := by
  cases mode with
  | code | dash | slash | apostrophe => exact ⟨rfl, rfl⟩
  | literal | line | block | star => cases hplain

/-- A body without `*/` ends in the comment, and writes nothing. After a star the body must not
start with a slash either. -/
theorem read_inBlock (hc : ¬['*', '/'] <:+: c) :
    ((Mode.block.after c = .block ∨ Mode.block.after c = .star) ∧ Mode.block.written c = []) ∧
      (c.head? ≠ some '/' →
        (Mode.star.after c = .block ∨ Mode.star.after c = .star) ∧ Mode.star.written c = []) := by
  induction c with
  | nil => simp
  | cons x c ih =>
    obtain ⟨ihblock, ihstar⟩ := ih fun h ↦ hc (h.trans (List.suffix_cons x c).isInfix)
    by_cases hx : x = '*'
    · -- a star leads to the state after a star, from either state
      subst hx
      -- no slash stands behind the star, as the two would end the comment
      have hslash : c.head? ≠ some '/' := by
        intro h
        obtain ⟨rest, rfl⟩ := List.head?_eq_some_iff.mp h
        exact hc (List.prefix_append ['*', '/'] rest).isInfix
      rw [after_cons, written_cons, after_cons, written_cons]
      exact ⟨ihstar hslash, fun _ ↦ ihstar hslash⟩
    · have hblock : Mode.block.step x = (.block, []) := if_neg fun h ↦ hx (eq_of_beq h)
      rw [after_cons, written_cons, hblock, List.nil_append]
      refine ⟨ihblock, fun hslash ↦ ?_⟩
      rw [List.head?_cons, Ne, Option.some_inj] at hslash
      have hstar : Mode.star.step x = (.block, []) := by simp [step, hx, hslash]
      rw [after_cons, written_cons, hstar, List.nil_append]
      exact ihblock

theorem read_blockComment (hplain : mode.isPlain = true) (hc : ¬['*', '/'] <:+: c) :
    mode.after (['/', '*'] ++ c ++ ['*', '/']) = .code ∧
      mode.written (['/', '*'] ++ c ++ ['*', '/']) = mode.finish ++ [' '] := by
  obtain ⟨hafter, hwritten⟩ := read_slashStar hplain
  obtain ⟨⟨hbody, hnone⟩, -⟩ := read_inBlock hc
  -- the mark ends the comment whether or not the body ends with a star
  have hend : (Mode.block.after c).after ['*', '/'] = .code ∧
      (Mode.block.after c).written ['*', '/'] = [' '] := by
    rcases hbody with h | h
    · rw [h]
      exact ⟨rfl, rfl⟩
    · rw [h]
      exact ⟨rfl, rfl⟩
  constructor
  · rw [after_append, after_append, hafter, hend.1]
  · rw [written_append, written_append, after_append, hafter, hwritten, hnone, hend.2,
      List.append_nil]

end Mode

/-! ## Texts around a comment -/

theorem withoutComments_lineComment (hplain : (Mode.code.after a).isPlain = true)
    (hdash : a.getLast? ≠ some '-') (hc : '\n' ∉ c) :
    withoutComments (a ++ (['-', '-'] ++ c ++ ['\n']) ++ b) =
      withoutComments a ++ '\n' :: withoutComments b := by
  obtain ⟨hafter, hwritten⟩ := Mode.read_lineComment hplain (Mode.after_ne_dash hdash) hc
  simp only [withoutComments_eq_output]
  rw [Mode.output_append, Mode.written_append, Mode.after_append, hafter, hwritten]
  simp [Mode.output]

theorem withoutComments_blockComment (hplain : (Mode.code.after a).isPlain = true)
    (hc : ¬['*', '/'] <:+: c) :
    withoutComments (a ++ (['/', '*'] ++ c ++ ['*', '/']) ++ b) =
      withoutComments a ++ ' ' :: withoutComments b := by
  obtain ⟨hafter, hwritten⟩ := Mode.read_blockComment hplain hc
  simp only [withoutComments_eq_output]
  rw [Mode.output_append, Mode.written_append, Mode.after_append, hafter, hwritten]
  simp [Mode.output]

/-! ## Analyses -/

/-- Whether nothing that is looked for in source texts tells two of them apart. -/
structure SameAnalysis (s t : String) : Prop where
  analyze_eq : analyze s = analyze t
  procedureCalls_eq : procedureCalls s = procedureCalls t
  functionCalls_eq : functionCalls s = functionCalls t
  packageCalls_eq : packageCalls s = packageCalls t
  hasDynamicSql_eq : hasDynamicSql s = hasDynamicSql t

/-- Texts that are the same without their comments cannot be told apart. -/
theorem SameAnalysis.of_searched_eq {s t : String} (h : searched s = searched t) :
    SameAnalysis s t := by
  have htables : tableReferences s = tableReferences t := by
    rw [tableReferences, tableReferences, h]
  have hpackages : packageCalls s = packageCalls t := by
    rw [packageCalls, packageCalls, htables, h]
  have hdynamic : hasDynamicSql s = hasDynamicSql t := by
    rw [hasDynamicSql, hasDynamicSql, h]
  refine ⟨?_, ?_, ?_, hpackages, hdynamic⟩
  · rw [analyze, analyze, htables, hpackages, hdynamic]
  · rw [procedureCalls, procedureCalls, htables, h]
  · rw [functionCalls, functionCalls, h]

theorem searched_lineComment {a b c : String} (hplain : (Mode.code.after a.toList).isPlain = true)
    (hdash : a.toList.getLast? ≠ some '-') (hc : '\n' ∉ c.toList) :
    searched (a ++ "--" ++ c ++ "\n" ++ b) = searched a ++ '\n' :: searched b := by
  rw [searched, searched, searched, ← withoutComments_lineComment hplain hdash hc]
  simp

theorem searched_blockComment {a b c : String} (hplain : (Mode.code.after a.toList).isPlain = true)
    (hc : ¬"*/".toList <:+: c.toList) :
    searched (a ++ "/*" ++ c ++ "*/" ++ b) = searched a ++ ' ' :: searched b := by
  rw [searched, searched, searched, ← withoutComments_blockComment hplain hc]
  simp

/-- **Comments do not matter.** In plain code the body of a comment can be exchanged for any other,
and nothing that is looked for changes, whatever comes after the comment. -/
theorem sameAnalysis_of_comment {a b : String}
    (hplain : (Mode.code.after a.toList).isPlain = true) :
    (a.toList.getLast? ≠ some '-' →
      ∀ c c' : String, '\n' ∉ c.toList → '\n' ∉ c'.toList →
        SameAnalysis (a ++ "--" ++ c ++ "\n" ++ b) (a ++ "--" ++ c' ++ "\n" ++ b)) ∧
    (∀ c c' : String, ¬"*/".toList <:+: c.toList → ¬"*/".toList <:+: c'.toList →
      SameAnalysis (a ++ "/*" ++ c ++ "*/" ++ b) (a ++ "/*" ++ c' ++ "*/" ++ b)) := by
  constructor
  · intro hdash c c' hc hc'
    refine .of_searched_eq ?_
    rw [searched_lineComment hplain hdash hc, searched_lineComment hplain hdash hc']
  · intro c c' hc hc'
    refine .of_searched_eq ?_
    rw [searched_blockComment hplain hc, searched_blockComment hplain hc']

/-- A statement hidden in either kind of comment is not found, and a text after it is read as if the
comment were empty. -/
theorem sameAnalysis_of_comment_delete :
    SameAnalysis ("x := 'it''s' " ++ "--" ++ "DELETE FROM emp 'a /*" ++ "\n" ++ "FROM dept")
        ("x := 'it''s' " ++ "--" ++ "" ++ "\n" ++ "FROM dept") ∧
      SameAnalysis ("x := 'it''s' " ++ "/*" ++ "DELETE FROM emp 'a *" ++ "*/" ++ "FROM dept")
        ("x := 'it''s' " ++ "/*" ++ "" ++ "*/" ++ "FROM dept") := by
  have hplain : (Mode.code.after "x := 'it''s' ".toList).isPlain = true := by decide
  obtain ⟨hline, hblock⟩ := sameAnalysis_of_comment (b := "FROM dept") hplain
  refine ⟨hline (by decide) _ _ (by decide) (by decide), hblock _ _ (by decide) (by decide)⟩

end Lineage.Source
