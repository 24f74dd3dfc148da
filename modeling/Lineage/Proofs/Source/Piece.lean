import Lineage.Proofs.Lists
import Lineage.Proofs.Source.Comment

/-!
# The pieces of a source text

Read from left to right, a source text falls into literals, comments and single characters, and it
does so in one way only. Here this is said without the automaton that removes comments: what a piece
is depends on its characters and on the text behind it, and a text is split by taking one piece
after the other.

The automaton is at the beginning of a piece whenever it holds nothing back, and of each piece it
writes what is kept of it (`Begins.output_append`). So a text without its comments is what is kept
of its pieces, in order: literals and single characters as they are, a blank for a block comment and
nothing for a line comment.

What is kept falls into pieces again, the same ones short of the comments (`Splits.kept`). No two
characters come together that were apart: behind a line comment there is the end of the line or of
the text, and a block comment leaves a blank. So nothing is left to be removed.
-/

namespace Lineage.Source

variable {text rest rest' body body' close close' : List Char} {pieces pieces' : List Piece}

/-! ## Pieces -/

/-- A piece of a source text, with all its characters. -/
inductive Piece where
  | literal (chars : List Char)
  | lineComment (chars : List Char)
  | blockComment (chars : List Char)
  | single (c : Char)

namespace Piece

/-- The characters of a piece. -/
def chars : Piece → List Char
  | literal chars => chars
  | lineComment chars => chars
  | blockComment chars => chars
  | single c => [c]

/-- What is kept of a piece when comments are removed. -/
def kept : Piece → List Char
  | literal chars => chars
  | lineComment _ => []
  | blockComment _ => [' ']
  | single c => [c]

/-- The pieces that make up what is kept of a piece. -/
def remaining : Piece → List Piece
  | literal chars => [literal chars]
  | lineComment _ => []
  | blockComment _ => [single ' ']
  | single c => [single c]

theorem flatMap_kept_remaining (p : Piece) : p.remaining.flatMap kept = p.kept := by
  cases p <;> simp [remaining, kept]

end Piece

/-- Whether a literal may go on with these characters: apostrophes only in pairs. -/
inductive InLiteral : List Char → Prop
  | nil : InLiteral []
  | pair {body : List Char} : InLiteral body → InLiteral ('\'' :: '\'' :: body)
  | other {c : Char} {body : List Char} (hc : c ≠ '\'') : InLiteral body → InLiteral (c :: body)

/-- Whether a literal ends with `close` in front of `rest`: with an apostrophe that is not doubled,
or with the text. -/
def EndsLiteral (close rest : List Char) : Prop :=
  close = ['\''] ∧ rest.head? ≠ some '\'' ∨ close = [] ∧ rest = []

/-- Whether a block comment ends with `close` in front of `rest`: with its mark, or with the
text. -/
def EndsBlock (close rest : List Char) : Prop := close = ['*', '/'] ∨ close = [] ∧ rest = []

/-- Whether a line comment ends in front of `rest`: at the end of the line, which is not part of the
comment, or of the text. -/
def EndsLine (rest : List Char) : Prop := rest = [] ∨ rest.head? = some '\n'

/-- Whether a text that goes on with `rest` behind a piece begins with that piece. -/
inductive Begins : Piece → List Char → Prop
  /-- From an apostrophe to the next one that is not doubled. -/
  | literal {body close rest : List Char} (hbody : InLiteral body)
      (hclose : EndsLiteral close rest) : Begins (.literal ('\'' :: (body ++ close))) rest
  /-- From two dashes to the end of the line. -/
  | lineComment {body rest : List Char} (hbody : '\n' ∉ body) (hrest : EndsLine rest) :
      Begins (.lineComment ('-' :: '-' :: body)) rest
  /-- From a slash and a star to the first star and slash behind these two characters. -/
  | blockComment {body close rest : List Char} (hbody : ¬['*', '/'] <:+: body)
      (hclose : EndsBlock close rest) : Begins (.blockComment ('/' :: '*' :: (body ++ close))) rest
  /-- A character that begins none of these. -/
  | single {c : Char} {rest : List Char} (hquote : c ≠ '\'')
      (hdash : c = '-' → rest.head? ≠ some '-') (hslash : c = '/' → rest.head? ≠ some '*') :
      Begins (.single c) rest

/-- Whether a text is split into pieces from left to right. -/
inductive Splits : List Char → List Piece → Prop
  | nil : Splits [] []
  | cons {p : Piece} {rest : List Char} {pieces : List Piece} (hp : Begins p rest)
      (hrest : Splits rest pieces) : Splits (p.chars ++ rest) (p :: pieces)

/-! ## Every text is split -/

theorem exists_inLiteral (text : List Char) :
    ∃ body close rest,
      InLiteral body ∧ EndsLiteral close rest ∧ text = body ++ (close ++ rest) := by
  induction text using List.twoStepInduction with
  | nil => exact ⟨[], [], [], .nil, Or.inr ⟨rfl, rfl⟩, rfl⟩
  | singleton c =>
    by_cases hc : c = '\''
    · subst hc
      exact ⟨[], ['\''], [], .nil, Or.inl ⟨rfl, nofun⟩, rfl⟩
    · exact ⟨[c], [], [], .other hc .nil, Or.inr ⟨rfl, rfl⟩, rfl⟩
  | cons_cons c d text ih ih' =>
    by_cases hc : c = '\''
    · subst hc
      by_cases hd : d = '\''
      · -- two apostrophes belong to the literal
        subst hd
        obtain ⟨body, close, rest, hbody, hclose, rfl⟩ := ih
        exact ⟨_, close, rest, .pair hbody, hclose, rfl⟩
      · refine ⟨[], ['\''], d :: text, .nil, Or.inl ⟨rfl, fun h ↦ hd ?_⟩, rfl⟩
        rwa [List.head?_cons, Option.some_inj] at h
    · obtain ⟨body, close, rest, hbody, hclose, heq⟩ := ih' d
      exact ⟨c :: body, close, rest, .other hc hbody, hclose, by rw [heq, List.cons_append]⟩

theorem exists_inBlock (text : List Char) :
    ∃ body close rest, ¬['*', '/'] <:+: body ∧ EndsBlock close rest ∧
      text = body ++ (close ++ rest) := by
  induction text with
  | nil => exact ⟨[], [], [], by simp, Or.inr ⟨rfl, rfl⟩, rfl⟩
  | cons c text ih =>
    by_cases hmark : ['*', '/'] <+: c :: text
    · obtain ⟨rest, heq⟩ := hmark
      exact ⟨[], ['*', '/'], rest, by simp, Or.inl rfl, heq.symm⟩
    · obtain ⟨body, close, rest, hbody, hclose, rfl⟩ := ih
      refine ⟨c :: body, close, rest, fun h ↦ ?_, hclose, rfl⟩
      rcases List.infix_cons_iff.mp h with h | h
      · exact hmark (h.trans (List.prefix_append (c :: body) (close ++ rest)))
      · exact hbody h

theorem exists_inLine (text : List Char) :
    ∃ body rest, '\n' ∉ body ∧ EndsLine rest ∧ text = body ++ rest := by
  by_cases h : '\n' ∈ text
  · obtain ⟨body, rest, heq, hbody⟩ := List.eq_append_cons_of_mem h
    exact ⟨body, '\n' :: rest, hbody, Or.inr rfl, heq⟩
  · exact ⟨text, [], h, Or.inl rfl, (List.append_nil text).symm⟩

theorem exists_begins (c : Char) (text : List Char) :
    ∃ p rest, Begins p rest ∧ c :: text = p.chars ++ rest := by
  by_cases hquote : c = '\''
  · subst hquote
    obtain ⟨body, close, rest, hbody, hclose, rfl⟩ := exists_inLiteral text
    exact ⟨_, rest, .literal hbody hclose, by simp [Piece.chars]⟩
  by_cases hdash : c = '-' ∧ text.head? = some '-'
  · obtain ⟨rfl, hhead⟩ := hdash
    obtain ⟨text, rfl⟩ := List.head?_eq_some_iff.mp hhead
    obtain ⟨body, rest, hbody, hrest, rfl⟩ := exists_inLine text
    exact ⟨_, rest, .lineComment hbody hrest, rfl⟩
  by_cases hslash : c = '/' ∧ text.head? = some '*'
  · obtain ⟨rfl, hhead⟩ := hslash
    obtain ⟨text, rfl⟩ := List.head?_eq_some_iff.mp hhead
    obtain ⟨body, close, rest, hbody, hclose, rfl⟩ := exists_inBlock text
    exact ⟨_, rest, .blockComment hbody hclose, by simp [Piece.chars]⟩
  · exact ⟨.single c, text, .single hquote (not_and.mp hdash) (not_and.mp hslash), rfl⟩

theorem Begins.length_pos {p : Piece} (h : Begins p rest) : 0 < p.chars.length := by
  cases h <;> exact Nat.succ_pos _

theorem exists_splits (text : List Char) : ∃ pieces, Splits text pieces := by
  induction hn : text.length using Nat.strong_induction_on generalizing text with
  | _ n ih =>
    cases text with
    | nil => exact ⟨[], .nil⟩
    | cons c text =>
      obtain ⟨p, rest, hp, heq⟩ := exists_begins c text
      have hshorter : rest.length < n := by
        rw [← hn, heq, List.length_append]
        exact Nat.lt_add_of_pos_left hp.length_pos
      obtain ⟨pieces, hpieces⟩ := ih rest.length hshorter rest rfl
      exact ⟨p :: pieces, heq ▸ .cons hp hpieces⟩

theorem Splits.flatMap_chars (h : Splits text pieces) : pieces.flatMap Piece.chars = text := by
  induction h with
  | nil => rfl
  | cons _ _ ih => rw [List.flatMap_cons, ih]

/-! ## No text is split in two ways -/

theorem EndsLiteral.append_ne (h : EndsLiteral close rest) (back : List Char) :
    close ++ rest ≠ '\'' :: '\'' :: back ∧ ∀ c : Char, c ≠ '\'' → close ++ rest ≠ c :: back := by
  rcases h with ⟨rfl, hrest⟩ | ⟨rfl, rfl⟩
  · constructor
    · intro heq
      have hback : rest = '\'' :: back := (List.cons_eq_cons.mp heq).2
      exact hrest (congrArg List.head? hback)
    · exact fun c hc heq ↦ hc (List.cons_eq_cons.mp heq).1.symm
  · exact ⟨nofun, fun _ _ ↦ nofun⟩

theorem InLiteral.append_inj (h : InLiteral body) (h' : InLiteral body')
    (hclose : EndsLiteral close rest) (hclose' : EndsLiteral close' rest')
    (heq : body ++ (close ++ rest) = body' ++ (close' ++ rest')) :
    body = body' ∧ close = close' ∧ rest = rest' := by
  -- what ends a literal is neither two quotes nor another character, so both bodies go on alike
  induction h generalizing body' with
  | nil =>
    cases h' with
    | nil =>
      rcases hclose with ⟨rfl, -⟩ | ⟨rfl, rfl⟩ <;> rcases hclose' with ⟨rfl, -⟩ | ⟨rfl, rfl⟩
      · exact ⟨rfl, rfl, (List.cons_eq_cons.mp heq).2⟩
      · cases heq
      · cases heq
      · exact ⟨rfl, rfl, rfl⟩
    | pair _ => exact absurd heq (hclose.append_ne _).1
    | other hc _ => exact absurd heq ((hclose.append_ne _).2 _ hc)
  | pair _ ih =>
    cases h' with
    | nil => exact absurd heq.symm (hclose'.append_ne _).1
    | pair h' =>
      rw [List.cons_append, List.cons_append, List.cons_append, List.cons_append,
        List.cons_inj_right, List.cons_inj_right] at heq
      obtain ⟨rfl, hsame⟩ := ih h' heq
      exact ⟨rfl, hsame⟩
    | other hc _ => exact absurd (List.cons_eq_cons.mp heq).1.symm hc
  | other hc _ ih =>
    cases h' with
    | nil => exact absurd heq.symm ((hclose'.append_ne _).2 _ hc)
    | pair _ => exact absurd (List.cons_eq_cons.mp heq).1 hc
    | other _ h' =>
      rw [List.cons_append, List.cons_append, List.cons_eq_cons] at heq
      obtain ⟨rfl, heq⟩ := heq
      obtain ⟨rfl, hsame⟩ := ih h' heq
      exact ⟨rfl, hsame⟩

theorem prefix_of_endsBlock (h' : ¬['*', '/'] <:+: body') (hclose : EndsBlock close rest)
    (hclose' : EndsBlock close' rest')
    (heq : body ++ (close ++ rest) = body' ++ (close' ++ rest')) : body' <+: body := by
  rcases List.append_eq_append_iff.mp heq with ⟨more, rfl, hmore⟩ | ⟨more, rfl, -⟩
  · rcases hclose with rfl | ⟨rfl, rfl⟩
    · match more, hmore with
      | [], _ => simp
      | [c], hmore => rcases hclose' with rfl | ⟨rfl, rfl⟩ <;> simp at hmore
      | c :: d :: more, hmore =>
        simp only [List.cons_append, List.cons.injEq] at hmore
        obtain ⟨rfl, rfl, -⟩ := hmore
        exact absurd ⟨body, more, by simp⟩ h'
    · have hnil : more = [] := (List.append_eq_nil_iff.mp hmore.symm).1
      simp [hnil]
  · exact List.prefix_append _ _

theorem inBlock_append_inj (h : ¬['*', '/'] <:+: body) (h' : ¬['*', '/'] <:+: body')
    (hclose : EndsBlock close rest) (hclose' : EndsBlock close' rest')
    (heq : body ++ (close ++ rest) = body' ++ (close' ++ rest')) :
    body = body' ∧ close = close' ∧ rest = rest' := by
  have hle := prefix_of_endsBlock h hclose' hclose heq.symm
  have hge := prefix_of_endsBlock h' hclose hclose' heq
  have hbody : body = body' := hle.eq_of_length_le hge.length_le
  subst hbody
  rw [List.append_cancel_left_eq] at heq
  rcases hclose with rfl | ⟨rfl, rfl⟩ <;> rcases hclose' with rfl | ⟨rfl, rfl⟩
  · exact ⟨rfl, rfl, List.append_cancel_left heq⟩
  · cases heq
  · cases heq
  · exact ⟨rfl, rfl, rfl⟩

theorem inLine_append_inj (h : '\n' ∉ body) (h' : '\n' ∉ body') (hrest : EndsLine rest)
    (hrest' : EndsLine rest') (heq : body ++ rest = body' ++ rest') :
    body = body' ∧ rest = rest' := by
  have htake : ∀ {body rest : List Char}, '\n' ∉ body → EndsLine rest →
      (body ++ rest).takeWhile (· != '\n') = body := by
    rintro body rest h (rfl | hrest)
    · rw [List.append_nil, List.takeWhile_eq_self_iff]
      exact bne_of_not_mem h
    · obtain ⟨rest, rfl⟩ := List.head?_eq_some_iff.mp hrest
      exact takeWhile_bne_append h rest
  have hbody : body = body' := by rw [← htake h hrest, heq, htake h' hrest']
  subst hbody
  exact ⟨rfl, List.append_cancel_left heq⟩

theorem Begins.append_inj {p p' : Piece} (h : Begins p rest) (h' : Begins p' rest')
    (heq : p.chars ++ rest = p'.chars ++ rest') : p = p' ∧ rest = rest' := by
  -- pieces of two kinds begin with other characters, or a single one with a mark
  cases h with
  | literal hbody hclose =>
    cases h' with
    | literal hbody' hclose' =>
      obtain ⟨rfl, rfl, rfl⟩ := hbody.append_inj hbody' hclose hclose'
        (by simpa [Piece.chars] using heq)
      exact ⟨rfl, rfl⟩
    | lineComment | blockComment => simp [Piece.chars] at heq
    | single hquote => exact absurd (List.cons_eq_cons.mp heq).1.symm hquote
  | lineComment hbody hrest =>
    cases h' with
    | lineComment hbody' hrest' =>
      obtain ⟨rfl, rfl⟩ := inLine_append_inj hbody hbody' hrest hrest'
        (by simpa [Piece.chars] using heq)
      exact ⟨rfl, rfl⟩
    | literal | blockComment => simp [Piece.chars] at heq
    | single _ hdash =>
      obtain ⟨rfl, rfl⟩ := List.cons_eq_cons.mp heq
      exact absurd rfl (hdash rfl)
  | blockComment hbody hclose =>
    cases h' with
    | blockComment hbody' hclose' =>
      obtain ⟨rfl, rfl, rfl⟩ := inBlock_append_inj hbody hbody' hclose hclose'
        (by simpa [Piece.chars] using heq)
      exact ⟨rfl, rfl⟩
    | literal | lineComment => simp [Piece.chars] at heq
    | single _ _ hslash =>
      obtain ⟨rfl, rfl⟩ := List.cons_eq_cons.mp heq
      exact absurd rfl (hslash rfl)
  | single hquote hdash hslash =>
    cases h' with
    | literal => exact absurd (List.cons_eq_cons.mp heq).1 hquote
    | lineComment =>
      obtain ⟨rfl, rfl⟩ := List.cons_eq_cons.mp heq
      exact absurd rfl (hdash rfl)
    | blockComment =>
      obtain ⟨rfl, rfl⟩ := List.cons_eq_cons.mp heq
      exact absurd rfl (hslash rfl)
    | single =>
      obtain ⟨rfl, rfl⟩ := List.cons_eq_cons.mp heq
      exact ⟨rfl, rfl⟩

theorem Splits.unique (h : Splits text pieces) (h' : Splits text pieces') : pieces = pieces' := by
  induction h generalizing pieces' with
  | nil =>
    generalize hnil : ([] : List Char) = text at h'
    cases h' with
    | nil => rfl
    | cons hp _ =>
      exact absurd (List.append_eq_nil_iff.mp hnil.symm).1
        (List.ne_nil_of_length_pos hp.length_pos)
  | @cons p rest pieces hp _ ih =>
    generalize heq : p.chars ++ rest = text at h'
    cases h' with
    | nil =>
      exact absurd (List.append_eq_nil_iff.mp heq).1 (List.ne_nil_of_length_pos hp.length_pos)
    | cons hp' hrest' =>
      obtain ⟨rfl, rfl⟩ := hp.append_inj hp' heq
      rw [ih hrest']

/-! ## What is kept of a text -/

namespace Mode

variable {mode : Mode}

theorem output_cons (c : Char) :
    mode.output (c :: rest) = (mode.step c).2 ++ (mode.step c).1.output rest := by
  rw [output, written_cons, after_cons, List.append_assoc, output]

/-- The character that makes a comment or a pair of what has just been read. -/
def awaited : Mode → Option Char
  | .dash => some '-'
  | .slash => some '*'
  | .apostrophe => some '\''
  | _ => none

theorem step_of_awaited_ne (hplain : mode.isPlain = true) {c : Char}
    (hc : mode.awaited ≠ some c) :
    mode.step c = ((stepCode c).1, mode.finish ++ (stepCode c).2) := by
  cases mode with
  | code => rfl
  | dash | slash | apostrophe =>
    have hne : c ≠ _ := fun h ↦ hc (congrArg some h.symm)
    exact if_neg (mt eq_of_beq hne)
  | literal | line | block | star => cases hplain

theorem output_of_awaited_ne (hplain : mode.isPlain = true)
    (hrest : ∀ c, mode.awaited = some c → rest.head? ≠ some c) :
    mode.output rest = mode.finish ++ Mode.code.output rest := by
  cases rest with
  | nil => exact (List.append_nil _).symm
  | cons c rest =>
    have hc : mode.awaited ≠ some c := fun h ↦ hrest c h rfl
    rw [output_cons, step_of_awaited_ne hplain hc, output_cons, List.append_assoc]
    rfl

/-- A dash or a slash is held back, and nothing behind a single character settles it as part of a
mark. -/
theorem step_code_single {c : Char} (hquote : c ≠ '\'') (hdash : c = '-' → rest.head? ≠ some '-')
    (hslash : c = '/' → rest.head? ≠ some '*') :
    (code.step c).1.isPlain = true ∧ (code.step c).2 ++ (code.step c).1.finish = [c] ∧
      ∀ d, (code.step c).1.awaited = some d → rest.head? ≠ some d := by
  by_cases hc : c = '-'
  · subst hc
    exact ⟨rfl, rfl, fun d hd ↦ Option.some_inj.mp hd ▸ hdash rfl⟩
  by_cases hc' : c = '/'
  · subst hc'
    exact ⟨rfl, rfl, fun d hd ↦ Option.some_inj.mp hd ▸ hslash rfl⟩
  · have hstep : code.step c = (.code, [c]) := by simp [step, stepCode, hquote, hc, hc']
    have hnone : code.awaited = none := rfl
    rw [hstep]
    exact ⟨rfl, rfl, fun d hd ↦ absurd (hnone.symm.trans hd) (Option.some_ne_none d).symm⟩

theorem read_inLiteral (h : InLiteral body) :
    Mode.literal.after body = .literal ∧ Mode.literal.written body = body := by
  induction h with
  | nil => exact ⟨rfl, rfl⟩
  | pair _ ih =>
    rw [after_cons, after_cons, written_cons, written_cons]
    exact ⟨ih.1, congrArg (['\''] ++ ['\''] ++ ·) ih.2⟩
  | @other c body hc _ ih =>
    have hstep : Mode.literal.step c = (.literal, [c]) := if_neg (mt eq_of_beq hc)
    rw [after_cons, written_cons, hstep]
    exact ⟨ih.1, congrArg (c :: ·) ih.2⟩

theorem output_literal (hclose : EndsLiteral close rest) :
    Mode.literal.output (close ++ rest) = close ++ Mode.code.output rest := by
  rcases hclose with ⟨rfl, hrest⟩ | ⟨rfl, rfl⟩
  · rw [List.singleton_append, output_cons]
    have hplain : Mode.apostrophe.isPlain = true := rfl
    refine congrArg ('\'' :: ·) (output_of_awaited_ne hplain fun c hc ↦ ?_)
    rwa [← hc]
  · rfl

theorem output_line (hrest : EndsLine rest) : Mode.line.output rest = Mode.code.output rest := by
  rcases hrest with rfl | hrest
  · rfl
  · obtain ⟨rest, rfl⟩ := List.head?_eq_some_iff.mp hrest
    rfl

theorem output_openBlock (hbody : ¬['*', '/'] <:+: body) :
    Mode.code.output ('/' :: '*' :: body) = [' '] := by
  have hmark : '/' :: '*' :: body = ['/', '*'] ++ body := rfl
  obtain ⟨hafter, hwritten⟩ := read_slashStar (rfl : Mode.code.isPlain = true)
  obtain ⟨⟨hend, hnone⟩, -⟩ := read_inBlock hbody
  have hopen : Mode.block.output body = [' '] := by
    rw [output, hnone]
    rcases hend with hend | hend
    · rw [hend]
      rfl
    · rw [hend]
      rfl
  rw [hmark, output_append, hwritten, hafter, hopen]
  rfl

end Mode

/-- At the beginning of a piece the automaton writes what is kept of it. -/
theorem Begins.output_append {p : Piece} (h : Begins p rest) :
    Mode.code.output (p.chars ++ rest) = p.kept ++ Mode.code.output rest := by
  cases h with
  | @literal body close rest hbody hclose =>
    obtain ⟨hafter, hwritten⟩ := Mode.read_inLiteral hbody
    have hread : Mode.literal.output (body ++ (close ++ rest)) =
        body ++ (close ++ Mode.code.output rest) := by
      rw [Mode.output_append, hafter, hwritten, Mode.output_literal hclose]
    rw [Piece.chars, Piece.kept, List.cons_append, List.append_assoc, Mode.output_cons,
      List.cons_append, List.append_assoc, ← hread]
    rfl
  | @lineComment body rest hbody hrest =>
    obtain ⟨hafter, hwritten⟩ := Mode.read_dashes (rfl : Mode.code.isPlain = true) nofun
    obtain ⟨hline, hnone⟩ := Mode.read_inLine hbody
    have hmark : '-' :: '-' :: body = ['-', '-'] ++ body := rfl
    rw [Piece.chars, hmark, List.append_assoc, Mode.output_append, hwritten, hafter,
      Mode.output_append, hline, hnone, Mode.output_line hrest]
    rfl
  | @blockComment body close rest hbody hclose =>
    rcases hclose with rfl | ⟨rfl, rfl⟩
    · obtain ⟨hafter, hwritten⟩ := Mode.read_blockComment (rfl : Mode.code.isPlain = true) hbody
      have hmark : '/' :: '*' :: (body ++ ['*', '/']) = ['/', '*'] ++ body ++ ['*', '/'] := rfl
      rw [Piece.chars, hmark, Mode.output_append, hwritten, hafter]
      rfl
    · -- a block that is not closed has the rest of the text
      rw [Piece.chars, List.append_nil, List.append_nil, Mode.output_openBlock hbody]
      rfl
  | @single c rest hquote hdash hslash =>
    obtain ⟨hplain, hwritten, hawaited⟩ := Mode.step_code_single hquote hdash hslash
    rw [Piece.chars, Piece.kept, List.singleton_append, Mode.output_cons,
      Mode.output_of_awaited_ne hplain hawaited, ← List.append_assoc, hwritten]

theorem Splits.withoutComments_eq (h : Splits text pieces) :
    withoutComments text = pieces.flatMap Piece.kept := by
  rw [withoutComments_eq_output]
  induction h with
  | nil => rfl
  | cons hp _ ih => rw [hp.output_append, ih, List.flatMap_cons]

/-! ## What is kept falls into pieces -/

theorem Splits.of_nil (h : Splits [] pieces) : pieces = [] := h.unique .nil

theorem Splits.head?_kept_of_newline (h : Splits text pieces) (htext : text.head? = some '\n') :
    (pieces.flatMap Piece.kept).head? = some '\n' := by
  cases h with
  | nil => cases htext
  | cons hp _ =>
    cases hp with
    | literal | lineComment | blockComment => cases htext
    | single => exact htext

/-- What is kept begins with a mark only if the text does. -/
theorem Splits.head?_of_kept (h : Splits text pieces) {c : Char} (hblank : c ≠ ' ')
    (hline : c ≠ '\n') (hc : (pieces.flatMap Piece.kept).head? = some c) :
    text.head? = some c := by
  cases h with
  | nil => cases hc
  | cons hp hrest =>
    cases hp with
    | literal | single => exact hc
    | lineComment _ hend =>
      -- behind the comment there is the end of the text or of the line
      rcases hend with rfl | hend
      · rw [hrest.of_nil] at hc
        cases hc
      · exact absurd (Option.some_inj.mp (hc.symm.trans (hrest.head?_kept_of_newline hend))) hline
    | blockComment => exact absurd (Option.some_inj.mp hc).symm hblank

/-- **What is kept.** What is kept of the pieces of a text falls into the pieces short of the
comments. -/
theorem Splits.kept (h : Splits text pieces) :
    Splits (pieces.flatMap Piece.kept) (pieces.flatMap Piece.remaining) := by
  induction h with
  | nil => exact .nil
  | @cons p rest pieces hp hrest ih =>
    cases hp with
    | @literal body close rest hbody hclose =>
      refine .cons (.literal hbody ?_) ih
      rcases hclose with ⟨rfl, hquote⟩ | ⟨rfl, rfl⟩
      · exact Or.inl ⟨rfl, mt (hrest.head?_of_kept (by decide) (by decide)) hquote⟩
      · rw [hrest.of_nil]
        exact Or.inr ⟨rfl, rfl⟩
    | lineComment => exact ih
    | blockComment =>
      exact .cons (.single (by decide) (fun h ↦ absurd h (by decide))
        (fun h ↦ absurd h (by decide))) ih
    | single hquote hdash hslash =>
      exact .cons (.single hquote
        (fun hc ↦ mt (hrest.head?_of_kept (by decide) (by decide)) (hdash hc))
        (fun hc ↦ mt (hrest.head?_of_kept (by decide) (by decide)) (hslash hc))) ih

/-- **Removing comments.** Every text is split into literals, comments and single characters in one
way. Without its comments it is what is kept of these pieces: each as it is, but nothing of a line
comment and a blank for a block comment. Once comments are removed there is nothing left to be
removed. -/
theorem withoutComments_keeps_pieces (text : List Char) :
    (∃! pieces, Splits text pieces) ∧
      (∀ pieces, Splits text pieces → pieces.flatMap Piece.chars = text ∧
        withoutComments text = pieces.flatMap Piece.kept) ∧
      withoutComments (withoutComments text) = withoutComments text := by
  obtain ⟨pieces, h⟩ := exists_splits text
  have hkept : ∀ pieces : List Piece,
      (pieces.flatMap Piece.remaining).flatMap Piece.kept = pieces.flatMap Piece.kept := by
    intro pieces
    simp only [List.flatMap_assoc, Piece.flatMap_kept_remaining]
  refine ⟨⟨pieces, h, fun pieces' h' ↦ h'.unique h⟩,
    fun pieces h ↦ ⟨h.flatMap_chars, h.withoutComments_eq⟩, ?_⟩
  rw [h.withoutComments_eq, h.kept.withoutComments_eq, hkept]

/-- The mark of one comment in another or in a literal is none, and neither is a slash that would
have to both open and close a comment. -/
example : withoutComments "a/*/-- *//-- '/*\n'it''s --'/**/*".toList =
    "a /\n'it''s --' *".toList := by decide

end Lineage.Source
