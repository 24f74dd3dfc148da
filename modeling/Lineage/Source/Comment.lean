/-!
# Comments

A source text without its comments. A comment runs from `--` to the end of the line, which stays,
or from `/*` to the next `*/`, which leaves a single blank so that the words around it stay apart.
In a literal, between apostrophes, neither mark starts a comment; a doubled apostrophe does not end
the literal. What is left open at the end of the text is closed there.

The text is read by an automaton one character at a time, which makes it plain what a text leaves
behind for the text that follows it: only the state. A dash or a slash that may start a comment is
held back until the next character decides.
-/

namespace Lineage.Source

/-- Where the reader is. -/
inductive Mode where
  /-- Outside literals and comments. -/
  | code
  /-- After a dash that is held back. -/
  | dash
  /-- After a slash that is held back. -/
  | slash
  /-- In a literal. -/
  | literal
  /-- After an apostrophe in a literal, which ends it unless another one follows. -/
  | apostrophe
  /-- In a comment that ends with the line. -/
  | line
  /-- In a comment that ends with a mark. -/
  | block
  /-- After a star in such a comment. -/
  | star
deriving DecidableEq

namespace Mode

/-- Reads a character outside literals and comments, with nothing held back. -/
def stepCode (c : Char) : Mode × List Char :=
  if c == '\'' then (.literal, [c])
  else if c == '-' then (.dash, [])
  else if c == '/' then (.slash, [])
  else (.code, [c])

/-- Reads a character: the state after it, and what it adds to the output. -/
def step (mode : Mode) (c : Char) : Mode × List Char :=
  match mode with
  | .code => stepCode c
  | .dash => if c == '-' then (.line, []) else ((stepCode c).1, '-' :: (stepCode c).2)
  | .slash => if c == '*' then (.block, []) else ((stepCode c).1, '/' :: (stepCode c).2)
  | .literal => if c == '\'' then (.apostrophe, [c]) else (.literal, [c])
  | .apostrophe => if c == '\'' then (.literal, [c]) else stepCode c
  | .line => if c == '\n' then (.code, [c]) else (.line, [])
  | .block => if c == '*' then (.star, []) else (.block, [])
  | .star => if c == '/' then (.code, [' ']) else if c == '*' then (.star, []) else (.block, [])

/-- What is written at the end of the text. -/
def finish : Mode → List Char
  | .dash => ['-']
  | .slash => ['/']
  | .block | .star => [' ']
  | _ => []

/-- Whether neither a literal nor a comment is open. -/
def isPlain : Mode → Bool
  | .code | .dash | .slash | .apostrophe => true
  | _ => false

/-- The state after a text, and the output, latest first, in front of `written`. -/
def run (mode : Mode) (written : List Char) : List Char → Mode × List Char
  | [] => (mode, written)
  | c :: rest => run (mode.step c).1 ((mode.step c).2.reverse ++ written) rest

/-- The state after a text. -/
def after (mode : Mode) (text : List Char) : Mode := text.foldl (fun mode c => (mode.step c).1) mode

end Mode

/-- A text without its comments. -/
def withoutComments (text : List Char) : List Char :=
  let (mode, written) := Mode.run .code [] text
  written.reverse ++ mode.finish

theorem Mode.run_append (mode : Mode) (written xs ys : List Char) :
    mode.run written (xs ++ ys) = (mode.run written xs).1.run (mode.run written xs).2 ys := by
  induction xs generalizing mode written with
  | nil => rfl
  | cons c xs ih => exact ih _ _

theorem Mode.run_eq_append (mode : Mode) (written text : List Char) :
    mode.run written text = ((mode.run [] text).1, (mode.run [] text).2 ++ written) := by
  induction text generalizing mode written with
  | nil => simp [Mode.run]
  | cons c text ih =>
    simp only [Mode.run]
    rw [ih, ih _ (_ ++ [])]
    simp

theorem Mode.after_eq_run (mode : Mode) (written text : List Char) :
    mode.after text = (mode.run written text).1 := by
  induction text generalizing mode written with
  | nil => rfl
  | cons c text ih => exact ih _ _

end Lineage.Source
