/-!
# Scanning a text

One left-to-right pass that collects what a recogniser finds. At every position the recogniser
sees the characters before it, the nearest first, and the characters from it on; when it finds
something it also says how many characters to pass before it is asked again. Matches therefore
never overlap unless the recogniser says so, and the leftmost one always wins.

The pass recurses on the text itself, counting down the characters still to be passed, so it needs
no measure and its result can be computed by unfolding.
-/

namespace Lineage.Text

/-- What may be found at a position: a value and the number of characters to pass, at least one.
The arguments are the characters before the position, nearest first, and those from it on. -/
abbrev Recogniser (α : Type) := List Char → List Char → Option (α × Nat)

/-- The scan in progress: `found` holds the results so far, latest first, and `skip` characters
are passed before the recogniser is asked again. -/
def scanFrom {α : Type} (recognise : Recogniser α) (found : List α) (skip : Nat)
    (before : List Char) : List Char → List α
  | [] => found.reverse
  | c :: rest =>
    match skip with
    | skip + 1 => scanFrom recognise found skip (c :: before) rest
    | 0 =>
      match recognise before (c :: rest) with
      | some (a, length) => scanFrom recognise (a :: found) (length - 1) (c :: before) rest
      | none => scanFrom recognise found 0 (c :: before) rest

/-- Everything a recogniser finds in a text, in order of position. -/
def scan {α : Type} (recognise : Recogniser α) (text : List Char) : List α :=
  scanFrom recognise [] 0 [] text

variable {α : Type} {recognise : Recogniser α}

theorem scanFrom_eq_append (found : List α) (skip : Nat) (before text : List Char) :
    scanFrom recognise found skip before text =
      found.reverse ++ scanFrom recognise [] skip before text := by
  induction text generalizing found skip before with
  | nil => simp [scanFrom]
  | cons c rest ih =>
    cases skip with
    | succ skip => simp only [scanFrom]; exact ih found skip (c :: before)
    | zero =>
      simp only [scanFrom]
      split
      · rename_i a length _
        rw [ih (a :: found), ih [a]]
        simp
      · exact ih found 0 (c :: before)

/-- What a scan finds was recognised at some position. -/
theorem exists_of_mem_scanFrom {a : α} {skip : Nat} {before text : List Char}
    (h : a ∈ scanFrom recognise [] skip before text) :
    ∃ before text length, recognise before text = some (a, length) := by
  induction text generalizing skip before with
  | nil => exact absurd h List.not_mem_nil
  | cons c rest ih =>
    cases skip with
    | succ skip => exact ih h
    | zero =>
      simp only [scanFrom] at h
      split at h
      · rename_i a' length hfound
        rw [scanFrom_eq_append, List.reverse_singleton, List.mem_append, List.mem_singleton] at h
        rcases h with rfl | h
        · exact ⟨before, c :: rest, length, hfound⟩
        · exact ih h
      · exact ih h

theorem exists_of_mem_scan {a : α} {text : List Char} (h : a ∈ scan recognise text) :
    ∃ before text length, recognise before text = some (a, length) := exists_of_mem_scanFrom h

end Lineage.Text
