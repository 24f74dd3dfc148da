import Lineage.Json.Printer
import Lineage.Json.Token
import Lineage.Proofs.Json.Integral
import Lineage.Proofs.Text.Scan
import Mathlib.Data.List.TakeDrop
import Mathlib.Data.List.TakeWhile

/-!
# The tokens of what is written

Each piece of text that the printer writes is one token or a run of blanks, and the tokens of a text
are found piece by piece, since no token depends on what comes before it. For most pieces it does
not matter either what comes after. Only a number would go on with a digit behind it, so its piece
is read alone if what comes next cannot stand inside a number.

An escaped character is read in two steps, like every string: the escapes with a letter become
characters at once, the others become units, which are joined to characters afterwards. Only
controls are written by their number, so no unit is half of a pair.
-/

namespace Lineage.Json

variable {t : Token} {c : Char} {rest : List Char}

/-! ## Piece by piece -/

theorem scanFrom_token (skip : Nat) (before text : List Char) :
    Text.scanFrom token [] skip before text = tokens (text.drop skip) := by
  induction text generalizing skip before with
  | nil => rw [List.drop_nil]; rfl
  | cons c rest ih =>
    cases skip with
    | succ skip => rw [Text.scanFrom_succ, ih, List.drop_succ_cons]
    | zero =>
      rw [List.drop_zero, tokens, Text.scan]
      cases hfound : token before (c :: rest) with
      | none =>
        have halone : token [] (c :: rest) = none := hfound
        rw [Text.scanFrom_of_none hfound, Text.scanFrom_of_none halone, ih, ih]
      | some found =>
        have halone : token [] (c :: rest) = some found := hfound
        rw [Text.scanFrom_of_some hfound, Text.scanFrom_of_some halone, ih, ih]

theorem tokens_cons_of_isSpace (h : isSpace c = true) (rest : List Char) :
    tokens (c :: rest) = tokens rest := by
  have hnone : token [] (c :: rest) = none := by rw [token, if_pos h]
  rw [tokens, Text.scan, Text.scanFrom_of_none hnone, scanFrom_token, List.drop_zero]

theorem tokens_append_of_isSpace {blanks : List Char} (h : ∀ c ∈ blanks, isSpace c = true)
    (rest : List Char) : tokens (blanks ++ rest) = tokens rest := by
  induction blanks with
  | nil => rfl
  | cons c blanks ih =>
    rw [List.cons_append, tokens_cons_of_isSpace (h c List.mem_cons_self),
      ih fun d hd ↦ h d (List.mem_cons_of_mem c hd)]

theorem tokens_append_of_tokenAt {lexeme : List Char} (hspace : isSpace c = false)
    (h : tokenAt (c :: (lexeme ++ rest)) = (t, lexeme.length + 1)) :
    tokens (c :: (lexeme ++ rest)) = t :: tokens rest := by
  have hsome : token [] (c :: (lexeme ++ rest)) = some (t, lexeme.length + 1) := by
    rw [token, if_neg (by rw [hspace]; exact Bool.false_ne_true), h]
  rw [tokens, Text.scan, Text.scanFrom_of_some hsome, scanFrom_token, Nat.add_sub_cancel,
    List.drop_left]

/-! ## Strings -/

/-- The piece that a written character is read as: a unit if it is a control without a letter of its
own. -/
def pieceOf (c : Char) : Piece :=
  if c.toNat < 0x20 ∧ c ∉ ['\x08', '\x0c', '\n', '\r', '\t'] then .unit c.toNat else .char c

theorem hexDigit?_hexChar : ∀ n < 16, hexDigit? (hexChar n) = some n := by decide

theorem unit?_control {n : Nat} (h : n < 0x20) :
    unit? '0' '0' (hexChar (n / 16)) (hexChar (n % 16)) = some n := by
  have hzero : hexDigit? '0' = some 0 := by decide
  rw [unit?, hzero, hexDigit?_hexChar _ (by omega), hexDigit?_hexChar _ (by omega)]
  exact congrArg some (by omega)

theorem pieces_escapeChar (found : List Piece) (taken : Nat) (c : Char) (rest : List Char) :
    pieces found taken (escapeChar c ++ rest) =
      pieces (pieceOf c :: found) (taken + (escapeChar c).length) rest := by
  -- seven characters have an escape of their own, control characters a number, others none
  by_cases hletter : c ∈ ['"', '\\', '\x08', '\x0c', '\n', '\r', '\t']
  · simp only [List.mem_cons, List.not_mem_nil, or_false] at hletter
    rcases hletter with rfl | rfl | rfl | rfl | rfl | rfl | rfl <;> rfl
  · simp only [List.mem_cons, List.not_mem_nil, or_false, not_or] at hletter
    obtain ⟨hquote, hbackslash, hb, hf, hn, hr, ht⟩ := hletter
    by_cases hcontrol : c.toNat < 0x20
    · have hescape : escapeChar c =
          ['\\', 'u', '0', '0', hexChar (c.toNat / 16), hexChar (c.toNat % 16)] := by
        simp [escapeChar, hquote, hbackslash, hb, hf, hn, hr, ht, hcontrol]
      have hpiece : pieceOf c = .unit c.toNat := by
        simp [pieceOf, hb, hf, hn, hr, ht, hcontrol]
      rw [hescape, hpiece]
      simp only [List.cons_append, List.nil_append, pieces, unit?_control hcontrol]
      rfl
    · have hescape : escapeChar c = [c] := by
        simp [escapeChar, hquote, hbackslash, hb, hf, hn, hr, ht, hcontrol]
      have hpiece : pieceOf c = .char c := by rw [pieceOf, if_neg (hcontrol ·.1)]
      rw [hescape, hpiece, List.singleton_append, List.length_singleton, pieces, if_neg hcontrol]
      · exact hquote
      · exact fun _ _ _ _ _ h _ ↦ hbackslash h
      · exact fun _ _ h _ ↦ hbackslash h

theorem pieces_escaped (found : List Piece) (taken : Nat) (text rest : List Char) :
    pieces found taken (text.flatMap escapeChar ++ '"' :: rest) =
      some ((text.map pieceOf).reverse ++ found,
        taken + (text.flatMap escapeChar).length + 1) := by
  induction text generalizing found taken with
  | nil => rfl
  | cons c text ih =>
    rw [List.flatMap_cons, List.append_assoc, pieces_escapeChar, ih, List.map_cons,
      List.reverse_cons, List.append_assoc, List.singleton_append, List.length_append,
      Nat.add_assoc taken]

/-- The pieces stand for the text, as a control is not half of a pair. -/
theorem joinPieces_map_pieceOf (found text : List Char) :
    joinPieces found (text.map pieceOf) = some (found.reverse ++ text) := by
  induction text generalizing found with
  | nil => rw [List.map_nil, joinPieces, List.append_nil]
  | cons c text ih =>
    have hjoin : joinPieces found (pieceOf c :: text.map pieceOf) =
        joinPieces (c :: found) (text.map pieceOf) := by
      rw [pieceOf]
      split
      next hcontrol =>
        have hhigh : isHighSurrogate c.toNat = false := by simp [isHighSurrogate]; omega
        have hlow : isLowSurrogate c.toNat = false := by simp [isLowSurrogate]; omega
        cases text with
        | nil => simp [joinPieces, hhigh, hlow]
        | cons d text =>
          rw [List.map_cons]
          cases pieceOf d <;> simp [joinPieces, hhigh, hlow]
      next => rw [joinPieces]
    rw [List.map_cons, hjoin, ih, List.reverse_cons, List.append_assoc, List.singleton_append]

theorem tokens_quote (s : String) (rest : List Char) :
    tokens ((quote s).toList ++ rest) = .string (some s) :: tokens rest := by
  have htext : (quote s).toList = '"' :: (s.toList.flatMap escapeChar ++ ['"']) := by
    simp [quote]
  have htoken : tokenAt ('"' :: (s.toList.flatMap escapeChar ++ ['"'] ++ rest)) =
      (.string (some s), (s.toList.flatMap escapeChar ++ ['"']).length + 1) := by
    rw [List.append_assoc, List.singleton_append, tokenAt, pieces_escaped]
    simp [joinPieces_map_pieceOf, Nat.add_comm 1]
  rw [htext, List.cons_append]
  exact tokens_append_of_tokenAt (by decide) htoken

/-! ## Numbers -/

theorem digitsValue_toDigits (n : Nat) : digitsValue (Nat.toDigits 10 n) = n := by
  have happend : appendDigit = fun sofar c ↦ 10 * sofar + (c.toNat - '0'.toNat) := by
    funext sofar c
    rw [appendDigit, Nat.mul_comm]
  rw [digitsValue, happend, ← Nat.ofDigitChars_eq_foldl,
    Nat.ofDigitChars_toDigits (by decide) (by decide)]

theorem all_isDigit_toDigits (n : Nat) : ∀ c ∈ Nat.toDigits 10 n, c.isDigit = true :=
  fun _ hc ↦ Nat.isDigit_of_mem_toDigits (by decide) (by decide) hc

theorem wholeDigits_toDigits (n : Nat) : Numeral.wholeDigits (Nat.toDigits 10 n) = true := by
  have hhead : ∀ n, ∃ c rest, Nat.toDigits 10 n = c :: rest ∧ (c = '0' → n = 0) := by
    intro n
    induction n using Nat.strongRecOn with
    | ind n ih =>
      by_cases hsmall : n < 10
      · have hzero : ∀ n < 10, Nat.digitChar n = '0' → n = 0 := by decide
        exact ⟨_, [], Nat.toDigits_of_lt_base hsmall, hzero n hsmall⟩
      · obtain ⟨c, rest, heq, hzero⟩ := ih (n / 10) (by omega)
        refine ⟨c, rest ++ [(n % 10).digitChar], ?_, fun hc ↦ ?_⟩
        · rw [Nat.toDigits_of_base_le (by decide) (by omega), heq, List.cons_append]
        · exact absurd (hzero hc) (by omega)
  obtain ⟨c, rest, heq, hzero⟩ := hhead n
  by_cases hc : c = '0'
  · rw [hzero hc]
    rfl
  · rw [heq, Numeral.wholeDigits]
    · exact bne_iff_ne.mpr hc
    · exact fun h _ ↦ hc h

theorem span_isDigit_toDigits (n : Nat) :
    (Nat.toDigits 10 n).span Char.isDigit = (Nat.toDigits 10 n, []) := by
  rw [List.span_eq_takeWhile_dropWhile, List.takeWhile_eq_self_iff.mpr (all_isDigit_toDigits n),
    List.dropWhile_eq_nil_iff.mpr (all_isDigit_toDigits n)]

theorem ofChars?_toDigits (n : Nat) :
    Numeral.ofChars? (Nat.toDigits 10 n) = some ⟨false, Nat.toDigits 10 n, none, none⟩ := by
  have hminus : ∀ rest, Nat.toDigits 10 n ≠ '-' :: rest := by
    intro rest heq
    exact absurd (all_isDigit_toDigits n '-' (heq ▸ List.mem_cons_self)) (by decide)
  rw [Numeral.ofChars?, span_isDigit_toDigits]
  · simp [wholeDigits_toDigits, Numeral.exponent?]
  · exact hminus

theorem ofChars?_minus_toDigits (n : Nat) :
    Numeral.ofChars? ('-' :: Nat.toDigits 10 n) = some ⟨true, Nat.toDigits 10 n, none, none⟩ := by
  rw [Numeral.ofChars?, span_isDigit_toDigits]
  simp [wholeDigits_toDigits, Numeral.exponent?]

theorem ofNumeral?_toString {n : Int} (h : IsInt64 n) :
    ofNumeral? (toString n).toList = some (.int n) := by
  obtain ⟨hlow, hhigh⟩ := h
  -- the bounds for the two signs differ, and so do the numerals
  cases n with
  | ofNat n =>
    have hdigits : (toString (Int.ofNat n)).toList = Nat.toDigits 10 n := Nat.toList_repr
    have hsmall : n < Nat.pow 2 64 := Int.ofNat_lt.mp hhigh
    rw [hdigits, ofNumeral?, ofChars?_toDigits, Option.map_some, ofNumeral]
    simp only [Numeral.isWhole, digitsValue_toDigits, Option.isNone_none, Bool.and_self,
      Bool.not_true, Bool.false_and, Bool.or_self, Bool.false_eq_true, if_false, if_pos hsmall]
    rfl
  | negSucc n =>
    have hdigits : (toString (Int.negSucc n)).toList = '-' :: Nat.toDigits 10 (n + 1) := by
      have htext : toString (Int.negSucc n) = "-" ++ (n + 1).repr := rfl
      rw [htext, String.toList_append, Nat.toList_repr]
      rfl
    have hsmall : n + 1 ≤ Nat.pow 2 63 := by
      rw [Int.negSucc_eq] at hlow
      omega
    rw [hdigits, ofNumeral?, ofChars?_minus_toDigits, Option.map_some, ofNumeral]
    simp only [Numeral.isWhole, digitsValue_toDigits, Option.isNone_none, Bool.and_self,
      Bool.not_true, Bool.true_and, Bool.false_or, Nat.add_eq_zero_iff, Nat.one_ne_zero, and_false,
      beq_iff_eq, if_false, if_true, if_pos hsmall]
    rfl

theorem exists_toList_toString (n : Int) :
    ∃ c rest, (toString n).toList = c :: rest ∧ ∀ d ∈ c :: rest, isNumeral d = true := by
  have hnumeral : ∀ n, ∀ d ∈ Nat.toDigits 10 n, isNumeral d = true := by
    intro n d hd
    simp only [isNumeral, all_isDigit_toDigits n d hd, Bool.true_or]
  cases n with
  | ofNat n =>
    have hdigits : (toString (Int.ofNat n)).toList = Nat.toDigits 10 n := Nat.toList_repr
    obtain ⟨c, rest, heq⟩ := List.exists_cons_of_ne_nil (Nat.toDigits_ne_nil (n := n) (b := 10))
    exact ⟨c, rest, hdigits.trans heq, heq ▸ hnumeral n⟩
  | negSucc n =>
    refine ⟨'-', Nat.toDigits 10 (n + 1), ?_, ?_⟩
    · have htext : toString (Int.negSucc n) = "-" ++ (n + 1).repr := rfl
      rw [htext, String.toList_append, Nat.toList_repr]
      rfl
    · exact List.forall_mem_cons.mpr ⟨by decide, hnumeral _⟩

theorem isSpace_of_isNumeral (h : isNumeral c = true) : isSpace c = false := by
  rw [← Bool.not_eq_true]
  intro hspace
  simp only [isSpace, Bool.or_eq_true, beq_iff_eq] at hspace
  rcases hspace with ((rfl | rfl) | rfl) | rfl <;> exact absurd h (by decide)

/-- A character that may stand inside a number starts a number or nothing. -/
theorem tokenAt_of_isNumeral (h : isNumeral c = true) (rest : List Char) {value : Json}
    (hvalue : ofNumeral? ((c :: rest).takeWhile isNumeral) = some value) :
    tokenAt (c :: rest) = (.literal value, ((c :: rest).takeWhile isNumeral).length) := by
  have hliteral : literals.find? (·.1.isPrefixOf (c :: rest)) = none := by
    have hstart : ∀ d ∈ ['t', 'f', 'n'], (d == c) = false := by
      intro d hd
      rw [beq_eq_false_iff_ne]
      rintro rfl
      simp only [List.mem_cons, List.not_mem_nil, or_false] at hd
      rcases hd with rfl | rfl | rfl <;> exact absurd h (by decide)
    simp only [List.forall_mem_cons] at hstart
    obtain ⟨ht, hf, hn, -⟩ := hstart
    simp [literals, List.isPrefixOf, ht, hf, hn]
  rw [tokenAt]
  · rw [hliteral]
    simp only [hvalue]
  all_goals
    rintro _ ⟨rfl, -⟩
    exact absurd h (by decide)

/-- An integer is one token if what comes next does not go on with it. -/
theorem tokens_int {n : Int} (h : IsInt64 n) (hrest : ∀ c ∈ rest.head?, isNumeral c = false) :
    tokens ((toString n).toList ++ rest) = .literal (.int n) :: tokens rest := by
  obtain ⟨c, digits, hchars, hall⟩ := exists_toList_toString n
  have hstop : rest.takeWhile isNumeral = [] := by
    cases rest with
    | nil => rfl
    | cons d rest =>
      exact List.takeWhile_cons_of_neg (by rw [hrest d rfl]; exact Bool.false_ne_true)
  have hnumeral : (c :: (digits ++ rest)).takeWhile isNumeral = (toString n).toList := by
    rw [← List.cons_append, List.takeWhile_append_of_pos hall, hstop, List.append_nil, hchars]
  have htoken := tokenAt_of_isNumeral (hall c List.mem_cons_self) (digits ++ rest)
    (by rw [hnumeral, ofNumeral?_toString h])
  rw [hnumeral, hchars, List.length_cons] at htoken
  rw [hchars]
  exact tokens_append_of_tokenAt (isSpace_of_isNumeral (hall c List.mem_cons_self)) htoken

end Lineage.Json
