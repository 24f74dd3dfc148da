import Lineage.Proofs.Source.Part
import Lineage.Source.Offset

/-!
# Cuts where they should be

What is found by offsets is what is found without them, and nothing goes wrong on the way.

An offset is the length in bytes of some front of the text (`cut?_eq_some_iff`), so every cut is
right whose number is the length of such a front. The numbers here come from three counts, of the
blanks, of the characters in the list and of the text in front of both, and the parentheses and
commas at which the counts are taken are one byte long; added up they are lengths of fronts.

The depth is above zero from the first parenthesis on until the list is closed, and there the search
ends, so none is closed at depth zero. Which parenthesis closes the list is told by two numbers: it
is the first one in front of which as many were opened in the list as were closed (`ClosesAt`).
-/

namespace Lineage.Source

open Text (isBlank)

variable {depth offset : Nat} {text front back rest inside blanks part : List Char}

/-! ## Cuts -/

@[simp] theorem byteLength_nil : byteLength [] = 0 := rfl

@[simp] theorem byteLength_cons (c : Char) (text : List Char) :
    byteLength (c :: text) = c.utf8Size + byteLength text := rfl

@[simp] theorem byteLength_append (front back : List Char) :
    byteLength (front ++ back) = byteLength front + byteLength back := by
  induction front with
  | nil => rw [List.nil_append, byteLength_nil, Nat.zero_add]
  | cons c front ih =>
    rw [List.cons_append, byteLength_cons, byteLength_cons, ih, Nat.add_assoc]

theorem byteLength_eq_zero_iff : byteLength text = 0 ↔ text = [] := by
  cases text with
  | nil => exact iff_of_true rfl rfl
  | cons c text =>
    have hpos := c.utf8Size_pos
    rw [byteLength_cons]
    exact iff_of_false (by omega) (List.cons_ne_nil c text)

theorem cut?_zero_iff :
    cut? 0 text = some (front, back) ↔ text = front ++ back ∧ byteLength front = 0 := by
  rw [cut?, Option.some_inj, Prod.mk.injEq, byteLength_eq_zero_iff]
  constructor
  · rintro ⟨rfl, rfl⟩
    exact ⟨rfl, rfl⟩
  · rintro ⟨rfl, rfl⟩
    exact ⟨rfl, rfl⟩

/-- A text is cut at the lengths of its fronts. -/
theorem cut?_eq_some_iff :
    cut? offset text = some (front, back) ↔ text = front ++ back ∧ byteLength front = offset := by
  induction text generalizing offset front with
  | nil =>
    cases offset with
    | zero => exact cut?_zero_iff
    | succ offset =>
      refine iff_of_false nofun ?_
      rintro ⟨hnil, hlength⟩
      rw [(List.append_eq_nil_iff.mp hnil.symm).1] at hlength
      cases hlength
  | cons c text ih =>
    cases offset with
    | zero => exact cut?_zero_iff
    | succ offset =>
      rw [cut?, Option.ite_none_right_eq_some, Option.map_eq_some_iff]
      constructor
      · rintro ⟨hle, ⟨front', back'⟩, hcut, heq⟩
        obtain ⟨rfl, rfl⟩ := Prod.mk.inj heq
        obtain ⟨rfl, hlength⟩ := ih.mp hcut
        refine ⟨rfl, ?_⟩
        rw [byteLength_cons, hlength]
        omega
      · rintro ⟨htext, hlength⟩
        -- an offset that is not zero has a character in front of it
        cases front with
        | nil => cases hlength
        | cons d front =>
          obtain ⟨rfl, rfl⟩ := List.cons_eq_cons.mp htext
          rw [byteLength_cons] at hlength
          exact ⟨by omega, (front, back), ih.mpr ⟨rfl, by omega⟩, rfl⟩

theorem sliceFrom_append (front back : List Char) :
    sliceFrom (front ++ back) (byteLength front) = .ok back := by
  rw [sliceFrom, cut?_eq_some_iff.mpr ⟨rfl, rfl⟩]

theorem slice_append (front inside back : List Char) :
    slice (front ++ (inside ++ back)) (byteLength front) (byteLength front + byteLength inside) =
      .ok inside := by
  have hcut : cut? (byteLength front + byteLength inside - byteLength front) (inside ++ back) =
      some (inside, back) := cut?_eq_some_iff.mpr ⟨rfl, (Nat.add_sub_cancel_left ..).symm⟩
  rw [slice, sliceFrom_append]
  change (if _ < _ then _ else _) = _
  rw [if_neg (Nat.not_lt.mpr (Nat.le_add_right _ _)), hcut]

/-! ## Which parenthesis closes a list -/

/-- Whether a place of a text has the parenthesis that closes one opened in front of the text: as
many were opened as were closed up to there. -/
def ClosesAt (text : List Char) (place : Nat) : Prop :=
  text[place]? = some ')' ∧ (text.take place).count '(' = (text.take place).count ')'

instance (text : List Char) (place : Nat) : Decidable (ClosesAt text place) :=
  inferInstanceAs (Decidable (_ ∧ _))

theorem count_of_depthAfter? {after : Nat} (h : depthAfter? depth text = some after) :
    depth + text.count '(' = after + text.count ')' := by
  induction text generalizing depth with
  | nil => exact congrArg (· + 0) (Option.some_inj.mp h)
  | cons c text ih =>
    obtain ⟨rfl, h⟩ | ⟨below, rfl, rfl, h⟩ | ⟨hopen, hclose, h⟩ := depthAfter?_cons_cases h
    · have htext := ih h
      rw [List.count_cons_self, List.count_cons_of_ne (by decide)]
      omega
    · have htext := ih h
      rw [List.count_cons_self, List.count_cons_of_ne (by decide)]
      omega
    · rw [List.count_cons_of_ne hopen, List.count_cons_of_ne hclose]
      exact ih h

theorem not_closesAt_of_depthAfter? {after : Nat} (h : depthAfter? 0 text = some after)
    (place : Nat) : ¬ClosesAt text place := by
  rintro ⟨hclose, hcount⟩
  obtain ⟨hlt, hget⟩ := List.getElem?_eq_some_iff.mp hclose
  rw [← List.take_append_drop place text, List.drop_eq_getElem_cons hlt, hget, depthAfter?_append,
    Option.bind_eq_some_iff] at h
  obtain ⟨mid, hfront, hback⟩ := h
  have hmid := count_of_depthAfter? hfront
  obtain rfl : mid = 0 := by omega
  cases hback

theorem closesAt_append (h : depthAfter? 0 inside = some 0) (back : List Char) :
    ClosesAt (inside ++ ')' :: back) inside.length := by
  have hcount := count_of_depthAfter? h
  rw [Nat.zero_add, Nat.zero_add] at hcount
  refine ⟨?_, ?_⟩
  · rw [List.getElem?_append_right le_rfl, Nat.sub_self, List.getElem?_cons_zero]
  · rw [List.take_left, hcount]

theorem not_closesAt_append (h : depthAfter? 0 inside = some 0) (back : List Char) {place : Nat}
    (hlt : place < inside.length) : ¬ClosesAt (inside ++ back) place := by
  rw [ClosesAt, List.getElem?_append_left hlt, List.take_append_of_le_length hlt.le]
  exact not_closesAt_of_depthAfter? h place

/-! ## The search for it -/

theorem closingOffset?_other {c : Char} (hopen : c ≠ '(') (hclose : c ≠ ')') (depth offset : Nat)
    (text : List Char) :
    closingOffset? depth offset (c :: text) = closingOffset? depth (offset + c.utf8Size) text := by
  rw [closingOffset?.eq_def]
  simp only [beq_false_of_ne hopen, beq_false_of_ne hclose, if_neg Bool.false_ne_true]

/-- Inside a list the depth is one more than in its text, and so never zero where it goes down. -/
theorem closingOffset?_of_closed (h : depthAfter? depth inside = some 0) (offset : Nat)
    (back : List Char) : closingOffset? (depth + 1) offset (inside ++ ')' :: back) =
      .ok (some (offset + byteLength inside)) := by
  induction inside generalizing depth offset with
  | nil =>
    obtain rfl := Option.some_inj.mp h
    rfl
  | cons c inside ih =>
    rw [List.cons_append, byteLength_cons, ← Nat.add_assoc]
    obtain ⟨rfl, h⟩ | ⟨below, rfl, rfl, h⟩ | ⟨hopen, hclose, h⟩ := depthAfter?_cons_cases h
    · exact ih h _
    · exact ih h _
    · rw [closingOffset?_other hopen hclose, ih h]

theorem closingOffset?_of_open {after : Nat} (h : depthAfter? depth text = some after)
    (offset : Nat) : closingOffset? (depth + 1) offset text = .ok none := by
  induction text generalizing depth offset with
  | nil => rfl
  | cons c text ih =>
    obtain ⟨rfl, h⟩ | ⟨below, rfl, rfl, h⟩ | ⟨hopen, hclose, h⟩ := depthAfter?_cons_cases h
    · exact ih h _
    · exact ih h _
    · rw [closingOffset?_other hopen hclose, ih h]

/-! ## The list at an offset -/

/-- Whether `inside` is the text of a list that is read up to an offset, where the text to be read
is `rest` and `front` is before it. -/
inductive IsListAt (front rest inside : List Char) : Nat → Prop
  /-- The list ends with the first parenthesis that closes it. -/
  | closed {blanks back : List Char} (hblanks : AllBlank blanks)
      (hrest : rest = blanks ++ '(' :: (inside ++ ')' :: back))
      (hcloses : ClosesAt (inside ++ ')' :: back) inside.length)
      (hfirst : ∀ place < inside.length, ¬ClosesAt (inside ++ ')' :: back) place) :
      IsListAt front rest inside (byteLength (front ++ (blanks ++ '(' :: (inside ++ [')']))))
  /-- Nothing closes the list, and it takes all of the text. -/
  | unclosed {blanks : List Char} (hblanks : AllBlank blanks)
      (hrest : rest = blanks ++ '(' :: inside)
      (hnever : ∀ place, ¬ClosesAt inside place) :
      IsListAt front rest inside (byteLength (front ++ rest))

theorem find?_not_isBlank (hblanks : AllBlank blanks) (hstops : Stops isBlank rest) :
    (blanks ++ rest).find? (!isBlank ·) = rest.head? := by
  have hnone : blanks.find? (!isBlank ·) = none :=
    List.find?_eq_none.mpr fun c hc ↦ by simp [hblanks c hc]
  rw [List.find?_append, hnone, Option.none_or]
  cases rest with
  | nil => rfl
  | cons c rest =>
    exact List.find?_cons_of_pos (by simpa using stops_cons.mp hstops)

@[simp] theorem ok_bind {α β : Type} (a : α) (f : α → Except Fault β) :
    (Except.ok a >>= f) = f a := rfl

theorem byteLength_sub (front blanks rest : List Char) :
    byteLength front + (byteLength (blanks ++ rest) - byteLength rest) =
      byteLength (front ++ blanks) := by
  rw [byteLength_append, byteLength_append, Nat.add_sub_cancel]

theorem parameterListAt_of_stops (hblanks : AllBlank blanks) (hstops : Stops isBlank rest)
    (hne : rest.head? ≠ some '(') (front : List Char) :
    parameterListAt (front ++ (blanks ++ rest)) (byteLength front) =
      .ok (none, byteLength front) := by
  rw [parameterListAt, sliceFrom_append, ok_bind]
  simp only [afterGap_append hblanks hstops, if_neg hne]
  rfl

theorem parameterListAt_append (hblanks : AllBlank blanks) (front text : List Char) :
    parameterListAt (front ++ (blanks ++ '(' :: text)) (byteLength front) =
      closingOffset? 1 1 text >>= fun
        | some length => do
          let stop := byteLength (front ++ blanks) + length
          let inside ←
            slice (front ++ (blanks ++ '(' :: text)) (byteLength (front ++ blanks) + 1) stop
          return (some inside, stop + 1)
        | none => return (some text, byteLength (front ++ (blanks ++ '(' :: text))) := by
  have hstops : Stops isBlank ('(' :: text) := stops_cons.mpr (by decide)
  have hlist : sliceFrom (front ++ (blanks ++ '(' :: text)) (byteLength (front ++ blanks)) =
      .ok ('(' :: text) := by rw [← List.append_assoc, sliceFrom_append]
  have hinside : sliceFrom (front ++ (blanks ++ '(' :: text)) (byteLength (front ++ blanks) + 1) =
      .ok text := by
    have hcut := sliceFrom_append (front ++ blanks ++ ['(']) text
    rwa [byteLength_append, List.append_assoc, List.append_assoc] at hcut
  rw [parameterListAt, sliceFrom_append, ok_bind]
  simp only [afterGap_append hblanks hstops, byteLength_sub, hlist, hinside, ok_bind]
  rfl

theorem parameterListAt_of_closed (hblanks : AllBlank blanks) (h : depthAfter? 0 inside = some 0)
    (front back : List Char) :
    parameterListAt (front ++ (blanks ++ '(' :: (inside ++ ')' :: back))) (byteLength front) =
      .ok (some inside, byteLength (front ++ (blanks ++ '(' :: (inside ++ [')'])))) := by
  have hcut : slice (front ++ (blanks ++ '(' :: (inside ++ ')' :: back)))
      (byteLength (front ++ blanks) + 1)
      (byteLength (front ++ blanks) + (1 + byteLength inside)) = .ok inside := by
    have hslice := slice_append (front ++ blanks ++ ['(']) inside (')' :: back)
    rwa [byteLength_append _ ['('], Nat.add_assoc, List.append_assoc, List.append_assoc] at hslice
  have hstop : byteLength (front ++ blanks) + (1 + byteLength inside) + 1 =
      byteLength (front ++ (blanks ++ '(' :: (inside ++ [')']))) := by
    simp only [byteLength_append, byteLength_cons, byteLength_nil]
    have hopen : '('.utf8Size = 1 := rfl
    have hclose : ')'.utf8Size = 1 := rfl
    omega
  rw [parameterListAt_append hblanks, closingOffset?_of_closed h, ok_bind]
  simp only [hcut, ok_bind, hstop]
  rfl

theorem parameterListAt_of_open {after : Nat} (hblanks : AllBlank blanks)
    (h : depthAfter? 0 inside = some after) (front : List Char) :
    parameterListAt (front ++ (blanks ++ '(' :: inside)) (byteLength front) =
      .ok (some inside, byteLength (front ++ (blanks ++ '(' :: inside))) := by
  rw [parameterListAt_append hblanks, closingOffset?_of_open h, ok_bind]
  rfl

/-- Whether a list that is read up to `stop` is what the text says, where the text to be read is
`rest` and `front` is before it. -/
structure IsReadAt (front rest : List Char) (list : Option (List Char)) (stop : Nat) : Prop where
  /-- There is none exactly if the first character that is not blank opens none. -/
  eq_none_iff : list = none ↔ rest.find? (!isBlank ·) ≠ some '('
  /-- Where there is none, nothing is read. -/
  stop_eq : list = none → stop = byteLength front
  isListAt : ∀ inside ∈ list, IsListAt front rest inside stop
  /-- It is the list that is found without offsets, and so is what is left. -/
  parameterList?_eq : parameterList? rest = list.bind fun inside ↦
    (cut? stop (front ++ rest)).map fun (_, back) ↦ (inside, back)

theorem isReadAt_none (hblanks : AllBlank blanks) (hstops : Stops isBlank rest)
    (hne : rest.head? ≠ some '(') (front : List Char) :
    IsReadAt front (blanks ++ rest) none (byteLength front) where
  eq_none_iff := iff_of_true rfl (find?_not_isBlank hblanks hstops ▸ hne)
  stop_eq _ := rfl
  isListAt := nofun
  parameterList?_eq := by
    rw [parameterList?, afterGap_append hblanks hstops]
    cases rest with
    | nil => rfl
    | cons c rest =>
      split
      · rename_i heq
        exact absurd (congrArg List.head? heq) hne
      · rfl

theorem isReadAt_some {behind : List Char} {stop : Nat} (hblanks : AllBlank blanks)
    (hlist : IsListAt front (blanks ++ '(' :: text) inside stop)
    (hclose : closeList 0 [] text = (inside, back))
    (hcut : cut? stop (front ++ (blanks ++ '(' :: text)) = some (behind, back)) :
    IsReadAt front (blanks ++ '(' :: text) (some inside) stop where
  eq_none_iff := by
    have hstops : Stops isBlank ('(' :: text) := stops_cons.mpr (by decide)
    rw [find?_not_isBlank hblanks hstops]
    exact iff_of_false nofun fun hne ↦ hne rfl
  stop_eq := nofun
  isListAt := by
    rintro _ ⟨⟩
    exact hlist
  parameterList?_eq := by
    rw [parameterList?_append hblanks, hclose, Option.bind_some, hcut, Option.map_some]

/-- At the length of every front a list is read as the text says, and nothing goes wrong. -/
theorem exists_isReadAt (front rest : List Char) : ∃ list stop,
    parameterListAt (front ++ rest) (byteLength front) = .ok (list, stop) ∧
      IsReadAt front rest list stop := by
  obtain ⟨blanks, text, hblanks, hstops, rfl⟩ := exists_blanks rest
  by_cases hopen : text.head? = some '('
  · obtain ⟨text, rfl⟩ := List.head?_eq_some_iff.mp hopen
    rcases exists_closed_or_open 0 text with ⟨inside, back, h, rfl⟩ | ⟨after, h⟩
    · refine ⟨_, _, parameterListAt_of_closed hblanks h front back,
        isReadAt_some hblanks ?_ (closeList_of_closed h [] back) (cut?_eq_some_iff.mpr ⟨?_, rfl⟩)⟩
      · exact .closed hblanks rfl (closesAt_append h back)
          fun place hlt ↦ not_closesAt_append h (')' :: back) hlt
      · simp only [List.append_assoc, List.cons_append, List.nil_append]
    · refine ⟨_, _, parameterListAt_of_open hblanks h front,
        isReadAt_some hblanks ?_ (closeList_of_open h []) (cut?_eq_some_iff.mpr ⟨?_, rfl⟩)⟩
      · exact .unclosed hblanks rfl (not_closesAt_of_depthAfter? h)
      · exact (List.append_nil _).symm
  · exact ⟨none, _, parameterListAt_of_stops hblanks hstops hopen front,
      isReadAt_none hblanks hstops hopen front⟩

/-- A list is looked for at the offsets of a text and nowhere else. -/
theorem isOk_parameterListAt_iff : (∃ read, parameterListAt text offset = .ok read) ↔
    ∃ front rest, text = front ++ rest ∧ byteLength front = offset := by
  constructor
  · rintro ⟨read, hread⟩
    cases hcut : cut? offset text with
    | none =>
      rw [parameterListAt, sliceFrom, hcut] at hread
      cases hread
    | some cut => exact ⟨cut.1, cut.2, cut?_eq_some_iff.mp hcut⟩
  · rintro ⟨front, rest, rfl, rfl⟩
    obtain ⟨list, stop, hread, -⟩ := exists_isReadAt front rest
    exact ⟨_, hread⟩

example : parameterListAt "né (A NUMBER(9,2)) x".toList 3 =
    .ok (some "A NUMBER(9,2)".toList, 19) := by decide

-- The second byte of a character is no offset.
example : parameterListAt "né (A)".toList 2 = .error .cut := by decide

/-! ## Splitting -/

theorem slicesFrom_cons {c : Char} (hbare : c = ',' → depth ≠ 0) (text : List Char)
    (start offset : Nat) (rest : List Char) : slicesFrom text depth start offset (c :: rest) =
      slicesFrom text (nest depth c) start (offset + c.utf8Size) rest := by
  rw [slicesFrom, beq_comma_eq_false hbare, nest]
  simp only [beq_iff_eq, Bool.false_eq_true, if_false]
  split_ifs <;> rfl

theorem slicesFrom_comma (text : List Char) (start offset : Nat) (rest : List Char) :
    slicesFrom text 0 start offset (',' :: rest) = (do
      let part ← slice text start offset
      return part :: (← slicesFrom text 0 (offset + 1) (offset + 1) rest)) := rfl

theorem slicesFrom_eq (front part : List Char) {start : Nat}
    (htext : text = front ++ (part ++ rest)) (hstart : start = byteLength front)
    (hoffset : offset = start + byteLength part) (depth : Nat) :
    slicesFrom text depth start offset rest = .ok (splitFrom depth part.reverse rest) := by
  induction rest generalizing front part depth start offset with
  | nil =>
    have hpart : sliceFrom text start = .ok part := by
      rw [htext, hstart, List.append_nil, sliceFrom_append]
    rw [slicesFrom, hpart, ok_bind, splitFrom, List.reverse_reverse]
    rfl
  | cons c rest ih =>
    -- a bare comma ends the part and starts an empty one; all else goes on with the part
    by_cases hbare : c = ',' ∧ depth = 0
    · obtain ⟨rfl, rfl⟩ := hbare
      have hpart : slice text start offset = .ok part := by
        rw [htext, hoffset, hstart, slice_append]
      have hfront : text = front ++ (part ++ [',']) ++ ([] ++ rest) := by
        rw [htext, List.append_assoc, List.append_assoc, List.singleton_append, List.nil_append]
      have hnext : offset + 1 = byteLength (front ++ (part ++ [','])) := by
        rw [hoffset, hstart, byteLength_append, byteLength_append, ← Nat.add_assoc]
        rfl
      have hparts : slicesFrom text 0 (offset + 1) (offset + 1) rest = .ok (splitFrom 0 [] rest) :=
        ih _ [] hfront hnext rfl 0
      have hsplit : splitFrom 0 part.reverse (',' :: rest) = part :: splitFrom 0 [] rest :=
        congrArg (· :: splitFrom 0 [] rest) part.reverse_reverse
      rw [slicesFrom_comma, hpart, ok_bind, hparts, ok_bind, hsplit]
      rfl
    · have hnot : c = ',' → depth ≠ 0 := fun hc hdepth ↦ hbare ⟨hc, hdepth⟩
      have hfront : text = front ++ (part ++ [c] ++ rest) := by
        rw [htext, List.append_assoc part, List.singleton_append]
      have hnext : offset + c.utf8Size = start + byteLength (part ++ [c]) := by
        rw [hoffset, byteLength_append, Nat.add_assoc]
        rfl
      rw [slicesFrom_cons hnot, splitFrom_cons hnot, ih front _ hfront hstart hnext,
        List.reverse_append]
      rfl

theorem topLevelSlices_eq (parameters : List Char) :
    topLevelSlices parameters = .ok (splitTopLevel parameters) :=
  slicesFrom_eq [] [] rfl rfl rfl 0

/-- **Lists are read and split safely.** At every offset of a text, so at the length of every front,
the search for a list cuts only at offsets and closes nothing at depth zero, and what it finds is
there: no list exactly if the first character that is not blank opens none, and else the list up to
the first parenthesis that closes it, or all of the text. The text of a list is split as safely;
joined by commas the parts are the text again, and none of them has a bare comma. -/
theorem parameterListAt_and_topLevelSlices_safe :
    (∀ front rest, ∃ list stop,
      parameterListAt (front ++ rest) (byteLength front) = .ok (list, stop) ∧
        IsReadAt front rest list stop) ∧
      ∀ parameters, topLevelSlices parameters = .ok (splitTopLevel parameters) ∧
        IsSplit (splitTopLevel parameters) parameters :=
  ⟨exists_isReadAt,
    fun parameters ↦ ⟨topLevelSlices_eq parameters, isSplit_splitTopLevel parameters⟩⟩

end Lineage.Source
