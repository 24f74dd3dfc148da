import Lineage.Json.Reader
import Lineage.Proofs.Json.Token

/-!
# What is written is read back

A value whose numbers are integers is read back from its text, in either layout. The printer appends
to the text that is there, and the reader goes on from the state that it has reached. So both are
followed side by side: a text *leads to* a state if the reader is there after it, whatever comes
next, and it *ends at* a state if that is so unless a number goes on. Where a text leads to a state
that waits for a value, the text with a value written behind it ends at the state in which the value
is handed to what is around it (`IsWritten`). This is an induction on the value; items and members
are inductions on their lists within it.
-/

namespace Lineage.Json

/-- Whether a layout sets the parts of a container apart by blanks. -/
structure Layout.IsBlank (layout : Layout) : Prop where
  newline (depth : Nat) : ∀ c ∈ (layout.newline depth).toList, isSpace c = true
  colon : ∃ blanks : String, (∀ c ∈ blanks.toList, isSpace c = true) ∧ layout.colon = ":" ++ blanks

theorem Layout.isBlank_compact : Layout.compact.IsBlank where
  newline _ _ hc := absurd hc (by simp [compact])
  colon := ⟨"", by simp, rfl⟩

theorem toList_pushn (s : String) (c : Char) (n : Nat) :
    (s.pushn c n).toList = s.toList ++ List.replicate n c := by
  rw [String.pushn_eq_repeat_push]
  induction n with
  | zero => exact (List.append_nil _).symm
  | succ n ih =>
    rw [Nat.repeat, String.toList_push, ih, List.replicate_succ', List.append_assoc]

theorem Layout.isBlank_indented : Layout.indented.IsBlank where
  newline depth c hc := by
    rw [indented, toList_pushn, List.mem_append, List.mem_replicate] at hc
    rcases hc with hc | ⟨-, rfl⟩
    · rw [List.mem_singleton.mp hc]
      decide
    · decide
  colon := ⟨" ", by simp [isSpace], rfl⟩

/-! ## States of the reader -/

variable {text s : String} {state state' : Reading} {around : List Open} {t : Token}
  {layout : Layout} {depth : Nat}

/-- Whether the reader, after a text, is at a state, whatever comes next. -/
def LeadsTo (text : String) (state : Reading) : Prop :=
  ∀ rest, (Reading.needValue []).run (tokens (text.toList ++ rest)) = state.run (tokens rest)

/-- Whether the reader, after a text, is at a state, unless what comes next goes on with a
number. -/
def EndsAt (text : String) (state : Reading) : Prop :=
  ∀ rest, (∀ c ∈ rest.head?, isNumeral c = false) →
    (Reading.needValue []).run (tokens (text.toList ++ rest)) = state.run (tokens rest)

/-- Whether a state takes a value, in a container that is open. -/
def Reading.Awaits (state : Reading) (around : List Open) : Prop :=
  ∀ t, t ≠ .closeArr → state.step t = start around t

theorem Reading.run_cons_of_step (h : state.step t = some state') (ts : List Token) :
    state.run (t :: ts) = state'.run ts := by
  rw [run, List.foldlM_cons, h]
  rfl

theorem LeadsTo.endsAt (h : LeadsTo text state) : EndsAt text state := fun rest _ ↦ h rest

theorem LeadsTo.append (h : LeadsTo text state)
    (htokens : ∀ rest, tokens (s.toList ++ rest) = t :: tokens rest)
    (hstep : state.step t = some state') : LeadsTo (text ++ s) state' := by
  intro rest
  rw [String.toList_append, List.append_assoc, h, htokens, Reading.run_cons_of_step hstep]

/-- A token that does not go on with a number is taken at the state that a text ends at. -/
theorem EndsAt.append {c : Char} {lexeme : List Char} (h : EndsAt text state)
    (hs : s.toList = c :: lexeme) (hc : isNumeral c = false)
    (htokens : ∀ rest, tokens (s.toList ++ rest) = t :: tokens rest)
    (hstep : state.step t = some state') : LeadsTo (text ++ s) state' := by
  intro rest
  have hhead : ∀ d ∈ (s.toList ++ rest).head?, isNumeral d = false := by
    rw [hs]
    rintro d ⟨⟩
    exact hc
  rw [String.toList_append, List.append_assoc, h _ hhead, htokens, Reading.run_cons_of_step hstep]

theorem LeadsTo.append_blanks (h : LeadsTo text state) (hs : ∀ c ∈ s.toList, isSpace c = true) :
    LeadsTo (text ++ s) state := by
  intro rest
  rw [String.toList_append, List.append_assoc, h, tokens_append_of_isSpace hs]

theorem EndsAt.append_blanks (h : EndsAt text state) (hs : ∀ c ∈ s.toList, isSpace c = true) :
    EndsAt (text ++ s) state := by
  intro rest hrest
  have hhead : ∀ c ∈ (s.toList ++ rest).head?, isNumeral c = false := by
    cases hblanks : s.toList with
    | nil => exact hrest
    | cons c blanks =>
      rintro d ⟨⟩
      rw [← Bool.not_eq_true]
      intro hc
      rw [hblanks] at hs
      exact Bool.false_ne_true ((isSpace_of_isNumeral hc).symm.trans (hs c List.mem_cons_self))
  rw [String.toList_append, List.append_assoc, h _ hhead, tokens_append_of_isSpace hs]

theorem EndsAt.mark {c : Char} (h : EndsAt text state) (hs : s.toList = [c])
    (hc : isNumeral c = false ∧ isSpace c = false) (htoken : ∀ rest, tokenAt (c :: rest) = (t, 1))
    (hstep : state.step t = some state') : LeadsTo (text ++ s) state' := by
  have htokens : ∀ rest, tokens (c :: ([] ++ rest)) = t :: tokens rest :=
    fun rest ↦ tokens_append_of_tokenAt hc.2 (htoken rest)
  exact h.append hs hc.1 (fun rest ↦ hs ▸ htokens rest) hstep

/-! ## Values -/

/-- Whether the text of a value, behind a text that leads to where a value is awaited, ends at where
the value is handed on. -/
def IsWritten (layout : Layout) (value : Json) : Prop :=
  ∀ {text state around} (depth : Nat), LeadsTo text state → state.Awaits around →
    EndsAt (writeTo layout depth text value) (Reading.deliver value around)

theorem endsAt_writeItemsTo (hlayout : layout.IsBlank) {items : List Json}
    (hitems : ∀ item ∈ items, IsWritten layout item) {found : List Json}
    (h : EndsAt text (.afterItem found around)) :
    EndsAt (writeItemsTo layout depth text items)
      (.afterItem (items.reverse ++ found) around) := by
  induction items generalizing text found with
  | nil => exact h
  | cons item items ih =>
    rw [List.forall_mem_cons] at hitems
    have hcomma : LeadsTo (text ++ "," ++ layout.newline depth)
        (.needValue (.arr found :: around)) :=
      (h.mark rfl (by decide) (fun _ ↦ rfl) rfl).append_blanks (hlayout.newline depth)
    have hitem := hitems.1 depth hcomma fun _ _ ↦ rfl
    rw [writeItemsTo, List.reverse_cons, List.append_assoc, List.singleton_append]
    exact ih hitems.2 hitem

theorem leadsTo_name (hlayout : layout.IsBlank) (name : String) {members : Members}
    (h : LeadsTo text state)
    (hstep : state.step (.string (some name)) = some (.needColon members (some name) around)) :
    LeadsTo (text ++ quote name ++ layout.colon)
      (.needValue (.obj members (some name) :: around)) := by
  obtain ⟨blanks, hblanks, hcolon⟩ := hlayout.colon
  rw [hcolon, ← String.append_assoc]
  exact ((h.append (tokens_quote name) hstep).endsAt.mark rfl (by decide) (fun _ ↦ rfl)
    rfl).append_blanks hblanks

theorem endsAt_writeMembersTo (hlayout : layout.IsBlank) {members : List (String × Json)}
    (hmembers : ∀ p ∈ members, IsWritten layout p.2) {found : List (String × Json)}
    (h : EndsAt text (.afterMember (some found) around)) :
    EndsAt (writeMembersTo layout depth text members)
      (.afterMember (some (members.reverse ++ found)) around) := by
  induction members generalizing text found with
  | nil => exact h
  | cons p members ih =>
    obtain ⟨name, value⟩ := p
    rw [List.forall_mem_cons] at hmembers
    have hcomma : LeadsTo (text ++ "," ++ layout.newline depth)
        (.needName (some found) around) :=
      (h.mark rfl (by decide) (fun _ ↦ rfl) rfl).append_blanks (hlayout.newline depth)
    have hvalue := hmembers.1 depth (leadsTo_name hlayout name hcomma rfl) fun _ _ ↦ rfl
    rw [writeMembersTo, List.reverse_cons, List.append_assoc, List.singleton_append]
    exact ih hmembers.2 hvalue

theorem isWritten_literal {value : Json} {s : String} {c : Char} {name : List Char}
    (hs : s.toList = c :: name) (hc : isNumeral c = false ∧ isSpace c = false)
    (htoken : ∀ rest, tokenAt (c :: (name ++ rest)) = (.literal value, name.length + 1))
    (hwrite : ∀ depth text, writeTo layout depth text value = text ++ s) :
    IsWritten layout value := by
  intro text state around depth h hstate
  have htokens : ∀ rest, tokens (s.toList ++ rest) = .literal value :: tokens rest :=
    fun rest ↦ hs ▸ tokens_append_of_tokenAt hc.2 (htoken rest)
  rw [hwrite]
  exact (h.append htokens (hstate (.literal value) nofun)).endsAt

theorem isWritten_int {n : Int} (hn : IsInt64 n) : IsWritten layout (.int n) := by
  intro text state around depth h hstate rest hrest
  have hstep : state.step (.literal (.int n)) = some (.deliver (.int n) around) := hstate _ nofun
  rw [writeTo, String.toList_append, List.append_assoc, h, tokens_int hn hrest,
    Reading.run_cons_of_step hstep]

theorem isWritten_arr (hlayout : layout.IsBlank) {items : List Json}
    (hitems : ∀ item ∈ items, IsWritten layout item) : IsWritten layout (.arr items) := by
  intro text state around depth h hstate
  have hopen : LeadsTo (text ++ "[") (.firstItem around) :=
    h.endsAt.mark rfl (by decide) (fun _ ↦ rfl) (hstate .openArr nofun)
  cases items with
  | nil =>
    have hclose : LeadsTo (text ++ "[" ++ "]") (.deliver (.arr []) around) :=
      hopen.endsAt.mark rfl (by decide) (fun _ ↦ rfl) rfl
    rw [String.append_assoc] at hclose
    exact hclose.endsAt
  | cons item items =>
    rw [List.forall_mem_cons] at hitems
    have hfirst : (Reading.firstItem around).Awaits (.arr [] :: around) := by
      intro t ht
      cases t <;> first | rfl | exact absurd rfl ht
    have hitem := hitems.1 (depth + 1) (hopen.append_blanks (hlayout.newline (depth + 1))) hfirst
    -- the items are on the stack in reverse, and the bracket turns them round
    have hrest : EndsAt (writeItemsTo layout (depth + 1) _ items)
        (.afterItem (items.reverse ++ [item]) around) :=
      endsAt_writeItemsTo hlayout hitems.2 hitem
    have hclose : Reading.step (.afterItem (items.reverse ++ [item]) around) .closeArr =
        some (.deliver (.arr (item :: items)) around) := by
      rw [Reading.step, List.reverse_append, List.reverse_reverse, List.reverse_singleton,
        List.singleton_append]
    rw [writeTo]
    exact ((hrest.append_blanks (hlayout.newline depth)).mark rfl (by decide) (fun _ ↦ rfl)
      hclose).endsAt

theorem isWritten_obj (hlayout : layout.IsBlank) {members : List (String × Json)}
    (hmembers : ∀ p ∈ members, IsWritten layout p.2) : IsWritten layout (.obj members) := by
  intro text state around depth h hstate
  have hopen : LeadsTo (text ++ "\x7b") (.firstName around) :=
    h.endsAt.mark rfl (by decide) (fun _ ↦ rfl) (hstate .openObj nofun)
  cases members with
  | nil =>
    have hclose : LeadsTo (text ++ "\x7b" ++ "\x7d") (.deliver (.obj []) around) :=
      hopen.endsAt.mark rfl (by decide) (fun _ ↦ rfl) rfl
    rw [String.append_assoc] at hclose
    exact hclose.endsAt
  | cons p members =>
    obtain ⟨name, value⟩ := p
    rw [List.forall_mem_cons] at hmembers
    have hname := leadsTo_name hlayout name (hopen.append_blanks (hlayout.newline (depth + 1))) rfl
    have hvalue := hmembers.1 (depth + 1) hname fun _ _ ↦ rfl
    -- the members are on the stack in reverse, and the brace turns them round
    have hrest : EndsAt (writeMembersTo layout (depth + 1) _ members)
        (.afterMember (some (members.reverse ++ [(name, value)])) around) :=
      endsAt_writeMembersTo hlayout hmembers.2 hvalue
    have hclose : Reading.step (.afterMember (some (members.reverse ++ [(name, value)])) around)
        .closeObj = some (.deliver (.obj ((name, value) :: members)) around) := by
      rw [Reading.step, Members.toJson, Option.map_some, Option.getD_some, List.reverse_append,
        List.reverse_reverse, List.reverse_singleton, List.singleton_append]
    rw [writeTo]
    exact ((hrest.append_blanks (hlayout.newline depth)).mark rfl (by decide) (fun _ ↦ rfl)
      hclose).endsAt

/-- Every value of integers and texts is read back where one is awaited. -/
theorem IsIntegral.isWritten (hlayout : layout.IsBlank) {value : Json} (h : IsIntegral value) :
    IsWritten layout value := by
  induction h with
  | null => exact isWritten_literal (s := "null") rfl (by decide) (fun _ ↦ rfl) fun _ _ ↦ rfl
  | bool value =>
    cases value with
    | true => exact isWritten_literal (s := "true") rfl (by decide) (fun _ ↦ rfl) fun _ _ ↦ rfl
    | false => exact isWritten_literal (s := "false") rfl (by decide) (fun _ ↦ rfl) fun _ _ ↦ rfl
  | int h => exact isWritten_int h
  | str s =>
    intro text state around depth h hstate
    exact (h.append (tokens_quote s) (hstate _ nofun)).endsAt
  | arr _ ih => exact isWritten_arr hlayout ih
  | obj _ ih => exact isWritten_obj hlayout ih

/-- **What is written is read back.** A value that holds only texts and integers of 64 bits is what
its text denotes, in each layout that sets its parts apart by blanks. -/
theorem IsIntegral.parse_writeTo (hlayout : layout.IsBlank) {value : Json} (h : IsIntegral value) :
    parse (writeTo layout 0 "" value) = some value := by
  have hempty : LeadsTo "" (.needValue []) := fun rest ↦ rfl
  have hend := h.isWritten hlayout 0 hempty (fun _ _ ↦ rfl) [] nofun
  rw [List.append_nil] at hend
  rw [parse, hend]
  rfl

theorem IsIntegral.parse_pretty {value : Json} (h : IsIntegral value) :
    parse value.pretty = some value := h.parse_writeTo Layout.isBlank_indented

theorem IsIntegral.parse_compact {value : Json} (h : IsIntegral value) :
    parse value.compact = some value := h.parse_writeTo Layout.isBlank_compact

end Lineage.Json
