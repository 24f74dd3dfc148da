/-!
# Breadth-first search

The search keeps not places but the chains by which they were reached, the latest place of a chain
first. A layer is the chains of one length, and the next layer is made by extending them, in order,
to places not reached before; the first chain to reach a place keeps it. So every place that can be
reached ends exactly one chain, which is as short as any and comes first among those as short.
-/

namespace Lineage.BreadthFirst

variable {κ : Type} [BEq κ]

/-- Chains one place longer: every chain with every place next to its end. -/
def extensions (next : κ → List κ) (chains : List (List κ)) : List (κ × List κ) :=
  chains.flatMap fun chain =>
    match chain with
    | [] => []
    | last :: _ => (next last).map (·, chain)

/-- Keeps, of chains with a further place each, the first to each pending place. The result is the
longer chains and the places still pending. -/
def settle (pending : List κ) : List (κ × List κ) → List (List κ) × List κ
  | [] => ([], pending)
  | (place, chain) :: rest =>
    if pending.contains place then
      let r := settle (pending.filter (· != place)) rest
      ((place :: chain) :: r.1, r.2)
    else settle pending rest

theorem length_settle_le [LawfulBEq κ] (pending : List κ) (candidates : List (κ × List κ)) :
    (settle pending candidates).1.length + (settle pending candidates).2.length
      ≤ pending.length := by
  induction candidates generalizing pending with
  | nil => simp [settle]
  | cons candidate rest ih =>
    obtain ⟨place, chain⟩ := candidate
    simp only [settle]
    split
    · rename_i h
      have hlt : (pending.filter (· != place)).length < pending.length :=
        List.length_filter_lt_length_iff_exists.2 ⟨place, List.contains_iff_mem.1 h, by simp⟩
      have := ih (pending.filter (· != place))
      simp only [List.length_cons]
      omega
    · exact ih pending

/-- The layers of chains from a layer on. -/
def layersFrom [LawfulBEq κ] (next : κ → List κ) (pending : List κ) (layer : List (List κ)) :
    List (List (List κ)) :=
  if layer = [] then []
  else
    let settled := settle pending (extensions next layer)
    layer :: layersFrom next settled.2 settled.1
termination_by (pending.length, layer.length)
decreasing_by
  rename_i h
  have hlayer : 0 < layer.length := List.length_pos_iff.2 h
  have hsettle := length_settle_le pending (extensions next layer)
  rcases Nat.eq_zero_or_pos (settle pending (extensions next layer)).1.length with hc | hc
  · rcases Nat.lt_or_ge (settle pending (extensions next layer)).2.length pending.length
      with hlt | hge
    · exact Prod.Lex.left _ _ hlt
    · rw [show (settle pending (extensions next layer)).2.length = pending.length by omega, hc]
      exact Prod.Lex.right _ hlayer
  · exact Prod.Lex.left _ _ (by omega)

/-- The layers of chains from a place to all others among `places` that can be reached. -/
def layers [LawfulBEq κ] (next : κ → List κ) (places : List κ) (start : κ) :
    List (List (List κ)) :=
  layersFrom next (places.filter (· != start)) [[start]]

/-- The first shortest chain from a place to another, first place first. -/
def path? [LawfulBEq κ] (next : κ → List κ) (places : List κ) (start stop : κ) :
    Option (List κ) :=
  ((layers next places start).flatten.find? (·.head?.any (· == stop))).map List.reverse

/-- The places that take at most `steps` steps to reach, the start included. -/
def within [LawfulBEq κ] (next : κ → List κ) (places : List κ) (start : κ) (steps : Nat) :
    List κ :=
  ((layers next places start).take (steps + 1)).flatten.filterMap List.head?

/-- The places that can be reached, the start included. -/
def reached [LawfulBEq κ] (next : κ → List κ) (places : List κ) (start : κ) : List κ :=
  (layers next places start).flatten.filterMap List.head?

end Lineage.BreadthFirst
