import Lineage.Proofs.Lists
import Lineage.Proofs.Traversal.DepthFirst
import Lineage.Proofs.Traversal.Tree
import Mathlib.Data.List.Perm.Subperm

/-!
# Depth-first search as a loop

A search that recursed on its edges would need a call stack as deep as the longest way down. It is
therefore to be carried out by a loop over frames: a frame is opened for a place when an edge leads
to it for the first time, holds those of its edges that are still to be scanned, and is closed when
none is left. What the loop finds, and how long it takes, are two questions with separate answers.

## How long it takes

One round either scans an edge or closes a frame. So the rounds, and with them the frames that are
still open, are counted by the edges scanned and the frames opened (`IsBalanced`). A frame is opened
for a place that was not visited before, and only its opening puts the edges of the place among
those to be scanned, so neither a place nor an edge comes up twice. All that is a law of a single
round, `IsBalanced.step`, and holds of whole runs by induction on their length.

## What it finds

The loop finds the forest of the search (`exists_takes`). The two keep their books differently. The
search knows which places are pending and passes over those without edges, while the loop knows
which are visited and opens a frame for every other, if only to close it in the next round.
-/

namespace Lineage.DepthFirst

variable {κ ε : Type}

theorem exists_new_or_forall_visited (target : Option κ) (visited : List κ) :
    (∃ k, target = some k ∧ k ∉ visited) ∨ ∀ k, target = some k → k ∈ visited := by
  rw [or_iff_not_imp_left]
  intro h k hk
  by_contra hvisited
  exact h ⟨k, hk, hvisited⟩

/-! ## The loop -/

/-- A place whose edges are being scanned. -/
structure Frame (ε : Type) where
  /-- The edge that led to the place; none where the search started. -/
  opener : Option ε
  /-- What stands below the edges that were scanned. -/
  below : List (Tree ε)
  /-- The edges that are still to be scanned. -/
  left : List ε

/-- What a frame leaves behind when it is closed: its edge and what stands below it. -/
def Frame.trees (f : Frame ε) : List (Tree ε) :=
  match f.opener with
  | some e => [.node e f.below]
  | none => f.below

/-- The state of the loop between two rounds. -/
structure Walk (κ ε : Type) where
  /-- The open frames, the innermost first. -/
  frames : List (Frame ε)
  /-- The places that a frame was opened for, the latest first. -/
  visited : List κ
  /-- The edges that were scanned, each with the edges on the way down to it, the nearest first. -/
  scanned : List (List ε × ε)
  /-- What the last frames to be closed left behind. -/
  finished : List (Tree ε)

namespace Walk

/-- The state before the first frame is opened. -/
def idle : Walk κ ε := ⟨[], [], [], []⟩

/-- The edges on the way down to the innermost frame, the nearest first. -/
def way (frames : List (Frame ε)) : List ε := frames.filterMap (·.opener)

/-- Opens a frame for a place. -/
def enter (next : κ → List ε) (s : Walk κ ε) (opener : Option ε) (k : κ) : Walk κ ε :=
  { s with frames := ⟨opener, [], next k⟩ :: s.frames, visited := k :: s.visited }

/-- Hands trees to the innermost frame, or to the caller when no frame is open. -/
def deliver (s : Walk κ ε) (trees : List (Tree ε)) : Walk κ ε :=
  match s.frames with
  | [] => { s with finished := s.finished ++ trees }
  | f :: outer => { s with frames := { f with below := f.below ++ trees } :: outer }

variable [BEq κ]

/-- One round, if a frame is open: scans the next edge of the innermost frame, or closes the frame
if it has no more. An edge to a place that was not visited opens a frame for it. -/
def step (next : κ → List ε) (follow : ε → Option κ) (s : Walk κ ε) : Option (Walk κ ε) :=
  match s.frames with
  | [] => none
  | ⟨opener, below, []⟩ :: outer =>
    some (deliver { s with frames := outer } (Frame.trees ⟨opener, below, []⟩))
  | ⟨opener, below, e :: left⟩ :: outer =>
    let s' := { s with
      frames := ⟨opener, below, left⟩ :: outer
      scanned := s.scanned ++ [(way s.frames, e)] }
    match (follow e).filter (!s.visited.contains ·) with
    | some k => some (s'.enter next (some e) k)
    | none => some (s'.deliver [.node e []])

/-- Whether a number of rounds leads from one state to another. -/
inductive Takes (next : κ → List ε) (follow : ε → Option κ) : Nat → Walk κ ε → Walk κ ε → Prop
  | refl (s : Walk κ ε) : Takes next follow 0 s s
  | head {n : Nat} {s s' t : Walk κ ε} (hstep : s.step next follow = some s')
      (h : Takes next follow n s' t) : Takes next follow (n + 1) s t

/-- Whether visits to places in turn, those visited already left out, lead from one state to another
in a number of rounds altogether. -/
inductive Sweeps (next : κ → List ε) (follow : ε → Option κ) (opener : κ → Option ε) :
    Nat → List κ → Walk κ ε → Walk κ ε → Prop
  | nil (s : Walk κ ε) : Sweeps next follow opener 0 [] s s
  | skip {n : Nat} {k : κ} {ks : List κ} {s t : Walk κ ε} (hvisited : k ∈ s.visited)
      (h : Sweeps next follow opener n ks s t) : Sweeps next follow opener n (k :: ks) s t
  | visit {m n : Nat} {k : κ} {ks : List κ} {s s' t : Walk κ ε} (hvisited : k ∉ s.visited)
      (hrun : Takes next follow m (s.enter next (opener k) k) s') (hstopped : s'.frames = [])
      (h : Sweeps next follow opener n ks s' t) : Sweeps next follow opener (m + n) (k :: ks) s t

variable {next : κ → List ε} {follow : ε → Option κ} {m n : Nat} {s s' t : Walk κ ε}

theorem Takes.trans (h : Takes next follow m s s') (h' : Takes next follow n s' t) :
    Takes next follow (m + n) s t := by
  induction h with
  | refl => rwa [Nat.zero_add]
  | head hstep _ ih =>
    rw [Nat.add_right_comm]
    exact .head hstep (ih h')

/-! ## Rounds -/

variable {opener : Option ε} {below : List (Tree ε)} {left : List ε} {outer : List (Frame ε)}
  {visited : List κ} {scanned : List (List ε × ε)} {finished : List (Tree ε)} {e : ε} {k : κ}

omit [BEq κ] in
theorem way_cons : way (⟨opener, below, left⟩ :: outer) = opener.toList ++ way outer := by
  cases opener <;> rfl

omit [BEq κ] in
@[simp] theorem visited_deliver (s : Walk κ ε) (trees : List (Tree ε)) :
    (s.deliver trees).visited = s.visited := by
  rw [deliver]
  split <;> rfl

omit [BEq κ] in
@[simp] theorem scanned_deliver (s : Walk κ ε) (trees : List (Tree ε)) :
    (s.deliver trees).scanned = s.scanned := by
  rw [deliver]
  split <;> rfl

omit [BEq κ] in
@[simp] theorem length_frames_deliver (s : Walk κ ε) (trees : List (Tree ε)) :
    (s.deliver trees).frames.length = s.frames.length := by
  rw [deliver]
  split
  · rfl
  · rename_i hframes
    rw [hframes, List.length_cons, List.length_cons]

omit [BEq κ] in
@[simp] theorem flatMap_left_deliver (s : Walk κ ε) (trees : List (Tree ε)) :
    (s.deliver trees).frames.flatMap (·.left) = s.frames.flatMap (·.left) := by
  rw [deliver]
  split
  · rfl
  · rename_i hframes
    rw [hframes, List.flatMap_cons, List.flatMap_cons]

theorem step_close : step next follow ⟨⟨opener, below, []⟩ :: outer, visited, scanned, finished⟩ =
    some (deliver ⟨outer, visited, scanned, finished⟩ (Frame.trees ⟨opener, below, []⟩)) := rfl

theorem step_enter [LawfulBEq κ] (hfollow : follow e = some k) (hvisited : k ∉ visited) :
    step next follow ⟨⟨opener, below, e :: left⟩ :: outer, visited, scanned, finished⟩ =
      some ⟨⟨some e, [], next k⟩ :: ⟨opener, below, left⟩ :: outer, k :: visited,
        scanned ++ [(way (⟨opener, below, e :: left⟩ :: outer), e)], finished⟩ := by
  have hnew : (follow e).filter (!visited.contains ·) = some k := by
    rw [hfollow, Option.filter_eq_some_iff]
    exact ⟨rfl, by simpa using hvisited⟩
  simp only [step, hnew, enter]

theorem step_pass [LawfulBEq κ] (hfollow : ∀ k, follow e = some k → k ∈ visited) :
    step next follow ⟨⟨opener, below, e :: left⟩ :: outer, visited, scanned, finished⟩ =
      some ⟨⟨opener, below ++ [.node e []], left⟩ :: outer, visited,
        scanned ++ [(way (⟨opener, below, e :: left⟩ :: outer), e)], finished⟩ := by
  have hold : (follow e).filter (!visited.contains ·) = none := by
    rw [Option.filter_eq_none_iff]
    exact fun k hk ↦ by simpa using hfollow k hk
  simp only [step, hold, deliver]

/-- All that one round can do. -/
theorem step_cases [LawfulBEq κ] (h : s.step next follow = some s') :
    (∃ f outer, f.left = [] ∧ s.frames = f :: outer ∧
      s' = deliver { s with frames := outer } f.trees) ∨
    (∃ f outer e left, f.left = e :: left ∧ s.frames = f :: outer ∧
      ((∃ k, k ∉ s.visited ∧ follow e = some k ∧
        s' = enter next { s with
          frames := { f with left } :: outer
          scanned := s.scanned ++ [(way s.frames, e)] } (some e) k) ∨
       s' = deliver { s with
          frames := { f with left } :: outer
          scanned := s.scanned ++ [(way s.frames, e)] } [.node e []])) := by
  obtain ⟨frames, visited, scanned, finished⟩ := s
  cases frames with
  | nil => exact absurd h (by simp [step])
  | cons f outer =>
    obtain ⟨opener, below, left⟩ := f
    cases left with
    | nil =>
      rw [step_close, Option.some_inj] at h
      exact Or.inl ⟨_, outer, rfl, rfl, h.symm⟩
    | cons e left =>
      refine Or.inr ⟨_, outer, e, left, rfl, rfl, ?_⟩
      rcases exists_new_or_forall_visited (follow e) visited with
        ⟨k, hfollow, hvisited⟩ | hold
      · rw [step_enter hfollow hvisited, Option.some_inj] at h
        exact Or.inl ⟨k, hvisited, hfollow, h.symm⟩
      · rw [step_pass hold, Option.some_inj] at h
        exact Or.inr h.symm

/-! ## The balance -/

/-- The books of a loop after `n` rounds in which frames were opened from outside for `starts`
places. Every place was visited once, its edges are those scanned and those still to be scanned, and
a round scanned an edge or closed a frame. -/
structure IsBalanced (next : κ → List ε) (starts n : Nat) (s : Walk κ ε) : Prop where
  nodup : s.visited.Nodup
  edges_perm : (s.scanned.map (·.2) ++ s.frames.flatMap (·.left)).Perm (s.visited.flatMap next)
  rounds : n + s.frames.length = s.scanned.length + s.visited.length
  length_visited_le : s.visited.length ≤ s.scanned.length + starts

namespace IsBalanced

variable {starts : Nat}

omit [BEq κ] in
theorem idle : IsBalanced next 0 0 (Walk.idle : Walk κ ε) where
  nodup := List.nodup_nil
  edges_perm := .refl _
  rounds := rfl
  length_visited_le := Nat.le_refl _

omit [BEq κ] in
theorem enter (h : IsBalanced next starts n s) (opener : Option ε) (hvisited : k ∉ s.visited) :
    IsBalanced next (starts + 1) n (s.enter next opener k) where
  nodup := List.nodup_cons.mpr ⟨hvisited, h.nodup⟩
  edges_perm := by
    simp only [Walk.enter, List.flatMap_cons]
    exact (List.perm_append_comm_assoc _ _ _).trans (h.edges_perm.append_left (next k))
  rounds := by
    have := h.rounds
    simp only [Walk.enter, List.length_cons]
    omega
  length_visited_le := by
    have := h.length_visited_le
    simp only [Walk.enter, List.length_cons]
    omega

/-- A round keeps the books balanced. -/
theorem step [LawfulBEq κ] (h : IsBalanced next starts n s)
    (hstep : s.step next follow = some s') : IsBalanced next starts (n + 1) s' := by
  obtain ⟨frames, visited, scanned, finished⟩ := s
  obtain ⟨hnodup, hedges, hrounds, hvisited_le⟩ := h
  rcases step_cases hstep with ⟨f, outer, hnil, hframes, rfl⟩ |
    ⟨f, outer, e, left, hcons, hframes, ⟨k, hnew, -, rfl⟩ | rfl⟩
  all_goals
    obtain rfl : frames = f :: outer := hframes
    simp only [List.flatMap_cons, List.length_cons] at hedges hrounds hvisited_le
  · -- a frame is closed
    rw [hnil, List.nil_append] at hedges
    refine ⟨by rwa [visited_deliver], ?_, ?_, ?_⟩
    · rwa [scanned_deliver, visited_deliver, flatMap_left_deliver]
    · simp only [scanned_deliver, visited_deliver, length_frames_deliver]
      omega
    · rwa [visited_deliver, scanned_deliver]
  · -- an edge is scanned and its place entered
    rw [hcons] at hedges
    refine ⟨List.nodup_cons.mpr ⟨hnew, hnodup⟩, ?_, ?_, ?_⟩
    · simp only [Walk.enter, List.map_append, List.map_cons, List.map_nil, List.flatMap_cons,
        List.append_assoc]
      have hmoved := (List.perm_append_comm_assoc [e] (next k) (left ++ outer.flatMap (·.left)))
      exact (hmoved.append_left _).trans
        ((List.perm_append_comm_assoc _ _ _).trans (hedges.append_left (next k)))
    · simp only [Walk.enter, List.length_cons, List.length_append, List.length_nil]
      omega
    · simp only [Walk.enter, List.length_cons, List.length_append, List.length_nil]
      omega
  · -- an edge is scanned and passed
    rw [hcons] at hedges
    refine ⟨by rwa [visited_deliver], ?_, ?_, ?_⟩
    · simp only [scanned_deliver, visited_deliver, flatMap_left_deliver, List.map_append,
        List.map_cons, List.map_nil, List.append_assoc]
      exact hedges
    · simp only [scanned_deliver, visited_deliver, length_frames_deliver, List.length_cons,
        List.length_append, List.length_nil]
      omega
    · simp only [scanned_deliver, visited_deliver, List.length_append, List.length_cons,
        List.length_nil]
      omega

theorem takes [LawfulBEq κ] (h : IsBalanced next starts m s) (hrun : Takes next follow n s t) :
    IsBalanced next starts (m + n) t := by
  induction hrun generalizing m with
  | refl => exact h
  | @head n s s' t hstep _ ih =>
    have hsum : m + (n + 1) = m + 1 + n := by omega
    exact hsum ▸ ih (h.step hstep)

omit [BEq κ] in
theorem mono {more : Nat} (h : IsBalanced next starts n s) (hle : starts ≤ more) :
    IsBalanced next more n s where
  nodup := h.nodup
  edges_perm := h.edges_perm
  rounds := h.rounds
  length_visited_le := h.length_visited_le.trans (Nat.add_le_add_left hle _)

theorem sweeps [LawfulBEq κ] {opener : κ → Option ε} {ks : List κ}
    (h : IsBalanced next starts m s) (hrun : Sweeps next follow opener n ks s t) :
    IsBalanced next (starts + ks.length) (m + n) t := by
  induction hrun generalizing starts m with
  | nil => exact h
  | skip _ _ ih => exact (ih h).mono (by rw [List.length_cons]; omega)
  | @visit m' n k ks s s' t hvisited hrun _ _ ih =>
    have hall := ih ((h.enter _ hvisited).takes hrun)
    rw [List.length_cons, ← Nat.add_assoc m, Nat.add_comm ks.length, ← Nat.add_assoc starts]
    exact hall

end IsBalanced

end Walk

/-! ## The forest of the loop -/

/-- A forest without the marks of what was opened. -/
def edgeTrees (forest : List (Tree (Visit ε))) : List (Tree ε) :=
  Tree.mapDepthAll (fun _ v ↦ v.edge) 0 forest

theorem mapDepthAll_edge (depth : Nat) (forest : List (Tree (Visit ε))) :
    Tree.mapDepthAll (fun _ v ↦ v.edge) depth forest = edgeTrees forest := by
  induction forest using Tree.forest_induction generalizing depth with
  | nil => rw [edgeTrees, Tree.mapDepthAll_nil, Tree.mapDepthAll_nil]
  | cons v below beside ihbelow ihbeside =>
    rw [edgeTrees, Tree.mapDepthAll_cons, Tree.mapDepthAll_cons, ihbelow, ihbelow, ihbeside,
      ihbeside]

@[simp] theorem edgeTrees_nil : edgeTrees ([] : List (Tree (Visit ε))) = [] := by
  rw [edgeTrees, Tree.mapDepthAll_nil]

@[simp] theorem edgeTrees_cons (v : Visit ε) (below beside : List (Tree (Visit ε))) :
    edgeTrees (.node v below :: beside) = .node v.edge (edgeTrees below) :: edgeTrees beside := by
  rw [edgeTrees, Tree.mapDepthAll_cons, mapDepthAll_edge, mapDepthAll_edge]

theorem mapDepthAll_edgeTrees {β : Type} (f : Nat → ε → β) (depth : Nat)
    (forest : List (Tree (Visit ε))) :
    Tree.mapDepthAll f depth (edgeTrees forest) =
      Tree.mapDepthAll (fun depth v ↦ f depth v.edge) depth forest := by
  induction forest using Tree.forest_induction generalizing depth with
  | nil => rw [edgeTrees_nil, Tree.mapDepthAll_nil, Tree.mapDepthAll_nil]
  | cons v below beside ihbelow ihbeside =>
    rw [edgeTrees_cons, Tree.mapDepthAll_cons, Tree.mapDepthAll_cons, ihbelow, ihbeside]

/-- The edges of a forest in the order of scanning, each with the edges above it. -/
def scans (above : List ε) (forest : List (Tree (Visit ε))) : List (List ε × ε) :=
  Tree.collectAll (fun above e ↦ [(above, e)]) above (edgeTrees forest)

@[simp] theorem scans_nil (above : List ε) : scans above [] = [] := by
  rw [scans, edgeTrees_nil, Tree.collectAll]

@[simp] theorem scans_cons (above : List ε) (v : Visit ε) (below beside : List (Tree (Visit ε))) :
    scans above (.node v below :: beside) =
      (above, v.edge) :: (scans (v.edge :: above) below ++ scans above beside) := by
  rw [scans, edgeTrees_cons, Tree.collectAll, Tree.collect, List.append_assoc,
    List.singleton_append, scans, scans]

theorem map_snd_scans (above : List ε) (forest : List (Tree (Visit ε))) :
    (scans above forest).map (·.2) = looked forest := by
  induction forest using Tree.forest_induction generalizing above with
  | nil => rw [scans_nil, List.map_nil, looked_nil]
  | cons v below beside ihbelow ihbeside =>
    rw [scans_cons, List.map_cons, List.map_append, ihbelow, ihbeside, looked_cons]

theorem collectAll_edgeTrees {β : Type} (f : List ε → ε → List β) (above : List ε)
    (forest : List (Tree (Visit ε))) :
    Tree.collectAll f above (edgeTrees forest) =
      (scans above forest).flatMap fun p ↦ f p.1 p.2 := by
  induction forest using Tree.forest_induction generalizing above with
  | nil => rw [edgeTrees_nil, Tree.collectAll, scans_nil, List.flatMap_nil]
  | cons v below beside ihbelow ihbeside =>
    rw [edgeTrees_cons, Tree.collectAll, Tree.collect, ihbelow, ihbeside, scans_cons,
      List.flatMap_cons, List.flatMap_append, List.append_assoc]

/-! ## The loop and the search -/

/-- Whether places pending in a search and places visited by a loop go together: nothing pending was
visited, and what is neither has no edges. -/
structure GoTogether (next : κ → List ε) (pending visited : List κ) : Prop where
  not_mem : ∀ k ∈ pending, k ∉ visited
  next_eq_nil : ∀ k, k ∉ visited → k ∉ pending → next k = []

namespace GoTogether

variable {next : κ → List ε} {pending visited : List κ} {k : κ}

theorem opened [BEq κ] [LawfulBEq κ] (h : GoTogether next pending visited) :
    GoTogether next (pending.filter (· != k)) (k :: visited) where
  not_mem j hj hmem := by
    obtain ⟨hpending, hne⟩ := List.mem_filter.mp hj
    rcases List.mem_cons.mp hmem with rfl | hvisited
    · exact absurd rfl (bne_iff_ne.mp hne)
    · exact h.not_mem j hpending hvisited
  next_eq_nil j hj hnot := by
    obtain ⟨hne, hvisited⟩ := not_or.mp (mt List.mem_cons.mpr hj)
    exact h.next_eq_nil j hvisited fun hpending ↦
      hnot (List.mem_filter.mpr ⟨hpending, bne_iff_ne.mpr hne⟩)

theorem passed (h : GoTogether next pending visited) (hpending : k ∉ pending) :
    GoTogether next pending (k :: visited) where
  not_mem j hj hmem := by
    rcases List.mem_cons.mp hmem with rfl | hvisited
    · exact hpending hj
    · exact h.not_mem j hj hvisited
  next_eq_nil j hj hnot :=
    h.next_eq_nil j (fun hvisited ↦ hj (List.mem_cons_of_mem _ hvisited)) hnot

end GoTogether

namespace Explored

variable [BEq κ] [LawfulBEq κ] {next : κ → List ε} {follow : ε → Option κ} {pending rest : List κ}
  {edges : List ε} {forest : List (Tree (Visit ε))} {visited : List κ}

open Walk

/-- **The loop carries out the search.** A frame that holds the edges of a search is worked through
until none is left, and has the forest of the search below it then. -/
theorem exists_takes (h : Explored next follow pending edges forest rest)
    (htogether : GoTogether next pending visited) (opener : Option ε) (below : List (Tree ε))
    (outer : List (Frame ε)) (scanned : List (List ε × ε)) (finished : List (Tree ε)) :
    ∃ n visited', GoTogether next rest visited' ∧
      Takes next follow n ⟨⟨opener, below, edges⟩ :: outer, visited, scanned, finished⟩
        ⟨⟨opener, below ++ edgeTrees forest, []⟩ :: outer, visited',
          scanned ++ scans (opener.toList ++ way outer) forest, finished⟩ := by
  induction h generalizing visited opener below outer scanned with
  | nil pending =>
    rw [edgeTrees_nil, scans_nil, List.append_nil, List.append_nil]
    exact ⟨0, visited, htogether, .refl _⟩
  | @opened pending left rest e edges k inside beside hfollow hpending _ _ ihbelow ihbeside =>
    -- the round that opens the frame, those in it, the one that closes it, and those beside it
    have hopen : step next follow
        ⟨⟨opener, below, e :: edges⟩ :: outer, visited, scanned, finished⟩ = _ :=
      step_enter hfollow (htogether.not_mem k hpending)
    obtain ⟨m, visited₁, htogether₁, hinside⟩ := ihbelow htogether.opened (some e) []
      (⟨opener, below, edges⟩ :: outer)
      (scanned ++ [(way (⟨opener, below, e :: edges⟩ :: outer), e)])
    obtain ⟨n, visited₂, htogether₂, hbeside⟩ :=
      ihbeside htogether₁ opener (below ++ [.node e (edgeTrees inside)]) outer _
    have hrun := Takes.head hopen (hinside.trans (.head step_close hbeside))
    rw [way_cons, way_cons, List.append_assoc, List.append_assoc, List.append_assoc] at hrun
    rw [edgeTrees_cons, scans_cons]
    exact ⟨_, visited₂, htogether₂, hrun⟩
  | @closed pending rest e edges beside hfollow hbeside ih =>
    rw [edgeTrees_cons, scans_cons, scans_nil, edgeTrees_nil, List.nil_append]
    rcases exists_new_or_forall_visited (follow e) visited with ⟨k, hk, hvisited⟩ | hold
    · -- a place without edges, whose frame is closed at once
      have hnil := htogether.next_eq_nil k hvisited (hfollow k hk)
      have hopen : step next follow
          ⟨⟨opener, below, e :: edges⟩ :: outer, visited, scanned, finished⟩ = _ :=
        step_enter hk hvisited
      rw [hnil] at hopen
      obtain ⟨n, visited', htogether', hrun⟩ :=
        ih (htogether.passed (hfollow k hk)) opener (below ++ [.node e []]) outer _
      have hall := Takes.head hopen (.head step_close hrun)
      rw [way_cons, List.append_assoc, List.append_assoc] at hall
      exact ⟨_, visited', htogether', hall⟩
    · have hpass : step next follow
          ⟨⟨opener, below, e :: edges⟩ :: outer, visited, scanned, finished⟩ = _ := step_pass hold
      obtain ⟨n, visited', htogether', hrun⟩ := ih htogether opener (below ++ [.node e []]) outer _
      have hall := Takes.head hpass hrun
      rw [way_cons, List.append_assoc, List.append_assoc] at hall
      exact ⟨_, visited', htogether', hall⟩

end Explored

/-! ## Whole runs -/

section Runs

variable [BEq κ] [LawfulBEq κ] {next : κ → List ε} {pending rest : List κ}

open Walk

/-- The bounds of a loop that has come to its end after `n` rounds, where `edges` are all edges and
frames were opened from outside for at most `starts` places. A round was taken for an edge or for a
frame, frames were opened for different places, and an edge was scanned at most as often as it is
listed. -/
structure EndsWithin (edges : List ε) (starts n : Nat) (t : Walk κ ε) : Prop where
  frames_eq_nil : t.frames = []
  rounds_le : n ≤ edges.length + t.visited.length
  nodup_visited : t.visited.Nodup
  scanned_subperm : (t.scanned.map (·.2)).Subperm edges
  length_visited_le : t.visited.length ≤ edges.length + starts

omit [BEq κ] [LawfulBEq κ] in
theorem Walk.IsBalanced.endsWithin {starts n : Nat} {t : Walk κ ε} {edges : List ε}
    (h : IsBalanced next starts n t) (hframes : t.frames = [])
    (hedges : ∀ ks : List κ, ks.Nodup → (ks.flatMap next).Subperm edges) :
    EndsWithin edges starts n t := by
  have hscanned := h.edges_perm.subperm.trans (hedges _ h.nodup)
  rw [hframes, List.flatMap_nil, List.append_nil] at hscanned
  have hlength := hscanned.length_le
  rw [List.length_map] at hlength
  have hrounds := h.rounds
  rw [hframes, List.length_nil, Nat.add_zero] at hrounds
  exact {
    frames_eq_nil := hframes
    rounds_le := hrounds.le.trans (Nat.add_le_add_right hlength _)
    nodup_visited := h.nodup
    scanned_subperm := hscanned
    length_visited_le := h.length_visited_le.trans (Nat.add_le_add_right hlength _) }

theorem Explored.exists_endsWithin {follow : ε → Option κ} {root : κ}
    {forest : List (Tree (Visit ε))}
    (h : Explored next follow pending (next root) forest rest)
    (htogether : GoTogether next pending [root]) {edges : List ε}
    (hedges : ∀ ks : List κ, ks.Nodup → (ks.flatMap next).Subperm edges) :
    ∃ n t, Takes next follow n (idle.enter next none root) t ∧ EndsWithin edges 1 n t ∧
      t.finished = edgeTrees forest ∧ t.scanned = scans [] forest := by
  obtain ⟨n, visited, -, hrun⟩ := h.exists_takes htogether none [] [] [] []
  have hall := hrun.trans (.head step_close (.refl _))
  have hbalance := (IsBalanced.idle.enter none List.not_mem_nil).takes hall
  rw [Nat.zero_add, Nat.zero_add] at hbalance
  exact ⟨_, _, hall, hbalance.endsWithin rfl hedges, rfl, rfl⟩

variable {s : Walk κ κ}

theorem Explored.exists_visit {next : κ → List κ} {root : κ} {forest : List (Tree (Visit κ))}
    (h : Explored next some pending (next root) forest rest) (hframes : s.frames = [])
    (htogether : GoTogether next pending (root :: s.visited)) :
    ∃ n t, Takes next some n (s.enter next (some root) root) t ∧ t.frames = [] ∧
      GoTogether next rest t.visited ∧ t.scanned = s.scanned ++ scans [root] forest := by
  obtain ⟨frames, visited, scanned, finished⟩ := s
  obtain rfl : frames = [] := hframes
  obtain ⟨n, visited', htogether', hrun⟩ :=
    h.exists_takes htogether (some root) [] [] scanned finished
  exact ⟨_, _, hrun.trans (.head step_close (.refl _)), rfl, htogether', rfl⟩

/-- The loops from some places in turn, which share what was visited, collect what is collected over
the forest of one search from all of them. At the places themselves there is nothing to collect. -/
theorem Explored.exists_sweeps {next : κ → List κ} {roots : List κ} {forest : List (Tree (Visit κ))}
    (h : Explored next some pending roots forest rest) (hframes : s.frames = [])
    (htogether : GoTogether next pending s.visited) {β : Type} {f : List κ → κ → List β}
    (hf : ∀ k, f [] k = []) :
    ∃ n t, Sweeps next some some n roots s t ∧ t.frames = [] ∧
      t.scanned.flatMap (fun p ↦ f p.1 p.2) =
        s.scanned.flatMap (fun p ↦ f p.1 p.2) ++ Tree.collectAll f [] (edgeTrees forest) := by
  -- one root after the other; what lies below a root is visited by the loops from it
  induction h generalizing s with
  | nil =>
    rw [edgeTrees_nil, Tree.collectAll, List.append_nil]
    exact ⟨0, s, .nil s, hframes, rfl⟩
  | opened hfollow hpending hbelow _ _ ihbeside =>
    rw [Option.some_inj] at hfollow
    subst hfollow
    obtain ⟨m, s', hrun, hstopped, htogether', hscanned⟩ :=
      hbelow.exists_visit hframes htogether.opened
    obtain ⟨n, t, hsweep, hend, hcollected⟩ := ihbeside hstopped htogether'
    refine ⟨m + n, t, .visit (htogether.not_mem _ hpending) hrun hstopped hsweep, hend, ?_⟩
    rw [hcollected, hscanned, List.flatMap_append, edgeTrees_cons, Tree.collectAll, Tree.collect,
      hf, List.nil_append, collectAll_edgeTrees f [_], List.append_assoc]
  | @closed pending rest root roots beside hfollow hbeside ih =>
    rw [edgeTrees_cons, edgeTrees_nil, Tree.collectAll, Tree.collect, Tree.collectAll, hf,
      List.nil_append, List.nil_append]
    by_cases hvisited : root ∈ s.visited
    · obtain ⟨n, t, hsweep, hend, hcollected⟩ := ih hframes htogether
      exact ⟨n, t, .skip hvisited hsweep, hend, hcollected⟩
    · -- a place without edges, whose frame is closed at once
      have hpending := hfollow root rfl
      have hnone : Explored next some pending (next root) [] pending :=
        (htogether.next_eq_nil root hvisited hpending).symm ▸ .nil pending
      obtain ⟨m, s', hrun, hstopped, htogether', hscanned⟩ :=
        hnone.exists_visit hframes (htogether.passed hpending)
      obtain ⟨n, t, hsweep, hend, hcollected⟩ := ih hstopped htogether'
      rw [scans_nil, List.append_nil] at hscanned
      exact ⟨m + n, t, .visit hvisited hrun hstopped hsweep, hend, hscanned ▸ hcollected⟩

end Runs

end Lineage.DepthFirst
