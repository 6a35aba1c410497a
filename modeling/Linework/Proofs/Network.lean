import Linework.Proofs.Reach
import Linework.Proofs.Stretch
import Linework.Proofs.Tree
import Linework.Trace

/-! The walk through a network of lines that has no loop.

The branches at hand are always the ways from the cells walked to those not yet walked, one for each
of the latter, since a second way would close a loop. So each step of a walk takes one way and finds
those that go on from its end, and in the end every way has been taken once.
-/

set_option autoImplicit false

namespace Linework

namespace Grid

/-- A walk through a set from a root: `fresh` are the cells not yet walked, `pending` the cells to
enter next, each with the cell to enter it from, and `taken` the ways walked. -/
structure Underway (g : Grid) (s : CellSet) (root : Cell) (fresh : List Cell)
    (pending : List (Cell × Cell)) (taken : List (Sym2 Cell)) : Prop where
  nodup : fresh.Nodup
  inside : ∀ c ∈ fresh, c ∈ s
  begun : root ∉ fresh
  linked : ∀ c ∈ s, c ∉ fresh → ∃ walk : g.web.Walk root c, ∀ n ∈ walk.support, n ∉ fresh
  distinct : pending.Nodup
  mem_pending : ∀ c p, (c, p) ∈ pending ↔ g.web.Adj c p ∧ c ∈ fresh ∧ p ∉ fresh
  counted : ∀ a b, g.web.Adj a b → taken.count s(a, b) = if a ∈ fresh ∨ b ∈ fresh then 0 else 1

variable {g : Grid} {s : CellSet} {root c n a b current previous : Cell} {fresh : List Cell}
  {pending rest : List (Cell × Cell)} {taken other : List (Sym2 Cell)}

namespace Underway

theorem of_perm (under : g.Underway s root fresh pending taken) (same : taken.Perm other) :
    g.Underway s root fresh pending other where
  __ := under
  counted a b adj := by rw [← same.count_eq, under.counted a b adj]

theorem pending_head (under : g.Underway s root fresh ((current, previous) :: rest) taken) :
    g.web.Adj current previous ∧ current ∈ fresh ∧ previous ∉ fresh :=
  (under.mem_pending current previous).1 (List.mem_cons_self ..)

theorem fresh_of_adj (under : g.Underway s root fresh ((current, previous) :: rest) taken)
    (leads : g.Leads s) (acyclic : g.web.IsAcyclic) (adj : g.web.Adj current n)
    (onward : n ≠ previous) : n ∈ fresh := by
  obtain ⟨came, here, behind⟩ := under.pending_head
  by_contra met
  obtain ⟨toPrevious, clear⟩ := under.linked previous (leads.stays came) behind
  obtain ⟨toNext, clearNext⟩ := under.linked n (leads.stays adj) met
  exact onward (eq_of_linked acyclic toNext toPrevious (fun met => clearNext current met here)
    (fun met => clear current met here) adj came)

theorem mem_erase (under : g.Underway s root fresh pending taken) :
    n ∈ fresh.erase current ↔ n ≠ current ∧ n ∈ fresh :=
  under.nodup.mem_erase_iff

theorem ahead (under : g.Underway s root fresh ((current, previous) :: rest) taken)
    (leads : g.Leads s) (acyclic : g.web.IsAcyclic) (adj : g.web.Adj current n)
    (onward : n ≠ previous) : n ∈ fresh.erase current :=
  under.mem_erase.2 ⟨adj.ne', under.fresh_of_adj leads acyclic adj onward⟩

theorem linked_erase (under : g.Underway s root fresh ((current, previous) :: rest) taken)
    (leads : g.Leads s) (member : c ∈ s) (old : c ∉ fresh.erase current) :
    ∃ walk : g.web.Walk root c, ∀ n ∈ walk.support, n ∉ fresh.erase current := by
  obtain ⟨came, -, behind⟩ := under.pending_head
  by_cases same : c = current
  · subst same
    obtain ⟨walk, clear⟩ := under.linked previous (leads.stays came) behind
    refine ⟨walk.concat came.symm, fun n met => ?_⟩
    rw [SimpleGraph.Walk.support_concat, List.mem_append] at met
    rw [under.mem_erase]
    rintro ⟨apart, left⟩
    rcases met with met | met
    · exact clear n met left
    · exact apart (List.mem_singleton.1 met)
  · have met : c ∉ fresh := fun left => old (under.mem_erase.2 ⟨same, left⟩)
    obtain ⟨walk, clear⟩ := under.linked c member met
    exact ⟨walk, fun n met left => clear n met (under.mem_erase.1 left).2⟩

theorem mem_pending_erase (under : g.Underway s root fresh ((current, previous) :: rest) taken)
    (leads : g.Leads s) (acyclic : g.web.IsAcyclic) {next : List Cell}
    (mem : ∀ n, n ∈ next ↔ g.web.Adj current n ∧ n ≠ previous) (c p : Cell) :
    (c, p) ∈ next.map (·, current) ++ rest ↔
      g.web.Adj c p ∧ c ∈ fresh.erase current ∧ p ∉ fresh.erase current := by
  obtain ⟨came, here, behind⟩ := under.pending_head
  have left : p ∉ fresh.erase current ↔ p = current ∨ p ∉ fresh := by
    rw [under.mem_erase]
    by_cases same : p = current <;> simp [same]
  rw [List.mem_append, List.mem_map, under.mem_erase, left]
  constructor
  · rintro (⟨n, onward, same⟩ | waiting)
    · obtain ⟨rfl, rfl⟩ := Prod.mk.inj same
      obtain ⟨adj, onward⟩ := (mem n).1 onward
      exact ⟨adj.symm, under.mem_erase.1 (under.ahead leads acyclic adj onward), .inl rfl⟩
    · obtain ⟨adj, freshC, met⟩ := (under.mem_pending c p).1 (List.mem_cons_of_mem _ waiting)
      refine ⟨adj, ⟨fun same => ?_, freshC⟩, .inr met⟩
      subst same
      -- A second way into the cell just walked would close a loop.
      have back : p = previous := by
        by_contra onward
        exact met (under.fresh_of_adj leads acyclic adj onward)
      exact (List.nodup_cons.1 under.distinct).1 (back ▸ waiting)
  · rintro ⟨adj, ⟨apart, freshC⟩, rfl | met⟩
    · refine .inl ⟨c, (mem c).2 ⟨adj.symm, ?_⟩, rfl⟩
      rintro rfl
      exact behind freshC
    · have waiting := (under.mem_pending c p).2 ⟨adj, freshC, met⟩
      exact .inr ((List.mem_cons.1 waiting).resolve_left fun same => apart (Prod.mk.inj same).1)

theorem fresh_or_fresh_erase (under : g.Underway s root fresh ((current, previous) :: rest) taken)
    (leads : g.Leads s) (acyclic : g.web.IsAcyclic) (adj : g.web.Adj a b)
    (apart : s(current, previous) ≠ s(a, b)) :
    (a ∈ fresh.erase current ∨ b ∈ fresh.erase current) ↔ (a ∈ fresh ∨ b ∈ fresh) := by
  constructor
  · exact Or.imp (fun left => (under.mem_erase.1 left).2) fun left => (under.mem_erase.1 left).2
  · intro left
    by_cases atA : a = current
    · subst atA
      refine .inr (under.ahead leads acyclic adj fun back => apart ?_)
      rw [back]
    · by_cases atB : b = current
      · subst atB
        refine .inl (under.ahead leads acyclic adj.symm fun back => apart ?_)
        rw [back, Sym2.eq_swap]
      · exact left.imp (fun left => under.mem_erase.2 ⟨atA, left⟩)
          fun left => under.mem_erase.2 ⟨atB, left⟩

theorem counted_erase (under : g.Underway s root fresh ((current, previous) :: rest) taken)
    (leads : g.Leads s) (acyclic : g.web.IsAcyclic) (adj : g.web.Adj a b) :
    (s(current, previous) :: taken).count s(a, b) =
      if a ∈ fresh.erase current ∨ b ∈ fresh.erase current then 0 else 1 := by
  obtain ⟨-, here, behind⟩ := under.pending_head
  rw [List.count_cons, under.counted a b adj]
  by_cases same : s(current, previous) = s(a, b)
  · have freshPair : a ∈ fresh ∨ b ∈ fresh := by
      rcases Sym2.eq_iff.1 same with ⟨rfl, rfl⟩ | ⟨rfl, rfl⟩
      · exact .inl here
      · exact .inr here
    have walkedPair : ¬ (a ∈ fresh.erase current ∨ b ∈ fresh.erase current) := by
      rw [under.mem_erase, under.mem_erase]
      rcases Sym2.eq_iff.1 same with ⟨rfl, rfl⟩ | ⟨rfl, rfl⟩ <;> simp [behind]
    rw [if_pos freshPair, if_neg walkedPair, if_pos (beq_iff_eq.2 same)]
  · simp only [under.fresh_or_fresh_erase leads acyclic adj same, beq_iff_eq, same, if_false,
      Nat.add_zero]

/-- One step of a walk. -/
theorem visit (under : g.Underway s root fresh ((current, previous) :: rest) taken)
    (leads : g.Leads s) (acyclic : g.web.IsAcyclic) {next : List Cell} (nodup : next.Nodup)
    (mem : ∀ n, n ∈ next ↔ g.web.Adj current n ∧ n ≠ previous) :
    g.Underway s root (fresh.erase current) (next.map (·, current) ++ rest)
      (s(current, previous) :: taken) where
  nodup := under.nodup.erase _
  inside c left := under.inside c (under.mem_erase.1 left).2
  begun left := under.begun (under.mem_erase.1 left).2
  linked c member old := under.linked_erase leads member old
  distinct := by
    refine List.nodup_append.2 ⟨nodup.map fun _ _ same => (Prod.mk.inj same).1,
      (List.nodup_cons.1 under.distinct).2, ?_⟩
    -- The new branches start at the cell just walked, those at hand at cells walked before it.
    rintro ⟨c, p⟩ new _ old rfl
    obtain ⟨n, -, same⟩ := List.mem_map.1 new
    obtain ⟨rfl, rfl⟩ := Prod.mk.inj same
    exact ((under.mem_pending _ _).1 (List.mem_cons_of_mem _ old)).2.2 under.pending_head.2.1
  mem_pending := under.mem_pending_erase leads acyclic mem
  counted a b adj := under.counted_erase leads acyclic adj

/-- A walk with no way left to take has walked the whole tree. -/
theorem fresh_eq_nil (under : g.Underway s root fresh [] taken) (leads : g.Leads s)
    (tree : g.Tree s) (mem : root ∈ s) : fresh = [] := by
  refine List.eq_nil_iff_forall_not_mem.2 fun c left => ?_
  have met : c ∈ s ∧ c ∉ fresh := by
    refine mem_of_reachable (p := fun c => c ∈ s ∧ c ∉ fresh) (fun a b old adj => ?_)
      (tree.connected root mem c (under.inside c left)) ⟨mem, under.begun⟩
    refine ⟨leads.stays adj, fun left => ?_⟩
    have waiting := (under.mem_pending b a).2 ⟨adj.symm, left, old.2⟩
    cases waiting
  exact met.2 left

theorem start (leads : g.Leads s) (only : ∀ n, g.web.Adj root n ↔ n = a) :
    g.Underway s root (s.toList.erase root) [(a, root)] [] := by
  have erased (n : Cell) : n ∈ s.toList.erase root ↔ n ≠ root ∧ n ∈ s :=
    s.nodup.mem_erase_iff
  -- Only the root is entered: the one way that waits is its joint, and no joint is walked yet.
  refine ⟨s.nodup.erase _, fun c left => ((erased c).1 left).2,
    fun left => ((erased root).1 left).1 rfl, fun c member old => ?_, List.nodup_singleton _, fun c p => ?_, fun a b adj => ?_⟩
  · obtain rfl : c = root := by
      by_contra apart
      exact old ((erased c).2 ⟨apart, member⟩)
    exact ⟨.nil, fun n met => by
      rw [SimpleGraph.Walk.support_nil, List.mem_singleton] at met
      exact met ▸ old⟩
  · rw [List.mem_singleton, Prod.mk.injEq, erased]
    constructor
    · rintro ⟨rfl, rfl⟩
      have adj := (only c).2 rfl
      exact ⟨adj.symm, ⟨adj.ne', leads.stays adj⟩, fun left => ((erased p).1 left).1 rfl⟩
    · rintro ⟨adj, ⟨-, member⟩, old⟩
      obtain rfl : p = root := by
        by_contra apart
        exact old ((erased p).2 ⟨apart, leads.stays adj⟩)
      exact ⟨(only c).1 adj.symm, rfl⟩
  · have left : a ∈ s.toList.erase root ∨ b ∈ s.toList.erase root := by
      rw [erased, erased]
      by_cases same : a = root
      · subst same
        exact .inr ⟨adj.ne', leads.stays adj⟩
      · exact .inl ⟨same, leads.stays adj.symm⟩
    rw [if_pos left]
    rfl

end Underway

structure Finished (g : Grid) (s : CellSet) (root : Cell) (rest : List (Cell × Cell))
    (taken : List (Sym2 Cell)) (grown : Segment.Growth) : Prop where
  stretch : g.Stretch grown.segment.cells
  vertices : 2 ≤ grown.segment.vertices.length
  under : g.Underway s root grown.fresh (grown.branches ++ rest)
    (links grown.segment.cells ++ taken)
  meet : ∀ b ∈ grown.branches, (g.joints b.2).length ≠ 2

/-- A segment that grows through a tree gets to the end of its stretch. -/
theorem grow_of_tree (plain : g.Plain) (drawn : ∀ c ∈ s, Glyph.isPlain (g.get c))
    (leads : g.Leads s) (acyclic : g.web.IsAcyclic) (roundAll : Bool) (segment : Segment)
    (under : g.Underway s root fresh ((current, previous) :: rest) (links segment.cells ++ taken))
    (course : g.Course (current :: segment.cells)) (latest : segment.cells.head? = some previous)
    (old : ∀ c ∈ segment.cells, c ∉ fresh) (begun : segment.vertices ≠ []) :
    ∃ grown, Segment.grow g roundAll s fresh segment previous current = .ok grown ∧
      g.Finished s root rest taken grown := by
  -- Each step walks a fresh cell, so their number carries the induction.
  induction size : fresh.length generalizing fresh segment previous current with
  | zero =>
    have here := under.pending_head.2.1
    rw [List.eq_nil_of_length_eq_zero size] at here
    cases here
  | succ count ih =>
    obtain ⟨came, here, -⟩ := under.pending_head
    have inside := under.inside current here
    obtain ⟨next, followed, length, nodup, mem⟩ := leads.follow_some inside came
    have joined : g.joints current ≠ [] := List.length_pos_iff.1 (by omega)
    have visited := under.visit leads acyclic nodup mem
    rw [← List.cons_append, ← links_cons current latest] at visited
    rw [Segment.grow, dif_pos here]
    have grows : segment.cells ≠ [] := fun bare => by simp [bare] at latest
    have lineEnd := plain.isLineEnd_iff (drawn current inside)
    -- Only a cell joined to two others is passed; the segment is finished at any other.
    by_cases edge : (g.joints current).length = 2
    · have goes : g.isLineEnd current = false := eq_false_of_ne_true fun finish => by
        have one := lineEnd.1 finish
        omega
      obtain ⟨onward, rfl⟩ := List.length_eq_one_iff.1 (by omega : next.length = 1)
      obtain ⟨adj, ahead, -⟩ := visited.pending_head
      simp only [goes, followed, Bool.false_eq_true, if_false]
      have older : ∀ c ∈ current :: segment.cells, c ∉ fresh.erase current := by
        intro c met left
        obtain ⟨apart, left⟩ := under.nodup.mem_erase_iff.1 left
        exact (List.mem_cons.1 met).elim apart fun met => old c met left
      refine ih _ visited (course.cons grows adj (fun met => older _ met ahead) edge) rfl older ?_ ?_
      · split <;> simp [begun]
      · rw [List.length_erase_of_mem here, size]
        rfl
    · have vertex := plain.isVertex_of_joints (drawn current inside) joined edge
      have stretch : g.Stretch (current :: segment.cells) := by
        refine ⟨course, ?_, ?_⟩
        · rw [List.length_cons]
          exact Nat.succ_le_succ (List.length_pos_iff.2 grows)
        · rintro c ⟨⟩
          exact edge
      have vertices : 2 ≤ (Vertex.ofCell g roundAll current :: segment.vertices).length := by
        rw [List.length_cons]
        exact Nat.succ_le_succ (List.length_pos_iff.2 begun)
      have ahead : ∀ n ∈ next, n ∈ fresh.erase current := by
        intro n onward
        have waiting : (n, current) ∈ next.map (·, current) ++ rest :=
          List.mem_append_left _ (List.mem_map_of_mem onward)
        exact ((visited.mem_pending _ _).1 waiting).2.1
      by_cases finish : g.isLineEnd current
      · have one := lineEnd.1 finish
        have nothing : next = [] := List.eq_nil_of_length_eq_zero (by omega)
        simp only [finish, vertex, if_true]
        refine ⟨_, rfl, stretch, vertices, ?_, fun b met => by cases met⟩
        simpa [nothing] using visited
      · have many : (g.joints current).length ≠ 1 := fun one => finish (lineEnd.2 one)
        -- No way on leads to a cell already walked, so none is filtered out.
        have kept : next.filter (fun c => decide (c ∈ fresh.erase current ∨ c ∉ s)) = next :=
          List.filter_eq_self.2 fun n onward => decide_eq_true (.inl (ahead n onward))
        rw [Bool.not_eq_true] at finish
        simp only [finish, vertex, followed, if_true, Bool.false_eq_true, if_false]
        obtain ⟨x, y, others, rfl⟩ := exists_cons_cons (by omega : 2 ≤ next.length)
        refine ⟨_, rfl, stretch, vertices, ?_, ?_⟩
        · rw [kept]
          exact visited
        · rw [kept]
          rintro b met
          obtain ⟨n, -, rfl⟩ := List.mem_map.1 met
          exact edge

/-- What the walks through a tree have made of it: stretches, which take every way once. -/
theorem walkAll_of_tree (plain : g.Plain) (drawn : ∀ c ∈ s, Glyph.isPlain (g.get c))
    (leads : g.Leads s) (acyclic : g.web.IsAcyclic) (roundAll : Bool) (walked : List Segment)
    (under : g.Underway s root fresh pending (walked.flatMap fun seg => links seg.cells))
    (meet : ∀ b ∈ pending, (g.joints b.2).length ≠ 2)
    (finished : ∀ seg ∈ walked, g.Stretch seg.cells ∧ 2 ≤ seg.vertices.length) :
    ∃ segs left, Strand.walkAll g roundAll s fresh pending walked = .ok segs ∧
      g.Underway s root left [] (segs.flatMap fun seg => links seg.cells) ∧
      ∀ seg ∈ segs, g.Stretch seg.cells ∧ 2 ≤ seg.vertices.length := by
  -- By the cells not yet entered: each segment enters the cell it sets out for.
  induction size : fresh.length using Nat.strong_induction_on generalizing fresh pending walked with
  | _ size ih =>
    cases pending with
    | nil =>
      refine ⟨walked.reverse, fresh, by rw [Strand.walkAll], under.of_perm ?_, ?_⟩
      · exact (List.reverse_perm walked).symm.flatMap_right _
      · exact fun seg met => finished seg (List.mem_reverse.1 met)
    | cons way rest =>
      obtain ⟨current, previous⟩ := way
      obtain ⟨adj, here, old⟩ := under.pending_head
      have course : g.Course [current, previous] := by
        refine ⟨by simpa using adj.ne, List.isChain_pair.2 adj, fun c met => ?_, ?_⟩
        · cases met
        · intro c met
          obtain rfl : previous = c := by simpa using met
          exact meet (current, previous) (List.mem_cons_self ..)
      obtain ⟨grown, grows, done⟩ := grow_of_tree plain drawn leads acyclic roundAll
        (Segment.start g roundAll previous) under course rfl
        (by simpa [Segment.start] using old) (by simp [Segment.start])
      have less := Segment.fresh_grow_lt here grows
      have turned : (links grown.segment.reverse.cells).Perm (links grown.segment.cells) := by
        rw [Segment.reverse, links_reverse]
        exact List.reverse_perm _
      obtain ⟨segs, left, walks, rest⟩ := ih _ (size ▸ less)
        (grown.segment.reverse :: walked)
        (done.under.of_perm (turned.symm.append_right _))
        (fun b met => (List.mem_append.1 met).elim (done.meet b) fun met =>
          meet b (List.mem_cons_of_mem _ met))
        (List.forall_mem_cons.2 ⟨⟨done.stretch.reverse, by
          rw [Segment.reverse, List.length_reverse]
          exact done.vertices⟩, finished⟩) rfl
      refine ⟨segs, left, ?_, rest⟩
      rw [Strand.walkAll, dif_pos here]
      split
      · rename_i failed
        cases grows.symm.trans failed
      · rename_i found
        cases grows.symm.trans found
        exact walks

end Grid

namespace Strand

open Grid

variable {g : Grid} {s : CellSet}

theorem segments_of_tree (drawn : g.Draws s) (tree : (g.isolate s).Tree s) (clear : g.Clear s)
    (large : 2 ≤ s.size) (roundAll : Bool) :
    ∃ segs, segments (g.isolate s) roundAll s = .ok segs ∧
      (∀ a b, (g.isolate s).web.Adj a b →
        (segs.flatMap fun seg => links seg.cells).count s(a, b) = 1) ∧
      ∀ seg ∈ segs, (g.isolate s).Stretch seg.cells ∧ 2 ≤ seg.vertices.length := by
  have leads := tree.leads drawn clear large
  have plain := drawn.plain_isolate fun c mem => tree.joints_ne_nil large mem
  have isPlain := fun c (mem : c ∈ s) => drawn.isPlain_isolate mem
  -- A tree of two cells or more has an end, so there is a first one to set out from.
  obtain ⟨c, mem, one⟩ := tree.exists_end leads large
  obtain ⟨root, found⟩ : ∃ root, s.toList.find? (g.isolate s).isLineEnd = some root := by
    rw [← Option.isSome_iff_exists, List.find?_isSome]
    exact ⟨c, mem, (plain.isLineEnd_iff (isPlain c mem)).2 one⟩
  have inside : root ∈ s := List.mem_of_find?_eq_some found
  have single := (plain.isLineEnd_iff (isPlain root inside)).1 (List.find?_some found)
  obtain ⟨next, followed, length, -, adj⟩ := leads.follow_none inside
  obtain ⟨first, rfl⟩ := List.length_eq_one_iff.1 (length.trans single)
  have under := Underway.start (a := first) leads fun n => by rw [← adj n, List.mem_singleton]
  obtain ⟨segs, left, walks, done, stretches⟩ := walkAll_of_tree plain isPlain leads tree.acyclic
    roundAll [] under (fun b met => by
      obtain rfl := List.mem_singleton.1 met
      rw [single]
      decide) (fun _ met => by cases met)
  obtain rfl := done.fresh_eq_nil leads tree inside
  refine ⟨segs, ?_, fun a b joined => ?_, stretches⟩
  · simp only [segments, found, followed, walks]
  · rw [done.counted a b joined]
    simp

theorem countP_le_count_flatMap {segs : List Segment} {p : Segment → Bool} {e : Sym2 Cell}
    (shared : ∀ seg ∈ segs, p seg → e ∈ links seg.cells) :
    segs.countP p ≤ (segs.flatMap fun seg => links seg.cells).count e := by
  induction segs with
  | nil => exact Nat.zero_le _
  | cons seg segs ih =>
    obtain ⟨first, later⟩ := List.forall_mem_cons.1 shared
    have rest := ih later
    rw [List.flatMap_cons, List.count_append, List.countP_cons]
    split
    · have here := List.count_pos_iff.2 (first ‹_›)
      omega
    · omega

theorem countP_of_stretch {segs : List Segment} {path : List Cell}
    (once : ∀ a b, (g.isolate s).web.Adj a b →
      (segs.flatMap fun seg => links seg.cells).count s(a, b) = 1)
    (stretches : ∀ seg ∈ segs, (g.isolate s).Stretch seg.cells)
    (stretch : (g.isolate s).Stretch path) :
    segs.countP (fun seg => decide (seg.cells = path ∨ seg.cells = path.reverse)) = 1 := by
  obtain ⟨a, b, rest, rfl⟩ := exists_cons_cons stretch.long
  have count := once a b (List.isChain_cons_cons.1 stretch.chain).1
  apply Nat.le_antisymm
  · rw [← count]
    refine countP_le_count_flatMap fun seg _ same => ?_
    rcases of_decide_eq_true same with same | same
    · rw [same, links]
      exact List.mem_cons_self ..
    · rw [same, links_reverse, links, List.mem_reverse]
      exact List.mem_cons_self ..
  -- The first pair of the path is taken once, and only the path itself can take it.
  · have taken : 0 < (segs.flatMap fun seg => links seg.cells).count s(a, b) := by omega
    obtain ⟨seg, mem, shared⟩ := List.mem_flatMap.1 (List.count_pos_iff.1 taken)
    refine List.countP_pos_iff.2 ⟨seg, mem, decide_eq_true ?_⟩
    rcases stretch.eq_or_eq_reverse (stretches seg mem) shared with same | same
    · exact .inl same.symm
    · exact .inr (by rw [same, List.reverse_reverse])

theorem mem_of_mem_links {path : List Cell} {a b : Cell} (mem : s(a, b) ∈ links path) :
    a ∈ path := by
  obtain ⟨before, x, y, after, rfl, same⟩ := mem_links mem
  rcases Sym2.eq_iff.1 same with ⟨rfl, rfl⟩ | ⟨rfl, rfl⟩ <;> simp

end Strand

namespace Layout

open Grid

variable {g : Grid} {s : CellSet}

/-- A cleanly drawn tree is traced completely and without repetition: the segments take every pair
of joined cells once, they are the stretches of the tree, and each has two points at least. -/
theorem strand_of_tree (l : Layout) (drawn : g.Draws s) (tree : (g.isolate s).Tree s)
    (clear : g.Clear s) (large : 2 ≤ s.size) :
    ∃ segs, Strand.trace g l.roundAll s = .ok segs ∧ l.strand g s = .ok (segs.map l.segment) ∧
      (∀ c ∈ s, ∃ seg ∈ segs, c ∈ seg.cells) ∧
      (∀ a b, (g.isolate s).web.Adj a b →
        (segs.flatMap fun seg => links seg.cells).count s(a, b) = 1) ∧
      (∀ seg ∈ segs, (g.isolate s).Stretch seg.cells) ∧
      (∀ path, (g.isolate s).Stretch path →
        segs.countP (fun seg => decide (seg.cells = path ∨ seg.cells = path.reverse)) = 1) ∧
      ∀ seg ∈ segs, 2 ≤ (l.segment seg).points.length := by
  obtain ⟨found, segments, once, stretches⟩ :=
    Strand.segments_of_tree drawn tree clear large l.roundAll
  -- Anchoring the ends moves vertices and keeps the cells, so what was proved of the walk stays.
  let finish (seg : Segment) : Segment :=
    Segment.connectEnds g (g.isolate s) { seg with dashed := found.any (·.dashed) }
  have cells (seg : Segment) : (finish seg).cells = seg.cells := Segment.cells_connectEnds ..
  have vertices (seg : Segment) : (finish seg).vertices.length = seg.vertices.length :=
    Segment.length_vertices_connectEnds ..
  have traced : Strand.trace g l.roundAll s = .ok (found.map finish) := by
    rw [Strand.trace_eq, segments]
    rfl
  have links : ((found.map finish).flatMap fun seg => links seg.cells)
      = found.flatMap fun seg => links seg.cells := by
    simp only [List.flatMap_map, cells]
  have stretches' : ∀ seg ∈ found.map finish, (g.isolate s).Stretch seg.cells :=
    List.forall_mem_map.2 fun seg mem => by rw [cells]; exact (stretches seg mem).1
  have once' : ∀ a b, (g.isolate s).web.Adj a b →
      ((found.map finish).flatMap fun seg => Grid.links seg.cells).count s(a, b) = 1 := by
    rw [links]
    exact once
  refine ⟨found.map finish, traced, ?_, fun c mem => ?_, once', stretches',
    fun path stretch => Strand.countP_of_stretch once' stretches' stretch, ?_⟩
  · rw [strand, traced]
    rfl
  · obtain ⟨d, joint⟩ := List.exists_mem_of_ne_nil _ (tree.joints_ne_nil large mem)
    have count := once' c (c.step d) (adj_step.2 joint)
    have met := List.count_pos_iff.1 (by omega :
      0 < ((found.map finish).flatMap fun seg => Grid.links seg.cells).count s(c, c.step d))
    obtain ⟨seg, member, shared⟩ := List.mem_flatMap.1 met
    exact ⟨seg, member, Strand.mem_of_mem_links shared⟩
  · refine List.forall_mem_map.2 fun seg mem => ?_
    rw [segment, Shape.points, Shape.polyline, List.length_map, List.length_map, vertices]
    exact (stretches seg mem).2

theorem fork_size : #['-', '+', '-', ' ', '|', ' '].size = 3 * 2 := rfl

def fork : Grid := ⟨3, 2, #['-', '+', '-', ' ', '|', ' '], fork_size⟩

def forkLines : CellSet := ⟨[⟨1, 0⟩, ⟨0, 0⟩, ⟨2, 0⟩, ⟨1, 1⟩], by decide⟩

theorem forkLines_tree : (fork.isolate forkLines).Tree forkLines :=
  .of_rank forkLines.toList.idxOf ⟨1, 0⟩ (fun adj => (mem_of_adj_isolate adj).2)
    (by decide +kernel) (by decide +kernel)

theorem strand_of_tree_fork :
    fork.Draws forkLines ∧ (fork.isolate forkLines).Tree forkLines ∧ fork.Clear forkLines ∧
      2 ≤ forkLines.size ∧
      ∃ segs, Strand.trace fork false forkLines = .ok segs ∧
        strand ⟨.standard, false⟩ fork forkLines
          = .ok (segs.map (segment ⟨.standard, false⟩)) ∧
        (∀ c ∈ forkLines, ∃ seg ∈ segs, c ∈ seg.cells) ∧
        (∀ a b, (fork.isolate forkLines).web.Adj a b →
          (segs.flatMap fun seg => links seg.cells).count s(a, b) = 1) ∧
        (∀ seg ∈ segs, (fork.isolate forkLines).Stretch seg.cells) ∧
        (∀ path, (fork.isolate forkLines).Stretch path →
          segs.countP (fun seg => decide (seg.cells = path ∨ seg.cells = path.reverse)) = 1) ∧
        ∀ seg ∈ segs, 2 ≤ (segment ⟨.standard, false⟩ seg).points.length :=
  ⟨by decide, forkLines_tree, by decide, by decide,
    strand_of_tree ⟨.standard, false⟩ (by decide) forkLines_tree (by decide) (by decide)⟩

end Layout

end Linework
