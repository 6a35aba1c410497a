import Linework.Proofs.Runs
import Linework.Proofs.Stretch
import Linework.Trace

/-! The steps by which a strand is traced.

No two cells are stepped between twice. Both cells of a step taken are walked, so a step that comes to
a fresh cell is a new one. A step that comes to a cell walked before sets out from a cell that was
fresh just now, and the only step taken there is the one before, which it does not turn back on.
-/

set_option autoImplicit false

namespace Linework

theorem Segment.dashed_connectEnds (g alone : Grid) (seg : Segment) :
    (connectEnds g alone seg).dashed = seg.dashed := by
  unfold connectEnds
  dsimp only
  split <;> rfl

def Grid.Breaks (g : Grid) (p c : Cell) : Prop :=
  g.Goes p c ∧ ∃ next, g.follow c (some p) = .ok next ∧ next.length ≠ 1

namespace Strand

open Grid

/-- Segments walked one after another, and the cells they visit in the order in which they are first
entered. A segment sets out from a visited cell and enters cells that were not visited; it may end by
stepping on one that was. -/
inductive Visits (start : List Cell) : List Segment → List Cell → Prop
  | none : Visits start [] start
  | walk {segs : List Segment} {visited : List Cell} {seg : Segment} {first : Cell}
      {new last : List Cell} : Visits start segs visited → first ∈ visited →
      seg.cells = first :: (new ++ last) → (last = [] ∨ ∃ c ∈ visited ++ new, last = [c]) →
      Visits start (segs ++ [seg]) (visited ++ new)

structure Trodden (fresh : List Cell) (taken : List (Sym2 Cell)) : Prop where
  nodup : taken.Nodup
  walked : ∀ c ∈ fresh, ∀ e ∈ taken, c ∉ e

def DashedAt (alone : Grid) (c : Cell) : Prop := Glyph.isDashed (alone.get c)

/-- A search from `root` under way: every cell is visited or fresh, the segments go along lines, and no
two steps go between the same cells. -/
structure Tracing (alone : Grid) (s : CellSet) (root : Cell) (fresh : List Cell)
    (pending : List (Cell × Cell)) (walked : List Segment) (visited : List Cell) : Prop where
  split : s.toList.Perm (visited ++ fresh)
  waiting : ∀ b ∈ pending, alone.Goes b.2 b.1 ∧ b.2 ∈ visited
  visits : Visits [root] walked.reverse visited
  trodden : Trodden fresh (walked.flatMap fun seg => links seg.cells)
  along : ∀ seg ∈ walked, seg.cells.IsChain alone.Goes
  dashes : ∀ seg ∈ walked, seg.dashed → ∃ c ∈ seg.cells, DashedAt alone c
  dashed : ∀ c ∈ visited, DashedAt alone c → (∃ seg ∈ walked, seg.dashed) ∨ walked = [] ∧ c = root

variable {g alone : Grid} {s : CellSet} {roundAll : Bool} {root c n current previous : Cell}
  {fresh start visited : List Cell} {taken earlier : List (Sym2 Cell)} {segment : Segment}
  {grown : Segment.Growth} {pending rest : List (Cell × Cell)} {walked segs : List Segment}

namespace Visits

theorem mem_visited (visits : Visits start segs visited) :
    ∀ seg ∈ segs, ∀ c ∈ seg.cells, c ∈ visited := by
  induction visits with
  | none => simp
  | @walk segs visited seg first new last _ source cells closing ih =>
    intro other mem c cell
    rw [List.mem_append, List.mem_singleton] at mem
    rcases mem with mem | rfl
    · exact List.mem_append_left _ (ih other mem c cell)
    · rw [cells, List.mem_cons, List.mem_append] at cell
      rcases cell with rfl | new | old
      · exact List.mem_append_left _ source
      · exact List.mem_append_right _ new
      · rcases closing with rfl | ⟨n, met, rfl⟩
        · cases old
        · rwa [List.mem_singleton.1 old]

theorem eq_start (visits : Visits start [] visited) : visited = start := by
  generalize none : [] = segs at visits
  cases visits with
  | none => rfl
  | walk => simp at none

theorem map {f : Segment → Segment} (cells : ∀ seg, (f seg).cells = seg.cells)
    (visits : Visits start segs visited) : Visits start (segs.map f) visited := by
  induction visits with
  | none => exact .none
  | walk _ source split closing ih =>
    rw [List.map_append]
    exact .walk ih source ((cells _).trans split) closing

end Visits

theorem walkAll_drop (old : current ∉ fresh) (inside : current ∈ s) :
    walkAll alone roundAll s fresh ((current, previous) :: rest) walked
      = walkAll alone roundAll s fresh rest walked := by
  rw [walkAll, dif_neg old, if_pos inside]

namespace Trodden

theorem new_of_fresh (trodden : Trodden fresh taken) (here : c ∈ fresh) : s(c, n) ∉ taken :=
  fun met => trodden.walked c here _ met (Sym2.mem_mk_left c n)

theorem of_perm {other : List (Sym2 Cell)} (trodden : Trodden fresh taken)
    (same : taken.Perm other) : Trodden fresh other where
  nodup := same.nodup_iff.1 trodden.nodup
  walked c left e met := trodden.walked c left e (same.mem_iff.2 met)

theorem step {cells : List Cell} (trodden : Trodden fresh (links cells ++ earlier))
    (clear : fresh.Nodup) (latest : cells.head? = some previous) (behind : previous ∉ fresh)
    (new : s(current, previous) ∉ links cells ++ earlier) :
    Trodden (fresh.erase current) (links (current :: cells) ++ earlier) := by
  rw [links_cons current latest]
  refine ⟨List.nodup_cons.2 ⟨new, trodden.nodup⟩, fun c left e met inside => ?_⟩
  obtain ⟨apart, left⟩ := clear.mem_erase_iff.1 left
  rcases List.mem_cons.1 met with rfl | met
  · rcases Sym2.mem_iff.1 inside with rfl | rfl
    · exact apart rfl
    · exact behind left
  · exact trodden.walked c left e met inside

theorem grow (trodden : Trodden fresh (links segment.cells ++ earlier)) (clear : fresh.Nodup)
    (latest : segment.cells.head? = some previous) (behind : previous ∉ fresh)
    (new : s(current, previous) ∉ links segment.cells ++ earlier)
    (grows : Segment.grow alone roundAll s fresh segment previous current = .ok grown) :
    Trodden grown.fresh (links grown.segment.cells ++ earlier) := by
  fun_induction Segment.grow alone roundAll s fresh segment previous current with
  | case1 fresh segment previous current vertices here left grown' finish =>
    cases grows
    exact trodden.step clear latest behind new
  | case2 => cases grows
  | case3 fresh segment previous current vertices here left grown' goes next followed ih =>
    refine ih (trodden.step clear latest behind new) (clear.erase current) rfl
      (fun left => (clear.mem_erase_iff.1 left).1 rfl) ?_ grows
    -- The cell was fresh, so it has been stepped on once, from the cell that is left out now.
    have onward := ((mem_of_follow followed).1 (List.mem_singleton_self next)).2
    rw [Sym2.eq_swap, links_cons current latest, List.cons_append, List.mem_cons, not_or]
    refine ⟨fun same => ?_, trodden.new_of_fresh here⟩
    rcases Sym2.eq_iff.1 same with ⟨-, rfl⟩ | ⟨rfl, -⟩
    · exact onward rfl
    · exact behind here
  | case4 fresh segment previous current vertices here left grown' goes next many followed =>
    cases grows
    exact trodden.step clear latest behind new
  | case5 fresh segment previous current vertices old inside =>
    cases grows
    have met := trodden.step clear latest behind new
    rwa [List.erase_of_not_mem old] at met
  | case6 => cases grows

end Trodden

structure Gains (alone : Grid) (roundAll : Bool) (s : CellSet) (fresh : List Cell) (segment : Segment)
    (grown : Segment.Growth) (new met : List Cell) : Prop where
  cells : grown.segment.cells = met ++ (new ++ segment.cells)
  /-- A cell walked before is a vertex whatever is drawn there. -/
  vertices : grown.segment.vertices
    = (met ++ new.filter alone.isVertex).map (Vertex.ofCell alone roundAll) ++ segment.vertices
  gained : fresh.Perm (new ++ grown.fresh)
  closing : (met = [] ∧ ∃ c ∈ new.head?, alone.isLineEnd c ∨ ∃ p, alone.Breaks p c) ∨
    ∃ c, c ∈ s ∧ c ∉ grown.fresh ∧ met = [c]
  dashed : grown.segment.dashed ↔ segment.dashed ∨ ∃ c ∈ new, DashedAt alone c

namespace Gains

variable {branches : List (Cell × Cell)} {new met : List Cell}

theorem stop (here : current ∈ fresh) (halts : alone.isLineEnd current ∨ ∃ p, alone.Breaks p current) :
    Gains alone roundAll s fresh segment
      ⟨⟨current :: segment.cells,
        if alone.isVertex current then Vertex.ofCell alone roundAll current :: segment.vertices
        else segment.vertices,
        segment.dashed || Glyph.isDashed (alone.get current)⟩, fresh.erase current, branches⟩
      [current] [] where
  cells := rfl
  vertices := by cases vertex : alone.isVertex current <;> simp [vertex]
  gained := List.perm_cons_erase here
  closing := .inl ⟨rfl, current, rfl, halts⟩
  dashed := by simp [DashedAt]

theorem step (here : current ∈ fresh)
    (gains : Gains alone roundAll s (fresh.erase current)
      ⟨current :: segment.cells,
        if alone.isVertex current then Vertex.ofCell alone roundAll current :: segment.vertices
        else segment.vertices,
        segment.dashed || Glyph.isDashed (alone.get current)⟩ grown new met) :
    Gains alone roundAll s fresh segment grown (new ++ [current]) met where
  cells := by
    rw [gains.cells, List.append_assoc new, List.singleton_append]
  vertices := by
    rw [gains.vertices]
    cases vertex : alone.isVertex current <;> simp [vertex]
  gained := by
    rw [List.append_assoc, List.singleton_append]
    exact ((List.perm_cons_erase here).trans (gains.gained.cons current)).trans List.perm_middle.symm
  closing := by
    refine gains.closing.imp_left (And.imp_right ?_)
    rintro ⟨c, latest, halts⟩
    exact ⟨c, by rw [List.head?_append, latest]; rfl, halts⟩
  dashed := by
    rw [gains.dashed]
    simp only [DashedAt, Bool.or_eq_true, or_assoc, List.mem_append, List.mem_singleton,
      or_and_right, exists_or, exists_eq_left]
    rw [or_comm (a := ∃ c ∈ new, _)]

theorem meet (inside : current ∈ s) (old : current ∉ fresh) :
    Gains alone roundAll s fresh segment
      ⟨⟨current :: segment.cells, Vertex.ofCell alone roundAll current :: segment.vertices,
        segment.dashed⟩, fresh, branches⟩ [] [current] where
  cells := rfl
  vertices := rfl
  gained := .refl _
  closing := .inr ⟨current, inside, old, rfl⟩
  dashed := by simp

theorem reverse_met (gains : Gains alone roundAll s fresh segment grown new met) :
    met.reverse = met := by
  rcases gains.closing with ⟨rfl, -⟩ | ⟨c, -, -, rfl⟩ <;> rfl

theorem cells_reverse (gains : Gains alone roundAll s fresh
      (Segment.start alone roundAll previous) grown new met) :
    grown.segment.reverse.cells = previous :: (new.reverse ++ met) := by
  rw [Segment.reverse, gains.cells]
  simp [Segment.start, gains.reverse_met]

theorem vertices_reverse (gains : Gains alone roundAll s fresh
      (Segment.start alone roundAll previous) grown new met) :
    grown.segment.reverse.vertices
      = (previous :: (new.reverse.filter alone.isVertex ++ met)).map
          (Vertex.ofCell alone roundAll) := by
  have single := congrArg (List.map (Vertex.ofCell alone roundAll)) gains.reverse_met
  rw [List.map_reverse] at single
  rw [Segment.reverse, gains.vertices]
  simp [Segment.start, single, List.filter_reverse]

end Gains

theorem exists_gains (goes : alone.Goes previous current)
    (grows : Segment.grow alone roundAll s fresh segment previous current = .ok grown) :
    ∃ new met, Gains alone roundAll s fresh segment grown new met := by
  fun_induction Segment.grow alone roundAll s fresh segment previous current with
  | case1 fresh segment previous current vertices here left grown' finish =>
    cases grows
    exact ⟨[current], [], .stop here (.inl finish)⟩
  | case2 => cases grows
  | case3 fresh segment previous current vertices here left grown' on next followed ih =>
    have onward := ((mem_of_follow followed).1 (List.mem_singleton_self next)).1
    obtain ⟨new, met, gains⟩ := ih onward grows
    exact ⟨new ++ [current], met, gains.step here⟩
  | case4 fresh segment previous current vertices here left grown' on next many followed unwalked =>
    cases grows
    refine ⟨[current], [], .stop here (.inr ⟨previous, goes, next, followed, fun single => ?_⟩)⟩
    obtain ⟨n, rfl⟩ := List.length_eq_one_iff.1 single
    exact many n rfl
  | case5 fresh segment previous current vertices old inside =>
    cases grows
    exact ⟨[], [current], .meet inside old⟩
  | case6 => cases grows

/-- A segment grows along lines, and so do the branches from its end. -/
theorem grow_along (along : segment.cells.IsChain (flip alone.Goes))
    (latest : segment.cells.head? = some previous) (goes : alone.Goes previous current)
    (grows : Segment.grow alone roundAll s fresh segment previous current = .ok grown) :
    grown.segment.cells.IsChain (flip alone.Goes) ∧
      ∀ b ∈ grown.branches, alone.Goes b.2 b.1 ∧ b.2 ∈ grown.segment.cells := by
  fun_induction Segment.grow alone roundAll s fresh segment previous current with
  | case1 fresh segment previous current vertices here left grown' finish =>
    cases grows
    exact ⟨goes.isChain_cons latest along, fun b mem => by cases mem⟩
  | case2 => cases grows
  | case3 fresh segment previous current vertices here left grown' on next followed ih =>
    exact ih (goes.isChain_cons latest along) rfl
      ((mem_of_follow followed).1 (List.mem_singleton_self next)).1 grows
  | case4 fresh segment previous current vertices here left grown' on next many followed unwalked =>
    cases grows
    refine ⟨goes.isChain_cons latest along, fun b mem => ?_⟩
    obtain ⟨n, kept, rfl⟩ := List.mem_map.1 mem
    exact ⟨((mem_of_follow followed).1 (List.mem_filter.1 kept).1).1, List.mem_cons_self ..⟩
  | case5 fresh segment previous current vertices old inside =>
    cases grows
    exact ⟨goes.isChain_cons latest along, fun b mem => by cases mem⟩
  | case6 => cases grows

namespace Tracing

theorem drop (tracing : Tracing alone s root fresh ((current, previous) :: rest) walked visited) :
    Tracing alone s root fresh rest walked visited where
  __ := tracing
  waiting b mem := tracing.waiting b (List.mem_cons_of_mem _ mem)

theorem clear (tracing : Tracing alone s root fresh pending walked visited) :
    visited.Nodup ∧ fresh.Nodup ∧ ∀ c ∈ visited, c ∉ fresh := by
  obtain ⟨old, left, apart⟩ := List.nodup_append.1 (tracing.split.nodup_iff.1 s.nodup)
  exact ⟨old, left, fun c met later => apart c met c later rfl⟩

theorem walk (tracing : Tracing alone s root fresh ((current, previous) :: rest) walked visited)
    (here : current ∈ fresh)
    (grows : Segment.grow alone roundAll s fresh (Segment.start alone roundAll previous) previous
      current = .ok grown) :
    ∃ new, Tracing alone s root grown.fresh (grown.branches ++ rest)
      (grown.segment.reverse :: walked) (visited ++ new) := by
  obtain ⟨goes, source⟩ := tracing.waiting _ (List.mem_cons_self ..)
  obtain ⟨-, clear, behind⟩ := tracing.clear
  obtain ⟨new, met, gains⟩ := exists_gains goes grows
  have cells := gains.cells_reverse
  have dashes : grown.segment.reverse.dashed ↔ DashedAt alone previous ∨ ∃ c ∈ new, DashedAt alone c :=
    gains.dashed
  obtain ⟨along, branches⟩ := grow_along (List.isChain_singleton _) rfl goes grows
  have trodden := Trodden.grow tracing.trodden clear rfl (behind _ source)
    (tracing.trodden.new_of_fresh here) grows
  -- What the segment enters leaves the fresh cells and is counted among the visited.
  have split : s.toList.Perm ((visited ++ new.reverse) ++ grown.fresh) := by
    rw [List.append_assoc]
    have gained := gains.gained.trans ((List.reverse_perm new).symm.append_right _)
    exact tracing.split.trans (gained.append_left visited)
  have visits : Visits [root] (grown.segment.reverse :: walked).reverse (visited ++ new.reverse) := by
    rw [List.reverse_cons]
    refine tracing.visits.walk source cells (gains.closing.imp And.left ?_)
    rintro ⟨c, inside, old, rfl⟩
    exact ⟨c, (List.mem_append.1 (split.mem_iff.1 inside)).resolve_right old, rfl⟩
  refine ⟨new.reverse, ⟨split, ?waiting, visits, ?trodden, ?along, ?dashes, ?dashed⟩⟩
  case waiting =>
    intro b member
    rcases List.mem_append.1 member with branch | old
    · obtain ⟨onward, met⟩ := branches b branch
      exact ⟨onward, visits.mem_visited grown.segment.reverse (by simp) _ (List.mem_reverse.2 met)⟩
    · obtain ⟨onward, met⟩ := tracing.waiting b (List.mem_cons_of_mem _ old)
      exact ⟨onward, List.mem_append_left _ met⟩
  case trodden =>
    refine trodden.of_perm ?_
    rw [List.flatMap_cons, Segment.reverse, links_reverse]
    exact (List.reverse_perm _).symm.append_right _
  case along =>
    refine List.forall_mem_cons.2 ⟨?_, tracing.along⟩
    rw [Segment.reverse, List.isChain_reverse]
    exact along
  case dashes =>
    refine List.forall_mem_cons.2 ⟨fun dashed => ?_, tracing.dashes⟩
    rw [cells]
    rcases dashes.1 dashed with first | ⟨c, met, there⟩
    · exact ⟨previous, List.mem_cons_self .., first⟩
    · exact ⟨c, by simp [met], there⟩
  case dashed =>
    refine fun c met there => .inl ?_
    rcases List.mem_append.1 met with old | entered
    · rcases tracing.dashed c old there with ⟨seg, mem, dashed⟩ | ⟨none, rfl⟩
      · exact ⟨seg, List.mem_cons_of_mem _ mem, dashed⟩
      -- The first segment sets out from the root.
      · have only := tracing.visits
        rw [none] at only
        have same : previous = c := List.mem_singleton.1 (only.eq_start ▸ source)
        exact ⟨_, List.mem_cons_self .., dashes.2 (.inl (same ▸ there))⟩
    · exact ⟨_, List.mem_cons_self .., dashes.2 (.inr ⟨c, List.mem_reverse.1 entered, there⟩)⟩

theorem run (tracing : Tracing alone s root fresh pending walked visited)
    (walks : walkAll alone roundAll s fresh pending walked = .ok segs) :
    ∃ fresh visited, Tracing alone s root fresh [] segs.reverse visited := by
  fun_induction walkAll alone roundAll s fresh pending walked generalizing visited with
  | case1 fresh walked =>
    cases walks
    exact ⟨fresh, visited, by rwa [List.reverse_reverse]⟩
  | case2 => cases walks
  | case3 fresh walked current previous rest here grown grows ih =>
    obtain ⟨new, next⟩ := tracing.walk here grows
    exact ih next walks
  | case4 fresh walked current previous rest old inside ih => exact ih tracing.drop walks
  | case5 => cases walks

theorem init {first : Cell} (inside : root ∈ s) (goes : alone.Goes root first) :
    Tracing alone s root (s.toList.erase root) [(first, root)] [] [root] where
  split := List.perm_cons_erase inside
  waiting b mem := by
    rw [List.mem_singleton.1 mem]
    exact ⟨goes, List.mem_singleton_self root⟩
  visits := .none
  trodden := ⟨List.nodup_nil, fun _ _ _ met => by cases met⟩
  along := by simp
  dashes := by simp
  dashed c met _ := .inr ⟨rfl, List.mem_singleton.1 met⟩

end Tracing

theorem Tracing.dashed_iff (tracing : Tracing alone s root fresh pending walked visited) :
    (∃ seg ∈ walked, seg.dashed) ↔ ∃ seg ∈ walked, ∃ c ∈ seg.cells, DashedAt alone c := by
  constructor
  · rintro ⟨seg, mem, dashed⟩
    exact ⟨seg, mem, tracing.dashes seg mem dashed⟩
  · rintro ⟨seg, mem, c, cell, there⟩
    have met := tracing.visits.mem_visited seg (List.mem_reverse.2 mem) c cell
    refine (tracing.dashed c met there).resolve_right fun both => ?_
    rw [both.1] at mem
    cases mem

/-- There are no segments, or all are walked in a search from the first line end. -/
theorem segments_cases (walks : segments alone roundAll s = .ok segs) :
    segs = [] ∨ ∃ root first, s.toList.find? alone.isLineEnd = some root ∧
      Tracing alone s root (s.toList.erase root) [(first, root)] [] [root] ∧
      walkAll alone roundAll s (s.toList.erase root) [(first, root)] [] = .ok segs := by
  unfold segments at walks
  split at walks
  · cases walks
    exact .inl rfl
  · rename_i root found
    split at walks
    · cases walks
    · cases walks
      exact .inl rfl
    · rename_i first others followed
      have goes := ((mem_of_follow followed).1 (List.mem_cons_self ..)).1
      exact .inr ⟨root, first, found, .init (List.mem_of_find?_eq_some found) goes, walks⟩

theorem exists_visited (walks : segments alone roundAll s = .ok segs) :
    ∃ visited, Visits (s.toList.find? alone.isLineEnd).toList segs visited ∧ visited.Nodup ∧
      (segs.flatMap fun seg => links seg.cells).Nodup ∧
      (∀ seg ∈ segs, seg.cells.IsChain alone.Goes) ∧
      ((∃ seg ∈ segs, seg.dashed) ↔ ∃ seg ∈ segs, ∃ c ∈ seg.cells, DashedAt alone c) := by
  rcases segments_cases walks with rfl | ⟨root, first, found, begun, walked⟩
  · have few : (s.toList.find? alone.isLineEnd).toList.Nodup := by
      cases s.toList.find? alone.isLineEnd <;> simp
    exact ⟨_, .none, few, List.nodup_nil, by simp, by simp⟩
  · obtain ⟨fresh, visited, tracing⟩ := begun.run walked
    refine ⟨visited, ?_, tracing.clear.1, ?_, ?_, ?_⟩
    · rw [found]
      simpa using tracing.visits
    · exact ((List.reverse_perm segs).flatMap_right _).nodup_iff.1 tracing.trodden.nodup
    · exact fun seg mem => tracing.along seg (List.mem_reverse.2 mem)
    · simpa only [List.mem_reverse] using tracing.dashed_iff

end Strand

theorem Grid.get_isolate_of_mem {g : Grid} {s : CellSet} {c : Cell} (mem : c ∈ s) :
    (g.isolate s).get c = g.get c := by
  rw [get_isolate, if_pos mem]
  split
  · rfl
  · rw [get_of_not_mem ‹_›]

namespace Layout

open Grid

variable {g : Grid} {s : CellSet}

/-- A strand is traced without taking a step twice. Each segment enters cells not visited before, and
none of these is entered so again; all steps together go between pairs of neighbors in the set, no
pair of them twice; and all lines drawn are dashed just if some cell on them is. -/
theorem strand_steps_once (l : Layout) {lines : List Shape} (drawn : l.strand g s = .ok lines) :
    ∃ segs visited, Strand.trace g l.roundAll s = .ok segs ∧ lines = segs.map l.segment ∧
      Strand.Visits (s.toList.find? (g.isolate s).isLineEnd).toList segs visited ∧
      visited.Nodup ∧ (segs.flatMap fun seg => links seg.cells).Nodup ∧
      (∀ seg ∈ segs, seg.cells.IsChain fun a b => (a ∈ s ∧ b ∈ s) ∧ b ∈ a.orthogonal) ∧
      ∀ line ∈ lines, (line.dashed ↔ ∃ seg ∈ segs, ∃ c ∈ seg.cells, Glyph.isDashed (g.get c)) := by
  cases found : Strand.segments (g.isolate s) l.roundAll s with
  | error fault =>
    rw [strand, Strand.trace_eq, found] at drawn
    cases drawn
  | ok walked =>
    obtain ⟨visited, visits, once, trodden, along, dashed⟩ := Strand.exists_visited found
    -- Anchoring and the common dash leave the cells of a segment as the walk gave them.
    let finish (seg : Segment) : Segment :=
      Segment.connectEnds g (g.isolate s) { seg with dashed := walked.any (·.dashed) }
    have cells (seg : Segment) : (finish seg).cells = seg.cells := Segment.cells_connectEnds ..
    have inside (seg : Segment) (mem : seg ∈ walked) (c : Cell) (cell : c ∈ seg.cells) : c ∈ s :=
      Strand.mem_of_reached ((Strand.segments_ok found c).1.1 ⟨seg, mem, cell⟩)
    have traced : Strand.trace g l.roundAll s = .ok (walked.map finish) := by
      rw [Strand.trace_eq, found]
      rfl
    rw [strand, traced] at drawn
    cases drawn
    refine ⟨walked.map finish, visited, traced, rfl, visits.map cells, once, ?_, ?_, ?_⟩
    · simpa only [List.flatMap_map, cells] using trodden
    · refine List.forall_mem_map.2 fun seg mem => ?_
      rw [cells]
      refine (along seg mem).imp fun a b goes => ⟨goes.mem, Cell.mem_orthogonal.2 goes.exists_step⟩
    · refine List.forall_mem_map.2 (List.forall_mem_map.2 fun seg _ => ?_)
      have whole : (l.segment (finish seg)).dashed = walked.any (·.dashed) :=
        Segment.dashed_connectEnds ..
      rw [whole, List.any_eq_true, dashed]
      constructor
      · rintro ⟨other, mem, c, cell, there⟩
        refine ⟨_, List.mem_map_of_mem mem, c, by rwa [cells], ?_⟩
        rwa [Strand.DashedAt, get_isolate_of_mem (inside other mem c cell)] at there
      · rintro ⟨_, mem, c, cell, there⟩
        obtain ⟨other, member, rfl⟩ := List.mem_map.1 mem
        rw [cells] at cell
        refine ⟨other, member, c, cell, ?_⟩
        rwa [Strand.DashedAt, get_isolate_of_mem (inside other member c cell)]

def lasso : Grid := ⟨4, 3, #['=', '+', '-', '+', ' ', '|', ' ', '|', ' ', '+', '-', '+'], rfl⟩

def lassoStem : Segment :=
  ⟨[⟨0, 0⟩, ⟨1, 0⟩], [⟨⟨0, 0⟩, false, none⟩, ⟨⟨1, 0⟩, false, none⟩], true⟩

def lassoLoop : Segment :=
  ⟨[⟨1, 0⟩, ⟨1, 1⟩, ⟨1, 2⟩, ⟨2, 2⟩, ⟨3, 2⟩, ⟨3, 1⟩, ⟨3, 0⟩, ⟨2, 0⟩, ⟨1, 0⟩],
    [⟨⟨1, 0⟩, false, none⟩, ⟨⟨1, 2⟩, false, none⟩, ⟨⟨3, 2⟩, false, none⟩, ⟨⟨3, 0⟩, false, none⟩,
      ⟨⟨1, 0⟩, false, none⟩], false⟩

def lassoLines : List Segment := [lassoStem, { lassoLoop with dashed := true }]

theorem segments_lasso :
    Strand.segments (lasso.isolate lasso.written) false lasso.written = .ok [lassoStem, lassoLoop] := by
  have found : lasso.written.toList.find? (lasso.isolate lasso.written).isLineEnd
      = some ⟨0, 0⟩ := by decide
  have followed : (lasso.isolate lasso.written).follow ⟨0, 0⟩ none = .ok [⟨1, 0⟩] := by decide
  have stem : Segment.grow (lasso.isolate lasso.written) false lasso.written
      (lasso.written.toList.erase ⟨0, 0⟩)
      (Segment.start (lasso.isolate lasso.written) false ⟨0, 0⟩) ⟨0, 0⟩ ⟨1, 0⟩
      = .ok ⟨lassoStem.reverse, (lasso.written.toList.erase ⟨0, 0⟩).erase ⟨1, 0⟩,
          [(⟨1, 1⟩, ⟨1, 0⟩), (⟨2, 0⟩, ⟨1, 0⟩)]⟩ := by decide +kernel
  have loop : Segment.grow (lasso.isolate lasso.written) false lasso.written
      ((lasso.written.toList.erase ⟨0, 0⟩).erase ⟨1, 0⟩)
      (Segment.start (lasso.isolate lasso.written) false ⟨1, 0⟩) ⟨1, 0⟩ ⟨1, 1⟩
      = .ok ⟨lassoLoop.reverse, [], []⟩ := by decide +kernel
  rw [Strand.segments]
  simp only [found, followed]
  rw [Strand.walkAll_cons (by decide) stem, List.cons_append, Strand.walkAll_cons (by decide) loop,
    List.nil_append, List.cons_append, Strand.walkAll_drop (by decide) (by decide), List.nil_append,
    Strand.walkAll]
  rfl

theorem strand_steps_once_lasso :
    strand ⟨.standard, false⟩ lasso lasso.written
        = .ok (lassoLines.map (segment ⟨.standard, false⟩)) ∧
      ∃ segs visited, Strand.trace lasso false lasso.written = .ok segs ∧
        lassoLines.map (segment ⟨.standard, false⟩) = segs.map (segment ⟨.standard, false⟩) ∧
        Strand.Visits
          (lasso.written.toList.find? (lasso.isolate lasso.written).isLineEnd).toList segs visited ∧
        visited.Nodup ∧ (segs.flatMap fun seg => links seg.cells).Nodup ∧
        (∀ seg ∈ segs, seg.cells.IsChain fun a b =>
          (a ∈ lasso.written ∧ b ∈ lasso.written) ∧ b ∈ a.orthogonal) ∧
        ∀ line ∈ lassoLines.map (segment ⟨.standard, false⟩),
          (line.dashed ↔ ∃ seg ∈ segs, ∃ c ∈ seg.cells, Glyph.isDashed (lasso.get c)) :=
  have traced : Strand.trace lasso false lasso.written = .ok lassoLines := by
    rw [Strand.trace_eq, segments_lasso]
    decide
  have drawn : strand ⟨.standard, false⟩ lasso lasso.written
      = .ok (lassoLines.map (segment ⟨.standard, false⟩)) := by
    rw [strand, traced]
    rfl
  ⟨drawn, strand_steps_once ⟨.standard, false⟩ drawn⟩

end Layout

end Linework
