import Linework.Proofs.Steps

/-! How far the segments of a strand reach.

A segment has a vertex at its first cell, wherever the line bends, branches or ends, and at a cell that
was walked before, where it stops. It also stops, without a vertex, at a line character from which the
line goes on in no way or in several: then it falls short of its last cell. That cannot happen where
lines lead back from wherever they go on to and lines meet at every corner character.
-/

set_option autoImplicit false

namespace Linework

namespace Grid

variable {g : Grid} {s : CellSet} {p c : Cell} {next : List Cell} {d : Direction}

theorem mem_of_isCorner_isolate (corner : Glyph.isCorner ((g.isolate s).get c)) : c ∈ s := by
  by_contra out
  have dark := not_runs_of_empty (d := .north) (empty_isolate_of_not_mem (g := g) out)
  rw [Glyph.runs_of_isCorner corner] at dark
  cases dark

theorem isInked_of_runs (meet : Glyph.isCorner (g.get c) → g.isInked c)
    (runs : Glyph.runs d (g.get c)) : g.isInked c := by
  by_cases corner : Glyph.isCorner (g.get c)
  · exact meet corner
  · have line : Glyph.isLine (g.get c) := by
      cases d <;> simp_all [Glyph.runs, Direction.isHorizontal, Glyph.runsHorizontally,
        Glyph.runsVertically, Glyph.isLine]
    obtain ⟨a, found⟩ := line?_of_isLine line
    exact Window.isInked_of_line? found

theorem hasArm_of_came {a : Axis} (line : (g.window c).line? = some a) (flat : g.isVertex c = false)
    (came : g.Goes p c) (back : g.Goes c p) : ∀ d ∈ a.arms, (g.window c).hasArm d := by
  obtain ⟨e, rfl⟩ := back.exists_step
  have arm := back.runs
  have entered := came.hasArm
  rw [runs_of_line? line, List.contains_iff_mem] at arm
  rw [isVertex, Window.isVertex_of_line? line, Window.isLineEnd_of_line? line] at flat
  cases a with
  | horizontal =>
    simp only [Axis.arms, List.mem_cons, List.not_mem_nil, or_false] at arm ⊢
    rintro d (rfl | rfl) <;> rcases arm with rfl | rfl <;> simp_all
  | vertical =>
    simp only [Axis.arms, List.mem_cons, List.not_mem_nil, or_false] at arm ⊢
    rintro d (rfl | rfl) <;> rcases arm with rfl | rfl <;> simp_all

/-- A line goes straight through a cell that is no vertex. -/
theorem length_of_not_isVertex (meet : ∀ c, Glyph.isCorner (g.get c) → g.isInked c)
    (flat : g.isVertex c = false) (came : g.Goes p c) (back : g.Goes c p)
    (found : g.continuations? c = some next) : next.length = 2 := by
  have two (a : Axis) : (a.arms.map c.step).length = 2 := by cases a <;> rfl
  obtain ⟨r, role, on⟩ := runsOn_of_continuations? found
  have shows := Window.shows_of_role? role
  cases on with
  | junction j => simp_all [isVertex, Window.isVertex, Window.Shows]
  | corner k => simp_all [isVertex, Window.isVertex, Window.Shows]
  | stub => simp_all [isVertex, Window.isVertex, Window.isLineEnd, Window.Shows]
  | crossing a => exact two a
  | line a =>
    rw [List.filter_eq_self.2, two a]
    refine List.forall_mem_map.2 fun d arm => ?_
    have drawn := hasArm_of_came shows flat came back d arm
    rw [hasArm_window] at drawn
    exact isInked_of_runs (meet _) drawn

theorem isVertex_of_isLineEnd (finish : g.isLineEnd c) : g.isVertex c := by
  rw [isLineEnd] at finish
  simp [isVertex, Window.isVertex, finish]

theorem TwoWay.isVertex_of_breaks (twoWay : g.TwoWay)
    (meet : ∀ c, Glyph.isCorner (g.get c) → g.isInked c) (breaks : g.Breaks p c) :
    g.isVertex c := by
  obtain ⟨came, onward, followed, many⟩ := breaks
  have back := twoWay p c came
  obtain ⟨next, found, perm⟩ := perm_of_follow back followed
  by_contra flat
  have two := length_of_not_isVertex meet (eq_false_of_ne_true flat) came back found
  rw [perm.length_eq, List.length_cons] at two
  omega

end Grid

namespace Segment

variable {alone : Grid} {roundAll : Bool} {seg : Segment} {first last : Cell} {inner marks : List Cell}

def Spans (seg : Segment) : Prop :=
  2 ≤ seg.vertices.length ∧ (seg.vertices.map (·.cell)).head? = seg.cells.head? ∧
    (seg.vertices.map (·.cell)).getLast? = seg.cells.getLast?

instance : DecidablePred Spans := fun _ => inferInstanceAs (Decidable (_ ∧ _ ∧ _))

theorem spans_iff (cells : seg.cells = first :: (inner ++ [last]))
    (vertices : seg.vertices = (first :: marks).map (Vertex.ofCell alone roundAll)) :
    seg.Spans ↔ marks.getLast? = some last := by
  have drawn : seg.vertices.map (·.cell) = first :: marks := by
    rw [vertices, List.map_map]
    exact List.map_id _
  have final : seg.cells.getLast? = some last := by
    rw [cells, ← List.cons_append, List.getLast?_concat]
  rw [Spans, ← List.length_map (·.cell), drawn, final, cells]
  cases marks <;> simp

theorem Spans.points (spans : seg.Spans) (cells : seg.cells = first :: (inner ++ [last]))
    (l : Layout) : 2 ≤ (l.segment seg).points.length ∧
      (l.segment seg).points.getLast? = some (l.cellSize.center last) := by
  obtain ⟨many, -, final⟩ := spans
  have points : (l.segment seg).points = (seg.vertices.map (·.cell)).map l.cellSize.center := by
    simp only [Layout.segment, Shape.polyline, Shape.points, List.map_map]
    rfl
  rw [points, List.length_map, List.length_map, List.getLast?_map, final, cells, ← List.cons_append,
    List.getLast?_concat]
  exact ⟨many, rfl⟩

end Segment

namespace Strand

open Grid Segment

variable {alone : Grid} {s : CellSet} {roundAll : Bool} {root c current first last : Cell}
  {fresh visited inner : List Cell} {pending rest : List (Cell × Cell)} {grown : Segment.Growth}
  {walked segs : List Segment} {seg : Segment}

/-- How a segment went from its first cell to its last, after others had been walked. -/
structure Leg (alone : Grid) (roundAll : Bool) (earlier : List Segment) (seg : Segment) (first : Cell)
    (inner : List Cell) (last : Cell) : Prop where
  cells : seg.cells = first :: (inner ++ [last])
  starts : seg.vertices.head? = some (Vertex.ofCell alone roundAll first)
  spans_iff : seg.Spans ↔
    alone.isVertex last ∨ last ∈ first :: inner ∨ ∃ other ∈ earlier, last ∈ other.cells
  stops : seg.Spans ∨ ∃ p, alone.Breaks p last

def Legs (alone : Grid) (roundAll : Bool) (segs : List Segment) : Prop :=
  ∀ before seg after, segs = before ++ seg :: after →
    ∃ first inner last, Leg alone roundAll before seg first inner last

theorem Legs.concat (legs : Legs alone roundAll segs)
    (leg : Leg alone roundAll segs seg first inner last) : Legs alone roundAll (segs ++ [seg]) := by
  intro before other after same
  rcases after.eq_nil_or_concat with rfl | ⟨between, final, rfl⟩
  · obtain ⟨rfl, final⟩ := List.append_inj' same rfl
    cases final
    exact ⟨first, inner, last, leg⟩
  · rw [List.concat_eq_append, ← List.cons_append, ← List.append_assoc] at same
    obtain ⟨rfl, -⟩ := List.append_inj' same rfl
    exact legs before other between rfl

theorem Visits.mem_walked (visits : Visits [root] segs visited) (source : first ∈ visited)
    (met : c ∈ visited) : c = first ∨ ∃ seg ∈ segs, c ∈ seg.cells := by
  induction visits generalizing first with
  | none => exact .inl ((List.mem_singleton.1 met).trans (List.mem_singleton.1 source).symm)
  | @walk segs visited seg start new last _ leaves cells closing ih =>
    refine .inr ?_
    rcases List.mem_append.1 met with old | entered
    · rcases ih leaves old with rfl | ⟨other, mem, cell⟩
      · exact ⟨seg, by simp, by simp [cells]⟩
      · exact ⟨other, List.mem_append_left _ mem, cell⟩
    · exact ⟨seg, by simp, by simp [cells, entered]⟩

namespace Gains

variable {new : List Cell}

theorem starts {met : List Cell} (gains : Gains alone roundAll s fresh
      (Segment.start alone roundAll first) grown new met) :
    grown.segment.reverse.vertices.head? = some (Vertex.ofCell alone roundAll first) := by
  rw [gains.vertices_reverse]
  rfl

/-- A segment that stops at a fresh cell reaches it just if it has a vertex there. -/
theorem spans_iff (gains : Gains alone roundAll s fresh
      (Segment.start alone roundAll first) grown (last :: inner) []) (once : last ∉ inner) :
    grown.segment.reverse.Spans ↔ alone.isVertex last := by
  have cells := gains.cells_reverse
  have vertices := gains.vertices_reverse
  rw [List.append_nil, List.reverse_cons] at cells vertices
  rw [Segment.spans_iff cells vertices, List.filter_append]
  cases vertex : alone.isVertex last with
  | true => simp [vertex]
  | false =>
    simp only [List.filter_singleton, vertex, cond_false, List.append_nil, Bool.false_eq_true,
      iff_false]
    intro final
    exact once (List.mem_reverse.1 (List.mem_filter.1 (List.mem_of_getLast? final)).1)

theorem spans_of_met (gains : Gains alone roundAll s fresh
      (Segment.start alone roundAll first) grown new [last]) : grown.segment.reverse.Spans := by
  rw [Segment.spans_iff gains.cells_reverse gains.vertices_reverse, List.getLast?_concat]

end Gains

namespace Tracing

theorem leg (tracing : Tracing alone s root fresh ((current, first) :: rest) walked visited)
    (grows : Segment.grow alone roundAll s fresh (Segment.start alone roundAll first) first
      current = .ok grown) :
    ∃ inner last, Leg alone roundAll walked.reverse grown.segment.reverse first inner last := by
  obtain ⟨goes, source⟩ := tracing.waiting _ (List.mem_cons_self ..)
  obtain ⟨-, clear, behind⟩ := tracing.clear
  obtain ⟨new, met, gains⟩ := exists_gains goes grows
  have cells := gains.cells_reverse
  -- A segment ends at a cell it entered, or at one that was met before.
  rcases gains.closing with ⟨rfl, last, latest, halts⟩ | ⟨last, inside, old, rfl⟩
  · obtain ⟨inner, rfl⟩ := List.head?_eq_some_iff.1 latest
    rw [List.append_nil, List.reverse_cons] at cells
    have here : last ∈ fresh := gains.gained.mem_iff.2 (by simp)
    have once : last ∉ inner := by
      have nodup := gains.gained.nodup_iff.1 clear
      rw [List.cons_append, List.nodup_cons] at nodup
      exact fun again => nodup.1 (List.mem_append_left _ again)
    have apart : last ≠ first := by
      rintro rfl
      exact behind _ source here
    have unmet : ¬ ∃ other ∈ walked.reverse, last ∈ other.cells := fun ⟨other, mem, cell⟩ =>
      behind last (tracing.visits.mem_visited other mem last cell) here
    have spans := gains.spans_iff once
    refine ⟨inner.reverse, last, cells, gains.starts, ?_, ?_⟩
    · rw [spans, or_iff_left unmet, List.mem_cons, List.mem_reverse]
      exact (or_iff_left (not_or.2 ⟨apart, once⟩)).symm
    · rw [spans]
      exact halts.imp_left isVertex_of_isLineEnd
  · have spans := gains.spans_of_met
    refine ⟨new.reverse, last, cells, gains.starts, iff_of_true spans (.inr ?_), .inl spans⟩
    have known := tracing.split.mem_iff.1 inside
    rw [List.mem_append, gains.gained.mem_iff, List.mem_append, or_iff_left old] at known
    rcases known with visited | new
    · exact (tracing.visits.mem_walked source visited).imp_left fun same => by simp [same]
    · exact .inl (List.mem_cons_of_mem _ (List.mem_reverse.2 new))

theorem legs (tracing : Tracing alone s root fresh pending walked visited)
    (before : Legs alone roundAll walked.reverse)
    (walks : walkAll alone roundAll s fresh pending walked = .ok segs) : Legs alone roundAll segs := by
  fun_induction walkAll alone roundAll s fresh pending walked generalizing visited with
  | case1 fresh walked =>
    cases walks
    exact before
  | case2 => cases walks
  | case3 fresh walked current previous rest here grown grows ih =>
    obtain ⟨new, next⟩ := tracing.walk here grows
    obtain ⟨inner, last, leg⟩ := tracing.leg grows
    refine ih next ?_ walks
    rw [List.reverse_cons]
    exact before.concat leg
  | case4 fresh walked current previous rest old inside ih => exact ih tracing.drop before walks
  | case5 => cases walks

end Tracing

theorem legs_segments (walks : segments alone roundAll s = .ok segs) : Legs alone roundAll segs := by
  have none : Legs alone roundAll [] := fun before seg after same => by simp at same
  rcases segments_cases walks with rfl | ⟨root, first, -, begun, walked⟩
  · exact none
  · exact begun.legs none walked

end Strand

namespace Layout

open Grid

variable {g : Grid} {s : CellSet} {before after : List Segment} {seg : Segment}

/-- A segment, before its ends are connected, sets out from the middle of the first cell walked. It goes
to that of the last one just if this is a vertex of the drawing or was walked before; so it does
wherever lines lead back from where they go on to and lines meet at every corner character of the
set. -/
theorem segment_spans (l : Layout)
    (walks : Strand.segments (g.isolate s) l.roundAll s = .ok (before ++ seg :: after)) :
    ∃ first inner last, seg.cells = first :: (inner ++ [last]) ∧
      (l.segment seg).points.head? = some (l.cellSize.center first) ∧
      (seg.Spans → 2 ≤ (l.segment seg).points.length ∧
        (l.segment seg).points.getLast? = some (l.cellSize.center last)) ∧
      (seg.Spans ↔ (g.isolate s).isVertex last ∨ last ∈ first :: inner ∨
        ∃ other ∈ before, last ∈ other.cells) ∧
      ((g.isolate s).TwoWay → (∀ c ∈ s, Glyph.isCorner (g.get c) → (g.isolate s).isInked c) →
        seg.Spans) := by
  obtain ⟨first, inner, last, leg⟩ := Strand.legs_segments walks before seg after rfl
  refine ⟨first, inner, last, leg.cells, ?_, fun spans => spans.points leg.cells l, leg.spans_iff,
    fun twoWay meet => ?_⟩
  · rw [segment, Shape.polyline, Shape.points, List.head?_map, List.head?_map, leg.starts]
    rfl
  · have joined (c : Cell) (corner : Glyph.isCorner ((g.isolate s).get c)) :
        (g.isolate s).isInked c := by
      have inside := mem_of_isCorner_isolate corner
      rw [get_isolate_of_mem inside] at corner
      exact meet c inside corner
    rcases leg.stops with spans | ⟨p, breaks⟩
    · exact spans
    · exact leg.spans_iff.2 (.inl (twoWay.isVertex_of_breaks joined breaks))

theorem segment_spans_lasso :
    Strand.segments (lasso.isolate lasso.written) false lasso.written
        = .ok ([lassoStem] ++ lassoLoop :: []) ∧
      (lasso.isolate lasso.written).TwoWay ∧
      (∀ c ∈ lasso.written, Glyph.isCorner (lasso.get c) →
        (lasso.isolate lasso.written).isInked c) ∧
      lassoLoop.Spans :=
  have twoWay : (lasso.isolate lasso.written).TwoWay := .of_cells (by decide +kernel)
  have meet : ∀ c ∈ lasso.written, Glyph.isCorner (lasso.get c) →
      (lasso.isolate lasso.written).isInked c := by decide +kernel
  have walks : Strand.segments (lasso.isolate lasso.written) false lasso.written
      = .ok ([lassoStem] ++ lassoLoop :: []) := segments_lasso
  have spans : lassoLoop.Spans := by
    obtain ⟨_, _, _, -, -, -, -, spans⟩ := segment_spans ⟨.standard, false⟩ walks
    exact spans twoWay meet
  ⟨walks, twoWay, meet, spans⟩

def bends : Grid := ⟨3, 3, #['-', '-', '\\', '-', '-', '\\', ' ', ' ', '|'], rfl⟩

def upperBend : CellSet := ⟨[⟨0, 0⟩, ⟨1, 0⟩, ⟨2, 0⟩], by decide⟩

def upperLine : Segment := ⟨[⟨0, 0⟩, ⟨1, 0⟩], [⟨⟨0, 0⟩, false, none⟩], false⟩

/-- From the last dash the line goes on in no way, so nothing is drawn of it but the point where it
begins. -/
theorem upperLine_not_spans :
    Strand.segments (bends.isolate upperBend) false upperBend = .ok [upperLine] ∧
      upperLine.cells = [⟨0, 0⟩, ⟨1, 0⟩] ∧ upperLine.vertices.length = 1 ∧ ¬ upperLine.Spans := by
  have found : upperBend.toList.find? (bends.isolate upperBend).isLineEnd = some ⟨0, 0⟩ := by decide
  have followed : (bends.isolate upperBend).follow ⟨0, 0⟩ none = .ok [⟨1, 0⟩] := by decide
  have grows : Segment.grow (bends.isolate upperBend) false upperBend
      (upperBend.toList.erase ⟨0, 0⟩) (Segment.start (bends.isolate upperBend) false ⟨0, 0⟩) ⟨0, 0⟩
      ⟨1, 0⟩ = .ok ⟨upperLine.reverse, [⟨2, 0⟩], []⟩ := by decide +kernel
  refine ⟨?_, rfl, rfl, by decide⟩
  rw [Strand.segments]
  simp only [found, followed]
  rw [Strand.walkAll_cons (by decide) grows, List.nil_append, Strand.walkAll]
  rfl

end Layout

end Linework
