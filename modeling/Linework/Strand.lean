import Linework.Grid.Lines

/-! Open lines as chains of cells.

A walk through a set of cells starts at a line end and goes from cell to cell. Where lines meet it
ends, and one new walk starts along each branch not yet walked; so a network of lines becomes
several segments.
-/

set_option autoImplicit false

namespace Linework

structure Vertex where
  cell : Cell
  round : Bool
  heading : Option Direction
  deriving DecidableEq, Repr

structure Segment where
  cells : List Cell
  vertices : List Vertex
  dashed : Bool
  deriving DecidableEq, Repr

/-- What a line end may be connected with: an arrowhead, or a corner or a junction that takes the
end over. -/
inductive Beyond where
  | arrowhead (heading : Direction)
  | joint (cell : Cell)
  deriving DecidableEq, Repr

def Role.isJoint : Role → Bool
  | .junction _ | .corner _ | .stub | .crossing _ => true
  | .line _ | .star => false

def Beyond.of? (g : Grid) (finish : Cell) (heading : Direction) : Option Beyond :=
  let c := finish.step heading
  if Arrow.at? g c = some heading then some (.arrowhead heading)
  else if (g.role? c).any Role.isJoint then some (.joint c)
  else none

namespace Vertex

def ofCell (alone : Grid) (roundAll : Bool) (c : Cell) : Vertex :=
  ⟨c, (roundAll && (alone.window c).corner?.isSome) || alone.isRoundCorner c, none⟩

def connect (v : Vertex) : Option Beyond → Vertex
  | none => v
  | some (.arrowhead heading) => { v with heading := some heading }
  | some (.joint c) => { v with cell := c }

end Vertex

namespace Segment

/-- The latest cell first, as long as the segment grows. -/
def start (alone : Grid) (roundAll : Bool) (c : Cell) : Segment :=
  ⟨[c], [Vertex.ofCell alone roundAll c], Glyph.isDashed (alone.get c)⟩

def reverse (s : Segment) : Segment := ⟨s.cells.reverse, s.vertices.reverse, s.dashed⟩

/-- The cells of a set not yet walked, after a segment is finished, and the branches at its end,
each with the cell to enter it from. -/
structure Growth where
  segment : Segment
  fresh : List Cell
  branches : List (Cell × Cell)

/-- Walks on to `current` from the latest cell of the segment. The segment ends at a cell walked
before, at a line end, and where the line does not go on in exactly one way. -/
def grow (alone : Grid) (roundAll : Bool) (s : CellSet) (fresh : List Cell) (segment : Segment)
    (previous current : Cell) : Except Grid.Fault Growth :=
  let vertices := Vertex.ofCell alone roundAll current :: segment.vertices
  if _h : current ∈ fresh then
    let fresh := fresh.erase current
    let segment : Segment :=
      ⟨current :: segment.cells,
        if alone.isVertex current then vertices else segment.vertices,
        segment.dashed || Glyph.isDashed (alone.get current)⟩
    if alone.isLineEnd current then .ok ⟨segment, fresh, []⟩
    else
      match alone.follow current (some previous) with
      | .error fault => .error fault
      | .ok [next] => grow alone roundAll s fresh segment current next
      | .ok next =>
        -- A branch outside the set is kept, for the walk to report.
        let unwalked := next.filter fun c => decide (c ∈ fresh ∨ c ∉ s)
        .ok ⟨segment, fresh, unwalked.map fun c => (c, current)⟩
  -- The segment meets a line walked before and ends on it.
  else if current ∈ s then .ok ⟨⟨current :: segment.cells, vertices, segment.dashed⟩, fresh, []⟩
  else .error (alone.unclassifiable current)
termination_by fresh.length
decreasing_by
  exact CellSet.length_erase_lt _h

theorem fresh_grow_le {alone : Grid} {roundAll : Bool} {s : CellSet} {fresh : List Cell}
    {segment : Segment} {previous current : Cell} {grown : Growth}
    (h : grow alone roundAll s fresh segment previous current = .ok grown) :
    grown.fresh.length ≤ fresh.length := by
  fun_induction grow alone roundAll s fresh segment previous current with
  | case1 => cases h; exact List.length_erase_le
  | case2 => cases h
  | case3 _ _ _ _ _ _ _ _ _ _ _ ih => exact Nat.le_trans (ih h) List.length_erase_le
  | case4 => cases h; exact List.length_erase_le
  | case5 => cases h; exact Nat.le_refl _
  | case6 => cases h

theorem fresh_grow_lt {alone : Grid} {roundAll : Bool} {s : CellSet} {fresh : List Cell}
    {segment : Segment} {previous current : Cell} {grown : Growth} (hc : current ∈ fresh)
    (h : grow alone roundAll s fresh segment previous current = .ok grown) :
    grown.fresh.length < fresh.length := by
  have hl := List.length_erase_of_mem hc
  have hp := List.length_pos_of_mem hc
  unfold grow at h
  simp only [hc, dif_pos] at h
  split at h
  · cases h; simp only; omega
  · split at h
    · cases h
    · have := fresh_grow_le h; omega
    · cases h; simp only; omega

def connectEnds (g alone : Grid) (seg : Segment) : Segment :=
  let connectAt (finish inner : Cell) (v : Vertex) : Vertex :=
    if alone.isLineEnd finish then
      match inner.directionTo? finish with
      | some heading => v.connect (Beyond.of? g finish heading)
      | none => v
    else v
  match seg.cells, seg.cells.reverse with
  | first :: second :: _, last :: beforeLast :: _ =>
    let vertices := seg.vertices.modifyHead (connectAt first second)
    let final := vertices.length - 1
    { seg with vertices := vertices.modify final (connectAt last beforeLast) }
  | _, _ => seg

end Segment

namespace Strand

def walkAll (alone : Grid) (roundAll : Bool) (s : CellSet) (fresh : List Cell)
    (branches : List (Cell × Cell)) (walked : List Segment) : Except Grid.Fault (List Segment) :=
  match branches with
  | [] => .ok walked.reverse
  | (current, previous) :: rest =>
    if _h : current ∈ fresh then
      match _hg : Segment.grow alone roundAll s fresh (Segment.start alone roundAll previous)
          previous current with
      | .error fault => .error fault
      | .ok grown =>
        walkAll alone roundAll s grown.fresh (grown.branches ++ rest)
          (grown.segment.reverse :: walked)
    -- Another segment has come by here since the branch was met.
    else if current ∈ s then walkAll alone roundAll s fresh rest walked
    else .error (alone.unclassifiable current)
termination_by (fresh.length, branches.length)
decreasing_by
  · exact Prod.Lex.left _ _ (Segment.fresh_grow_lt _h _hg)
  · exact Prod.Lex.right _ (Nat.lt_succ_self _)

/-- The segments of a set in the order in which they are walked, before their ends are connected.
There are none if the set has no line end to start from. -/
def segments (alone : Grid) (roundAll : Bool) (s : CellSet) : Except Grid.Fault (List Segment) :=
  match s.toList.find? alone.isLineEnd with
  | none => .ok []
  | some start =>
    match alone.follow start none with
    | .error fault => .error fault
    | .ok [] => .ok []
    -- Cells that no walk from this line end comes to are in no segment.
    | .ok (first :: _) => walkAll alone roundAll s (s.toList.erase start) [(first, start)] []

/-- The segments of a set within a drawing. A single dashed one makes all of them dashed. -/
def trace (g : Grid) (roundAll : Bool) (s : CellSet) : Except Grid.Fault (List Segment) := do
  let alone := g.isolate s
  let found ← segments alone roundAll s
  let dashed := found.any (·.dashed)
  pure (found.map fun seg => Segment.connectEnds g alone { seg with dashed := dashed })

end Strand

end Linework
