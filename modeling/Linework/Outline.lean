import Linework.Grid.Fill
import Linework.Grid.Lines
import Linework.Ink

/-! Outlines: the cells that an area of a drawing meets along its edge.

Every connected piece of a drawing is inked alone. It parts the canvas into areas, and the ink along
the edge of each of them is an outline. An area inside a box and the area around it mostly have the
same outline, so outlines may come more than once. An outline is a loop, lines without a loop, or a
mixture that can be taken apart.
-/

set_option autoImplicit false

namespace Linework.Outline

/-- A search for outlines under way: the canvas, the fine cells already seen, and the outlines
found, latest first. -/
structure Survey where
  canvas : Grid
  seen : Grid
  found : List CellSet

/-- Looks at the area of one fine cell. Writing the area's own character back leaves the canvas as
it was. -/
def Survey.look (s : Survey) (c : Cell) : Except Grid.Fault Survey :=
  if s.seen.isBlank c then do
    let char := s.canvas.get c
    let (marked, area) ← s.canvas.enclose c Ink.mark
    let canvas := marked.overwrite area.interior char
    let seen := (s.seen.overwrite area.interior Ink.mark).overwrite area.rim.toList Ink.mark
    let outline := area.rim.shrink Ink.scale
    -- The area of a piece of ink has no rim, and the two sides of a plain line have the same.
    if area.rim.isEmpty || s.found.head?.any (fun last => decide (last.Same outline)) then
      pure ⟨canvas, seen, s.found⟩
    else
      pure ⟨canvas, seen, outline :: s.found⟩
  else pure s

def ofPiece (g : Grid) (piece : CellSet) : Except Grid.Fault (List CellSet) := do
  let canvas := Ink.render g piece
  let survey ← canvas.cells.foldlM Survey.look ⟨canvas, Grid.blank canvas.width canvas.height, []⟩
  pure survey.found.reverse

def all (g : Grid) : Except Grid.Fault (List CellSet) := do
  let pieces ← Ink.pieces (Ink.render g g.inked)
  let outlines ← pieces.mapM (ofPiece g)
  pure outlines.flatten

/-! ### What an outline looks like as a whole -/

inductive Form where
  | strand
  | loop
  | mixed
  deriving DecidableEq, Repr

/-- The characters of a set alone, in a grid that leaves one blank cell on every side. -/
def localize? (g : Grid) (s : CellSet) : Option (Grid × CellSet) :=
  s.extent?.map fun e =>
    let dx := 1 - e.least.x
    let dy := 1 - e.least.y
    let alone := s.toList.foldl (fun acc c => acc.set (c.translate dx dy) (g.get c))
      (Grid.blank (e.width + 2) (e.height + 2))
    (alone, s.translate dx dy)

/-- Whether the ink of the set keeps some blank apart from the outside. -/
def encloses (g : Grid) (s : CellSet) : Except Grid.Fault Bool :=
  match localize? g s with
  | none => pure false
  | some (alone, there) => do
    let (flooded, _) ← (Ink.render alone there).fill ⟨0, 0⟩ Ink.mark
    pure flooded.hasBlank

def patience (s : CellSet) : Nat := s.size * 4

/-- Where the walk around a set begins: at a line end, if there is one. -/
def start? (alone : Grid) (s : CellSet) : Option Cell :=
  (s.toList.find? alone.isLineEnd).or s.first?

/-- A set that encloses something is a loop if a walk through its cells alone comes back. -/
def form (g : Grid) (s : CellSet) : Form :=
  if s.size ≤ 1 then .strand
  else match encloses g s with
    | .ok true =>
      -- Cells that the walk does not come by are not looked at.
      let alone := g.isolate s
      match (start? alone s).map fun start => Circuit.walk alone start (patience s) with
      | some (.ok (.closed _)) => .loop
      | _ => .mixed
    | _ => .strand

/-! ### An outline together with the area inside it -/

def solid (s : CellSet) (e : CellSet.Extent) : Grid :=
  (Grid.blank (e.width + 2) (e.height + 2)).overwrite
    (s.toList.map (·.translate (1 - e.least.x) (1 - e.least.y))) Ink.mark

def wall? (g : Grid) : Option Cell :=
  g.cells.find? fun c => !g.isBlank c && g.isBlank c.east && g.isBlank c.west

def atEdge (g : Grid) (c : Cell) : Bool :=
  c.x == 0 || c.y == 0 || c.x == (g.width : Int) - 1 || c.y == (g.height : Int) - 1

/-- The set and the area east of its first wall. There is no answer for the empty set and where
that area reaches the outside; a set without a wall is its own answer. -/
def filled? (s : CellSet) : Option CellSet := do
  let e ← s.extent?
  let block := solid s e
  match wall? block with
  | none => some s
  | some wall =>
    -- One area only: blanks that the set parts from it stay out.
    match block.fill wall.east Ink.mark with
    | .error _ => none
    | .ok (_, area) =>
      if area.any (atEdge block) then none
      else some (s.extend (area.map (·.translate (e.least.x - 1) (e.least.y - 1))))

/-! ### Taking a mixed outline apart at its branches

From each line end a run of cells is walked up to the first branch, which it leaves out, or to
another line end. What the runs leave over is one more part.
-/

/-- A finished run, latest cell first, and the line end it came to, if it came to one. -/
structure Run where
  cells : List Cell
  finish : Option Cell

/-- Extends a run through the cells of `s` that it has not passed. Only cells of the set can be
followed in a grid that holds nothing else. -/
def extendRun (alone : Grid) (s : CellSet) (fresh passed : List Cell) (previous : Option Cell)
    (current : Cell) : Except Grid.Fault Run :=
  match alone.follow current previous with
  | .error fault => .error fault
  | .ok [next] =>
    if _h : next ∈ fresh then
      match alone.follow next (some current) with
      | .error fault => .error fault
      | .ok onward =>
        if onward.length > 1 then .ok ⟨passed, none⟩
        else if alone.isLineEnd next then .ok ⟨next :: passed, some next⟩
        else extendRun alone s (fresh.erase next) (next :: passed) (some current) next
    else if next ∈ s then .ok ⟨passed, none⟩
    else .error (alone.unclassifiable next)
  | .ok _ => .ok ⟨passed, none⟩
termination_by fresh.length
decreasing_by
  exact CellSet.length_erase_lt _h

/-- Starts a run at a line end that no run has reached yet; gives the runs, latest first, and the
line ends reached. -/
def takeRun (alone : Grid) (s : CellSet) (state : List CellSet × List Cell) (c : Cell) :
    Except Grid.Fault (List CellSet × List Cell) :=
  if c ∈ state.2 ∨ ¬ alone.isLineEnd c then pure state
  else do
    -- The cells of earlier runs are open to this one.
    let run ← extendRun alone s (s.toList.erase c) [c] none c
    pure (CellSet.ofList run.cells.reverse :: state.1, run.finish.toList ++ c :: state.2)

def parts (g : Grid) (s : CellSet) : Except Grid.Fault (List CellSet) := do
  let (runs, _) ← s.toList.foldlM (takeRun (g.isolate s) s) ([], [])
  let rest := runs.foldl CellSet.diff s
  pure (runs.reverse ++ if rest.isEmpty then [] else [rest])

end Linework.Outline
