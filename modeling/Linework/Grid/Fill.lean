import Linework.Grid

/-! Filling a connected area.

Cells are connected through shared edges. A fill marks each cell as it is found and takes the
latest found first; every cell found had the character of the seed, so the cells still holding that
character and the cells still to be left add up to a number that drops with each one left.
-/

set_option autoImplicit false

namespace Linework.Grid

/-- A fill under way: the grid marked so far, the cells found and not yet left, and the cells at
the edge, latest first. -/
structure Front where
  grid : Grid
  found : List Cell
  rim : List Cell

namespace Front

variable (old mark : Char) (edge : Char → Bool)

/-- Looks at one neighbor: takes it up if it belongs to the area, else notes an edge. -/
def visit (f : Front) (n : Cell) : Front :=
  -- A cell whose character is the mark itself would be found again without end.
  if n ∈ f.grid ∧ f.grid.get n = old ∧ old ≠ mark then
    { f with grid := f.grid.set n mark, found := n :: f.found }
  else if edge (f.grid.get n) then { f with rim := n :: f.rim }
  else f

def pending (f : Front) : Nat := f.grid.chars.count old + f.found.length

theorem count_set {g : Grid} {c : Cell} (hc : c ∈ g) (old mark : Char) (hg : g.get c = old)
    (hm : old ≠ mark) : (g.set c mark).chars.count old + 1 = g.chars.count old := by
  have ho := offset_lt hc
  have hv : g.chars[g.offset c] = old := by
    rw [← hg, get_of_mem hc, Array.getD_eq_getD_getElem?, Array.getElem?_eq_getElem ho]
    rfl
  have hs : (g.set c mark).chars = g.chars.set (g.offset c) mark ho := by
    simp [set, hc, Array.setIfInBounds, ho]
  have hp : 0 < g.chars.count old := Array.count_pos_iff.2 (hv ▸ Array.getElem_mem ho)
  rw [hs, Array.count_set, hv]
  simp [Ne.symm hm]
  omega

theorem pending_visit (f : Front) (n : Cell) :
    (f.visit old mark edge n).pending old = f.pending old := by
  unfold visit
  split
  · rename_i h
    have := count_set h.1 old mark h.2.1 h.2.2
    simp only [pending, List.length_cons]
    omega
  · split <;> rfl

theorem pending_foldl_visit (f : Front) (ns : List Cell) :
    (ns.foldl (visit old mark edge) f).pending old = f.pending old := by
  induction ns generalizing f with
  | nil => rfl
  | cons n ns ih => rw [List.foldl_cons, ih, pending_visit]

def run (f : Front) (left : List Cell) : Front × List Cell :=
  match _h : f.found with
  | [] => (f, left)
  | c :: rest => run (c.orthogonal.foldl (visit old mark edge) { f with found := rest }) (c :: left)
termination_by f.pending old
decreasing_by
  rw [pending_foldl_visit]
  simp only [pending, _h, List.length_cons]
  omega

end Front

/-- Writes `char` over the area of the seed, whose cells come in the order in which they were
left. -/
def fill (g : Grid) (seed : Cell) (char : Char) : Except Fault (Grid × List Cell) :=
  if seed ∈ g then
    let old := g.get seed
    if old = char then .ok (g, [])
    else
      let (f, left) := Front.run old char (fun _ => false) ⟨g.set seed char, [seed], []⟩ []
      .ok (f.grid, left.reverse)
  else .error (.seedOutside seed)

def taken : Char := '\u0001'

structure Area where
  interior : List Cell
  rim : CellSet

/-- Marks the area of the seed and collects the cells beside it that hold `edge`. If the seed holds
`edge` itself, the area is a piece of edge and has no rim. -/
def enclose (g : Grid) (seed : Cell) (edge : Char) : Except Fault (Grid × Area) :=
  if seed ∈ g then
    let (f, left) := Front.run (g.get seed) taken (· == edge) ⟨g.set seed taken, [seed], []⟩ []
    .ok (f.grid, ⟨left.reverse, CellSet.ofList f.rim.reverse⟩)
  else .error (.seedOutside seed)

end Linework.Grid
