import Linework.Outline
import Linework.Proofs.Joint

/-! A set of cells alone, moved into a grid of its own.

The move keeps every character and puts blanks around them. A blank and a place beyond the edge are
the same to a line, so cells stay joined as they were.
-/

set_option autoImplicit false

namespace Linework

def Glyph.isVoid (c : Char) : Bool := c == blank || c == outside

/-- Whether two characters are the same to a line. -/
def Glyph.Alike (a b : Char) : Prop := a = b ∨ isVoid a ∧ isVoid b

/-- Whether a condition cannot tell a blank from what lies beyond the edge. -/
def Slot.Level (s : Slot) : Prop := s.accepts Glyph.blank = s.accepts Glyph.outside

instance : DecidablePred Slot.Level := fun s =>
  inferInstanceAs (Decidable (s.accepts Glyph.blank = s.accepts Glyph.outside))

theorem Slot.accepts_congr {s : Slot} {a b : Char} (level : s.Level) (alike : Glyph.Alike a b) :
    s.accepts a = s.accepts b := by
  rcases alike with rfl | ⟨here, there⟩
  · rfl
  · rw [Glyph.isVoid, Bool.or_eq_true, beq_iff_eq, beq_iff_eq] at here there
    rcases here with rfl | rfl <;> rcases there with rfl | rfl
    · rfl
    · exact level
    · exact level.symm
    · rfl

def Pattern.Level (p : Pattern) : Prop := ∀ row ∈ p.rows, ∀ s ∈ row, s.Level

instance : DecidablePred Pattern.Level := fun p =>
  inferInstanceAs (Decidable (∀ row ∈ p.rows, ∀ s ∈ row, s.Level))

/-! No template tells blanks from what lies beyond the edge. -/

theorem Pattern.level_junction (j : Junction) : (junction j).Level := by
  cases j with
  | cross => decide
  | tee missing => cases missing <;> decide

theorem Pattern.level_sharpCorner (t : Turn) : (sharpCorner t).Level := by cases t <;> decide

theorem Pattern.level_roundCorner (t : Turn) : (roundCorner t).Level := by cases t <;> decide

theorem Pattern.level_crossing (a : Axis) : (crossing a).Level := by cases a <;> decide

theorem Pattern.level_stubs : ∀ p ∈ stubs, p.Level := by decide

theorem Pattern.level_stars : ∀ p ∈ stars, p.Level := by decide

namespace Window

structure Alike (w v : Window) : Prop where
  northWest : Glyph.Alike w.northWest v.northWest
  north : Glyph.Alike w.north v.north
  northEast : Glyph.Alike w.northEast v.northEast
  west : Glyph.Alike w.west v.west
  center : Glyph.Alike w.center v.center
  east : Glyph.Alike w.east v.east
  southWest : Glyph.Alike w.southWest v.southWest
  south : Glyph.Alike w.south v.south
  southEast : Glyph.Alike w.southEast v.southEast

variable {w v : Window}

theorem Alike.accepts (alike : w.Alike v) {p : Pattern} (level : p.Level) :
    p.accepts w = p.accepts v := by
  simp only [Pattern.Level, Square.rows, List.forall_mem_cons, List.not_mem_nil, false_implies,
    implies_true, and_true] at level
  obtain ⟨⟨northWest, north, northEast⟩, ⟨west, center, east⟩, southWest, south, southEast⟩ := level
  rw [Pattern.accepts, Pattern.accepts, Square.accepts, Square.accepts,
    Slot.accepts_congr northWest alike.northWest, Slot.accepts_congr north alike.north,
    Slot.accepts_congr northEast alike.northEast, Slot.accepts_congr west alike.west,
    Slot.accepts_congr center alike.center, Slot.accepts_congr east alike.east,
    Slot.accepts_congr southWest alike.southWest, Slot.accepts_congr south alike.south,
    Slot.accepts_congr southEast alike.southEast]

theorem Alike.anyAccepts (alike : w.Alike v) {ps : List Pattern} (level : ∀ p ∈ ps, p.Level) :
    Pattern.anyAccepts ps w = Pattern.anyAccepts ps v := by
  rw [Pattern.anyAccepts, Pattern.anyAccepts, Bool.eq_iff_iff, List.any_eq_true, List.any_eq_true]
  exact exists_congr fun p => and_congr_right fun mem => by rw [alike.accepts (level p mem)]

/-- Around the same character, windows in which lines see no difference give it the same role. -/
theorem Alike.role? (alike : w.Alike v) (same : w.center = v.center) : w.role? = v.role? := by
  have junction : w.junction? = v.junction? := by
    simp only [junction?, alike.accepts (Pattern.level_junction _)]
  have corner : w.corner? = v.corner? := by
    simp only [corner?, alike.accepts (Pattern.level_sharpCorner _),
      alike.accepts (Pattern.level_roundCorner _)]
  have line : w.line? = v.line? := by rw [line?, line?, same]
  have stub : w.isStub = v.isStub := alike.anyAccepts Pattern.level_stubs
  have crossing : w.crossing? = v.crossing? := by
    simp only [crossing?, alike.accepts (Pattern.level_crossing _)]
  have star : w.isStar = v.isStar := alike.anyAccepts Pattern.level_stars
  simp only [Window.role?, same, junction, corner, line, stub, crossing, star]

end Window

namespace CellSet

variable {s : CellSet} {c : Cell}

def Extent.Spans (e : Extent) (c : Cell) : Prop :=
  (e.least.x ≤ c.x ∧ c.x ≤ e.greatest.x) ∧ e.least.y ≤ c.y ∧ c.y ≤ e.greatest.y

theorem Extent.spans_stretch (e : Extent) (c : Cell) : (e.stretch c).Spans c := by
  simp only [Spans, stretch]
  omega

theorem Extent.Spans.stretch {e : Extent} (spans : e.Spans c) (n : Cell) :
    (e.stretch n).Spans c := by
  simp only [Spans, Extent.stretch] at spans ⊢
  omega

theorem Extent.spans_foldl {cells : List Cell} {e : Extent} (covered : c ∈ cells ∨ e.Spans c) :
    (cells.foldl Extent.stretch e).Spans c := by
  induction cells generalizing e with
  | nil => exact covered.resolve_left List.not_mem_nil
  | cons n rest ih =>
    rw [List.foldl_cons]
    refine ih ?_
    rcases covered with mem | spans
    · rcases List.mem_cons.1 mem with rfl | mem
      · exact .inr (e.spans_stretch c)
      · exact .inl mem
    · exact .inr (spans.stretch n)

theorem exists_of_extent? {e : Extent} (found : s.extent? = some e) :
    ∃ first rest, s.toList = first :: rest ∧ rest.foldl Extent.stretch ⟨first, first⟩ = e := by
  rw [extent?] at found
  cases cells : s.toList with
  | nil => simp [cells] at found
  | cons first rest => exact ⟨first, rest, rfl, by simpa [cells] using found⟩

theorem spans_of_extent? {e : Extent} (found : s.extent? = some e) (mem : c ∈ s) : e.Spans c := by
  obtain ⟨first, rest, cells, rfl⟩ := exists_of_extent? found
  rw [mem_def, cells] at mem
  refine Extent.spans_foldl ?_
  rcases List.mem_cons.1 mem with rfl | mem
  · refine .inr ?_
    simp [Extent.Spans]
  · exact .inl mem

theorem extent?_isSome (mem : c ∈ s) : ∃ e, s.extent? = some e := by
  rw [extent?]
  cases cells : s.toList with
  | nil => rw [mem_def, cells] at mem; cases mem
  | cons first rest => exact ⟨_, rfl⟩

end CellSet

namespace Cell

theorem translate_translate_comm (c : Cell) (dx dy ex ey : Int) :
    (c.translate dx dy).translate ex ey = (c.translate ex ey).translate dx dy := by
  ext
  · simp only [translate_x]
    omega
  · simp only [translate_y]
    omega

theorem step_translate (c : Cell) (d : Direction) (dx dy : Int) :
    (c.translate dx dy).step d = (c.step d).translate dx dy := c.translate_translate_comm ..

theorem exists_translate (c : Cell) (dx dy : Int) : ∃ n : Cell, c = n.translate dx dy := by
  refine ⟨c.translate (-dx) (-dy), ?_⟩
  ext <;> simp

def shift (dx dy : Int) : Cell ≃ Cell where
  toFun c := c.translate dx dy
  invFun c := c.translate (-dx) (-dy)
  left_inv c := by ext <;> simp
  right_inv c := by ext <;> simp

theorem translate_injective {c n : Cell} {dx dy : Int}
    (same : c.translate dx dy = n.translate dx dy) : c = n := by
  simp only [translate, mk.injEq] at same
  ext <;> omega

end Cell

theorem CellSet.mem_translate {s : CellSet} {c : Cell} {dx dy : Int} :
    c.translate dx dy ∈ s.translate dx dy ↔ c ∈ s := by
  rw [translate, mem_ofList, List.mem_map]
  constructor
  · rintro ⟨n, mem, same⟩
    exact Cell.translate_injective same ▸ mem
  · exact fun mem => ⟨c, mem, rfl⟩

namespace Grid

variable {g h : Grid} {c : Cell} {dx dy : Int}

/-- A grid that shows the characters of another in other places, and nothing else. -/
def Moves (h g : Grid) (dx dy : Int) : Prop :=
  ∀ c, h.get (c.translate dx dy) = g.get c ∨ h.Empty (c.translate dx dy) ∧ g.Empty c

namespace Moves

variable (moves : h.Moves g dx dy)
include moves

theorem alike (c : Cell) : Glyph.Alike (h.get (c.translate dx dy)) (g.get c) := by
  have void {g : Grid} {c : Cell} (empty : g.Empty c) : Glyph.isVoid (g.get c) := by
    rcases empty with same | same <;> rw [same] <;> decide
  rcases moves c with same | ⟨there, here⟩
  · exact .inl same
  · exact .inr ⟨void there, void here⟩

theorem window (c : Cell) : (h.window (c.translate dx dy)).Alike (g.window c) := by
  have moved (ex ey : Int) : Glyph.Alike (h.get ((c.translate dx dy).translate ex ey))
      (g.get (c.translate ex ey)) := by
    rw [Cell.translate_translate_comm]
    exact moves.alike _
  exact ⟨moved .., moved .., moved .., moved .., moved .., moved .., moved .., moved .., moved ..⟩

theorem role? (c : Cell) : h.role? (c.translate dx dy) = g.role? c := by
  rcases moves c with same | ⟨there, here⟩
  · exact (moves.window c).role? (by rw [center_window, center_window, same])
  · rw [role?_of_empty there, role?_of_empty here]

theorem joints (c : Cell) : h.joints (c.translate dx dy) = g.joints c := by
  unfold Grid.joints inksSide
  simp only [Cell.step_translate, moves.role?]

theorem adj {n : Cell} :
    h.web.Adj (c.translate dx dy) (n.translate dx dy) ↔ g.web.Adj c n := by
  simp only [web, moves.joints, Cell.step_translate]
  exact exists_congr fun d => and_congr_right fun _ =>
    ⟨Cell.translate_injective, fun same => by rw [same]⟩

theorem isAcyclic_iff : h.web.IsAcyclic ↔ g.web.IsAcyclic :=
  SimpleGraph.Iso.isAcyclic_iff ⟨(Cell.shift dx dy).symm, by
    intro a b
    obtain ⟨c, rfl⟩ := a.exists_translate dx dy
    obtain ⟨n, rfl⟩ := b.exists_translate dx dy
    rw [moves.adj]
    exact iff_of_eq (congrArg₂ g.web.Adj ((Cell.shift dx dy).symm_apply_apply c)
      ((Cell.shift dx dy).symm_apply_apply n))⟩

end Moves

theorem get_foldl_set_translate (g h : Grid) (places : List Cell) (c : Cell) :
    (places.foldl (fun acc p => acc.set (p.translate dx dy) (g.get p)) h).get (c.translate dx dy)
      = if c ∈ places ∧ c.translate dx dy ∈ h then g.get c else h.get (c.translate dx dy) := by
  -- Moving is one to one, so each place is set by a single cell.
  induction places generalizing h with
  | nil => simp
  | cons p places ih =>
    have same : c.translate dx dy = p.translate dx dy ↔ c = p :=
      ⟨Cell.translate_injective, fun same => by rw [same]⟩
    rw [List.foldl_cons, ih]
    simp only [get_set, mem_set, same]
    by_cases inside : c.translate dx dy ∈ h <;> by_cases here : c = p <;>
      by_cases later : c ∈ places <;> simp_all

theorem mem_foldl_set {places : List Cell} (f : Cell → Cell) (char : Cell → Char) :
    c ∈ places.foldl (fun acc p => acc.set (f p) (char p)) h ↔ c ∈ h := by
  induction places generalizing h with
  | nil => rfl
  | cons p places ih => rw [List.foldl_cons, ih, mem_set]

end Grid

namespace Outline

variable {g : Grid} {s : CellSet} {c : Cell}

/-- Alone in a grid of their own, the cells of a set show what they show alone in theirs, and lie
off its edges. -/
theorem localize?_moves (inside : ∀ c ∈ s, c ∈ g) (mem : c ∈ s) :
    ∃ alone dx dy, localize? g s = some (alone, s.translate dx dy) ∧
      alone.Moves (g.isolate s) dx dy ∧ ∀ c ∈ s.translate dx dy, ∀ d, c.step d ∈ alone := by
  obtain ⟨e, found⟩ := CellSet.extent?_isSome mem
  -- One blank cell is added on each side, so a step from the set stays in the grid.
  have fits {c : Cell} (mem : c ∈ s) (d : Direction) :
      c.translate (1 - e.least.x) (1 - e.least.y) ∈ Grid.blank (e.width + 2) (e.height + 2) ∧
        (c.translate (1 - e.least.x) (1 - e.least.y)).step d
          ∈ Grid.blank (e.width + 2) (e.height + 2) := by
    have spans := CellSet.spans_of_extent? found mem
    simp only [CellSet.Extent.Spans] at spans
    simp only [Grid.mem_def, Grid.blank, CellSet.Extent.width, CellSet.Extent.height,
      Cell.step_x, Cell.step_y, Cell.translate_x, Cell.translate_y]
    cases d <;> simp only [Direction.dx, Direction.dy] <;> omega
  refine ⟨_, 1 - e.least.x, 1 - e.least.y, by rw [localize?, found]; rfl, fun c => ?_,
    fun n mem d => ?_⟩
  · rw [Grid.Empty, Grid.get_foldl_set_translate]
    by_cases mem : c ∈ s
    · rw [if_pos ⟨mem, (fits mem .north).1⟩, Grid.get_isolate, if_pos (inside c mem), if_pos mem]
      exact .inl rfl
    · refine .inr ⟨?_, Grid.empty_isolate_of_not_mem mem⟩
      rw [if_neg fun h => mem h.1, Grid.get_blank]
      split
      · exact .inl rfl
      · exact .inr rfl
  · obtain ⟨c, rfl⟩ := n.exists_translate (1 - e.least.x) (1 - e.least.y)
    rw [Grid.mem_foldl_set]
    exact (fits (CellSet.mem_translate.1 mem) d).2

/-- A set encloses something if a fill of the margin around its ink leaves a blank. -/
theorem encloses_of_fill {alone : Grid} {there : CellSet}
    (localized : localize? g s = some (alone, there))
    (left : ∃ filled area, (Ink.render alone there).fill ⟨0, 0⟩ Ink.mark = .ok (filled, area) ∧
      filled.hasBlank) : encloses g s = .ok true := by
  obtain ⟨filled, area, done, blank⟩ := left
  rw [encloses, localized]
  simp [done, blank, bind, Except.bind, pure, Except.pure]

end Outline

end Linework
