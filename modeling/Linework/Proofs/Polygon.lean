import Linework.Proofs.Return

/-! Loops that are drawn as polygons.

A set is judged by a walk from a line end, if there is one, but drawn by a walk from its first cell.
The one walk may come back where the other does not: what is a loop then gives no shape. Where lines
lead both ways at their ends, there is no line end in a loop and both walks are the same.
-/

set_option autoImplicit false

namespace Linework

namespace Layout

open Circuit Grid Outline

variable {g : Grid} {s t : CellSet} {l : Layout} {start : Cell} {cells : List Cell}

theorem loop?_of_walk (l : Layout) (large : 1 < s.size) (first : s.first? = some start)
    (walked : walk (g.isolate s) start (patience s) = .ok (.closed cells)) :
    l.loop? g s = .ok (some
      { Shape.polygon ((((start :: cells).filter (g.isolate s).isVertex).map
          (Vertex.ofCell (g.isolate s) l.roundAll)).map l.node) with
        dashed := s.toList.any fun c => Glyph.isDashed ((g.isolate s).get c) }) := by
  rw [loop?, loopVertices?]
  simp only [first, if_neg (Nat.not_lt.2 large), walked]
  rfl

theorem exists_loop?_iff (l : Layout) (large : 1 < s.size) :
    (∃ shape, l.loop? g s = .ok (some shape)) ↔ ∃ start cells, s.first? = some start ∧
      walk (g.isolate s) start (patience s) = .ok (.closed cells) := by
  constructor
  · rintro ⟨shape, drawn⟩
    rw [loop?, loopVertices?] at drawn
    cases first : s.first? with
    | none => simp [first] at drawn
    | some start =>
      simp only [first, if_neg (Nat.not_lt.2 large)] at drawn
      cases walked : walk (g.isolate s) start (patience s) with
      | error fault => simp only [walked] at drawn; cases drawn
      | ok ending =>
        cases ending with
        | closed cells => exact ⟨start, cells, rfl, walked⟩
        | deadEnd | branch | unfinished => simp only [walked] at drawn; cases drawn
  · rintro ⟨start, cells, first, walked⟩
    exact ⟨_, loop?_of_walk l large first walked⟩

/-- A loop is drawn when its cells are listed from where the walk that judged it began. -/
theorem exists_loop?_of_first? (loop : form g s = .loop) (same : s.Same t)
    (first : t.first? = start? (g.isolate s) s) (l : Layout) :
    ∃ shape, l.loop? g t = .ok (some shape) := by
  obtain ⟨large, -, start, cells, found, walked⟩ := form_eq_loop_iff.1 loop
  rw [Grid.isolate_congr g same, patience, same.size_eq] at walked
  exact ⟨_, loop?_of_walk l (same.size_eq ▸ large) (first.trans found) walked⟩

theorem start?_eq_first? {alone : Grid} (endless : ∀ c ∈ s, ¬ alone.isLineEnd c) :
    start? alone s = s.first? := by
  rw [start?, List.find?_eq_none.2 endless, Option.none_or]

theorem trace_loop {shape : Shape} (drawn : l.loop? g s = .ok (some shape)) :
    l.trace g s .loop = .ok (some (.simple shape)) := by
  rw [trace, drawn]
  rfl

/-- A loop is drawn if the walk from its first cell comes back, and only then. That is so if the
cells are listed from where the walk that judged it began, or if lines lead both ways at their
ends. -/
theorem drawn_of_loop (loop : form g s = .loop) (l : Layout) :
    ((∃ shape, l.loop? g s = .ok (some shape)) ↔ ∃ start cells, s.first? = some start ∧
        walk (g.isolate s) start (patience s) = .ok (.closed cells)) ∧
      (∀ t, s.Same t → t.first? = start? (g.isolate s) s →
        ∃ shape, l.trace g t .loop = .ok (some (.simple shape))) ∧
      ((g.isolate s).EndsTwoWay → (∀ c ∈ s, ¬ (g.isolate s).isLineEnd c) ∧
        ∃ shape, l.trace g s .loop = .ok (some (.simple shape))) := by
  have listed (t : CellSet) (same : s.Same t) (first : t.first? = start? (g.isolate s) s) :
      ∃ shape, l.trace g t .loop = .ok (some (.simple shape)) := by
    obtain ⟨shape, drawn⟩ := exists_loop?_of_first? loop same first l
    exact ⟨shape, trace_loop drawn⟩
  refine ⟨exists_loop?_iff l (form_eq_loop_iff.1 loop).1, listed, fun ends => ?_⟩
  have endless : ∀ c ∈ s, ¬ (g.isolate s).isLineEnd c := fun c mem finish =>
    form_ne_loop_of_ends ends mem finish loop
  exact ⟨endless, listed s (fun _ => Iff.rfl) (start?_eq_first? endless).symm⟩

theorem drawn_of_loop_box :
    form box boxWalls = .loop ∧ boxWalls.Same boxRows ∧
      boxRows.first? = start? (box.isolate boxWalls) boxWalls ∧
      (box.isolate boxWalls).EndsTwoWay ∧
      ((∃ shape, (mk .standard false).loop? box boxWalls = .ok (some shape)) ↔
        ∃ start cells, boxWalls.first? = some start ∧
          walk (box.isolate boxWalls) start (patience boxWalls) = .ok (.closed cells)) ∧
      (∃ shape, (mk .standard false).trace box boxRows .loop = .ok (some (.simple shape))) ∧
      (∀ c ∈ boxWalls, ¬ (box.isolate boxWalls).isLineEnd c) ∧
      ∃ shape, (mk .standard false).trace box boxWalls .loop = .ok (some (.simple shape)) :=
  have loop : form box boxWalls = .loop := form_of_ring (by decide) boxWalls_ring
  have same : boxWalls.Same boxRows := by decide
  have first : boxRows.first? = start? (box.isolate boxWalls) boxWalls := by decide +kernel
  have twoWay : (box.isolate boxWalls).TwoWay := .of_cells (by decide +kernel)
  have drawn := drawn_of_loop loop (mk .standard false)
  ⟨loop, same, first, twoWay.ends, drawn.1, drawn.2.1 boxRows same first, drawn.2.2 twoWay.ends⟩

def leaky : Grid := ⟨3, 3, #['+', '+', '+', '+', '*', '+', '+', '-', '|'], rfl⟩

def leakyCells : CellSet :=
  ⟨[⟨2, 0⟩, ⟨1, 0⟩, ⟨2, 1⟩, ⟨2, 2⟩, ⟨0, 2⟩, ⟨0, 1⟩, ⟨0, 0⟩, ⟨1, 2⟩, ⟨1, 1⟩], by decide⟩

/-- The bottom goes on to the wall, which does not lead back. A walk upward from the wall comes back
by the bottom, but one that comes down the wall gets no further. -/
theorem leaky_is_not_drawn :
    form leaky leakyCells = .loop ∧ ∀ l : Layout, l.loop? leaky leakyCells = .ok none := by
  refine ⟨form_eq_loop ⟨2, 2⟩ [⟨2, 1⟩, ⟨2, 0⟩, ⟨1, 0⟩, ⟨0, 0⟩, ⟨0, 1⟩, ⟨0, 2⟩, ⟨1, 2⟩]
      [⟨5, 5⟩, ⟨6, 5⟩, ⟨8, 5⟩, ⟨9, 5⟩, ⟨5, 6⟩, ⟨9, 6⟩] (by decide) (by decide +kernel)
      (by decide +kernel) (by decide +kernel), fun l => ?_⟩
  have first : leakyCells.first? = some ⟨2, 0⟩ := rfl
  have stuck : walk (leaky.isolate leakyCells) ⟨2, 0⟩ (patience leakyCells) = .ok .deadEnd := by
    decide +kernel
  rw [loop?, loopVertices?]
  simp only [first, stuck]
  rfl

end Layout

end Linework
