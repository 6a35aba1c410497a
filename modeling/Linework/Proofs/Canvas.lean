import Linework.Proofs.Arms
import Linework.Proofs.Region

/-! What a canvas shows before and after it is filled.

Ink is found at the places of the cells drawn and nowhere else. A fill changes no cell that cannot be
reached from its seed through cells of the same character.
-/

set_option autoImplicit false

namespace Linework

namespace Grid

variable {g canvas : Grid} {c : Cell}

theorem hasBlank_of_get (found : g.get c = Glyph.blank) : g.hasBlank := by
  have mem : c ∈ g := mem_of_get_ne_outside (by rw [found]; decide)
  rw [get_of_mem mem, Array.getD_eq_getD_getElem?, Array.getElem?_eq_getElem (offset_lt mem),
    Option.getD_some] at found
  rw [hasBlank, Array.any_eq_true]
  exact ⟨g.offset c, offset_lt mem, by rw [found]; rfl⟩

theorem exists_blank (found : g.hasBlank) : ∃ c, g.get c = Glyph.blank := by
  rw [hasBlank, Array.any_eq_true] at found
  obtain ⟨i, bound, blank⟩ := found
  exact ⟨g.cellAt i, (get_cellAt bound).trans (beq_iff_eq.1 blank)⟩

/-- A fill changes nothing outside a region that the area of its seed does not leave. -/
theorem fill_unchanged (canvas : Grid) (seed : Cell) (char : Char) (p : Cell → Prop)
    (inside : seed ∈ canvas)
    (spread : ∀ c n, p c → n ∈ c.orthogonal → canvas.get n = canvas.get seed → p n)
    (atSeed : p seed) :
    ∃ filled area, canvas.fill seed char = .ok (filled, area) ∧
      ∀ c, ¬ p c → filled.get c = canvas.get c := by
  by_cases same : canvas.get seed = char
  · exact ⟨canvas, [], by rw [fill, if_pos inside]; exact if_pos same, fun _ _ => rfl⟩
  · obtain ⟨area, filled, -, mem⟩ := fill_eq char inside same
    refine ⟨_, area, filled, fun c out => ?_⟩
    rw [get_overwrite, if_neg]
    rintro ⟨member, -⟩
    -- What the seed reaches holds its character, so the region closes around it.
    have within : p c ∧ canvas.get c = canvas.get seed := by
      refine mem_of_reachable (p := fun n => p n ∧ canvas.get n = canvas.get seed) ?_
        ((mem c).1 member) ⟨atSeed, rfl⟩
      intro c n here adj
      obtain ⟨-, near, alike⟩ := areas_adj.1 adj
      have held := alike.symm.trans here.2
      exact ⟨spread c n here.1 near held, held⟩
    exact out within.1

structure Pocket (canvas : Grid) (cells : List Cell) : Prop where
  some : cells ≠ []
  blank : ∀ c ∈ cells, canvas.get c = Glyph.blank
  tight : ∀ c ∈ cells, ∀ n ∈ c.orthogonal, n ∈ cells ∨ canvas.get n ≠ Glyph.blank
  corner : canvas.get ⟨0, 0⟩ = Glyph.blank ∧ ⟨0, 0⟩ ∉ cells

instance (canvas : Grid) (cells : List Cell) : Decidable (canvas.Pocket cells) :=
  decidable_of_iff (cells ≠ [] ∧ (∀ c ∈ cells, canvas.get c = Glyph.blank) ∧
      (∀ c ∈ cells, ∀ n ∈ c.orthogonal, n ∈ cells ∨ canvas.get n ≠ Glyph.blank) ∧
      canvas.get ⟨0, 0⟩ = Glyph.blank ∧ ⟨0, 0⟩ ∉ cells)
    ⟨fun all => ⟨all.1, all.2.1, all.2.2.1, all.2.2.2⟩,
      fun pocket => ⟨pocket.some, pocket.blank, pocket.tight, pocket.corner⟩⟩

theorem Pocket.fill_leaves_blank {canvas : Grid} {cells : List Cell} (pocket : canvas.Pocket cells) :
    ∃ filled area, canvas.fill ⟨0, 0⟩ Ink.mark = .ok (filled, area) ∧ filled.hasBlank := by
  obtain ⟨corner, outside⟩ := pocket.corner
  obtain ⟨filled, area, done, unchanged⟩ := fill_unchanged canvas ⟨0, 0⟩ Ink.mark
    (fun n => canvas.get n = Glyph.blank ∧ n ∉ cells)
    (mem_of_get_ne_outside (by rw [corner]; decide))
    (fun c n free near blank => by
      rw [corner] at blank
      obtain ⟨d, rfl⟩ := Cell.mem_orthogonal.1 near
      have back : c ∈ (c.step d).orthogonal :=
        Cell.mem_orthogonal.2 ⟨d.opposite, (Cell.step_step_opposite c d).symm⟩
      exact ⟨blank, fun mem => (pocket.tight _ mem c back).elim free.2 (absurd free.1)⟩)
    ⟨corner, outside⟩
  obtain ⟨c, mem⟩ := List.exists_mem_of_ne_nil _ pocket.some
  refine ⟨filled, area, done, hasBlank_of_get (c := c) ?_⟩
  rw [unchanged c fun free => free.2 mem, pocket.blank c mem]

end Grid

namespace Ink

variable {g canvas : Grid} {cells : CellSet} {c p : Cell} {ink : Square Bool} {r : Role}
  {d : Direction}

def covers (ink : Square Bool) (c p : Cell) : Bool :=
  ink.entries.any fun e => e.2.2 && p == place c e.1 e.2.1

def inks (g : Grid) (c p : Cell) : Bool := ((g.role? c).bind ofRole?).any (covers · c p)

@[simp] theorem mem_draw {ink : Square Bool} : p ∈ draw canvas c ink ↔ p ∈ canvas := by
  unfold draw
  induction ink.entries generalizing canvas with
  | nil => rfl
  | cons e rest ih =>
    obtain ⟨dx, dy, inked⟩ := e
    rw [List.foldl_cons, ih]
    cases inked with
    | false => rfl
    | true => exact Grid.mem_set

theorem ite_ite_and {inside : Prop} [Decidable inside] (here later : Bool) (yes no : Char) :
    (if later ∧ inside then yes else if here ∧ inside then yes else no)
      = if (here || later) ∧ inside then yes else no := by
  cases here <;> cases later <;> by_cases inside <;> simp [*]

theorem get_draw (ink : Square Bool) (p : Cell) :
    (draw canvas c ink).get p = if covers ink c p ∧ p ∈ canvas then mark else canvas.get p := by
  unfold draw covers
  induction ink.entries generalizing canvas with
  | nil => simp
  | cons e rest ih =>
    obtain ⟨dx, dy, inked⟩ := e
    rw [List.foldl_cons, ih, List.any_cons]
    cases inked with
    | false => simp only [Bool.false_and, Bool.false_or]; rfl
    | true =>
      rw [← ite_ite_and, Bool.true_and]
      simp only [if_true, Grid.mem_set, Grid.get_set, beq_iff_eq]
      by_cases here : p = place c dx dy
      · subst here
        rfl
      · simp only [here, false_and, if_false]

theorem get_foldl_draw (g canvas : Grid) (cells : List Cell) (p : Cell) :
    (cells.foldl
      (fun canvas c => match (g.role? c).bind ofRole? with
        | none => canvas
        | some ink => draw canvas c ink) canvas).get p
      = if cells.any (inks g · p) ∧ p ∈ canvas then mark else canvas.get p := by
  induction cells generalizing canvas with
  | nil => simp
  | cons c rest ih =>
    rw [List.foldl_cons, ih, List.any_cons, ← ite_ite_and]
    cases drawn : (g.role? c).bind ofRole? with
    | none =>
      have same : inks g c p = false := by simp [inks, drawn]
      simp [same]
    | some ink =>
      have same : inks g c p = covers ink c p := by simp [inks, drawn]
      simp only [mem_draw, get_draw, same]

theorem mem_render : p ∈ render g cells ↔ p ∈ Grid.blank (g.width * scale) (g.height * scale) := by
  unfold render
  generalize Grid.blank (g.width * scale) (g.height * scale) = canvas
  induction cells.toList generalizing canvas with
  | nil => rfl
  | cons c rest ih =>
    rw [List.foldl_cons, ih]
    split
    · rfl
    · exact mem_draw

theorem get_render (g : Grid) (cells : CellSet) (p : Cell) :
    (render g cells).get p
      = if p ∈ Grid.blank (g.width * scale) (g.height * scale) then
          if cells.toList.any (inks g · p) then mark else Glyph.blank
        else Glyph.outside := by
  refine (get_foldl_draw g _ cells.toList p).trans ?_
  rw [Grid.get_blank]
  by_cases inside : p ∈ Grid.blank (g.width * scale) (g.height * scale)
  · simp only [inside, and_true, if_true]
  · simp only [inside, and_false, if_false]

theorem get_render_eq_mark_or_blank (inside : p ∈ render g cells) :
    (render g cells).get p = mark ∨ (render g cells).get p = Glyph.blank := by
  rw [get_render, if_pos (mem_render.1 inside)]
  split
  · exact .inl rfl
  · exact .inr rfl

theorem get_render_ne_blank {ink : Square Bool} (mem : c ∈ cells)
    (found : (g.role? c).bind ofRole? = some ink) (covered : covers ink c p) :
    (render g cells).get p ≠ Glyph.blank := by
  have any : cells.toList.any (inks g · p) = true := by
    rw [List.any_eq_true]
    exact ⟨c, mem, by rw [inks, found]; exact covered⟩
  rw [get_render, any]
  split
  · decide
  · decide

/-! ### The fine cells of a cell -/

/-- A fine cell lies in the square of one cell only. -/
theorem place_inj {c n : Cell} {dx dy ex ey : Int} (dxNear : -1 ≤ dx ∧ dx ≤ 1)
    (dyNear : -1 ≤ dy ∧ dy ≤ 1) (exNear : -1 ≤ ex ∧ ex ≤ 1) (eyNear : -1 ≤ ey ∧ ey ≤ 1)
    (same : place c dx dy = place n ex ey) : c = n ∧ dx = ex ∧ dy = ey := by
  simp only [place, scale, Cell.mk.injEq] at same
  refine ⟨?_, ?_, ?_⟩
  · ext <;> omega
  · omega
  · omega

theorem near_of_mem_entries {ink : Square Bool} {e : Int × Int × Bool} (mem : e ∈ ink.entries) :
    (-1 ≤ e.1 ∧ e.1 ≤ 1) ∧ -1 ≤ e.2.1 ∧ e.2.1 ≤ 1 := by
  simp only [Square.entries, List.mem_cons, List.not_mem_nil, or_false] at mem
  rcases mem with rfl | rfl | rfl | rfl | rfl | rfl | rfl | rfl | rfl <;> simp

theorem covers_place {dx dy : Int} (mem : (dx, dy, true) ∈ ink.entries) :
    covers ink c (place c dx dy) := by
  rw [covers, List.any_eq_true]
  exact ⟨_, mem, by simp⟩

theorem covers_side (side : ink.side d) : covers ink c (place c d.dx d.dy) := by
  have entry : (d.dx, d.dy, ink.side d) ∈ ink.entries := by
    cases d with
    | north => exact List.mem_of_getElem? (rfl : ink.entries[1]? = _)
    | west => exact List.mem_of_getElem? (rfl : ink.entries[3]? = _)
    | east => exact List.mem_of_getElem? (rfl : ink.entries[5]? = _)
    | south => exact List.mem_of_getElem? (rfl : ink.entries[7]? = _)
  rw [side] at entry
  exact covers_place entry

theorem covers_center (drawn : ofRole? r = some ink) : covers ink c (place c 0 0) := by
  have entry : (0, 0, ink.center) ∈ ink.entries := List.mem_of_getElem? (rfl : ink.entries[4]? = _)
  have center : ink.center = true := by
    cases r with
    | stub => cases drawn
    | _ => cases drawn; rfl
  rw [center] at entry
  exact covers_place entry

/-- Only a star has ink in the corners of its square. -/
theorem straight_of_mem_entries (drawn : ofRole? r = some ink) (noStar : r ≠ .star)
    {e : Int × Int × Bool} (mem : e ∈ ink.entries) (inked : e.2.2 = true) :
    e.1 = 0 ∨ e.2.1 = 0 := by
  have straight (sides : List Direction) (mem : e ∈ (arms sides).entries) : e.1 = 0 ∨ e.2.1 = 0 := by
    simp only [Square.entries, arms, List.mem_cons, List.not_mem_nil, or_false] at mem
    rcases mem with rfl | rfl | rfl | rfl | rfl | rfl | rfl | rfl | rfl <;>
      first | exact .inl rfl | exact .inr rfl | cases inked
  cases r with
  | stub => cases drawn
  | star => exact absurd rfl noStar
  | _ => cases drawn; exact straight _ mem

/-- No ink lies in the corners of a square that is not a star's. -/
theorem get_place_corner {dx dy : Int} (inside : c ∈ g) (hollow : g.role? c ≠ some .star)
    (xCorner : dx = -1 ∨ dx = 1) (yCorner : dy = -1 ∨ dy = 1) :
    (render g cells).get (place c dx dy) = Glyph.blank := by
  have bare : cells.toList.any (inks g · (place c dx dy)) = false := by
    rw [List.any_eq_false]
    intro n _ covered
    rw [inks, Option.any_eq_true] at covered
    obtain ⟨ink, found, covered⟩ := covered
    obtain ⟨r, role, drawn⟩ := Option.bind_eq_some_iff.1 found
    rw [covers, List.any_eq_true] at covered
    obtain ⟨e, entry, covered⟩ := covered
    rw [Bool.and_eq_true, beq_iff_eq] at covered
    have near := near_of_mem_entries entry
    obtain ⟨rfl, same⟩ := place_inj (by omega) (by omega) near.1 near.2 covered.2
    have noStar : r ≠ .star := fun star => hollow (star ▸ role)
    -- Ink of any other role lies on the axes of the square.
    have straight := straight_of_mem_entries drawn noStar entry covered.1
    omega
  have within : place c dx dy ∈ Grid.blank (g.width * scale) (g.height * scale) := by
    have bounds := Grid.mem_def.1 inside
    simp only [Grid.mem_def, place, scale, Grid.blank]
    omega
  rw [get_render, if_pos within, bare]
  rfl

end Ink

end Linework
