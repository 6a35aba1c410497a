import Linework.CellSet
import Linework.Window

/-! Rectangles of characters.

A read beyond the edge gives `Glyph.outside` and a write there does nothing, so that windows and
neighbors need no bounds of their own.
-/

set_option autoImplicit false

namespace Linework

/-- The characters lie row by row. -/
structure Grid where
  width : Nat
  height : Nat
  chars : Array Char
  size_chars : chars.size = width * height
  deriving DecidableEq

namespace Grid

inductive Fault where
  /-- No rule says how a line goes on from this cell. -/
  | unclassifiable (cell : Cell) (window : String)
  | seedOutside (cell : Cell)
  | raggedRow (row expected found : Nat)
  | rowOutside (row : Nat)
  deriving DecidableEq, Repr

def Fault.message : Fault → String
  | .unclassifiable cell window => s!"cannot determine how to follow cell {cell.text}:\n{window}"
  | .seedOutside cell => s!"fill seed {cell.text} lies outside the grid"
  | .raggedRow row expected found => s!"row {row} has {found} columns, expected {expected}"
  | .rowOutside row => s!"row {row} is out of bounds"

instance : Membership Cell Grid :=
  ⟨fun g c => (0 ≤ c.x ∧ c.x < g.width) ∧ (0 ≤ c.y ∧ c.y < g.height)⟩

instance (c : Cell) (g : Grid) : Decidable (c ∈ g) :=
  inferInstanceAs (Decidable ((0 ≤ c.x ∧ c.x < g.width) ∧ (0 ≤ c.y ∧ c.y < g.height)))

theorem mem_def {c : Cell} {g : Grid} :
    c ∈ g ↔ (0 ≤ c.x ∧ c.x < g.width) ∧ (0 ≤ c.y ∧ c.y < g.height) := Iff.rfl

/-- The place of a cell among the characters; meaningful for cells of the grid. -/
def offset (g : Grid) (c : Cell) : Nat := c.y.toNat * g.width + c.x.toNat

def get (g : Grid) (c : Cell) : Char :=
  if c ∈ g then g.chars.getD (g.offset c) Glyph.outside else Glyph.outside

def set (g : Grid) (c : Cell) (char : Char) : Grid :=
  if c ∈ g then
    { g with
      chars := g.chars.setIfInBounds (g.offset c) char
      size_chars := by rw [Array.size_setIfInBounds]; exact g.size_chars }
  else g

def tabulate (width height : Nat) (f : Cell → Char) : Grid where
  width := width
  height := height
  chars := Array.ofFn fun i : Fin (width * height) => f ⟨i.val % width, i.val / width⟩
  size_chars := Array.size_ofFn

def blank (width height : Nat) : Grid where
  width := width
  height := height
  chars := Array.replicate (width * height) Glyph.blank
  size_chars := Array.size_replicate

def cells (g : Grid) : List Cell :=
  (List.range g.height).flatMap fun (y : Nat) => (List.range g.width).map fun (x : Nat) => ⟨x, y⟩

private theorem length_flatten_of_forall {width : Nat} (rows : List (List Char))
    (h : ∀ row ∈ rows, row.length = width) : rows.flatten.length = width * rows.length := by
  induction rows with
  | nil => simp
  | cons row rest ih =>
    rw [List.flatten_cons, List.length_append, List.length_cons, h row (by simp),
      ih fun r hr => h r (by simp [hr]), Nat.mul_succ]
    omega

def ofRows (rows : List (List Char)) : Except Fault Grid :=
  let width := (rows.head?.map List.length).getD 0
  if h : ∀ row ∈ rows, row.length = width then
    .ok ⟨width, rows.length, rows.flatten.toArray, by
      rw [List.size_toArray]; exact length_flatten_of_forall rows h⟩
  else
    let bad := rows.findIdx fun row => row.length != width
    .error (.raggedRow bad width ((rows[bad]?.map List.length).getD 0))

def row (g : Grid) (y : Nat) : List Char :=
  (List.range g.width).map fun (x : Nat) => g.get ⟨x, y⟩

def row? (g : Grid) (y : Nat) : Option (List Char) := if y < g.height then some (g.row y) else none

/-- From top to bottom. A grid without columns shows no rows. -/
def rows (g : Grid) : List (List Char) :=
  if g.width = 0 then [] else (List.range g.height).map g.row

def lines (g : Grid) : List String := g.rows.map String.ofList

def text (g : Grid) : String := "\n".intercalate g.lines

def isBlank (g : Grid) (c : Cell) : Bool := Glyph.isBlank (g.get c)

def hasBlank (g : Grid) : Bool := g.chars.any Glyph.isBlank

/-- Writes `row` over row `y`, cut or filled up with blanks to the grid's width. -/
def replaceRow (g : Grid) (y : Nat) (row : List Char) : Except Fault Grid :=
  if y < g.height then
    .ok ((List.range g.width).foldl (fun acc (x : Nat) => acc.set ⟨x, y⟩ (row.getD x Glyph.blank)) g)
  else .error (.rowOutside y)

def region (g : Grid) (origin : Cell) (width height : Nat) : Grid :=
  tabulate width height fun c => g.get (c.translate origin.x origin.y)

/-- A grid of the same size that holds only the characters at `keep`. -/
def isolate (g : Grid) (keep : CellSet) : Grid :=
  keep.toList.foldl (fun acc c => acc.set c (g.get c)) (blank g.width g.height)

def overwrite (g : Grid) (places : List Cell) (char : Char) : Grid :=
  places.foldl (fun acc c => acc.set c char) g

theorem mem_cells {g : Grid} {c : Cell} : c ∈ g.cells ↔ c ∈ g := by
  simp only [cells, List.mem_flatMap, List.mem_map, List.mem_range, mem_def]
  constructor
  · rintro ⟨y, hy, x, hx, rfl⟩
    simp
    omega
  · rintro ⟨⟨hx, hxw⟩, hy, hyh⟩
    refine ⟨c.y.toNat, by omega, c.x.toNat, by omega, ?_⟩
    ext <;> simp <;> omega

theorem nodup_cells (g : Grid) : g.cells.Nodup := by
  unfold cells
  rw [List.nodup_iff_pairwise_ne, List.pairwise_flatMap]
  constructor
  · intro y _
    rw [List.pairwise_map]
    refine List.nodup_range.imp fun {a b} h e => h ?_
    exact Int.ofNat.inj (congrArg Cell.x e)
  · refine List.nodup_range.imp fun {a b} h c hc d hd e => h ?_
    simp only [List.mem_map] at hc hd
    obtain ⟨_, _, rfl⟩ := hc
    obtain ⟨_, _, rfl⟩ := hd
    exact Int.ofNat.inj (congrArg Cell.y e)

def select (g : Grid) (p : Cell → Bool) : CellSet := CellSet.filter ⟨g.cells, g.nodup_cells⟩ p

def written (g : Grid) : CellSet := g.select fun c => !g.isBlank c

/-! ### Reads after writes -/

@[simp] theorem width_set (g : Grid) (c : Cell) (char : Char) : (g.set c char).width = g.width := by
  unfold set; split <;> rfl

@[simp] theorem height_set (g : Grid) (c : Cell) (char : Char) :
    (g.set c char).height = g.height := by
  unfold set; split <;> rfl

@[simp] theorem mem_set {g : Grid} {c d : Cell} {char : Char} : d ∈ g.set c char ↔ d ∈ g := by
  simp [mem_def]

theorem offset_lt {g : Grid} {c : Cell} (h : c ∈ g) : g.offset c < g.chars.size := by
  obtain ⟨⟨hx, hxw⟩, hy, hyh⟩ := mem_def.1 h
  have hx' : c.x.toNat < g.width := by omega
  have hy' : c.y.toNat + 1 ≤ g.height := by omega
  rw [g.size_chars, offset]
  calc c.y.toNat * g.width + c.x.toNat < c.y.toNat * g.width + g.width := by omega
    _ = (c.y.toNat + 1) * g.width := (Nat.succ_mul ..).symm
    _ ≤ g.height * g.width := Nat.mul_le_mul_right _ hy'
    _ = g.width * g.height := Nat.mul_comm ..

theorem offset_inj {g : Grid} {c d : Cell} (hc : c ∈ g) (hd : d ∈ g)
    (h : g.offset c = g.offset d) : c = d := by
  obtain ⟨⟨hcx, hcw⟩, hcy, _⟩ := mem_def.1 hc
  obtain ⟨⟨hdx, hdw⟩, hdy, _⟩ := mem_def.1 hd
  have hc' : c.x.toNat < g.width := by omega
  have hd' : d.x.toNat < g.width := by omega
  unfold offset at h
  have x : c.x.toNat = d.x.toNat := by
    have m := congrArg (· % g.width) h
    simpa [Nat.mul_add_mod_self_right, Nat.mod_eq_of_lt hc', Nat.mod_eq_of_lt hd'] using m
  have y : c.y.toNat = d.y.toNat := by
    rw [x] at h
    exact Nat.eq_of_mul_eq_mul_right (by omega : 0 < g.width) (by omega)
  ext <;> omega

theorem get_of_not_mem {g : Grid} {c : Cell} (h : c ∉ g) : g.get c = Glyph.outside := if_neg h

theorem get_of_mem {g : Grid} {c : Cell} (h : c ∈ g) :
    g.get c = g.chars.getD (g.offset c) Glyph.outside := if_pos h

theorem get_set (g : Grid) (c d : Cell) (char : Char) :
    (g.set c char).get d = if d = c ∧ c ∈ g then char else g.get d := by
  by_cases hc : c ∈ g
  · by_cases hd : d ∈ g
    · have hs : (g.set c char).chars = g.chars.setIfInBounds (g.offset c) char := by simp [set, hc]
      have ho : (g.set c char).offset d = g.offset d := by simp [offset]
      rw [get, if_pos (mem_set.2 hd), hs, ho, Array.getD_eq_getD_getElem?,
        Array.getElem?_setIfInBounds, if_pos (offset_lt hc)]
      by_cases e : d = c
      · simp [e, hc]
      · rw [if_neg fun h => e (offset_inj hd hc h.symm), if_neg fun h => e h.1, get, if_pos hd,
          Array.getD_eq_getD_getElem?]
    · rw [get_of_not_mem (mt mem_set.1 hd), get_of_not_mem hd, if_neg]
      rintro ⟨rfl, _⟩
      exact hd hc
  · simp [set, hc]

theorem get_blank (width height : Nat) (c : Cell) :
    (blank width height).get c = if c ∈ blank width height then Glyph.blank else Glyph.outside := by
  by_cases h : c ∈ blank width height
  · have ho := offset_lt h
    rw [get_of_mem h, if_pos h, Array.getD_eq_getD_getElem?, Array.getElem?_eq_getElem ho]
    simp [blank]
  · rw [get_of_not_mem h, if_neg h]

theorem get_overwrite (g : Grid) (places : List Cell) (char : Char) (c : Cell) :
    (g.overwrite places char).get c = if c ∈ places ∧ c ∈ g then char else g.get c := by
  unfold overwrite
  induction places generalizing g with
  | nil => simp
  | cons p places ih =>
    rw [List.foldl_cons, ih, get_set]
    by_cases hc : c ∈ g <;> by_cases hp : c = p <;> by_cases hm : c ∈ places <;>
      simp_all

theorem get_foldl_set (g h : Grid) (places : List Cell) (c : Cell) :
    (places.foldl (fun acc p => acc.set p (g.get p)) h).get c
      = if c ∈ places ∧ c ∈ h then g.get c else h.get c := by
  induction places generalizing h with
  | nil => simp
  | cons p places ih =>
    rw [List.foldl_cons, ih, get_set]
    by_cases hc : c ∈ h <;> by_cases hp : c = p <;> by_cases hm : c ∈ places <;>
      simp_all

theorem mem_blank {g : Grid} {c : Cell} : c ∈ blank g.width g.height ↔ c ∈ g := Iff.rfl

theorem get_isolate (g : Grid) (keep : CellSet) (c : Cell) :
    (g.isolate keep).get c
      = if c ∈ g then if c ∈ keep then g.get c else Glyph.blank else Glyph.outside := by
  rw [isolate, get_foldl_set, get_blank]
  by_cases hc : c ∈ g <;> by_cases hk : c ∈ keep.toList <;>
    simp [hc, hk, mem_blank, CellSet.mem_def]

end Grid

end Linework
