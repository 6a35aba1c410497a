import Linework.Proofs.LineCharacters
import Linework.Proofs.Return

/-! The form of an outline depends on its own characters alone.

An outline is judged twice, each time without what lies around it: its ink in a grid cut to its
extent, and the walk through its cells in a grid of the drawing's size. The one is the same grid
wherever the outline stands. In the other a cell at the edge has no neighbors where elsewhere it has
blanks, and lines see no difference between the two.
-/

set_option autoImplicit false

namespace Linework

namespace CellSet

variable {dx dy : Int}

theorem toList_translate (s : CellSet) (dx dy : Int) :
    (s.translate dx dy).toList = s.toList.map (·.translate dx dy) :=
  toList_ofList (s.nodup.map fun _ _ => Cell.translate_injective)

theorem size_translate (s : CellSet) (dx dy : Int) : (s.translate dx dy).size = s.size := by
  rw [size, size, toList_translate, List.length_map]

theorem translate_translate (s : CellSet) (dx dy ex ey : Int) :
    (s.translate dx dy).translate ex ey = s.translate (dx + ex) (dy + ey) := by
  apply CellSet.ext
  rw [toList_translate, toList_translate, toList_translate, List.map_map]
  refine List.map_congr_left fun c _ => ?_
  simp only [Function.comp_apply, Cell.translate, Int.add_assoc]

def Extent.translate (e : Extent) (dx dy : Int) : Extent :=
  ⟨e.least.translate dx dy, e.greatest.translate dx dy⟩

theorem Extent.stretch_translate (e : Extent) (c : Cell) :
    (e.translate dx dy).stretch (c.translate dx dy) = (e.stretch c).translate dx dy := by
  simp only [stretch, translate, Cell.translate, mk.injEq, Cell.mk.injEq]
  omega

theorem Extent.width_translate (e : Extent) (dx dy : Int) : (e.translate dx dy).width = e.width := by
  simp only [width, translate, Cell.translate_x]
  omega

theorem Extent.height_translate (e : Extent) (dx dy : Int) :
    (e.translate dx dy).height = e.height := by
  simp only [height, translate, Cell.translate_y]
  omega

theorem extent?_translate (s : CellSet) (dx dy : Int) :
    (s.translate dx dy).extent? = s.extent?.map (·.translate dx dy) := by
  have stretched (cells : List Cell) (e : Extent) :
      (cells.map (·.translate dx dy)).foldl Extent.stretch (e.translate dx dy)
        = (cells.foldl Extent.stretch e).translate dx dy := by
    induction cells generalizing e with
    | nil => rfl
    | cons c rest ih => rw [List.map_cons, List.foldl_cons, List.foldl_cons, e.stretch_translate, ih]
  rw [extent?, extent?, toList_translate]
  cases s.toList with
  | nil => rfl
  | cons c rest => exact congrArg some (stretched rest ⟨c, c⟩)

end CellSet

namespace Grid

variable {g h : Grid} {s : CellSet} {dx dy : Int}

theorem isolate_moves (inside : ∀ c ∈ s, c ∈ g) (moved : ∀ c ∈ s, c.translate dx dy ∈ h)
    (same : ∀ c ∈ s, h.get (c.translate dx dy) = g.get c) :
    (h.isolate (s.translate dx dy)).Moves (g.isolate s) dx dy := by
  intro c
  by_cases mem : c ∈ s
  · rw [get_isolate, get_isolate, if_pos (inside c mem), if_pos mem, if_pos (moved c mem),
      if_pos (CellSet.mem_translate.2 mem)]
    exact .inl (same c mem)
  · exact .inr ⟨empty_isolate_of_not_mem (mt CellSet.mem_translate.1 mem),
      empty_isolate_of_not_mem mem⟩

end Grid

namespace Circuit

open Grid

variable {g h : Grid} {dx dy : Int} {start previous current : Cell} {path : List Cell}
  {limit : Nat}

/-- A walk comes back in every grid in which lines see the same. -/
theorem Returns.echo (returns : Returns g start previous current path) (echoes : h.Echoes g dx dy) :
    Returns h (start.translate dx dy) (previous.translate dx dy) (current.translate dx dy)
      (path.map (·.translate dx dy)) := by
  induction returns with
  | home => exact .home
  | on away followed returns ih =>
    exact .on (fun same => away (Cell.translate_injective same)) (echoes.follow followed) ih

theorem walk_echo (echoes : h.Echoes g dx dy) (walked : walk g start limit = .ok (.closed path)) :
    walk h (start.translate dx dy) limit = .ok (.closed (path.map (·.translate dx dy))) := by
  obtain ⟨first, others, followed, returns, short⟩ := walk_eq_closed_iff.1 walked
  exact walk_eq_closed_iff.2
    ⟨_, _, echoes.follow followed, returns.echo echoes, by simpa using short⟩

end Circuit

namespace Outline

open Grid Circuit

variable {g h : Grid} {s : CellSet} {dx dy : Int}

/-- Cut to its extent, an outline is the same grid wherever it stands. -/
theorem localize?_translate (same : ∀ c ∈ s, h.get (c.translate dx dy) = g.get c) :
    localize? h (s.translate dx dy) = localize? g s := by
  rw [localize?, localize?, CellSet.extent?_translate, Option.map_map]
  refine congrArg (Option.map · s.extent?) (funext fun e => ?_)
  have dx_eq : dx + (1 - (e.translate dx dy).least.x) = 1 - e.least.x := by
    simp only [CellSet.Extent.translate, Cell.translate_x]
    omega
  have dy_eq : dy + (1 - (e.translate dx dy).least.y) = 1 - e.least.y := by
    simp only [CellSet.Extent.translate, Cell.translate_y]
    omega
  have there (c : Cell) : (c.translate dx dy).translate (1 - (e.translate dx dy).least.x)
      (1 - (e.translate dx dy).least.y) = c.translate (1 - e.least.x) (1 - e.least.y) := by
    rw [← dx_eq, ← dy_eq]
    simp only [Cell.translate, Int.add_assoc]
  simp only [Function.comp_apply, CellSet.translate_translate, dx_eq, dy_eq, e.width_translate,
    e.height_translate, CellSet.toList_translate, List.foldl_map, there]
  refine congrArg (·, _) (List.foldl_ext _ _ _ fun acc c mem => ?_)
  rw [same c mem]

theorem start?_translate (echoes : (h.isolate (s.translate dx dy)).Echoes (g.isolate s) dx dy) :
    start? (h.isolate (s.translate dx dy)) (s.translate dx dy)
      = (start? (g.isolate s) s).map (·.translate dx dy) := by
  have ends : (h.isolate (s.translate dx dy)).isLineEnd ∘ (·.translate dx dy)
      = (g.isolate s).isLineEnd := funext echoes.isLineEnd
  rw [start?, start?, CellSet.first?, CellSet.first?, CellSet.toList_translate, List.find?_map, ends,
    List.head?_map, Option.map_or]

theorem encloses_translate (same : ∀ c ∈ s, h.get (c.translate dx dy) = g.get c) :
    encloses h (s.translate dx dy) = encloses g s := by
  rw [encloses, encloses, localize?_translate same]

/-- A loop stays a loop where it is moved to. -/
theorem form_eq_loop_translate (inside : ∀ c ∈ s, c ∈ g) (moved : ∀ c ∈ s, c.translate dx dy ∈ h)
    (same : ∀ c ∈ s, h.get (c.translate dx dy) = g.get c) :
    form h (s.translate dx dy) = .loop ↔ form g s = .loop := by
  have echoes := (isolate_moves inside moved same).echoes
  rw [form_eq_loop_iff, form_eq_loop_iff, CellSet.size_translate, encloses_translate same,
    start?_translate echoes, patience, patience, CellSet.size_translate]
  refine and_congr_right fun _ => and_congr_right fun _ => ⟨?_, ?_⟩
  · rintro ⟨start, cells, found, walked⟩
    obtain ⟨c, first, rfl⟩ := Option.map_eq_some_iff.1 found
    have back := walk_echo echoes.symm walked
    have home : (c.translate dx dy).translate (-dx) (-dy) = c := (Cell.shift dx dy).left_inv c
    rw [home] at back
    exact ⟨c, _, first, back⟩
  · rintro ⟨start, cells, found, walked⟩
    exact ⟨_, _, by rw [found]; rfl, walk_echo echoes walked⟩

/-- The form of an outline is that of its characters: it is the same wherever they stand, in a grid
of whatever size, whatever stands around them. -/
theorem form_translate (inside : ∀ c ∈ s, c ∈ g) (moved : ∀ c ∈ s, c.translate dx dy ∈ h)
    (same : ∀ c ∈ s, h.get (c.translate dx dy) = g.get c) :
    (s.translate dx dy).toList = s.toList.map (·.translate dx dy) ∧
      form h (s.translate dx dy) = form g s := by
  have strand : form h (s.translate dx dy) = .strand ↔ form g s = .strand := by
    rw [form_eq_strand_iff_encloses, form_eq_strand_iff_encloses, s.size_translate,
      encloses_translate same]
  have loop := form_eq_loop_translate inside moved same
  refine ⟨s.toList_translate dx dy, ?_⟩
  cases here : form g s <;> cases there : form h (s.translate dx dy) <;> simp_all

def crowded : Grid :=
  ⟨6, 4, #['|', '|', '|', '|', '|', '|', '-', '+', '=', '+', '-', '-', '-', '|', 'a', '|', '-', '-',
    '-', '+', '-', '+', '+', ' '], rfl⟩

theorem form_translate_crowded :
    (∀ c ∈ Layout.boxWalls, c ∈ Layout.box) ∧
      (∀ c ∈ Layout.boxWalls, c.translate 1 1 ∈ crowded) ∧
      (∀ c ∈ Layout.boxWalls, crowded.get (c.translate 1 1) = Layout.box.get c) ∧
      (Layout.boxWalls.translate 1 1).toList = Layout.boxWalls.toList.map (·.translate 1 1) ∧
      form crowded (Layout.boxWalls.translate 1 1) = form Layout.box Layout.boxWalls :=
  have inside : ∀ c ∈ Layout.boxWalls.toList, c ∈ Layout.box := by decide
  have moved : ∀ c ∈ Layout.boxWalls.toList, c.translate 1 1 ∈ crowded := by decide
  have same : ∀ c ∈ Layout.boxWalls.toList,
      crowded.get (c.translate 1 1) = Layout.box.get c := by decide +kernel
  ⟨inside, moved, same, form_translate inside moved same⟩

end Outline

end Linework
