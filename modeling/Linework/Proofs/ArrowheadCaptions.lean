import Linework.Proofs.Arrowheads
import Linework.Proofs.Totality

/-! Captions leave arrowheads alone.

Arrowheads are drawn where a line runs into them once letters and stars on it have given way, but
the words are read without the arrowheads there are before that. The two differ only behind a star.
-/

set_option autoImplicit false

namespace Linework

def Caption.Covers (t : Caption) (c : Cell) : Prop :=
  c.y = t.cell.y ∧ t.cell.x ≤ c.x ∧ c.x < t.cell.x + t.text.length

namespace Shape.Kind

theorem isDecoration_ofTag (tag : String) : (ofTag tag).isDecoration = false := by
  rw [ofTag]
  cases found : tags.lookup tag with
  | none => rfl
  | some kind =>
    obtain ⟨before, after, cut, -⟩ := List.lookup_eq_some_iff.1 found
    have mem : kind ∈ tags.map Prod.snd := by simp [cut]
    have plain : ∀ kind ∈ tags.map Prod.snd, kind.isDecoration = false := by decide
    exact plain kind mem

end Shape.Kind

namespace Layout

variable {l : Layout} {g : Grid} {s : CellSet} {form : Outline.Form} {shape : Shape} {c : Cell}

theorem kind_of_loop? (found : l.loop? g s = .ok (some shape)) : shape.kind = .simple := by
  simp only [loop?, bind, Except.bind, pure, Except.pure] at found
  split at found
  · cases found
  · simp only [Except.ok.injEq, Option.map_eq_some_iff] at found
    obtain ⟨vertices, -, rfl⟩ := found
    rfl

theorem kind_of_dash? (found : l.dash? g c = some shape) : shape.kind = .simple := by
  simp only [dash?] at found
  split at found <;> cases found <;> rfl

theorem kind_of_trace (traced : l.trace g s form = .ok (some (.simple shape))) :
    shape.kind = .simple := by
  cases form with
  | loop =>
    simp only [trace, bind, Except.bind, pure, Except.pure] at traced
    split at traced
    · cases traced
    next found =>
      simp only [Except.ok.injEq, Option.map_eq_some_iff, Traced.simple.injEq] at traced
      obtain ⟨shape, rfl, rfl⟩ := traced
      exact kind_of_loop? found
  | strand =>
    simp only [trace] at traced
    split at traced
    · simp only [pure, Except.pure, Except.ok.injEq, Option.map_eq_some_iff, Traced.simple.injEq]
        at traced
      obtain ⟨shape, found, rfl⟩ := traced
      obtain ⟨c, -, found⟩ := Option.bind_eq_some_iff.1 found
      exact kind_of_dash? found
    · simp only [bind, Except.bind, pure, Except.pure] at traced
      split at traced
      · cases traced
      · split at traced <;> cases traced
  | mixed => cases traced

end Layout

namespace Recognition

variable {reading : Reading} {shapes : List Shape} {size : CellSize} {source : String} {page : Grid}

def Undecorated (shapes : List Shape) : Prop := ∀ shape ∈ shapes, shape.kind.isDecoration = false

theorem undecorated_modifyAround (plain : Undecorated shapes) (c : Cell) {f : Shape → Shape}
    (kept : ∀ shape, shape.kind.isDecoration = false → (f shape).kind.isDecoration = false) :
    Undecorated (modifyAround size c f shapes) := by
  rw [modifyAround]
  split
  · intro shape mem
    obtain ⟨i, place⟩ := List.mem_iff_getElem?.1 mem
    rw [List.getElem?_modify] at place
    obtain ⟨old, here, rfl⟩ := Option.map_eq_some_iff.1 place
    have before := plain old (List.mem_of_getElem? here)
    split
    · exact kept old before
    · exact before
  · exact plain

theorem undecorated_applyMarkup (plain : Undecorated shapes) (m : Markup) :
    Undecorated (applyMarkup size m shapes) := by
  rw [applyMarkup]
  refine List.foldlRecOn _ _ (List.foldlRecOn _ _ plain ?_) ?_
  · intro shapes plain m _
    exact undecorated_modifyAround plain m.1 fun _ kept => kept
  · intro shapes plain m _
    exact undecorated_modifyAround plain m.1 fun _ _ => Shape.Kind.isDecoration_ofTag m.2

theorem undecorated_addTraced (l : Layout) (g : Grid) (reduced : Reduction) (columns rows : Nat)
    (size : CellSize) :
    Undecorated (addTraced l g reduced (Diagram.empty columns rows size)).shapes := by
  rw [addTraced]
  refine List.foldlRecOn (motive := fun (d : Diagram) => Undecorated d.shapes) _ _ ?_ ?_
  · intro shape none
    cases none
  · intro d plain traced mem
    -- A network is kept apart from the shapes; every other set adds a single one to them.
    cases traced with
    | network lines => exact plain
    | simple shape =>
      intro other member
      rcases List.mem_append.1 member with old | new
      · exact plain other old
      · obtain rfl := List.mem_singleton.1 new
        obtain ⟨⟨s, form⟩, -, found⟩ := List.mem_filterMap.1 mem
        dsimp only at found
        cases traced : l.trace g s form with
        | error fault =>
          rw [traced] at found
          cases found
        | ok shape =>
          rw [traced] at found
          obtain rfl : shape = some (.simple other) := found
          rw [Layout.kind_of_trace traced]
          rfl

theorem filter_of_undecorated (plain : Undecorated shapes) {kind : Shape.Kind}
    (decoration : kind.isDecoration) : shapes.filter (·.kind = kind) = [] := by
  rw [List.filter_eq_nil_iff]
  intro shape mem same
  rw [← of_decide_eq_true same, plain shape mem] at decoration
  cases decoration

theorem filter_of_kind {kind other : Shape.Kind} (all : ∀ shape ∈ shapes, shape.kind = other) :
    shapes.filter (·.kind = kind) = if other = kind then shapes else [] := by
  split
  next same =>
    rw [List.filter_eq_self]
    exact fun shape mem => decide_eq_true ((all shape mem).trans same)
  next different =>
    rw [List.filter_eq_nil_iff]
    exact fun shape mem same => different ((all shape mem).symm.trans (of_decide_eq_true same))

/-- The grid in which words are looked for, that in which lines are, and the cells where a star on
a line was. -/
def lettered (reading : Reading) (page : Grid) : Grid := (Markup.strip page reading.customTags).1

def lines (reading : Reading) (page : Grid) : Grid := (Overprint.clear (lettered reading page)).1

def marked (reading : Reading) (page : Grid) : CellSet :=
  (Overprint.clear (lettered reading page)).2

theorem where_of_shade (shapes : List Shape) (t : Caption) :
    ((shade size shapes t).cell, (shade size shapes t).text) = (t.cell, t.text) := by
  simp only [shade]
  split <;> rfl

/-- What decorates a drawing comes after all that may take a color, and what is written in it are
the strings among its lines. -/
theorem exists_recognized (loaded : Page.load source.toList reading.tabSize = .ok page) :
    ∃ d plain, recognize reading source = .ok d ∧ Undecorated plain ∧
      d.shapes = plain ++ (Arrow.all (lines reading page)).map
          (fun head => Decoration.arrowhead reading.cellSize head.1 head.2)
        ++ (marked reading page).toList.map (Decoration.pointMarker reading.cellSize) ∧
      d.captions.map (fun t => (t.cell, t.text))
        = Lettering.strings (Lettering.withoutLines (lettered reading page)) := by
  obtain ⟨-, families, -, found, -⟩ := Outline.exists_families (lines reading page)
  unfold recognize
  rw [loaded]
  simp only [lines, lettered] at found
  simp only [bind, Except.bind, found]
  refine ⟨_, _, rfl, undecorated_applyMarkup (undecorated_addTraced _ _ _ _ _ _) _, rfl, ?_⟩
  simp only [Lettering.captions, List.map_map]
  exact (List.map_congr_left fun t _ => where_of_shade _ _).trans (List.map_id _)

end Recognition

open Recognition in
/-- The arrowheads of a drawing are those that lines run into. Where a line does so without a point
marked on it, a string across the arrowhead leaves a blank for it. -/
theorem captions_spare_arrowheads (reading : Reading) (source : String) : ∃ page d,
    Page.load source.toList reading.tabSize = .ok page ∧ recognize reading source = .ok d ∧
      d.shapes.filter (·.kind = .arrowhead) = (Arrow.all (lines reading page)).map
        (fun head => Decoration.arrowhead reading.cellSize head.1 head.2) ∧
      d.shapes.filter (·.kind = .pointMarker)
        = (marked reading page).toList.map (Decoration.pointMarker reading.cellSize) ∧
      ∀ head ∈ Arrow.all (lines reading page),
        head.1.step head.2.opposite ∉ marked reading page → ∀ t ∈ d.captions, t.Covers head.1 →
          ∃ before after, t.text.toList = before ++ Glyph.blank :: after ∧
            (before ≠ [] ∧ after ≠ []) ∧ head.1.x = t.cell.x + before.length := by
  obtain ⟨page, loaded⟩ := Page.load_ok source.toList reading.tabSize
  obtain ⟨d, plain, recognized, undecorated, shapes, captions⟩ := exists_recognized loaded
  -- Traced lines come first, then arrowheads, then point markers: the kind tells them apart.
  have heads : ∀ shape ∈ (Arrow.all (lines reading page)).map
      (fun head => Decoration.arrowhead reading.cellSize head.1 head.2),
      shape.kind = .arrowhead := by
    intro shape mem
    obtain ⟨head, -, rfl⟩ := List.mem_map.1 mem
    rfl
  have markers : ∀ shape ∈ (marked reading page).toList.map
      (Decoration.pointMarker reading.cellSize), shape.kind = .pointMarker := by
    intro shape mem
    obtain ⟨c, -, rfl⟩ := List.mem_map.1 mem
    rfl
  refine ⟨page, d, loaded, recognized, ?_, ?_, ?_⟩
  · rw [shapes, List.filter_append, List.filter_append, filter_of_undecorated undecorated rfl,
      filter_of_kind heads, filter_of_kind markers, if_pos rfl, if_neg (by decide),
      List.nil_append, List.append_nil]
  · rw [shapes, List.filter_append, List.filter_append, filter_of_undecorated undecorated rfl,
      filter_of_kind heads, filter_of_kind markers, if_neg (by decide), if_pos rfl,
      List.nil_append, List.nil_append]
  · rintro ⟨c, heading⟩ mem unmarked t written ⟨row, covered⟩
    -- An arrowhead whose shaft was no star stood there before the lines were opened, so the
    -- copy that texts are read from is blank at it.
    have old := Overprint.at?_of_clear (Arrow.mem_all.1 mem) unmarked
    refine Lettering.exists_split_of_blank ?_ (Lettering.isBlank_withoutLines old) row covered
    rw [← captions]
    exact List.mem_map_of_mem written

namespace Recognition

def flanked : String := "  |\n  |\n avb"

def flankedPage : Grid where
  width := 8
  height := 7
  chars := #[
    ' ', ' ', ' ', ' ', ' ', ' ', ' ', ' ',
    ' ', ' ', ' ', ' ', ' ', ' ', ' ', ' ',
    ' ', ' ', ' ', ' ', '|', ' ', ' ', ' ',
    ' ', ' ', ' ', ' ', '|', ' ', ' ', ' ',
    ' ', ' ', ' ', 'a', 'v', 'b', ' ', ' ',
    ' ', ' ', ' ', ' ', ' ', ' ', ' ', ' ',
    ' ', ' ', ' ', ' ', ' ', ' ', ' ', ' ']
  size_chars := rfl

theorem load_flanked : Page.load flanked.toList Reading.standard.tabSize = .ok flankedPage := by
  have chars : flanked.toList
      = [' ', ' ', '|', '\n', ' ', ' ', '|', '\n', ' ', 'a', 'v', 'b'] := by decide
  rw [chars]
  rfl

theorem all_flanked : Arrow.all (lines .standard flankedPage) = [(⟨4, 4⟩, .south)] := by
  decide +kernel

theorem strings_flanked : Lettering.strings (Lettering.withoutLines (lettered .standard flankedPage))
    = [(⟨3, 4⟩, "a b")] := by
  decide +kernel

theorem exists_caption_flanked {d : Diagram} (recognized : recognize .standard flanked = .ok d) :
    Decoration.arrowhead CellSize.standard ⟨4, 4⟩ .south ∈ d.shapes ∧
      ∃ t ∈ d.captions, t.Covers ⟨4, 4⟩ := by
  obtain ⟨d', plain, same, -, shapes, captions⟩ := exists_recognized load_flanked
  obtain rfl : d = d' := Except.ok.inj (recognized.symm.trans same)
  constructor
  · rw [shapes, all_flanked]
    exact List.mem_append_left _ (List.mem_append_right _ (List.mem_singleton_self _))
  · have mem : ((⟨3, 4⟩ : Cell), "a b") ∈ d.captions.map fun t => (t.cell, t.text) := by
      rw [captions, strings_flanked]
      exact List.mem_singleton_self _
    obtain ⟨t, written, found⟩ := List.mem_map.1 mem
    obtain ⟨cell, text⟩ := Prod.mk.inj found
    refine ⟨t, written, ?_⟩
    rw [Caption.Covers, cell, text]
    decide

end Recognition

open Recognition in
theorem captions_spare_arrowheads_flanked : ∃ d, recognize .standard flanked = .ok d ∧
    d.shapes.filter (·.kind = .arrowhead)
      = [Decoration.arrowhead CellSize.standard ⟨4, 4⟩ .south] ∧
    ∃ t ∈ d.captions, t.Covers ⟨4, 4⟩ ∧
      ∃ before after, t.text.toList = before ++ Glyph.blank :: after ∧
        (before ≠ [] ∧ after ≠ []) ∧ (4 : Int) = t.cell.x + before.length := by
  obtain ⟨page, d, loaded, recognized, heads, -, spared⟩ :=
    captions_spare_arrowheads .standard flanked
  obtain rfl : flankedPage = page := Except.ok.inj (load_flanked.symm.trans loaded)
  obtain ⟨-, t, written, covers⟩ := exists_caption_flanked recognized
  rw [all_flanked] at heads spared
  have unmarked : (⟨4, 3⟩ : Cell) ∉ marked .standard flankedPage := by decide +kernel
  exact ⟨d, recognized, heads, t, written, covers,
    spared _ (List.mem_singleton_self _) unmarked t written covers⟩

open Recognition in
/-- A string may run across an arrowhead, with a blank in its place. -/
theorem caption_across_arrowhead : (⟨4, 4⟩, .south) ∈ Arrow.all (lines .standard flankedPage) ∧
    Page.load flanked.toList Reading.standard.tabSize = .ok flankedPage ∧
    ∃ d, recognize .standard flanked = .ok d ∧
      Decoration.arrowhead CellSize.standard ⟨4, 4⟩ .south ∈ d.shapes ∧
      ∃ t ∈ d.captions, t.Covers ⟨4, 4⟩ := by
  obtain ⟨d, recognized⟩ := recognize_ok .standard flanked
  refine ⟨?_, load_flanked, d, recognized, exists_caption_flanked recognized⟩
  rw [all_flanked]
  exact List.mem_singleton_self _

end Linework
