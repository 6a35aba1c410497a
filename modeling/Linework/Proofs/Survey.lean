import Linework.Outline
import Linework.Proofs.Piece

/-! The outlines of a piece are the edges of the areas that its ink leaves blank.

Each area is marked and written back before the next is looked for, so the canvas is the same before
every step. What changes is which fine cells count as seen: these are whole areas, and ink.
-/

set_option autoImplicit false

namespace Linework

theorem mapM_ok {α β ε : Type} {f : α → Except ε β} (related : α → β → Prop) (xs : List α)
    (step : ∀ x ∈ xs, ∃ y, f x = .ok y ∧ related x y) :
    ∃ ys, xs.mapM f = .ok ys ∧ List.Forall₂ related xs ys := by
  induction xs with
  | nil => exact ⟨[], rfl, .nil⟩
  | cons x xs ih =>
    obtain ⟨first, others⟩ := List.forall_mem_cons.1 step
    obtain ⟨y, found, here⟩ := first
    obtain ⟨ys, rest, there⟩ := ih others
    exact ⟨y :: ys, by rw [List.mapM_cons, found, rest]; rfl, .cons here there⟩

def CellSet.members (s : CellSet) : Set Cell := {c | c ∈ s}

theorem CellSet.same_iff {s t : CellSet} : s.Same t ↔ s.members = t.members := Set.ext_iff.symm

theorem CellSet.isEmpty_iff {s : CellSet} : s.isEmpty ↔ ∀ c, c ∉ s := by
  rw [CellSet.isEmpty, List.isEmpty_iff, List.eq_nil_iff_forall_not_mem]
  rfl

def Grid.IsRegion (g : Grid) (region : Set Cell) : Prop :=
  ∃ p, g.get p = Glyph.blank ∧ region = {q | g.areas.Reachable p q}

theorem Grid.isRegion_areas {g : Grid} {p : Cell} (blank : g.get p = Glyph.blank) :
    g.IsRegion {q | g.areas.Reachable p q} := ⟨p, blank, rfl⟩

theorem Grid.areas_eq_of_reachable {g : Grid} {p q : Cell} (reach : g.areas.Reachable p q) :
    {n | g.areas.Reachable p n} = {n | g.areas.Reachable q n} :=
  Set.ext fun _ => ⟨reach.symm.trans, reach.trans⟩

namespace Outline

/-- The cells of a drawing whose ink on the canvas lies beside a region. -/
def edge (canvas : Grid) (region : Set Cell) : Set Cell :=
  {c | ∃ n, canvas.get n = Ink.mark ∧ (∃ q ∈ region, n ∈ q.orthogonal) ∧ n.shrink Ink.scale = c}

variable {canvas : Grid} {done rest : List Cell} {survey : Survey} {c p : Cell}

def Clean (canvas : Grid) : Prop :=
  ∀ p ∈ canvas, canvas.get p = Ink.mark ∨ canvas.get p = Glyph.blank

theorem clean_render (g : Grid) (cells : CellSet) : Clean (Ink.render g cells) :=
  fun _ => Ink.get_render_eq_mark_or_blank

def Traces (canvas : Grid) (o : CellSet) (region : Set Cell) : Prop :=
  canvas.IsRegion region ∧ o.members = edge canvas region ∧ (edge canvas region).Nonempty

/-- The survey has seen whole regions, those of the fine cells looked at among them, and has found
the outlines of all that it has seen. -/
structure Surveyed (canvas : Grid) (done : List Cell) (survey : Survey) : Prop where
  same : survey.canvas = canvas
  looked : ∀ p ∈ done, p ∈ canvas → survey.seen.isBlank p = false
  size : ∀ p, p ∈ survey.seen ↔ p ∈ canvas
  outlined : ∀ p, canvas.get p = Glyph.blank → survey.seen.isBlank p = false →
    (edge canvas {q | canvas.areas.Reachable p q}).Nonempty →
      ∃ o ∈ survey.found, o.members = edge canvas {q | canvas.areas.Reachable p q}
  traced : ∀ o ∈ survey.found, ∃ region, Traces canvas o region
  fresh : survey.found.IsChain fun later earlier => ¬ earlier.Same later

def marked (seen : Grid) (area : Grid.Area) : Grid :=
  (seen.overwrite area.interior Ink.mark).overwrite area.rim.toList Ink.mark

theorem isBlank_marked {seen : Grid} {area : Grid.Area} (inside : p ∈ seen) :
    (marked seen area).isBlank p = false ↔
      seen.isBlank p = false ∨ p ∈ area.interior ∨ p ∈ area.rim := by
  simp only [Grid.isBlank, marked, Grid.get_overwrite, Grid.mem_overwrite]
  have shown : Glyph.isBlank Ink.mark = false := by decide
  by_cases edge : p ∈ area.rim.toList
  · rw [if_pos ⟨edge, inside⟩, shown]
    simp [CellSet.mem_def, edge]
  · rw [if_neg fun both => edge both.1]
    by_cases interior : p ∈ area.interior
    · rw [if_pos ⟨interior, inside⟩, shown]
      simp [interior]
    · rw [if_neg fun both => interior both.1]
      simp [CellSet.mem_def, edge, interior]

theorem members_shrink_rim {rim : CellSet} (blank : canvas.get p = Glyph.blank)
    (mem : ∀ n, n ∈ rim ↔ ∃ c, canvas.areas.Reachable p c ∧ n ∈ c.orthogonal ∧
      canvas.get n ≠ canvas.get p ∧ canvas.get n = Ink.mark) :
    (rim.shrink Ink.scale).members = edge canvas {q | canvas.areas.Reachable p q} := by
  have differ : Ink.mark ≠ Glyph.blank := by decide
  ext c
  constructor
  · intro member
    obtain ⟨n, met, rfl⟩ := CellSet.mem_shrink.1 member
    obtain ⟨q, reach, near, -, inked⟩ := (mem n).1 met
    exact ⟨n, inked, ⟨q, reach, near⟩, rfl⟩
  · rintro ⟨n, inked, ⟨q, reach, near⟩, rfl⟩
    refine CellSet.mem_shrink.2 ⟨n, (mem n).2 ⟨q, reach, near, ?_, inked⟩, rfl⟩
    rwa [inked, blank]

namespace Surveyed

theorem init (canvas : Grid) :
    Surveyed canvas [] ⟨canvas, Grid.blank canvas.width canvas.height, []⟩ where
  same := rfl
  looked := by simp
  size _ := Iff.rfl
  outlined p blank seen := by
    -- Nothing counts as seen yet.
    have inside : p ∈ canvas := Grid.mem_of_get_ne_outside (by rw [blank]; decide)
    rw [Grid.isBlank, Grid.get_blank, if_pos (Grid.mem_blank.2 inside)] at seen
    exact absurd seen (by decide)
  traced := by simp
  fresh := .nil

/-- What a look at an area adds to the cells seen is that area, unless it is ink. -/
theorem mark (surveyed : Surveyed canvas done survey) {area : Grid.Area}
    (found : List CellSet) (interior : ∀ q, q ∈ area.interior ↔ canvas.areas.Reachable c q)
    (inked : ∀ n ∈ area.rim, canvas.get n = Ink.mark) (kept : survey.found ⊆ found)
    (outlined : canvas.get c = Glyph.blank →
      (edge canvas {q | canvas.areas.Reachable c q}).Nonempty →
        ∃ o ∈ found, o.members = edge canvas {q | canvas.areas.Reachable c q})
    (traced : ∀ o ∈ found, ∃ region, Traces canvas o region)
    (fresh : found.IsChain fun later earlier => ¬ earlier.Same later) :
    Surveyed canvas (done ++ [c]) ⟨survey.canvas, marked survey.seen area, found⟩ where
  same := surveyed.same
  looked p mem within := by
    refine (isBlank_marked ((surveyed.size p).2 within)).2 ?_
    rcases List.mem_append.1 mem with before | here
    · exact .inl (surveyed.looked p before within)
    · rw [List.mem_singleton.1 here]
      exact .inr (.inl ((interior c).2 (by rfl)))
  size p := by rw [marked, Grid.mem_overwrite, Grid.mem_overwrite, surveyed.size]
  outlined p blank seen some := by
    have within : p ∈ canvas := Grid.mem_of_get_ne_outside (by rw [blank]; decide)
    -- A cell seen was seen before, or lies in the area just marked; the rim has ink.
    rcases (isBlank_marked ((surveyed.size p).2 within)).1 seen with before | met | rim
    · obtain ⟨o, mem, same⟩ := surveyed.outlined p blank before some
      exact ⟨o, kept mem, same⟩
    · have reach := (interior p).1 met
      rw [← Grid.areas_eq_of_reachable reach] at some ⊢
      exact outlined ((Grid.get_of_areas_reachable reach).symm.trans blank) some
    · rw [inked p rim] at blank
      exact absurd blank (by decide)
  traced := traced
  fresh := fresh

theorem step (surveyed : Surveyed canvas done survey) (clean : Clean canvas) (inside : c ∈ canvas) :
    ∃ next, survey.look c = .ok next ∧ Surveyed canvas (done ++ [c]) next := by
  unfold Survey.look
  by_cases unseen : survey.seen.isBlank c
  · have untaken : canvas.get c ≠ Grid.taken := by
      rcases clean c inside with same | same <;> rw [same] <;> decide
    obtain ⟨area, enclosed, -, interior, rim⟩ :=
      Grid.enclose_eq Ink.mark inside untaken (by decide) (by decide)
    have restored : (canvas.overwrite area.interior Grid.taken).overwrite area.interior
        (canvas.get c) = canvas :=
      Grid.overwrite_overwrite fun q mem => Grid.get_of_areas_reachable ((interior q).1 mem)
    have inked (n : Cell) (mem : n ∈ area.rim) : canvas.get n = Ink.mark := by
      obtain ⟨-, -, -, -, inked⟩ := (rim n).1 mem
      exact inked
    rw [if_pos unseen, surveyed.same, enclosed]
    simp only [bind, Except.bind, restored]
    split
    · rename_i stale
      have next := surveyed.mark survey.found interior inked (List.Subset.refl _)
        (fun blank some => ?_) surveyed.traced surveyed.fresh
      · rw [surveyed.same] at next
        exact ⟨_, rfl, next⟩
      · -- The edge has ink, so it is known already.
        rw [← members_shrink_rim blank rim] at some ⊢
        obtain ⟨c, mem⟩ := some
        obtain ⟨n, met, -⟩ := CellSet.mem_shrink.1 mem
        have known := (Bool.or_eq_true_iff.1 stale).resolve_left fun none =>
          CellSet.isEmpty_iff.1 none n met
        obtain ⟨last, latest, same⟩ := (Option.any_eq_true ..).1 known
        exact ⟨last, List.mem_of_mem_head? latest, CellSet.same_iff.1 (of_decide_eq_true same)⟩
    · rename_i new
      rw [Bool.or_eq_true, not_or, CellSet.isEmpty_iff] at new
      obtain ⟨some, unlike⟩ := new
      push Not at some
      obtain ⟨n, met⟩ := some
      -- A piece of ink has no rim.
      have blank : canvas.get c = Glyph.blank := by
        obtain ⟨-, -, -, differ, marked⟩ := (rim n).1 met
        exact (clean c inside).resolve_left fun same => differ (marked.trans same.symm)
      have members := members_shrink_rim blank rim
      have next := surveyed.mark (area.rim.shrink Ink.scale :: survey.found) interior inked
        (List.subset_cons_self _ _) (fun _ _ => ⟨_, List.mem_cons_self .., members⟩) ?_ ?_
      · rw [surveyed.same] at next
        exact ⟨_, rfl, next⟩
      · refine List.forall_mem_cons.2 ⟨⟨_, Grid.isRegion_areas blank, members, ?_⟩, surveyed.traced⟩
        rw [← members]
        exact ⟨_, CellSet.mem_shrink.2 ⟨n, met, rfl⟩⟩
      · refine List.isChain_cons.2 ⟨fun last latest same => unlike ?_, surveyed.fresh⟩
        exact (Option.any_eq_true ..).2 ⟨last, latest, decide_eq_true same⟩
  · refine ⟨survey, if_neg unseen, surveyed.same, fun p mem within => ?_, surveyed.size,
      surveyed.outlined, surveyed.traced, surveyed.fresh⟩
    rcases List.mem_append.1 mem with before | here
    · exact surveyed.looked p before within
    · rw [List.mem_singleton.1 here]
      exact eq_false_of_ne_true unseen

end Surveyed

structure Outlines (g : Grid) (s : CellSet) (family : List CellSet) : Prop where
  taken : ofPiece g s = .ok family
  regions : {t | ∃ o ∈ family, t = o.members} =
    {t | t.Nonempty ∧ ∃ region, (Ink.render g s).IsRegion region ∧
      t = edge (Ink.render g s) region}
  fresh : family.IsChain fun a b => ¬ a.Same b

theorem exists_outlines (g : Grid) (s : CellSet) : ∃ family, Outlines g s family := by
  obtain ⟨survey, looked, surveyed⟩ := foldlM_ok Survey.look (Ink.render g s).cells
    ⟨Ink.render g s, Grid.blank (Ink.render g s).width (Ink.render g s).height, []⟩
    (Surveyed (Ink.render g s)) (Surveyed.init _)
    fun done c rest survey cut surveyed => by
      have inside : c ∈ Ink.render g s := Grid.mem_cells.1 (by simp [cut])
      exact surveyed.step (clean_render g s) inside
  refine ⟨survey.found.reverse, by rw [ofPiece, looked]; rfl, Set.ext fun t => ⟨?_, ?_⟩, ?_⟩
  · rintro ⟨o, mem, rfl⟩
    obtain ⟨region, isRegion, same, some⟩ := surveyed.traced o (List.mem_reverse.1 mem)
    exact ⟨same ▸ some, region, isRegion, same⟩
  · rintro ⟨some, region, ⟨p, blank, rfl⟩, rfl⟩
    have inside : p ∈ Ink.render g s := Grid.mem_of_get_ne_outside (by rw [blank]; decide)
    obtain ⟨o, mem, same⟩ := surveyed.outlined p blank
      (surveyed.looked p (Grid.mem_cells.2 inside) inside) some
    exact ⟨o, List.mem_reverse.2 mem, same.symm⟩
  · exact List.isChain_reverse.2 surveyed.fresh

namespace Outlines

variable {g : Grid} {s o : CellSet} {family : List CellSet}

theorem exists_region (outlines : Outlines g s family) (mem : o ∈ family) :
    o.members.Nonempty ∧ ∃ region, (Ink.render g s).IsRegion region ∧
      o.members = edge (Ink.render g s) region := by
  have traced : o.members ∈ {t | ∃ o ∈ family, t = o.members} := ⟨o, mem, rfl⟩
  rwa [outlines.regions] at traced

theorem mem_of_mem (outlines : Outlines g s family) (mem : o ∈ family) (member : c ∈ o) :
    c ∈ s := by
  obtain ⟨-, region, -, same⟩ := outlines.exists_region mem
  have traced : c ∈ o.members := member
  rw [same] at traced
  obtain ⟨n, inked, -, rfl⟩ := traced
  exact (Ink.inks_of_mark inked).1

end Outlines

/-- All pieces of a drawing have their outlines. -/
theorem exists_families (g : Grid) : ∃ pieces families,
    Ink.pieces (Ink.render g g.inked) = .ok pieces ∧ all g = .ok families.flatten ∧
      List.Forall₂ (Outlines g) pieces families := by
  obtain ⟨-, pieces, taken, -⟩ := Ink.pieces_eq (Ink.render g g.inked)
  obtain ⟨families, found, outlines⟩ := mapM_ok (f := ofPiece g) (Outlines g) pieces
    fun s _ => by
      obtain ⟨family, outlines⟩ := exists_outlines g s
      exact ⟨family, outlines.taken, outlines⟩
  have whole : all g = .ok families.flatten := by
    simp [all, taken, found, bind, Except.bind, pure, Except.pure]
  exact ⟨pieces, families, taken, whole, outlines⟩

/-- The outlines of a drawing come piece by piece, and those of a piece are the edges of the regions
that its ink leaves blank. -/
theorem all_eq_edges (g : Grid) : ∃ pieces families,
    Ink.pieces (Ink.render g g.inked) = .ok pieces ∧ all g = .ok families.flatten ∧
    List.Forall₂ (fun s family => ofPiece g s = .ok family ∧
      {t | ∃ o ∈ family, t = o.members} = {t | t.Nonempty ∧
        ∃ region, (Ink.render g s).IsRegion region ∧ t = edge (Ink.render g s) region} ∧
      family.IsChain (fun a b => ¬ a.Same b) ∧
      ∀ o ∈ family, (∃ c, c ∈ o) ∧ ∀ c ∈ o, c ∈ s) pieces families := by
  obtain ⟨pieces, families, taken, whole, outlines⟩ := exists_families g
  refine ⟨pieces, families, taken, whole, ?_⟩
  refine outlines.imp fun s family outlines => ⟨outlines.taken, outlines.regions, outlines.fresh, ?_⟩
  exact fun o mem => ⟨(outlines.exists_region mem).1, fun c member => outlines.mem_of_mem mem member⟩

end Outline

end Linework
