import Linework.Proofs.Rectangle
import Linework.Proofs.Reduced

/-! What an outline owes to the order of its cells.

The cells of a set alone, their ink and what it keeps from the outside are the same in whatever order
the cells came. Only where a walk around them begins may differ.
-/

set_option autoImplicit false

namespace Linework

namespace CellSet

variable {s t : CellSet}

theorem Same.perm (same : s.Same t) : s.toList.Perm t.toList :=
  (List.perm_ext_iff_of_nodup s.nodup t.nodup).2 same

theorem Same.size_eq (same : s.Same t) : s.size = t.size := same.perm.length_eq

theorem Same.isEmpty_eq (same : s.Same t) : s.isEmpty = t.isEmpty := same.perm.isEmpty_eq

theorem Same.extent?_eq (same : s.Same t) : s.extent? = t.extent? := by
  by_cases bare : ∀ c, c ∉ s
  · have none : s.toList = [] := List.eq_nil_iff_forall_not_mem.2 bare
    have none' : t.toList = [] := List.eq_nil_iff_forall_not_mem.2 fun c mem =>
      bare c ((same c).2 mem)
    rw [extent?, extent?, none, none']
  · push Not at bare
    obtain ⟨c, mem⟩ := bare
    obtain ⟨e, found⟩ := extent?_isSome mem
    obtain ⟨f, found'⟩ := extent?_isSome ((same c).1 mem)
    have tight' : f.Tight (· ∈ s) := by
      simp only [same _]
      exact tight_of_extent? found'
    rw [found, found', (tight_of_extent? found).unique tight' (fun c => spans_of_extent? found)
      fun c mem => spans_of_extent? found' ((same c).1 mem)]

theorem Same.translate (same : s.Same t) (dx dy : Int) :
    (s.translate dx dy).Same (t.translate dx dy) := by
  intro c
  obtain ⟨n, rfl⟩ := c.exists_translate dx dy
  rw [mem_translate, mem_translate, same n]

end CellSet

namespace Grid

variable {g h : Grid} {s t : CellSet}

theorem size_foldl {α : Type} {f : Grid → α → Grid}
    (kept : ∀ h a, (f h a).width = h.width ∧ (f h a).height = h.height) (places : List α)
    (h : Grid) :
    (places.foldl f h).width = h.width ∧ (places.foldl f h).height = h.height := by
  induction places generalizing h with
  | nil => exact ⟨rfl, rfl⟩
  | cons p places ih =>
    rw [List.foldl_cons, (ih _).1, (ih _).2]
    exact kept h p

theorem size_isolate (g : Grid) (s : CellSet) :
    (g.isolate s).width = g.width ∧ (g.isolate s).height = g.height :=
  size_foldl (fun _ _ => ⟨width_set .., height_set ..⟩) s.toList (blank g.width g.height)

theorem foldl_set_congr (g h : Grid) (same : s.Same t) (dx dy : Int) :
    s.toList.foldl (fun acc p => acc.set (p.translate dx dy) (g.get p)) h
      = t.toList.foldl (fun acc p => acc.set (p.translate dx dy) (g.get p)) h := by
  have size (s : CellSet) := size_foldl
    (f := fun acc p => acc.set (p.translate dx dy) (g.get p))
    (fun _ _ => ⟨width_set .., height_set ..⟩) s.toList h
  refine ext_get ((size s).1.trans (size t).1.symm) ((size s).2.trans (size t).2.symm) fun c => ?_
  obtain ⟨n, rfl⟩ := c.exists_translate dx dy
  rw [get_foldl_set_translate, get_foldl_set_translate]
  simp only [← CellSet.mem_def, same n]

theorem isolate_congr (g : Grid) (same : s.Same t) : g.isolate s = g.isolate t := by
  refine ext_get ?_ ?_ fun c => ?_
  · rw [(size_isolate g s).1, (size_isolate g t).1]
  · rw [(size_isolate g s).2, (size_isolate g t).2]
  · rw [get_isolate, get_isolate]
    simp only [same c]

end Grid

namespace Ink

variable {s t : CellSet}

theorem size_draw (canvas : Grid) (c : Cell) (ink : Square Bool) :
    (draw canvas c ink).width = canvas.width ∧ (draw canvas c ink).height = canvas.height := by
  refine Grid.size_foldl (fun h e => ?_) ink.entries canvas
  obtain ⟨dx, dy, inked⟩ := e
  cases inked with
  | false => exact ⟨rfl, rfl⟩
  | true => exact ⟨Grid.width_set .., Grid.height_set ..⟩

theorem size_render (g : Grid) (s : CellSet) :
    (render g s).width = g.width * scale ∧ (render g s).height = g.height * scale := by
  refine Grid.size_foldl (fun h c => ?_) s.toList (Grid.blank (g.width * scale) (g.height * scale))
  split
  · exact ⟨rfl, rfl⟩
  · exact size_draw ..

theorem render_congr (g : Grid) (same : s.Same t) : render g s = render g t := by
  refine Grid.ext_get ?_ ?_ fun c => ?_
  · rw [(size_render g s).1, (size_render g t).1]
  · rw [(size_render g s).2, (size_render g t).2]
  · rw [get_render, get_render, same.perm.any_eq]

end Ink

namespace Outline

variable {g : Grid} {s t : CellSet}

theorem encloses_congr (g : Grid) (same : s.Same t) : encloses g s = encloses g t := by
  unfold encloses localize?
  rw [same.extent?_eq]
  cases t.extent? with
  | none => rfl
  | some e =>
    simp only [Option.map_some]
    rw [Grid.foldl_set_congr g _ same, Ink.render_congr _ (same.translate _ _)]

theorem form_eq_loop_iff : form g s = .loop ↔ 1 < s.size ∧ encloses g s = .ok true ∧
    ∃ start cells, start? (g.isolate s) s = some start ∧
      Circuit.walk (g.isolate s) start (patience s) = .ok (.closed cells) := by
  unfold form
  by_cases small : s.size ≤ 1
  · rw [if_pos small]
    simp [small]
  · rw [if_neg small]
    simp only [Nat.not_le.1 small, true_and]
    split
    · rename_i enclosed
      cases first : start? (g.isolate s) s with
      | none => simp
      | some start =>
        simp only [Option.map_some, Option.some.injEq, enclosed, true_and, exists_and_left,
          exists_eq_left']
        split
        · rename_i cells walked
          simp [Option.some.inj walked]
        · rename_i open'
          simp only [reduceCtorEq, false_iff, not_exists]
          exact fun cells walked => open' cells (by rw [walked])
    · rename_i free
      simp only [reduceCtorEq, false_iff, not_and]
      exact fun enclosed => absurd enclosed free

theorem form_eq_loop (start : Cell) (walked pocket : List Cell) (large : 1 < s.size)
    (kept : ∃ p ∈ localize? g s, (Ink.render p.1 p.2).Pocket pocket)
    (first : start? (g.isolate s) s = some start)
    (returned : Circuit.walk (g.isolate s) start (patience s) = .ok (.closed walked)) :
    form g s = .loop := by
  obtain ⟨⟨alone, there⟩, localized, kept⟩ := kept
  exact form_eq_loop_iff.2 ⟨large, encloses_of_fill localized kept.fill_leaves_blank, start, walked,
    first, returned⟩

theorem form_eq_strand_iff_encloses :
    form g s = .strand ↔ s.size ≤ 1 ∨ encloses g s ≠ .ok true := by
  unfold form
  by_cases small : s.size ≤ 1
  · simp [small]
  · rw [if_neg small]
    split
    · rename_i enclosed
      simp only [small, enclosed, ne_eq, not_true_eq_false, or_self, iff_false]
      split <;> simp
    · rename_i free
      simp only [true_iff]
      exact .inr free

/-- Whether a set is a strand does not depend on the order of its cells. -/
theorem form_eq_strand_congr (same : s.Same t) : form g s = .strand ↔ form g t = .strand := by
  rw [form_eq_strand_iff_encloses, form_eq_strand_iff_encloses, same.size_eq, encloses_congr g same]

/-- Sets that are the same have the same form if a walk around them begins at the same cell. -/
theorem form_congr (same : s.Same t)
    (first : start? (g.isolate s) s = start? (g.isolate t) t) : form g s = form g t := by
  rw [Grid.isolate_congr g same] at first
  unfold form patience
  rw [same.size_eq, encloses_congr g same, Grid.isolate_congr g same]
  dsimp only
  rw [first]

end Outline

end Linework
