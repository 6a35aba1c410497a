import Linework.Proofs.Reach
import Linework.Proofs.Rearranged
import Linework.Proofs.Tiling

/-! What a reduction returns, whatever outlines it is given.

Outlines are told apart twice, once as they come and once after mixed ones are replaced, and what is
the same is kept once each time. Strands are never replaced, and whether an outline is a strand does
not depend on the order of its cells, so none is lost.
-/

set_option autoImplicit false

namespace Linework.Reduction

open Outline (Form form)

variable {g : Grid} {outlines sets : List CellSet} {s t : CellSet} {kind : Form}

structure Once (outlines sets : List CellSet) : Prop where
  sublist : sets.Sublist outlines
  apart : sets.Pairwise fun s t => ¬ s.Same t
  filled : ∀ s ∈ sets, s.isEmpty = false
  all : ∀ s ∈ outlines, s.isEmpty = false → ∃ t ∈ sets, t.Same s

structure Outcome (g : Grid) (outlines : List CellSet) (r : Reduction) : Prop where
  strand : ∀ s ∈ r.strands, s.isEmpty = false ∧ form g s = .strand
  loop : ∀ s ∈ r.loops, s.isEmpty = false ∧ form g s = .loop
  strandsApart : r.strands.Pairwise fun s t => ¬ s.Same t
  loopsApart : r.loops.Pairwise fun s t => ¬ s.Same t
  /-- Nothing is put together from several outlines. -/
  within : ∀ s ∈ r.strands ++ r.loops, ∃ t ∈ outlines, ∀ c ∈ s, c ∈ t
  kept : ∀ s ∈ outlines, s.isEmpty = false → form g s = .strand → ∃ t ∈ r.strands, t.Same s
  /-- Without mixed outlines, only obsolete loops are left out. -/
  clear : (∀ s ∈ outlines, form g s ≠ .mixed) → ∃ sets, Once outlines sets ∧
    sets.Perm (ofForm g .strand sets ++ ofForm g .loop sets) ∧
    r.strands = ofForm g .strand sets ∧ r.loops = dropObsolete (ofForm g .loop sets)

theorem once_distinct (outlines : List CellSet) :
    Once outlines ((CellSet.distinct outlines).filter (!·.isEmpty)) where
  sublist := List.filter_sublist.trans (CellSet.distinct_sublist outlines)
  apart := (CellSet.pairwise_distinct outlines).sublist List.filter_sublist
  filled s mem := by simpa using (List.mem_filter.1 mem).2
  all s mem filled := by
    obtain ⟨t, kept, same⟩ := CellSet.exists_same_distinct mem
    exact ⟨t, List.mem_filter.2 ⟨kept, by simp [same.isEmpty_eq, filled]⟩, same⟩

theorem pairwise_ofForm_resolved :
    (ofForm g kind (resolved g outlines)).Pairwise fun s t => ¬ s.Same t :=
  (once_distinct (resolve g (CellSet.distinct outlines))).apart.sublist List.filter_sublist

theorem mem_resolve_of_strand (mem : s ∈ sets) (strand : form g s = .strand) :
    s ∈ resolve g sets := by
  have stays : replacement g (ofForm g .loop sets) s = ([s], []) :=
    replacement_of_not_mixed (by rw [strand]; decide)
  rw [resolve_eq, resolveAmong]
  refine List.mem_append_left _ (List.mem_flatMap.2 ⟨s, mem, ?_⟩)
  rw [stays]
  exact List.mem_singleton_self s

theorem exists_same_strand (mem : s ∈ outlines) (filled : s.isEmpty = false)
    (strand : form g s = .strand) :
    ∃ t ∈ ofForm g .strand (resolved g outlines), t.Same s := by
  obtain ⟨t, first, same⟩ := CellSet.exists_same_distinct mem
  have strand' := (Outline.form_eq_strand_congr same).2 strand
  have filled' : t.isEmpty = false := same.isEmpty_eq.trans filled
  obtain ⟨u, kept, same'⟩ :=
    (once_distinct _).all t (mem_resolve_of_strand first strand') filled'
  exact ⟨u, mem_ofForm.2 ⟨kept, (Outline.form_eq_strand_congr same').2 strand'⟩,
    fun c => (same' c).trans (same c)⟩

theorem perm_ofForm (clear : ∀ s ∈ sets, form g s ≠ .mixed) :
    sets.Perm (ofForm g .strand sets ++ ofForm g .loop sets) := by
  have other : ofForm g .loop sets = sets.filter fun s => !decide (form g s = .strand) := by
    refine List.filter_congr fun s mem => ?_
    cases found : form g s with
    | mixed => exact absurd found (clear s mem)
    | strand | loop => rfl
  rw [other]
  exact (List.filter_append_perm _ sets).symm

theorem ofOutlines_outcome (g : Grid) (outlines : List CellSet) :
    Outcome g outlines (ofOutlines g outlines) := by
  -- Dropping obsolete loops only thins the list, so what holds of each loop or pair stays.
  have loops := dropObsolete_sublist (ofForm g .loop (resolved g outlines))
  rw [ofOutlines_eq]
  constructor
  case strand =>
    intro s mem
    obtain ⟨mem, strand⟩ := mem_ofForm.1 mem
    exact ⟨(mem_resolved mem).1, strand⟩
  case loop =>
    intro s mem
    obtain ⟨mem, loop⟩ := mem_ofForm.1 (loops.subset mem)
    exact ⟨(mem_resolved mem).1, loop⟩
  case strandsApart => exact pairwise_ofForm_resolved
  case loopsApart => exact pairwise_ofForm_resolved.sublist loops
  case within =>
    intro s mem
    have mem : s ∈ resolved g outlines := by
      rcases List.mem_append.1 mem with mem | mem
      · exact (mem_ofForm.1 mem).1
      · exact (mem_ofForm.1 (loops.subset mem)).1
    obtain ⟨-, t, source, within⟩ := mem_resolved mem
    exact ⟨t, source, within⟩
  case kept => exact fun s mem filled strand => exists_same_strand mem filled strand
  case clear =>
    intro clear
    have clear' : ∀ s ∈ CellSet.distinct outlines, form g s ≠ .mixed := fun s mem =>
      clear s ((CellSet.distinct_sublist outlines).subset mem)
    refine ⟨_, once_distinct outlines, perm_ofForm fun s mem => clear' s (List.mem_filter.1 mem).1,
      ?_⟩
    rw [resolved_of_clear clear']
    exact ⟨rfl, rfl⟩

/-- A box and two line ends of one drawing are no mixture, and both are returned. -/
theorem ofOutlines_outcome_twin :
    (∀ s ∈ [Strand.twinBox, Strand.twinEnds], form Strand.twinLines s ≠ .mixed) ∧
      ∃ sets, Once [Strand.twinBox, Strand.twinEnds] sets ∧
        sets.Perm (ofForm Strand.twinLines .strand sets ++ ofForm Strand.twinLines .loop sets) ∧
        (ofOutlines Strand.twinLines [Strand.twinBox, Strand.twinEnds]).strands
          = ofForm Strand.twinLines .strand sets ∧
        (ofOutlines Strand.twinLines [Strand.twinBox, Strand.twinEnds]).loops
          = dropObsolete (ofForm Strand.twinLines .loop sets) :=
  have clear : ∀ s ∈ [Strand.twinBox, Strand.twinEnds], form Strand.twinLines s ≠ .mixed := by
    simp [Strand.form_twinBox, Strand.form_twinEnds]
  ⟨clear, (ofOutlines_outcome _ _).clear clear⟩

end Linework.Reduction
