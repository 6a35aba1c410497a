import Linework.Proofs.Reduced
import Linework.Proofs.Obsolete

/-! Loops that fill a larger one.

Of loops whose areas lie in that of one of them and together fill it, just that one is dropped: it
is the largest that any area meets, and none of the others is ever the largest.
-/

set_option autoImplicit false

namespace Linework

namespace CellSet

variable {s t : CellSet} {sets : List CellSet}

theorem size_lt {c : Cell} (within : ∀ n ∈ t, n ∈ s) (mem : c ∈ s) (out : c ∉ t) :
    t.size < s.size := by
  have nodup : (c :: t.toList).Nodup := List.nodup_cons.2 ⟨out, t.nodup⟩
  have subset : c :: t.toList ⊆ s.toList := List.cons_subset.2 ⟨mem, within⟩
  exact (List.subperm_of_subset nodup subset).length_le

theorem exists_same_distinct (mem : s ∈ sets) : ∃ t ∈ distinct sets, t.Same s := by
  induction sets using List.reverseRecOn with
  | nil => cases mem
  | append_singleton sets last ih =>
    rw [distinct_concat]
    rcases List.mem_append.1 mem with before | here
    · obtain ⟨t, kept, same⟩ := ih before
      split
      · exact ⟨t, kept, same⟩
      · exact ⟨t, List.mem_append_left _ kept, same⟩
    · rw [List.mem_singleton.1 here]
      split
      · rename_i known
        obtain ⟨t, kept, same⟩ := List.any_eq_true.1 known
        exact ⟨t, kept, of_decide_eq_true same⟩
      · exact ⟨last, by simp, fun _ => Iff.rfl⟩

end CellSet

namespace Reduction

variable {before after sets : List CellSet} {s t whole : CellSet}

theorem mem_dropObsolete (told : ∀ t ∈ sets, (Outline.filled? t).isSome) :
    s ∈ dropObsolete sets ↔ ∃ before after, sets = before ++ s :: after ∧
      ¬ Obsolete before s after := by
  have place : s ∈ dropObsolete sets ↔ ∃ i, sets[i]? = some s ∧ i ∉ obsolete sets := by
    simp [dropObsolete, List.mk_mem_zipIdx_iff_getElem?]
  rw [place]
  constructor
  · rintro ⟨i, found, kept⟩
    obtain ⟨bound, rfl⟩ := List.getElem?_eq_some_iff.1 found
    have cut : sets = sets.take i ++ sets[i] :: sets.drop (i + 1) := by
      rw [List.getElem_cons_drop, List.take_append_drop]
    refine ⟨sets.take i, sets.drop (i + 1), cut, fun repeats => kept ?_⟩
    rw [cut] at told
    have dropped := (mem_obsolete_iff told).2 repeats
    rwa [← cut, List.length_take_of_le (Nat.le_of_lt bound)] at dropped
  · rintro ⟨before, after, rfl, kept⟩
    exact ⟨before.length, by simp, fun dropped => kept ((mem_obsolete_iff told).1 dropped)⟩

theorem dropObsolete_of_few (told : ∀ t ∈ sets, (Outline.filled? t).isSome)
    (few : sets.length ≤ 2) : dropObsolete sets = sets := by
  refine dropObsolete_of_none ?_
  rw [obsolete, mapM_filled? told]
  refine List.filterMap_eq_nil_iff.2 fun seed _ => if_pos ?_
  refine Nat.le_trans (List.length_filter_le ..) ?_
  rwa [List.length_zipIdx, List.length_map]

/-- Loops of which one has all the area that the others fill. -/
structure Tiles (sets : List CellSet) (whole : CellSet) : Prop where
  told : ∀ t ∈ sets, (Outline.filled? t).isSome
  apart : sets.Pairwise fun s t => ¬ s.Same t
  mem : whole ∈ sets
  some : ∀ t ∈ sets, ∃ c, c ∈ area t
  within : ∀ t ∈ sets, ∀ c ∈ area t, c ∈ area whole
  proper : ∀ t ∈ sets, t ≠ whole → ∃ c ∈ area whole, c ∉ area t
  filled : ∀ c ∈ area whole, ∃ t ∈ sets, t ≠ whole ∧ c ∈ area t

namespace Tiles

variable (tiles : Tiles sets whole)
include tiles

theorem smaller (mem : t ∈ sets) (other : t ≠ whole) : (area t).size < (area whole).size := by
  obtain ⟨c, inside, out⟩ := tiles.proper t mem other
  exact CellSet.size_lt (tiles.within t mem) inside out

theorem meets (mem : t ∈ sets) : (area whole).meets (area t) := by
  obtain ⟨c, inside⟩ := tiles.some t mem
  exact CellSet.meets_iff.2 ⟨c, tiles.within t mem c inside, inside⟩

/-- A part of the whole is never the largest that an area meets. -/
theorem not_obsolete (cut : sets = before ++ s :: after) (other : s ≠ whole) :
    ¬ Obsolete before s after := by
  rintro ⟨seed, member, repeats⟩
  rw [← cut] at member
  have met := CellSet.meets_comm (tiles.meets member)
  have less := tiles.smaller (t := s) (by simp [cut]) other
  have place := tiles.mem
  rw [cut, List.mem_append, List.mem_cons] at place
  rcases place with early | same | late
  · exact Nat.lt_asymm less (repeats.larger _ (List.mem_map_of_mem early) met)
  · exact other same.symm
  · exact Nat.not_le_of_lt less (repeats.largest _ (List.mem_map_of_mem late) met)

theorem obsolete_whole (cut : sets = before ++ whole :: after) (many : 2 < sets.length) :
    Obsolete before whole after := by
  have others : ∀ t ∈ before ++ after, t ∈ sets ∧ t ≠ whole := by
    intro t mem
    have apart := tiles.apart
    rw [cut, List.pairwise_append, List.pairwise_cons] at apart
    rcases List.mem_append.1 mem with early | late
    · refine ⟨by simp [cut, early], ?_⟩
      rintro rfl
      exact apart.2.2 t early t (List.mem_cons_self ..) fun _ => Iff.rfl
    · refine ⟨by simp [cut, late], ?_⟩
      rintro rfl
      exact apart.2.1.1 t late fun _ => Iff.rfl
  have here : whole ∈ before ++ whole :: after := by simp
  -- Every other loop is strictly smaller, so no tie is left to break.
  have less {t : CellSet} (mem : t ∈ before ++ after) : (area t).size < (area whole).size :=
    tiles.smaller (others t mem).1 (others t mem).2
  refine ⟨whole, here, tiles.meets tiles.mem, ?_, fun t mem _ => ?_, fun t mem _ => ?_, fun c => ?_⟩
  · -- The whole meets all of the loops.
    have all : ((before.map area) ++ area whole :: after.map area).filter (area whole).meets
        = sets.map area := by
      rw [cut, List.map_append, List.map_cons]
      refine List.filter_eq_self.2 fun t mem => ?_
      rw [← List.map_cons, ← List.map_append, List.mem_map] at mem
      obtain ⟨u, member, rfl⟩ := mem
      exact tiles.meets (cut ▸ member)
    rwa [all, List.length_map]
  · obtain ⟨u, early, rfl⟩ := List.mem_map.1 mem
    exact less (List.mem_append_left _ early)
  · obtain ⟨u, late, rfl⟩ := List.mem_map.1 mem
    exact Nat.le_of_lt (less (List.mem_append_right _ late))
  · rw [← List.map_append]
    constructor
    · intro inside
      obtain ⟨t, mem, other, member⟩ := tiles.filled c inside
      have place := mem
      rw [cut, List.mem_append, List.mem_cons] at place
      have place : t ∈ before ++ after := by
        rw [List.mem_append]
        exact place.imp_right fun late => late.resolve_left other
      exact ⟨area t, List.mem_map_of_mem place, tiles.meets mem, member⟩
    · rintro ⟨t, mem, -, member⟩
      obtain ⟨u, place, rfl⟩ := List.mem_map.1 mem
      exact tiles.within u (others u place).1 c member

/-- Of a whole and its parts, the parts are kept. -/
theorem mem_dropObsolete_iff (many : 2 < sets.length) :
    s ∈ dropObsolete sets ↔ s ∈ sets ∧ s ≠ whole := by
  rw [mem_dropObsolete tiles.told]
  constructor
  · rintro ⟨before, after, cut, kept⟩
    refine ⟨by simp [cut], ?_⟩
    rintro rfl
    exact kept (tiles.obsolete_whole cut many)
  · rintro ⟨mem, other⟩
    obtain ⟨before, after, cut⟩ := List.append_of_mem mem
    exact ⟨before, after, cut, tiles.not_obsolete cut other⟩

end Tiles

end Reduction

end Linework
