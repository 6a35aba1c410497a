import Linework.Proofs.ObsoleteArea

/-! Obsolete loops in a list that is put in another order.

Which of several largest sets comes first only matters if they are as large as each other. A set that
is filled by others contains each of them, so one as large has the same area: where no two areas are
the same, a set is dropped or kept wherever it stands.
-/

set_option autoImplicit false

namespace Linework.Reduction

variable {sets other before after : List CellSet} {s t seed : CellSet}

def AreasDiffer (sets : List CellSet) : Prop := sets.Pairwise fun s t => ¬ (area s).Same (area t)

/-- Whether some area meets three or more sets, and this is one of them and has just the area of the
others together. -/
def RepeatsAmong (sets : List CellSet) (s : CellSet) : Prop :=
  ∃ seed ∈ sets, (area seed).meets (area s) ∧
    2 < (sets.filter fun t => (area seed).meets (area t)).length ∧
    ∀ c, c ∈ area s ↔ ∃ t ∈ sets, t ≠ s ∧ (area seed).meets (area t) ∧ c ∈ area t

theorem repeatsAmong_congr (same : sets.Perm other) : RepeatsAmong sets s ↔ RepeatsAmong other s := by
  simp only [RepeatsAmong, same.mem_iff, (same.filter _).length_eq]

theorem AreasDiffer.perm (differ : AreasDiffer sets) (same : sets.Perm other) : AreasDiffer other :=
  same.pairwise differ fun other same => other fun c => (same c).symm

theorem AreasDiffer.not_same (differ : AreasDiffer (before ++ s :: after)) (mem : t ∈ before ++ after) :
    ¬ (area t).Same (area s) := by
  have first : AreasDiffer (s :: (before ++ after)) := differ.perm List.perm_middle
  exact fun same => (List.pairwise_cons.1 first).1 t mem fun c => (same c).symm

theorem AreasDiffer.mem_others (differ : AreasDiffer (before ++ s :: after)) :
    t ∈ before ++ after ↔ t ∈ before ++ s :: after ∧ t ≠ s := by
  constructor
  · intro mem
    refine ⟨mem_cut mem, ?_⟩
    rintro rfl
    exact differ.not_same mem fun _ => Iff.rfl
  · rintro ⟨mem, apart⟩
    simpa [apart] using mem

theorem size_lt_of_not_same (within : ∀ c ∈ area t, c ∈ area s) (other : ¬ (area t).Same (area s)) :
    (area t).size < (area s).size := by
  obtain ⟨c, inside, out⟩ : ∃ c ∈ area s, c ∉ area t := by
    by_contra all
    push Not at all
    exact other fun c => ⟨within c, all c⟩
  exact CellSet.size_lt within inside out

/-- A set is dropped at its place just if it would be at any other. -/
theorem obsolete_iff_repeatsAmong (differ : AreasDiffer (before ++ s :: after)) :
    Obsolete before s after ↔ RepeatsAmong (before ++ s :: after) s := by
  refine exists_congr fun seed => and_congr_right fun _ => ?_
  have count : ((before.map area ++ area s :: after.map area).filter (area seed).meets).length
      = ((before ++ s :: after).filter fun t => (area seed).meets (area t)).length := by
    rw [← List.map_cons, ← List.map_append, List.filter_map, List.length_map]
    rfl
  have others (c : Cell) :
      (∃ filled ∈ before.map area ++ after.map area, (area seed).meets filled ∧ c ∈ filled) ↔
        ∃ t ∈ before ++ s :: after, t ≠ s ∧ (area seed).meets (area t) ∧ c ∈ area t := by
    simp only [← List.map_append, List.mem_map, exists_exists_and_eq_and]
    simp only [differ.mem_others, and_assoc]
  constructor
  · rintro ⟨met, many, -, -, whole⟩
    exact ⟨met, count ▸ many, fun c => (whole c).trans (others c)⟩
  · rintro ⟨met, many, whole⟩
    -- The order of the list breaks ties of size only, and areas that differ leave no tie.
    have smaller {t : CellSet} (mem : t ∈ before ++ after) (near : (area seed).meets (area t)) :
        (area t).size < (area s).size := by
      obtain ⟨here, apart⟩ := differ.mem_others.1 mem
      exact size_lt_of_not_same (fun c inside => (whole c).2 ⟨t, here, apart, near, inside⟩)
        (differ.not_same mem)
    refine ⟨met, count.symm ▸ many, ?_, ?_, fun c => (whole c).trans (others c).symm⟩
    · exact List.forall_mem_map.2 fun t mem near => smaller (List.mem_append_left _ mem) near
    · exact List.forall_mem_map.2 fun t mem near =>
        Nat.le_of_lt (smaller (List.mem_append_right _ mem) near)

open Classical in
/-- What is kept is told by the family alone. -/
theorem dropObsolete_eq_filter (told : ∀ s ∈ sets, (Outline.filled? s).isSome)
    (differ : AreasDiffer sets) :
    dropObsolete sets = sets.filter fun s => ¬ RepeatsAmong sets s := by
  have kept : (dropObsolete sets).filter (fun s => ¬ RepeatsAmong sets s) = dropObsolete sets := by
    refine List.filter_eq_self.2 fun s mem => decide_eq_true ?_
    obtain ⟨before, after, rfl, stays⟩ := (mem_dropObsolete told).1 mem
    rwa [← obsolete_iff_repeatsAmong differ]
  rw [← kept]
  refine filter_dropObsolete_of_kept told ?_
  rintro t ⟨before, after, rfl, dropped⟩
  simpa using (obsolete_iff_repeatsAmong differ).1 dropped

/-- Where all areas can be told and no two are the same, what is kept does not depend on the order of
the list: all but the sets that only repeat others of the family. -/
theorem dropObsolete_perm (told : ∀ s ∈ sets, (Outline.filled? s).isSome) (differ : AreasDiffer sets)
    (same : sets.Perm other) :
    (dropObsolete sets).Perm (dropObsolete other) ∧
      ∀ s, s ∈ dropObsolete other ↔ s ∈ sets ∧ ¬ RepeatsAmong sets s := by
  have told' : ∀ s ∈ other, (Outline.filled? s).isSome := fun s mem => told s (same.mem_iff.2 mem)
  have family : RepeatsAmong sets = RepeatsAmong other :=
    funext fun _ => propext (repeatsAmong_congr same)
  rw [dropObsolete_eq_filter told differ, dropObsolete_eq_filter told' (differ.perm same), family]
  refine ⟨same.filter _, fun s => ?_⟩
  simp only [List.mem_filter, decide_eq_true_eq, same.mem_iff]

theorem dropObsolete_perm_nested :
    (∀ s ∈ nested, (Outline.filled? s).isSome) ∧ AreasDiffer nested ∧ nested.Perm nested.reverse ∧
      (dropObsolete nested).Perm (dropObsolete nested.reverse) ∧
      ∀ s, s ∈ dropObsolete nested.reverse ↔ s ∈ nested ∧ ¬ RepeatsAmong nested s :=
  have told : ∀ s ∈ nested, (Outline.filled? s).isSome := by decide +kernel
  have differ : AreasDiffer nested := by
    unfold AreasDiffer
    decide +kernel
  have same : nested.Perm nested.reverse := (List.reverse_perm nested).symm
  ⟨told, differ, same, dropObsolete_perm told differ same⟩

end Linework.Reduction
