import Linework.Proofs.Tiling

/-! What stays when obsolete loops are dropped.

A dropped loop is filled by others that are smaller, or as large and further back in the list. Some
of them may be dropped as well, but a descent along size and place ends at loops that stay, so no
area is lost. A second removal may still find something: a loop within a larger one comes to light
only when that one is gone.
-/

set_option autoImplicit false

namespace Linework.Reduction

variable {sets before after : List CellSet} {s t seed : CellSet} {c : Cell}

theorem mem_area : c ∈ area s ↔ ∃ filled, Outline.filled? s = some filled ∧ c ∈ filled := by
  unfold area
  cases Outline.filled? s <;> simp

namespace Repeats

variable (repeats : Repeats (area seed) (before.map area) (area t) (after.map area))
include repeats

theorem exists_other (inside : c ∈ area t) :
    ∃ u ∈ before ++ after, (area seed).meets (area u) ∧ c ∈ area u := by
  obtain ⟨filled, mem, met, inside⟩ := (repeats.whole c).1 inside
  rw [← List.map_append, List.mem_map] at mem
  obtain ⟨u, mem, rfl⟩ := mem
  exact ⟨u, mem, met, inside⟩

theorem within (mem : s ∈ before ++ t :: after) (met : (area seed).meets (area s))
    (inside : c ∈ area s) : c ∈ area t := by
  rw [List.mem_append, List.mem_cons] at mem
  rcases mem with early | rfl | late
  · exact (repeats.whole c).2
      ⟨area s, List.mem_append_left _ (List.mem_map_of_mem early), met, inside⟩
  · exact inside
  · exact (repeats.whole c).2
      ⟨area s, List.mem_append_right _ (List.mem_map_of_mem late), met, inside⟩

end Repeats

/-! ### Descent to what is kept -/

/-- What holds of the sets that are kept, and of a dropped set when it holds of those that fill it,
holds at every place. -/
theorem descent {p : CellSet → Prop} (told : ∀ s ∈ sets, (Outline.filled? s).isSome)
    (kept : ∀ s ∈ dropObsolete sets, p s)
    (dropped : ∀ seed before t after, sets = before ++ t :: after →
      Repeats (area seed) (before.map area) (area t) (after.map area) →
      (∀ u ∈ before ++ after, (area seed).meets (area u) → p u) → p t)
    (before : List CellSet) (t : CellSet) (after : List CellSet)
    (cut : sets = before ++ t :: after) : p t := by
  by_cases obsolete : Obsolete before t after
  case neg => exact kept t ((mem_dropObsolete told).2 ⟨before, after, cut, obsolete⟩)
  case pos =>
    -- The others are smaller, or no larger and with fewer sets behind them.
    obtain ⟨seed, -, repeats⟩ := obsolete
    refine dropped seed before t after cut repeats fun u mem met => ?_
    rcases List.mem_append.1 mem with early | late
    · have less := repeats.larger (area u) (List.mem_map_of_mem early) met
      obtain ⟨front, back, parts⟩ := List.append_of_mem early
      exact descent told kept dropped front u (back ++ t :: after) (by simpa [parts] using cut)
    · have most := repeats.largest (area u) (List.mem_map_of_mem late) met
      obtain ⟨front, back, parts⟩ := List.append_of_mem late
      have behind : back.length < after.length := by simp [parts]; omega
      exact descent told kept dropped (before ++ t :: front) u back (by simpa [parts] using cut)
termination_by ((area t).size, after.length)
decreasing_by
  · exact Prod.Lex.left _ _ less
  · exact Prod.Lex.right' _ most behind

theorem exists_kept (told : ∀ s ∈ sets, (Outline.filled? s).isSome) (mem : s ∈ sets)
    (inside : c ∈ area s) : ∃ t ∈ dropObsolete sets, c ∈ area t := by
  obtain ⟨before, after, cut⟩ := List.append_of_mem mem
  refine descent (p := fun s => c ∈ area s → ∃ t ∈ dropObsolete sets, c ∈ area t) told
    (fun s kept inside => ⟨s, kept, inside⟩) ?_ before s after cut inside
  intro seed before t after cut repeats others inside
  obtain ⟨u, other, met, inside⟩ := repeats.exists_other inside
  exact others u other met inside

def strip (left width : Nat) : CellSet :=
  .ofList <| (List.range width).flatMap fun x =>
    if x = 0 || x + 1 = width then [⟨left + x, 0⟩, ⟨left + x, 1⟩, ⟨left + x, 2⟩]
    else [⟨left + x, 0⟩, ⟨left + x, 2⟩]

def nested : List CellSet := [strip 0 7, strip 0 5, strip 0 3, strip 2 3, strip 4 3]

def post : CellSet := ⟨[⟨0, 0⟩, ⟨0, 1⟩, ⟨0, 2⟩], by decide⟩

/-- Dropping obsolete sets drops what only repeats others, and keeps the order of the rest and all
the area of the list. It changes nothing where the area of some set cannot be told. -/
theorem dropObsolete_area (sets : List CellSet) :
    (dropObsolete sets).Sublist sets ∧
      ((∀ s ∈ sets, (Outline.filled? s).isSome) →
        (∀ s, s ∈ dropObsolete sets ↔ ∃ before after, sets = before ++ s :: after ∧
          ¬ Obsolete before s after) ∧
        ∀ c, (∃ s ∈ dropObsolete sets, ∃ filled, Outline.filled? s = some filled ∧ c ∈ filled) ↔
          ∃ s ∈ sets, ∃ filled, Outline.filled? s = some filled ∧ c ∈ filled) ∧
      ((∃ s ∈ sets, Outline.filled? s = none) → dropObsolete sets = sets) := by
  refine ⟨dropObsolete_sublist sets, fun told => ⟨fun s => mem_dropObsolete told, fun c => ?_⟩, ?_⟩
  · simp only [← mem_area]
    constructor
    · rintro ⟨s, kept, inside⟩
      exact ⟨s, (dropObsolete_sublist sets).subset kept, inside⟩
    · rintro ⟨s, mem, inside⟩
      exact exists_kept told mem inside
  · rintro ⟨s, mem, untold⟩
    exact dropObsolete_of_untold mem untold

theorem dropObsolete_area_nested :
    ((∀ s ∈ nested, (Outline.filled? s).isSome) ∧
      (strip 0 5 ∈ dropObsolete nested ↔ ∃ before after, nested = before ++ strip 0 5 :: after ∧
        ¬ Obsolete before (strip 0 5) after) ∧
      ∀ c, (∃ s ∈ dropObsolete nested, ∃ filled, Outline.filled? s = some filled ∧ c ∈ filled) ↔
        ∃ s ∈ nested, ∃ filled, Outline.filled? s = some filled ∧ c ∈ filled) ∧
      (∃ s ∈ post :: nested, Outline.filled? s = none) ∧
      dropObsolete (post :: nested) = post :: nested := by
  have told : ∀ s ∈ nested, (Outline.filled? s).isSome := by decide +kernel
  have untold : ∃ s ∈ post :: nested, Outline.filled? s = none :=
    ⟨post, List.mem_cons_self .., by decide +kernel⟩
  obtain ⟨-, whole, -⟩ := dropObsolete_area nested
  obtain ⟨-, -, same⟩ := dropObsolete_area (post :: nested)
  exact ⟨⟨told, (whole told).1 _, (whole told).2⟩, untold, same untold⟩

/-! ### A second removal -/

theorem mem_cut (other : s ∈ before ++ after) : s ∈ before ++ t :: after :=
  ((List.sublist_cons_self t after).append_left before).subset other

def Dropped (sets : List CellSet) (t : CellSet) : Prop :=
  ∃ before after, sets = before ++ t :: after ∧ Obsolete before t after

theorem exists_dropped {i : Nat} (told : ∀ s ∈ sets, (Outline.filled? s).isSome)
    (drop : i ∈ obsolete sets) : ∃ s, Dropped sets s := by
  have bound : i < sets.length := by
    rw [obsolete, mapM_filled? told] at drop
    obtain ⟨seed, -, found⟩ := List.mem_filterMap.1 drop
    obtain ⟨-, m, first, rfl, -⟩ := covered?_eq_some.1 found
    simpa using place_lt_of_mem_metFrom (largest?_mem first)
  have cut : sets = sets.take i ++ sets[i] :: sets.drop (i + 1) := by
    rw [List.getElem_cons_drop, List.take_append_drop]
  refine ⟨sets[i], sets.take i, sets.drop (i + 1), cut, ?_⟩
  rwa [← mem_obsolete_iff (by rwa [← cut]), ← cut,
    List.length_take_of_le (Nat.le_of_lt bound)]

theorem filter_dropObsolete_of_kept {p : CellSet → Bool}
    (told : ∀ s ∈ sets, (Outline.filled? s).isSome) (kept : ∀ t, Dropped sets t → ¬ p t) :
    (dropObsolete sets).filter p = sets.filter p := by
  have same := @filter_keep p [] sets (obsolete sets) [] fun before t after cut side => by
    rw [List.nil_append] at cut
    subst cut
    rw [mem_obsolete_iff told]
    exact iff_of_false (fun repeats => kept t ⟨before, after, rfl, repeats⟩ side) List.not_mem_nil
  simpa [dropObsolete] using same

-- Whether a set only repeats what the seed meets depends on nothing else, so a new repetition is
-- due to a set that the seed met before.
theorem exists_dropped_met (told : ∀ s ∈ sets, (Outline.filled? s).isSome)
    (cut : dropObsolete sets = before ++ s :: after) (mem : seed ∈ dropObsolete sets)
    (repeats : Repeats (area seed) (before.map area) (area s) (after.map area)) :
    ∃ t, Dropped sets t ∧ (area seed).meets (area t) := by
  by_contra free
  push Not at free
  let p (u : CellSet) : Bool := (area seed).meets (area u)
  have here : p s := repeats.met
  have near (u : CellSet) (met : (area seed).meets (area u)) : p u := met
  have same := filter_dropObsolete_of_kept (p := p) told free
  rw [cut, filter_cut here] at same
  obtain ⟨front, rest, rfl, early, late⟩ := List.filter_eq_append_iff.1 same.symm
  obtain ⟨middle, back, rfl, out, -, late⟩ := List.filter_eq_cons_iff.1 late
  have early : (front ++ middle).filter p = before.filter p := by
    rw [List.filter_append, early, List.filter_eq_nil_iff.2 out, List.append_nil]
  refine free s ⟨front ++ middle, back, by simp, seed, ?_, ?_⟩ here
  · simpa using (dropObsolete_sublist _).subset mem
  · rw [← repeats_filter_iff here fun u _ => near u, early, late,
      repeats_filter_iff here fun u _ => near u]
    exact repeats

/-- A set that only repeats others contains what each of them contains or lies in. -/
theorem Repeats.around {root : CellSet}
    (repeats : Repeats (area root) (before.map area) (area t) (after.map area))
    (mem : s ∈ before ++ t :: after) (met : (area seed).meets (area t))
    (others : ∀ u ∈ before ++ after, (area root).meets (area u) → (area seed).meets (area u) →
      (∀ c ∈ area u, c ∈ area s) ∨ ∀ c ∈ area s, c ∈ area u) :
    ∀ c ∈ area s, c ∈ area t := by
  obtain ⟨c, here, inside⟩ := CellSet.meets_iff.1 met
  obtain ⟨u, other, met', inside⟩ := repeats.exists_other inside
  rcases others u other met' (CellSet.meets_iff.2 ⟨c, here, inside⟩) with lies | holds
  · obtain ⟨n, root, inU⟩ := CellSet.meets_iff.1 met'
    exact fun c => repeats.within mem (CellSet.meets_iff.2 ⟨n, root, lies n inU⟩)
  · exact fun c inside => repeats.within (mem_cut other) met' (holds c inside)

/-- What a second removal drops lies within a set that the first one dropped. -/
theorem exists_dropped_around (told : ∀ s ∈ sets, (Outline.filled? s).isSome)
    (again : Dropped (dropObsolete sets) s) :
    ∃ t, Dropped sets t ∧ ∀ c ∈ area s, c ∈ area t := by
  obtain ⟨before, after, cut, seed, mem, repeats⟩ := again
  rw [← cut] at mem
  have here : s ∈ sets := (dropObsolete_sublist sets).subset (by simp [cut])
  have nested := descent (p := fun u => (area seed).meets (area u) →
    (∀ c ∈ area u, c ∈ area s) ∨ ∀ c ∈ area s, c ∈ area u) told
    (fun u kept met => .inl fun c => repeats.within (cut ▸ kept) met)
    fun root front t back parts repeats others met =>
      .inr (repeats.around (parts ▸ here) met others)
  obtain ⟨t, ⟨front, back, parts, root, member, repeats'⟩, met⟩ :=
    exists_dropped_met told cut mem repeats
  refine ⟨t, ⟨front, back, parts, root, member, repeats'⟩, ?_⟩
  refine repeats'.around (parts ▸ here) met fun u other _ met => ?_
  obtain ⟨front', back', parts'⟩ := List.append_of_mem (parts ▸ mem_cut other : u ∈ sets)
  exact nested front' u back' parts' met

theorem exists_cut_of_filter_zipIdx {q : CellSet × Nat → Bool}
    (cut : (sets.zipIdx.filter q).map Prod.fst = before ++ s :: after) :
    ∃ front back, sets = front ++ s :: back ∧ q (s, front.length) ∧ before ⊆ front ∧
      after ⊆ back := by
  obtain ⟨early, late, kept, rfl, tail⟩ := List.map_eq_append_iff.1 cut
  obtain ⟨⟨t, place⟩, rest, rfl, rfl, rfl⟩ := List.map_eq_cons_iff.1 tail
  obtain ⟨first, second, places, rfl, found⟩ := List.filter_eq_append_iff.1 kept
  obtain ⟨middle, last, rfl, -, keep, rfl⟩ := List.filter_eq_cons_iff.1 found
  rw [← List.append_assoc] at places
  obtain ⟨front, tail, rfl, parts, places⟩ := List.zipIdx_eq_append_iff.1 places
  obtain ⟨t', back, rfl, same, rfl⟩ := List.zipIdx_eq_cons_iff.1 places.symm
  obtain ⟨rfl, rfl⟩ := Prod.mk.inj same
  refine ⟨front, back, rfl, by simpa using keep, fun u early => ?_, fun u late => ?_⟩
  · obtain ⟨entry, kept, rfl⟩ := List.mem_map.1 early
    exact List.fst_mem_of_mem_zipIdx
      (parts ▸ List.mem_append_left _ (List.mem_filter.1 kept).1)
  · obtain ⟨entry, kept, rfl⟩ := List.mem_map.1 late
    exact List.fst_mem_of_mem_zipIdx (List.mem_filter.1 kept).1

theorem exists_kept_place (told : ∀ s ∈ sets, (Outline.filled? s).isSome)
    (cut : dropObsolete sets = before ++ s :: after) :
    ∃ front back, sets = front ++ s :: back ∧ ¬ Obsolete front s back ∧
      before ++ after ⊆ front ++ back := by
  obtain ⟨front, back, rfl, keep, early, late⟩ := exists_cut_of_filter_zipIdx cut
  refine ⟨front, back, rfl, ?_, fun u mem => ?_⟩
  · rw [← mem_obsolete_iff told]
    simpa using keep
  · exact List.mem_append.2 ((List.mem_append.1 mem).imp (@early u) (@late u))

/-- Whether the set at a place of a list has just the area of others that lie within it. -/
def MadeUp (sets : List CellSet) (i : Fin sets.length) : Prop :=
  ∀ c ∈ area sets[i], ∃ u ∈ sets.eraseIdx i, (∀ n ∈ area u, n ∈ area sets[i]) ∧ c ∈ area u

theorem exists_madeUp (cut : sets = before ++ s :: after)
    (filled : ∀ c ∈ area s, ∃ u ∈ before ++ after, (∀ n ∈ area u, n ∈ area s) ∧ c ∈ area u) :
    ∃ i : Fin sets.length, i.val = before.length ∧ sets[i] = s ∧ MadeUp sets i := by
  subst cut
  refine ⟨⟨before.length, by simp⟩, rfl, by simp, ?_⟩
  simpa [MadeUp, List.eraseIdx_append_of_length_le] using filled

theorem Repeats.filled (repeats : Repeats (area seed) (before.map area) (area s) (after.map area))
    (inside : c ∈ area s) :
    ∃ u ∈ before ++ after, (∀ n ∈ area u, n ∈ area s) ∧ c ∈ area u := by
  obtain ⟨u, other, met, inside⟩ := repeats.exists_other inside
  exact ⟨u, other, fun n => repeats.within (mem_cut other) met, inside⟩

/-- A second removal finds nothing to drop, unless of the sets that others make up one lies within
another. -/
theorem dropObsolete_settles (sets : List CellSet) :
    (obsolete (dropObsolete sets) = [] ∧ dropObsolete (dropObsolete sets) = dropObsolete sets) ∨
      ∃ i j : Fin sets.length, i ≠ j ∧ MadeUp sets i ∧ MadeUp sets j ∧
        ∀ c ∈ area sets[i], c ∈ area sets[j] := by
  by_cases none : obsolete (dropObsolete sets) = []
  case pos => exact .inl ⟨none, dropObsolete_of_none none⟩
  obtain ⟨place, drop⟩ := List.exists_mem_of_ne_nil _ none
  have told : ∀ s ∈ sets, (Outline.filled? s).isSome := by
    by_contra untold
    push Not at untold
    obtain ⟨s, mem, untold⟩ := untold
    have untold : Outline.filled? s = .none := by simpa using untold
    rw [dropObsolete_of_untold mem untold, obsolete_of_untold mem untold] at drop
    cases drop
  obtain ⟨s, again⟩ := exists_dropped
    (fun s kept => told s ((dropObsolete_sublist sets).subset kept)) drop
  obtain ⟨t, ⟨front, back, place, seed, mem, repeats⟩, around⟩ := exists_dropped_around told again
  obtain ⟨before, after, cut, root, -, repeats'⟩ := again
  obtain ⟨front', back', place', kept, wider⟩ := exists_kept_place told cut
  obtain ⟨j, atJ, rfl, whole⟩ := exists_madeUp place fun c => repeats.filled
  obtain ⟨i, atI, rfl, part⟩ := exists_madeUp place' fun c inside => by
    obtain ⟨u, other, filled⟩ := repeats'.filled inside
    exact ⟨u, wider other, filled⟩
  refine .inr ⟨i, j, ?_, part, whole, around⟩
  -- What the second removal drops was kept by the first, which dropped the set around it.
  rintro rfl
  obtain ⟨rfl, tails⟩ := List.append_inj (place.symm.trans place') (atJ.symm.trans atI)
  obtain ⟨-, rfl⟩ := List.cons.inj tails
  exact kept ⟨seed, mem, repeats⟩

/-- Two boxes of three are found to fill the outline around them only after the one around all
three is gone. -/
theorem dropObsolete_nested_twice :
    dropObsolete nested = nested.drop 1 ∧ obsolete (dropObsolete nested) ≠ [] ∧
      dropObsolete (dropObsolete nested) = nested.drop 2 ∧
      dropObsolete (dropObsolete nested) ≠ dropObsolete nested := by
  decide +kernel

end Linework.Reduction
