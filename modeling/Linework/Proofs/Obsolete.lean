import Linework.Reduction
import Mathlib.Data.List.Basic
import Mathlib.Data.List.Induction

/-! Which loops only repeat smaller ones.

A place in a list is a way to cut the list in two: a set is told from others like it by the sets that
come before it. Whether it is dropped depends on the areas that some area meets, so what happens to
loops whose areas do not meet is decided apart.
-/

set_option autoImplicit false

namespace Linework

theorem CellSet.meets_comm {s t : CellSet} (met : s.meets t) : t.meets s := by
  obtain ⟨c, mem, mem'⟩ := meets_iff.1 met
  exact meets_iff.2 ⟨c, mem', mem⟩

namespace Reduction

section Largest

variable {m first : CellSet × Nat} {before after : List (CellSet × Nat)}

private def larger (best s : CellSet × Nat) : CellSet × Nat :=
  if s.1.size > best.1.size then s else best

theorem largest?_cons : largest? (first :: after) = some (after.foldl larger first) := rfl

theorem foldl_larger_of_le (most : ∀ t ∈ after, t.1.size ≤ m.1.size) :
    after.foldl larger m = m := by
  induction after with
  | nil => rfl
  | cons t rest ih =>
    have least : ¬ t.1.size > m.1.size := Nat.not_lt.2 (most t (List.mem_cons_self ..))
    rw [List.foldl_cons, larger, if_neg least]
    apply ih
    intro u mem
    exact most u (List.mem_cons_of_mem _ mem)

theorem foldl_larger_mem : after.foldl larger first ∈ first :: after := by
  induction after generalizing first with
  | nil => exact List.mem_cons_self ..
  | cons t rest ih =>
    have found : rest.foldl larger (larger first t) ∈ larger first t :: rest := ih
    rw [List.foldl_cons]
    rcases List.mem_cons.1 found with same | mem
    · rw [same, larger]
      split
      · exact List.mem_cons_of_mem _ (List.mem_cons_self ..)
      · exact List.mem_cons_self ..
    · exact List.mem_cons_of_mem _ (List.mem_cons_of_mem _ mem)

theorem largest?_of_bounds (less : ∀ t ∈ before, t.1.size < m.1.size)
    (most : ∀ t ∈ after, t.1.size ≤ m.1.size) : largest? (before ++ m :: after) = some m := by
  cases before with
  | nil => rw [List.nil_append, largest?_cons, foldl_larger_of_le most]
  | cons t rest =>
    have smaller : m.1.size > (rest.foldl larger t).1.size := less _ foldl_larger_mem
    rw [List.cons_append, largest?_cons, List.foldl_append, List.foldl_cons, larger, if_pos smaller,
      foldl_larger_of_le most]

theorem exists_bounds_of_largest? {sets : List (CellSet × Nat)} (found : largest? sets = some m) :
    ∃ before after, sets = before ++ m :: after ∧ (∀ t ∈ before, t.1.size < m.1.size) ∧
      ∀ t ∈ after, t.1.size ≤ m.1.size := by
  cases sets with
  | nil => cases found
  | cons first rest =>
    rw [largest?_cons] at found
    cases found
    -- Sets are compared from left to right, so what is known of the first ones grows at the end.
    induction rest using List.reverseRecOn with
    | nil => exact ⟨[], [], rfl, by simp, by simp⟩
    | append_singleton rest t ih =>
      obtain ⟨before, after, cut, less, most⟩ := ih
      rw [List.foldl_concat, larger]
      split
      case isTrue bigger =>
        refine ⟨first :: rest, [], rfl, ?_, by simp⟩
        intro u mem
        rw [cut, List.mem_append, List.mem_cons] at mem
        rcases mem with mem | rfl | mem
        · exact Nat.lt_trans (less u mem) bigger
        · exact bigger
        · exact Nat.lt_of_le_of_lt (most u mem) bigger
      case isFalse least =>
        refine ⟨before, after ++ [t], by rw [← List.cons_append, cut]; simp, less, ?_⟩
        intro u mem
        rcases List.mem_append.1 mem with mem | mem
        · exact most u mem
        · rw [List.mem_singleton.1 mem]
          exact Nat.not_lt.1 least

theorem largest?_mem {sets : List (CellSet × Nat)} (found : largest? sets = some m) : m ∈ sets := by
  obtain ⟨before, after, rfl, -, -⟩ := exists_bounds_of_largest? found
  exact List.mem_append_right _ (List.mem_cons_self ..)

theorem largest?_eq_some_iff (new : m ∉ before) (last : m ∉ after) :
    largest? (before ++ m :: after) = some m ↔
      (∀ t ∈ before, t.1.size < m.1.size) ∧ ∀ t ∈ after, t.1.size ≤ m.1.size := by
  constructor
  · intro found
    obtain ⟨before', after', cut, less, most⟩ := exists_bounds_of_largest? found
    obtain ⟨rfl, -, rfl⟩ := (List.append_cons_inj_of_notMem new last).1 cut
    exact ⟨less, most⟩
  · rintro ⟨less, most⟩
    exact largest?_of_bounds less most

end Largest

section Covered

variable {before after sets : List CellSet} {seed s : CellSet}

/-- Of the sets that `seed` meets, three or more, this one is the first largest and has just the
cells that the others have together. -/
structure Repeats (seed : CellSet) (before : List CellSet) (s : CellSet) (after : List CellSet) :
    Prop where
  met : seed.meets s
  many : 2 < ((before ++ s :: after).filter seed.meets).length
  larger : ∀ t ∈ before, seed.meets t → t.size < s.size
  largest : ∀ t ∈ after, seed.meets t → t.size ≤ s.size
  whole : ∀ c, c ∈ s ↔ ∃ t ∈ before ++ after, seed.meets t ∧ c ∈ t

def metFrom (seed : CellSet) (sets : List CellSet) (n : Nat) : List (CellSet × Nat) :=
  (sets.zipIdx n).filter fun other => seed.meets other.1

theorem map_fst_metFrom (seed : CellSet) (sets : List CellSet) (n : Nat) :
    (metFrom seed sets n).map Prod.fst = sets.filter seed.meets := by
  rw [metFrom, ← List.zipIdx_map_fst n sets, List.filter_map, List.zipIdx_map_fst]
  rfl

theorem forall_metFrom {n : Nat} (p : CellSet → Prop) :
    (∀ t ∈ metFrom seed sets n, p t.1) ↔ ∀ t ∈ sets, seed.meets t → p t := by
  rw [← List.forall_mem_map (f := Prod.fst) (P := p), map_fst_metFrom]
  simp

theorem mem_foldl_union {others : List (CellSet × Nat)} {acc : CellSet} {c : Cell} :
    c ∈ others.foldl (fun acc other => acc.union other.1) acc ↔
      c ∈ acc ∨ ∃ t ∈ others.map Prod.fst, c ∈ t := by
  induction others generalizing acc with
  | nil => simp
  | cons t rest ih => rw [List.foldl_cons, ih, CellSet.mem_union, or_assoc]; simp

theorem covered?_eq_some {n : Nat} :
    covered? sets seed = some n ↔ 2 < (metFrom seed sets 0).length ∧
      ∃ m, largest? (metFrom seed sets 0) = some m ∧ m.2 = n ∧
        ((((metFrom seed sets 0).filter fun other => other.2 != m.2).foldl
          (fun acc other => acc.union other.1) CellSet.empty).Same m.1) := by
  unfold covered?
  change (if (metFrom seed sets 0).length ≤ 2 then none else _) = some n ↔ _
  split
  case isTrue few => simp [Nat.not_lt.2 few]
  case isFalse many =>
    rw [Option.bind_eq_some_iff]
    refine ⟨?_, ?_⟩
    · rintro ⟨m, found, same⟩
      obtain ⟨whole, place⟩ := Option.ite_none_right_eq_some.1 same
      exact ⟨Nat.not_le.1 many, m, found, Option.some.inj place, whole⟩
    · rintro ⟨-, m, found, rfl, same⟩
      exact ⟨m, found, if_pos same⟩

theorem metFrom_cut : metFrom seed (before ++ s :: after) 0 =
    metFrom seed before 0 ++ if seed.meets s
      then (s, before.length) :: metFrom seed after (before.length + 1)
      else metFrom seed after (before.length + 1) := by
  rw [metFrom, List.zipIdx_append, List.filter_append, List.zipIdx_cons, List.filter_cons,
    Nat.zero_add]
  rfl

theorem place_lt_of_mem_metFrom {t : CellSet × Nat} (mem : t ∈ metFrom seed before 0) :
    t.2 < before.length := by
  have place := List.snd_lt_of_mem_zipIdx (List.mem_filter.1 mem).1
  omega

theorem lt_place_of_mem_metFrom {t : CellSet × Nat} {n : Nat}
    (mem : t ∈ metFrom seed after (n + 1)) : n < t.2 :=
  List.le_snd_of_mem_zipIdx (List.mem_filter.1 mem).1

theorem eq_of_mem_metFrom {m : CellSet × Nat} (mem : m ∈ metFrom seed (before ++ s :: after) 0)
    (place : m.2 = before.length) : seed.meets s ∧ m = (s, before.length) := by
  rw [metFrom_cut, List.mem_append] at mem
  rcases mem with early | mem
  · exact absurd place (Nat.ne_of_lt (place_lt_of_mem_metFrom early))
  · split at mem
    · rcases List.mem_cons.1 mem with here | late
      · exact ⟨by assumption, here⟩
      · exact absurd place (Nat.ne_of_gt (lt_place_of_mem_metFrom late))
    · exact absurd place (Nat.ne_of_gt (lt_place_of_mem_metFrom mem))

theorem others_metFrom (met : seed.meets s) :
    ((metFrom seed (before ++ s :: after) 0).filter fun other => other.2 != before.length)
      = metFrom seed before 0 ++ metFrom seed after (before.length + 1) := by
  rw [metFrom_cut, if_pos met, List.filter_append, List.filter_cons_of_neg (by simp)]
  congr 1
  · apply List.filter_eq_self.2
    intro t mem
    exact bne_iff_ne.2 (Nat.ne_of_lt (place_lt_of_mem_metFrom mem))
  · apply List.filter_eq_self.2
    intro t mem
    exact bne_iff_ne.2 (Nat.ne_of_gt (lt_place_of_mem_metFrom mem))

theorem largest?_metFrom_iff (met : seed.meets s) :
    largest? (metFrom seed (before ++ s :: after) 0) = some (s, before.length) ↔
      (∀ t ∈ before, seed.meets t → t.size < s.size) ∧
        ∀ t ∈ after, seed.meets t → t.size ≤ s.size := by
  rw [metFrom_cut, if_pos met,
    largest?_eq_some_iff (fun mem => Nat.lt_irrefl _ (place_lt_of_mem_metFrom mem))
      (fun mem => Nat.lt_irrefl _ (lt_place_of_mem_metFrom mem)),
    forall_metFrom fun t => t.size < s.size, forall_metFrom fun t => t.size ≤ s.size]

theorem covered?_eq_some_iff :
    covered? (before ++ s :: after) seed = some before.length ↔ Repeats seed before s after := by
  have count : (metFrom seed (before ++ s :: after) 0).length
      = ((before ++ s :: after).filter seed.meets).length := by
    rw [← map_fst_metFrom seed _ 0, List.length_map]
  have union (met : seed.meets s) (c : Cell) :
      c ∈ (((metFrom seed (before ++ s :: after) 0).filter fun other =>
        other.2 != before.length).foldl (fun acc other => acc.union other.1) CellSet.empty) ↔
        ∃ t ∈ before ++ after, seed.meets t ∧ c ∈ t := by
    rw [others_metFrom met, mem_foldl_union, List.map_append, map_fst_metFrom, map_fst_metFrom,
      ← List.filter_append]
    simp only [CellSet.not_mem_empty, false_or, List.mem_filter, and_assoc]
  rw [covered?_eq_some, count]
  constructor
  · rintro ⟨many, m, found, place, same⟩
    obtain ⟨met, rfl⟩ := eq_of_mem_metFrom (largest?_mem found) place
    obtain ⟨less, most⟩ := (largest?_metFrom_iff met).1 found
    exact ⟨met, many, less, most, fun c => (same c).symm.trans (union met c)⟩
  · rintro ⟨met, many, less, most, whole⟩
    exact ⟨many, _, (largest?_metFrom_iff met).2 ⟨less, most⟩, rfl,
      fun c => (union met c).trans (whole c).symm⟩

end Covered

section Drop

variable {before after sets : List CellSet} {s : CellSet}

def area (s : CellSet) : CellSet := (Outline.filled? s).getD .empty

def Obsolete (before : List CellSet) (s : CellSet) (after : List CellSet) : Prop :=
  ∃ seed ∈ before ++ s :: after,
    Repeats (area seed) (before.map area) (area s) (after.map area)

theorem mapM_filled? (told : ∀ t ∈ sets, (Outline.filled? t).isSome) :
    sets.mapM Outline.filled? = some (sets.map area) := by
  induction sets with
  | nil => rfl
  | cons t rest ih =>
    obtain ⟨filled, found⟩ := Option.isSome_iff_exists.1 (told t (List.mem_cons_self ..))
    have others := ih fun u mem => told u (List.mem_cons_of_mem _ mem)
    simp [List.mapM_cons, found, others, area]

theorem mapM_filled?_none (mem : s ∈ sets) (untold : Outline.filled? s = none) :
    sets.mapM Outline.filled? = none := by
  induction sets with
  | nil => cases mem
  | cons t rest ih =>
    rcases List.mem_cons.1 mem with rfl | mem
    · simp [List.mapM_cons, untold]
    · simp [List.mapM_cons, ih mem]

theorem dropObsolete_of_none (none : obsolete sets = []) : dropObsolete sets = sets := by
  simp [dropObsolete, none]

theorem obsolete_of_untold (mem : s ∈ sets) (untold : Outline.filled? s = none) :
    obsolete sets = [] := by
  rw [obsolete, mapM_filled?_none mem untold]

theorem dropObsolete_of_untold (mem : s ∈ sets) (untold : Outline.filled? s = none) :
    dropObsolete sets = sets :=
  dropObsolete_of_none (obsolete_of_untold mem untold)

/-- The place of a set is dropped just where the set only repeats others. -/
theorem mem_obsolete_iff (told : ∀ t ∈ before ++ s :: after, (Outline.filled? t).isSome) :
    before.length ∈ obsolete (before ++ s :: after) ↔ Obsolete before s after := by
  rw [obsolete, mapM_filled? told]
  simp only [List.mem_filterMap, List.mem_map, exists_exists_and_eq_and, Obsolete]
  refine exists_congr fun seed => and_congr_right fun _ => ?_
  rw [← covered?_eq_some_iff, List.map_append, List.map_cons, List.length_map]

theorem dropObsolete_sublist (sets : List CellSet) : (dropObsolete sets).Sublist sets := by
  have kept := (List.filter_sublist (p := fun s => !(obsolete sets).contains s.2)
    (l := sets.zipIdx)).map Prod.fst
  rwa [List.zipIdx_map_fst] at kept

end Drop

section Restrict

variable {before after sets : List CellSet} {s : CellSet} {p : CellSet → Bool}

/-- A test tells apart sets whose areas do not meet. -/
def Parts (p : CellSet → Bool) (sets : List CellSet) : Prop :=
  ∀ s ∈ sets, ∀ t ∈ sets, p s → (area s).meets (area t) → p t

theorem mem_filter_met {seed : CellSet} (near : ∀ u ∈ sets, (area seed).meets (area u) → p u)
    (t : CellSet) : t ∈ (sets.filter p).map area ∧ (area seed).meets t ↔
      t ∈ sets.map area ∧ (area seed).meets t := by
  simp only [List.mem_map, List.mem_filter]
  constructor
  · rintro ⟨⟨u, ⟨mem, -⟩, same⟩, met⟩
    exact ⟨⟨u, mem, same⟩, met⟩
  · rintro ⟨⟨u, mem, rfl⟩, met⟩
    exact ⟨⟨u, ⟨mem, near u mem met⟩, rfl⟩, met⟩

theorem length_filter_met {seed : CellSet} (near : ∀ u ∈ sets, (area seed).meets (area u) → p u) :
    (((sets.filter p).map area).filter (area seed).meets).length
      = ((sets.map area).filter (area seed).meets).length := by
  rw [List.filter_map, List.filter_map, List.length_map, List.length_map, List.filter_filter]
  congr 1
  apply List.filter_congr
  intro u mem
  by_cases met : (area seed).meets (area u)
  · simp [met, near u mem met]
  · simp [met]

theorem filter_cut (side : p s) :
    (before ++ s :: after).filter p = before.filter p ++ s :: after.filter p := by
  rw [List.filter_append, List.filter_cons_of_pos side]

-- Only sets that the seed meets count, and all of these are on the side of the seed.
theorem repeats_filter_iff {seed : CellSet} (side : p s)
    (near : ∀ u ∈ before ++ s :: after, (area seed).meets (area u) → p u) :
    Repeats (area seed) ((before.filter p).map area) (area s) ((after.filter p).map area) ↔
      Repeats (area seed) (before.map area) (area s) (after.map area) := by
  have early := mem_filter_met fun u mem => near u (List.mem_append_left _ mem)
  have late := mem_filter_met fun u mem =>
    near u (List.mem_append_right _ (List.mem_cons_of_mem _ mem))
  have count := length_filter_met near
  rw [filter_cut side, List.map_append, List.map_cons, List.map_append, List.map_cons] at count
  have others (c : Cell) :
      (∃ t ∈ (before.filter p).map area ++ (after.filter p).map area,
        (area seed).meets t ∧ c ∈ t) ↔
      ∃ t ∈ before.map area ++ after.map area, (area seed).meets t ∧ c ∈ t := by
    refine exists_congr fun t => ?_
    simp only [List.mem_append, or_and_right, ← and_assoc, early, late]
  constructor
  · rintro ⟨met, many, less, most, whole⟩
    exact ⟨met, count ▸ many, fun t mem near => less t ((early t).2 ⟨mem, near⟩).1 near,
      fun t mem near => most t ((late t).2 ⟨mem, near⟩).1 near,
      fun c => (whole c).trans (others c)⟩
  · rintro ⟨met, many, less, most, whole⟩
    exact ⟨met, count.symm ▸ many, fun t mem near => less t ((early t).1 ⟨mem, near⟩).1 near,
      fun t mem near => most t ((late t).1 ⟨mem, near⟩).1 near,
      fun c => (whole c).trans (others c).symm⟩

/-- What only repeats others does so among the sets on its side alone, and what repeats others there
does so among all. -/
theorem obsolete_filter_iff (parts : Parts p (before ++ s :: after)) (side : p s) :
    Obsolete before s after ↔ Obsolete (before.filter p) s (after.filter p) := by
  have here : s ∈ before ++ s :: after := List.mem_append_right _ (List.mem_cons_self ..)
  unfold Obsolete
  rw [← filter_cut side]
  constructor
  · rintro ⟨seed, mem, repeats⟩
    have near : p seed := parts s here seed mem side (CellSet.meets_comm repeats.met)
    exact ⟨seed, List.mem_filter.2 ⟨mem, near⟩,
      (repeats_filter_iff side fun u other => parts seed mem u other near).2 repeats⟩
  · rintro ⟨seed, mem, repeats⟩
    obtain ⟨mem, near⟩ := List.mem_filter.1 mem
    exact ⟨seed, mem,
      (repeats_filter_iff side fun u other => parts seed mem u other near).1 repeats⟩

theorem filter_keep (done : List CellSet) {rest : List CellSet} {drop drop' : List Nat}
    (same : ∀ before s after, done ++ rest = before ++ s :: after → p s →
      (before.length ∈ drop ↔ (before.filter p).length ∈ drop')) :
    (((rest.zipIdx done.length).filter fun s => !drop.contains s.2).map Prod.fst).filter p
      = (((rest.filter p).zipIdx (done.filter p).length).filter fun s =>
          !drop'.contains s.2).map Prod.fst := by
  -- By the sets still to come: those done fix the places, in the whole list and among the kept.
  induction rest generalizing done with
  | nil => rfl
  | cons s rest ih =>
    have next := ih (done ++ [s]) (by simpa using same)
    have here := same done s rest rfl
    rw [List.length_append, List.length_singleton, List.filter_append] at next
    by_cases side : p s
    case pos =>
      rw [List.filter_cons_of_pos side, List.filter_nil, List.length_append,
        List.length_singleton] at next
      rw [List.filter_cons_of_pos side, List.zipIdx_cons, List.zipIdx_cons, List.filter_cons,
        List.filter_cons]
      by_cases dropped : done.length ∈ drop
      · simpa [dropped, (here side).1 dropped] using next
      · simpa [dropped, mt (here side).2 dropped, side] using next
    case neg =>
      rw [List.filter_cons_of_neg side, List.filter_nil, List.append_nil] at next
      rw [List.filter_cons_of_neg side, List.zipIdx_cons, List.filter_cons]
      split
      · rw [List.map_cons, List.filter_cons_of_neg side]
        exact next
      · exact next

theorem filter_dropObsolete (told : ∀ t ∈ sets, (Outline.filled? t).isSome) (parts : Parts p sets) :
    (dropObsolete sets).filter p = dropObsolete (sets.filter p) := by
  apply filter_keep []
  intro before s after cut side
  rw [List.nil_append] at cut
  subst cut
  rw [mem_obsolete_iff told, obsolete_filter_iff parts side, ← mem_obsolete_iff, filter_cut side]
  intro t mem
  rw [← filter_cut side] at mem
  exact told t (List.mem_filter.1 mem).1

end Restrict

end Reduction

end Linework
