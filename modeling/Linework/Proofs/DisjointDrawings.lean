import Linework.Proofs.Loop
import Linework.Proofs.Obsolete
import Linework.Proofs.Reduced
import Mathlib.Data.List.Perm.Basic

/-! Drawings on the same grid that share no cell.

The outlines of two such drawings, one after the other, stay a mixture of the outlines of each all
through a reduction: every step treats those of one drawing as if they were alone. There are two
exceptions. A loop in one drawing decides how the mixed outlines of the other are treated, and areas
that meet, or that cannot be told, decide about loops of the other.
-/

set_option autoImplicit false

namespace Linework.Reduction

open Outline (Form form)

variable {g : Grid} {r q s t : CellSet} {a b x a' b' x' loops sets : List CellSet}

theorem meets_congr (same : s.Same t) : r.meets s = r.meets t := by
  rw [Bool.eq_iff_iff, CellSet.meets_iff, CellSet.meets_iff]
  exact exists_congr fun c => and_congr_right fun _ => same c

theorem meets_of_subset (filled : s.isEmpty = false) (within : s.toList ⊆ r.toList) :
    r.meets s = true := by
  obtain ⟨c, mem⟩ := List.isEmpty_eq_false_iff_exists_mem.1 filled
  exact CellSet.meets_iff.2 ⟨c, within mem, mem⟩

/-- Two lists of sets in separate regions, and a list that has the sets of each in the same order.
Empty sets belong to neither region. -/
structure Mix (r q : CellSet) (a b x : List CellSet) : Prop where
  apart : ∀ c ∈ r, c ∉ q
  left : ∀ s ∈ a, s.toList ⊆ r.toList
  right : ∀ s ∈ b, s.toList ⊆ q.toList
  ofLeft : x.filter r.meets = a.filter r.meets
  ofRight : x.filter q.meets = b.filter q.meets
  within : ∀ s ∈ x, s.toList ⊆ r.toList ∨ s.toList ⊆ q.toList

namespace Mix

theorem swap (mix : Mix r q a b x) : Mix q r b a x where
  apart c mem mem' := mix.apart c mem' mem
  left := mix.right
  right := mix.left
  ofLeft := mix.ofRight
  ofRight := mix.ofLeft
  within s mem := (mix.within s mem).symm

theorem not_meets (mix : Mix r q a b x) (mem : t ∈ b) : r.meets t = false := by
  rw [Bool.eq_false_iff]
  intro met
  obtain ⟨c, here, there⟩ := CellSet.meets_iff.1 met
  exact mix.apart c here (mix.right t mem there)

theorem append (mix : Mix r q a b x) (mix' : Mix r q a' b' x') :
    Mix r q (a ++ a') (b ++ b') (x ++ x') where
  apart := mix.apart
  left s mem := (List.mem_append.1 mem).elim (mix.left s) (mix'.left s)
  right s mem := (List.mem_append.1 mem).elim (mix.right s) (mix'.right s)
  ofLeft := by simp only [List.filter_append, mix.ofLeft, mix'.ofLeft]
  ofRight := by simp only [List.filter_append, mix.ofRight, mix'.ofRight]
  within s mem := (List.mem_append.1 mem).elim (mix.within s) (mix'.within s)

theorem filter (mix : Mix r q a b x) (p : CellSet → Bool) :
    Mix r q (a.filter p) (b.filter p) (x.filter p) where
  apart := mix.apart
  left s mem := mix.left s (List.mem_filter.1 mem).1
  right s mem := mix.right s (List.mem_filter.1 mem).1
  ofLeft := by rw [List.filter_comm, mix.ofLeft, List.filter_comm]
  ofRight := by rw [List.filter_comm, mix.ofRight, List.filter_comm]
  within s mem := mix.within s (List.mem_filter.1 mem).1

theorem distinct (mix : Mix r q a b x) :
    Mix r q (CellSet.distinct a) (CellSet.distinct b) (CellSet.distinct x) where
  apart := mix.apart
  left s mem := mix.left s ((CellSet.distinct_sublist a).subset mem)
  right s mem := mix.right s ((CellSet.distinct_sublist b).subset mem)
  ofLeft := by
    rw [CellSet.filter_distinct fun _ _ => meets_congr, mix.ofLeft,
      CellSet.filter_distinct fun _ _ => meets_congr]
  ofRight := by
    rw [CellSet.filter_distinct fun _ _ => meets_congr, mix.ofRight,
      CellSet.filter_distinct fun _ _ => meets_congr]
  within s mem := mix.within s ((CellSet.distinct_sublist x).subset mem)

-- A set that does not meet the region has no part that does.
theorem filter_flatMap {f : CellSet → List CellSet} (part : ∀ s, ∀ t ∈ f s, t.toList ⊆ s.toList) :
    (x.flatMap f).filter r.meets = ((x.filter r.meets).flatMap f).filter r.meets := by
  induction x with
  | nil => rfl
  | cons s rest ih =>
    rw [List.flatMap_cons, List.filter_append, ih]
    by_cases met : r.meets s
    case pos => rw [List.filter_cons_of_pos met, List.flatMap_cons, List.filter_append]
    case neg =>
      have outside : (f s).filter r.meets = [] := by
        apply List.filter_eq_nil_iff.2
        intro t mem met'
        obtain ⟨c, here, there⟩ := CellSet.meets_iff.1 met'
        exact met (CellSet.meets_iff.2 ⟨c, here, part s t mem there⟩)
      rw [List.filter_cons_of_neg met, outside, List.nil_append]

theorem flatMap (mix : Mix r q a b x) {f : CellSet → List CellSet}
    (part : ∀ s, ∀ t ∈ f s, t.toList ⊆ s.toList) :
    Mix r q (a.flatMap f) (b.flatMap f) (x.flatMap f) where
  apart := mix.apart
  left t mem := by
    obtain ⟨s, source, mem⟩ := List.mem_flatMap.1 mem
    exact List.Subset.trans (part s t mem) (mix.left s source)
  right t mem := by
    obtain ⟨s, source, mem⟩ := List.mem_flatMap.1 mem
    exact List.Subset.trans (part s t mem) (mix.right s source)
  ofLeft := by rw [filter_flatMap part, mix.ofLeft, ← filter_flatMap part]
  ofRight := by rw [filter_flatMap part, mix.ofRight, ← filter_flatMap part]
  within t mem := by
    obtain ⟨s, source, mem⟩ := List.mem_flatMap.1 mem
    have within := part s t mem
    exact (mix.within s source).imp (List.Subset.trans within) (List.Subset.trans within)

theorem mem_or (mix : Mix r q a b x) (mem : s ∈ x) (filled : s.isEmpty = false) :
    s ∈ a ∨ s ∈ b := by
  rcases mix.within s mem with inside | inside
  · have here := List.mem_filter.2 ⟨mem, meets_of_subset filled inside⟩
    rw [mix.ofLeft] at here
    exact .inl (List.mem_filter.1 here).1
  · have here := List.mem_filter.2 ⟨mem, meets_of_subset filled inside⟩
    rw [mix.ofRight] at here
    exact .inr (List.mem_filter.1 here).1

theorem mem_of_left (mix : Mix r q a b x) (mem : s ∈ a) (filled : s.isEmpty = false) : s ∈ x := by
  have here := List.mem_filter.2 ⟨mem, meets_of_subset filled (mix.left s mem)⟩
  rw [← mix.ofLeft] at here
  exact (List.mem_filter.1 here).1

theorem perm (mix : Mix r q a b x) (filled : ∀ s ∈ x, s.isEmpty = false)
    (filledLeft : ∀ s ∈ a, s.isEmpty = false) (filledRight : ∀ s ∈ b, s.isEmpty = false) :
    x.Perm (a ++ b) := by
  have all : a.filter r.meets = a :=
    List.filter_eq_self.2 fun s mem => meets_of_subset (filledLeft s mem) (mix.left s mem)
  have all' : b.filter q.meets = b :=
    List.filter_eq_self.2 fun s mem => meets_of_subset (filledRight s mem) (mix.right s mem)
  have rest : x.filter (fun s => !r.meets s) = x.filter q.meets := by
    apply List.filter_congr
    intro s mem
    rcases mix.mem_or mem (filled s mem) with mem' | mem'
    · rw [mix.swap.not_meets mem', meets_of_subset (filledLeft s mem') (mix.left s mem')]
      rfl
    · rw [mix.not_meets mem', meets_of_subset (filledRight s mem') (mix.right s mem')]
      rfl
  have split := List.filter_append_perm r.meets x
  rw [rest, mix.ofLeft, mix.ofRight, all, all'] at split
  exact split.symm

end Mix

theorem Mix.ofResolve (mix : Mix r q a b x) (g : Grid) (loops : List CellSet) :
    Mix r q (resolveAmong g loops a) (resolveAmong g loops b) (resolveAmong g loops x) :=
  (mix.flatMap fun _ _ mem => replacement_subset (.inl mem)).append
    (mix.flatMap fun _ _ mem => replacement_subset (.inr mem))

theorem resolveAmong_congr (same : ∀ s ∈ sets, replacement g loops s = replacement g a s) :
    resolveAmong g loops sets = resolveAmong g a sets := by
  unfold resolveAmong
  congr 1
  · exact List.flatMap_congr fun s mem => congrArg Prod.fst (same s mem)
  · exact List.flatMap_congr fun s mem => congrArg Prod.snd (same s mem)

-- Only loops in the region of a set can take cells from it.
theorem foldl_diff_meets (inside : s.toList ⊆ r.toList) :
    loops.foldl CellSet.diff s = (loops.filter r.meets).foldl CellSet.diff s := by
  induction loops generalizing s with
  | nil => rfl
  | cons t rest ih =>
    rw [List.foldl_cons]
    by_cases met : r.meets t
    case pos =>
      rw [List.filter_cons_of_pos met, List.foldl_cons]
      exact ih fun c mem => inside (CellSet.mem_diff.1 mem).1
    case neg =>
      rw [List.filter_cons_of_neg met, CellSet.diff_eq_self, ih inside]
      intro c here there
      exact met (CellSet.meets_iff.2 ⟨c, inside here, there⟩)

theorem replacement_congr (inside : s.toList ⊆ r.toList)
    (same : loops.filter r.meets = a.filter r.meets)
    (filled : loops.isEmpty = a.isEmpty) : replacement g loops s = replacement g a s := by
  have remainder : loops.foldl CellSet.diff s = a.foldl CellSet.diff s := by
    rw [foldl_diff_meets inside, same, ← foldl_diff_meets inside]
  simp only [replacement, subtract, remainder, filled]

def yields (g : Grid) (a b : List CellSet) : Bool :=
  (ofForm g .loop a).isEmpty && !(ofForm g .loop b).isEmpty

theorem isEmpty_of_mem_loops (mem : s ∈ ofForm g .loop sets) : s.isEmpty = false :=
  isEmpty_of_form (mem_ofForm.1 mem).2 (by decide)

theorem Mix.isEmpty_loops (mix : Mix r q a b x) (g : Grid) :
    (ofForm g .loop x).isEmpty = ((ofForm g .loop a).isEmpty && (ofForm g .loop b).isEmpty) := by
  have loops : Mix r q (ofForm g .loop a) (ofForm g .loop b) (ofForm g .loop x) := mix.filter _
  rw [Bool.eq_iff_iff, Bool.and_eq_true, List.isEmpty_iff, List.isEmpty_iff, List.isEmpty_iff]
  simp only [List.eq_nil_iff_forall_not_mem]
  constructor
  · intro bare
    exact ⟨fun s mem => bare s (loops.mem_of_left mem (isEmpty_of_mem_loops mem)),
      fun s mem => bare s (loops.swap.mem_of_left mem (isEmpty_of_mem_loops mem))⟩
  · rintro ⟨bare, bare'⟩ s mem
    exact (loops.mem_or mem (isEmpty_of_mem_loops mem)).elim (bare s) (bare' s)

theorem Mix.resolveAmong_left (mix : Mix r q a b x) :
    resolveAmong g (ofForm g .loop x) a = if yields g a b then a else resolve g a := by
  have loops : Mix r q (ofForm g .loop a) (ofForm g .loop b) (ofForm g .loop x) := mix.filter _
  have both := mix.isEmpty_loops g
  split
  case isTrue yielding =>
    simp only [yields, Bool.and_eq_true, Bool.not_eq_true'] at yielding
    obtain ⟨bare, other⟩ := yielding
    rw [bare, other, Bool.and_false] at both
    apply resolveAmong_eq_self
    intro s mem
    -- All loops come from the other drawing.
    refine replacement_of_apart both fun t loop c here there => ?_
    rcases loops.mem_or loop (isEmpty_of_mem_loops loop) with own | own
    · rw [List.isEmpty_iff.1 bare] at own
      cases own
    · exact mix.apart c (mix.left s mem here) (loops.right t own there)
  case isFalse held =>
    have same : (ofForm g .loop x).isEmpty = (ofForm g .loop a).isEmpty := by
      rw [both]
      cases bare : (ofForm g .loop a).isEmpty
      · rfl
      · simpa [yields, bare] using held
    rw [resolve_eq]
    exact resolveAmong_congr fun s mem => replacement_congr (mix.left s mem) loops.ofLeft same

/-- The outlines of a drawing that count beside another one: a drawing without a loop beside one with
a loop loses its mixed outlines. -/
def heard (g : Grid) (a b : List CellSet) : List CellSet :=
  if yields g (CellSet.distinct a) (CellSet.distinct b) then
    (CellSet.distinct a).filter fun s => form g s ≠ .mixed
  else a

theorem ofForm_heard {kind : Form} (sorted : kind ≠ .mixed) (a b : List CellSet) :
    ofForm g kind (resolved g (heard g a b)) = ofForm g kind ((CellSet.distinct
      (if yields g (CellSet.distinct a) (CellSet.distinct b) then CellSet.distinct a
        else resolve g (CellSet.distinct a))).filter (!·.isEmpty)) := by
  unfold heard
  -- A drawing that yields is heard without its mixed sets, and what is left is clear.
  split
  case isTrue =>
    have kept : CellSet.distinct ((CellSet.distinct a).filter fun s => form g s ≠ .mixed)
        = (CellSet.distinct a).filter fun s => form g s ≠ .mixed :=
      CellSet.distinct_eq_self ((CellSet.pairwise_distinct a).filter _)
    have clear : ∀ s ∈ CellSet.distinct ((CellSet.distinct a).filter fun s => form g s ≠ .mixed),
        form g s ≠ .mixed := by
      intro s mem
      rw [kept] at mem
      exact of_decide_eq_true (List.mem_filter.1 mem).2
    rw [resolved_of_clear clear, kept, CellSet.distinct_eq_self (CellSet.pairwise_distinct a), ofForm,
      ofForm, List.filter_filter, List.filter_filter, List.filter_filter]
    apply List.filter_congr
    intro s _
    by_cases same : form g s = kind
    · simp [same, sorted]
    · simp [same]
  case isFalse => rfl

namespace Mix

theorem resolved (mix : Mix r q a b x) (g : Grid) {kind : Form} (sorted : kind ≠ .mixed) :
    Mix r q (ofForm g kind (resolved g (heard g a b))) (ofForm g kind (resolved g (heard g b a)))
      (ofForm g kind (resolved g x)) := by
  have step := mix.distinct.ofResolve g (ofForm g .loop (CellSet.distinct x))
  rw [mix.distinct.resolveAmong_left, mix.swap.distinct.resolveAmong_left, ← resolve_eq] at step
  rw [ofForm_heard sorted, ofForm_heard sorted]
  exact (step.distinct.filter _).filter _

theorem ofAppend (apart : ∀ s ∈ a, ∀ t ∈ b, ∀ c ∈ s, c ∉ t) :
    Mix (.ofList (a.flatMap (·.toList))) (.ofList (b.flatMap (·.toList))) a b (a ++ b) := by
  have region (sets : List CellSet) (c : Cell) :
      c ∈ CellSet.ofList (sets.flatMap (·.toList)) ↔ ∃ s ∈ sets, c ∈ s := by
    rw [CellSet.mem_ofList, List.mem_flatMap]
    rfl
  have inside (sets : List CellSet) (s : CellSet) (mem : s ∈ sets) :
      s.toList ⊆ (CellSet.ofList (sets.flatMap (·.toList))).toList :=
    fun c here => (region sets c).2 ⟨s, mem, here⟩
  have outside {sets others : List CellSet} (parted : ∀ s ∈ sets, ∀ t ∈ others, ∀ c ∈ s, c ∉ t) :
      others.filter (CellSet.ofList (sets.flatMap (·.toList))).meets = [] := by
    refine List.filter_eq_nil_iff.2 fun t mem met => ?_
    obtain ⟨c, here, there⟩ := CellSet.meets_iff.1 met
    obtain ⟨s, mem', here⟩ := (region sets c).1 here
    exact parted s mem' t mem c here there
  refine ⟨?apart, inside a, inside b, ?ofLeft, ?ofRight, ?within⟩
  case apart =>
    intro c here there
    obtain ⟨s, mem, here⟩ := (region a c).1 here
    obtain ⟨t, mem', there⟩ := (region b c).1 there
    exact apart s mem t mem' c here there
  case ofLeft => rw [List.filter_append, outside apart, List.append_nil]
  case ofRight =>
    rw [List.filter_append, outside fun t mem' s mem c there here => apart s mem t mem' c here there,
      List.nil_append]
  case within =>
    intro s mem
    exact (List.mem_append.1 mem).imp (inside a s) (inside b s)

theorem filter_dropObsolete (mix : Mix r q a b x) (filled : ∀ s ∈ a, s.isEmpty = false)
    (filled' : ∀ s ∈ x, s.isEmpty = false) (told : ∀ s ∈ x, (Outline.filled? s).isSome)
    (parted : ∀ s ∈ a, ∀ t ∈ b, (area s).meets (area t) = false) :
    (dropObsolete x).filter r.meets = (dropObsolete a).filter r.meets := by
  have all : a.filter r.meets = a :=
    List.filter_eq_self.2 fun s mem => meets_of_subset (filled s mem) (mix.left s mem)
  have all' : (dropObsolete a).filter r.meets = dropObsolete a :=
    List.filter_eq_self.2 fun s mem =>
      List.filter_eq_self.1 all s ((dropObsolete_sublist a).subset mem)
  rw [Reduction.filter_dropObsolete told, mix.ofLeft, all, all']
  intro s mem t mem' side met
  rcases mix.mem_or mem (filled' s mem) with own | other
  · rcases mix.mem_or mem' (filled' t mem') with own' | other'
    · exact meets_of_subset (filled t own') (mix.left t own')
    · simp [parted s own t other'] at met
  · simp [mix.not_meets other] at side

-- Loops whose areas do not meet are dropped or kept whether the others are there or not.
theorem ofDropObsolete (mix : Mix r q a b x) (filled : ∀ s ∈ a, s.isEmpty = false)
    (filled' : ∀ s ∈ b, s.isEmpty = false) (filledAll : ∀ s ∈ x, s.isEmpty = false)
    (told : ∀ s ∈ x, (Outline.filled? s).isSome)
    (parted : ∀ s ∈ a, ∀ t ∈ b, (area s).meets (area t) = false) :
    Mix r q (dropObsolete a) (dropObsolete b) (dropObsolete x) where
  apart := mix.apart
  left s mem := mix.left s ((dropObsolete_sublist a).subset mem)
  right s mem := mix.right s ((dropObsolete_sublist b).subset mem)
  ofLeft := mix.filter_dropObsolete filled filledAll told parted
  ofRight := by
    refine mix.swap.filter_dropObsolete filled' filledAll told fun t mem' s mem => ?_
    rw [Bool.eq_false_iff]
    intro met
    simpa [parted s mem t mem'] using CellSet.meets_comm met
  within s mem := mix.within s ((dropObsolete_sublist x).subset mem)

end Mix

def allLoops (g : Grid) (outlines : List CellSet) : List CellSet :=
  ofForm g .loop (resolved g outlines)

/-- Outlines of two drawings that share no cell are reduced as if the others were not there, except
that a drawing without a loop beside one with a loop loses its mixed outlines. Where the areas of all
loops can be told and none of one drawing meets one of the other, the same loops are dropped. Where
one cannot be told, no loop is dropped. -/
theorem ofOutlines_append (g : Grid) (a b : List CellSet)
    (apart : ∀ s ∈ a, ∀ t ∈ b, ∀ c ∈ s, c ∉ t) :
    (ofOutlines g (a ++ b)).strands.Perm
        ((ofOutlines g (heard g a b)).strands ++ (ofOutlines g (heard g b a)).strands) ∧
      ((∀ s ∈ allLoops g (heard g a b) ++ allLoops g (heard g b a), (Outline.filled? s).isSome) →
        (∀ s ∈ allLoops g (heard g a b), ∀ t ∈ allLoops g (heard g b a),
          (area s).meets (area t) = false) →
        (ofOutlines g (a ++ b)).loops.Perm
          ((ofOutlines g (heard g a b)).loops ++ (ofOutlines g (heard g b a)).loops)) ∧
      ((∃ s ∈ allLoops g (heard g a b) ++ allLoops g (heard g b a), Outline.filled? s = none) →
        (ofOutlines g (a ++ b)).loops.Perm
          (allLoops g (heard g a b) ++ allLoops g (heard g b a))) := by
  have filled (kind : Form) (outlines : List CellSet) :
      ∀ s ∈ ofForm g kind (resolved g outlines), s.isEmpty = false :=
    fun s mem => (mem_resolved (mem_ofForm.1 mem).1).1
  -- The batch stays a mix of the two drawings at every stage, and a mix is one up to order.
  have mix := Mix.ofAppend apart
  have loops : Mix _ _ (allLoops g (heard g a b)) (allLoops g (heard g b a)) (allLoops g (a ++ b)) :=
    mix.resolved g (by decide)
  have perm := loops.perm (filled _ _) (filled _ _) (filled _ _)
  simp only [ofOutlines_eq]
  refine ⟨(mix.resolved g (by decide)).perm (filled _ _) (filled _ _) (filled _ _), ?_, ?_⟩
  · intro told parted
    have kept := loops.ofDropObsolete (filled _ _) (filled _ _) (filled _ _)
      (fun s mem => told s (perm.mem_iff.1 mem)) parted
    have left (outlines : List CellSet) :
        ∀ s ∈ dropObsolete (allLoops g outlines), s.isEmpty = false :=
      fun s mem => filled _ _ s ((dropObsolete_sublist _).subset mem)
    exact kept.perm (left _) (left _) (left _)
  · rintro ⟨s, mem, untold⟩
    change (dropObsolete (allLoops g (a ++ b))).Perm _
    rw [dropObsolete_of_untold (perm.mem_iff.2 mem) untold]
    exact perm

/-! ### Drawings that do reach each other -/

theorem allLoops_eq_self (loops : ∀ s ∈ sets, form g s = .loop)
    (apart : sets.Pairwise fun s t => ¬ s.Same t) : allLoops g sets = sets := by
  rw [allLoops, resolved_of_loops loops, CellSet.distinct_eq_self apart, ofForm]
  exact List.filter_eq_self.2 fun s mem => decide_eq_true (loops s mem)

theorem loops_eq (loops : ∀ s ∈ sets, form g s = .loop)
    (apart : sets.Pairwise fun s t => ¬ s.Same t) :
    (ofOutlines g sets).loops = dropObsolete sets := by
  rw [ofOutlines_eq]
  exact congrArg dropObsolete (allLoops_eq_self loops apart)

def Remote (a b : List CellSet) : Prop :=
  ∀ s ∈ a, ∀ t ∈ b, ∀ c ∈ s.toList, ∀ d ∈ t.toList, c ≠ d ∧ d ∉ c.surrounding

instance (a b : List CellSet) : Decidable (Remote a b) :=
  inferInstanceAs (Decidable (∀ s ∈ a, ∀ t ∈ b, ∀ c ∈ s.toList, ∀ d ∈ t.toList, c ≠ d ∧
    d ∉ c.surrounding))

def sheet : Grid :=
  ⟨12, 7, #['+', '-', '-', '-', '-', '-', '+', ' ', ' ', '+', '-', '+',
            '|', ' ', ' ', ' ', ' ', ' ', '|', ' ', '+', '+', ' ', '|',
            '|', ' ', '+', '+', '+', ' ', '|', ' ', '+', '-', '-', '+',
            '|', ' ', '|', '|', '|', ' ', '|', ' ', ' ', ' ', ' ', ' ',
            '|', ' ', '+', '+', '+', ' ', '|', ' ', '+', '+', '-', ' ',
            '|', ' ', ' ', ' ', ' ', ' ', '|', ' ', '+', '+', ' ', ' ',
            '+', '-', '-', '-', '-', '-', '+', ' ', ' ', ' ', ' ', ' '], rfl⟩

def frame : CellSet :=
  ⟨[⟨0, 0⟩, ⟨1, 0⟩, ⟨2, 0⟩, ⟨3, 0⟩, ⟨4, 0⟩, ⟨5, 0⟩, ⟨6, 0⟩, ⟨6, 1⟩, ⟨6, 2⟩, ⟨6, 3⟩, ⟨6, 4⟩, ⟨6, 5⟩,
    ⟨6, 6⟩, ⟨5, 6⟩, ⟨4, 6⟩, ⟨3, 6⟩, ⟨2, 6⟩, ⟨1, 6⟩, ⟨0, 6⟩, ⟨0, 5⟩, ⟨0, 4⟩, ⟨0, 3⟩, ⟨0, 2⟩, ⟨0, 1⟩],
    by decide⟩

def leftPane : CellSet := ⟨[⟨2, 2⟩, ⟨3, 2⟩, ⟨3, 3⟩, ⟨3, 4⟩, ⟨2, 4⟩, ⟨2, 3⟩], by decide⟩

def rightPane : CellSet := ⟨[⟨3, 2⟩, ⟨4, 2⟩, ⟨4, 3⟩, ⟨4, 4⟩, ⟨3, 4⟩, ⟨3, 3⟩], by decide⟩

def bothPanes : CellSet :=
  ⟨[⟨2, 2⟩, ⟨3, 2⟩, ⟨4, 2⟩, ⟨4, 3⟩, ⟨4, 4⟩, ⟨3, 4⟩, ⟨2, 4⟩, ⟨2, 3⟩], by decide⟩

def panes : List CellSet := [leftPane, rightPane, bothPanes]

def step : CellSet :=
  ⟨[⟨9, 0⟩, ⟨10, 0⟩, ⟨11, 0⟩, ⟨11, 1⟩, ⟨11, 2⟩, ⟨10, 2⟩, ⟨9, 2⟩, ⟨8, 2⟩, ⟨8, 1⟩, ⟨9, 1⟩], by decide⟩

def bead : CellSet := ⟨[⟨8, 4⟩, ⟨9, 4⟩, ⟨9, 5⟩, ⟨8, 5⟩], by decide⟩

def tail : CellSet := ⟨[⟨10, 4⟩], by decide⟩

def beadWithTail : CellSet := ⟨[⟨8, 4⟩, ⟨9, 4⟩, ⟨10, 4⟩, ⟨9, 5⟩, ⟨8, 5⟩], by decide⟩

theorem form_sheet : ∀ s ∈ [frame, leftPane, rightPane, bothPanes, step, bead],
    form sheet s = .loop := by
  simp only [List.forall_mem_cons, List.not_mem_nil, false_imp_iff, implies_true, and_true]
  refine ⟨?_, ?_, ?_, ?_, ?_, ?_⟩ <;>
    exact Layout.form_of_ring (by decide)
      (.of_isChain (fun _ => Iff.rfl) (by decide +kernel) (by decide +kernel))

theorem form_beadWithTail : form sheet beadWithTail = .mixed :=
  Outline.form_eq_mixed ⟨10, 4⟩ .branch [⟨5, 5⟩, ⟨6, 5⟩, ⟨5, 6⟩, ⟨6, 6⟩] (by decide)
    (by decide +kernel) (by decide +kernel) (by decide +kernel) fun _ => Circuit.Ending.noConfusion

theorem parts_beadWithTail : Outline.parts sheet beadWithTail = .ok [tail, bead] := by
  decide +kernel

theorem loops_sheet (sets : List CellSet)
    (rings : sets ⊆ [frame, leftPane, rightPane, bothPanes, step, bead])
    (apart : sets.Pairwise fun s t => ¬ s.Same t) :
    (ofOutlines sheet sets).loops = dropObsolete sets :=
  loops_eq (fun s mem => form_sheet s (rings mem)) apart

theorem loops_panes : (ofOutlines sheet panes).loops = [leftPane, rightPane] := by
  rw [loops_sheet panes (by decide) (by decide)]
  decide +kernel

theorem strands_beadWithTail : (ofOutlines sheet [beadWithTail]).strands = [tail] := by
  have ring : form sheet bead = .loop := form_sheet bead (by simp)
  have strand : form sheet tail = .strand := rfl
  have loops : ofForm sheet .loop [beadWithTail] = [] := by simp [ofForm, form_beadWithTail]
  have taken : replacement sheet [] beadWithTail = ([], [tail, bead]) := by
    simp [replacement, form_beadWithTail, takeApart, parts_beadWithTail]
  have resolved : resolved sheet [beadWithTail] = [tail, bead] := by
    have once : CellSet.distinct [beadWithTail] = [beadWithTail] := rfl
    rw [Reduction.resolved, once, resolve_eq, loops, resolveAmong]
    simp only [List.flatMap_cons, List.flatMap_nil, taken]
    decide
  rw [ofOutlines_eq, resolved]
  simp [ofForm, ring, strand]

theorem strands_beside_frame : (ofOutlines sheet [beadWithTail, frame]).strands = [] := by
  have ring : form sheet frame = .loop := form_sheet frame (by simp)
  have loops : ofForm sheet .loop [beadWithTail, frame] = [frame] := by
    simp [ofForm, form_beadWithTail, ring]
  have kept : replacement sheet [frame] beadWithTail = ([beadWithTail], []) :=
    replacement_of_apart rfl (by decide)
  have resolved : resolved sheet [beadWithTail, frame] = [beadWithTail, frame] := by
    have once : CellSet.distinct [beadWithTail, frame] = [beadWithTail, frame] := by decide
    rw [Reduction.resolved, once, resolve_eq, loops, resolveAmong]
    simp only [List.flatMap_cons, List.flatMap_nil, kept,
      replacement_of_not_mixed (by rw [ring]; decide)]
    decide
  rw [ofOutlines_eq, resolved]
  simp [ofForm, ring, form_beadWithTail]

/-- Remote drawings can reach each other in three ways. A loop in one leaves the mixed outlines of the
other as they are, so that they are lost. A loop whose area cannot be told keeps all loops, and so
does a loop around others. -/
theorem remote_drawings_interfere :
    (Remote [beadWithTail] [frame] ∧ (ofOutlines sheet [beadWithTail]).strands = [tail] ∧
      (ofOutlines sheet [beadWithTail, frame]).strands = []) ∧
    (Remote panes [step] ∧ (ofOutlines sheet panes).loops = [leftPane, rightPane] ∧
      (ofOutlines sheet [step]).loops = [step] ∧
      (ofOutlines sheet (panes ++ [step])).loops = panes ++ [step]) ∧
    (Remote panes [frame] ∧ (ofOutlines sheet panes).loops = [leftPane, rightPane] ∧
      (ofOutlines sheet [frame]).loops = [frame] ∧
      (ofOutlines sheet (panes ++ [frame])).loops = panes ++ [frame]) := by
  refine ⟨⟨by decide, strands_beadWithTail, strands_beside_frame⟩,
    ⟨by decide, loops_panes, ?_, ?_⟩, ⟨by decide, loops_panes, ?_, ?_⟩⟩ <;>
  · rw [loops_sheet _ (by decide) (by decide)]
    decide +kernel

theorem heard_of_loop (s : CellSet) (mem : s ∈ CellSet.distinct a) (loop : form g s = .loop) :
    heard g a b = a := by
  have held : yields g (CellSet.distinct a) (CellSet.distinct b) = false := by
    have looped : (ofForm g .loop (CellSet.distinct a)).isEmpty = false :=
      List.isEmpty_eq_false_iff_exists_mem.2 ⟨s, mem_ofForm.2 ⟨mem, loop⟩⟩
    rw [yields, looped, Bool.false_and]
  rw [heard, held]
  rfl

theorem allLoops_sheet (sets : List CellSet)
    (rings : sets ⊆ [frame, leftPane, rightPane, bothPanes, step, bead])
    (apart : sets.Pairwise fun s t => ¬ s.Same t) : allLoops sheet sets = sets :=
  allLoops_eq_self (fun s mem => form_sheet s (rings mem)) apart

theorem ofOutlines_append_sheet :
    (∀ s ∈ panes, ∀ t ∈ [bead], ∀ c ∈ s.toList, c ∉ t) ∧
      (ofOutlines sheet (panes ++ [bead])).loops.Perm ([leftPane, rightPane] ++ [bead]) ∧
      (∀ s ∈ panes, ∀ t ∈ [step], ∀ c ∈ s.toList, c ∉ t) ∧
      (ofOutlines sheet (panes ++ [step])).loops.Perm (panes ++ [step]) := by
  have panesHeard (b : List CellSet) : heard sheet panes b = panes :=
    heard_of_loop leftPane (by decide) (form_sheet leftPane (by simp))
  have beadHeard : heard sheet [bead] panes = [bead] :=
    heard_of_loop bead (by decide) (form_sheet bead (by simp))
  have stepHeard : heard sheet [step] panes = [step] :=
    heard_of_loop step (by decide) (form_sheet step (by simp))
  have all := allLoops_sheet panes (by decide) (by decide)
  have remote : ∀ s ∈ panes, ∀ t ∈ [bead], ∀ c ∈ s.toList, c ∉ t := by decide
  have remote' : ∀ s ∈ panes, ∀ t ∈ [step], ∀ c ∈ s.toList, c ∉ t := by decide
  refine ⟨remote, ?_, remote', ?_⟩
  · have told := (ofOutlines_append sheet panes [bead] remote).2.1
    have beadKept : (ofOutlines sheet [bead]).loops = [bead] := by
      rw [loops_sheet [bead] (by decide) (by decide)]
      decide +kernel
    rw [panesHeard, beadHeard, all, allLoops_sheet [bead] (by decide) (by decide), loops_panes,
      beadKept] at told
    exact told (by decide +kernel) (by decide +kernel)
  · have untold := (ofOutlines_append sheet panes [step] remote').2.2
    rw [panesHeard, stepHeard, all, allLoops_sheet [step] (by decide) (by decide)] at untold
    exact untold ⟨step, by decide, by decide +kernel⟩

end Linework.Reduction
