import Linework.Proofs.Loop
import Linework.Proofs.Rearranged
import Linework.Proofs.Runs

/-! Walks that come back to where they began.

On the way each cell has a single continuation besides the cell before it, so a walk cannot turn back.
That is why it returns to its start from another side than the one it left by.
-/

set_option autoImplicit false

namespace Linework

namespace Circuit

open Grid

variable {g : Grid} {start previous current first c n p : Cell} {path cells walked : List Cell}
  {limit : Nat}

/-- A walk from one cell to the next that returns to its start; the cells on the way, without the
start. -/
inductive Returns (g : Grid) (start : Cell) : Cell → Cell → List Cell → Prop
  | home {previous : Cell} : Returns g start previous start []
  | on {previous current next : Cell} {path : List Cell} : current ≠ start →
      g.follow current (some previous) = .ok [next] → Returns g start current next path →
      Returns g start previous current (current :: path)

/-- Among the given cells in their order, the line goes on from each to the next alone, besides the
one before. -/
def Turning (g : Grid) (cells : List Cell) : Prop :=
  ∀ p c n, [p, c, n] <:+: cells → g.follow c (some p) = .ok [n]

theorem Turning.within {cells' : List Cell} (turning : Turning g cells) (inside : cells' <:+: cells) :
    Turning g cells' := fun p c n here => turning p c n (here.trans inside)

/-- Between two visits of one cell, a walk that does not turn back cannot come to its second cell
last: it would then have gone back the way it came, from where it turned. -/
theorem Turning.getLast?_ne (turning : Turning g (p :: (cells ++ [p])))
    (second : cells.head? = some c) : cells.getLast? ≠ some c := by
  induction cells using List.bidirectionalRec generalizing p c with
  | nil => cases second
  | singleton a =>
    have back := turning p a p (List.infix_refl _)
    exact absurd rfl ((mem_of_follow back).1 (List.mem_singleton_self p)).2
  | cons_append a inner b ih =>
    intro last
    obtain rfl : a = c := Option.some.inj second
    rw [← List.cons_append, List.getLast?_concat] at last
    obtain rfl : b = a := Option.some.inj last
    have path : p :: ((b :: (inner ++ [b])) ++ [p]) = [p] ++ (b :: (inner ++ [b])) ++ [p] := rfl
    rw [path] at turning
    cases out : inner.head? with
    | none =>
      rw [List.head?_eq_none_iff] at out
      subst out
      have next := turning p b b ⟨[], [p], rfl⟩
      exact ((mem_of_follow next).1 (List.mem_singleton_self b)).1.ne rfl
    | some x =>
      obtain ⟨later, rfl⟩ := List.head?_eq_some_iff.1 out
      obtain ⟨before, y, split⟩ := (List.eq_nil_or_concat' (x :: later)).resolve_left
        (List.cons_ne_nil _ _)
      have outward := turning p b x ⟨[], later ++ [b] ++ [p], by simp⟩
      have homeward := turning y b p ⟨[p] ++ b :: before, [], by simp [split]⟩
      refine ih (turning.within (List.infix_append [p] _ [p])) out ?_
      -- From the second cell the line goes on to `x` and `p` alone.
      have ahead := (mem_of_follow outward).1 (List.mem_singleton_self x)
      have same : y = x := by
        by_contra differ
        have onward : x ∈ [p] := (mem_of_follow homeward).2 ⟨ahead.1, by simpa using differ⟩
        exact ahead.2 (by rw [List.mem_singleton.1 onward])
      rw [split, same]
      simp

theorem walkFrom_eq_closed_iff :
    walkFrom g start limit previous current walked = .ok (.closed cells) ↔
      ∃ path, Returns g start previous current path ∧ cells = walked.reverse ++ path ∧
        path.length < limit := by
  induction limit generalizing previous current walked with
  | zero => simp [walkFrom]
  | succ limit ih =>
    rw [walkFrom]
    by_cases back : current = start
    · subst back
      rw [if_pos rfl]
      constructor
      · rintro ⟨⟩
        exact ⟨[], .home, by simp, Nat.succ_pos limit⟩
      · rintro ⟨path, returns, rfl, -⟩
        cases returns with
        | home => rw [List.append_nil]
        | on away => exact absurd rfl away
    · rw [if_neg back]
      constructor
      · intro walk
        split at walk
        · cases walk
        · cases walk
        · rename_i next followed
          obtain ⟨path, returns, rfl, short⟩ := ih.1 walk
          exact ⟨current :: path, .on back followed returns, by simp,
            Nat.succ_lt_succ short⟩
        · cases walk
      · rintro ⟨path, returns, rfl, short⟩
        cases returns with
        | home => exact absurd rfl back
        | on _ followed returns =>
          rw [followed]
          exact ih.2 ⟨_, returns, by simp, Nat.lt_of_succ_lt_succ short⟩

theorem walk_eq_closed_iff : walk g start limit = .ok (.closed cells) ↔
    ∃ first others, g.follow start none = .ok (first :: others) ∧
      Returns g start start first cells ∧ cells.length < limit := by
  unfold walk
  split
  · rename_i failed
    simp [failed]
  · rename_i stuck
    simp [stuck]
  · rename_i first others followed
    rw [walkFrom_eq_closed_iff, followed]
    simp

namespace Returns

theorem head?_eq (returns : Returns g start previous current path) :
    (path ++ [start]).head? = some current := by
  cases returns <;> rfl

theorem turning (returns : Returns g start previous current path) :
    Turning g (previous :: (path ++ [start])) := by
  induction returns with
  | home =>
    intro p c n inside
    exact absurd inside.length_le (by simp)
  | @on previous current next path away followed returns ih =>
    intro p c n inside
    rw [List.infix_cons_iff] at inside
    rcases inside with here | later
    · rw [List.cons_append, List.cons_prefix_cons, List.cons_prefix_cons] at here
      obtain ⟨rfl, rfl, rest, split⟩ := here
      have head := returns.head?_eq
      rw [← split] at head
      cases head
      exact followed
    · exact ih p c n later

theorem isChain (returns : Returns g start previous current path)
    (goes : g.Goes previous current) : (previous :: (path ++ [start])).IsChain g.Goes := by
  induction returns with
  | home => exact List.isChain_pair.2 goes
  | @on previous current next path away followed returns ih =>
    have onward := ((mem_of_follow followed).1 (List.mem_singleton_self next)).1
    exact List.isChain_cons_cons.2 ⟨goes, ih onward⟩

theorem continuations (returns : Returns g start previous current path) (twoWay : g.TwoWay)
    (goes : g.Goes previous current) : ∀ c ∈ path, ∃ next, g.continuations? c = some next ∧
      next.length = 2 ∧ ∀ n ∈ next, n ∈ previous :: (path ++ [start]) := by
  induction returns with
  | home => simp
  | @on previous current next path away followed returns ih =>
    have onward := ((mem_of_follow followed).1 (List.mem_singleton_self next)).1
    refine List.forall_mem_cons.2 ⟨?_, fun c later => ?_⟩
    · obtain ⟨all, found, perm⟩ := perm_of_follow (twoWay _ _ goes) followed
      refine ⟨all, found, perm.length_eq, fun n mem => ?_⟩
      rw [perm.mem_iff, List.mem_cons, List.mem_singleton] at mem
      rcases mem with rfl | rfl
      · exact List.mem_cons_self ..
      · exact List.mem_cons_of_mem _ (List.mem_cons_of_mem _ (List.mem_of_mem_head? returns.head?_eq))
    · obtain ⟨all, found, two, near⟩ := ih onward c later
      exact ⟨all, found, two, fun n mem => List.mem_cons_of_mem _ (near n mem)⟩

/-- A walk comes back to its start from another side than the one it left by. -/
theorem exists_sides (returns : Returns g start start first path) (goes : g.Goes start first) :
    ∃ last ∈ path, last ≠ first ∧ first ∈ path ∧ g.Goes last start := by
  cases path with
  | nil =>
    cases returns
    exact absurd rfl goes.ne
  | cons second rest =>
    have turning := returns.turning
    have chain := returns.isChain goes
    obtain rfl : second = first := Option.some.inj returns.head?_eq
    obtain ⟨before, last, split⟩ := (List.eq_nil_or_concat' (second :: rest)).resolve_left
      (List.cons_ne_nil _ _)
    have other := turning.getLast?_ne rfl
    rw [split, List.getLast?_concat] at other
    refine ⟨last, by simp [split], fun same => other (by rw [same]), by simp, ?_⟩
    rw [split, List.append_assoc, ← List.cons_append] at chain
    exact (List.isChain_append_cons_cons.1 chain).2.1

end Returns

end Circuit

namespace Grid

variable {g : Grid} {s : CellSet} {c n : Cell} {next : List Cell}

theorem exists_role (found : g.continuations? c = some next) (two : next.length = 2) :
    ∃ r, g.role? c = some r ∧ r ≠ .stub ∧ r ≠ .star := by
  obtain ⟨r, role, on⟩ := runsOn_of_continuations? found
  refine ⟨r, role, ?_, ?_⟩
  · rintro rfl
    cases on
    have few := Option.length_toList_le (o := [c.east, c.west, c.north, c.south].find? g.isInked)
    omega
  · rintro rfl
    cases on

theorem adj_iff_goes (twoWay : (g.isolate s).TwoWay)
    (two : ∀ c ∈ s, ∃ next, (g.isolate s).continuations? c = some next ∧ next.length = 2) :
    (g.isolate s).web.Adj c n ↔ (g.isolate s).Goes c n := by
  -- Cells with two continuations are neither stubs nor stars, so ink and continuation agree.
  constructor
  · intro adj
    obtain ⟨mem, mem'⟩ := mem_of_adj_isolate adj
    obtain ⟨d, joint, rfl⟩ := adj
    obtain ⟨next, found, length⟩ := two c mem
    obtain ⟨next', found', length'⟩ := two _ mem'
    obtain ⟨r, role, through, hollow⟩ := exists_role found length
    obtain ⟨t, role', through', hollow'⟩ := exists_role found' length'
    obtain ⟨here, there⟩ := mem_joints.1 joint
    have runs := runs_of_inksSide role' hollow' there
    rw [Glyph.runs_opposite] at runs
    obtain ⟨all, same, onward⟩ := exists_continuations role through hollow
    exact ⟨all, same, (onward d (by simp [role'])).2 (mem_arms_of_inksSide role hollow here runs)⟩
  · intro goes
    have inked {c : Cell} {d : Direction} (goes : (g.isolate s).Goes c (c.step d)) :
        (g.isolate s).inksSide c d := by
      obtain ⟨mem, mem'⟩ := goes.mem
      obtain ⟨next, found, length⟩ := two c mem
      obtain ⟨next', found', length'⟩ := two _ mem'
      obtain ⟨r, role, through, hollow⟩ := exists_role found length
      obtain ⟨t, role', -, -⟩ := exists_role found' length'
      obtain ⟨all, same, onward⟩ := exists_continuations role through hollow
      exact inksSide_of_mem_arms role ((onward d (by simp [role'])).1 ((goes_iff same).1 goes))
    obtain ⟨d, rfl⟩ := goes.exists_step
    have back := twoWay _ _ goes
    rw [← Cell.step_step_opposite c d] at back
    exact ⟨d, mem_joints.2 ⟨inked goes, inked (by simpa using back)⟩, rfl⟩

/-- Where lines lead both ways and go on in two directions everywhere, cells connected without a
branch are a ring. -/
theorem ring_of_two (twoWay : (g.isolate s).TwoWay) (nonempty : ∃ c, c ∈ s)
    (connected : ∀ a ∈ s, ∀ b ∈ s, (g.isolate s).stems.Reachable a b)
    (two : ∀ c ∈ s, ∃ next, (g.isolate s).continuations? c = some next ∧ next.length = 2) :
    (g.isolate s).Ring s ∧ (g.isolate s).Leads s := by
  have adj {c n : Cell} := adj_iff_goes (c := c) (n := n) twoWay two
  refine ⟨⟨nonempty, fun a memA b memB => ?_, fun c mem => ?_⟩, ⟨fun near => ?_, fun c mem => ?_⟩⟩
  · exact (connected a memA b memB).mono fun _ _ (stem : (g.isolate s).stems.Adj _ _) =>
      adj.2 stem.1.1
  · obtain ⟨next, found, length⟩ := two c mem
    rw [← length_of_mem_iff_adj (nodup_continuations found) fun n => by
      rw [adj, goes_iff found], length]
  · exact (mem_of_adj_isolate near).2
  · obtain ⟨next, found, -⟩ := two c mem
    exact ⟨next, found, nodup_continuations found, fun n => by rw [adj, goes_iff found]⟩

theorem unbranched_of_reachable {a b : Cell} (reach : g.stems.Reachable a b) (differ : a ≠ b) :
    g.Unbranched a := by
  obtain ⟨walk⟩ := reach
  cases walk with
  | nil => exact absurd rfl differ
  | cons adj _ => exact adj.2.1

end Grid

namespace Outline

open Grid Circuit

variable {g : Grid} {s t : CellSet} {start first c : Cell} {others path : List Cell}

structure Single (g : Grid) (s : CellSet) : Prop where
  twoWay : (g.isolate s).TwoWay
  connected : ∀ a ∈ s, ∀ b ∈ s, (g.isolate s).stems.Reachable a b

theorem start?_mem {alone : Grid} (found : start? alone s = some start) : start ∈ s := by
  rw [start?, Option.or_eq_some_iff] at found
  rcases found with finish | ⟨-, first⟩
  · exact List.mem_of_find?_eq_some finish
  · exact List.mem_of_mem_head? first

theorem exists_start? (alone : Grid) (mem : c ∈ s) : ∃ start, start? alone s = some start := by
  rw [← Option.isSome_iff_exists, start?, Option.isSome_or, Bool.or_eq_true]
  exact .inr (List.isSome_head?.2 (List.ne_nil_of_mem mem))

theorem exists_returns (loop : form g s = .loop) : ∃ start first others path,
    start? (g.isolate s) s = some start ∧
      (g.isolate s).follow start none = .ok (first :: others) ∧
      Returns (g.isolate s) start start first path := by
  obtain ⟨-, -, start, cells, found, walked⟩ := form_eq_loop_iff.1 loop
  obtain ⟨first, others, followed, returns, -⟩ := walk_eq_closed_iff.1 walked
  exact ⟨start, first, others, cells, found, followed, returns⟩

/-- A loop in which lines lead both ways at their ends has no line ends: there is only one way out of
them, and the walk would have to come back on another. -/
theorem form_ne_loop_of_ends (ends : (g.isolate s).EndsTwoWay) (mem : c ∈ s)
    (finish : (g.isolate s).isLineEnd c) : form g s ≠ .loop := by
  intro loop
  obtain ⟨start, first, others, path, found, followed, returns⟩ := exists_returns loop
  have goes := ((mem_of_follow followed).1 (List.mem_cons_self ..)).1
  obtain ⟨last, -, differ, -, back⟩ := returns.exists_sides goes
  have atEnd : (g.isolate s).isLineEnd start := by
    rw [start?, Option.or_eq_some_iff] at found
    rcases found with finish' | ⟨none, -⟩
    · exact List.find?_some finish'
    · exact absurd finish (List.find?_eq_none.1 none c mem)
  exact differ (eq_of_isLineEnd atEnd ((ends _ _ atEnd).2 back) goes back ((ends _ _ atEnd).1 goes))

theorem form_ne_loop_of_isLineEnd (twoWay : (g.isolate s).TwoWay) (mem : c ∈ s)
    (finish : (g.isolate s).isLineEnd c) : form g s ≠ .loop :=
  form_ne_loop_of_ends twoWay.ends mem finish

theorem Single.continuations (single : Single g s) (loop : form g s = .loop) :
    ∀ c ∈ s, ∃ next, (g.isolate s).continuations? c = some next ∧ next.length = 2 := by
  obtain ⟨start, first, others, path, found, followed, returns⟩ := exists_returns loop
  have goes := ((mem_of_follow followed).1 (List.mem_cons_self ..)).1
  obtain ⟨last, inLast, differ, inFirst, back⟩ := returns.exists_sides goes
  -- The return passes only cells with two continuations, and both of these are passed as well.
  have around : ∀ c ∈ start :: path, ∃ next, (g.isolate s).continuations? c = some next ∧
      next.length = 2 ∧ ∀ n ∈ next, n ∈ start :: path := by
    refine List.forall_mem_cons.2 ⟨?_, fun c mem => ?_⟩
    · obtain ⟨next, all, few⟩ :=
        unbranched_of_reachable (single.connected _ goes.mem.1 _ goes.mem.2) goes.ne.symm
      have both : [first, last].Nodup := by simpa using differ.symm
      have within : [first, last] ⊆ next := by
        simp [(goes_iff all).1 goes, (goes_iff all).1 (single.twoWay _ _ back)]
      have perm := (List.subperm_of_subset both within).perm_of_length_le few
      refine ⟨next, all, perm.length_eq.symm, fun n mem => List.mem_cons_of_mem _ ?_⟩
      rw [← perm.mem_iff, List.mem_cons, List.mem_singleton] at mem
      rcases mem with rfl | rfl
      · exact inFirst
      · exact inLast
    · obtain ⟨next, all, two, near⟩ := returns.continuations single.twoWay goes c mem
      exact ⟨next, all, two, fun n mem => by simpa [or_comm] using near n mem⟩
  intro c mem
  have met : c ∈ start :: path := by
    refine mem_of_reachable (p := (· ∈ start :: path)) (fun a b here adj => ?_)
      (single.connected start (start?_mem found) c mem) (List.mem_cons_self ..)
    obtain ⟨next, all, -, near⟩ := around a here
    exact near b ((goes_iff all).1 adj.1.1)
  obtain ⟨next, all, two, -⟩ := around c met
  exact ⟨next, all, two⟩

/-- A single line that is a loop is a ring. -/
theorem Single.ring (single : Single g s) (loop : form g s = .loop) :
    (g.isolate s).Ring s ∧ (g.isolate s).Leads s := by
  obtain ⟨start, -, -, -, found, -⟩ := exists_returns loop
  exact ring_of_two single.twoWay ⟨start, start?_mem found⟩ single.connected
    (single.continuations loop)

theorem Single.of_isChain {rest : List Cell} (twoWay : (g.isolate s).TwoWay)
    (mem : ∀ c, c ∈ s ↔ c ∈ start :: rest)
    (chain : (start :: rest).IsChain (g.isolate s).stems.Adj) : Single g s where
  twoWay := twoWay
  connected a memA b memB :=
    (reachable_of_isChain chain ((mem a).1 memA)).symm.trans
      (reachable_of_isChain chain ((mem b).1 memB))

theorem Single.congr (single : Single g s) (same : s.Same t) : Single g t where
  twoWay := Grid.isolate_congr g same ▸ single.twoWay
  connected a memA b memB :=
    Grid.isolate_congr g same ▸ single.connected a ((same a).2 memA) b ((same b).2 memB)

/-- It does not matter where the walk around a single line begins. -/
theorem Single.form_eq_loop (single : Single g s) (same : s.Same t) (loop : form g s = .loop) :
    form g t = .loop := by
  obtain ⟨large, encloses, -⟩ := form_eq_loop_iff.1 loop
  obtain ⟨ring, leads⟩ := single.ring loop
  obtain ⟨c, mem⟩ := ring.nonempty
  obtain ⟨start, found⟩ := exists_start? (g.isolate t) ((same c).1 mem)
  obtain ⟨rest, walked, -⟩ := ring.walk_eq leads ((same start).2 (start?_mem found))
  refine form_eq_loop_iff.2 ⟨same.size_eq ▸ large, encloses_congr g same ▸ encloses, start, rest,
    found, ?_⟩
  rwa [← Grid.isolate_congr g same, patience, ← same.size_eq]

theorem form_eq_of_loop_iff (same : s.Same t) (loop : form g s = .loop ↔ form g t = .loop) :
    form g s = form g t := by
  have strand := form_eq_strand_congr (g := g) same
  cases here : form g s <;> cases there : form g t <;> simp_all

/-- What the form of an outline owes to the order of its cells: whether it is a strand, nothing, and
otherwise only where the walk around it begins. That does not matter if a line ends in it, or if it
is a single line, where lines lead both ways. -/
theorem form_rearranged (same : s.Same t) :
    (form g s = .strand ↔ form g t = .strand) ∧
      (start? (g.isolate s) s = start? (g.isolate t) t → form g s = form g t) ∧
      ((g.isolate s).TwoWay → (∃ c ∈ s, (g.isolate s).isLineEnd c) → form g s = form g t) ∧
      (Single g s → form g s = form g t) := by
  refine ⟨form_eq_strand_congr same, form_congr same, fun twoWay => ?_, fun single => ?_⟩
  · rintro ⟨c, mem, finish⟩
    have alone := Grid.isolate_congr g same
    exact form_eq_of_loop_iff same
      (iff_of_false (form_ne_loop_of_isLineEnd twoWay mem finish)
        (form_ne_loop_of_isLineEnd (alone ▸ twoWay) ((same c).1 mem) (alone ▸ finish)))
  · exact form_eq_of_loop_iff same
      ⟨single.form_eq_loop same, (single.congr same).form_eq_loop same.symm⟩

def boxRows : CellSet := Layout.box.written

theorem form_rearranged_box :
    Layout.boxWalls.Same boxRows ∧ Single Layout.box Layout.boxWalls ∧
      form Layout.box Layout.boxWalls = form Layout.box boxRows :=
  have same : Layout.boxWalls.Same boxRows := by decide
  have single : Single Layout.box Layout.boxWalls :=
    .of_isChain (.of_cells (by decide +kernel)) (fun _ => Iff.rfl) (by decide +kernel)
  ⟨same, single, (form_rearranged same).2.2.2 single⟩

def pair : Grid :=
  ⟨5, 5, #['+', '-', '+', ' ', ' ', '|', ' ', '|', ' ', ' ', '+', '-', '+', '-', '+',
    ' ', ' ', '|', ' ', '|', ' ', ' ', '+', '-', '+'], rfl⟩

def pairFromCorner : CellSet :=
  ⟨⟨2, 2⟩ :: pair.written.toList.erase ⟨2, 2⟩, by decide⟩

/-- A walk that starts at the shared corner goes around one of the boxes and does not see that the
line branches there; any other walk meets the branch. -/
theorem pair_form_depends_on_order :
    pair.written.Same pairFromCorner ∧ form pair pair.written = .mixed ∧
      form pair pairFromCorner = .loop := by
  refine ⟨by decide, ?_, ?_⟩
  · exact form_eq_mixed ⟨0, 0⟩ .branch ((blank 5 5).cells.map (·.translate 5 5)) (by decide)
      (by decide +kernel) (by decide +kernel) (by decide +kernel) fun _ => Circuit.Ending.noConfusion
  · exact form_eq_loop ⟨2, 2⟩ [⟨2, 1⟩, ⟨2, 0⟩, ⟨1, 0⟩, ⟨0, 0⟩, ⟨0, 1⟩, ⟨0, 2⟩, ⟨1, 2⟩]
      ((blank 5 5).cells.map (·.translate 5 5)) (by decide)
      (by decide +kernel) (by decide +kernel) (by decide +kernel)

end Outline

end Linework
