import Linework.Proofs.Ring
import Mathlib.Data.Sym.Sym2

/-! Stretches of a network: its paths from one meeting or end of lines to the next.

Inside a stretch a line can only go on, so two stretches that have a pair of cells in common are the
same, walked in the same direction or in opposite ones.
-/

set_option autoImplicit false

namespace Linework

namespace Grid

def links : List Cell → List (Sym2 Cell)
  | a :: b :: rest => s(a, b) :: links (b :: rest)
  | _ => []

structure Course (g : Grid) (path : List Cell) : Prop where
  nodup : path.Nodup
  chain : path.IsChain g.web.Adj
  inner : ∀ c ∈ path.tail.dropLast, (g.joints c).length = 2
  last : ∀ c ∈ path.getLast?, (g.joints c).length ≠ 2

/-- A path between two cells that are not joined to just two others, through cells that are. -/
structure Stretch (g : Grid) (path : List Cell) : Prop extends g.Course path where
  long : 2 ≤ path.length
  first : ∀ c ∈ path.head?, (g.joints c).length ≠ 2

variable {g : Grid} {path other : List Cell} {a b c : Cell}

theorem exists_cons_cons (two : 2 ≤ path.length) : ∃ a b rest, path = a :: b :: rest := by
  cases path with
  | nil => cases two
  | cons a path =>
    cases path with
    | nil => cases Nat.le_of_succ_le_succ two
    | cons b rest => exact ⟨a, b, rest, rfl⟩

theorem links_cons {rest : List Cell} (a : Cell) (first : rest.head? = some b) :
    links (a :: rest) = s(a, b) :: links rest := by
  cases rest with
  | nil => cases first
  | cons x rest =>
    obtain rfl : x = b := Option.some.inj first
    rfl

theorem links_append (before after : List Cell) (a b : Cell) :
    links (before ++ a :: b :: after) = links (before ++ [a]) ++ s(a, b) :: links (b :: after) := by
  induction before with
  | nil => rfl
  | cons x before ih =>
    cases before with
    | nil => rfl
    | cons y before =>
      simp only [List.cons_append] at ih ⊢
      rw [links, ih]
      rfl

theorem links_reverse (path : List Cell) : links path.reverse = (links path).reverse := by
  induction path with
  | nil => rfl
  | cons x path ih =>
    cases path with
    | nil => rfl
    | cons y rest =>
      have split : (x :: y :: rest).reverse = rest.reverse ++ y :: x :: [] := by simp
      rw [split, links_append, links, List.reverse_cons, ← ih, List.reverse_cons, Sym2.eq_swap]
      rfl

theorem mem_links {e : Sym2 Cell} (mem : e ∈ links path) :
    ∃ before a b after, path = before ++ a :: b :: after ∧ e = s(a, b) := by
  induction path with
  | nil => cases mem
  | cons x path ih =>
    cases path with
    | nil => cases mem
    | cons y rest =>
      rw [links, List.mem_cons] at mem
      rcases mem with rfl | mem
      · exact ⟨[], x, y, rest, rfl, rfl⟩
      · obtain ⟨before, a, b, after, split, same⟩ := ih mem
        exact ⟨x :: before, a, b, after, by rw [split]; rfl, same⟩

theorem Course.tail {rest : List Cell} (course : g.Course (a :: b :: c :: rest)) :
    g.Course (b :: c :: rest) where
  nodup := (List.nodup_cons.1 course.nodup).2
  chain := (List.isChain_cons_cons.1 course.chain).2
  inner n mem := by
    refine course.inner n ?_
    rw [List.tail_cons, List.dropLast_cons_cons]
    exact List.mem_cons_of_mem _ mem
  last := course.last

theorem Course.cons (course : g.Course (b :: path)) (long : path ≠ []) (adj : g.web.Adj a b)
    (new : a ∉ b :: path) (two : (g.joints b).length = 2) : g.Course (a :: b :: path) where
  nodup := List.nodup_cons.2 ⟨new, course.nodup⟩
  chain := List.isChain_cons_cons.2 ⟨adj, course.chain⟩
  inner n mem := by
    rw [List.tail_cons, List.dropLast_cons_of_ne_nil long, List.mem_cons] at mem
    rcases mem with rfl | mem
    · exact two
    · exact course.inner n mem
  last := course.last

/-- Courses that set out alike are the same: each cell on the way has one neighbor to go on to, and
both stop at the first cell that has not. -/
theorem Course.eq_of_cons_cons {rest tail : List Cell} (course : g.Course (a :: b :: rest))
    (second : g.Course (a :: b :: tail)) : rest = tail := by
  -- Both courses go on at a cell with two joints, where there is one way forward.
  induction rest generalizing a b tail with
  | nil =>
    cases tail with
    | nil => rfl
    | cons y tail => exact absurd (second.inner b (by simp)) (course.last b rfl)
  | cons x rest ih =>
    cases tail with
    | nil => exact absurd (course.inner b (by simp)) (second.last b rfl)
    | cons y tail =>
      obtain ⟨fromA, chain⟩ := List.isChain_cons_cons.1 course.chain
      obtain ⟨toX, -⟩ := List.isChain_cons_cons.1 chain
      obtain ⟨toY, -⟩ := List.isChain_cons_cons.1 (List.isChain_cons_cons.1 second.chain).2
      have forward : a ≠ x := fun same => by
        have nodup := course.nodup
        simp [same] at nodup
      have onward : a ≠ y := fun same => by
        have nodup := second.nodup
        simp [same] at nodup
      have two := course.inner b (by simp)
      obtain rfl : y = x :=
        (eq_or_eq_of_adj two fromA.symm toX forward toY).resolve_left (Ne.symm onward)
      rw [ih course.tail second.tail]

namespace Stretch

theorem reverse (stretch : g.Stretch path) : g.Stretch path.reverse where
  long := by
    rw [List.length_reverse]
    exact stretch.long
  nodup := List.nodup_reverse.2 stretch.nodup
  chain := by
    rw [List.isChain_reverse]
    exact stretch.chain.imp fun _ _ adj => adj.symm
  first := by
    rw [List.head?_reverse]
    exact stretch.last
  last := by
    rw [List.getLast?_reverse]
    exact stretch.first
  inner c mem := by
    refine stretch.inner c ?_
    rwa [List.tail_reverse, List.dropLast_reverse, List.tail_dropLast, List.mem_reverse] at mem

/-- A stretch holds no cell where it could begin or end but its two ends. -/
theorem eq_nil_of_append_cons {before after : List Cell} (stretch : g.Stretch path)
    (split : path = before ++ a :: after) (edge : (g.joints a).length ≠ 2) :
    before = [] ∨ after = [] := by
  subst split
  cases before with
  | nil => exact .inl rfl
  | cons x before =>
    cases after with
    | nil => exact .inr rfl
    | cons y after =>
      refine absurd (stretch.inner a ?_) edge
      -- With cells on both sides it would be an inner one.
      rw [List.cons_append, List.tail_cons, List.dropLast_append_of_ne_nil (by simp)]
      exact List.mem_append_right _ (by simp)

/-- Stretches that share the first pair of one of them are the same up to their direction. -/
theorem eq_or_eq_reverse {rest : List Cell} (stretch : g.Stretch (a :: b :: rest))
    (second : g.Stretch other) (shared : s(a, b) ∈ links other) :
    a :: b :: rest = other ∨ a :: b :: rest = other.reverse := by
  -- `a` ends a stretch, so the pair is the first of the other one or its last.
  obtain ⟨before, x, y, after, split, same⟩ := mem_links shared
  have edge := stretch.first a rfl
  rcases Sym2.eq_iff.1 same with ⟨rfl, rfl⟩ | ⟨rfl, rfl⟩
  · rcases second.eq_nil_of_append_cons split edge with rfl | none
    · subst split
      rw [List.nil_append] at second ⊢
      exact .inl (by rw [stretch.toCourse.eq_of_cons_cons second.toCourse])
    · cases none
  · have turned : other = (before ++ [b]) ++ a :: after := by simp [split]
    rcases second.eq_nil_of_append_cons turned edge with none | rfl
    · simp at none
    · have back := second.reverse
      have shape : other.reverse = a :: b :: before.reverse := by simp [split]
      rw [shape] at back ⊢
      exact .inr (by rw [stretch.toCourse.eq_of_cons_cons back.toCourse])

end Stretch

end Grid

end Linework
