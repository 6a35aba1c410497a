import Linework.Cell

/-! Finite sets of cells that remember the order in which their members came.

Membership and `Same` ignore the order; every walk that has to start somewhere follows it.
-/

set_option autoImplicit false

namespace Linework

@[ext]
structure CellSet where
  toList : List Cell
  nodup : toList.Nodup
  deriving DecidableEq

namespace CellSet

theorem length_erase_lt {c : Cell} {cells : List Cell} (h : c ∈ cells) :
    (cells.erase c).length < cells.length :=
  List.length_erase_of_mem h ▸ Nat.pred_lt (Nat.ne_of_gt (List.length_pos_of_mem h))

instance : Membership Cell CellSet := ⟨fun s c => c ∈ s.toList⟩

instance (c : Cell) (s : CellSet) : Decidable (c ∈ s) := inferInstanceAs (Decidable (c ∈ s.toList))

theorem mem_def {c : Cell} {s : CellSet} : c ∈ s ↔ c ∈ s.toList := Iff.rfl

def empty : CellSet := ⟨[], List.nodup_nil⟩

def size (s : CellSet) : Nat := s.toList.length

def isEmpty (s : CellSet) : Bool := s.toList.isEmpty

def first? (s : CellSet) : Option Cell := s.toList.head?

def insert (s : CellSet) (c : Cell) : CellSet :=
  if h : c ∈ s then s
  else ⟨s.toList ++ [c], by
    refine List.nodup_append.2 ⟨s.nodup, by simp, ?_⟩
    intro a ha b hb e
    simp only [List.mem_singleton] at hb
    exact h (mem_def.2 (hb ▸ e ▸ ha))⟩

def erase (s : CellSet) (c : Cell) : CellSet := ⟨s.toList.erase c, s.nodup.erase c⟩

def filter (s : CellSet) (p : Cell → Bool) : CellSet := ⟨s.toList.filter p, s.nodup.filter p⟩

def extend (s : CellSet) (cells : List Cell) : CellSet := cells.foldl insert s

/-- Repeated cells keep their first place. -/
def ofList (cells : List Cell) : CellSet := empty.extend cells

def union (s t : CellSet) : CellSet := s.extend t.toList

def diff (s t : CellSet) : CellSet := s.filter fun c => decide (c ∉ t)

def meets (s t : CellSet) : Bool := s.toList.any fun c => decide (c ∈ t)

def subset (s t : CellSet) : Bool := s.toList.all fun c => decide (c ∈ t)

def Same (s t : CellSet) : Prop := ∀ c, c ∈ s ↔ c ∈ t

def translate (s : CellSet) (dx dy : Int) : CellSet := ofList (s.toList.map (·.translate dx dy))

def shrink (s : CellSet) (factor : Int) : CellSet := ofList (s.toList.map (·.shrink factor))

/-- The smallest rectangle of cells around a set, given by two opposite corners. -/
structure Extent where
  least : Cell
  greatest : Cell
  deriving DecidableEq, Repr

def Extent.width (e : Extent) : Nat := (e.greatest.x - e.least.x + 1).toNat

def Extent.height (e : Extent) : Nat := (e.greatest.y - e.least.y + 1).toNat

def Extent.stretch (e : Extent) (c : Cell) : Extent where
  least := ⟨min e.least.x c.x, min e.least.y c.y⟩
  greatest := ⟨max e.greatest.x c.x, max e.greatest.y c.y⟩

def extent? (s : CellSet) : Option Extent :=
  match s.toList with
  | [] => none
  | c :: rest => some (rest.foldl Extent.stretch ⟨c, c⟩)

def picture (s : CellSet) : String :=
  match s.extent? with
  | none => ""
  | some e =>
    let row (y : Nat) : String := String.ofList ((List.range e.width).map fun (x : Nat) =>
      if e.least.translate x y ∈ s then '*' else '.')
    "\n".intercalate ((List.range e.height).map row) ++ " @ " ++ e.least.text

@[simp] theorem not_mem_empty (c : Cell) : c ∉ empty := List.not_mem_nil

@[simp] theorem mem_insert {s : CellSet} {c d : Cell} : d ∈ s.insert c ↔ d = c ∨ d ∈ s := by
  unfold insert
  split
  · exact ⟨.inr, fun h => h.elim (fun e => e ▸ ‹c ∈ s›) id⟩
  · simp [mem_def, or_comm]

@[simp] theorem mem_erase {s : CellSet} {c d : Cell} : d ∈ s.erase c ↔ d ≠ c ∧ d ∈ s :=
  s.nodup.mem_erase_iff

@[simp] theorem mem_filter {s : CellSet} {p : Cell → Bool} {c : Cell} :
    c ∈ s.filter p ↔ c ∈ s ∧ p c := List.mem_filter

@[simp] theorem mem_extend {s : CellSet} {cells : List Cell} {c : Cell} :
    c ∈ s.extend cells ↔ c ∈ s ∨ c ∈ cells := by
  unfold extend
  induction cells generalizing s with
  | nil => simp
  | cons d rest ih => rw [List.foldl_cons, ih, mem_insert, List.mem_cons, or_assoc, or_left_comm]

@[simp] theorem mem_ofList {c : Cell} {cells : List Cell} : c ∈ ofList cells ↔ c ∈ cells := by
  simp [ofList]

theorem toList_extend {s : CellSet} {cells : List Cell} (h : (s.toList ++ cells).Nodup) :
    (s.extend cells).toList = s.toList ++ cells := by
  unfold extend
  induction cells generalizing s with
  | nil => simp
  | cons d rest ih =>
    have hd : d ∉ s := fun hs => (List.nodup_append.1 h).2.2 d hs d (by simp) rfl
    have hi : (s.insert d).toList = s.toList ++ [d] := by simp [insert, hd]
    rw [List.foldl_cons, ih (by simpa [hi] using h), hi, List.append_assoc, List.singleton_append]

theorem toList_ofList {cells : List Cell} (h : cells.Nodup) : (ofList cells).toList = cells :=
  toList_extend (by simpa [empty] using h)

@[simp] theorem mem_union {s t : CellSet} {c : Cell} : c ∈ s.union t ↔ c ∈ s ∨ c ∈ t := mem_extend

@[simp] theorem mem_diff {s t : CellSet} {c : Cell} : c ∈ s.diff t ↔ c ∈ s ∧ c ∉ t := by
  simp [diff]

theorem meets_iff {s t : CellSet} : s.meets t ↔ ∃ c, c ∈ s ∧ c ∈ t := by
  simp [meets, mem_def]

theorem subset_iff {s t : CellSet} : s.subset t ↔ ∀ c, c ∈ s → c ∈ t := by
  simp [subset, mem_def]

theorem same_iff_subset {s t : CellSet} : s.Same t ↔ s.subset t ∧ t.subset s := by
  simp only [subset_iff]
  exact ⟨fun h => ⟨fun c => (h c).1, fun c => (h c).2⟩, fun h c => ⟨h.1 c, h.2 c⟩⟩

instance (s t : CellSet) : Decidable (s.Same t) := decidable_of_iff _ same_iff_subset.symm

/-- Of sets that are the same, keeps the first. -/
def distinct (sets : List CellSet) : List CellSet :=
  sets.foldl (fun kept s => if kept.any fun t => decide (t.Same s) then kept else kept ++ [s]) []

/-! ### Connected components, where corners connect as well as edges -/

/-- A component under way: the cells of the set not yet found, and those found and not yet left. -/
structure Growth where
  rest : List Cell
  found : List Cell

namespace Growth

def visit (w : Growth) (n : Cell) : Growth :=
  if n ∈ w.rest then ⟨w.rest.erase n, n :: w.found⟩ else w

def pending (w : Growth) : Nat := w.rest.length + w.found.length

theorem pending_visit (w : Growth) (n : Cell) : (w.visit n).pending = w.pending := by
  unfold visit
  split
  · rename_i h
    have := List.length_erase_of_mem h
    have := List.length_pos_of_mem h
    simp only [pending, List.length_cons]
    omega
  · rfl

theorem pending_foldl_visit (w : Growth) (ns : List Cell) :
    (ns.foldl visit w).pending = w.pending := by
  induction ns generalizing w with
  | nil => rfl
  | cons n ns ih => rw [List.foldl_cons, ih, pending_visit]

/-- Leaves cells, the latest found first, until none is left to leave. Gives the cells not found
and those left, latest first. -/
def run (w : Growth) (left : List Cell) : List Cell × List Cell :=
  match _h : w.found with
  | [] => (w.rest, left)
  | c :: found => run (c.surrounding.foldl visit ⟨w.rest, found⟩) (c :: left)
termination_by w.pending
decreasing_by
  rw [pending_foldl_visit]
  simp only [pending, _h, List.length_cons]
  omega

theorem length_rest_foldl_visit (w : Growth) (ns : List Cell) :
    (ns.foldl visit w).rest.length ≤ w.rest.length := by
  induction ns generalizing w with
  | nil => exact Nat.le_refl _
  | cons n ns ih =>
    refine Nat.le_trans (ih _) ?_
    unfold visit
    split
    · exact List.length_erase_le
    · exact Nat.le_refl _

theorem length_run_le (w : Growth) (left : List Cell) :
    (w.run left).1.length ≤ w.rest.length := by
  fun_induction run w left with
  | case1 => exact Nat.le_refl _
  | case2 w left c found h ih => exact Nat.le_trans ih (length_rest_foldl_visit ..)

end Growth

def componentsAmong (cells : List Cell) : List CellSet :=
  match cells with
  | [] => []
  | seed :: others =>
    let grown := Growth.run ⟨others, [seed]⟩ []
    ofList grown.2.reverse :: componentsAmong grown.1
termination_by cells.length
decreasing_by exact Nat.lt_succ_of_le (Growth.length_run_le ..)

def components (s : CellSet) : List CellSet := componentsAmong s.toList

end CellSet

end Linework
