import Linework.CellSet
import Linework.Outline

/-! From overlapping outlines to distinct strands and loops.

Mixed outlines give up the loops that are outlines of their own, or else are taken apart. Of the
loops, those are dropped that only go around smaller loops which fill them.
-/

set_option autoImplicit false

namespace Linework

structure Reduction where
  strands : List CellSet
  loops : List CellSet

namespace Reduction

open Outline (Form)

def largest? (sets : List (CellSet × Nat)) : Option (CellSet × Nat) :=
  match sets with
  | [] => none
  | first :: rest => some (rest.foldl (fun best s => if s.1.size > best.1.size then s else best) first)

/-- The place of the largest set among those that meet `area`, if there are three or more of them
and the others together are the same set of cells. -/
def covered? (filled : List CellSet) (area : CellSet) : Option Nat :=
  let group := filled.zipIdx.filter fun other => area.meets other.1
  if group.length ≤ 2 then none
  else
    (largest? group).bind fun largest =>
      -- Only the largest can go, and only for the union of all the others.
      let others := group.filter fun other => other.2 != largest.2
      let union := others.foldl (fun acc other => acc.union other.1) CellSet.empty
      if union.Same largest.1 then some largest.2 else none

/-- The places of the sets that only repeat smaller ones around them. Where the area of any set
cannot be told, none does. -/
def obsolete (sets : List CellSet) : List Nat :=
  match sets.mapM Outline.filled? with
  | none => []
  -- Each is judged in the list as given: one that goes still counts for the others.
  | some filled => filled.filterMap (covered? filled)

def dropObsolete (sets : List CellSet) : List CellSet :=
  let drop := obsolete sets
  (sets.zipIdx.filter fun s => !drop.contains s.2).map Prod.fst

def subtract (g : Grid) (loops : List CellSet) (mixed : CellSet) : List CellSet × List CellSet :=
  let remainder := loops.foldl CellSet.diff mixed
  if Outline.form g remainder = .strand then ([], remainder.components) else ([remainder], [])

/-- An outline that cannot be taken apart is lost. -/
def takeApart (g : Grid) (mixed : CellSet) : List CellSet × List CellSet :=
  match Outline.parts g mixed with
  | .ok parts => ([], parts)
  | .error _ => ([], [])

/-- Replaces every mixed outline. What takes the place of an outline stays there, and new parts
come at the end. -/
def resolve (g : Grid) (sets : List CellSet) : List CellSet :=
  let formed := sets.map fun s => (s, Outline.form g s)
  -- One loop anywhere decides how every mixed outline is treated.
  let loops := (formed.filter fun s => s.2 = .loop).map Prod.fst
  let replace (s : CellSet) : List CellSet × List CellSet :=
    if loops.isEmpty then takeApart g s else subtract g loops s
  let replaced := formed.map fun s => if s.2 = .mixed then replace s.1 else ([s.1], [])
  replaced.flatMap Prod.fst ++ replaced.flatMap Prod.snd

def ofOutlines (g : Grid) (outlines : List CellSet) : Reduction :=
  -- What is left of two mixed outlines may be the same, or nothing at all.
  let sets := (CellSet.distinct (resolve g (CellSet.distinct outlines))).filter (!·.isEmpty)
  let formed := sets.map fun s => (s, Outline.form g s)
  let ofForm (form : Form) : List CellSet := (formed.filter fun s => s.2 = form).map Prod.fst
  ⟨ofForm .strand, dropObsolete (ofForm .loop)⟩

end Reduction

end Linework
