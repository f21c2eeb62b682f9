import Mathlib.Data.List.Nodup

/-!
# Entries that are added once

An entry joins a list unless one with its key is there.
-/

namespace Zeron.Data

universe u v

variable {α : Type u} {κ : Type v} [DecidableEq κ] {key : α → κ}

def addNew (key : α → κ) (rows : List α) (row : α) : List α :=
  if key row ∈ rows.map key then rows else rows ++ [row]

def addAllNew (key : α → κ) (rows offered : List α) : List α :=
  offered.foldl (addNew key) rows

end Zeron.Data
