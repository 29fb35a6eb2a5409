import Carquet.Lib.LevelStream
import Carquet.Reader.PageDecode

/-!
# Entries of a column

The rows of a column as the readers and writers pass them: definition levels, repetition levels
and the packed values of the rows that are present.
-/

namespace Carquet

open LevelStream

variable {α : Type} {maxDefLevel : Int}

/-- Whether an entry with this definition level holds a value. -/
def isPresent (maxDefLevel level : Int) : Bool := decide (maxDefLevel ≤ 0) || level == maxDefLevel

/-- Entries of a column: levels, and the values of those that are present. -/
abbrev Entries (α : Type) (maxDefLevel : Int) := Stream Int Int α (isPresent maxDefLevel)

theorem countP_isPresent_of_nullable (h : 0 < maxDefLevel) (levels : List Int) :
    levels.countP (isPresent maxDefLevel) = countNonNulls levels maxDefLevel := by
  have : isPresent maxDefLevel = (· == maxDefLevel) := by
    funext level
    simp only [isPresent, Bool.or_eq_right_iff_imp, decide_eq_true_eq]
    omega
  rw [this, countNonNulls]

theorem countP_isPresent_of_required (h : ¬ 0 < maxDefLevel) (levels : List Int) :
    levels.countP (isPresent maxDefLevel) = levels.length := by
  rw [List.countP_eq_length]
  intro level _
  have : maxDefLevel ≤ 0 := by omega
  simp [isPresent, this]

end Carquet
