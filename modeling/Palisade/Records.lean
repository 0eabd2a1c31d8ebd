import Mathlib.Order.Lattice
import Mathlib.Data.List.Basic

/-! Changes that carry a mark each and are made only above the highest mark so far. Of changes
in any order those count that set a record, and they count in the order of their marks. -/
namespace Records
variable {M E S : Type} [LinearOrder M]

/-- A change above the mark is made and sets it. -/
def advance (apply : E → S → S) : M × S → M × E → M × S
  | (mark, s), (next, change) => if mark < next then (next, apply change s) else (mark, s)

/-- Those above all before them and above the first mark. -/
def records : M → List (M × E) → List (M × E)
  | _, [] => []
  | mark, (next, change) :: rest => if mark < next then (next, change) :: records next rest else records mark rest

/-- The highest mark. -/
def highest (mark : M) (changes : List (M × E)) : M := (changes.map Prod.fst).foldl max mark

variable {mark : M}

theorem highest_cons (mark : M) (change : M × E) (rest : List (M × E)) :
    highest mark (change :: rest) = highest (max mark change.1) rest := rfl

/-- The changes come down to the records among them. -/
theorem foldl_advance (apply : E → S → S) (mark : M) (s : S) (changes : List (M × E)) :
    changes.foldl (advance apply) (mark, s) =
    (highest mark changes, (records mark changes).foldl (fun s change => apply change.2 s) s) := by
  induction changes generalizing mark s with
  | nil => rfl
  | cons change rest ih =>
    obtain ⟨next, change⟩ := change
    simp only [List.foldl_cons, advance, records, highest_cons]
    by_cases above : mark < next
    · simp only [if_pos above, ih, List.foldl_cons, max_eq_right above.le]
    · simp only [if_neg above, ih, max_eq_left (not_lt.mp above)]

theorem above_of_mem {changes : List (M × E)} {change : M × E} (member : change ∈ records mark changes) : mark < change.1 := by
  induction changes generalizing mark with
  | nil => cases member
  | cons first rest ih =>
    obtain ⟨next, first⟩ := first
    simp only [records] at member
    split at member
    · next above =>
      rcases List.mem_cons.mp member with rfl | later
      · exact above
      · exact above.trans (ih later)
    · exact ih member

theorem records_subset {changes : List (M × E)} {change : M × E} (member : change ∈ records mark changes) : change ∈ changes := by
  induction changes generalizing mark with
  | nil => cases member
  | cons first rest ih =>
    obtain ⟨next, first⟩ := first
    simp only [records] at member
    split at member
    · rcases List.mem_cons.mp member with rfl | later
      · exact List.mem_cons_self
      · exact List.mem_cons_of_mem _ (ih later)
    · exact List.mem_cons_of_mem _ (ih member)

/-- Records are made in the order of their marks, each mark at most once. -/
theorem records_increasing (mark : M) (changes : List (M × E)) :
    (records mark changes).Pairwise fun first second => first.1 < second.1 := by
  induction changes generalizing mark with
  | nil => exact .nil
  | cons change rest ih =>
    obtain ⟨next, change⟩ := change
    simp only [records]
    split
    · exact .cons (fun later member => above_of_mem member) (ih next)
    · exact ih mark

end Records
