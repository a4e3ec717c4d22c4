import Mathlib.Algebra.Order.Ring.Int
import Mathlib.Data.List.Basic

namespace LineFraming

variable {α : Type*} (sep : α)

def split [DecidableEq α] : List α → List (List α) × List α
  | [] => ([], [])
  | c :: rest =>
    if c = sep then ([] :: (split rest).1, (split rest).2)
    else match split rest with
      | ([], tail) => ([], c :: tail)
      | (line :: lines, tail) => ((c :: line) :: lines, tail)

def join (lines : List (List α)) : List α := lines.flatMap (· ++ [sep])

variable {sep}

@[simp] theorem join_nil : join sep [] = [] := rfl

@[simp] theorem join_cons (line : List α) (lines : List (List α)) :
    join sep (line :: lines) = line ++ sep :: join sep lines := by
  simp [join]

theorem join_append (ls ms : List (List α)) : join sep (ls ++ ms) = join sep ls ++ join sep ms := by
  simp [join]

variable [DecidableEq α]

theorem split_tail {tail : List α} (h : sep ∉ tail) : split sep tail = ([], tail) := by
  induction tail with
  | nil => rfl
  | cons c tail ih =>
    simp only [List.mem_cons, not_or] at h
    simp [split, Ne.symm h.1, ih h.2]

theorem split_line {line : List α} (h : sep ∉ line) (rest : List α) :
    split sep (line ++ sep :: rest) = (line :: (split sep rest).1, (split sep rest).2) := by
  induction line with
  | nil => simp [split]
  | cons c line ih =>
    simp only [List.mem_cons, not_or] at h
    simp [split, Ne.symm h.1, ih h.2]

theorem split_join_append {lines : List (List α)} (hl : ∀ line ∈ lines, sep ∉ line) (rest : List α) :
    split sep (join sep lines ++ rest) = (lines ++ (split sep rest).1, (split sep rest).2) := by
  induction lines with
  | nil => rfl
  | cons line lines ih =>
    rw [join_cons, List.append_assoc, List.cons_append, split_line (hl line List.mem_cons_self),
      ih (fun l h => hl l (List.mem_cons_of_mem _ h))]
    rfl

theorem split_join {lines : List (List α)} {tail : List α} (hl : ∀ line ∈ lines, sep ∉ line)
    (ht : sep ∉ tail) : split sep (join sep lines ++ tail) = (lines, tail) := by
  rw [split_join_append hl, split_tail ht, List.append_nil]

theorem join_split (sep : α) (data : List α) : join sep (split sep data).1 ++ (split sep data).2 = data := by
  induction data with
  | nil => rfl
  | cons c rest ih =>
    by_cases hc : c = sep
    · simp [split, hc, ih]
    · cases hs : split sep rest with
      | mk lines tail =>
        rw [hs] at ih
        cases lines with
        | nil => simpa [split, hc, hs] using ih
        | cons line lines => simpa [split, hc, hs] using ih

theorem split_clean (sep : α) (data : List α) :
    (∀ line ∈ (split sep data).1, sep ∉ line) ∧ sep ∉ (split sep data).2 := by
  induction data with
  | nil => simp [split]
  | cons c rest ih =>
    by_cases hc : c = sep
    · simpa [split, hc] using ih
    · cases hs : split sep rest with
      | mk lines tail =>
        rw [hs] at ih
        cases lines with
        | nil => simpa [split, hc, hs, Ne.symm hc] using ih
        | cons line lines => simpa [split, hc, hs, Ne.symm hc] using ih

theorem count_clean {l : List α} (h : sep ∉ l) : l.count sep = 0 := List.count_eq_zero.mpr h

theorem split_count (sep : α) (data : List α) : (split sep data).1.length = data.count sep := by
  obtain ⟨hl, ht⟩ := split_clean sep data
  conv_rhs => rw [← join_split sep data]
  rw [List.count_append, count_clean ht, Nat.add_zero]
  generalize (split sep data).1 = lines at hl
  induction lines with
  | nil => rfl
  | cons line lines ih =>
    have hline := count_clean (hl line List.mem_cons_self)
    have hrest := ih (fun l h => hl l (List.mem_cons_of_mem _ h))
    simp [List.count_append, hline, ← hrest]

end LineFraming
