import Mathlib.Algebra.BigOperators.Group.Finset.Piecewise
import Mathlib.Algebra.Order.BigOperators.Group.Finset
import Mathlib.Data.Fintype.Card
import Mathlib.Tactic.Abel

/-!
Waiters on a condition variable. Whoever adds a piece of work notifies one sleeper, later; a waiter
looks for work before it sleeps and after it is woken.
-/

theorem sum_update {ι α M : Type*} [Fintype ι] [DecidableEq ι] [AddCommMonoid M] (f : α → M) (w : ι → α) (i : ι)
    (a : α) : ∑ j, f (Function.update w i a j) + f (w i) = ∑ j, f (w j) + f a := by
  have hcomp : (fun j => f (Function.update w i a j)) = Function.update (fun j => f (w j)) i (f a) :=
    Function.comp_update f w i a
  rw [hcomp, Finset.sum_update_of_mem (Finset.mem_univ i), ← Finset.erase_eq,
    ← Finset.add_sum_erase _ (fun j => f (w j)) (Finset.mem_univ i)]
  abel

namespace Wakeups

inductive Phase
  | looking
  | asleep
  | away
  deriving DecidableEq

def Phase.looks (phase : Phase) : ℕ := if phase = .looking then 1 else 0

variable {ι : Type*} [Fintype ι]

def lookers (phase : ι → Phase) : ℕ := ∑ i, (phase i).looks

theorem lookers_eq_zero {phase : ι → Phase} (h : ∀ i, phase i ≠ .looking) : lookers phase = 0 := by
  apply Finset.sum_eq_zero
  intro i _
  exact if_neg (h i)

theorem lookers_le_card (phase : ι → Phase) : lookers phase ≤ Fintype.card ι := by
  have hsum : lookers phase ≤ ∑ _i : ι, 1 := by
    apply Finset.sum_le_sum
    intro i _
    rw [Phase.looks]
    split_ifs <;> omega
  simpa using hsum

def Covered (work notices : ℕ) (phase : ι → Phase) : Prop := (∃ i, phase i = .asleep) → work ≤ notices + lookers phase

variable {work notices : ℕ} {phase : ι → Phase}

theorem Covered.nothing : Covered 0 notices phase := fun _ => Nat.zero_le _

theorem Covered.awake (h : ∀ i, phase i ≠ .asleep) : Covered work notices phase := by
  rintro ⟨i, hi⟩
  exact absurd hi (h i)

theorem Covered.posted (h : Covered work notices phase) : Covered (work + 1) (notices + 1) phase := by
  intro hs
  have hw := h hs
  omega

theorem Covered.stolen (h : Covered (work + 1) notices phase) : Covered work notices phase := by
  intro hs
  have hw := h hs
  omega

theorem Covered.settled (h : Covered work 0 phase) (hl : ∀ i, phase i ≠ .looking) {i : ι}
    (hi : phase i = .asleep) : work = 0 := by
  have hw := h ⟨i, hi⟩
  rw [lookers_eq_zero hl] at hw
  omega

variable [DecidableEq ι] {i : ι}

theorem lookers_update (phase : ι → Phase) (i : ι) (p : Phase) :
    lookers (Function.update phase i p) + (phase i).looks = lookers phase + p.looks :=
  sum_update Phase.looks phase i p

omit [Fintype ι] in
theorem asleep_update {p : Phase} (hp : p ≠ .asleep) (h : ∃ j, Function.update phase i p j = .asleep) :
    ∃ j, phase j = .asleep := by
  obtain ⟨j, hj⟩ := h
  by_cases hji : j = i
  · subst hji
    rw [Function.update_self] at hj
    exact absurd hj hp
  · exact ⟨j, by rwa [Function.update_of_ne hji] at hj⟩

theorem Covered.heard (h : Covered work (notices + 1) phase) (hi : phase i = .asleep) :
    Covered work notices (Function.update phase i .looking) := by
  intro hs
  have hw := h (asleep_update (by simp) hs)
  have hl := lookers_update phase i .looking
  simp only [hi, Phase.looks] at hl
  simp at hl
  omega

theorem Covered.looking (h : Covered work notices phase) : Covered work notices (Function.update phase i .looking) := by
  intro hs
  have hw := h (asleep_update (by simp) hs)
  have hl := lookers_update phase i .looking
  have hone : (phase i).looks ≤ 1 := by
    rw [Phase.looks]
    split_ifs <;> omega
  rw [show Phase.looking.looks = 1 from rfl] at hl
  omega

theorem Covered.taken (h : Covered (work + 1) notices phase) : Covered work notices (Function.update phase i .away) := by
  intro hs
  have hw := h (asleep_update (by simp) hs)
  have hl := lookers_update phase i .away
  have hone : (phase i).looks ≤ 1 := by
    rw [Phase.looks]
    split_ifs <;> omega
  rw [show Phase.away.looks = 0 from rfl] at hl
  omega

end Wakeups
