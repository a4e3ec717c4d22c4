import Mathlib.Logic.Function.Basic
import Mathlib.Data.Nat.Notation
import Mathlib.Tactic.ByContra

namespace LockOrder

variable {ι M : Type*}

def Owns (owner : M → Option ι) (holds : ι → M → Prop) : Prop := ∀ i m, owner m = some i ↔ holds i m

variable {owner : M → Option ι} {holds holds' : ι → M → Prop}

theorem Owns.exclusive (h : Owns owner holds) {i j : ι} {m : M} (hi : holds i m) (hj : holds j m) : i = j := by
  have hoi := (h i m).mpr hi
  rw [(h j m).mpr hj] at hoi
  exact (Option.some.inj hoi).symm

theorem Owns.congr (h : Owns owner holds) (hc : ∀ i m, holds' i m ↔ holds i m) : Owns owner holds' := by
  intro i m
  rw [hc, h]

theorem Owns.acquire [DecidableEq M] (h : Owns owner holds) {i : ι} {m : M} (hfree : owner m = none)
    (hself : ∀ x, holds' i x ↔ x = m ∨ holds i x) (hother : ∀ j ≠ i, ∀ x, holds' j x ↔ holds j x) :
    Owns (Function.update owner m (some i)) holds' := by
  intro j x
  have hnone (j : ι) : ¬ holds j m := by
    rw [← h, hfree]
    simp
  by_cases hx : x = m
  · subst hx
    rw [Function.update_self]
    by_cases hj : j = i
    · subst hj
      simp [hself]
    · rw [hother j hj]
      simp [hnone, Ne.symm hj]
  · rw [Function.update_of_ne hx, h]
    by_cases hj : j = i
    · subst hj
      simp [hself, hx]
    · rw [hother j hj]

theorem Owns.release [DecidableEq M] (h : Owns owner holds) {i : ι} {m : M} (hm : holds i m)
    (hself : ∀ x, holds' i x ↔ x ≠ m ∧ holds i x) (hother : ∀ j ≠ i, ∀ x, holds' j x ↔ holds j x) :
    Owns (Function.update owner m none) holds' := by
  intro j x
  by_cases hx : x = m
  · subst hx
    rw [Function.update_self]
    by_cases hj : j = i
    · subst hj
      simp [hself]
    · rw [hother j hj]
      have hne : ¬ holds j x := fun hjx => hj (h.exclusive hjx hm)
      simp [hne]
  · rw [Function.update_of_ne hx, h]
    by_cases hj : j = i
    · subst hj
      simp [hself, hx]
    · rw [hother j hj]

theorem Owns.transfer [DecidableEq ι] [DecidableEq M] (h : Owns owner holds) {i j : ι} {m : M} (hij : i ≠ j)
    (hm : holds j m) (hto : ∀ x, holds' i x ↔ x = m ∨ holds i x) (hfrom : ∀ x, holds' j x ↔ x ≠ m ∧ holds j x)
    (hother : ∀ k, k ≠ i → k ≠ j → ∀ x, holds' k x ↔ holds k x) : Owns (Function.update owner m (some i)) holds' := by
  let between (k : ι) (x : M) : Prop := if k = j then x ≠ m ∧ holds j x else holds k x
  have hbetween (k : ι) (hk : k ≠ j) (x : M) : between k x ↔ holds k x := by simp only [between, if_neg hk]
  have hj (x : M) : between j x ↔ x ≠ m ∧ holds j x := by simp only [between, if_pos]
  have hrelease : Owns (Function.update owner m none) between := h.release hm hj hbetween
  have hacquire : Owns (Function.update (Function.update owner m none) m (some i)) holds' := by
    apply hrelease.acquire (Function.update_self _ _ _)
    · intro x
      rw [hto, hbetween i hij]
    · intro k hk x
      by_cases hkj : k = j
      · subst hkj
        rw [hfrom, hj]
      · rw [hother k hk hkj, hbetween k hkj]
  rwa [Function.update_idem] at hacquire

theorem Owns.exists_unblocked (h : Owns owner holds) {wants : ι → Option M} {rank : M → ℕ} {bound : ℕ}
    (hb : ∀ m, rank m ≤ bound) (hr : ∀ i m m', wants i = some m → holds i m' → rank m' < rank m) (i : ι) :
    ∃ j, (j = i ∨ ∃ m, holds j m) ∧ ∀ m, wants j = some m → owner m = none := by
  by_contra! hcon
  have hclimb : ∀ n, ∃ j m, wants j = some m ∧ n ≤ rank m ∧ (j = i ∨ ∃ m, holds j m) := by
    intro n
    induction n with
    | zero =>
      obtain ⟨m, hm, _⟩ := hcon i (.inl rfl)
      exact ⟨i, m, hm, Nat.zero_le _, .inl rfl⟩
    | succ n ih =>
      obtain ⟨j, m, hm, hn, hj⟩ := ih
      obtain ⟨m₁, hm₁, howner⟩ := hcon j hj
      obtain rfl : m = m₁ := Option.some.inj (hm.symm.trans hm₁)
      obtain ⟨k, hk⟩ := Option.ne_none_iff_exists'.mp howner
      have hkm := (h k m).mp hk
      obtain ⟨m', hm', _⟩ := hcon k (.inr ⟨m, hkm⟩)
      have hlt := hr k m' m hm' hkm
      exact ⟨k, m', hm', by omega, .inr ⟨m, hkm⟩⟩
  obtain ⟨j, m, _, hn, _⟩ := hclimb (bound + 1)
  have hle := hb m
  omega

end LockOrder
