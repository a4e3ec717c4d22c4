import BankManagement.LocalActions
import BankManagement.TransactionOps
import Mathlib.Data.List.Nodup

namespace BankManagement

open Transaction LocalActions

abbrev Ledger := AccountId → Option Account

namespace Ledger

def amend (k : AccountId) (f : Account → Except Exn Account) (m : Ledger) : Option Ledger :=
  (m k).bind fun a => (f a).toOption.map fun a' => Function.update m k (some a')

def Open (m : Ledger) (k : AccountId) : Prop := (m k).map (·.status) = some .active

instance (m : Ledger) (k : AccountId) : Decidable (Open m k) :=
  inferInstanceAs (Decidable (_ = _))

def post (t : Transaction) : Ledger → Option Ledger :=
  match t with
  | .deposit k amount => fun m =>
    if Open m k ∧ 0 < amount.cents then amend k (·.deposit amount) m else none
  | .withdraw k amount => fun m =>
    if 0 < amount.cents then amend k (·.withdraw amount) m else none
  | .transfer i j amount => fun m =>
    if i ≠ j ∧ 0 < amount.cents ∧ Open m j then
      (amend i (·.withdraw amount) m).bind (amend j (·.deposit amount))
    else none

def footprint (t : Transaction) : Set AccountId := {k | k ∈ t.involvedAccounts}

theorem amend_eq_some {k : AccountId} {f : Account → Except Exn Account} {m n : Ledger} :
    amend k f m = some n ↔ ∃ a a', m k = some a ∧ f a = .ok a' ∧ n = Function.update m k (some a') := by
  unfold amend
  cases hm : m k with
  | none => simp
  | some a =>
    cases hf : f a with
    | error e => simp [Except.toOption, hf]
    | ok a' => simp [Except.toOption, hf, eq_comm]

theorem amend_local (k : AccountId) (f : Account → Except Exn Account) {S : Set AccountId} (hk : k ∈ S) :
    LocalOn S (amend k f) := by
  constructor
  · intro m n h j hj
    obtain ⟨a, a', _, _, rfl⟩ := amend_eq_some.mp h
    have hne : j ≠ k := by rintro rfl; exact hj hk
    exact Function.update_of_ne hne _ _
  · intro m m' n he h
    obtain ⟨a, a', hm, hf, rfl⟩ := amend_eq_some.mp h
    refine ⟨Function.update m' k (some a'), amend_eq_some.mpr ⟨a, a', (he k hk).symm.trans hm, hf, rfl⟩, ?_⟩
    intro j hj
    by_cases hjk : j = k
    · subst hjk; simp
    · simp [hjk, he j hj]

theorem Open_congr {S : Set AccountId} {m m' : Ledger} (he : ∀ k ∈ S, m k = m' k) {k : AccountId}
    (hk : k ∈ S) : Open m k ↔ Open m' k := by
  simp only [Open, he k hk]

theorem involvedAccounts_transfer (i j : AccountId) (amount : Money) :
    (Transaction.transfer i j amount).involvedAccounts = if j = i then [i] else [i, j] := by
  simp [involvedAccounts, debitAccount, creditAccount, pushUnique]

theorem footprint_transfer (i j : AccountId) (amount : Money) :
    footprint (.transfer i j amount) = {i, j} := by
  ext k
  simp only [footprint, involvedAccounts_transfer, Set.mem_ofPred_eq, Set.mem_insert_iff,
    Set.mem_singleton_iff]
  split_ifs with h
  · simp [h]
  · simp

theorem post_local (t : Transaction) : LocalOn (footprint t) (post t) := by
  cases t with
  | deposit k amount =>
    have hk : k ∈ footprint (.deposit k amount) := by
      simp [footprint, involvedAccounts, debitAccount, creditAccount, pushUnique]
    exact (amend_local k _ hk).guard (fun he => by rw [Open_congr he hk])
  | withdraw k amount =>
    have hk : k ∈ footprint (.withdraw k amount) := by
      simp [footprint, involvedAccounts, debitAccount, creditAccount, pushUnique]
    exact (amend_local k _ hk).guard (fun _ => Iff.rfl)
  | transfer i j amount =>
    have hi : i ∈ footprint (.transfer i j amount) := by simp [footprint_transfer]
    have hj : j ∈ footprint (.transfer i j amount) := by simp [footprint_transfer]
    exact ((amend_local i _ hi).bind (amend_local j _ hj)).guard (fun he => by rw [Open_congr he hj])

theorem amend_changes {k : AccountId} {f : Account → Except Exn Account} {m n : Ledger}
    (hf : ∀ a a', f a = .ok a' → a' ≠ a) (h : amend k f m = some n) :
    ∃ a a', m k = some a ∧ n k = some a' ∧ a' ≠ a := by
  obtain ⟨a, a', hm, hfa, rfl⟩ := amend_eq_some.mp h
  exact ⟨a, a', hm, Function.update_self _ _ _, hf a a' hfa⟩

theorem deposit_ne {a a' : Account} {amount : Money} (hp : 0 < amount.cents) (h : a.deposit amount = .ok a') :
    a' ≠ a := by
  rintro rfl
  have hcents := (Account.deposit_ok h).2.2.2
  omega

theorem withdraw_ne {a a' : Account} {amount : Money} (hp : 0 < amount.cents) (h : a.withdraw amount = .ok a') :
    a' ≠ a := by
  rintro rfl
  have hcents := (Account.withdraw_ok h).2.2.2.2
  omega

theorem post_changes {t : Transaction} {m n : Ledger} (h : post t m = some n) {k : AccountId}
    (hk : k ∈ footprint t) : ∃ a a', m k = some a ∧ n k = some a' ∧ a' ≠ a := by
  cases t with
  | deposit j amount =>
    obtain ⟨⟨_, hp⟩, h⟩ := Option.ite_none_right_eq_some.mp h
    obtain rfl : k = j := by
      simpa [footprint, involvedAccounts, debitAccount, creditAccount, pushUnique] using hk
    exact amend_changes (fun _ _ => deposit_ne hp) h
  | withdraw j amount =>
    obtain ⟨hp, h⟩ := Option.ite_none_right_eq_some.mp h
    obtain rfl : k = j := by
      simpa [footprint, involvedAccounts, debitAccount, creditAccount, pushUnique] using hk
    exact amend_changes (fun _ _ => withdraw_ne hp) h
  | transfer i j amount =>
    obtain ⟨⟨hij, hp, _⟩, h⟩ := Option.ite_none_right_eq_some.mp h
    obtain ⟨p, hi, hj⟩ := Option.bind_eq_some_iff.mp h
    rw [footprint_transfer] at hk
    rcases hk with rfl | rfl
    · obtain ⟨a, a', hm, hpk, hne⟩ := amend_changes (fun _ _ => withdraw_ne hp) hi
      obtain ⟨_, _, _, _, rfl⟩ := amend_eq_some.mp hj
      exact ⟨a, a', hm, (Function.update_of_ne hij _ _).trans hpk, hne⟩
    · obtain ⟨a, a', hpk, hn, hne⟩ := amend_changes (fun _ _ => deposit_ne hp) hj
      obtain ⟨_, _, _, _, rfl⟩ := amend_eq_some.mp hi
      exact ⟨a, a', (Function.update_of_ne (Ne.symm hij) _ _).symm.trans hpk, hn, hne⟩

end Ledger

open Ledger

theorem findAccount_id {l : List Account} {k : AccountId} {a : Account} (h : findAccount l k = some a) :
    a.id = k := by
  simpa using List.find?_some h

theorem findAccount_cons (a : Account) (l : List Account) :
    findAccount (a :: l) = Function.update (findAccount l) a.id (some a) := by
  funext k
  by_cases h : a.id = k
  · subst h; simp [findAccount]
  · simp [findAccount, h, Function.update_of_ne (Ne.symm h)]

theorem mutateAccount_amend {f : Account → Except Exn Account} (hid : ∀ a a', f a = .ok a' → a'.id = a.id)
    (l : List Account) (k : AccountId) :
    (mutateAccount l k f).toOption.map findAccount = amend k f (findAccount l) := by
  induction l with
  | nil => rfl
  | cons a l ih =>
    by_cases h : a.id = k
    · subst h
      simp only [mutateAccount, beq_self_eq_true, ↓reduceIte, amend, findAccount_cons, Function.update_self,
        Option.bind_some]
      cases hf : f a with
      | error e => simp [Except.toOption]
      | ok a' => simp [Except.toOption, findAccount_cons, hid a a' hf]
    · have hk : Function.update (findAccount l) a.id (some a) k = findAccount l k :=
        Function.update_of_ne (Ne.symm h) _ _
      simp only [mutateAccount, beq_iff_eq, h, ↓reduceIte, amend, findAccount_cons, hk]
      simp only [amend] at ih
      cases hm : mutateAccount l k f with
      | error e =>
        rw [hm] at ih
        cases hl : findAccount l k with
        | none => simp [Except.toOption]
        | some b =>
          rw [hl] at ih
          cases hf : f b with
          | error e => simp [Except.toOption, hf]
          | ok b' => simp [Except.toOption, hf] at ih
      | ok l' =>
        rw [hm] at ih
        cases hl : findAccount l k with
        | none => rw [hl] at ih; simp [Except.toOption] at ih
        | some b =>
          rw [hl] at ih
          cases hf : f b with
          | error e => simp [Except.toOption, hf] at ih
          | ok b' =>
            have he : findAccount l' = Function.update (findAccount l) k (some b') := by
              simpa [Except.toOption, hf] using ih
            simp only [Except.toOption, Option.map_some, findAccount_cons, he, Option.bind_some, hf]
            rw [Function.update_comm h]

theorem mutateAccount_ids {f : Account → Except Exn Account} (hid : ∀ a a', f a = .ok a' → a'.id = a.id)
    {l l' : List Account} {k : AccountId} (h : mutateAccount l k f = .ok l') :
    l'.map (·.id) = l.map (·.id) := by
  induction l generalizing l' with
  | nil => simp [mutateAccount] at h
  | cons a l ih =>
    unfold mutateAccount at h
    split_ifs at h
    · cases hf : f a with
      | error e => simp [hf] at h
      | ok a' =>
        obtain rfl : a' :: l = l' := by simpa [hf] using h
        simp [hid a a' hf]
    · cases hm : mutateAccount l k f with
      | error e => simp [hm] at h
      | ok l'' =>
        obtain rfl : a :: l'' = l' := by simpa [hm] using h
        simp [ih hm]

theorem applied_deposit (k : AccountId) (amount : Money) (l : List Account) :
    applied (.deposit k amount) l =
      if validate (.deposit k amount) l then (mutateAccount l k (·.deposit amount)).toOption else none := by
  unfold applied apply
  cases validate (.deposit k amount) l
  · rfl
  · cases hm : mutateAccount l k (·.deposit amount) <;> simp [hm, Except.toOption]

theorem applied_withdraw (k : AccountId) (amount : Money) (l : List Account) :
    applied (.withdraw k amount) l =
      if validate (.withdraw k amount) l then (mutateAccount l k (·.withdraw amount)).toOption else none := by
  unfold applied apply
  cases validate (.withdraw k amount) l
  · rfl
  · cases hm : mutateAccount l k (·.withdraw amount) <;> simp [hm, Except.toOption]

theorem applied_transfer (i j : AccountId) (amount : Money) (l : List Account) :
    applied (.transfer i j amount) l =
      if validate (.transfer i j amount) l then
        (mutateAccount l i (·.withdraw amount)).toOption.bind fun l' =>
          (mutateAccount l' j (·.deposit amount)).toOption
      else none := by
  unfold applied apply
  cases validate (.transfer i j amount) l
  · rfl
  · cases hw : mutateAccount l i (·.withdraw amount) with
    | error e => simp [hw, Except.toOption]
    | ok l' => cases hd : mutateAccount l' j (·.deposit amount) <;> simp [hw, hd, Except.toOption]

theorem validate_deposit (k : AccountId) (amount : Money) (l : List Account) :
    validate (.deposit k amount) l = true ↔ Open (findAccount l) k ∧ 0 < amount.cents := by
  cases h : findAccount l k <;> simp [validate, Open, Money.isPositive, h]

theorem validate_withdraw (k : AccountId) (amount : Money) (l : List Account) :
    validate (.withdraw k amount) l = true ↔
      0 < amount.cents ∧ ∃ a, findAccount l k = some a ∧ a.canWithdraw amount = true := by
  cases h : findAccount l k <;> simp [validate, Money.isPositive, h]

theorem validate_transfer (i j : AccountId) (amount : Money) (l : List Account) :
    validate (.transfer i j amount) l = true ↔
      (i ≠ j ∧ 0 < amount.cents ∧ Open (findAccount l) j) ∧
        ∃ a, findAccount l i = some a ∧ a.canWithdraw amount = true := by
  by_cases hij : i = j
  · simp [validate, hij]
  · by_cases hp : 0 < amount.cents
    · cases hi : findAccount l i <;> cases hj : findAccount l j <;>
        simp [validate, Open, hi, hj, hij, hp, Money.isPositive, Account.canWithdraw]
      tauto
    · simp [validate, hp, Money.isPositive]

theorem amend_withdraw_none {k : AccountId} {amount : Money} {m : Ledger}
    (h : ¬ ∃ a, m k = some a ∧ a.canWithdraw amount = true) : amend k (·.withdraw amount) m = none := by
  apply Option.eq_none_iff_forall_not_mem.mpr
  intro n hn
  obtain ⟨a, a', hm, hw, _⟩ := amend_eq_some.mp hn
  exact h ⟨a, hm, (Account.withdraw_ok hw).1⟩

theorem apply_post (t : Transaction) (l : List Account) :
    (applied t l).map findAccount = post t (findAccount l) := by
  cases t with
  | deposit k amount =>
    have ha := mutateAccount_amend (f := (·.deposit amount)) (fun _ _ h => (Account.deposit_ok h).1) l k
    rw [applied_deposit, post]
    simp only [validate_deposit]
    split_ifs
    · exact ha
    · rfl
  | withdraw k amount =>
    have ha := mutateAccount_amend (f := (·.withdraw amount)) (fun _ _ h => (Account.withdraw_ok h).2.1) l k
    rw [applied_withdraw, post]
    simp only [validate_withdraw]
    by_cases hp : 0 < amount.cents
    · by_cases hc : ∃ a, findAccount l k = some a ∧ a.canWithdraw amount = true
      · simpa only [hp, hc, and_self, ↓reduceIte] using ha
      · simp only [hp, hc, and_false, ↓reduceIte, Option.map_none]
        exact (amend_withdraw_none hc).symm
    · simp [hp]
  | transfer i j amount =>
    have ha := mutateAccount_amend (f := (·.withdraw amount)) (fun _ _ h => (Account.withdraw_ok h).2.1) l i
    rw [applied_transfer, post]
    simp only [validate_transfer]
    by_cases hg : i ≠ j ∧ 0 < amount.cents ∧ Open (findAccount l) j
    · by_cases hc : ∃ a, findAccount l i = some a ∧ a.canWithdraw amount = true
      · rw [if_pos ⟨hg, hc⟩, if_pos hg, ← ha, Option.map_bind, Option.bind_map]
        congr 1
        funext l'
        exact mutateAccount_amend (fun _ _ h => (Account.deposit_ok h).1) l' j
      · rw [if_neg (fun h => hc h.2), if_pos hg, amend_withdraw_none hc]
        rfl
    · rw [if_neg (fun h => hg h.1), if_neg hg]
      rfl

theorem toOption_eq_some {α : Type} {x : Except Exn α} {y : α} : x.toOption = some y ↔ x = .ok y := by
  cases x <;> simp [Except.toOption]

theorem applied_ids {t : Transaction} {l l' : List Account} (h : applied t l = some l') :
    l'.map (·.id) = l.map (·.id) := by
  cases t with
  | deposit k amount =>
    rw [applied_deposit] at h
    split_ifs at h
    exact mutateAccount_ids (fun _ _ h => (Account.deposit_ok h).1) (toOption_eq_some.mp h)
  | withdraw k amount =>
    rw [applied_withdraw] at h
    split_ifs at h
    exact mutateAccount_ids (fun _ _ h => (Account.withdraw_ok h).2.1) (toOption_eq_some.mp h)
  | transfer i j amount =>
    rw [applied_transfer] at h
    split_ifs at h
    obtain ⟨ld, hw, hd⟩ := Option.bind_eq_some_iff.mp h
    rw [mutateAccount_ids (fun _ _ h => (Account.deposit_ok h).1) (toOption_eq_some.mp hd),
      mutateAccount_ids (fun _ _ h => (Account.withdraw_ok h).2.1) (toOption_eq_some.mp hw)]

theorem mem_iff_findAccount {l : List Account} (h : (l.map (·.id)).Nodup) (a : Account) :
    a ∈ l ↔ findAccount l a.id = some a := by
  constructor
  · intro ha
    induction l with
    | nil => cases ha
    | cons b l ih =>
      obtain ⟨hb, hl⟩ := List.nodup_cons.mp h
      rw [findAccount_cons]
      rcases List.mem_cons.mp ha with rfl | ha
      · exact Function.update_self _ _ _
      · have hne : a.id ≠ b.id := fun he => hb (List.mem_map.mpr ⟨a, ha, he⟩)
        rw [Function.update_of_ne hne, ih hl ha]
  · exact List.mem_of_find?_eq_some

theorem perm_of_findAccount {l l' : List Account} (hl : (l.map (·.id)).Nodup) (hl' : (l'.map (·.id)).Nodup)
    (h : findAccount l = findAccount l') : l.Perm l' := by
  rw [List.perm_ext_iff_of_nodup (List.Nodup.of_map _ hl) (List.Nodup.of_map _ hl')]
  intro a
  rw [mem_iff_findAccount hl, mem_iff_findAccount hl', h]

end BankManagement
