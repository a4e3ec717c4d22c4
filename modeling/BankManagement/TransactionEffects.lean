import BankManagement.Ledger
import Mathlib.Algebra.BigOperators.Group.List.Basic

namespace BankManagement

open Transaction Ledger

def place (accounts : List Account) (id : AccountId) : Option ℕ := accounts.findIdx? (fun a => a.id == id)

def spanTotal (accounts : List Account) : Int := (accounts.map fun a => (a.balance.cents : Int)).sum

def Transaction.inflow : Transaction → Int
  | .deposit _ amount => amount.cents
  | .withdraw _ amount => -amount.cents
  | .transfer .. => 0

def CreditOverflows (t : Transaction) (accounts : List Account) : Prop :=
  ∃ k a, t.creditAccount = some k ∧ findAccount accounts k = some a ∧
    2 ^ 63 - 1 < a.balance.cents + t.amountOf.cents

structure Moved (amount : Int) (a a' : Account) : Prop where
  balance : (a'.balance.cents : Int) = a.balance.cents + amount
  version : a'.version = a.version + 1
  id : a'.id = a.id
  ownerId : a'.ownerId = a.ownerId
  status : a'.status = a.status

structure Leg (k : AccountId) (amount : Int) (accounts accounts' : List Account) (i : ℕ) (a a' : Account) : Prop where
  place : place accounts k = some i
  found : findAccount accounts k = some a
  before : accounts[i]? = some a
  after : accounts'[i]? = some a'
  moved : Moved amount a a'

structure LedgerEffect (t : Transaction) (accounts accounts' : List Account) : Prop where
  length : accounts'.length = accounts.length
  debit : ∀ k ∈ t.debitAccount, ∃ i a a', Leg k (-t.amountOf.cents) accounts accounts' i a a'
  credit : ∀ k ∈ t.creditAccount, ∃ i a a', Leg k t.amountOf.cents accounts accounts' i a a'
  others : ∀ i, (∀ k ∈ t.involvedAccounts, BankManagement.place accounts k ≠ some i) → accounts'[i]? = accounts[i]?
  bounded : ∀ a ∈ accounts', a.balance.cents ≤ 2 ^ 63 - 1
  total : spanTotal accounts' = spanTotal accounts + t.inflow

variable {t : Transaction} {accounts accounts' : List Account} {k j : AccountId} {a a' : Account} {amount : Money}

theorem Account.deposit_moved (hp : 0 < amount.cents) (h : a.deposit amount = .ok a') : Moved amount.cents a a' := by
  obtain ⟨hid, howner, hstatus, hbalance⟩ := Account.deposit_ok h
  refine ⟨by rw [hbalance, Int.natCast_add], ?_, hid, howner, hstatus⟩
  unfold Account.deposit at h
  rw [if_neg (Nat.pos_iff_ne_zero.mp hp)] at h
  cases hplus : a.balance.plus amount with
  | error e => simp [hplus] at h
  | ok sum =>
    simp only [hplus, Except.ok.injEq] at h
    rw [← h]

theorem Account.withdraw_moved (h : a.withdraw amount = .ok a') : Moved (-amount.cents) a a' := by
  obtain ⟨hcan, hid, howner, hstatus, hbalance⟩ := Account.withdraw_ok h
  refine ⟨by omega, ?_, hid, howner, hstatus⟩
  unfold Account.withdraw at h
  split_ifs at h
  cases hminus : a.balance.minus amount with
  | error e => simp [hminus] at h
  | ok rest =>
    simp only [hminus, Except.ok.injEq] at h
    rw [← h]

theorem Account.deposit_isOk : (∃ a', a.deposit amount = .ok a') ↔ a.balance.cents + amount.cents ≤ 2 ^ 63 - 1 := by
  have hlt := a.balance.lt
  unfold Account.deposit Money.plus
  split_ifs with hz hover
  · constructor
    · intro _
      omega
    · intro _
      exact ⟨a, rfl⟩
  · constructor
    · rintro ⟨_, ⟨⟩⟩
    · intro hle
      omega
  · constructor
    · intro _
      omega
    · intro _
      exact ⟨_, rfl⟩

theorem findAccount_place {i : ℕ} (h : place accounts k = some i) : findAccount accounts k = accounts[i]? := by
  obtain ⟨hi, hk, hbefore⟩ := List.findIdx?_eq_some_iff_getElem.mp h
  rw [List.getElem?_eq_getElem hi]
  apply List.find?_eq_some_iff_getElem.mpr
  exact ⟨hk, i, hi, rfl, fun j hj => by simpa using hbefore j hj⟩

theorem place_ids (h : accounts'.map (·.id) = accounts.map (·.id)) (k : AccountId) :
    place accounts' k = place accounts k := by
  have hmap (l : List Account) : place l k = (l.map (·.id)).findIdx? (fun id => id == k) := by
    rw [List.findIdx?_map]
    rfl
  rw [hmap, hmap, h]

theorem mutateAccount_place {f : Account → Except Exn Account} (h : mutateAccount accounts k f = .ok accounts') :
    ∃ i a a', place accounts k = some i ∧ accounts[i]? = some a ∧ f a = .ok a' ∧ accounts' = accounts.set i a' := by
  induction accounts generalizing accounts' with
  | nil => cases h
  | cons b rest ih =>
    unfold mutateAccount at h
    unfold place
    rw [List.findIdx?_cons]
    split_ifs at h ⊢ with hk
    · cases hf : f b with
      | error e => simp [hf] at h
      | ok b' =>
        obtain rfl : b' :: rest = accounts' := by simpa [hf] using h
        exact ⟨0, b, b', rfl, rfl, hf, rfl⟩
    · cases hm : mutateAccount rest k f with
      | error e => simp [hm] at h
      | ok rest' =>
        obtain rfl : b :: rest' = accounts' := by simpa [hm] using h
        obtain ⟨i, a, a', hplace, hget, hf, rfl⟩ := ih hm
        unfold place at hplace
        exact ⟨i + 1, a, a', by rw [hplace]; rfl, by simpa using hget, hf, rfl⟩

structure Mutated (k : AccountId) (amount : Int) (accounts accounts' : List Account) : Prop where
  leg : ∃ i a a', Leg k amount accounts accounts' i a a' ∧ accounts' = accounts.set i a'
  ids : accounts'.map (·.id) = accounts.map (·.id)
  total : spanTotal accounts' = spanTotal accounts + amount

theorem mutated_of_ok {f : Account → Except Exn Account} {d : Int} (hf : ∀ a a', f a = .ok a' → Moved d a a')
    (h : mutateAccount accounts k f = .ok accounts') : Mutated k d accounts accounts' := by
  have hids := mutateAccount_ids (fun a a' ha => (hf a a' ha).id) h
  obtain ⟨i, a, a', hplace, hget, ha, rfl⟩ := mutateAccount_place h
  obtain ⟨hi, hget'⟩ := List.getElem?_eq_some_iff.mp hget
  have hmoved := hf a a' ha
  refine ⟨⟨i, a, a', ⟨hplace, (findAccount_place hplace).trans hget, hget, ?_, hmoved⟩, rfl⟩, hids, ?_⟩
  · exact List.getElem?_set_self hi
  · unfold spanTotal
    rw [List.map_set, List.sum_set', dif_pos (by simpa using hi), List.getElem_map, hget', hmoved.balance]
    omega

theorem Mutated.others {d : Int} (h : Mutated k d accounts accounts') {i : ℕ} (hi : place accounts k ≠ some i) :
    accounts'[i]? = accounts[i]? := by
  obtain ⟨l, a, a', hleg, rfl⟩ := h.leg
  apply List.getElem?_set_ne
  rintro rfl
  exact hi hleg.place

theorem mem_involvedAccounts : k ∈ t.involvedAccounts ↔ t.debitAccount = some k ∨ t.creditAccount = some k := by
  cases t with
  | deposit j amount => simp [involvedAccounts, debitAccount, creditAccount, pushUnique, eq_comm]
  | withdraw j amount => simp [involvedAccounts, debitAccount, creditAccount, pushUnique, eq_comm]
  | transfer i j amount =>
    rw [involvedAccounts_transfer]
    split_ifs with h
    · simp [debitAccount, creditAccount, h, eq_comm]
    · simp [debitAccount, creditAccount, eq_comm]

theorem place_ne (h : j ≠ k) {i : ℕ} (hi : place accounts k = some i) : place accounts j ≠ some i := by
  intro hj
  obtain ⟨hlt, _⟩ := List.findIdx?_eq_some_iff_getElem.mp hi
  have hget : accounts[i]? = some accounts[i] := List.getElem?_eq_getElem hlt
  apply h
  exact (findAccount_id ((findAccount_place hj).trans hget)).symm.trans
    (findAccount_id ((findAccount_place hi).trans hget))

theorem Mutated.effect (h : Mutated k (t.inflow) accounts accounts') (hother : ∀ j ∈ t.involvedAccounts, j = k)
    (hdebit : ∀ j ∈ t.debitAccount, t.inflow = -t.amountOf.cents)
    (hcredit : ∀ j ∈ t.creditAccount, t.inflow = t.amountOf.cents)
    (hk : k ∈ t.involvedAccounts) : LedgerEffect t accounts accounts' where
  length := by simpa using congrArg List.length h.ids
  debit j hj := by
    obtain ⟨i, a, a', hleg, _⟩ := h.leg
    obtain rfl := hother j (mem_involvedAccounts.mpr (.inl hj))
    rw [hdebit j hj] at hleg
    exact ⟨i, a, a', hleg⟩
  credit j hj := by
    obtain ⟨i, a, a', hleg, _⟩ := h.leg
    obtain rfl := hother j (mem_involvedAccounts.mpr (.inr hj))
    rw [hcredit j hj] at hleg
    exact ⟨i, a, a', hleg⟩
  others i hi := h.others (hi k hk)
  bounded a _ := Nat.le_sub_one_of_lt a.balance.lt
  total := h.total

theorem transfer_effect {i j : AccountId} {mid : List Account} (hij : i ≠ j)
    (hw : Mutated i (-amount.cents) accounts mid) (hd : Mutated j amount.cents mid accounts') :
    LedgerEffect (.transfer i j amount) accounts accounts' := by
  have hplace (k : AccountId) : place mid k = place accounts k := place_ids hw.ids k
  refine ⟨?_, ?_, ?_, ?_, ?_, ?_⟩
  · simpa using congrArg List.length (hd.ids.trans hw.ids)
  · rintro k ⟨⟩
    obtain ⟨l, a, a', hleg, _⟩ := hw.leg
    refine ⟨l, a, a', hleg.place, hleg.found, hleg.before, ?_, hleg.moved⟩
    rw [hd.others, hleg.after]
    rw [hplace]
    exact place_ne (Ne.symm hij) hleg.place
  · rintro k ⟨⟩
    obtain ⟨l, a, a', hleg, _⟩ := hd.leg
    have hl : place accounts j = some l := (hplace j).symm.trans hleg.place
    have hbefore : accounts[l]? = some a := (hw.others (place_ne hij hl)).symm.trans hleg.before
    exact ⟨l, a, a', hl, (findAccount_place hl).trans hbefore, hbefore, hleg.after, hleg.moved⟩
  · intro l hl
    have hi : place accounts i ≠ some l := hl i (mem_involvedAccounts.mpr (.inl rfl))
    have hj : place mid j ≠ some l := by
      rw [hplace]
      exact hl j (mem_involvedAccounts.mpr (.inr rfl))
    rw [hd.others hj, hw.others hi]
  · intro a _
    exact Nat.le_sub_one_of_lt a.balance.lt
  · rw [hd.total, hw.total]
    change spanTotal accounts + -amount.cents + amount.cents = spanTotal accounts + 0
    omega

/-- A call that returns has moved the amount between the accounts it names, and done nothing else. -/
theorem apply_effect (h : apply t accounts = (.ok (), accounts')) : LedgerEffect t accounts accounts' := by
  have happlied := applied_eq_some.mpr h
  cases t with
  | deposit k amount =>
    rw [applied_deposit] at happlied
    split_ifs at happlied with hv
    have hp := ((validate_deposit k amount accounts).mp hv).2
    have hm := mutated_of_ok (fun _ _ ha => Account.deposit_moved hp ha) (toOption_eq_some.mp happlied)
    apply Mutated.effect (t := .deposit k amount) hm
    · intro j hj
      simpa [mem_involvedAccounts, debitAccount, creditAccount, eq_comm] using hj
    · rintro j ⟨⟩
    · rintro j ⟨⟩
      rfl
    · exact mem_involvedAccounts.mpr (.inr rfl)
  | withdraw k amount =>
    rw [applied_withdraw] at happlied
    split_ifs at happlied with hv
    have hm := mutated_of_ok (fun _ _ ha => Account.withdraw_moved ha) (toOption_eq_some.mp happlied)
    apply Mutated.effect (t := .withdraw k amount) hm
    · intro j hj
      simpa [mem_involvedAccounts, debitAccount, creditAccount, eq_comm] using hj
    · rintro j ⟨⟩
      rfl
    · rintro j ⟨⟩
    · exact mem_involvedAccounts.mpr (.inl rfl)
  | transfer i j amount =>
    rw [applied_transfer] at happlied
    split_ifs at happlied with hv
    obtain ⟨⟨hij, hp, _⟩, _⟩ := (validate_transfer i j amount accounts).mp hv
    obtain ⟨mid, hw, hd⟩ := Option.bind_eq_some_iff.mp happlied
    apply transfer_effect hij
    · exact mutated_of_ok (fun _ _ ha => Account.withdraw_moved ha) (toOption_eq_some.mp hw)
    · exact mutated_of_ok (fun _ _ ha => Account.deposit_moved hp ha) (toOption_eq_some.mp hd)

def someSpan : List Account :=
  [⟨2, 7, 1, .active, 4⟩, ⟨9, 7, 100, .closed, 0⟩, ⟨1, 8, 9223372036854775807, .active, 0⟩, ⟨2, 6, 0, .frozen, 3⟩]

theorem someSpan_effect : LedgerEffect (.transfer 1 2 9223372036854775806) someSpan
    [⟨2, 7, 9223372036854775807, .active, 5⟩, ⟨9, 7, 100, .closed, 0⟩, ⟨1, 8, 1, .active, 1⟩, ⟨2, 6, 0, .frozen, 3⟩] :=
  apply_effect (by decide)

theorem deposit_or_withdraw_kept {f : Account → Except Exn Account} {e : Exn} {l : List Account}
    (h : (match mutateAccount accounts k f with
      | .error e => (.error e, accounts)
      | .ok accounts' => (.ok (), accounts') : Except Exn Unit × List Account) = (.error e, l)) : l = accounts := by
  cases hm : mutateAccount accounts k f with
  | error e' =>
    rw [hm] at h
    exact (Prod.mk.inj h).2.symm
  | ok l' =>
    rw [hm] at h
    cases h

theorem amend_deposit_isSome {m : Ledger} (h : m k = some a) :
    (amend k (·.deposit amount) m).isSome = true ↔ a.balance.cents + amount.cents ≤ 2 ^ 63 - 1 := by
  rw [← Account.deposit_isOk, Option.isSome_iff_exists]
  constructor
  · rintro ⟨n, hn⟩
    obtain ⟨b, b', hb, hdeposit, _⟩ := amend_eq_some.mp hn
    obtain rfl := Option.some.inj (h.symm.trans hb)
    exact ⟨b', hdeposit⟩
  · rintro ⟨a', ha⟩
    exact ⟨_, amend_eq_some.mpr ⟨a, a', h, ha, rfl⟩⟩

theorem applied_isSome : (applied t accounts).isSome = true ↔
    validate t accounts = true ∧ ¬ CreditOverflows t accounts := by
  rw [← Option.isSome_map (f := findAccount), apply_post]
  cases t with
  | deposit k amount =>
    rw [validate_deposit, post]
    dsimp only
    by_cases hg : Open (findAccount accounts) k ∧ 0 < amount.cents
    · obtain ⟨a, ha, _⟩ := Option.map_eq_some_iff.mp hg.1
      rw [if_pos hg, amend_deposit_isSome ha]
      simp [hg, CreditOverflows, creditAccount, amountOf, ha]
    · rw [if_neg hg]
      simp [hg]
  | withdraw k amount =>
    rw [validate_withdraw, post]
    dsimp only
    by_cases hp : 0 < amount.cents
    · by_cases hc : ∃ a, findAccount accounts k = some a ∧ a.canWithdraw amount = true
      · obtain ⟨a, ha, hcan⟩ := hc
        obtain ⟨a', hw⟩ := Account.withdraw_of_can hcan
        have hs : amend k (·.withdraw amount) (findAccount accounts) = some _ :=
          amend_eq_some.mpr ⟨a, a', ha, hw, rfl⟩
        simp [hp, hs, ha, hcan, CreditOverflows, creditAccount]
      · simp [hp, hc, amend_withdraw_none hc]
    · simp [hp]
  | transfer i j amount =>
    rw [validate_transfer, post]
    dsimp only
    by_cases hg : i ≠ j ∧ 0 < amount.cents ∧ Open (findAccount accounts) j
    · rw [if_pos hg]
      by_cases hc : ∃ a, findAccount accounts i = some a ∧ a.canWithdraw amount = true
      · obtain ⟨a, ha, hcan⟩ := hc
        obtain ⟨a', hw⟩ := Account.withdraw_of_can hcan
        obtain ⟨c, hcredit, _⟩ := Option.map_eq_some_iff.mp hg.2.2
        have hs : amend i (·.withdraw amount) (findAccount accounts) =
            some (Function.update (findAccount accounts) i (some a')) := amend_eq_some.mpr ⟨a, a', ha, hw, rfl⟩
        have hj : Function.update (findAccount accounts) i (some a') j = some c := by
          rw [Function.update_of_ne (Ne.symm hg.1), hcredit]
        rw [hs, Option.bind_some, amend_deposit_isSome hj]
        simp [hg, ha, hcan, CreditOverflows, creditAccount, amountOf, hcredit]
      · simp [hc, amend_withdraw_none hc]
    · rw [if_neg hg]
      simp [hg]

/-- `apply` throws where `validate` refuses and where the credit overflows. A transfer has been debited by
then, which the caller is to make good; otherwise a throw leaves the span as it was. -/
theorem apply_throws (t : Transaction) (accounts : List Account) :
    ((∃ e, (apply t accounts).1 = .error e) ↔ validate t accounts = false ∨ CreditOverflows t accounts) ∧
    ∀ e accounts', apply t accounts = (.error e, accounts') → accounts' = accounts ∨
      ∃ i j amount, t = .transfer i j amount ∧ CreditOverflows t accounts ∧
        ∃ l a a', Leg i (-amount.cents) accounts accounts' l a a' ∧ accounts' = accounts.set l a' := by
  have hthrows : (∃ e, (apply t accounts).1 = .error e) ↔ validate t accounts = false ∨ CreditOverflows t accounts := by
    rw [← applied_eq_none, ← Option.not_isSome_iff_eq_none, applied_isSome]
    cases validate t accounts <;> simp
  refine ⟨hthrows, ?_⟩
  intro e accounts' h
  cases hv : validate t accounts with
  | false =>
    left
    unfold apply at h
    rw [hv] at h
    exact (Prod.mk.inj h).2.symm
  | true =>
    have hover : CreditOverflows t accounts := by
      apply (hthrows.mp ⟨e, congrArg Prod.fst h⟩).resolve_left
      simp [hv]
    unfold apply at h
    rw [hv] at h
    cases t with
    | deposit k amount => exact .inl (deposit_or_withdraw_kept h)
    | withdraw k amount => exact .inl (deposit_or_withdraw_kept h)
    | transfer i j amount =>
      simp only [Bool.not_true, Bool.false_eq_true, ↓reduceIte] at h
      cases hw : mutateAccount accounts i (·.withdraw amount) with
      | error e' =>
        left
        simp only [hw] at h
        exact (Prod.mk.inj h).2.symm
      | ok debited =>
        right
        simp only [hw] at h
        have hspan : accounts' = debited := by
          cases hd : mutateAccount debited j (·.deposit amount) with
          | error e' =>
            simp only [hd] at h
            exact (Prod.mk.inj h).2.symm
          | ok l =>
            simp only [hd] at h
            cases h
        obtain ⟨l, a, a', hleg, hset⟩ := (mutated_of_ok (fun _ _ ha => Account.withdraw_moved ha) hw).leg
        rw [hspan]
        exact ⟨i, j, amount, rfl, hover, l, a, a', hleg, hset⟩

def fullSpan : List Account := [⟨1, 7, 5, .active, 0⟩, ⟨2, 8, 9223372036854775807, .active, 0⟩]

theorem fullSpan_debited :
    ¬ ((∃ e, (apply (.transfer 1 2 5) fullSpan).1 = .error e) ↔ validate (.transfer 1 2 5) fullSpan = false) ∧
    ¬ ∀ e accounts', apply (.transfer 1 2 5) fullSpan = (.error e, accounts') → accounts' = fullSpan := by
  have happly : apply (.transfer 1 2 5) fullSpan =
      (.error "Money: addition overflow", [⟨1, 7, 0, .active, 1⟩, ⟨2, 8, 9223372036854775807, .active, 0⟩]) := by decide
  have hvalid : validate (.transfer 1 2 5) fullSpan = true := by decide
  constructor
  · intro hiff
    have hfalse := hiff.mp ⟨_, congrArg Prod.fst happly⟩
    rw [hvalid] at hfalse
    cases hfalse
  · intro hkept
    exact absurd (hkept _ _ happly) (by decide)

end BankManagement
