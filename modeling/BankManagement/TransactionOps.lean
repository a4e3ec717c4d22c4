import BankManagement.Domain

namespace BankManagement

open Transaction

def findAccount (accounts : List Account) (id : AccountId) : Option Account :=
  accounts.find? (fun a => a.id == id)

def mutateAccount (accounts : List Account) (id : AccountId)
    (f : Account → Except Exn Account) : Except Exn (List Account) :=
  match accounts with
  | [] => .error "apply: involved account missing from span"
  | a :: rest =>
    if a.id == id then match f a with
      | .error e => .error e
      | .ok a' => .ok (a' :: rest)
    else match mutateAccount rest id f with
      | .error e => .error e
      | .ok rest' => .ok (a :: rest')

def validate (t : Transaction) (accounts : List Account) : Bool :=
  match t with
  | .deposit k amount => match findAccount accounts k with
    | none => false
    | some target => decide (target.status = .active) && amount.isPositive
  | .withdraw k amount => match findAccount accounts k with
    | none => false
    | some source => amount.isPositive && source.canWithdraw amount
  | .transfer fromId toId amount =>
    if fromId == toId || !amount.isPositive then false
    else match findAccount accounts fromId, findAccount accounts toId with
      | some debit, some credit =>
        decide (debit.status = .active) && decide (credit.status = .active) &&
          debit.balance.canSubtract amount
      | _, _ => false

/-- The span after the call together with what was thrown, if anything. A transfer debits
first, so a failing credit leaves the debited account behind. -/
def apply (t : Transaction) (accounts : List Account) : Except Exn Unit × List Account :=
  if !validate t accounts then (.error "apply: transaction violates bank rules", accounts)
  else match t with
  | .deposit k amount => match mutateAccount accounts k (·.deposit amount) with
    | .error e => (.error e, accounts)
    | .ok accounts' => (.ok (), accounts')
  | .withdraw k amount => match mutateAccount accounts k (·.withdraw amount) with
    | .error e => (.error e, accounts)
    | .ok accounts' => (.ok (), accounts')
  | .transfer fromId toId amount => match mutateAccount accounts fromId (·.withdraw amount) with
    | .error e => (.error e, accounts)
    | .ok debited => match mutateAccount debited toId (·.deposit amount) with
      | .error e => (.error e, debited)
      | .ok accounts' => (.ok (), accounts')

def applied (t : Transaction) (accounts : List Account) : Option (List Account) :=
  match apply t accounts with
  | (.ok (), accounts') => some accounts'
  | (.error _, _) => none

theorem applied_eq_some {t : Transaction} {accounts accounts' : List Account} :
    applied t accounts = some accounts' ↔ apply t accounts = (.ok (), accounts') := by
  unfold applied
  rcases apply t accounts with ⟨_ | ⟨⟩, l⟩ <;> simp

theorem applied_eq_none {t : Transaction} {accounts : List Account} :
    applied t accounts = none ↔ ∃ e, (apply t accounts).1 = .error e := by
  unfold applied
  rcases apply t accounts with ⟨_ | ⟨⟩, l⟩ <;> simp

theorem Money.plus_ok {m other sum : Money} (h : m.plus other = .ok sum) :
    sum.cents = m.cents + other.cents := by
  unfold Money.plus at h
  split_ifs at h
  rw [← Except.ok.inj h]

theorem Money.minus_ok {m other rest : Money} (h : m.minus other = .ok rest) :
    other.cents ≤ m.cents ∧ rest.cents = m.cents - other.cents := by
  unfold Money.minus at h
  split_ifs at h with hlt
  rw [← Except.ok.inj h]
  exact ⟨by omega, rfl⟩

theorem Account.deposit_ok {a a' : Account} {amount : Money} (h : a.deposit amount = .ok a') :
    a'.id = a.id ∧ a'.ownerId = a.ownerId ∧ a'.status = a.status ∧
      a'.balance.cents = a.balance.cents + amount.cents := by
  unfold Account.deposit at h
  split_ifs at h with hz
  · obtain rfl := Except.ok.inj h
    simp [hz]
  · cases hp : a.balance.plus amount with
    | error e => simp [hp] at h
    | ok sum =>
      simp only [hp, Except.ok.injEq] at h
      subst h
      exact ⟨rfl, rfl, rfl, Money.plus_ok hp⟩

theorem Account.withdraw_ok {a a' : Account} {amount : Money} (h : a.withdraw amount = .ok a') :
    a.canWithdraw amount = true ∧ a'.id = a.id ∧ a'.ownerId = a.ownerId ∧ a'.status = a.status ∧
      a'.balance.cents + amount.cents = a.balance.cents := by
  unfold Account.withdraw at h
  split_ifs at h with hs hc
  cases hm : a.balance.minus amount with
  | error e => simp [hm] at h
  | ok rest =>
    simp only [hm, Except.ok.injEq] at h
    subst h
    obtain ⟨hle, hr⟩ := Money.minus_ok hm
    refine ⟨?_, rfl, rfl, rfl, by simp only [hr]; omega⟩
    simp only [ne_eq, Decidable.not_not] at hs
    simpa [Account.canWithdraw, hs] using hc

theorem Account.withdraw_of_can {a : Account} {amount : Money} (h : a.canWithdraw amount = true) :
    ∃ a', a.withdraw amount = .ok a' := by
  simp only [Account.canWithdraw, Money.canSubtract, Bool.and_eq_true, decide_eq_true_eq] at h
  have hle : ¬ amount.cents > a.balance.cents := by omega
  simp [Account.withdraw, Money.canSubtract, Money.minus, h.1, h.2, hle]

theorem mutateAccount_owners {f : Account → Except Exn Account} (hf : ∀ a a', f a = .ok a' → a'.ownerId = a.ownerId)
    {l l' : List Account} {k : AccountId} (h : mutateAccount l k f = .ok l') : l'.map (·.ownerId) = l.map (·.ownerId) := by
  induction l generalizing l' with
  | nil => simp [mutateAccount] at h
  | cons a l ih =>
    unfold mutateAccount at h
    split_ifs at h
    · cases ha : f a with
      | error e => simp [ha] at h
      | ok a' =>
        obtain rfl : a' :: l = l' := by simpa [ha] using h
        simp [hf a a' ha]
    · cases hm : mutateAccount l k f with
      | error e => simp [hm] at h
      | ok l'' =>
        obtain rfl : a :: l'' = l' := by simpa [hm] using h
        simp [ih hm]

theorem apply_owners {txn : Transaction} {l l' : List Account} (h : apply txn l = (.ok (), l')) :
    l'.map (·.ownerId) = l.map (·.ownerId) := by
  have hdeposit (amount : Money) (a a' : Account) (ha : a.deposit amount = .ok a') : a'.ownerId = a.ownerId :=
    (Account.deposit_ok ha).2.1
  have hwithdraw (amount : Money) (a a' : Account) (ha : a.withdraw amount = .ok a') : a'.ownerId = a.ownerId :=
    (Account.withdraw_ok ha).2.2.1
  unfold apply at h
  split_ifs at h
  · cases h
  · cases txn with
    | deposit k amount =>
      cases hm : mutateAccount l k (·.deposit amount) with
      | error what => simp [hm] at h
      | ok l₁ =>
        simp only [hm, Prod.mk.injEq, true_and] at h
        exact h ▸ mutateAccount_owners (hdeposit amount) hm
    | withdraw k amount =>
      cases hm : mutateAccount l k (·.withdraw amount) with
      | error what => simp [hm] at h
      | ok l₁ =>
        simp only [hm, Prod.mk.injEq, true_and] at h
        exact h ▸ mutateAccount_owners (hwithdraw amount) hm
    | transfer fromId toId amount =>
      cases hm : mutateAccount l fromId (·.withdraw amount) with
      | error what => simp [hm] at h
      | ok debited =>
        cases hm' : mutateAccount debited toId (·.deposit amount) with
        | error what => simp [hm, hm'] at h
        | ok l₁ =>
          simp only [hm, hm', Prod.mk.injEq, true_and] at h
          exact h ▸ (mutateAccount_owners (hdeposit amount) hm').trans (mutateAccount_owners (hwithdraw amount) hm)

end BankManagement
