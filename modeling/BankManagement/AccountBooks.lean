import BankManagement.Repositories
import Mathlib.Algebra.BigOperators.Group.List.Basic
import Mathlib.Data.List.Nodup

namespace BankManagement

namespace TransactionRecord

def credit (k : AccountId) (r : TransactionRecord) : Int := if r.toId = some k then r.amount.cents else 0

def debit (k : AccountId) (r : TransactionRecord) : Int := if r.fromId = some k then r.amount.cents else 0

def Records (r : TransactionRecord) (t : Transaction) : Prop :=
  r.type = t.typeOf ∧ r.fromId = t.debitAccount ∧ r.toId = t.creditAccount ∧ r.amount = t.amountOf

end TransactionRecord

def credited (k : AccountId) (records : List TransactionRecord) : Int := (records.map (·.credit k)).sum

def debited (k : AccountId) (records : List TransactionRecord) : Int := (records.map (·.debit k)).sum

def totalOf (type : TransactionType) (records : List TransactionRecord) : Int :=
  ((records.filter (fun r => decide (r.type = type))).map (fun r => (r.amount.cents : Int))).sum

theorem legs_footprint (t : Transaction) :
    (∀ k ∈ t.creditAccount, k ∈ Ledger.footprint t) ∧ ∀ k ∈ t.debitAccount, k ∈ Ledger.footprint t := by
  cases t <;> simp [Ledger.footprint, Transaction.involvedAccounts, Transaction.debitAccount, Transaction.creditAccount,
    Transaction.pushUnique]
  split_ifs with he <;> simp [he]

def AccountRepository.total (repo : AccountRepository) : Int := (repo.all.map (fun a => (a.balance.cents : Int))).sum

namespace Ledger

open Transaction TransactionRecord

def Shifts (d : AccountId → Int) (m n : Ledger) : Prop :=
  ∀ k, (n k).map (fun a => (a.balance.cents : Int)) = (m k).map (fun a => (a.balance.cents : Int) + d k)

variable {d e : AccountId → Int} {m n p : Ledger} {t : Transaction} {r : TransactionRecord}
variable {records : List TransactionRecord} {k : AccountId}

theorem Shifts.refl (m : Ledger) : Shifts (fun _ => 0) m m := by
  intro k
  simp only [Int.add_zero]

theorem Shifts.trans (h : Shifts d m n) (h' : Shifts e n p) : Shifts (fun k => d k + e k) m p := by
  intro k
  have hp := h' k
  have hn := h k
  cases hm : m k <;> cases hk : n k <;> cases hpk : p k <;> simp_all
  omega

theorem Shifts.isSome (h : Shifts d m n) (k : AccountId) : (n k).isSome = (m k).isSome := by
  rw [← Option.isSome_map, h k, Option.isSome_map]

theorem Shifts.congr (h : Shifts d m n) (he : ∀ k, d k = e k) : Shifts e m n := by
  intro k
  rw [h k, he k]

theorem update_shifts {a a' : Account} {x : Int} (hm : m k = some a)
    (hx : (a'.balance.cents : Int) = a.balance.cents + x) :
    Shifts (fun j => if j = k then x else 0) m (Function.update m k (some a')) := by
  intro j
  by_cases hj : j = k
  · subst hj
    simp only [Function.update_self, hm, Option.map_some, ↓reduceIte, hx]
  · simp only [Function.update_of_ne hj, if_neg hj, Int.add_zero]

theorem amend_shifts {f : Account → Except Exn Account} {x : Int}
    (hf : ∀ a a', f a = .ok a' → (a'.balance.cents : Int) = a.balance.cents + x) (h : amend k f m = some n) :
    Shifts (fun j => if j = k then x else 0) m n := by
  obtain ⟨a, a', hm, hfa, rfl⟩ := amend_eq_some.mp h
  exact update_shifts hm (hf a a' hfa)

theorem deposit_shifts {amount : Money} (h : amend k (·.deposit amount) m = some n) :
    Shifts (fun j => if j = k then (amount.cents : Int) else 0) m n := by
  apply amend_shifts _ h
  intro a a' ha
  rw [(Account.deposit_ok ha).2.2.2, Int.natCast_add]

theorem withdraw_shifts {amount : Money} (h : amend k (·.withdraw amount) m = some n) :
    Shifts (fun j => if j = k then -(amount.cents : Int) else 0) m n := by
  apply amend_shifts _ h
  intro a a' ha
  have hcents := (Account.withdraw_ok ha).2.2.2.2
  omega

theorem post_shifts (h : post t m = some n) (hr : r.Records t) :
    Shifts (fun k => r.credit k - r.debit k) m n := by
  obtain ⟨-, hfrom, hto, hamount⟩ := hr
  unfold credit debit
  rw [hfrom, hto, hamount]
  cases t with
  | deposit j amount =>
    obtain ⟨-, h⟩ := Option.ite_none_right_eq_some.mp h
    refine (deposit_shifts h).congr fun k => ?_
    simp [creditAccount, debitAccount, amountOf, eq_comm]
  | withdraw j amount =>
    obtain ⟨-, h⟩ := Option.ite_none_right_eq_some.mp h
    refine (withdraw_shifts h).congr fun k => ?_
    by_cases hk : k = j
    · simp [creditAccount, debitAccount, amountOf, hk]
    · simp [creditAccount, debitAccount, hk, Ne.symm hk]
  | transfer i j amount =>
    obtain ⟨-, h⟩ := Option.ite_none_right_eq_some.mp h
    obtain ⟨p, hi, hj⟩ := Option.bind_eq_some_iff.mp h
    refine ((withdraw_shifts hi).trans (deposit_shifts hj)).congr fun k => ?_
    simp only [creditAccount, debitAccount, amountOf, Option.some.injEq, eq_comm (b := k)]
    split_ifs <;> omega

theorem amend_status {f : Account → Except Exn Account} (hf : ∀ a a', f a = .ok a' → a'.status = a.status)
    (h : amend k f m = some n) (j : AccountId) : (n j).map (·.status) = (m j).map (·.status) := by
  obtain ⟨a, a', hm, hfa, rfl⟩ := amend_eq_some.mp h
  by_cases hj : j = k
  · rw [hj, Function.update_self, hm, Option.map_some, Option.map_some, hf a a' hfa]
  · rw [Function.update_of_ne hj]

theorem post_status (h : post t m = some n) (j : AccountId) : (n j).map (·.status) = (m j).map (·.status) := by
  cases t with
  | deposit k amount =>
    obtain ⟨-, h⟩ := Option.ite_none_right_eq_some.mp h
    exact amend_status (fun _ _ hd => (Account.deposit_ok hd).2.2.1) h j
  | withdraw k amount =>
    obtain ⟨-, h⟩ := Option.ite_none_right_eq_some.mp h
    exact amend_status (fun _ _ hw => (Account.withdraw_ok hw).2.2.2.1) h j
  | transfer i k amount =>
    obtain ⟨-, h⟩ := Option.ite_none_right_eq_some.mp h
    obtain ⟨p, hi, hk⟩ := Option.bind_eq_some_iff.mp h
    rw [amend_status (fun _ _ hd => (Account.deposit_ok hd).2.2.1) hk j]
    exact amend_status (fun _ _ hw => (Account.withdraw_ok hw).2.2.2.1) hi j

theorem credited_append (k : AccountId) (records : List TransactionRecord) (r : TransactionRecord) :
    credited k (records ++ [r]) = credited k records + r.credit k := by
  simp [credited]

theorem debited_append (k : AccountId) (records : List TransactionRecord) (r : TransactionRecord) :
    debited k (records ++ [r]) = debited k records + r.debit k := by
  simp [debited]

/-- The balances are the first ones, plus what the records credit and minus what they debit; every
record is one of a transaction on accounts that exist. -/
structure Explained (records : List TransactionRecord) (m n : Ledger) : Prop where
  shifts : Shifts (fun k => credited k records - debited k records) m n
  named : ∀ r ∈ records, ∃ t, r.Records t ∧ ∀ k ∈ footprint t, (m k).isSome

theorem Explained.start (m : Ledger) : Explained [] m m where
  shifts := Shifts.refl m
  named := by rintro r ⟨⟩

theorem Explained.post (h : Explained records m n) (hp : post t n = some p) (hr : r.Records t) :
    Explained (records ++ [r]) m p where
  shifts := by
    refine (h.shifts.trans (post_shifts hp hr)).congr fun k => ?_
    rw [credited_append, debited_append]
    omega
  named := by
    intro r' hr'
    rcases List.mem_append.mp hr' with hr' | hr'
    · exact h.named r' hr'
    · obtain rfl := List.mem_singleton.mp hr'
      refine ⟨t, hr, fun k hk => ?_⟩
      obtain ⟨a, _, ha, _⟩ := post_changes hp hk
      rw [← h.shifts.isSome k, ha]
      rfl

theorem Explained.keep (h : Explained records m n) (hk : Shifts (fun _ => 0) n p) : Explained records m p where
  shifts := (h.shifts.trans hk).congr fun _ => Int.add_zero _
  named := h.named

end Ledger

namespace AccountRepository

open Ledger TransactionRecord

variable {repo repo' : AccountRepository} {d : AccountId → Int}

theorem mem_all {a : Account} : a ∈ repo.all ↔ repo.findById a.id = some a := mem_iff_findAccount repo.all_nodup a

theorem total_shifts (h : Shifts d repo.findById repo'.findById) :
    repo'.total = repo.total + (repo.all.map (fun a => d a.id)).sum := by
  have hperm : (repo'.all.map (fun a => (a.id, (a.balance.cents : Int)))).Perm
      (repo.all.map (fun a => (a.id, (a.balance.cents : Int) + d a.id))) := by
    have hnodup (repo : AccountRepository) (f : Account → Int) : (repo.all.map (fun a => (a.id, f a))).Nodup := by
      apply List.Nodup.of_map Prod.fst
      rw [List.map_map]
      exact repo.all_nodup
    apply (List.perm_ext_iff_of_nodup (hnodup repo' _) (hnodup repo _)).mpr
    have hmem (repo : AccountRepository) (f : Account → Int) (k : AccountId) (x : Int) :
        (k, x) ∈ repo.all.map (fun a => (a.id, f a)) ↔ (repo.findById k).map f = some x := by
      rw [List.mem_map, Option.map_eq_some_iff]
      constructor
      · rintro ⟨a, ha, he⟩
        obtain ⟨rfl, rfl⟩ := Prod.mk.inj he
        exact ⟨a, mem_all.mp ha, rfl⟩
      · rintro ⟨a, ha, rfl⟩
        obtain rfl := findAccount_id ha
        exact ⟨a, mem_all.mpr ha, rfl⟩
    rintro ⟨k, x⟩
    rw [hmem repo' (fun a => a.balance.cents), hmem repo (fun a => a.balance.cents + d a.id), h k]
    have hid : (repo.findById k).map (fun a => (a.balance.cents : Int) + d k) =
        (repo.findById k).map (fun a => (a.balance.cents : Int) + d a.id) := by
      apply Option.map_congr
      intro a ha
      rw [findAccount_id ha]
    rw [hid]
  have hsum := (hperm.map Prod.snd).sum_eq
  rw [List.map_map, List.map_map] at hsum
  rw [total, total, ← List.sum_map_add]
  exact hsum

theorem sum_leg {leg : Option AccountId} (h : ∀ k ∈ leg, (repo.findById k).isSome) (x : Int) :
    (repo.all.map (fun a => if leg = some a.id then x else 0)).sum = if leg.isSome then x else 0 := by
  cases leg with
  | none => simp
  | some k =>
    obtain ⟨a, ha⟩ := Option.isSome_iff_exists.mp (h k rfl)
    have hid := findAccount_id ha
    have hmem : k ∈ repo.all.map (·.id) := List.mem_map.mpr ⟨a, mem_all.mpr (by rwa [hid]), hid⟩
    have hsum := List.sum_map_ite_eq (repo.all.map (·.id)) (fun _ => x) (fun _ => 0) k
    rw [List.count_eq_one_of_mem repo.all_nodup hmem, List.map_map] at hsum
    simp only [Option.some.injEq, eq_comm (a := k), Option.isSome_some, ↓reduceIte]
    simpa [Function.comp_def] using hsum

theorem sum_record {r : TransactionRecord} {t : Transaction} (hr : r.Records t)
    (h : ∀ k ∈ footprint t, (repo.findById k).isSome) :
    (repo.all.map (fun a => r.credit a.id - r.debit a.id)).sum = totalOf .deposit [r] - totalOf .withdraw [r] := by
  obtain ⟨htype, hfrom, hto, -⟩ := hr
  have hlegs := legs_footprint t
  have hsplit (k : AccountId) : r.credit k - r.debit k =
      (if t.creditAccount = some k then (r.amount.cents : Int) else 0) +
        (if t.debitAccount = some k then -(r.amount.cents : Int) else 0) := by
    rw [TransactionRecord.credit, TransactionRecord.debit, hfrom, hto]
    split_ifs <;> omega
  simp only [hsplit]
  rw [List.sum_map_add, sum_leg (fun k hk => h k (hlegs.1 k hk)), sum_leg (fun k hk => h k (hlegs.2 k hk))]
  cases t <;> simp [totalOf, htype, Transaction.typeOf, Transaction.creditAccount, Transaction.debitAccount]

theorem totalOf_cons (type : TransactionType) (r : TransactionRecord) (records : List TransactionRecord) :
    totalOf type (r :: records) = totalOf type [r] + totalOf type records := by
  unfold totalOf
  by_cases hr : r.type = type <;> simp [hr]

theorem total_explained {records : List TransactionRecord}
    (h : Explained records repo.findById repo'.findById) :
    repo'.total = repo.total + totalOf .deposit records - totalOf .withdraw records := by
  have hsum (records : List TransactionRecord)
      (hn : ∀ r ∈ records, ∃ t, r.Records t ∧ ∀ k ∈ footprint t, (repo.findById k).isSome) :
      (repo.all.map (fun a => credited a.id records - debited a.id records)).sum =
        totalOf .deposit records - totalOf .withdraw records := by
    induction records with
    | nil => simp [credited, debited, totalOf]
    | cons r records ih =>
      obtain ⟨t, hr, hk⟩ := hn r List.mem_cons_self
      have hrecord := sum_record hr hk
      have hrest := ih fun r' hr' => hn r' (List.mem_cons_of_mem _ hr')
      have hsplit (k : AccountId) : credited k (r :: records) - debited k (r :: records) =
          (r.credit k - r.debit k) + (credited k records - debited k records) := by
        simp only [credited, debited, List.map_cons, List.sum_cons]
        omega
      simp only [hsplit]
      rw [List.sum_map_add, hrecord, hrest, totalOf_cons .deposit r records, totalOf_cons .withdraw r records]
      omega
  rw [total_shifts h.shifts, hsum records h.named]
  omega

end AccountRepository

end BankManagement
