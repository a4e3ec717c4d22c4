import BankManagement.KeyedTable
import BankManagement.Repositories
import BankManagement.RowMapping
import BankManagement.Runs
import Mathlib.Data.List.Sort

namespace BankManagement

open KeyedTable

inductive RepositoryCall
  | saveCustomer (customer : Customer)
  | findCustomer (id : CustomerId)
  | saveAccount (account : Account)
  | removeAccount (id : AccountId)
  | findAccount (id : AccountId)
  | allAccounts
  | append (record : TransactionRecord)
  | forAccount (id : AccountId)
  | allTransactions

inductive Answer
  | done
  | customer (found : Option Customer)
  | account (found : Option Account)
  | accounts (found : List Account)
  | transactions (found : List TransactionRecord)
  deriving DecidableEq

namespace Connection

variable {κ : Type}

def wrote : EStateM.Result Exn κ Unit → Option Answer × κ
  | .ok () k => (some .done, k)
  | .error _ k => (none, k)

/-- The SQLite repositories; `none` is an exception. -/
def serve (c : Connection κ) (k : κ) : RepositoryCall → Option Answer × κ
  | .saveCustomer customer => wrote (SqliteCustomerRepository.save c customer k)
  | .findCustomer id =>
    ((SqliteCustomerRepository.findById (c.errmsg k) id (c.reads k)).toOption.map .customer, k)
  | .saveAccount account => wrote (SqliteAccountRepository.save c account k)
  | .removeAccount id => wrote (SqliteAccountRepository.remove c id k)
  | .findAccount id => ((SqliteAccountRepository.findById (c.errmsg k) id (c.reads k)).toOption.map .account, k)
  | .allAccounts => ((SqliteAccountRepository.all (c.reads k)).toOption.map .accounts, k)
  | .append record => wrote (SqliteTransactionRepository.append c record k)
  | .forAccount id => ((SqliteTransactionRepository.forAccount id (c.reads k)).toOption.map .transactions, k)
  | .allTransactions => ((SqliteTransactionRepository.all (c.reads k)).toOption.map .transactions, k)

end Connection

def AccountRepository.remove (repo : AccountRepository) (id : AccountId) : AccountRepository :=
  ⟨erase (·.id) id repo.accounts, repo.sorted.sublist List.filter_sublist⟩

/-- The order of ids that SQLite compares as signed numbers. -/
def Signed {α : Type} (key : α → UInt64) (a b : α) : Prop := (key a).toInt64.toInt ≤ (key b).toInt64.toInt

instance {α : Type} (key : α → UInt64) : DecidableRel (Signed key) := fun a b =>
  inferInstanceAs (Decidable ((key a).toInt64.toInt ≤ (key b).toInt64.toInt))

instance {α : Type} (key : α → UInt64) : IsTrans α (Signed key) := ⟨fun _ _ _ => Int.le_trans⟩

instance {α : Type} (key : α → UInt64) : Std.Total (Signed key) := ⟨fun _ _ => Int.le_total _ _⟩

structure Repositories where
  customers : CustomerRepository
  accounts : AccountRepository
  transactions : TransactionRepository

namespace Repositories

def empty : Repositories := ⟨fun _ => none, .ofAccounts [], []⟩

def serve (m : Repositories) : RepositoryCall → Answer × Repositories
  | .saveCustomer customer =>
    (.done, { m with customers := Function.update m.customers customer.id (some customer) })
  | .findCustomer id => (.customer (m.customers id), m)
  | .saveAccount account => (.done, { m with accounts := m.accounts.save account })
  | .removeAccount id => (.done, { m with accounts := m.accounts.remove id })
  | .findAccount id => (.account (m.accounts.findById id), m)
  | .allAccounts => (.accounts m.accounts.all, m)
  | .append record => (.done, { m with transactions := m.transactions ++ [record] })
  | .forAccount id => (.transactions (TransactionRepository.forAccount m.transactions id), m)
  | .allTransactions => (.transactions m.transactions, m)

/-- What the schema refuses: an account whose owner is not known, and the id of a record used again. -/
def refuses (m : Repositories) : RepositoryCall → Bool
  | .saveAccount account => (m.customers account.ownerId).isNone
  | .append record => decide (record.id ∈ m.transactions.map (·.id))
  | _ => false

end Repositories

namespace Customer

def size (c : Customer) : ℕ :=
  c.name.length + c.pinHash.algorithm.length + c.pinHash.salt.length + c.pinHash.digest.length + c.role.toString.length

def Storable (c : Customer) (limit : ℕ) : Prop :=
  0 ∉ c.name ∧ 0 ∉ c.pinHash.algorithm ∧ 0 ∉ c.pinHash.salt ∧ 0 ∉ c.pinHash.digest ∧ c.size ≤ limit

instance (c : Customer) (limit : ℕ) : Decidable (c.Storable limit) := inferInstanceAs (Decidable (0 ∉ c.name ∧ _))

end Customer

def RepositoryCall.Storable (limit : ℕ) : RepositoryCall → Prop
  | .saveCustomer customer => customer.Storable limit
  | _ => True

instance RepositoryCall.decidableStorable (limit : ℕ) : (call : RepositoryCall) → Decidable (call.Storable limit)
  | .saveCustomer customer => inferInstanceAs (Decidable (customer.Storable limit))
  | .findCustomer _ | .saveAccount _ | .removeAccount _ | .findAccount _ | .allAccounts | .append _ | .forAccount _
  | .allTransactions => isTrue trivial

theorem Customer.Storable.kept {c : Customer} {limit : ℕ} (h : c.Storable limit) (hlimit : limit < 2 ^ 31) : c.Kept := by
  obtain ⟨hname, halgorithm, hsalt, hdigest, hsize⟩ := h
  unfold Customer.size at hsize
  refine ⟨⟨hname, .inl ?_⟩, ⟨halgorithm, .inl ?_⟩, ⟨hsalt, .inl ?_⟩, ⟨hdigest, .inl ?_⟩⟩ <;> omega

theorem Customer.Storable.textSize_le {c : Customer} {limit : ℕ} (h : c.Storable limit) (hlimit : limit < 2 ^ 31) :
    textSize (Write.customer c).bounds ≤ limit := by
  obtain ⟨-, -, -, -, hsize⟩ := h
  refine le_of_eq_of_le ?_ hsize
  unfold Customer.size at hsize ⊢
  have hsent {value : Bytes} (hvalue : value.length < 2 ^ 31) : (sentText value).length = value.length :=
    congrArg List.length (sentText_short hvalue)
  have hsum : textSize (Write.customer c).bounds = 0 + ((sentText c.name).length + ((sentText c.pinHash.algorithm).length +
      ((sentText c.pinHash.salt).length + ((sentText c.pinHash.digest).length +
        ((sentText c.role.toString).length + 0))))) := rfl
  rw [hsum, hsent (by omega), hsent (by omega), hsent (by omega), hsent (by omega), hsent (by omega)]
  omega

theorem account_textSize (a : Account) : textSize (Write.account a).bounds ≤ 1000 := by
  have hsum : textSize (Write.account a).bounds = 0 + (0 + (0 + ((sentText a.status.toString).length + (0 + 0)))) := rfl
  have hstatus (status : AccountStatus) : (sentText status.toString).length ≤ 100 := by
    cases status <;> decide +kernel
  have hle := hstatus a.status
  omega

theorem transaction_textSize (r : TransactionRecord) : textSize (Write.transaction r).bounds ≤ 1000 := by
  have hid (id : Option AccountId) : (bindIntegerId id).textSize = 0 := by
    cases id <;> rfl
  have hsum : textSize (Write.transaction r).bounds = 0 + (0 + ((sentText r.type.toString).length +
      ((sentText r.state.toString).length + ((bindIntegerId r.fromId).textSize +
        ((bindIntegerId r.toId).textSize + (0 + 0)))))) := rfl
  have htype (type : TransactionType) : (sentText type.toString).length ≤ 100 := by
    cases type <;> decide +kernel
  have hstate (state : TransactionState) : (sentText state.toString).length ≤ 100 := by
    cases state <;> decide +kernel
  have hle := htype r.type
  have hle' := hstate r.state
  rw [hid, hid] at hsum
  omega

theorem toInt64_inj {x y : UInt64} : x.toInt64 = y.toInt64 ↔ x = y := by
  constructor
  · intro h
    rw [← UInt64.toUInt64_toInt64 x, h, UInt64.toUInt64_toInt64]
  · exact congrArg UInt64.toInt64

def Contents.Maps {α : Type} (t : Contents) (table : String) (found : UInt64 → Option α) (row : α → Stored) : Prop :=
  ∀ id, t table id.toInt64 = (found id).map row

section Maps

variable {α : Type} {t : Contents} {table : String} {found : UInt64 → Option α} {row : α → Stored}

theorem Contents.Maps.write (h : t.Maps table found row) (id : UInt64) (a : Option α) :
    (t.write table id.toInt64 (a.map row)).Maps table (Function.update found id a) row := by
  intro id'
  rw [Contents.write_self]
  by_cases hid : id' = id
  · subst hid
    rw [Function.update_self, Function.update_self]
  · have hne : id'.toInt64 ≠ id.toInt64 := fun he => hid (toInt64_inj.mp he)
    rw [Function.update_of_ne hne, Function.update_of_ne hid]
    exact h id'

theorem Contents.Maps.write_other (h : t.Maps table found row) {other : String} (hother : table ≠ other) (id : Int64)
    (stored : Option Stored) : (t.write other id stored).Maps table found row := by
  intro id'
  rw [Contents.write_other hother]
  exact h id'

theorem Contents.Maps.mem (h : t.Maps table found row) {l : List α} {key : α → UInt64}
    (hfound : ∀ id a, found id = some a ↔ a ∈ l ∧ key a = id) (stored : Stored) :
    (∃ id, t table id = some stored) ↔ stored ∈ l.map row := by
  rw [List.mem_map]
  constructor
  · rintro ⟨id, hid⟩
    rw [← Int64.toInt64_toUInt64 id, h, Option.map_eq_some_iff] at hid
    obtain ⟨a, ha, hrow⟩ := hid
    exact ⟨a, ((hfound _ a).mp ha).1, hrow⟩
  · rintro ⟨a, ha, rfl⟩
    refine ⟨(key a).toInt64, ?_⟩
    rw [h, (hfound (key a) a).mpr ⟨ha, rfl⟩, Option.map_some]

end Maps

section Queries

variable {α β : Type} {key : α → UInt64} {row : α → Stored} {l : List α} {db : SqliteDatabase} {t : Contents} {q : Query}

theorem selects_found {id : Int64} {found : Option α} {errmsg : Int → String} {what : String} {read : Row → Except Exn α}
    (h : db.Selects t q) (hkeyed : ∀ id row, t q.table id = some row → row "id" = .int64 id)
    (hwants : ∀ row, q.wants row = true ↔ row "id" = .int64 id) (hfound : t q.table id = found.map row)
    (hread : ∀ a ∈ found, ∀ cells, List.Forall₂ Gives (q.columns.map (row a)) cells → read cells = .ok a) :
    db.first errmsg what q.sql q.parameters read = .ok found := by
  have hgives := h.of_key hkeyed hwants
  rw [hfound] at hgives
  cases found with
  | none => exact h.taken.first_none h.terminal (List.forall₂_nil_left_iff.mp hgives)
  | some a =>
    obtain ⟨cells, rest, hcells, -, hrows⟩ := List.forall₂_cons_left_iff.mp hgives
    rw [h.taken.first_some hrows, hread a rfl cells hcells]
    rfl

theorem selects_sorted (h : db.Selects t q) (horder : q.order = some "id")
    (hrow : ∀ a, row a "id" = .int64 (key a).toInt64) (hids : (l.map key).Nodup)
    (hmem : ∀ stored, (∃ id, t q.table id = some stored) ∧ q.wants stored = true ↔ stored ∈ l.map row) :
    List.Forall₂ (fun a cells => List.Forall₂ Gives (q.columns.map (row a)) cells) (l.insertionSort (Signed key))
      (db.steps q.sql q.parameters).rows := by
  obtain ⟨selected, hnodup, hselected, hsorted, hgives⟩ := h.rows
  have hnumber (a : α) : (row a "id").number = (key a).toInt64.toInt := by rw [hrow, Bound.number]
  have hkey {a b : α} (ha : a ∈ l) (hb : b ∈ l) (h : (row a "id").number = (row b "id").number) : a = b := by
    rw [hnumber, hnumber, Int64.toInt_inj, toInt64_inj] at h
    exact List.inj_on_of_nodup_map hids ha hb h
  have hrows : (l.map row).Nodup := by
    apply List.Nodup.map_on _ hids.of_map
    intro a ha b hb hsame
    exact hkey ha hb (congrArg (fun stored : Stored => (stored "id").number) hsame)
  have hsame : selected = (l.insertionSort (Signed key)).map row := by
    have hperm : selected.Perm (l.map row) := by
      apply (List.perm_ext_iff_of_nodup hnodup.of_map hrows).mpr
      intro stored
      rw [hselected, hmem]
    have hlist : ((l.insertionSort (Signed key)).map row).Perm (l.map row) := (List.perm_insertionSort _ l).map row
    apply @List.Perm.eq_of_pairwise _ fun a b : Stored => (a "id").number ≤ (b "id").number
    · intro x y hx hy hxy hyx
      obtain ⟨a, ha, rfl⟩ := List.mem_map.mp (hperm.mem_iff.mp hx)
      obtain ⟨b, hb, rfl⟩ := List.mem_map.mp (hlist.mem_iff.mp hy)
      rw [hkey ha hb (Int.le_antisymm hxy hyx)]
    · exact hsorted "id" horder
    · apply List.pairwise_map.mpr
      refine (List.pairwise_insertionSort (Signed key) l).imp fun {a b} hab => ?_
      rw [hnumber, hnumber]
      exact hab
    · exact hperm.trans hlist.symm
  rw [hsame] at hgives
  exact (List.forall₂_map_left_iff (R := fun stored cells => List.Forall₂ Gives (q.columns.map stored) cells)).mp hgives

theorem map_read {given : α → Row → Prop} {read : Row → Except Exn β} {v : α → β} {rows : List Row}
    (h : List.Forall₂ given l rows) (hread : ∀ a row, given a row → read row = .ok (v a)) :
    rows.map read = (l.map v).map .ok := by
  induction h with
  | nil => rfl
  | @cons a row l rows hgiven _ ih =>
    rw [List.map_cons, List.map_cons, List.map_cons, hread a row hgiven, ih]

end Queries

structure Contents.Keeps (t : Contents) (limit : ℕ) (m : Repositories) : Prop where
  customers : t.Maps "customers" m.customers fun c => (Write.customer c).row
  storable : ∀ id c, m.customers id = some c → c.id = id ∧ c.Storable limit
  accounts : t.Maps "accounts" m.accounts.findById fun a => (Write.account a).row
  transactions : t.Maps "transactions" (fun id => find (·.id) id m.transactions) fun r => (Write.transaction r).row
  distinct : (m.transactions.map (·.id)).Nodup

end BankManagement
