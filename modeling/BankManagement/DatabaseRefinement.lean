import BankManagement.RepositoryCalls

namespace BankManagement

open KeyedTable SqliteDatabase
open SqliteAuditRepository (Comparison)

variable {κ : Type} {c : Connection κ} {holds : κ → Contents} {limit : ℕ} {k : κ} {m : Repositories}

theorem accountRow_over (h : (holds k).Keeps limit m) (account : Account) :
    SqliteAccountRepository.saveStatement.row (SqliteAccountRepository.saved account)
      (holds k "accounts" account.id.toInt64) = some (Write.account account).row := by
  rw [h.accounts]
  cases hfound : m.accounts.findById account.id with
  | none => rfl
  | some old =>
    exact Write.row_over (v := .account old) (w := .account account) rfl
      (congrArg UInt64.toInt64 (findAccount_id hfound)) (List.cons_ne_nil _ _)

theorem sorted_cut (l : List TransactionRecord) : (l.insertionSort (Signed (·.id))).map TransactionRecord.cut =
    (l.map TransactionRecord.cut).insertionSort (Signed (·.id)) := by
  apply List.map_insertionSort
  intro r _ s _
  rw [Signed, Signed, r.cut_id, s.cut_id]

namespace Contents.Keeps

theorem saveCustomer (h : (holds k).Keeps limit m) (hs : c.KeepsSchema holds limit) {customer : Customer}
    (hstorable : customer.Storable limit) : ∃ k', SqliteCustomerRepository.save c customer k = .ok () k' ∧
      (holds k').Keeps limit { m with customers := Function.update m.customers customer.id (some customer) } := by
  have hrow : SqliteCustomerRepository.saveStatement.row (SqliteCustomerRepository.saved customer)
      (holds k "customers" customer.id.toInt64) = some (Write.customer customer).row := by
    rw [h.customers]
    cases hfound : m.customers customer.id with
    | none => rfl
    | some old =>
      exact Write.row_over (v := .customer old) (w := .customer customer) rfl
        (congrArg UInt64.toInt64 (h.storable _ old hfound).1) (List.cons_ne_nil _ _)
  obtain ⟨k', hk', hholds⟩ := hs.accepts (w := .customer customer) hrow ((hs.owned k).write_customer _ _)
    (hstorable.textSize_le hs.most)
  have hwritten : holds k' = (holds k).write "customers" customer.id.toInt64 (some (Write.customer customer).row) := hholds
  refine ⟨k', hk', ?_⟩
  rw [hwritten]
  refine ⟨h.customers.write customer.id (some customer), ?_, h.accounts.write_other (by decide) _ _,
    h.transactions.write_other (by decide) _ _, h.distinct⟩
  intro id found (hfound : Function.update m.customers customer.id (some customer) id = some found)
  by_cases hid : id = customer.id
  · subst hid
    rw [Function.update_self] at hfound
    obtain rfl := Option.some.inj hfound
    exact ⟨rfl, hstorable⟩
  · rw [Function.update_of_ne hid] at hfound
    exact h.storable id found hfound

theorem owner (h : (holds k).Keeps limit m) (id : CustomerId) :
    holds k "customers" id.toInt64 ≠ none ↔ m.customers id ≠ none := by
  rw [h.customers, Ne, Option.map_eq_none_iff]

theorem saveAccount (h : (holds k).Keeps limit m) (hs : c.KeepsSchema holds limit) {account : Account}
    (howner : m.customers account.ownerId ≠ none) : ∃ k', SqliteAccountRepository.save c account k = .ok () k' ∧
      (holds k').Keeps limit { m with accounts := m.accounts.save account } := by
  have howned : ((holds k).write "accounts" account.id.toInt64 (some (Write.account account).row)).Owned :=
    (hs.owned k).write_account rfl ((h.owner _).mpr howner) account.id.toInt64
  obtain ⟨k', hk', hholds⟩ := hs.accepts (w := .account account) (accountRow_over h account) howned
    ((account_textSize account).trans hs.least)
  have hwritten : holds k' = (holds k).write "accounts" account.id.toInt64 (some (Write.account account).row) := hholds
  refine ⟨k', hk', ?_⟩
  rw [hwritten]
  refine ⟨h.customers.write_other (by decide) _ _, h.storable, ?_, h.transactions.write_other (by decide) _ _,
    h.distinct⟩
  rw [AccountRepository.findById_save]
  exact h.accounts.write account.id (some account)

theorem removeAccount (h : (holds k).Keeps limit m) (hs : c.KeepsSchema holds limit) (id : AccountId) :
    ∃ k', SqliteAccountRepository.remove c id k = .ok () k' ∧
      (holds k').Keeps limit { m with accounts := m.accounts.remove id } := by
  obtain ⟨htakes, hdone, hholds⟩ := hs.removed k id.toInt64
  refine ⟨_, Connection.execute_done htakes hdone, ?_⟩
  rw [hholds]
  refine ⟨h.customers.write_other (by decide) _ _, h.storable, ?_, h.transactions.write_other (by decide) _ _,
    h.distinct⟩
  have hremoved : (m.accounts.remove id).findById = Function.update m.accounts.findById id none := by
    funext id'
    rw [Function.update_apply]
    exact find_erase m.accounts.accounts id id'
  rw [hremoved]
  exact h.accounts.write id none

theorem append (h : (holds k).Keeps limit m) (hs : c.KeepsSchema holds limit) {record : TransactionRecord}
    (hnew : record.id ∉ m.transactions.map (·.id)) : ∃ k', SqliteTransactionRepository.append c record k = .ok () k' ∧
      (holds k').Keeps limit { m with transactions := m.transactions ++ [record] } := by
  have hrow : SqliteTransactionRepository.appendStatement.row (SqliteTransactionRepository.appended record)
      (holds k "transactions" record.id.toInt64) = some (Write.transaction record).row := by
    have hnone : find (·.id) record.id m.transactions = none := find_eq_none.mpr hnew
    rw [h.transactions]
    dsimp only
    rw [hnone]
    rfl
  have howned : ((holds k).write "transactions" record.id.toInt64 (some (Write.transaction record).row)).Owned :=
    (hs.owned k).write_free (by decide) (by decide)
  obtain ⟨k', hk', hholds⟩ := hs.accepts (w := .transaction record) hrow howned
    ((transaction_textSize record).trans hs.least)
  have hwritten : holds k' = (holds k).write "transactions" record.id.toInt64 (some (Write.transaction record).row) := hholds
  have hlast : m.transactions ++ [record] = upsert (·.id) record m.transactions := (if_neg hnew).symm
  refine ⟨k', hk', ?_⟩
  rw [hwritten, hlast]
  refine ⟨h.customers.write_other (by decide) _ _, h.storable, h.accounts.write_other (by decide) _ _, ?_,
    upsert_nodup h.distinct record⟩
  have hfind : (fun id => find (·.id) id (upsert (·.id) record m.transactions)) =
      Function.update (fun id => find (·.id) id m.transactions) record.id (some record) := by
    funext id
    rw [find_upsert, Function.update_apply]
  rw [hfind]
  exact h.transactions.write record.id (some record)

theorem findCustomer (h : (holds k).Keeps limit m) (hs : c.KeepsSchema holds limit) (id : CustomerId) :
    SqliteCustomerRepository.findById (c.errmsg k) id (c.reads k) = .ok (m.customers id) := by
  apply selects_found (q := .customer id) (hs.queried k _) (hs.keyed k "customers") (fun _ => equals_int64)
    (h.customers id)
  intro customer hfound cells hgives
  exact (readCustomer_row hgives).mpr ((h.storable id customer hfound).2.kept hs.most)

theorem findAccount (h : (holds k).Keeps limit m) (hs : c.KeepsSchema holds limit) (id : AccountId) :
    SqliteAccountRepository.findById (c.errmsg k) id (c.reads k) = .ok (m.accounts.findById id) := by
  apply selects_found (q := .account id) (hs.queried k _) (hs.keyed k "accounts") (fun _ => equals_int64)
    (h.accounts id)
  intro account _ cells hgives
  exact readAccount_row hgives

theorem allAccounts (h : (holds k).Keeps limit m) (hs : c.KeepsSchema holds limit) :
    SqliteAccountRepository.all (c.reads k) = .ok (m.accounts.all.insertionSort (Signed (·.id))) := by
  have hselects := hs.queried k .accounts
  have hfound (id : AccountId) (a : Account) : m.accounts.findById id = some a ↔ a ∈ m.accounts.all ∧ a.id = id :=
    find_eq_some m.accounts.all_nodup
  have hgives := selects_sorted hselects rfl (fun a => (Write.account a).row_id) m.accounts.all_nodup fun stored => by
    rw [← h.accounts.mem hfound]
    exact and_iff_left rfl
  apply hselects.taken.query
  rw [map_read hgives fun _ _ => readAccount_row, List.map_id']

theorem mem_transactions (h : (holds k).Keeps limit m) (stored : Stored) :
    (∃ id, holds k "transactions" id = some stored) ↔
      stored ∈ m.transactions.map fun r => (Write.transaction r).row :=
  h.transactions.mem (fun _ _ => find_eq_some h.distinct) stored

theorem forAccount (h : (holds k).Keeps limit m) (hs : c.KeepsSchema holds limit) (id : AccountId) :
    SqliteTransactionRepository.forAccount id (c.reads k) =
      .ok (((TransactionRepository.forAccount m.transactions id).map TransactionRecord.cut).insertionSort
        (Signed (·.id))) := by
  have hselects := hs.queried k (.forAccount id)
  have hcolumn (o : Option AccountId) : Comparison.eq.holds (bindIntegerId o) (.int64 id.toInt64) = decide (o = some id) := by
    apply Bool.eq_iff_iff.mpr
    rw [equals_int64, decide_eq_true_iff]
    cases o with
    | none => simp [bindIntegerId]
    | some other => simp [bindIntegerId, toInt64_inj]
  have hwants (r : TransactionRecord) : (Query.forAccount id).wants (Write.transaction r).row =
      (decide (r.fromId = some id) || decide (r.toId = some id)) := congrArg₂ or (hcolumn r.fromId) (hcolumn r.toId)
  have hids : ((TransactionRepository.forAccount m.transactions id).map (·.id)).Nodup :=
    h.distinct.sublist (List.filter_sublist.map _)
  have hgives := selects_sorted hselects rfl (fun r => (Write.transaction r).row_id) hids fun stored => by
    rw [TransactionRepository.forAccount, List.mem_map]
    refine (and_congr_left' (h.mem_transactions stored)).trans ?_
    rw [List.mem_map]
    constructor
    · rintro ⟨⟨r, hr, rfl⟩, hwanted⟩
      exact ⟨r, List.mem_filter.mpr ⟨hr, hwants r ▸ hwanted⟩, rfl⟩
    · rintro ⟨r, hr, rfl⟩
      obtain ⟨hr, hwanted⟩ := List.mem_filter.mp hr
      exact ⟨⟨r, hr, rfl⟩, (hwants r).trans hwanted⟩
  apply hselects.taken.query
  rw [map_read hgives fun _ _ => readTransaction_row, sorted_cut]

theorem allTransactions (h : (holds k).Keeps limit m) (hs : c.KeepsSchema holds limit) :
    SqliteTransactionRepository.all (c.reads k) =
      .ok ((m.transactions.map TransactionRecord.cut).insertionSort (Signed (·.id))) := by
  have hselects := hs.queried k .transactions
  have hgives := selects_sorted hselects rfl (fun r => (Write.transaction r).row_id) h.distinct fun stored => by
    rw [← h.mem_transactions]
    exact and_iff_left rfl
  apply hselects.taken.query
  rw [map_read hgives fun _ _ => readTransaction_row, sorted_cut]

end Contents.Keeps

theorem Contents.Keeps.owned (h : (holds k).Keeps limit m) (hs : c.KeepsSchema holds limit) {id : AccountId} {a : Account}
    (ha : m.accounts.findById id = some a) : m.customers a.ownerId ≠ none := by
  have hrow := h.accounts id
  rw [ha] at hrow
  obtain ⟨owner, hcolumn, hknown⟩ := hs.owned k id.toInt64 (Write.account a).row hrow
  obtain rfl := Bound.int64.inj hcolumn
  exact (h.owner a.ownerId).mp hknown

end BankManagement
