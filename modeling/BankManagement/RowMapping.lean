import BankManagement.SqliteTables

namespace BankManagement

open Codec (ofNat_cents ofCents_cents AccountStatus_fromString_toString TransactionType_fromString_toString
  TransactionState_fromString_toString)

/-- The texts that come back: none with a zero byte, and none whose size an `int` cuts short. -/
def KeptText (value : Bytes) : Prop := 0 ∉ value ∧ (value.length < 2 ^ 31 ∨ 2 ^ 31 ≤ value.length % 2 ^ 32)

instance (value : Bytes) : Decidable (KeptText value) := inferInstanceAs (Decidable (_ ∧ _))

theorem sentText_read (value : Bytes) : (sentText value).takeWhile (· ≠ 0) = value ↔ KeptText value := by
  unfold sentText KeptText
  constructor
  · intro h
    have hzero : 0 ∉ value := by
      intro hmem
      rw [← h] at hmem
      simpa using List.mem_takeWhile_imp hmem
    refine ⟨hzero, ?_⟩
    by_cases hsize : 2 ^ 31 ≤ value.length % 2 ^ 32
    · exact .inr hsize
    · left
      rw [if_neg hsize] at h
      have hlength := (List.takeWhile_prefix (· ≠ 0) (l := value.take (value.length % 2 ^ 32))).length_le
      rw [h, List.length_take] at hlength
      omega
  · rintro ⟨hzero, hsize⟩
    have hwhole : value.takeWhile (· ≠ 0) = value := by
      apply List.takeWhile_eq_self_iff.mpr
      intro b hb
      simpa using fun h0 : b = 0 => hzero (h0 ▸ hb)
    by_cases hneg : 2 ^ 31 ≤ value.length % 2 ^ 32
    · rw [if_pos hneg, hwhole, hwhole]
    · rw [if_neg hneg, List.take_of_length_le (by omega), hwhole]

theorem sentText_short {value : Bytes} (h : value.length < 2 ^ 31) : sentText value = value := by
  unfold sentText
  rw [if_neg (by omega)]
  apply List.take_of_length_le
  omega

section Columns

variable {bounds : List Bound} {row : Row} {index : ℕ}

theorem gives_column {bound : Bound} (h : List.Forall₂ Gives bounds row) (hi : bounds[index]? = some bound) :
    Gives bound (column row index) := by
  induction h generalizing index with
  | nil => cases hi
  | cons hgives _ ih =>
    cases index with
    | zero =>
      obtain rfl := Option.some.inj hi
      exact hgives
    | succ index => exact ih hi

theorem columnI64_eq {value : Int64} (h : List.Forall₂ Gives bounds row) (hi : bounds[index]? = some (.int64 value)) :
    columnI64 row index = value := (gives_column h hi).2

theorem columnText_eq {value : Bytes} (h : List.Forall₂ Gives bounds row) (hi : bounds[index]? = some (bindText value)) :
    columnText row index = (sentText value).takeWhile (· ≠ 0) := by
  obtain ⟨hnull, htext⟩ := gives_column h hi
  unfold columnText
  rw [hnull, htext]
  rfl

theorem columnText_kept {value : Bytes} (h : List.Forall₂ Gives bounds row) (hi : bounds[index]? = some (bindText value))
    (hkept : KeptText value) : columnText row index = value := by
  rw [columnText_eq h hi]
  exact (sentText_read value).mpr hkept

theorem columnId_eq {id : Option AccountId} (h : List.Forall₂ Gives bounds row)
    (hi : bounds[index]? = some (bindIntegerId id)) : columnId row index = id := by
  have hgives := gives_column h hi
  unfold columnId columnI64
  cases id with
  | none =>
    rw [hgives]
    rfl
  | some id =>
    rw [hgives.1, hgives.2]
    exact congrArg some (UInt64.toUInt64_toInt64 id)

end Columns

theorem status_kept (status : AccountStatus) : KeptText status.toString := by
  cases status <;> decide +kernel

theorem type_kept (type : TransactionType) : KeptText type.toString := by
  cases type <;> decide +kernel

theorem state_kept (state : TransactionState) : KeptText state.toString := by
  cases state <;> decide +kernel

theorem role_kept (role : Role) : KeptText role.toString := by
  cases role <;> decide +kernel

theorem moneyOf_cents (m : Money) : moneyOf (Int64.ofNat m.cents) = .ok m := by
  unfold moneyOf
  rw [dif_neg (ofNat_cents m).1, ofCents_cents]

section Readers

variable {row : Row}

theorem readAccount_row {account : Account}
    (h : List.Forall₂ Gives (SqliteAccountRepository.columns.map (Write.account account).row) row) :
    readAccount row = .ok account := by
  have hid : columnI64 row 0 = account.id.toInt64 := columnI64_eq h rfl
  have howner : columnI64 row 1 = account.ownerId.toInt64 := columnI64_eq h rfl
  have hbalance : columnI64 row 2 = Int64.ofNat account.balance.cents := columnI64_eq h rfl
  have hstatus : columnText row 3 = account.status.toString := columnText_kept h rfl (status_kept _)
  have hversion : columnI64 row 4 = account.version.toInt64 := columnI64_eq h rfl
  unfold readAccount
  rw [hid, howner, hbalance, hstatus, hversion, moneyOf_cents, AccountStatus_fromString_toString]
  simp

def TransactionRecord.cut (r : TransactionRecord) : TransactionRecord :=
  { r with timestamp := fromUnixMs (toUnixMs r.timestamp) }

-- Unfolded first: `rfl` alone compares the two records, with their times.
theorem TransactionRecord.cut_id (r : TransactionRecord) : r.cut.id = r.id := by rw [cut]

theorem readTransaction_row {record : TransactionRecord}
    (h : List.Forall₂ Gives (SqliteTransactionRepository.columns.map (Write.transaction record).row) row) :
    readTransaction row = .ok record.cut := by
  have hid : columnI64 row 0 = record.id.toInt64 := columnI64_eq h rfl
  have hms : columnI64 row 1 = toUnixMs record.timestamp := columnI64_eq h rfl
  have htype : columnText row 2 = record.type.toString := columnText_kept h rfl (type_kept _)
  have hstate : columnText row 3 = record.state.toString := columnText_kept h rfl (state_kept _)
  have hfrom : columnId row 4 = record.fromId := columnId_eq h rfl
  have hto : columnId row 5 = record.toId := columnId_eq h rfl
  have hamount : columnI64 row 6 = Int64.ofNat record.amount.cents := columnI64_eq h rfl
  unfold readTransaction
  rw [hid, hms, htype, hstate, hfrom, hto, hamount, moneyOf_cents, TransactionType_fromString_toString,
    TransactionState_fromString_toString]
  dsimp only
  rw [UInt64.toUInt64_toInt64]
  rfl

def Customer.Kept (c : Customer) : Prop :=
  KeptText c.name ∧ KeptText c.pinHash.algorithm ∧ KeptText c.pinHash.salt ∧ KeptText c.pinHash.digest

theorem readCustomer_row {customer : Customer}
    (h : List.Forall₂ Gives (SqliteCustomerRepository.columns.map (Write.customer customer).row) row) :
    readCustomer row = .ok customer ↔ customer.Kept := by
  have hid : columnI64 row 0 = customer.id.toInt64 := columnI64_eq h rfl
  have hrole : columnText row 5 = customer.role.toString := columnText_kept h rfl (role_kept _)
  have hname : columnText row 1 = customer.name ↔ KeptText customer.name := by
    rw [columnText_eq h rfl, sentText_read]
  have halgorithm : columnText row 2 = customer.pinHash.algorithm ↔ KeptText customer.pinHash.algorithm := by
    rw [columnText_eq h rfl, sentText_read]
  have hsalt : columnText row 3 = customer.pinHash.salt ↔ KeptText customer.pinHash.salt := by
    rw [columnText_eq h rfl, sentText_read]
  have hdigest : columnText row 4 = customer.pinHash.digest ↔ KeptText customer.pinHash.digest := by
    rw [columnText_eq h rfl, sentText_read]
  obtain ⟨id, name, ⟨algorithm, salt, digest⟩, role⟩ := customer
  unfold Customer.Kept
  rw [← hname, ← halgorithm, ← hsalt, ← hdigest]
  unfold readCustomer
  rw [hid, hrole, Role.fromString_toString]
  simp

def AuditRecord.cut (e : AuditRecord) : AuditRecord := { e with timestamp := fromUnixMs (toUnixMs e.timestamp) }

theorem AuditRecord.cut_id (e : AuditRecord) : e.cut.id = e.id := by rw [cut]

end Readers

section Written

variable {κ α : Type} {c : Connection κ} {holds : κ → Contents} {k k' : κ} {w : Write} {q : Query} {what : String}

structure Write.ListedBy (w : Write) (q : Query) : Prop where
  table : q.table = w.insert.table
  columns : q.columns = w.insert.columns
  first : q.columns.head? = some "id"

theorem gives_written {row : Stored} {cells : Row} (hl : w.ListedBy q)
    (hrow : ∀ column ∈ w.insert.columns, row column = w.row column) (h : List.Forall₂ Gives (q.columns.map row) cells) :
    List.Forall₂ Gives (q.columns.map w.row) cells := by
  rwa [hl.columns, List.map_congr_left hrow, ← hl.columns] at h

theorem gives_id {row : Stored} {cells : Row} {id : Int64} (hfirst : q.columns.head? = some "id")
    (hid : row "id" = .int64 id) (h : List.Forall₂ Gives (q.columns.map row) cells) : columnI64 cells 0 = id := by
  apply columnI64_eq h
  rw [List.getElem?_map, List.head?_eq_getElem?.symm.trans hfirst, Option.map_some, hid]

theorem Connection.Stores.found (hs : c.Stores holds) (h : c.execute what w.insert.text w.bounds k = .ok () k')
    (hl : w.ListedBy q) (hselects : (c.reads k').Selects (holds k') q)
    (hwants : ∀ row, q.wants row = true ↔ row "id" = .int64 w.id) :
    ∃ cells, ((c.reads k').steps q.sql q.parameters).rows = [cells] ∧ List.Forall₂ Gives (q.columns.map w.row) cells := by
  obtain ⟨row, hrow, hsame⟩ := hs.written_row h
  have hgives := hselects.of_key (hs.keyed k' q.table) hwants
  rw [hl.table, hrow, Option.toList_some] at hgives
  obtain ⟨cells, rest, hcells, hrest, hrows⟩ := List.forall₂_cons_left_iff.mp hgives
  rw [List.forall₂_nil_left_iff.mp hrest] at hrows
  exact ⟨cells, hrows, gives_written hl hsame hcells⟩

theorem Connection.Stores.listed (hs : c.Stores holds) (h : c.execute what w.insert.text w.bounds k = .ok () k')
    (hl : w.ListedBy q) (hselects : (c.reads k').Selects (holds k') q)
    (hwants : ∀ row, (∀ column ∈ w.insert.columns, row column = w.row column) → q.wants row = true) :
    (∃ cells ∈ ((c.reads k').steps q.sql q.parameters).rows, List.Forall₂ Gives (q.columns.map w.row) cells) ∧
    ∀ cells ∈ ((c.reads k').steps q.sql q.parameters).rows, columnI64 cells 0 = w.id →
      List.Forall₂ Gives (q.columns.map w.row) cells := by
  obtain ⟨row, hrow, hsame⟩ := hs.written_row h
  obtain ⟨selected, -, hmem, -, hgives⟩ := hselects.rows
  rw [← hl.table] at hrow
  constructor
  · obtain ⟨cells, hcells, hgiven⟩ := exists_of_mem_left hgives ((hmem row).mpr ⟨⟨w.id, hrow⟩, hwants row hsame⟩)
    exact ⟨cells, hcells, gives_written hl hsame hgiven⟩
  · intro cells hcells hid
    obtain ⟨stored, hstored, hgiven⟩ := exists_of_mem_right hgives hcells
    obtain ⟨⟨id, hfound⟩, -⟩ := (hmem stored).mp hstored
    obtain rfl := (gives_id hl.first (hs.keyed k' q.table id stored hfound) hgiven).symm.trans hid
    obtain rfl := Option.some.inj (hrow.symm.trans hfound)
    exact gives_written hl hsame hgiven

end Written

theorem audit_returns {db : SqliteDatabase} {t : Contents} {filter : AuditFilter} (h : db.Selects t (.audit filter)) :
    ∃ l, SqliteAuditRepository.find filter db = .ok l ∧
      (db.steps (SqliteAuditRepository.findSql filter) (SqliteAuditRepository.parameters filter)).rows.map readAudit =
        l.map .ok := by
  have hread (rows : List Row) : ∃ l : List AuditRecord, rows.map readAudit = l.map .ok := by
    induction rows with
    | nil => exact ⟨[], rfl⟩
    | cons row rows ih =>
      obtain ⟨l, hl⟩ := ih
      exact ⟨_ :: l, congrArg₂ List.cons rfl hl⟩
  obtain ⟨l, hl⟩ := hread _
  exact ⟨l, h.taken.query hl, hl⟩

section ReadsBack

open SqliteDatabase

variable {κ : Type} {c : Connection κ} {holds : κ → Contents} {k k' : κ}
variable (hs : c.Stores holds) (hselects : ∀ q, (c.reads k').Selects (holds k') q)

include hs hselects

end ReadsBack

theorem Tables.append_returns (entry : AuditRecord)
    (hsize : textSize (SqliteAuditRepository.appended entry) ≤ Tables.limit) :
    ∃ t, SqliteAuditRepository.append Tables.connection entry Tables.empty = .ok () t := by
  have howned : (Tables.empty.holds.write "audit_log" (Write.audit entry).id (some (Write.audit entry).row)).Owned :=
    (Tables.connection_keepsSchema.owned Tables.empty).write_free (by decide) (by decide)
  obtain ⟨t, ht, -⟩ := Tables.connection_keepsSchema.accepts (w := .audit entry) rfl howned hsize
  exact ⟨t, ht⟩

def earlyLogin : AuditRecord := ⟨1, 5000001, 3, ascii "LOGIN", ascii "ok"⟩

end BankManagement
