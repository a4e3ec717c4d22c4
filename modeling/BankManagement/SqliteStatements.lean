import BankManagement.AuthService
import BankManagement.Serializer
import BankManagement.Sqlite
import BankManagement.Throwing
import Mathlib.Data.List.Forall2
import Mathlib.Data.List.TakeWhile
import Mathlib.Logic.Function.Basic

/-!
The statements of the repositories over a connection to SQLite, which is given. What is assumed of it is what
SQLite documents: what a statement leaves in its table, and which rows a query steps through.
-/

namespace BankManagement

open Throwing

abbrev Stored := String → Bound

/-- `INSERT INTO`, the parameters numbered as the columns stand; `updates` are the columns that
`ON CONFLICT(id)` takes over, and the statement has no such clause where there are none. -/
structure Insert where
  table : String
  columns : List String
  updates : List String

namespace Insert

def text (i : Insert) : String :=
  "INSERT INTO " ++ i.table ++ " (" ++ ", ".intercalate i.columns ++ ") VALUES (" ++
    ", ".intercalate ((List.range i.columns.length).map fun k => "?" ++ toString (k + 1)) ++ ")" ++
    (if i.updates.isEmpty then "" else " ON CONFLICT(id) DO UPDATE SET " ++
      ", ".intercalate (i.updates.map fun column => column ++ "=excluded." ++ column)) ++ ";"

def values (i : Insert) (bounds : List (ℕ × Bound)) : Stored := fun column =>
  (((i.columns.zipIdx 1).lookup column).bind fun number => bounds.lookup number).getD .null

/-- What the statement asks to be stored in the place of `old`; `none` is a key that is taken. -/
def row (i : Insert) (bounds : List (ℕ × Bound)) : Option Stored → Option Stored
  | none => some (i.values bounds)
  | some old =>
    if i.updates = [] then none
    else some fun column => if column ∈ i.updates then i.values bounds column else old column

end Insert

def selectText (columns : List String) (table rest : String) : String :=
  "SELECT " ++ ", ".intercalate columns ++ " FROM " ++ table ++ rest

namespace Role

def toString : Role → Bytes
  | .customer => ascii "customer"
  | .teller => ascii "teller"
  | .admin => ascii "admin"

def fromString (text : Bytes) : Option Role :=
  if text = ascii "customer" then some .customer
  else if text = ascii "teller" then some .teller
  else if text = ascii "admin" then some .admin
  else none

theorem fromString_toString (role : Role) : fromString role.toString = some role := by
  cases role <;> decide

end Role

def readCustomer (row : Row) : Except Exn Customer :=
  let id := (columnI64 row 0).toUInt64
  let pinHash := { algorithm := columnText row 2, salt := columnText row 3, digest := columnText row 4 }
  match Role.fromString (columnText row 5) with
  | none => .error "corrupt customer row: unknown role"
  | some role => .ok { id, name := columnText row 1, pinHash, role }

def sqliteOk : Int := 0

def SqliteDatabase.first {α : Type} (db : SqliteDatabase) (errmsg : Int → String) (what sql : String)
    (parameters : List (ℕ × Bound)) (read : Row → Except Exn α) : Except Exn (Option α) :=
  match db.prepare what sql with
  | .error e => .error e
  | .ok () => match db.bind sql parameters with
    | .error e => .error e
    | .ok () => match (db.steps sql parameters).results with
      | [] => .ok none
      | (rc, row) :: _ =>
        if rc = sqliteDone then .ok none
        else if rc = sqliteOk ∨ rc = sqliteRow then (read row).map some
        else .error (what ++ " failed: " ++ errmsg rc)

/-- SQLite, of whose states only this is known: what a query gets, and what one step of a statement that
writes returns and leaves. -/
structure Connection (κ : Type) where
  reads : κ → SqliteDatabase
  step : String → List (ℕ × Bound) → κ → Int × κ
  errmsg : κ → Int → String

/-- `Statement`, the binds and the single step of the functions that write. -/
def Connection.execute {κ : Type} (c : Connection κ) (what sql : String) (parameters : List (ℕ × Bound)) :
    Program Exn κ Unit := fun k =>
  match (c.reads k).prepare what sql with
  | .error e => .error e k
  | .ok () => match (c.reads k).bind sql parameters with
    | .error e => .error e k
    | .ok () =>
      let (rc, k') := c.step sql parameters k
      if rc = sqliteOk ∨ rc = sqliteRow ∨ rc = sqliteDone then .ok () k'
      else .error (what ++ " failed: " ++ c.errmsg k' rc) k'

namespace SqliteAccountRepository

variable {κ : Type}

def columns : List String := ["id", "owner_id", "balance_cents", "status", "version"]

def saveStatement : Insert where
  table := "accounts"
  columns := ["id", "owner_id", "balance_cents", "status", "version"]
  updates := ["owner_id", "balance_cents", "status", "version"]

def findSql : String := selectText columns "accounts" " WHERE id = ?1;"

def removeSql : String := "DELETE FROM accounts WHERE id = ?1;"

example : saveStatement.text =
    "INSERT INTO accounts (id, owner_id, balance_cents, status, version) VALUES (?1, ?2, ?3, ?4, ?5) " ++
      "ON CONFLICT(id) DO UPDATE SET owner_id=excluded.owner_id, balance_cents=excluded.balance_cents, " ++
      "status=excluded.status, version=excluded.version;" := by decide +kernel

example : allSql = selectText columns "accounts" " ORDER BY id;" := by decide +kernel

def findById (errmsg : Int → String) (id : AccountId) (db : SqliteDatabase) : Except Exn (Option Account) :=
  db.first errmsg "accounts.find" findSql [(1, .int64 id.toInt64)] readAccount

def saved (account : Account) : List (ℕ × Bound) :=
  [(1, .int64 account.id.toInt64), (2, .int64 account.ownerId.toInt64), (3, .int64 (Int64.ofNat account.balance.cents)),
    (4, bindText account.status.toString), (5, .int64 account.version.toInt64)]

def save (c : Connection κ) (account : Account) : Program Exn κ Unit :=
  c.execute "accounts.save" saveStatement.text (saved account)

def remove (c : Connection κ) (id : AccountId) : Program Exn κ Unit :=
  c.execute "accounts.remove" removeSql [(1, .int64 id.toInt64)]

end SqliteAccountRepository

namespace SqliteCustomerRepository

variable {κ : Type}

def columns : List String := ["id", "name", "pin_algorithm", "pin_salt", "pin_digest", "role"]

def saveStatement : Insert where
  table := "customers"
  columns := ["id", "name", "pin_algorithm", "pin_salt", "pin_digest", "role"]
  updates := ["name", "pin_algorithm", "pin_salt", "pin_digest", "role"]

def findSql : String := selectText columns "customers" " WHERE id = ?1;"

example : saveStatement.text =
    "INSERT INTO customers (id, name, pin_algorithm, pin_salt, pin_digest, role) VALUES (?1, ?2, ?3, ?4, ?5, ?6) " ++
      "ON CONFLICT(id) DO UPDATE SET name=excluded.name, pin_algorithm=excluded.pin_algorithm, " ++
      "pin_salt=excluded.pin_salt, pin_digest=excluded.pin_digest, role=excluded.role;" := by decide +kernel

def findById (errmsg : Int → String) (id : CustomerId) (db : SqliteDatabase) : Except Exn (Option Customer) :=
  db.first errmsg "customers.find" findSql [(1, .int64 id.toInt64)] readCustomer

def saved (customer : Customer) : List (ℕ × Bound) :=
  [(1, .int64 customer.id.toInt64), (2, bindText customer.name), (3, bindText customer.pinHash.algorithm),
    (4, bindText customer.pinHash.salt), (5, bindText customer.pinHash.digest), (6, bindText customer.role.toString)]

def save (c : Connection κ) (customer : Customer) : Program Exn κ Unit :=
  c.execute "customers.save" saveStatement.text (saved customer)

end SqliteCustomerRepository

namespace SqliteTransactionRepository

variable {κ : Type}

def columns : List String := ["id", "timestamp_ms", "type", "state", "from_id", "to_id", "amount_cents"]

def appendStatement : Insert where
  table := "transactions"
  columns := ["id", "timestamp_ms", "type", "state", "from_id", "to_id", "amount_cents"]
  updates := []

example : appendStatement.text =
    "INSERT INTO transactions (id, timestamp_ms, type, state, from_id, to_id, amount_cents) " ++
      "VALUES (?1, ?2, ?3, ?4, ?5, ?6, ?7);" := by decide +kernel

example : forAccountSql = selectText columns "transactions" " WHERE from_id = ?1 OR to_id = ?1 ORDER BY id;" ∧
    allSql = selectText columns "transactions" " ORDER BY id;" := by decide +kernel

def appended (record : TransactionRecord) : List (ℕ × Bound) :=
  [(1, .int64 record.id.toInt64), (2, .int64 (toUnixMs record.timestamp)), (3, bindText record.type.toString),
    (4, bindText record.state.toString), (5, bindIntegerId record.fromId), (6, bindIntegerId record.toId),
    (7, .int64 (Int64.ofNat record.amount.cents))]

def append (c : Connection κ) (record : TransactionRecord) : Program Exn κ Unit :=
  c.execute "transactions.append" appendStatement.text (appended record)

end SqliteTransactionRepository

namespace SqliteAuditRepository

variable {κ : Type}

def columns : List String := ["id", "timestamp_ms", "actor_id", "action", "details"]

def appendStatement : Insert where
  table := "audit_log"
  columns := ["id", "timestamp_ms", "actor_id", "action", "details"]
  updates := []

example : appendStatement.text =
    "INSERT INTO audit_log (id, timestamp_ms, actor_id, action, details) VALUES (?1, ?2, ?3, ?4, ?5);" := by
  decide +kernel

example : findSql ⟨none, none, none⟩ = selectText columns "audit_log" " ORDER BY timestamp_ms;" := by decide +kernel

def appended (entry : AuditRecord) : List (ℕ × Bound) :=
  [(1, .int64 entry.id.toInt64), (2, .int64 (toUnixMs entry.timestamp)), (3, .int64 entry.actorId.toInt64),
    (4, bindText entry.action), (5, bindText entry.details)]

def append (c : Connection κ) (entry : AuditRecord) : Program Exn κ Unit :=
  c.execute "audit.append" appendStatement.text (appended entry)

/-- The comparison of two values of one type. `NULL`, on either side, satisfies none. -/
def Comparison.holds : Comparison → Bound → Bound → Bool
  | .eq, .int64 x, .int64 y => decide (x = y)
  | .ge, .int64 x, .int64 y => decide (y ≤ x)
  | .eq, .text x, .text y => decide (x = y)
  | .ge, .text x, .text y => decide (¬ x < y)
  | _, _, _ => false

def Clause.holds (c : Clause) (parameters : List (ℕ × Bound)) (row : Stored) : Bool :=
  match parameters.lookup c.parameter with
  | some parameter => c.comparison.holds (row c.column) parameter
  | none => false

end SqliteAuditRepository

inductive Write
  | customer (customer : Customer)
  | account (account : Account)
  | transaction (record : TransactionRecord)
  | audit (entry : AuditRecord)

namespace Write

def insert : Write → Insert
  | .customer _ => SqliteCustomerRepository.saveStatement
  | .account _ => SqliteAccountRepository.saveStatement
  | .transaction _ => SqliteTransactionRepository.appendStatement
  | .audit _ => SqliteAuditRepository.appendStatement

def bounds : Write → List (ℕ × Bound)
  | .customer c => SqliteCustomerRepository.saved c
  | .account a => SqliteAccountRepository.saved a
  | .transaction r => SqliteTransactionRepository.appended r
  | .audit e => SqliteAuditRepository.appended e

def id : Write → Int64
  | .customer c => c.id.toInt64
  | .account a => a.id.toInt64
  | .transaction r => r.id.toInt64
  | .audit e => e.id.toInt64

def row (w : Write) : Stored := w.insert.values w.bounds

theorem row_id (w : Write) : w.row "id" = .int64 w.id := by cases w <;> rfl

end Write

inductive Query
  | customer (id : CustomerId)
  | account (id : AccountId)
  | accounts
  | forAccount (id : AccountId)
  | transactions
  | audit (filter : AuditFilter)

namespace Query

open SqliteAuditRepository (Comparison)

def sql : Query → String
  | .customer _ => SqliteCustomerRepository.findSql
  | .account _ => SqliteAccountRepository.findSql
  | .accounts => SqliteAccountRepository.allSql
  | .forAccount _ => SqliteTransactionRepository.forAccountSql
  | .transactions => SqliteTransactionRepository.allSql
  | .audit filter => SqliteAuditRepository.findSql filter

def parameters : Query → List (ℕ × Bound)
  | .customer id | .account id | .forAccount id => [(1, .int64 id.toInt64)]
  | .accounts | .transactions => []
  | .audit filter => SqliteAuditRepository.parameters filter

def table : Query → String
  | .customer _ => "customers"
  | .account _ | .accounts => "accounts"
  | .forAccount _ | .transactions => "transactions"
  | .audit _ => "audit_log"

def columns : Query → List String
  | .customer _ => SqliteCustomerRepository.columns
  | .account _ | .accounts => SqliteAccountRepository.columns
  | .forAccount _ | .transactions => SqliteTransactionRepository.columns
  | .audit _ => SqliteAuditRepository.columns

def wants : Query → Stored → Bool
  | .customer id, row | .account id, row => Comparison.eq.holds (row "id") (.int64 id.toInt64)
  | .forAccount id, row =>
    Comparison.eq.holds (row "from_id") (.int64 id.toInt64) || Comparison.eq.holds (row "to_id") (.int64 id.toInt64)
  | .accounts, _ | .transactions, _ => true
  | .audit filter, row =>
    (SqliteAuditRepository.clauses filter).all fun c => c.holds (SqliteAuditRepository.parameters filter) row

def order : Query → Option String
  | .customer _ | .account _ => none
  | .accounts | .forAccount _ | .transactions => some "id"
  | .audit _ => some "timestamp_ms"

end Query

end BankManagement
