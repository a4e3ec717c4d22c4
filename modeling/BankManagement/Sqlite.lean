import BankManagement.Domain

/-!
The queries of the SQLite repositories. What SQLite does (preparing, binding, stepping, the columns of a row)
is given; the statements, the loop over the rows and the row readers are those of the source.
-/

namespace BankManagement

structure Cell where
  isNull : Bool
  int64 : Int64
  text : Bytes

abbrev Row := List Cell

inductive Bound
  | null
  | int64 (value : Int64)
  | text (bytes : Bytes)
  deriving DecidableEq

/-- What `sqlite3_bind_text` is given: the size goes through an `int`, and a negative one stands for
the bytes before the first zero byte. -/
def sentText (value : Bytes) : Bytes :=
  let size := value.length % 2 ^ 32
  if 2 ^ 31 ≤ size then value.takeWhile (· ≠ 0) else value.take size

def bindText (value : Bytes) : Bound := .text (sentText value)

def bindIntegerId : Option AccountId → Bound
  | some id => .int64 id.toInt64
  | none => .null

def Bound.what : Bound → String
  | .null => "bind null"
  | .int64 _ => "bind int64"
  | .text _ => "bind text"

def sqliteRow : Int := 100
def sqliteDone : Int := 101

structure Steps where
  rows : List Row
  terminal : Int
  ends : terminal ≠ sqliteRow

def Steps.results (s : Steps) : List (Int × Row) := s.rows.map (fun row => (sqliteRow, row)) ++ [(s.terminal, [])]

structure SqliteDatabase where
  prepareError : String → Option String
  bindError : String → ℕ × Bound → Option String
  steps : String → List (ℕ × Bound) → Steps

namespace SqliteDatabase

variable {α : Type}

def prepare (db : SqliteDatabase) (what sql : String) : Except Exn Unit :=
  match db.prepareError sql with
  | some message => .error (what ++ " prepare failed: " ++ message)
  | none => .ok ()

def bind (db : SqliteDatabase) (sql : String) : List (ℕ × Bound) → Except Exn Unit
  | [] => .ok ()
  | (index, value) :: rest => match db.bindError sql (index, value) with
    | some message => .error (value.what ++ " failed: " ++ message)
    | none => bind db sql rest

/-- The loop of the queries. Any code but `SQLITE_ROW` ends it. -/
def collect (read : Row → Except Exn α) (out : List α) : List (Int × Row) → Except Exn (List α)
  | [] => .ok out
  | (rc, row) :: rest =>
    if rc = sqliteRow then match read row with
      | .error e => .error e
      | .ok a => collect read (out ++ [a]) rest
    else .ok out

def query (db : SqliteDatabase) (what sql : String) (parameters : List (ℕ × Bound)) (read : Row → Except Exn α) :
    Except Exn (List α) :=
  match db.prepare what sql with
  | .error e => .error e
  | .ok () => match db.bind sql parameters with
    | .error e => .error e
    | .ok () => collect read [] (db.steps sql parameters).results

end SqliteDatabase

def column (row : Row) (index : ℕ) : Cell := row.getD index ⟨true, 0, []⟩

def columnI64 (row : Row) (index : ℕ) : Int64 := (column row index).int64

/-- The text goes through a C string, which ends at the first zero byte. -/
def columnText (row : Row) (index : ℕ) : Bytes :=
  if (column row index).isNull then [] else (column row index).text.takeWhile (· ≠ 0)

def moneyOf (cents : Int64) : Except Exn Money :=
  if h : cents < 0 then .error "Money: negative amounts are not representable" else .ok (Money.ofCents cents h)

def readAccount (row : Row) : Except Exn Account :=
  let id := (columnI64 row 0).toUInt64
  let ownerId := (columnI64 row 1).toUInt64
  match moneyOf (columnI64 row 2) with
  | .error e => .error e
  | .ok balance => match AccountStatus.fromString (columnText row 3) with
    | none => .error "corrupt account row: unknown status"
    | some status => .ok { id, ownerId, balance, status, version := (columnI64 row 4).toUInt64 }

def columnId (row : Row) (index : ℕ) : Option AccountId :=
  if (column row index).isNull then none else some (columnI64 row index).toUInt64

def readTransaction (row : Row) : Except Exn TransactionRecord :=
  match TransactionType.fromString (columnText row 2), TransactionState.fromString (columnText row 3) with
  | some type, some state => match moneyOf (columnI64 row 6) with
    | .error e => .error e
    | .ok amount => .ok { id := (columnI64 row 0).toUInt64, timestamp := fromUnixMs (columnI64 row 1), type, state,
                          fromId := columnId row 4, toId := columnId row 5, amount }
  | _, _ => .error "corrupt transaction row"

/-- An entry of the trail whose texts may be any bytes. -/
structure AuditRecord where
  id : UInt64
  timestamp : TimePoint
  actorId : CustomerId
  action : Bytes
  details : Bytes
  deriving DecidableEq

def readAudit (row : Row) : Except Exn AuditRecord :=
  .ok { id := (columnI64 row 0).toUInt64, timestamp := fromUnixMs (columnI64 row 1),
        actorId := (columnI64 row 2).toUInt64, action := columnText row 3, details := columnText row 4 }

namespace SqliteAccountRepository

def allSql : String := "SELECT id, owner_id, balance_cents, status, version FROM accounts ORDER BY id;"

def all (db : SqliteDatabase) : Except Exn (List Account) := db.query "accounts.all" allSql [] readAccount

end SqliteAccountRepository

namespace SqliteTransactionRepository

def forAccountSql : String :=
  "SELECT id, timestamp_ms, type, state, from_id, to_id, amount_cents " ++
    "FROM transactions WHERE from_id = ?1 OR to_id = ?1 ORDER BY id;"

def allSql : String :=
  "SELECT id, timestamp_ms, type, state, from_id, to_id, amount_cents FROM transactions ORDER BY id;"

def forAccount (id : AccountId) (db : SqliteDatabase) : Except Exn (List TransactionRecord) :=
  db.query "transactions.for_account" forAccountSql [(1, .int64 id.toInt64)] readTransaction

def all (db : SqliteDatabase) : Except Exn (List TransactionRecord) :=
  db.query "transactions.all" allSql [] readTransaction

end SqliteTransactionRepository

structure AuditFilter where
  action : Option Bytes
  actor : Option CustomerId
  since : Option TimePoint

namespace SqliteAuditRepository

inductive Comparison
  | eq
  | ge

structure Clause where
  column : String
  comparison : Comparison
  parameter : ℕ

def Clause.text (c : Clause) : String :=
  c.column ++ (match c.comparison with | .eq => " = ?" | .ge => " >= ?") ++ toString c.parameter

def clauses (filter : AuditFilter) : List Clause :=
  (if filter.action.isSome then [⟨"action", .eq, 1⟩] else []) ++
    (if filter.actor.isSome then [⟨"actor_id", .eq, 2⟩] else []) ++
    (if filter.since.isSome then [⟨"timestamp_ms", .ge, 3⟩] else [])

def findSql (filter : AuditFilter) : String :=
  "SELECT id, timestamp_ms, actor_id, action, details FROM audit_log" ++
    (if (clauses filter).isEmpty then "" else " WHERE " ++ " AND ".intercalate ((clauses filter).map Clause.text)) ++
    " ORDER BY timestamp_ms;"

example : findSql ⟨none, some 3, some 0⟩ =
    "SELECT id, timestamp_ms, actor_id, action, details FROM audit_log " ++
      "WHERE actor_id = ?2 AND timestamp_ms >= ?3 ORDER BY timestamp_ms;" := by decide +kernel

def parameters (filter : AuditFilter) : List (ℕ × Bound) :=
  (filter.action.map fun action => (1, bindText action)).toList ++
    (filter.actor.map fun actor => (2, Bound.int64 actor.toInt64)).toList ++
    (filter.since.map fun since => (3, Bound.int64 (toUnixMs since))).toList

def find (filter : AuditFilter) (db : SqliteDatabase) : Except Exn (List AuditRecord) :=
  db.query "audit.find" (findSql filter) (parameters filter) readAudit

end SqliteAuditRepository

namespace SqliteDatabase

variable {α : Type} {db : SqliteDatabase} {what sql : String} {parameters : List (ℕ × Bound)}
variable {read : Row → Except Exn α} {out l : List α}

def Stops (db : SqliteDatabase) (sql : String) (parameters : List (ℕ × Bound)) (read : Row → Except Exn α) : Prop :=
  (∃ message, db.prepareError sql = some message) ∨ (∃ p ∈ parameters, ∃ message, db.bindError sql p = some message) ∨
    ∃ row ∈ (db.steps sql parameters).rows, ∃ e, read row = .error e

def CompleteOrFails (read : Row → Except Exn α) (steps : Steps) (result : Except Exn (List α)) : Prop :=
  (∀ out, result = .ok out → steps.terminal = sqliteDone ∧ steps.rows.map read = out.map .ok) ∧
    (steps.terminal ≠ sqliteDone → ∃ e, result = .error e)

theorem collect_rows (read : Row → Except Exn α) (s : Steps) (out : List α) :
    (∃ row ∈ s.rows, ∃ e, read row = .error e) ∧ (∃ e, collect read out s.results = .error e) ∨
      ∃ l, s.rows.map read = l.map .ok ∧ collect read out s.results = .ok (out ++ l) := by
  obtain ⟨rows, terminal, ends⟩ := s
  induction rows generalizing out with
  | nil =>
    right
    refine ⟨[], rfl, ?_⟩
    change (if terminal = sqliteRow then _ else _) = _
    rw [if_neg ends, List.append_nil]
  | cons row rows ih =>
    cases hr : read row with
    | error e =>
      left
      refine ⟨⟨row, List.mem_cons_self, e, hr⟩, e, ?_⟩
      change (match read row with | .error e => _ | .ok a => _) = _
      rw [hr]
    | ok a =>
      have hstep : collect read out (Steps.results ⟨row :: rows, terminal, ends⟩) =
          collect read (out ++ [a]) (Steps.results ⟨rows, terminal, ends⟩) := by
        change (match read row with | .error e => _ | .ok a => _) = _
        rw [hr]
        rfl
      rw [hstep]
      obtain ⟨⟨bad, hbad, he⟩, herror⟩ | ⟨l, hl, hok⟩ := ih (out ++ [a])
      · exact .inl ⟨⟨bad, List.mem_cons_of_mem _ hbad, he⟩, herror⟩
      · right
        refine ⟨a :: l, ?_, ?_⟩
        · rw [List.map_cons, List.map_cons, hr]
          exact congrArg _ hl
        · rw [hok, List.append_assoc]
          rfl

theorem bind_cases (db : SqliteDatabase) (sql : String) (parameters : List (ℕ × Bound)) :
    (∃ p ∈ parameters, ∃ message, db.bindError sql p = some message) ∧ (∃ e, db.bind sql parameters = .error e) ∨
      (∀ p ∈ parameters, db.bindError sql p = none) ∧ db.bind sql parameters = .ok () := by
  induction parameters with
  | nil =>
    right
    exact ⟨by rintro p ⟨⟩, rfl⟩
  | cons p rest ih =>
    obtain ⟨index, value⟩ := p
    unfold bind
    cases hp : db.bindError sql (index, value) with
    | some message => exact .inl ⟨⟨(index, value), List.mem_cons_self, message, hp⟩, _, rfl⟩
    | none =>
      obtain ⟨⟨p, hmem, hp'⟩, herror⟩ | ⟨hnone, hok⟩ := ih
      · exact .inl ⟨⟨p, List.mem_cons_of_mem _ hmem, hp'⟩, herror⟩
      · exact .inr ⟨List.forall_mem_cons.mpr ⟨hp, hnone⟩, hok⟩

theorem query_cases (db : SqliteDatabase) (what sql : String) (parameters : List (ℕ × Bound))
    (read : Row → Except Exn α) :
    db.Stops sql parameters read ∧ (∃ e, db.query what sql parameters read = .error e) ∨
      ¬ db.Stops sql parameters read ∧
        ∃ l, (db.steps sql parameters).rows.map read = l.map .ok ∧ db.query what sql parameters read = .ok l := by
  unfold query prepare
  cases hp : db.prepareError sql with
  | some message => exact .inl ⟨.inl ⟨message, hp⟩, _, rfl⟩
  | none =>
    dsimp only
    obtain ⟨hbad, e, he⟩ | ⟨hbound, hok⟩ := bind_cases db sql parameters
    · rw [he]
      exact .inl ⟨.inr (.inl hbad), e, rfl⟩
    · rw [hok]
      dsimp only
      obtain ⟨hbad, herror⟩ | ⟨l, hl, hcollect⟩ := collect_rows read (db.steps sql parameters) []
      · exact .inl ⟨.inr (.inr hbad), herror⟩
      · right
        refine ⟨?_, l, hl, hcollect⟩
        rintro (⟨message, hm⟩ | ⟨p, hmem, message, hm⟩ | ⟨row, hrow, e, he⟩)
        · cases hp.symm.trans hm
        · cases (hbound p hmem).symm.trans hm
        · have hread : read row ∈ l.map .ok := by
            rw [← hl]
            exact List.mem_map_of_mem hrow
          obtain ⟨a, _, ha⟩ := List.mem_map.mp hread
          cases ha.trans he

theorem query_completeOrFails (what : String) :
    CompleteOrFails read (db.steps sql parameters) (db.query what sql parameters read) ↔
      (db.steps sql parameters).terminal = sqliteDone ∨ db.Stops sql parameters read := by
  obtain ⟨hstops, e, he⟩ | ⟨hstops, l, hl, hok⟩ := query_cases db what sql parameters read
  · rw [he]
    refine ⟨fun _ => .inr hstops, fun _ => ⟨?_, fun _ => ⟨e, rfl⟩⟩⟩
    rintro out ⟨⟩
  · rw [hok]
    constructor
    · intro h
      exact .inl (h.1 l rfl).1
    · intro h
      have hdone := h.resolve_right hstops
      refine ⟨?_, fun hne => absurd hdone hne⟩
      rintro out ⟨⟩
      exact ⟨hdone, hl⟩

end SqliteDatabase

open SqliteDatabase

/-- A repository returns all rows or throws where SQLite comes to the end, or something else makes it throw. -/
theorem reads_completeOrFails (db : SqliteDatabase) (id : AccountId) (filter : AuditFilter) :
    (CompleteOrFails readAccount (db.steps SqliteAccountRepository.allSql []) (SqliteAccountRepository.all db) ↔
      (db.steps SqliteAccountRepository.allSql []).terminal = sqliteDone ∨
        db.Stops SqliteAccountRepository.allSql [] readAccount) ∧
    (CompleteOrFails readTransaction (db.steps SqliteTransactionRepository.forAccountSql [(1, .int64 id.toInt64)])
        (SqliteTransactionRepository.forAccount id db) ↔
      (db.steps SqliteTransactionRepository.forAccountSql [(1, .int64 id.toInt64)]).terminal = sqliteDone ∨
        db.Stops SqliteTransactionRepository.forAccountSql [(1, .int64 id.toInt64)] readTransaction) ∧
    (CompleteOrFails readTransaction (db.steps SqliteTransactionRepository.allSql [])
        (SqliteTransactionRepository.all db) ↔
      (db.steps SqliteTransactionRepository.allSql []).terminal = sqliteDone ∨
        db.Stops SqliteTransactionRepository.allSql [] readTransaction) ∧
    (CompleteOrFails readAudit
        (db.steps (SqliteAuditRepository.findSql filter) (SqliteAuditRepository.parameters filter))
        (SqliteAuditRepository.find filter db) ↔
      (db.steps (SqliteAuditRepository.findSql filter) (SqliteAuditRepository.parameters filter)).terminal = sqliteDone ∨
        db.Stops (SqliteAuditRepository.findSql filter) (SqliteAuditRepository.parameters filter) readAudit) :=
  ⟨query_completeOrFails _, query_completeOrFails _, query_completeOrFails _, query_completeOrFails _⟩

def brokenDatabase : SqliteDatabase where
  prepareError _ := none
  bindError _ _ := none
  steps _ _ := ⟨[[⟨false, 1, ascii "1"⟩, ⟨false, 0, ascii "0"⟩, ⟨false, 0, ascii "deposit"⟩,
    ⟨false, 0, ascii "committed"⟩, ⟨true, 0, []⟩, ⟨false, 7, ascii "7"⟩, ⟨false, 5, ascii "5"⟩]], 10, by decide⟩

theorem brokenDatabase_truncates :
    SqliteTransactionRepository.all brokenDatabase = .ok [⟨1, 0, .deposit, .committed, none, some 7, 5⟩] ∧
    ¬ CompleteOrFails readTransaction (brokenDatabase.steps SqliteTransactionRepository.allSql [])
      (SqliteTransactionRepository.all brokenDatabase) := by
  have hread : SqliteTransactionRepository.all brokenDatabase =
      .ok [⟨1, 0, .deposit, .committed, none, some 7, 5⟩] := by rfl
  refine ⟨hread, ?_⟩
  rintro ⟨hcomplete, _⟩
  exact absurd (hcomplete _ hread).1 (by decide)

end BankManagement
