import BankManagement.KeyedTable
import BankManagement.SqliteContents
import Mathlib.Data.List.Sort

/-!
A database of lists of rows, which does what is assumed of SQLite.
-/

namespace BankManagement

open KeyedTable

def rowId (row : Stored) : Int64 := match row "id" with
  | .int64 id => id
  | _ => 0

def Bound.cell : Bound → Cell
  | .null => ⟨true, 0, []⟩
  | .int64 value => ⟨false, value, []⟩
  | .text bytes => ⟨false, 0, bytes⟩

def cells (columns : List String) (row : Stored) : Row := columns.map fun column => (row column).cell

section Rows

variable {rows : String → List Stored} {table : String} {id : Int64} {row : Stored}

def contents (rows : String → List Stored) : Contents := fun table id => find rowId id (rows table)

theorem contents_upsert : contents (Function.update rows table (upsert rowId row (rows table))) =
    (contents rows).write table (rowId row) (some row) := by
  funext other id
  by_cases ho : other = table
  · subst ho
    rw [Contents.write_self, contents, Function.update_self, find_upsert, Function.update_apply]
    rfl
  · rw [Contents.write_other ho, contents, Function.update_of_ne ho]
    rfl

theorem contents_erase : contents (Function.update rows table (erase rowId id (rows table))) =
    (contents rows).write table id none := by
  funext other id'
  by_cases ho : other = table
  · subst ho
    rw [Contents.write_self, contents, Function.update_self, find_erase, Function.update_apply]
    rfl
  · rw [Contents.write_other ho, contents, Function.update_of_ne ho]
    rfl

def Refers (rows : String → List Stored) : Prop :=
  ∀ row ∈ rows "accounts", ∃ owner ∈ rows "customers", row "owner_id" = owner "id"

instance : Decidable (Refers rows) := inferInstanceAs (Decidable (∀ row ∈ rows "accounts", _))

variable (hkeyed : ∀ table, ∀ row ∈ rows table, row "id" = .int64 (rowId row))

include hkeyed in
theorem contents_keyed (h : contents rows table id = some row) : row "id" = .int64 id := by
  rw [← find_key h]
  exact hkeyed table row (find_mem h)

include hkeyed in
theorem refers_iff (hdistinct : ∀ table, ((rows table).map rowId).Nodup) : Refers rows ↔ (contents rows).Owned := by
  constructor
  · intro h id row hrow
    obtain ⟨owner, howner, hid⟩ := h row (find_mem hrow)
    refine ⟨rowId owner, hid.trans (hkeyed "customers" owner howner), ?_⟩
    rw [contents, find_of_mem (hdistinct "customers") howner]
    exact Option.some_ne_none owner
  · intro h row hrow
    obtain ⟨id, hid, hsome⟩ := h (rowId row) row (find_of_mem (hdistinct "accounts") hrow)
    obtain ⟨owner, howner⟩ := Option.ne_none_iff_exists'.mp hsome
    exact ⟨owner, find_mem howner, hid.trans (contents_keyed hkeyed howner).symm⟩

end Rows

structure Tables where
  rows : String → List Stored
  keyed : ∀ table, ∀ row ∈ rows table, row "id" = .int64 (rowId row)
  distinct : ∀ table, ((rows table).map rowId).Nodup
  refers : Refers rows

namespace Tables

def empty : Tables := ⟨fun _ => [], nofun, fun _ => List.nodup_nil, nofun⟩

def holds (t : Tables) : Contents := contents t.rows

theorem keyed_upsert (t : Tables) {table : String} {row : Stored} (hrow : row "id" = .int64 (rowId row)) (other : String) :
    ∀ row' ∈ Function.update t.rows table (upsert rowId row (t.rows table)) other, row' "id" = .int64 (rowId row') := by
  intro row' hmem
  by_cases ho : other = table
  · subst ho
    rw [Function.update_self] at hmem
    rcases mem_upsert hmem with rfl | hmem
    · exact hrow
    · exact t.keyed other row' hmem
  · rw [Function.update_of_ne ho] at hmem
    exact t.keyed other row' hmem

theorem distinct_upsert (t : Tables) (table : String) (row : Stored) (other : String) :
    ((Function.update t.rows table (upsert rowId row (t.rows table)) other).map rowId).Nodup := by
  by_cases ho : other = table
  · subst ho
    rw [Function.update_self]
    exact upsert_nodup (t.distinct other) row
  · rw [Function.update_of_ne ho]
    exact t.distinct other

def place (t : Tables) (table : String) (row : Stored) : Option Tables :=
  let rows := Function.update t.rows table (upsert rowId row (t.rows table))
  if h : row "id" = .int64 (rowId row) ∧ Refers rows then
    some ⟨rows, t.keyed_upsert h.1, t.distinct_upsert table row, h.2⟩
  else none

theorem place_holds {t t' : Tables} {table : String} {row : Stored} (h : t.place table row = some t') :
    t'.holds = t.holds.write table (rowId row) (some row) := by
  unfold place at h
  dsimp only at h
  split_ifs at h
  obtain rfl := Option.some.inj h
  exact contents_upsert

theorem exists_place {t : Tables} {table : String} {row : Stored} (hrow : row "id" = .int64 (rowId row))
    (howned : (t.holds.write table (rowId row) (some row)).Owned) : ∃ t', t.place table row = some t' := by
  unfold place
  dsimp only
  have hrefers : Refers (Function.update t.rows table (upsert rowId row (t.rows table))) := by
    apply (refers_iff (t.keyed_upsert hrow) (t.distinct_upsert table row)).mpr
    rw [contents_upsert]
    exact howned
  rw [dif_pos ⟨hrow, hrefers⟩]
  exact ⟨_, rfl⟩

theorem remove_refers (t : Tables) (id : Int64) :
    Refers (Function.update t.rows "accounts" (erase rowId id (t.rows "accounts"))) := by
  intro row hrow
  rw [Function.update_self] at hrow
  rw [Function.update_of_ne (by decide)]
  exact t.refers row (List.mem_of_mem_filter hrow)

theorem remove_keyed (t : Tables) (id : Int64) (table : String) :
    ∀ row ∈ Function.update t.rows "accounts" (erase rowId id (t.rows "accounts")) table,
      row "id" = .int64 (rowId row) := by
  intro row hrow
  by_cases ht : table = "accounts"
  · subst ht
    rw [Function.update_self] at hrow
    exact t.keyed "accounts" row (List.mem_of_mem_filter hrow)
  · rw [Function.update_of_ne ht] at hrow
    exact t.keyed table row hrow

theorem remove_distinct (t : Tables) (id : Int64) (table : String) :
    ((Function.update t.rows "accounts" (erase rowId id (t.rows "accounts")) table).map rowId).Nodup := by
  by_cases ht : table = "accounts"
  · subst ht
    rw [Function.update_self]
    exact erase_nodup (t.distinct "accounts") id
  · rw [Function.update_of_ne ht]
    exact t.distinct table

def remove (t : Tables) (id : Int64) : Tables where
  rows := Function.update t.rows "accounts" (erase rowId id (t.rows "accounts"))
  keyed := t.remove_keyed id
  distinct := t.remove_distinct id
  refers := t.remove_refers id

def limit : ℕ := 999999000

/-- The codes are those of `SQLITE_CONSTRAINT` and `SQLITE_TOOBIG`. -/
def insert (t : Tables) (i : Insert) (bounds : List (ℕ × Bound)) : Int × Tables :=
  if textSize bounds ≤ limit then
    match (i.row bounds (t.holds i.table (rowId (i.values bounds)))).bind (t.place i.table) with
    | some t' => (sqliteDone, t')
    | none => (19, t)
  else (18, t)

def step (sql : String) (bounds : List (ℕ × Bound)) (t : Tables) : Int × Tables :=
  if sql = SqliteCustomerRepository.saveStatement.text then t.insert SqliteCustomerRepository.saveStatement bounds
  else if sql = SqliteAccountRepository.saveStatement.text then t.insert SqliteAccountRepository.saveStatement bounds
  else if sql = SqliteTransactionRepository.appendStatement.text then
    t.insert SqliteTransactionRepository.appendStatement bounds
  else if sql = SqliteAuditRepository.appendStatement.text then t.insert SqliteAuditRepository.appendStatement bounds
  else match bounds with
    | [(_, .int64 id)] => (sqliteDone, t.remove id)
    | _ => (1, t)

def listed (t : Tables) (table : String) (order : Option String) (wants : Stored → Bool) : List Stored :=
  match order with
  | some column => ((t.rows table).filter wants).insertionSort fun a b => (a column).number ≤ (b column).number
  | none => (t.rows table).filter wants

def boundClauses (parameters : List (ℕ × Bound)) : List SqliteAuditRepository.Clause :=
  (if (parameters.lookup 1).isSome then [⟨"action", .eq, 1⟩] else []) ++
    (if (parameters.lookup 2).isSome then [⟨"actor_id", .eq, 2⟩] else []) ++
    (if (parameters.lookup 3).isSome then [⟨"timestamp_ms", .ge, 3⟩] else [])

def selected (t : Tables) (sql : String) (parameters : List (ℕ × Bound)) : List Row :=
  let equals (value : Bound) := SqliteAuditRepository.Comparison.eq.holds value ((parameters.lookup 1).getD .null)
  if sql = SqliteCustomerRepository.findSql then
    (t.listed "customers" none fun row => equals (row "id")).map (cells SqliteCustomerRepository.columns)
  else if sql = SqliteAccountRepository.findSql then
    (t.listed "accounts" none fun row => equals (row "id")).map (cells SqliteAccountRepository.columns)
  else if sql = SqliteAccountRepository.allSql then
    (t.listed "accounts" (some "id") fun _ => true).map (cells SqliteAccountRepository.columns)
  else if sql = SqliteTransactionRepository.forAccountSql then
    (t.listed "transactions" (some "id") fun row => equals (row "from_id") || equals (row "to_id")).map
      (cells SqliteTransactionRepository.columns)
  else if sql = SqliteTransactionRepository.allSql then
    (t.listed "transactions" (some "id") fun _ => true).map (cells SqliteTransactionRepository.columns)
  else
    (t.listed "audit_log" (some "timestamp_ms") fun row =>
      (boundClauses parameters).all fun c => c.holds parameters row).map (cells SqliteAuditRepository.columns)

def connection : Connection Tables where
  reads t :=
    { prepareError := fun _ => none
      bindError := fun _ _ => none
      steps := fun sql parameters => ⟨t.selected sql parameters, sqliteDone, by decide⟩ }
  step := step
  errmsg _ _ := "constraint failed"

theorem take_append {a : String} (b : String) {n : ℕ} (h : n ≤ a.toList.length) :
    (a ++ b).toList.take n = a.toList.take n := by
  rw [String.toList_append, List.take_append_of_le_length h]

theorem findSql_ne (filter : AuditFilter) {sql : String} (h : sql.toList.take 30 ≠
    "SELECT id, timestamp_ms, actor_id, action, details FROM audit_log".toList.take 30) :
    SqliteAuditRepository.findSql filter ≠ sql := by
  rintro rfl
  apply h
  unfold SqliteAuditRepository.findSql
  rw [String.append_assoc]
  exact take_append _ (by decide +kernel)

theorem selected_query (t : Tables) (q : Query) :
    t.selected q.sql q.parameters = (t.listed q.table q.order q.wants).map (cells q.columns) := by
  cases q with
  | customer id =>
    unfold selected Query.sql
    dsimp only
    rw [if_pos rfl]
    rfl
  | account id =>
    unfold selected Query.sql
    dsimp only
    rw [if_neg (by decide +kernel), if_pos rfl]
    rfl
  | accounts =>
    unfold selected Query.sql
    dsimp only
    rw [if_neg (by decide +kernel), if_neg (by decide +kernel), if_pos rfl]
    rfl
  | forAccount id =>
    unfold selected Query.sql
    dsimp only
    rw [if_neg (by decide +kernel), if_neg (by decide +kernel), if_neg (by decide +kernel), if_pos rfl]
    rfl
  | transactions =>
    unfold selected Query.sql
    dsimp only
    rw [if_neg (by decide +kernel), if_neg (by decide +kernel), if_neg (by decide +kernel), if_neg (by decide +kernel),
      if_pos rfl]
    rfl
  | audit filter =>
    have hclauses : boundClauses (SqliteAuditRepository.parameters filter) = SqliteAuditRepository.clauses filter := by
      obtain ⟨action, actor, since⟩ := filter
      cases action <;> cases actor <;> cases since <;> rfl
    unfold selected Query.sql Query.parameters
    dsimp only
    rw [if_neg (findSql_ne filter (by decide +kernel)), if_neg (findSql_ne filter (by decide +kernel)),
      if_neg (findSql_ne filter (by decide +kernel)), if_neg (findSql_ne filter (by decide +kernel)),
      if_neg (findSql_ne filter (by decide +kernel)), hclauses]
    rfl

theorem cells_give (columns : List String) (row : Stored) :
    List.Forall₂ Gives (columns.map row) (cells columns row) := by
  rw [cells, List.forall₂_map_left_iff, List.forall₂_map_right_iff, List.forall₂_same]
  intro column _
  cases row column with
  | null => rfl
  | int64 value => exact ⟨rfl, rfl⟩
  | text bytes => exact ⟨rfl, rfl⟩

theorem listed_perm (t : Tables) (table : String) (order : Option String) (wants : Stored → Bool) :
    (t.listed table order wants).Perm ((t.rows table).filter wants) := by
  cases order with
  | none => exact .refl _
  | some column => exact List.perm_insertionSort _ _

theorem mem_rows (t : Tables) {table : String} {row : Stored} : row ∈ t.rows table ↔ ∃ id, t.holds table id = some row := by
  constructor
  · intro hrow
    exact ⟨rowId row, find_of_mem (t.distinct table) hrow⟩
  · rintro ⟨id, hrow⟩
    exact find_mem hrow

theorem connection_selects (t : Tables) (q : Query) : (connection.reads t).Selects t.holds q where
  taken := ⟨rfl, fun _ _ => rfl⟩
  rows := by
    refine ⟨t.listed q.table q.order q.wants, ?_, ?_, ?_, ?_⟩
    · have hids : ((t.rows q.table).map (· "id")).Nodup := by
        apply List.Nodup.of_map fun bound => match bound with | .int64 id => id | _ => 0
        rw [List.map_map]
        exact t.distinct q.table
      apply ((t.listed_perm q.table q.order q.wants).map _).nodup_iff.mpr
      exact hids.sublist (List.filter_sublist.map _)
    · intro row
      rw [(t.listed_perm q.table q.order q.wants).mem_iff, List.mem_filter, mem_rows]
    · intro column hcolumn
      rw [Option.mem_def.mp hcolumn]
      have htotal : Std.Total fun a b : Stored => (a column).number ≤ (b column).number := ⟨fun _ _ => Int.le_total _ _⟩
      have htrans : IsTrans Stored fun a b => (a column).number ≤ (b column).number := ⟨fun _ _ _ => Int.le_trans⟩
      exact List.pairwise_insertionSort _ _
    · change List.Forall₂ _ _ (t.selected q.sql q.parameters)
      rw [selected_query, List.forall₂_map_right_iff, List.forall₂_same]
      intro row _
      exact cells_give q.columns row
  terminal := rfl

theorem perform_eq (w : Write) (t : Tables) : connection.perform w t = t.insert w.insert w.bounds := by
  change Tables.step _ _ _ = _
  cases w with
  | customer c =>
    unfold Tables.step Write.insert
    dsimp only
    rw [if_pos rfl]
  | account a =>
    unfold Tables.step Write.insert
    dsimp only
    rw [if_neg (by decide +kernel), if_pos rfl]
  | transaction r =>
    unfold Tables.step Write.insert
    dsimp only
    rw [if_neg (by decide +kernel), if_neg (by decide +kernel), if_pos rfl]
  | audit e =>
    unfold Tables.step Write.insert
    dsimp only
    rw [if_neg (by decide +kernel), if_neg (by decide +kernel), if_neg (by decide +kernel), if_pos rfl]

theorem perform_cases (w : Write) (t : Tables) :
    (∃ row t', w.insert.row w.bounds (t.holds w.insert.table w.id) = some row ∧
      t.place w.insert.table row = some t' ∧ connection.perform w t = (sqliteDone, t')) ∨
    (connection.perform w t = (19, t) ∧ ∀ row, w.insert.row w.bounds (t.holds w.insert.table w.id) = some row →
      t.place w.insert.table row = none) ∨
    connection.perform w t = (18, t) ∧ limit < textSize w.bounds := by
  have hid : rowId (w.insert.values w.bounds) = w.id := by
    have hrow : w.insert.values w.bounds "id" = .int64 w.id := w.row_id
    rw [rowId, hrow]
  rw [perform_eq, insert, hid]
  split_ifs with hsize
  · cases hrow : w.insert.row w.bounds (t.holds w.insert.table w.id) with
    | none =>
      right; left
      exact ⟨rfl, nofun⟩
    | some row =>
      rw [Option.bind_some]
      cases hplace : t.place w.insert.table row with
      | none =>
        right; left
        refine ⟨rfl, ?_⟩
        rintro _ ⟨⟩
        exact hplace
      | some t' => exact .inl ⟨row, t', rfl, hplace, rfl⟩
  · exact .inr (.inr ⟨rfl, Nat.lt_of_not_le hsize⟩)

theorem row_int64 (t : Tables) {w : Write} {row : Stored}
    (h : w.insert.row w.bounds (t.holds w.insert.table w.id) = some row) : row "id" = .int64 w.id := by
  have hcolumn : "id" ∈ w.insert.columns := by cases w <;> exact List.mem_cons_self
  rw [← w.row_id]
  apply Insert.row_values w.updates_cover _ h "id" hcolumn
  intro old hold
  exact (contents_keyed t.keyed hold).trans w.row_id.symm

theorem connection_keepsSchema : connection.KeepsSchema holds limit where
  keyed t _ _ _ h := contents_keyed t.keyed h
  code w t := by
    have hcodes : ∀ rc ∈ [sqliteDone, 19, 18], rc ≠ sqliteOk ∧ rc ≠ sqliteRow := by decide
    apply hcodes
    obtain ⟨_, _, -, -, hperform⟩ | ⟨hperform, -⟩ | ⟨hperform, -⟩ := perform_cases w t <;> simp [hperform]
  stored w t hdone := by
    obtain ⟨row, t', hrow, hplace, hperform⟩ | ⟨hperform, -⟩ | ⟨hperform, -⟩ := perform_cases w t
    · have hid : rowId row = w.id := by rw [rowId, t.row_int64 hrow]
      rw [hperform, ← hid]
      exact ⟨row, hid ▸ hrow, place_holds hplace⟩
    · rw [hperform] at hdone
      cases hdone
    · rw [hperform] at hdone
      cases hdone
  owned t := (refers_iff t.keyed t.distinct).mp t.refers
  refused w t hdone := by
    obtain ⟨_, _, -, -, hperform⟩ | ⟨hperform, -⟩ | ⟨hperform, -⟩ := perform_cases w t
    · rw [hperform] at hdone
      exact absurd rfl hdone
    · rw [hperform]
    · rw [hperform]
  taken w t row hrow howned hsize := by
    refine ⟨⟨rfl, fun _ _ => rfl⟩, ?_⟩
    have hkey := t.row_int64 hrow
    have hid : rowId row = w.id := by rw [rowId, hkey]
    obtain ⟨_, _, -, -, hperform⟩ | ⟨-, hnone⟩ | ⟨-, hlarge⟩ := perform_cases w t
    · rw [hperform]
    · rw [← hid] at howned hkey
      obtain ⟨t', hplace⟩ := exists_place hkey howned
      cases hplace.symm.trans (hnone row hrow)
    · omega
  removed t id := by
    refine ⟨⟨rfl, fun _ _ => rfl⟩, ?_⟩
    have hstep : connection.step SqliteAccountRepository.removeSql [(1, .int64 id)] t = (sqliteDone, t.remove id) := by
      change Tables.step SqliteAccountRepository.removeSql [(1, .int64 id)] t = _
      unfold Tables.step
      rw [if_neg (by decide +kernel), if_neg (by decide +kernel), if_neg (by decide +kernel), if_neg (by decide +kernel)]
    rw [hstep]
    exact ⟨rfl, contents_erase⟩
  queried := connection_selects
  least := by decide
  most := by decide

end Tables

end BankManagement
