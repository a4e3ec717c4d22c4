import BankManagement.SqliteStatements

namespace BankManagement

open Throwing

/-- The rows of each table by their ids, which are its keys. -/
abbrev Contents := String → Int64 → Option Stored

namespace Contents

def empty : Contents := fun _ _ => none

def write (t : Contents) (table : String) (id : Int64) (row : Option Stored) : Contents :=
  Function.update t table (Function.update (t table) id row)

variable {t : Contents} {table table' : String} {id : Int64} {row : Option Stored}

theorem write_self : t.write table id row table = Function.update (t table) id row := Function.update_self _ _ _

theorem write_other (h : table' ≠ table) : t.write table id row table' = t table' := Function.update_of_ne h _ _

/-- The foreign key of the schema: an account refers to a customer. -/
def Owned (t : Contents) : Prop :=
  ∀ id row, t "accounts" id = some row → ∃ owner, row "owner_id" = .int64 owner ∧ t "customers" owner ≠ none

namespace Owned

theorem write_free (h : t.Owned) (ha : "accounts" ≠ table) (hc : "customers" ≠ table) : (t.write table id row).Owned := by
  intro id' account haccount
  rw [write_other ha] at haccount
  rw [write_other hc]
  exact h id' account haccount

theorem write_customer (h : t.Owned) (id : Int64) (row : Stored) : (t.write "customers" id (some row)).Owned := by
  intro id' account haccount
  rw [write_other (by decide)] at haccount
  obtain ⟨owner, howner, hsome⟩ := h id' account haccount
  refine ⟨owner, howner, ?_⟩
  rw [write_self, Function.update_apply]
  split_ifs
  · exact Option.some_ne_none row
  · exact hsome

theorem write_account (h : t.Owned) {row : Stored} {owner : Int64} (hrow : row "owner_id" = .int64 owner)
    (howner : t "customers" owner ≠ none) (id : Int64) : (t.write "accounts" id (some row)).Owned := by
  intro id' account haccount
  rw [write_other (by decide)]
  rw [write_self, Function.update_apply] at haccount
  split_ifs at haccount
  · obtain rfl := Option.some.inj haccount
    exact ⟨owner, hrow, howner⟩
  · exact h id' account haccount

end Owned

end Contents

theorem exists_of_mem_left {α β : Type} {R : α → β → Prop} {l : List α} {l' : List β} (h : List.Forall₂ R l l') {a : α}
    (ha : a ∈ l) : ∃ b ∈ l', R a b := by
  induction h with
  | nil => cases ha
  | @cons x y l l' hxy _ ih =>
    rcases List.mem_cons.mp ha with rfl | ha
    · exact ⟨y, List.mem_cons_self, hxy⟩
    · obtain ⟨b, hb, hab⟩ := ih ha
      exact ⟨b, List.mem_cons_of_mem y hb, hab⟩

theorem exists_of_mem_right {α β : Type} {R : α → β → Prop} {l : List α} {l' : List β} (h : List.Forall₂ R l l') {b : β}
    (hb : b ∈ l') : ∃ a ∈ l, R a b := exists_of_mem_left (R := flip R) h.flip hb

def Gives : Bound → Cell → Prop
  | .null, cell => cell.isNull = true
  | .int64 n, cell => cell.isNull = false ∧ cell.int64 = n
  | .text bytes, cell => cell.isNull = false ∧ cell.text = bytes

def Bound.number : Bound → ℤ
  | .int64 value => value.toInt
  | _ => 0

structure SqliteDatabase.Takes (db : SqliteDatabase) (sql : String) (parameters : List (ℕ × Bound)) : Prop where
  prepared : db.prepareError sql = none
  bound : ∀ p ∈ parameters, db.bindError sql p = none

/-- SQLite takes the query, steps once through each row that its `WHERE` holds of, in the order it asks for,
and comes to the end. -/
structure SqliteDatabase.Selects (db : SqliteDatabase) (t : Contents) (q : Query) : Prop where
  taken : db.Takes q.sql q.parameters
  rows : ∃ selected : List Stored, (selected.map (· "id")).Nodup ∧
    (∀ row, row ∈ selected ↔ (∃ id, t q.table id = some row) ∧ q.wants row = true) ∧
    (∀ column ∈ q.order, selected.Pairwise fun a b => (a column).number ≤ (b column).number) ∧
    List.Forall₂ (fun stored row => List.Forall₂ Gives (q.columns.map stored) row) selected
      (db.steps q.sql q.parameters).rows
  terminal : (db.steps q.sql q.parameters).terminal = sqliteDone

variable {κ : Type}

def Connection.perform (c : Connection κ) (w : Write) (k : κ) : Int × κ := c.step w.insert.text w.bounds k

/-- An `INSERT` yields no rows, and where it comes to its end the values are stored as they were bound. -/
structure Connection.Stores (c : Connection κ) (holds : κ → Contents) : Prop where
  keyed : ∀ k table id row, holds k table id = some row → row "id" = .int64 id
  code : ∀ w k, (c.perform w k).1 ≠ sqliteOk ∧ (c.perform w k).1 ≠ sqliteRow
  stored : ∀ w k, (c.perform w k).1 = sqliteDone →
    ∃ row, w.insert.row w.bounds (holds k w.insert.table w.id) = some row ∧
      holds (c.perform w k).2 = (holds k).write w.insert.table w.id (some row)

def Bound.textSize : Bound → ℕ
  | .text bytes => bytes.length
  | _ => 0

def textSize (bounds : List (ℕ × Bound)) : ℕ := (bounds.map fun p => p.2.textSize).sum

/-- Besides, with `foreign_keys` on and where no call fails for a reason outside of the tables: a statement that
does not come to its end has changed nothing, and one does come to its end unless it breaks a key or its texts
are more than `limit` bytes. -/
structure Connection.KeepsSchema (c : Connection κ) (holds : κ → Contents) (limit : ℕ) : Prop
    extends c.Stores holds where
  owned : ∀ k, (holds k).Owned
  refused : ∀ w k, (c.perform w k).1 ≠ sqliteDone → holds (c.perform w k).2 = holds k
  taken : ∀ w k row, w.insert.row w.bounds (holds k w.insert.table w.id) = some row →
    ((holds k).write w.insert.table w.id (some row)).Owned → textSize w.bounds ≤ limit →
    (c.reads k).Takes w.insert.text w.bounds ∧ (c.perform w k).1 = sqliteDone
  removed : ∀ k id, (c.reads k).Takes SqliteAccountRepository.removeSql [(1, .int64 id)] ∧
    (c.step SqliteAccountRepository.removeSql [(1, .int64 id)] k).1 = sqliteDone ∧
    holds (c.step SqliteAccountRepository.removeSql [(1, .int64 id)] k).2 = (holds k).write "accounts" id none
  queried : ∀ k q, (c.reads k).Selects (holds k) q
  least : 1000 ≤ limit
  most : limit < 2 ^ 31

namespace SqliteDatabase

variable {α : Type} {db : SqliteDatabase} {what sql : String} {parameters : List (ℕ × Bound)}

theorem Takes.prepare (h : db.Takes sql parameters) (what : String) : db.prepare what sql = .ok () := by
  unfold SqliteDatabase.prepare
  rw [h.prepared]

theorem Takes.bind (h : db.Takes sql parameters) : db.bind sql parameters = .ok () := by
  obtain ⟨⟨p, hp, message, hm⟩, _⟩ | ⟨_, hok⟩ := bind_cases db sql parameters
  · cases (h.bound p hp).symm.trans hm
  · exact hok

theorem Takes.query (h : db.Takes sql parameters) {read : Row → Except Exn α} {l : List α}
    (hread : (db.steps sql parameters).rows.map read = l.map .ok) : db.query what sql parameters read = .ok l := by
  obtain ⟨hstops, _⟩ | ⟨_, l', hl', hquery⟩ := query_cases db what sql parameters read
  · rcases hstops with ⟨message, hm⟩ | ⟨p, hp, message, hm⟩ | ⟨row, hrow, e, he⟩
    · cases h.prepared.symm.trans hm
    · cases (h.bound p hp).symm.trans hm
    · have hmem := List.mem_map_of_mem (f := read) hrow
      rw [hread, he] at hmem
      obtain ⟨a, _, ha⟩ := List.mem_map.mp hmem
      cases ha
  · rw [hquery, List.map_injective_iff.mpr (fun _ _ => Except.ok.inj) (hl'.symm.trans hread)]

theorem Takes.first_none (h : db.Takes sql parameters) {errmsg : Int → String} {read : Row → Except Exn α}
    (hterminal : (db.steps sql parameters).terminal = sqliteDone) (hrows : (db.steps sql parameters).rows = []) :
    db.first errmsg what sql parameters read = .ok none := by
  unfold SqliteDatabase.first
  rw [h.prepare, h.bind, Steps.results, hterminal, hrows]
  rfl

theorem Takes.first_some (h : db.Takes sql parameters) {errmsg : Int → String} {read : Row → Except Exn α} {row : Row}
    {rest : List Row} (hrows : (db.steps sql parameters).rows = row :: rest) :
    db.first errmsg what sql parameters read = (read row).map some := by
  unfold SqliteDatabase.first
  rw [h.prepare, h.bind, Steps.results, hrows]
  rfl

variable {t : Contents} {q : Query} {id : Int64}

theorem equals_int64 {bound : Bound} : SqliteAuditRepository.Comparison.eq.holds bound (.int64 id) = true ↔
    bound = .int64 id := by
  cases bound with
  | null => exact ⟨nofun, nofun⟩
  | int64 n => exact decide_eq_true_iff.trans (Bound.int64.injEq n id).symm.to_iff
  | text bytes => exact ⟨nofun, nofun⟩

theorem Selects.of_key (h : db.Selects t q) (hkeyed : ∀ id row, t q.table id = some row → row "id" = .int64 id)
    (hwants : ∀ row, q.wants row = true ↔ row "id" = .int64 id) :
    List.Forall₂ (fun stored row => List.Forall₂ Gives (q.columns.map stored) row) (t q.table id).toList
      (db.steps q.sql q.parameters).rows := by
  obtain ⟨selected, hnodup, hmem, -, hgives⟩ := h.rows
  have hselected : selected = (t q.table id).toList := by
    have hone (row : Stored) : row ∈ selected ↔ t q.table id = some row := by
      rw [hmem, hwants]
      constructor
      · rintro ⟨⟨id', hrow⟩, hid⟩
        rwa [← Bound.int64.inj ((hkeyed id' row hrow).symm.trans hid)]
      · intro hrow
        exact ⟨⟨id, hrow⟩, hkeyed id row hrow⟩
    have hperm : selected.Perm (t q.table id).toList := by
      apply (List.perm_ext_iff_of_nodup hnodup.of_map (Option.toList_nodup _)).mpr
      intro row
      rw [hone, Option.mem_toList]
    cases hrow : t q.table id with
    | none => rwa [hrow, Option.toList_none, List.perm_nil] at hperm
    | some row => rwa [hrow, Option.toList_some, List.perm_singleton] at hperm
  rw [← hselected]
  exact hgives

end SqliteDatabase

namespace Insert

variable {i : Insert} {bounds : List (ℕ × Bound)} {old : Option Stored} {row : Stored}

theorem row_values (hupdates : i.updates = [] ∨ ∀ column ∈ i.columns, column = "id" ∨ column ∈ i.updates)
    (hid : ∀ row, old = some row → row "id" = i.values bounds "id") (h : i.row bounds old = some row) :
    ∀ column ∈ i.columns, row column = i.values bounds column := by
  intro column hcolumn
  cases old with
  | none =>
    obtain rfl := Option.some.inj h
    rfl
  | some old =>
    unfold Insert.row at h
    dsimp only at h
    split_ifs at h with hnone
    obtain rfl := Option.some.inj h
    dsimp only
    split_ifs with hmem
    · rfl
    · obtain rfl := ((hupdates.resolve_left hnone) column hcolumn).resolve_right hmem
      exact hid old rfl

theorem row_free (hupdates : i.updates = []) (h : i.row bounds old = some row) : old = none ∧ row = i.values bounds := by
  cases old with
  | none => exact ⟨rfl, (Option.some.inj h).symm⟩
  | some old =>
    unfold Insert.row at h
    dsimp only at h
    rw [if_pos hupdates] at h
    cases h

theorem values_outside {column : String} (h : column ∉ i.columns) : i.values bounds column = .null := by
  have hlookup : (i.columns.zipIdx 1).lookup column = none := by
    apply List.lookup_eq_none_iff.mpr
    rintro ⟨c, n⟩ hmem
    have hc := (List.mk_mem_zipIdx_iff_le_and_getElem?_sub.mp hmem).2
    have hne : column ≠ c := fun he => h (he ▸ List.mem_of_getElem? hc)
    simpa using hne
  rw [values, hlookup]
  rfl

end Insert

theorem Write.updates_cover (w : Write) :
    w.insert.updates = [] ∨ ∀ column ∈ w.insert.columns, column = "id" ∨ column ∈ w.insert.updates := by
  have hcustomer : ∀ column ∈ SqliteCustomerRepository.saveStatement.columns,
      column = "id" ∨ column ∈ SqliteCustomerRepository.saveStatement.updates := by decide
  have haccount : ∀ column ∈ SqliteAccountRepository.saveStatement.columns,
      column = "id" ∨ column ∈ SqliteAccountRepository.saveStatement.updates := by decide
  cases w with
  | customer c => exact .inr hcustomer
  | account a => exact .inr haccount
  | transaction r => exact .inl rfl
  | audit e => exact .inl rfl

theorem Write.row_over {v w : Write} (hinsert : v.insert = w.insert) (hid : v.id = w.id)
    (hupdates : w.insert.updates ≠ []) : w.insert.row w.bounds (some v.row) = some w.row := by
  unfold Insert.row
  dsimp only
  rw [if_neg hupdates]
  congr 1
  funext column
  split_ifs with hmem
  · rfl
  · by_cases hin : column ∈ w.insert.columns
    · obtain rfl := ((w.updates_cover.resolve_left hupdates) column hin).resolve_right hmem
      rw [w.row_id, v.row_id, hid]
    · have hold : v.row column = .null := Insert.values_outside (hinsert ▸ hin)
      have hnew : w.row column = .null := Insert.values_outside hin
      rw [hold, hnew]

namespace Connection

variable {c : Connection κ} {holds : κ → Contents} {limit : ℕ} {k k' : κ} {w : Write} {what sql : String}
variable {parameters : List (ℕ × Bound)} {row : Stored}

theorem execute_ok (h : c.execute what sql parameters k = .ok () k') : ((c.step sql parameters k).1 = sqliteOk ∨
    (c.step sql parameters k).1 = sqliteRow ∨ (c.step sql parameters k).1 = sqliteDone) ∧
      (c.step sql parameters k).2 = k' := by
  unfold execute at h
  split at h
  · cases h
  · split at h
    · cases h
    · dsimp only at h
      split_ifs at h with hrc
      exact ⟨hrc, (EStateM.Result.ok.inj h).2⟩

theorem execute_done (h : (c.reads k).Takes sql parameters) (hdone : (c.step sql parameters k).1 = sqliteDone) :
    c.execute what sql parameters k = .ok () (c.step sql parameters k).2 := by
  unfold execute
  rw [h.prepare, h.bind]
  dsimp only
  rw [hdone, if_pos (.inr (.inr rfl))]

theorem Stores.written (hs : c.Stores holds) (h : c.execute what w.insert.text w.bounds k = .ok () k') :
    ∃ row, w.insert.row w.bounds (holds k w.insert.table w.id) = some row ∧
      holds k' = (holds k).write w.insert.table w.id (some row) := by
  obtain ⟨hcode, rfl⟩ := execute_ok h
  obtain ⟨hok, hrow⟩ := hs.code w k
  exact hs.stored w k ((hcode.resolve_left hok).resolve_left hrow)

theorem Stores.written_row (hs : c.Stores holds) (h : c.execute what w.insert.text w.bounds k = .ok () k') :
    ∃ row, holds k' w.insert.table w.id = some row ∧ ∀ column ∈ w.insert.columns, row column = w.row column := by
  obtain ⟨row, hrow, hholds⟩ := hs.written h
  refine ⟨row, ?_, Insert.row_values w.updates_cover ?_ hrow⟩
  · rw [hholds, Contents.write_self, Function.update_self]
  · intro old hold
    exact (hs.keyed k w.insert.table w.id old hold).trans w.row_id.symm

namespace KeepsSchema

theorem accepts (hs : c.KeepsSchema holds limit) (hrow : w.insert.row w.bounds (holds k w.insert.table w.id) = some row)
    (howned : ((holds k).write w.insert.table w.id (some row)).Owned) (hsize : textSize w.bounds ≤ limit) :
    ∃ k', c.execute what w.insert.text w.bounds k = .ok () k' ∧
      holds k' = (holds k).write w.insert.table w.id (some row) := by
  obtain ⟨htakes, hdone⟩ := hs.taken w k row hrow howned hsize
  obtain ⟨row', hrow', hholds⟩ := hs.stored w k hdone
  obtain rfl := Option.some.inj (hrow.symm.trans hrow')
  exact ⟨_, execute_done htakes hdone, hholds⟩

end KeepsSchema

end Connection

end BankManagement
