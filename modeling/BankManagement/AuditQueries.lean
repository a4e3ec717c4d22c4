import BankManagement.RowMapping

namespace BankManagement

open SqliteAuditRepository Throwing

namespace InMemoryAuditRepository

def find (filter : AuditFilter) : List AuditRecord → List AuditRecord
  | [] => []
  | entry :: rest =>
    if filter.action.any (· != entry.action) then find filter rest
    else if filter.actor.any (· != entry.actorId) then find filter rest
    else if filter.since.any (fun since => decide (entry.timestamp < since)) then find filter rest
    else entry :: find filter rest

end InMemoryAuditRepository

variable {filter : AuditFilter} {entry : AuditRecord} {entries : List AuditRecord}

def AuditFilter.Matches (filter : AuditFilter) (entry : AuditRecord) : Prop :=
  (∀ action, filter.action = some action → action = entry.action) ∧
    ∀ actor, filter.actor = some actor → actor = entry.actorId

theorem AuditFilter.any_ne {α : Type} [BEq α] [LawfulBEq α] {o : Option α} {x : α} :
    o.any (· != x) = false ↔ ∀ a, o = some a → a = x := by
  cases o <;> simp

theorem find_inMemory_filter : InMemoryAuditRepository.find filter entries = entries.filter fun entry =>
    !(filter.action.any (· != entry.action) || filter.actor.any (· != entry.actorId) ||
      filter.since.any fun since => decide (entry.timestamp < since)) := by
  induction entries with
  | nil => rfl
  | cons entry rest ih =>
    unfold InMemoryAuditRepository.find
    split_ifs with haction hactor hsince
    · rw [List.filter_cons_of_neg (by simp [haction]), ih]
    · rw [List.filter_cons_of_neg (by simp [hactor]), ih]
    · rw [List.filter_cons_of_neg (by simp [hsince]), ih]
    · rw [List.filter_cons_of_pos (by simp [haction, hactor, hsince]), ih]

theorem mem_find_inMemory : entry ∈ InMemoryAuditRepository.find filter entries ↔
    entry ∈ entries ∧ filter.Matches entry ∧ ∀ since, filter.since = some since → ¬ entry.timestamp < since := by
  have hsince : (filter.since.any fun since => decide (entry.timestamp < since)) = false ↔
      ∀ since, filter.since = some since → ¬ entry.timestamp < since := by
    cases filter.since <;> simp
  rw [find_inMemory_filter, List.mem_filter, Bool.not_eq_true', Bool.or_eq_false_iff, Bool.or_eq_false_iff,
    AuditFilter.any_ne, AuditFilter.any_ne, hsince]
  rfl

theorem parameters_lookup : (parameters filter).lookup 1 = filter.action.map bindText ∧
    (parameters filter).lookup 2 = filter.actor.map (fun actor => .int64 actor.toInt64) ∧
      (parameters filter).lookup 3 = filter.since.map (fun since => .int64 (toUnixMs since)) := by
  obtain ⟨action, actor, since⟩ := filter
  cases action <;> cases actor <;> cases since <;> exact ⟨rfl, rfl, rfl⟩

theorem action_holds : Clause.holds ⟨"action", .eq, 1⟩ (parameters filter) (Write.audit entry).row = true ↔
    ∃ action, filter.action = some action ∧ sentText action = sentText entry.action := by
  have hcolumn : (Write.audit entry).row "action" = bindText entry.action := rfl
  unfold Clause.holds
  rw [hcolumn, parameters_lookup.1]
  cases filter.action with
  | none => simp
  | some action =>
    apply decide_eq_true_iff.trans
    constructor
    · intro h
      exact ⟨action, rfl, h.symm⟩
    · rintro ⟨_, ⟨⟩, h⟩
      exact h.symm

theorem actor_holds : Clause.holds ⟨"actor_id", .eq, 2⟩ (parameters filter) (Write.audit entry).row = true ↔
    filter.actor = some entry.actorId := by
  have hcolumn : (Write.audit entry).row "actor_id" = .int64 entry.actorId.toInt64 := rfl
  unfold Clause.holds
  rw [hcolumn, parameters_lookup.2.1]
  cases filter.actor with
  | none => simp
  | some actor =>
    rw [Option.some.injEq]
    apply decide_eq_true_iff.trans
    constructor
    · intro h
      have hback := congrArg Int64.toUInt64 h
      simpa using hback.symm
    · rintro rfl
      rfl

theorem since_holds : Clause.holds ⟨"timestamp_ms", .ge, 3⟩ (parameters filter) (Write.audit entry).row = true ↔
    ∃ since, filter.since = some since ∧ toUnixMs since ≤ toUnixMs entry.timestamp := by
  have hcolumn : (Write.audit entry).row "timestamp_ms" = .int64 (toUnixMs entry.timestamp) := rfl
  unfold Clause.holds
  rw [hcolumn, parameters_lookup.2.2]
  cases filter.since with
  | none => simp
  | some since =>
    apply decide_eq_true_iff.trans
    simp

theorem wants_iff : (Query.audit filter).wants (Write.audit entry).row = true ↔
    (∀ action, filter.action = some action → sentText action = sentText entry.action) ∧
      (∀ actor, filter.actor = some actor → actor = entry.actorId) ∧
      ∀ since, filter.since = some since → toUnixMs since ≤ toUnixMs entry.timestamp := by
  have hclause {α : Type} (o : Option α) (c : Clause) : ((if o.isSome then [c] else []).all fun c =>
      c.holds (parameters filter) (Write.audit entry).row) = true ↔
        (o.isSome = true → c.holds (parameters filter) (Write.audit entry).row = true) := by
    cases o <;> simp
  change ((clauses filter).all fun c => c.holds (parameters filter) (Write.audit entry).row) = true ↔ _
  unfold clauses
  rw [List.all_append, List.all_append, Bool.and_eq_true, Bool.and_eq_true, hclause, hclause, hclause, action_holds,
    actor_holds, since_holds]
  cases filter.action <;> cases filter.actor <;> cases filter.since <;> simp [and_assoc]

theorem toUnixMs_mono {t t' : TimePoint} (h : t ≤ t') : toUnixMs t ≤ toUnixMs t' := by
  rw [Int64.le_iff_toInt_le] at h ⊢
  rw [toUnixMs_toInt, toUnixMs_toInt]
  have hs : Int.sign 1000000 = 1 := rfl
  rw [Int.tdiv_eq_ediv, Int.tdiv_eq_ediv]
  split_ifs <;> omega

section Appended

variable {κ : Type} {c : Connection κ} {holds : κ → Contents} {k k' : κ}

theorem append_contents (hs : c.Stores holds) (h : append c entry k = .ok () k') (row : Stored) :
    (∃ id, holds k' "audit_log" id = some row) ↔
      (∃ id, holds k "audit_log" id = some row) ∨ row = (Write.audit entry).row := by
  obtain ⟨stored, hstored, hholds⟩ := hs.written (w := .audit entry) h
  obtain ⟨hnone, rfl⟩ := Insert.row_free rfl hstored
  have hafter (id : Int64) : holds k' "audit_log" id =
      if id = entry.id.toInt64 then some (Write.audit entry).row else holds k "audit_log" id := by
    rw [hholds]
    change (holds k).write "audit_log" entry.id.toInt64 (some (Write.audit entry).row) "audit_log" id = _
    rw [Contents.write_self, Function.update_apply]
  constructor
  · rintro ⟨id, hid⟩
    rw [hafter] at hid
    split_ifs at hid
    · exact .inr (Option.some.inj hid).symm
    · exact .inl ⟨id, hid⟩
  · rintro (⟨id, hid⟩ | rfl)
    · refine ⟨id, ?_⟩
      rw [hafter, if_neg, hid]
      rintro rfl
      cases hnone.symm.trans hid
    · exact ⟨entry.id.toInt64, (hafter _).trans (if_pos rfl)⟩

theorem appends_contents (hs : c.Stores holds) (hempty : ∀ id, holds k "audit_log" id = none)
    (h : runAll (entries.map (append c)) k = .ok () k') (row : Stored) :
    (∃ id, holds k' "audit_log" id = some row) ↔ ∃ entry ∈ entries, row = (Write.audit entry).row := by
  have hall (entries : List AuditRecord) (k : κ) (h : runAll (entries.map (append c)) k = .ok () k') :
      (∃ id, holds k' "audit_log" id = some row) ↔
        (∃ id, holds k "audit_log" id = some row) ∨ ∃ entry ∈ entries, row = (Write.audit entry).row := by
    induction entries generalizing k with
    | nil =>
      obtain ⟨-, rfl⟩ := EStateM.Result.ok.inj h
      simp
    | cons entry entries ih =>
      obtain ⟨_, t, hfirst, hrest⟩ := bind_eq_ok.mp h
      rw [ih t hrest, append_contents hs hfirst, List.exists_mem_cons_iff, or_assoc]
  rw [hall entries k h]
  simp [hempty]

theorem mem_ids {l : List AuditRecord} {rows : List Row} (hl : rows.map readAudit = l.map .ok) (id : UInt64) :
    id ∈ l.map (·.id) ↔ ∃ row ∈ rows, (columnI64 row 0).toUInt64 = id := by
  have hids : l.map (·.id) = rows.map fun row => (columnI64 row 0).toUInt64 := by
    have hmap := congrArg (List.map fun r : Except Exn AuditRecord => r.toOption.map (·.id)) hl
    rw [List.map_map, List.map_map] at hmap
    apply List.map_injective_iff.mpr (Option.some_injective UInt64)
    rw [List.map_map, List.map_map]
    exact hmap.symm
  rw [hids, List.mem_map]

theorem find_sqlite (hs : c.Stores holds) (hempty : ∀ id, holds k "audit_log" id = none)
    (happend : runAll (entries.map (append c)) k = .ok () k')
    (hselects : (c.reads k').Selects (holds k') (.audit filter)) :
    ∃ found, SqliteAuditRepository.find filter (c.reads k') = .ok found ∧
      ∀ id, id ∈ found.map (·.id) ↔ ∃ entry ∈ entries, entry.id = id ∧
        (Query.audit filter).wants (Write.audit entry).row = true := by
  obtain ⟨found, hfind, hread⟩ := audit_returns hselects
  obtain ⟨selected, -, hmem, -, hgives⟩ := hselects.rows
  have hid {entry : AuditRecord} {row : Row}
      (h : List.Forall₂ Gives ((Query.audit filter).columns.map (Write.audit entry).row) row) :
      (columnI64 row 0).toUInt64 = entry.id := by
    rw [gives_id rfl (Write.audit entry).row_id h]
    exact UInt64.toUInt64_toInt64 entry.id
  refine ⟨found, hfind, fun id => ?_⟩
  rw [mem_ids hread]
  constructor
  · rintro ⟨row, hrow, rfl⟩
    obtain ⟨stored, hstored, hgiven⟩ := exists_of_mem_right hgives hrow
    obtain ⟨hin, hwants⟩ := (hmem stored).mp hstored
    obtain ⟨entry, hentry, rfl⟩ := (appends_contents hs hempty happend stored).mp hin
    exact ⟨entry, hentry, (hid hgiven).symm, hwants⟩
  · rintro ⟨entry, hentry, rfl, hwants⟩
    have hin := (appends_contents hs hempty happend _).mpr ⟨entry, hentry, rfl⟩
    obtain ⟨row, hrow, hgiven⟩ := exists_of_mem_left hgives ((hmem _).mpr ⟨hin, hwants⟩)
    exact ⟨row, hrow, hid hgiven⟩

end Appended

/-- Texts of which `bind_text` sends every byte. -/
def AuditFilter.Short (filter : AuditFilter) (entries : List AuditRecord) : Prop :=
  (∀ action, filter.action = some action → action.length < 2 ^ 31) ∧ ∀ entry ∈ entries, entry.action.length < 2 ^ 31

theorem wants_short (h : filter.Short entries) (hentry : entry ∈ entries) :
    (Query.audit filter).wants (Write.audit entry).row = true ↔ filter.Matches entry ∧
      ∀ since, filter.since = some since → toUnixMs since ≤ toUnixMs entry.timestamp := by
  have haction : (∀ action, filter.action = some action → sentText action = sentText entry.action) ↔
      ∀ action, filter.action = some action → action = entry.action := by
    apply forall_congr'
    intro action
    apply forall_congr'
    intro hfilter
    rw [sentText_short (h.1 action hfilter), sentText_short (h.2 entry hentry)]
  rw [wants_iff, haction, ← and_assoc]
  rfl

/-- SQLite selects what the memory selects, and the entries before `since` in its millisecond. -/
theorem find_agrees {κ : Type} {c : Connection κ} {holds : κ → Contents} {k k' : κ} (hs : c.Stores holds)
    (hempty : ∀ id, holds k "audit_log" id = none) (happend : runAll (entries.map (append c)) k = .ok () k')
    (hselects : (c.reads k').Selects (holds k') (.audit filter)) (hshort : filter.Short entries) :
    ∃ found, SqliteAuditRepository.find filter (c.reads k') = .ok found ∧
      ∀ id, id ∈ found.map (·.id) ↔ id ∈ (InMemoryAuditRepository.find filter entries).map (·.id) ∨
        ∃ entry ∈ entries, entry.id = id ∧ filter.Matches entry ∧ ∃ since, filter.since = some since ∧
          entry.timestamp < since ∧ toUnixMs entry.timestamp = toUnixMs since := by
  obtain ⟨found, hfind, hids⟩ := find_sqlite hs hempty happend hselects
  refine ⟨found, hfind, fun id => ?_⟩
  rw [hids, List.mem_map]
  constructor
  · rintro ⟨entry, hmem, rfl, hwants⟩
    obtain ⟨hmatches, hms⟩ := (wants_short hshort hmem).mp hwants
    by_cases hlate : ∃ since, filter.since = some since ∧ entry.timestamp < since
    · right
      obtain ⟨since, hs, hlt⟩ := hlate
      have hle := toUnixMs_mono (Int64.le_of_lt hlt)
      exact ⟨entry, hmem, rfl, hmatches, since, hs, hlt, Int64.le_antisymm hle (hms since hs)⟩
    · left
      refine ⟨entry, mem_find_inMemory.mpr ⟨hmem, hmatches, ?_⟩, rfl⟩
      intro since hs hlt
      exact hlate ⟨since, hs, hlt⟩
  · rintro (⟨entry, hmem, rfl⟩ | ⟨entry, hmem, rfl, hmatches, since, hs, _, hms⟩)
    · obtain ⟨hmem, hmatches, hsince⟩ := mem_find_inMemory.mp hmem
      refine ⟨entry, hmem, rfl, (wants_short hshort hmem).mpr ⟨hmatches, ?_⟩⟩
      intro since hs
      exact toUnixMs_mono (Int64.not_lt.mp (hsince since hs))
    · refine ⟨entry, hmem, rfl, (wants_short hshort hmem).mpr ⟨hmatches, ?_⟩⟩
      rintro since' hs'
      obtain rfl := Option.some.inj (hs.symm.trans hs')
      rw [hms]
      exact Int64.le_refl _

def lateFilter : AuditFilter := ⟨some (ascii "LOGIN"), some 3, some 5000002⟩

theorem earlyLogin_appended : ∃ t, runAll ([earlyLogin].map (append Tables.connection)) Tables.empty = .ok () t := by
  obtain ⟨t, ht⟩ := Tables.append_returns earlyLogin (by decide +kernel)
  exact ⟨t, bind_eq_ok.mpr ⟨(), t, ht, rfl⟩⟩

theorem earlyLogin_found : ∃ t found, runAll ([earlyLogin].map (append Tables.connection)) Tables.empty = .ok () t ∧
    SqliteAuditRepository.find lateFilter (Tables.connection.reads t) = .ok found ∧
      ∀ id, id ∈ found.map (·.id) ↔ id ∈ (InMemoryAuditRepository.find lateFilter [earlyLogin]).map (·.id) ∨
        ∃ entry ∈ [earlyLogin], entry.id = id ∧ lateFilter.Matches entry ∧ ∃ since, lateFilter.since = some since ∧
          entry.timestamp < since ∧ toUnixMs entry.timestamp = toUnixMs since := by
  obtain ⟨t, ht⟩ := earlyLogin_appended
  have hshort : lateFilter.Short [earlyLogin] := by
    constructor
    · rintro _ ⟨⟩
      decide
    · decide
  obtain ⟨found, hfind, hids⟩ := find_agrees Tables.connection_keepsSchema.toStores (fun _ => rfl) ht
    (Tables.connection_selects t (.audit lateFilter)) hshort
  exact ⟨t, found, ht, hfind, hids⟩

theorem earlyLogin_differs : InMemoryAuditRepository.find lateFilter [earlyLogin] = [] ∧
    ∃ t found, runAll ([earlyLogin].map (append Tables.connection)) Tables.empty = .ok () t ∧
      SqliteAuditRepository.find lateFilter (Tables.connection.reads t) = .ok found ∧ 1 ∈ found.map (·.id) := by
  refine ⟨by decide +kernel, ?_⟩
  obtain ⟨t, ht⟩ := earlyLogin_appended
  obtain ⟨found, hfind, hids⟩ := find_sqlite Tables.connection_keepsSchema.toStores (fun _ => rfl) ht
    (Tables.connection_selects t (.audit lateFilter))
  refine ⟨t, found, ht, hfind, (hids 1).mpr ⟨earlyLogin, List.mem_singleton_self _, rfl, ?_⟩⟩
  decide +kernel

end BankManagement
