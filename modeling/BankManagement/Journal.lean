import BankManagement.Ledger
import BankManagement.WalCoherence

namespace BankManagement

open Transaction Ledger LocalActions Wal Codec

def replayRecord (accounts : List Account) (r : TransactionRecord) : Except Exn (List Account) :=
  if r.state = .committed then
    match materializeTransaction r with
    | .error what => .error what
    | .ok t => match apply t accounts with
      | (.error what, _) => .error what
      | (.ok (), accounts') => .ok accounts'
  else .ok accounts

def replay (records : List TransactionRecord) (accounts : List Account) : Except Exn (List Account) :=
  records.foldlM replayRecord accounts

def Wal.Entry.intent (e : Entry) : Option Transaction :=
  (WalLogger.record e).bind fun r => (materializeTransaction r).toOption

def Wal.Entry.movement (e : Entry) : Option Transaction := if e.state = .committed then e.intent else none

def Wal.Entry.Sound (e : Entry) : Prop :=
  e.state = .committed → ∀ r, WalLogger.record e = some r → ∃ t, materializeTransaction r = .ok t

theorem record_state {e : Entry} {r : TransactionRecord} (h : WalLogger.record e = some r) :
    r.state = e.state := by
  obtain ⟨r', _, rfl⟩ := Option.map_eq_some_iff.mp h
  rfl

theorem intent_state (e : Entry) (s : TransactionState) : ({ e with state := s } : Entry).intent = e.intent := by
  simp only [Entry.intent, WalLogger.record]
  cases deserializeTransaction e.payload <;> rfl

theorem replayRecord_toOption {e : Entry} {r : TransactionRecord} (hs : e.Sound)
    (hr : WalLogger.record e = some r) (accounts : List Account) :
    (replayRecord accounts r).toOption =
      match e.movement with
      | none => some accounts
      | some t => applied t accounts := by
  unfold replayRecord Entry.movement
  rw [record_state hr]
  split_ifs with hc
  · obtain ⟨t, ht⟩ := hs hc r hr
    have hint : e.intent = some t := by simp [Entry.intent, hr, ht, Except.toOption]
    rw [hint, ht]
    simp only [applied]
    split <;> simp_all [Except.toOption]
  · rfl

theorem replay_run {entries : List Entry} (hs : ∀ e ∈ entries, e.Sound) (accounts : List Account) :
    (replay (entries.filterMap WalLogger.record) accounts).toOption.map findAccount =
      run post (entries.filterMap Entry.movement) (findAccount accounts) := by
  induction entries generalizing accounts with
  | nil => rfl
  | cons e entries ih =>
    have ih := ih fun e he => hs e (List.mem_cons_of_mem _ he)
    cases hr : WalLogger.record e with
    | none =>
      have hm : e.movement = none := by simp [Entry.movement, Entry.intent, hr]
      rw [List.filterMap_cons_none hr, List.filterMap_cons_none hm, ih]
    | some r =>
      have hstep := replayRecord_toOption (hs e List.mem_cons_self) hr accounts
      rw [List.filterMap_cons_some hr]
      change ((replayRecord accounts r).bind (replay (entries.filterMap WalLogger.record))).toOption.map findAccount = _
      cases hm : e.movement with
      | none =>
        rw [hm] at hstep
        rw [toOption_eq_some.mp hstep, List.filterMap_cons_none hm]
        exact ih accounts
      | some t =>
        rw [hm] at hstep
        change (replayRecord accounts r).toOption = applied t accounts at hstep
        rw [List.filterMap_cons_some hm, run_cons]
        change _ = (post t (findAccount accounts)).bind _
        rw [← apply_post, ← hstep]
        cases replayRecord accounts r with
        | error what => rfl
        | ok accounts' => exact ih accounts'

theorem materialize_project (id : TransactionId) (now : TimePoint) (t : Transaction) :
    materializeTransaction (projectTransaction id now t) = .ok t := by
  cases t <;> rfl

theorem record_project {e : Entry} {id : TransactionId} {now : TimePoint} {t : Transaction}
    {s : TransactionState} (hp : e.payload = serialize { projectTransaction id now t with state := s }) :
    WalLogger.record e = if Decodable (projectTransaction id now t) then
      some { stored (projectTransaction id now t) with state := e.state } else none := by
  have hd : Decodable { projectTransaction id now t with state := s } ↔
      Decodable (projectTransaction id now t) := Iff.rfl
  rw [WalLogger.record, hp, deserialize_serialize]
  by_cases h : Decodable (projectTransaction id now t)
  · rw [if_pos (hd.mpr h), if_pos h]
    rfl
  · rw [if_neg (fun hc => h (hd.mp hc)), if_neg h]
    rfl

theorem sound_project {e : Entry} {id : TransactionId} {now : TimePoint} {t : Transaction}
    {s : TransactionState} (hp : e.payload = serialize { projectTransaction id now t with state := s }) :
    e.Sound := by
  intro _ r hr
  rw [record_project hp] at hr
  split_ifs at hr
  obtain rfl := Option.some.inj hr
  exact ⟨t, materialize_project id (fromUnixMs (toUnixMs now)) t⟩

theorem intent_project {e : Entry} {id : TransactionId} {now : TimePoint} {t : Transaction}
    {s : TransactionState} (hp : e.payload = serialize { projectTransaction id now t with state := s }) :
    e.intent = if Decodable (projectTransaction id now t) then some t else none := by
  rw [Entry.intent, record_project hp]
  split_ifs
  · have hm := materialize_project id (fromUnixMs (toUnixMs now)) t
    change (materializeTransaction (projectTransaction id (fromUnixMs (toUnixMs now)) t)).toOption = _
    rw [hm]
    rfl
  · rfl

theorem replayRecord_ids {r : TransactionRecord} {accounts accounts' : List Account}
    (h : replayRecord accounts r = .ok accounts') : accounts'.map (·.id) = accounts.map (·.id) := by
  unfold replayRecord at h
  split_ifs at h
  · split at h
    · cases h
    · split at h
      · cases h
      · rename_i ha
        obtain rfl := Except.ok.inj h
        exact applied_ids (applied_eq_some.mpr ha)
  · obtain rfl := Except.ok.inj h
    rfl

theorem replay_ids {records : List TransactionRecord} {accounts accounts' : List Account}
    (h : replay records accounts = .ok accounts') : accounts'.map (·.id) = accounts.map (·.id) := by
  induction records generalizing accounts with
  | nil =>
    obtain rfl := Except.ok.inj h
    rfl
  | cons r records ih =>
    change (replayRecord accounts r).bind (replay records) = .ok accounts' at h
    cases hr : replayRecord accounts r with
    | error what =>
      rw [hr] at h
      cases h
    | ok next =>
      rw [hr] at h
      rw [ih h, replayRecord_ids hr]

theorem replay_sound {entries : List Entry} {accounts accounts' : List Account}
    (h : replay (entries.filterMap WalLogger.record) accounts = .ok accounts') : ∀ e ∈ entries, e.Sound := by
  induction entries generalizing accounts with
  | nil => simp
  | cons e entries ih =>
    cases hr : WalLogger.record e with
    | none =>
      rw [List.filterMap_cons_none hr] at h
      refine List.forall_mem_cons.mpr ⟨fun _ r hr' => ?_, ih h⟩
      rw [hr] at hr'
      cases hr'
    | some r =>
      rw [List.filterMap_cons_some hr] at h
      change (replayRecord accounts r).bind (replay (entries.filterMap WalLogger.record)) = .ok accounts' at h
      cases hstep : replayRecord accounts r with
      | error what =>
        rw [hstep] at h
        cases h
      | ok next =>
        rw [hstep] at h
        refine List.forall_mem_cons.mpr ⟨fun hc r' hr' => ?_, ih h⟩
        obtain rfl := Option.some.inj (hr.symm.trans hr')
        unfold replayRecord at hstep
        rw [if_pos ((record_state hr).trans hc)] at hstep
        cases hm : materializeTransaction r with
        | error what =>
          rw [hm] at hstep
          cases hstep
        | ok t => exact ⟨t, rfl⟩

def applyAll (ts : List Transaction) (accounts : List Account) : Option (List Account) :=
  ts.foldlM (fun accounts t => applied t accounts) accounts

theorem applyAll_run (ts : List Transaction) (accounts : List Account) :
    (applyAll ts accounts).map findAccount = run post ts (findAccount accounts) := by
  induction ts generalizing accounts with
  | nil => rfl
  | cons t ts ih =>
    change ((applied t accounts).bind (applyAll ts)).map findAccount = (post t (findAccount accounts)).bind (run post ts)
    rw [← apply_post]
    cases applied t accounts with
    | none => rfl
    | some next => exact ih next

theorem applyAll_ids {ts : List Transaction} {accounts accounts' : List Account}
    (h : applyAll ts accounts = some accounts') : accounts'.map (·.id) = accounts.map (·.id) := by
  induction ts generalizing accounts with
  | nil =>
    obtain rfl := Option.some.inj h
    rfl
  | cons t ts ih =>
    obtain ⟨next, ht, h⟩ := Option.bind_eq_some_iff.mp h
    rw [ih h, applied_ids ht]

end BankManagement
