import BankManagement.Linearisability

namespace BankManagement

open Wal Ledger LocalActions AtomicObject

theorem overwrite_posts {t : Transaction} {ledger : Ledger} {found after : List Account}
    (hids : found.map (·.id) = Processor.sortedAccounts t) (hfound : ∀ a ∈ found, ledger a.id = some a)
    (happ : apply t found = (.ok (), after)) : post t ledger = some (ledger.overwrite after) := by
  have happlied := applied_eq_some.mpr happ
  have hafter : after.map (·.id) = Processor.sortedAccounts t := (applied_ids happlied).trans hids
  have hagree : ∀ k ∈ footprint t, findAccount found k = ledger k := by
    intro k hk
    apply State.findAccount_values hfound
    rw [hids]
    exact Processor.mem_sortedAccounts.mpr hk
  have hpost := apply_post t found
  rw [happlied, Option.map_some] at hpost
  obtain ⟨n, hn, hin⟩ := (post_local t).reads hagree hpost.symm
  rw [hn]
  congr 1
  funext k
  by_cases hk : k ∈ footprint t
  · rw [← hin k hk, overwrite_of_mem]
    rw [hafter]
    exact Processor.mem_sortedAccounts.mpr hk
  · rw [(post_local t).frame hn k hk, overwrite_of_notMem]
    rw [hafter]
    exact fun hmem => hk (Processor.mem_sortedAccounts.mp hmem)

theorem Ledger.Keyed.overwrite {ledger : Ledger} (hk : ledger.Keyed) (accounts : List Account) :
    (ledger.overwrite accounts).Keyed := by
  intro k a h
  rcases Option.or_eq_some_iff.mp h with h | ⟨-, h⟩
  · exact findAccount_id h
  · exact hk k a h

theorem Ledger.Keyed.serve {ledger ledger' : Ledger} (hk : ledger.Keyed) {t : Transaction}
    (h : ledger.serve t = .ok ledger') : post t ledger = some ledger' ∧ ledger'.Keyed := by
  rw [Ledger.serve] at h
  cases hload : ledger.load (Processor.sortedAccounts t) with
  | error message =>
    rw [hload] at h
    cases h
  | ok found =>
    obtain ⟨hids, hfound⟩ := hk.load hload
    rw [hload] at h
    dsimp only at h
    split_ifs at h
    rcases happ : apply t found with ⟨what | ⟨⟩, after⟩
    · rw [happ] at h
      cases h
    · rw [happ] at h
      obtain rfl := Except.ok.inj h
      exact ⟨overwrite_posts hids hfound happ, hk.overwrite after⟩

def succeeded (results : List (Result TransactionRecord)) : List TransactionRecord := results.filterMap Result.value?

theorem record_records (c : Call) (now : TimePoint) (state : TransactionState) :
    ({ c.record now with state } : TransactionRecord).Records c.txn := ⟨rfl, rfl, rfl, rfl⟩

variable {ι : Type}

theorem legal_explained {m n p : Ledger} {records : List TransactionRecord}
    {effects : List (Effect ι Call (Result TransactionRecord))} (hk : n.Keyed) (h : Explained records m n)
    (hl : Legal Serves n effects p) : Explained (records ++ succeeded (effects.map (·.res))) m p := by
  induction hl generalizing records with
  | nil => simpa [succeeded] using h
  | @cons v w u e effects hserves _ ih =>
    obtain ⟨i, c, res⟩ := e
    dsimp only at hserves
    cases hserves with
    | refused _ => exact ih hk h
    | committed now hserve =>
      obtain ⟨hpost, hk'⟩ := hk.serve hserve
      have hrest := ih hk' (h.post hpost (record_records c now .committed))
      rwa [List.append_assoc] at hrest

theorem Ledger.Explained.perm {m n : Ledger} {records records' : List TransactionRecord} (h : Explained records m n)
    (hp : records.Perm records') : Explained records' m n where
  shifts := by
    refine h.shifts.congr fun k => ?_
    rw [credited, debited, credited, debited, (hp.map _).sum_eq, (hp.map (TransactionRecord.debit k)).sum_eq]
  named r hr := h.named r (hp.mem_iff.mpr hr)

namespace State

variable [DecidableEq ι]

/-- When all threads are idle, every balance has moved by what the callers were told: by their
successes, each counted once, and by nothing else. -/
theorem run_books {world : World} {labels : List (Label ι)} {s : State ι} (h : (init world).run labels = some s)
    (hfaults : ∀ label ∈ labels, label.fault = none) (hidle : ∀ i, s.Idle i) :
    let records := succeeded (answered (history (init world) labels))
    (∀ k, (s.world.accounts.findById k).map (fun a => (a.balance.cents : Int)) =
        (world.accounts.findById k).map (fun a => a.balance.cents + (credited k records - debited k records))) ∧
      s.world.accounts.total = world.accounts.total + totalOf .deposit records - totalOf .withdraw records := by
  obtain ⟨o, he, hm⟩ := run_mirrors h hfaults
  have hbalance (i : ι) :
      (answers i (history (init world) labels)).length = (calls i (history (init world) labels)).length := by
    have hb := he.balance i
    rw [hm.clients, (hidle i).client] at hb
    exact hb
  obtain ⟨effects, hlegal, hexplains⟩ := he.linearisable
  have hbooks := legal_explained (findAccount_keyed world.accounts.accounts) (.start _) hlegal
  have hsettled : s.world.accounts.findById = o.value := by
    funext k
    apply hm.settled
    intro i pc hi
    rcases hidle i with hn | ⟨exit, hf⟩
    · rw [hn] at hi
      cases hi
    · obtain rfl := Option.some.inj (hf.symm.trans hi)
      rw [Pc.covers_of_act rfl]
      exact Set.notMem_empty k
  rw [List.nil_append, ← hsettled] at hbooks
  have hrecords := hbooks.perm ((hexplains.answered_perm hbalance).symm.filterMap Result.value?)
  exact ⟨hrecords.shifts, AccountRepository.total_explained hrecords⟩

theorem overlappingCalls_books : ∃ s, (init (oneAccountWorld 7)).run overlappingCalls = some s ∧
    s.world.accounts.total = (oneAccountWorld 7).accounts.total +
      totalOf .deposit (succeeded (answered (history (init (oneAccountWorld 7)) overlappingCalls))) -
      totalOf .withdraw (succeeded (answered (history (init (oneAccountWorld 7)) overlappingCalls))) := by
  have hexits : ((init (oneAccountWorld 7)).run overlappingCalls).map
      (fun s => (s.exitOf false).isSome && (s.exitOf true).isSome) = some true := by decide +kernel
  obtain ⟨s, h, hexits⟩ := Option.map_eq_some_iff.mp hexits
  have hidle : ∀ i, s.Idle i := by
    intro i
    obtain ⟨hfalse, htrue⟩ := Bool.and_eq_true_iff.mp hexits
    have hi : (s.exitOf i).isSome := by
      cases i with
      | false => exact hfalse
      | true => exact htrue
    obtain ⟨exit, hexit⟩ := Option.isSome_iff_exists.mp hi
    exact .inr ⟨exit, exitOf_eq_some hexit⟩
  exact ⟨s, h, (run_books h (by decide) hidle).2⟩

end State

end BankManagement
