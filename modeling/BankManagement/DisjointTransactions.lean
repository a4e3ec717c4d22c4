import BankManagement.BankHistory

namespace BankManagement

open Transaction Ledger LocalActions Throwing

def copies (repo : AccountRepository) : List AccountId → Option (List Account)
  | [] => some []
  | id :: ids => match repo.findById id with
    | none => none
    | some account => (copies repo ids).map (account :: ·)

def exec (txn : Transaction) (repo : AccountRepository) : Option AccountRepository :=
  match copies repo (Processor.sortedAccounts txn) with
  | none => none
  | some loaded =>
    if validate txn loaded then match apply txn loaded with
      | (.error _, _) => none
      | (.ok (), loaded) => some (loaded.foldl AccountRepository.save repo)
    else none

def execAll : List Transaction → AccountRepository → List Bool × AccountRepository
  | [], repo => ([], repo)
  | txn :: txns, repo => match exec txn repo with
    | none => let (outcomes, final) := execAll txns repo; (false :: outcomes, final)
    | some after => let (outcomes, final) := execAll txns after; (true :: outcomes, final)

variable {txn : Transaction} {repo repo' : AccountRepository} {k : AccountId}

theorem AccountRepository.ext_findById (h : repo.findById = repo'.findById) : repo = repo' := by
  have hperm := perm_of_findAccount repo.all_nodup repo'.all_nodup h
  have haccounts : repo.accounts = repo'.accounts := by
    refine List.Perm.eq_of_pairwise ?_ repo.sorted repo'.sorted hperm
    intro a b _ _ hab hba
    exact absurd (UInt64.lt_trans hab hba) (UInt64.lt_irrefl a.id)
  cases repo
  cases repo'
  cases haccounts
  rfl

theorem copies_some {ids : List AccountId} {loaded : List Account} (h : copies repo ids = some loaded) :
    loaded.map (·.id) = ids ∧ ∀ a ∈ loaded, repo.findById a.id = some a := by
  induction ids generalizing loaded with
  | nil =>
    obtain rfl := Option.some.inj h
    exact ⟨rfl, fun a ha => absurd ha List.not_mem_nil⟩
  | cons id ids ih =>
    unfold copies at h
    cases hid : repo.findById id with
    | none =>
      rw [hid] at h
      cases h
    | some account =>
      rw [hid] at h
      obtain ⟨rest, hrest, rfl⟩ := Option.map_eq_some_iff.mp h
      obtain ⟨hids, hfound⟩ := ih hrest
      have haccount : account.id = id := findAccount_id hid
      refine ⟨by rw [List.map_cons, haccount, hids], fun a ha => ?_⟩
      rcases List.mem_cons.mp ha with rfl | ha
      · rw [haccount, hid]
      · exact hfound a ha

theorem copies_none {ids : List AccountId} (h : copies repo ids = none) : ∃ k ∈ ids, repo.findById k = none := by
  induction ids with
  | nil => cases h
  | cons id ids ih =>
    unfold copies at h
    cases hid : repo.findById id with
    | none => exact ⟨id, List.mem_cons_self, hid⟩
    | some account =>
      rw [hid] at h
      obtain ⟨k, hk, hnone⟩ := ih (Option.map_eq_none_iff.mp h)
      exact ⟨k, List.mem_cons_of_mem _ hk, hnone⟩

theorem applied_refused {accounts : List Account} (h : ¬ validate txn accounts = true) : applied txn accounts = none := by
  simp [applied, apply, h]

theorem exec_post (txn : Transaction) (repo : AccountRepository) :
    (exec txn repo).map AccountRepository.findById = post txn repo.findById := by
  unfold exec
  cases hload : copies repo (Processor.sortedAccounts txn) with
  | none =>
    obtain ⟨k, hk, hnone⟩ := copies_none hload
    symm
    apply Option.eq_none_iff_forall_not_mem.mpr
    intro n hn
    obtain ⟨a, _, ha, _⟩ := post_changes hn (Processor.mem_sortedAccounts.mp hk)
    cases hnone.symm.trans ha
  | some loaded =>
    obtain ⟨hids, hfound⟩ := copies_some hload
    have hsome := Processor.post_loaded hids hfound
    have hnone (h : applied txn loaded = none) : none = post txn repo.findById := by
      rw [h] at hsome
      exact (Option.not_isSome_iff_eq_none.mp (by simp [hsome])).symm
    dsimp only
    by_cases hv : validate txn loaded = true
    · rw [if_pos hv]
      rcases happ : apply txn loaded with ⟨what | ⟨⟩, after⟩
      · exact hnone (applied_eq_none.mpr ⟨what, by rw [happ]⟩)
      · exact (Processor.saved_posts hids hfound happ).1.symm
    · rw [if_neg hv]
      exact hnone (applied_refused hv)

theorem exec_eq_some : exec txn repo = some repo' ↔ post txn repo.findById = some repo'.findById := by
  rw [← exec_post]
  constructor
  · intro h
    rw [h]
    rfl
  · intro h
    obtain ⟨after, hafter, hfind⟩ := Option.map_eq_some_iff.mp h
    rw [hafter, AccountRepository.ext_findById hfind]

theorem exec_isSome (txn : Transaction) (repo : AccountRepository) :
    (exec txn repo).isSome = (post txn repo.findById).isSome := by
  rw [← exec_post, Option.isSome_map]

theorem findById_exec (txn : Transaction) (repo : AccountRepository) :
    ((exec txn repo).getD repo).findById = attempt (post txn) repo.findById := by
  unfold attempt
  rw [← exec_post]
  cases exec txn repo <;> rfl

namespace Processor

variable {clock : Stores → TimePoint} {id : TransactionId} {p : Processor Stores}

variable (clock id) in
theorem processImpl_succeeds (h : (post txn p.stores.accounts.findById).isSome = true) :
    ∃ record q, processImpl (inMemory clock noFaults) txn id p = .ok (.success record) q := by
  rcases load_inMemory clock noFaults p (sortedAccounts txn) [] with
    ⟨found, hids, hfound, hload⟩ | ⟨⟨k, hk, hnone⟩, -⟩
  · rw [post_loaded hids hfound] at h
    obtain ⟨after, hafter⟩ := Option.isSome_iff_exists.mp h
    have hv : validate txn found = true := by
      by_contra hv
      rw [applied_refused hv] at hafter
      cases hafter
    have hattempt : attempt (inMemory clock noFaults) txn id p = commit (inMemory clock noFaults) txn id found p := by
      rw [attempt, bind_ok hload]
      simp [hv]
    obtain ⟨record, q, hresult, -⟩ := commit_done hids hfound (applied_eq_some.mp hafter) hattempt
    exact ⟨record, q, hresult⟩
  · obtain ⟨n, hn⟩ := Option.isSome_iff_exists.mp h
    obtain ⟨a, _, ha, _⟩ := post_changes hn (mem_sortedAccounts.mp hk)
    cases hnone.symm.trans ha

variable (clock txn id p) in
theorem processImpl_exec :
    (∃ record q, processImpl (inMemory clock noFaults) txn id p = .ok (.success record) q ∧
      exec txn p.stores.accounts = some q.stores.accounts) ∨
    ∃ message q, processImpl (inMemory clock noFaults) txn id p = .ok (.failure message) q ∧
      exec txn p.stores.accounts = none ∧ q.stores.accounts = p.stores.accounts := by
  have hsettled := processImpl_settles clock txn id p
  generalize hresult : processImpl (inMemory clock noFaults) txn id p = result at hsettled
  cases hsettled with
  | failed message q ha ht =>
    refine .inr ⟨message, q, rfl, ?_, ha⟩
    apply Option.not_isSome_iff_eq_none.mp
    intro hsome
    rw [exec_isSome] at hsome
    obtain ⟨record, q', hsuccess⟩ := processImpl_succeeds clock id hsome
    cases hresult.symm.trans hsuccess
  | done record q hr hc ha ht => exact .inl ⟨record, q, rfl, exec_eq_some.mpr ha⟩

end Processor

theorem exec_frame (h : exec txn repo = some repo') (hk : k ∉ txn.involvedAccounts) :
    repo'.findById k = repo.findById k :=
  (post_local txn).frame (exec_eq_some.mp h) k hk

theorem exec_reads {first second : AccountRepository}
    (h : ∀ k ∈ txn.involvedAccounts, first.findById k = second.findById k) :
    (exec txn first).isSome = (exec txn second).isSome ∧
      ∀ after after', exec txn first = some after → exec txn second = some after' →
        ∀ k ∈ txn.involvedAccounts, after.findById k = after'.findById k := by
  refine ⟨?_, fun after after' hfirst hsecond k hk => ?_⟩
  · rw [exec_isSome, exec_isSome]
    exact (post_local txn).isSome_congr h
  · obtain ⟨n, hn, hagree⟩ := (post_local txn).reads h (exec_eq_some.mp hfirst)
    obtain rfl := Option.some.inj (hn.symm.trans (exec_eq_some.mp hsecond))
    exact hagree k hk

def Apart (t u : Transaction) : Prop := t.involvedAccounts.Disjoint u.involvedAccounts

theorem Apart.symm {t u : Transaction} (h : Apart t u) : Apart u t := List.Disjoint.symm h

theorem Apart.footprint {t u : Transaction} (h : Apart t u) : Disjoint (footprint t) (footprint u) :=
  Set.disjoint_left.mpr fun _ ht hu => h ht hu

theorem exec_apart {t u : Transaction} (h : Apart t u) (repo : AccountRepository) :
    (exec t ((exec u repo).getD repo)).isSome = (exec t repo).isSome := by
  rw [exec_isSome, exec_isSome, findById_exec]
  exact attempt_isSome (post_local t) (post_local u) h.footprint repo.findById

theorem exec_comm {t u : Transaction} (h : Apart t u) (repo : AccountRepository) :
    (exec t ((exec u repo).getD repo)).getD ((exec u repo).getD repo) =
      (exec u ((exec t repo).getD repo)).getD ((exec t repo).getD repo) := by
  apply AccountRepository.ext_findById
  rw [findById_exec, findById_exec, findById_exec, findById_exec]
  exact attempt_comm (post_local t) (post_local u) h.footprint repo.findById

theorem execAll_cons (txn : Transaction) (txns : List Transaction) (repo : AccountRepository) :
    execAll (txn :: txns) repo =
      ((exec txn repo).isSome :: (execAll txns ((exec txn repo).getD repo)).1,
        (execAll txns ((exec txn repo).getD repo)).2) := by
  conv => lhs; unfold execAll
  cases exec txn repo <;> rfl

theorem execAll_final (txns : List Transaction) (repo : AccountRepository) :
    (execAll txns repo).2 = txns.foldl (fun repo txn => (exec txn repo).getD repo) repo := by
  induction txns generalizing repo with
  | nil => rfl
  | cons txn txns ih => rw [execAll_cons, ih, List.foldl_cons]

theorem execAll_outcomes {txns : List Transaction} (h : txns.Pairwise Apart) (repo : AccountRepository) :
    (execAll txns repo).1 = txns.map fun txn => (exec txn repo).isSome := by
  induction txns generalizing repo with
  | nil => rfl
  | cons txn txns ih =>
    obtain ⟨htxn, htxns⟩ := List.pairwise_cons.mp h
    have hrest : (txns.map fun u => (exec u ((exec txn repo).getD repo)).isSome) =
        txns.map fun u => (exec u repo).isSome := by
      apply List.map_congr_left
      intro u hu
      exact exec_apart (htxn u hu).symm repo
    rw [execAll_cons, List.map_cons, ih htxns, hrest]

theorem execAll_perm {txns txns' : List Transaction} (h : txns.Pairwise Apart) (hperm : txns.Perm txns')
    (repo : AccountRepository) : (execAll txns repo).2 = (execAll txns' repo).2 := by
  rw [execAll_final, execAll_final]
  apply hperm.foldl_eq'
  intro t ht u hu between
  by_cases htu : t = u
  · rw [htu]
  · have happart : Apart u t := by
      have hsymm : Std.Symm Apart := ⟨fun _ _ => Apart.symm⟩
      exact h.forall hu ht (Ne.symm htu)
    exact exec_comm happart between

/-- Transactions apart from each other leave one store in any order, and each of them fails or not as it
would alone. A transaction looks at no account that it does not name, and changes none. -/
theorem apart_commute :
    (∀ (txns txns' : List Transaction) (repo : AccountRepository), txns.Pairwise Apart → txns.Perm txns' →
      (execAll txns repo).2 = (execAll txns' repo).2 ∧
        (execAll txns repo).1 = (txns.map fun txn => (exec txn repo).isSome) ∧
        (execAll txns' repo).1 = txns'.map fun txn => (exec txn repo).isSome) ∧
    (∀ (txn : Transaction) (repo repo' : AccountRepository), exec txn repo = some repo' →
      ∀ k ∉ txn.involvedAccounts, repo'.findById k = repo.findById k) ∧
    ∀ (txn : Transaction) (first second : AccountRepository),
      (∀ k ∈ txn.involvedAccounts, first.findById k = second.findById k) →
      (exec txn first).isSome = (exec txn second).isSome ∧
        ∀ after after', exec txn first = some after → exec txn second = some after' →
          ∀ k ∈ txn.involvedAccounts, after.findById k = after'.findById k := by
  refine ⟨fun txns txns' repo h hperm => ⟨execAll_perm h hperm repo, execAll_outcomes h repo, ?_⟩,
    fun txn repo repo' h k => exec_frame h, fun txn first second => exec_reads⟩
  exact execAll_outcomes (hperm.pairwise h fun hapart => hapart.symm) repo

def fullStore : AccountRepository := .ofAccounts [⟨3, 1, ⟨2 ^ 63 - 1, by decide⟩, .active, 0⟩, ⟨7, 1, 500, .active, 0⟩]

theorem overflow_apart : (execAll [.deposit 3 1, .withdraw 7 5] fullStore).2 =
      (execAll [.withdraw 7 5, .deposit 3 1] fullStore).2 ∧
    (execAll [.withdraw 7 5, .deposit 3 1] fullStore).1 = [true, false] := by
  have hapart : [Transaction.deposit 3 1, .withdraw 7 5].Pairwise Apart := by
    apply List.pairwise_pair.mpr
    intro k hk hk'
    exact absurd ((List.mem_singleton.mp hk).symm.trans (List.mem_singleton.mp hk')) (by decide)
  obtain ⟨hfinal, -, houtcomes⟩ := apart_commute.1 _ _ fullStore hapart (List.Perm.swap _ _ [])
  refine ⟨hfinal, houtcomes.trans ?_⟩
  decide +kernel

end BankManagement
