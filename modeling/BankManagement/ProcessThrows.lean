import BankManagement.ProcessImpl

namespace BankManagement

open Throwing Transaction

namespace Processor

variable {σ : Type} {c : Collaborators σ} {txn : Transaction} {id : TransactionId} {p q : Processor σ} {what : Exn}

def Reported {α : Type} : Result α → Prop
  | .success _ => True
  | .failure message => message ≠ ""

def commitCalls (c : Collaborators σ) (txn : Transaction) (id : TransactionId) (timestamp : TimePoint)
    (loaded : List Account) : List (Program Exn (Processor σ) Unit) :=
  let record := { projectTransaction id timestamp txn with state := .validated }
  onStores (c.appendWal record) :: match apply txn loaded with
    | (.error what, _) => [throw what]
    | (.ok (), loaded) => loaded.map (fun a => onStores (c.save a)) ++ [
        onStores (c.markCommitted id),
        onStores (c.appendTransaction { record with state := .committed }),
        appendAudit c "txn.completed" txn.describe]

inductive AttemptThrows (c : Collaborators σ) (txn : Transaction) (id : TransactionId) (p : Processor σ)
    (what : Exn) (q : Processor σ) : Prop
  | lookup (h : load c (sortedAccounts txn) [] p = .error what q)
  | missing {loaded : List Account} {message : String} {t : Processor σ}
      (hload : load c (sortedAccounts txn) [] p = .ok (loaded, message) t) (hm : message ≠ "")
      (h : appendAudit c "txn.failed" message t = .error what q)
  | invalid {loaded : List Account} {t : Processor σ}
      (hload : load c (sortedAccounts txn) [] p = .ok (loaded, "") t) (hv : validate txn loaded = false)
      (h : appendAudit c "txn.failed" ("validation failed: " ++ txn.describe) t = .error what q)
  | accepted {loaded : List Account} {timestamp : TimePoint} {t t' : Processor σ}
      (hload : load c (sortedAccounts txn) [] p = .ok (loaded, "") t) (hv : validate txn loaded = true)
      (hnow : now c t = .ok timestamp t') (h : ThrowsIn (commitCalls c txn id timestamp loaded) t' what q)

def HandlerThrows (c : Collaborators σ) (txn : Transaction) (id : TransactionId) (p : Processor σ) : Prop :=
  ∃ what q what' q', AttemptThrows c txn id p what q ∧
    appendAudit c "txn.failed" (caught what) q = .error what' q'

theorem saveAll_eq (c : Collaborators σ) (accounts : List Account) :
    saveAll c accounts = runAll (accounts.map fun a => onStores (c.save a)) := by
  induction accounts with
  | nil => rfl
  | cons a rest ih => rw [saveAll, ih, List.map_cons, runAll]

theorem refuse_eq_error {message : String} :
    refuse c message p = .error what q ↔ appendAudit c "txn.failed" message p = .error what q := by
  rw [refuse, bind_eq_error]
  apply or_iff_left
  rintro ⟨_, _, _, ⟨⟩⟩

theorem now_ok (c : Collaborators σ) (p : Processor σ) : ∃ timestamp q, now c p = .ok timestamp q :=
  ⟨_, _, rfl⟩

theorem commit_eq (c : Collaborators σ) (txn : Transaction) (id : TransactionId) (loaded : List Account) :
    commit c txn id loaded = (now c >>= fun timestamp =>
      runAll (commitCalls c txn id timestamp loaded) >>= fun _ =>
        pure (.success { projectTransaction id timestamp txn with state := .committed })) := by
  rw [commit]
  apply congrArg
  funext timestamp
  rw [commitCalls, runAll, bind_assoc]
  funext _
  rcases apply txn loaded with ⟨what | ⟨⟩, loaded'⟩
  · rfl
  · simp only [runAll_append, saveAll_eq, runAll, bind_assoc]
    rfl

theorem commit_eq_error {loaded : List Account} : commit c txn id loaded p = .error what q ↔
    ∃ timestamp t, now c p = .ok timestamp t ∧ ThrowsIn (commitCalls c txn id timestamp loaded) t what q := by
  rw [commit_eq, bind_eq_error]
  constructor
  · rintro (hnow | ⟨timestamp, t, hnow, h⟩)
    · obtain ⟨timestamp, t, hok⟩ := now_ok c p
      cases hok.symm.trans hnow
    · rcases bind_eq_error.mp h with h | ⟨_, _, _, ⟨⟩⟩
      exact ⟨timestamp, t, hnow, runAll_eq_error.mp h⟩
  · rintro ⟨timestamp, t, hnow, h⟩
    exact .inr ⟨timestamp, t, hnow, bind_eq_error.mpr (.inl (runAll_eq_error.mpr h))⟩

theorem attempt_eq_error : attempt c txn id p = .error what q ↔ AttemptThrows c txn id p what q := by
  rw [attempt, bind_eq_error]
  constructor
  · rintro (h | ⟨⟨loaded, message⟩, t, hload, h⟩)
    · exact .lookup h
    · dsimp only at h
      split_ifs at h with hm hv
      · exact .missing hload hm (refuse_eq_error.mp h)
      · obtain rfl := not_not.mp hm
        exact .invalid hload (by simpa using hv) (refuse_eq_error.mp h)
      · obtain rfl := not_not.mp hm
        obtain ⟨timestamp, t', hnow, h⟩ := commit_eq_error.mp h
        exact .accepted hload (by simpa using hv) hnow h
  · rintro (h | ⟨hload, hm, h⟩ | ⟨hload, hv, h⟩ | ⟨hload, hv, hnow, h⟩)
    · exact .inl h
    · exact .inr ⟨_, _, hload, by simpa only [if_pos hm] using refuse_eq_error.mpr h⟩
    · exact .inr ⟨_, _, hload, by simpa [hv] using refuse_eq_error.mpr h⟩
    · exact .inr ⟨_, _, hload, by simpa [hv] using commit_eq_error.mpr ⟨_, _, hnow, h⟩⟩

theorem involvedAccounts_ne_nil (txn : Transaction) : txn.involvedAccounts ≠ [] := by
  cases txn with
  | deposit k amount => simp [involvedAccounts, debitAccount, creditAccount, pushUnique]
  | withdraw k amount => simp [involvedAccounts, debitAccount, creditAccount, pushUnique]
  | transfer i j amount =>
    simp only [involvedAccounts, debitAccount, creditAccount, pushUnique]
    split_ifs <;> simp_all

theorem processImpl_throws : (∃ what q, processImpl c txn id p = .error what q) ↔ HandlerThrows c txn id p := by
  rw [processImpl, if_neg (involvedAccounts_ne_nil txn)]
  simp only [tryCatch_eq_error, attempt_eq_error, refuse_eq_error]
  constructor
  · rintro ⟨what', q', what, q, hthrows, haudit⟩
    exact ⟨what, q, what', q', hthrows, haudit⟩
  · rintro ⟨what, q, what', q', hthrows, haudit⟩
    exact ⟨what', q', what, q, hthrows, haudit⟩

theorem refuse_reported {message : String} (h : message ≠ "") : Yields Reported (refuse c message) := by
  apply Yields.bind
  intro _
  exact Yields.pure h

theorem caught_ne_empty (what : Exn) : caught what ≠ "" := by
  unfold caught
  split_ifs with h
  · decide
  · exact h

theorem commit_reported {loaded : List Account} : Yields Reported (commit c txn id loaded) := by
  rw [commit_eq]
  apply Yields.bind
  intro _
  apply Yields.bind
  intro _
  exact Yields.pure trivial

theorem processImpl_reported : Yields Reported (processImpl c txn id) := by
  rw [processImpl, if_neg (involvedAccounts_ne_nil txn)]
  apply Yields.tryCatch
  · apply Yields.bind
    rintro ⟨loaded, message⟩
    dsimp only
    split_ifs with hm
    · exact refuse_reported hm
    · apply refuse_reported
      intro he
      have hlen := congrArg String.length he
      rw [String.length_append] at hlen
      exact absurd hlen (by simp +arith)
    · exact commit_reported
  · intro what
    exact refuse_reported (caught_ne_empty what)

def taken (p : Processor σ) : Option (Transaction × TransactionId × Processor σ) :=
  match p.queue, p.reserved with
  | [], _ => none
  | txn :: queue, [] => some (txn, p.nextId, { p with queue, nextId := p.nextId + 1 })
  | txn :: queue, id :: reserved => some (txn, id, { p with queue, reserved })

def NextHolds (c : Collaborators σ) (p : Processor σ) : Prop :=
  ∀ txn id q, p.taken = some (txn, id, q) → ¬ HandlerThrows c txn id q

theorem processImpl_returns : Returns Reported (processImpl c txn id) p ↔ ¬ HandlerThrows c txn id p := by
  rw [processImpl_reported.returns_iff, ← processImpl_throws, not_exists]
  simp only [not_exists, ne_eq]

theorem processOne_eq (c : Collaborators σ) (txn : Transaction) (p : Processor σ) :
    processOne c txn p = processImpl c txn p.nextId { p with nextId := p.nextId + 1 } := rfl

theorem processOne_returns : Returns Reported (processOne c txn) p ↔
    ¬ HandlerThrows c txn p.nextId { p with nextId := p.nextId + 1 } := by
  rw [← processImpl_returns, Returns, processOne_eq, Returns]

theorem taken_eq_none : p.taken = none ↔ p.queue = [] := by
  unfold taken
  split <;> simp_all

theorem taken_queue (h : p.taken = some (txn, id, q)) : p.queue = txn :: q.queue := by
  unfold taken at h
  split at h <;> cases h <;> assumption

theorem tryPop_none (h : p.taken = none) : tryPop p = .ok none p := by
  rw [tryPop, taken_eq_none.mp h]

theorem tryPop_some (h : p.taken = some (txn, id, q)) :
    ∃ t, tryPop p = .ok (some txn) t ∧ takeReservedId t = .ok id q := by
  unfold taken at h
  split at h <;> cases h <;> refine ⟨{ p with queue := _ }, by rw [tryPop, ‹p.queue = _›], ?_⟩ <;>
    rw [takeReservedId, ‹p.reserved = _›]
  rfl

theorem processNext_none (h : p.taken = none) : processNext c p = .ok none p :=
  bind_ok (tryPop_none h)

theorem processNext_some (h : p.taken = some (txn, id, q)) :
    processNext c p = (processImpl c txn id >>= fun result => pure (some result)) q := by
  obtain ⟨t, hpop, hid⟩ := tryPop_some h
  exact (bind_ok hpop).trans (bind_ok hid)

theorem consumerTurn_none (h : p.taken = none) : consumerTurn c p = .ok false p :=
  bind_ok (tryPop_none h)

theorem consumerTurn_some (h : p.taken = some (txn, id, q)) :
    consumerTurn c p = (processImpl c txn id >>= fun _ => pure true) q := by
  obtain ⟨t, hpop, hid⟩ := tryPop_some h
  exact (bind_ok hpop).trans (bind_ok hid)

theorem then_pure_returns {β : Type} {P : β → Prop} {f : Result TransactionRecord → β}
    (hf : ∀ result, Reported result → P (f result)) :
    Returns P (processImpl c txn id >>= fun result => pure (f result)) p ↔ ¬ HandlerThrows c txn id p := by
  rw [← processImpl_returns]
  constructor
  · rintro ⟨b, t, h, _⟩
    obtain ⟨result, u, hok, _⟩ := bind_eq_ok.mp h
    exact ⟨result, u, hok, processImpl_reported _ _ _ hok⟩
  · rintro ⟨result, u, hok, hreported⟩
    exact ⟨f result, u, bind_ok hok, hf result hreported⟩

theorem processNext_returns :
    Returns (fun result => ∀ r ∈ result, Reported r) (processNext c) p ↔ NextHolds c p := by
  cases htaken : p.taken with
  | none =>
    apply iff_of_true
    · exact ⟨none, p, processNext_none htaken, by simp⟩
    · rintro txn id q h
      cases htaken.symm.trans h
  | some next =>
    obtain ⟨txn, id, q⟩ := next
    rw [Returns, processNext_some htaken]
    refine (then_pure_returns (f := some) fun _ h _ hr => ?_).trans (by simp [NextHolds, htaken])
    cases hr
    exact h

theorem consumerTurn_returns : Returns (fun _ => True) (consumerTurn c) p ↔ NextHolds c p := by
  cases htaken : p.taken with
  | none =>
    apply iff_of_true
    · exact ⟨false, p, consumerTurn_none htaken, trivial⟩
    · rintro txn id q h
      cases htaken.symm.trans h
  | some next =>
    obtain ⟨txn, id, q⟩ := next
    rw [Returns, consumerTurn_some htaken]
    exact (then_pure_returns (f := fun _ => true) fun _ _ => trivial).trans (by simp [NextHolds, htaken])

def members (p : Processor σ) : List Transaction × List TransactionId × UInt64 := (p.queue, p.reserved, p.nextId)

theorem onStores_keeps {α : Type} (m : Program Exn σ α) : Keeps members (onStores m) := by
  have hput (stores : σ) (p : Processor σ) : members { p with stores } = members p := rfl
  exact Keeps.zoom hput m

theorem appendAudit_keeps (c : Collaborators σ) (action details : String) :
    Keeps members (appendAudit c action details) := by
  apply Keeps.bind
  · exact ⟨fun h => by cases h; rfl, fun h => by cases h⟩
  · intro id
    exact Keeps.bind (onStores_keeps _) fun _ => onStores_keeps _

theorem refuse_keeps (c : Collaborators σ) (message : String) : Keeps members (refuse c message) :=
  Keeps.bind (appendAudit_keeps c _ _) fun _ => Keeps.pure

theorem load_keeps (c : Collaborators σ) (todo : List AccountId) (loaded : List Account) :
    Keeps members (load c todo loaded) := by
  induction todo generalizing loaded with
  | nil => exact Keeps.pure
  | cons k todo ih =>
    apply Keeps.bind (onStores_keeps _)
    rintro (_ | a)
    · exact Keeps.pure
    · exact ih (loaded ++ [a])

theorem saveAll_keeps (c : Collaborators σ) (accounts : List Account) : Keeps members (saveAll c accounts) := by
  induction accounts with
  | nil => exact Keeps.pure
  | cons a rest ih => exact Keeps.bind (onStores_keeps _) fun _ => ih

theorem commit_keeps (c : Collaborators σ) (txn : Transaction) (id : TransactionId) (loaded : List Account) :
    Keeps members (commit c txn id loaded) := by
  apply Keeps.bind (onStores_keeps _)
  intro timestamp
  apply Keeps.bind (onStores_keeps _)
  intro _
  rcases apply txn loaded with ⟨what | ⟨⟩, loaded'⟩
  · exact Keeps.throw
  · apply Keeps.bind (saveAll_keeps c loaded')
    intro _
    apply Keeps.bind (onStores_keeps _)
    intro _
    apply Keeps.bind (onStores_keeps _)
    intro _
    exact Keeps.bind (appendAudit_keeps c _ _) fun _ => Keeps.pure

theorem processImpl_keeps (c : Collaborators σ) (txn : Transaction) (id : TransactionId) :
    Keeps members (processImpl c txn id) := by
  rw [processImpl, if_neg (involvedAccounts_ne_nil txn)]
  apply Keeps.tryCatch
  · apply Keeps.bind (load_keeps c _ _)
    rintro ⟨loaded, message⟩
    dsimp only
    split_ifs
    · exact refuse_keeps c _
    · exact refuse_keeps c _
    · exact commit_keeps c txn id loaded
  · intro what
    exact refuse_keeps c _

theorem consumerLoop_drains {turns : ℕ} (hlt : p.queue.length < turns)
    (h : consumerLoop c turns p = .ok () q) : q.queue = [] := by
  induction turns generalizing p with
  | zero => exact absurd hlt (Nat.not_lt_zero _)
  | succ turns ih =>
    obtain ⟨more, t, hturn, hrest⟩ := bind_eq_ok.mp h
    cases htaken : p.taken with
    | none =>
      cases (consumerTurn_none htaken).symm.trans hturn
      cases hrest
      exact taken_eq_none.mp htaken
    | some next =>
      obtain ⟨txn, id, u⟩ := next
      rw [consumerTurn_some htaken] at hturn
      obtain ⟨result, v, hv, hpure⟩ := bind_eq_ok.mp hturn
      cases hpure
      refine ih ?_ hrest
      have hqueue : t.queue = u.queue := congrArg Prod.fst ((processImpl_keeps c txn id).ok hv)
      rw [taken_queue htaken, List.length_cons] at hlt
      rw [hqueue]
      omega

/-- Exactly the throws of a handler let an exception escape, and no failure lacks its message. -/
theorem never_throws_iff (c : Collaborators σ) (p : Processor σ) :
    (∀ txn, Returns Reported (processOne c txn) p ↔
      ¬ HandlerThrows c txn p.nextId { p with nextId := p.nextId + 1 }) ∧
    (Returns (fun result => ∀ r ∈ result, Reported r) (processNext c) p ↔ NextHolds c p) ∧
    (∀ turns, Returns (fun _ => True) (consumerLoop c turns) p ↔
      ∀ n < turns, ∀ q, Turns (consumerTurn c) n p q → NextHolds c q) ∧
    ∀ txn id, Yields Reported (processImpl c txn id) := by
  refine ⟨fun txn => processOne_returns, processNext_returns, fun turns => ?_, fun txn id => processImpl_reported⟩
  rw [consumerLoop, repeatWhile_returns]
  simp only [consumerTurn_returns]

def keyedAudit : Collaborators (List UInt64) where
  now log := (0, log)
  findById k := pure (some ⟨k, 1, .zero, .active, 0⟩)
  save _ := pure ()
  appendTransaction _ := pure ()
  appendAudit entry := fun log =>
    if entry.id ∈ log then .error "audit.append failed: UNIQUE constraint failed: audit_log.id" log
    else .ok () (log ++ [entry.id])
  appendWal _ := pure ()
  markCommitted _ := pure ()

theorem keyedAudit_throws :
    ¬ Returns Reported (processOne keyedAudit (.deposit 7 500)) ⟨[1, 2], [], [], 1, 1⟩ := by
  have hthrows : processOne keyedAudit (.deposit 7 500) ⟨[1, 2], [], [], 1, 1⟩ =
      .error "audit.append failed: UNIQUE constraint failed: audit_log.id" ⟨[1, 2], [], [], 2, 3⟩ := by rfl
  rintro ⟨result, q, hok, _⟩
  cases hthrows.symm.trans hok

end Processor

end BankManagement
