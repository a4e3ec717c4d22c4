import BankManagement.PipelineSteps

namespace BankManagement

open LockOrder

def Exit.work : Exit → ℕ
  | .thrown _ => 5
  | .returned _ => 1
  | .unlocked => 1

def Note.work (note : Note) : ℕ := if note.outside then 2 else 6

def Act.work (guards : ℕ) : Act → ℕ
  | .mutexFor job _ todo => 21 + guards + 4 * todo.length + 2 * job.order.length
  | .load _ todo loaded => 17 + guards + 2 * todo.length + loaded.length
  | .appendWal _ _ loaded => 15 + guards + loaded.length
  | .save _ _ _ _ todo => 13 + guards + todo.length
  | .markCommitted _ _ _ => 11 + guards
  | .appendTransaction _ _ => 9 + guards
  | .appendAudit _ note => note.work + guards

def Pc.work : Pc → ℕ
  | .want held act => act.work held.length + 1
  | .inside held act => act.work held.length
  | .lock job held _ todo => 20 + held.length + 4 * todo.length + 2 * job.order.length
  | .audit held note => note.work + held.length + 2
  | .unlock _ held exit => held.length + exit.work
  | .finished _ => 0

theorem Note.work_failed (c : Call) (message : String) : (Note.failed c message false).work = 6 := rfl

theorem Note.work_completed (c : Call) (record : TransactionRecord) : (Note.completed c record).work = 6 := rfl

theorem Note.two_le_work (note : Note) : 2 ≤ note.work := by
  unfold Note.work
  split_ifs <;> omega

theorem Job.lockNext_work (job : Job) (held todo : List AccountId) :
    (job.lockNext held todo).work ≤ 18 + held.length + 4 * todo.length + 2 * job.order.length := by
  cases todo with
  | nil =>
    cases job with
    | processImpl c =>
      simp only [lockNext, locked, Pc.work, Act.work, List.length_nil]
      omega
    | lockPair first second =>
      simp only [lockNext, locked, Pc.work, Exit.work, List.length_nil]
      omega
  | cons k todo =>
    simp only [lockNext, Pc.work, Act.work, List.length_cons]
    omega

theorem Transaction.pushUnique_length (ids : List AccountId) (k : Option AccountId) :
    (pushUnique ids k).length ≤ ids.length + 1 := by
  cases k with
  | none => exact Nat.le_succ _
  | some k =>
    simp only [pushUnique]
    split_ifs
    · exact Nat.le_succ _
    · rw [List.length_append, List.length_singleton]

theorem Job.order_length (job : Job) : job.order.length ≤ 2 := by
  cases job with
  | processImpl c =>
    rw [order, List.length_insertionSort]
    have hfirst := Transaction.pushUnique_length [] c.txn.debitAccount
    have hsecond := Transaction.pushUnique_length (Transaction.pushUnique [] c.txn.debitAccount) c.txn.creditAccount
    rw [List.length_nil] at hfirst
    exact le_trans hsecond (Nat.succ_le_succ hfirst)
  | lockPair first second =>
    simp only [order]
    split_ifs <;> simp

theorem Job.entry_work (job : Job) : job.entry.work ≤ 30 := by
  have hlock : (job.lockNext [] job.order).work ≤ 30 := by
    have hnext := job.lockNext_work [] job.order
    have horder := job.order_length
    rw [List.length_nil] at hnext
    omega
  cases job with
  | processImpl c =>
    rw [entry]
    split_ifs
    · exact (by decide : 4 ≤ 30)
    · exact hlock
  | lockPair first second => exact hlock

theorem Act.thrown_work (held : List AccountId) (what : Exn) (act : Act) :
    (act.thrown held what).work < act.work held.length := by
  cases act with
  | appendAudit entry note =>
    simp only [thrown, work, Note.work]
    split_ifs
    · exact Nat.lt_of_lt_of_le Nat.zero_lt_two (Nat.le_add_right 2 _)
    · simp only [Pc.work, Exit.work]
      omega
  | mutexFor job k todo =>
    simp only [thrown, Pc.work, Exit.work, work]
    omega
  | load c todo loaded =>
    simp only [thrown, Pc.work, Exit.work, work]
    omega
  | appendWal c record loaded =>
    simp only [thrown, Pc.work, Exit.work, work]
    omega
  | save c lsn record saved todo =>
    simp only [thrown, Pc.work, Exit.work, work]
    omega
  | markCommitted c lsn record =>
    simp only [thrown, Pc.work, Exit.work, work]
    omega
  | appendTransaction c record =>
    simp only [thrown, Pc.work, Exit.work, work]
    omega

theorem validated_work (c : Call) (held : List AccountId) (now : TimePoint) (loaded : List Account) :
    (validated c held now loaded).work < 17 + held.length + loaded.length := by
  unfold validated
  split_ifs
  · simp only [Pc.work, Note.work_failed]
    omega
  · simp only [Pc.work, Act.work]
    omega

theorem Exit.settle_work (job : Job) (exit : Exit) : (exit.settle job).work < exit.work := by
  cases job with
  | lockPair first second => cases exit <;> exact Nat.zero_lt_succ _
  | processImpl c =>
    cases exit with
    | thrown what => exact Nat.lt_succ_self 4
    | returned result => exact Nat.zero_lt_one
    | unlocked => exact Nat.zero_lt_one

theorem Job.nextUnlock_length {job : Job} {held rest : List AccountId} {k : AccountId}
    (h : job.nextUnlock held = some (k, rest)) : rest.length < held.length := by
  cases job with
  | processImpl c =>
    cases held with
    | nil => cases h
    | cons a held =>
      obtain ⟨-, rfl⟩ := Prod.mk.inj (Option.some.inj h)
      exact Nat.lt_succ_self _
  | lockPair first second =>
    obtain ⟨last, hlast, hp⟩ := Option.map_eq_some_iff.mp h
    obtain ⟨-, rfl⟩ := Prod.mk.inj hp
    have hpos := List.length_pos_of_mem (List.mem_of_getLast? hlast)
    rw [List.length_dropLast]
    omega

theorem Pc.Quiet.work {w : World} {pc pc' : Pc} (h : pc.Quiet w pc') : pc'.work < pc.work := by
  cases h with
  | enter => exact Nat.lt_succ_self _
  | found =>
    simp only [Pc.work, Act.work]
    omega
  | @locked job held k todo =>
    have hnext := job.lockNext_work (held ++ [k]) todo
    rw [List.length_append, List.length_singleton] at hnext
    apply lt_of_le_of_lt hnext
    simp only [Pc.work]
    omega
  | loaded =>
    simp only [Pc.work, Act.work, List.length_append, List.length_cons, List.length_nil]
    omega
  | missing =>
    simp only [Pc.work, Act.work, Note.work_failed, List.length_cons]
    omega
  | @checked held c loaded now => exact validated_work c held now loaded
  | saved =>
    simp only [Pc.work, Act.work, List.length_nil]
    omega
  | noted =>
    simp only [Pc.work, Act.work]
    omega
  | @audited held entry note =>
    have htwo := note.two_le_work
    simp only [Pc.work, Act.work, Exit.work]
    omega
  | unlocked hnext =>
    have hlt := Job.nextUnlock_length hnext
    simp only [Pc.work]
    omega
  | @settled job exit =>
    apply lt_of_lt_of_eq (exit.settle_work job)
    exact (Nat.zero_add _).symm

namespace State

variable {ι : Type} [DecidableEq ι] {s s' : State ι} {i : ι}

theorem step_work {now : TimePoint} {fault : Option Exn} (h : s.step i now fault = some s') :
    ∃ pc pc', s.threads i = some pc ∧ Moves s s' i pc' ∧ pc'.work < pc.work := by
  cases step_effect h with
  | quiet hi hm hq => exact ⟨_, _, hi, hm, hq.work⟩
  | thrown what hf hi hm => exact ⟨_, _, hi, hm, Act.thrown_work _ what _⟩
  | append hi happ hm =>
    have hlength := congrArg List.length (applied_ids (applied_eq_some.mpr happ))
    rw [List.length_map, List.length_map] at hlength
    refine ⟨_, _, hi, hm, ?_⟩
    simp only [Pc.work, Act.work]
    omega
  | refused hi happ hm =>
    refine ⟨_, _, hi, hm, ?_⟩
    simp only [Pc.work, Act.work, Exit.work]
    omega
  | save hi hm =>
    refine ⟨_, _, hi, hm, ?_⟩
    simp only [Pc.work, Act.work, List.length_cons]
    omega
  | commit hi hr hm =>
    refine ⟨_, _, hi, hm, ?_⟩
    simp only [Pc.work, Act.work]
    omega
  | rejected hi hr hm =>
    refine ⟨_, _, hi, hm, ?_⟩
    simp only [Pc.work, Act.work, Exit.work]
    omega
  | record hi hm =>
    refine ⟨_, _, hi, hm, ?_⟩
    simp only [Pc.work, Act.work, Note.work_completed]
    omega

def work (s : State ι) (i : ι) : ℕ := (s.threads i).elim 0 Pc.work

omit [DecidableEq ι] in
theorem work_of_threads {pc : Pc} (hi : s.threads i = some pc) : s.work i = pc.work := by
  rw [work, hi]
  rfl

end State

namespace Label

variable {ι : Type} [DecidableEq ι]

def actsOf (i : ι) : Label ι → Bool
  | .act j _ _ => j = i
  | .begin _ _ => false

def beginsOf (i : ι) : Label ι → Bool
  | .begin j _ => j = i
  | .act _ _ _ => false

end Label

namespace State

variable {ι : Type} [DecidableEq ι] {s s' : State ι}

theorem next_work {label : Label ι} (h : s.next label = some s') (i : ι) :
    s'.work i + (label.actsOf i).toNat ≤ s.work i + 30 * (label.beginsOf i).toNat := by
  cases label with
  | begin j job =>
    obtain ⟨-, rfl⟩ := start_eq_some h
    by_cases hji : j = i
    · subst hji
      have hentry := job.entry_work
      have hwork : (s.goto j job.entry).work j = job.entry.work := work_of_threads (Function.update_self _ _ _)
      simp only [Label.actsOf, Label.beginsOf, decide_true, Bool.toNat_false, Bool.toNat_true]
      omega
    · have hwork : (s.goto j job.entry).work i = s.work i :=
        congrArg (Option.elim · 0 Pc.work) (Function.update_of_ne (Ne.symm hji) _ _)
      simp [Label.actsOf, Label.beginsOf, hji, hwork]
  | act j now fault =>
    obtain ⟨pc, pc', hj, hm, hlt⟩ := step_work h
    by_cases hji : j = i
    · subst hji
      rw [work_of_threads hm.self, work_of_threads hj]
      simp only [Label.actsOf, Label.beginsOf, decide_true, Bool.toNat_false, Bool.toNat_true]
      omega
    · have hwork : s'.work i = s.work i := by
        rw [work, hm.other (Ne.symm hji), work]
      simp [Label.actsOf, Label.beginsOf, hji, hwork]

theorem Guarded.progress (hg : Guarded s) {i : ι} (hi : ¬ s.Idle i) :
    ∃ j, ¬ s.Idle j ∧ ∀ now, (s.step j now none).isSome := by
  obtain ⟨j, hj, hfree⟩ := hg.owns.exists_unblocked Mutex.rank_le (fun _ _ _ hm hm' => hg.wants_above hm hm') i
  have hactive : ¬ s.Idle j := by
    rcases hj with rfl | ⟨m, hm⟩
    · exact hi
    · exact holds_active hm
  exact ⟨j, hactive, step_isSome hactive hfree⟩

/-- In every run and with any exceptions, a thread makes at most thirty steps for each job it has
taken; when no thread can go on, none is in a job any more. -/
theorem run_ends {world : World} {labels : List (Label ι)} (h : (init world).run labels = some s) :
    (∀ i, labels.countP (·.actsOf i) + s.work i ≤ 30 * labels.countP (·.beginsOf i)) ∧
      ∀ now, (∀ i, s.step i now none = none) → ∀ i, s.Idle i := by
  constructor
  · intro i
    have hall : ∀ label ∈ labels, True := fun _ _ => trivial
    have hbudget : _ ≤ (init world : State ι).work i + _ :=
      Runs.run_budget (fun _ _ _ => trivial) (fun _ _ hnext => next_work hnext i) trivial (.of_forall hall) h
    rwa [show (init world : State ι).work i = 0 from rfl, Nat.zero_add] at hbudget
  · intro now hstuck i
    by_contra hi
    obtain ⟨j, -, hstep⟩ := (guarded_run (guarded_init world) h).progress hi
    have hsome := hstep now
    rw [hstuck j] at hsome
    cases hsome

def crossedPairs : List (Label Bool) :=
  [.begin false (.lockPair 2 1), .begin true (.lockPair 1 2), .act false 0 none, .act false 0 none, .act false 0 none,
    .act true 0 none, .act true 0 none] ++
  List.replicate 6 (.act false 0 none) ++ List.replicate 7 (.act true 0 none)

theorem crossedPairs_ends : ∃ s, (init emptyWorld).run crossedPairs = some s ∧ ∀ i, s.Idle i := by
  have h : (init emptyWorld).run crossedPairs = some _ := rfl
  refine ⟨_, h, (run_ends h).2 0 fun i => ?_⟩
  cases i <;> rfl

end State

end BankManagement
