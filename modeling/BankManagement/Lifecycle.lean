import BankManagement.PipelineOutcomes
import BankManagement.TransactionProcessor
import Mathlib.Data.Fintype.Option

/-!
`start` and `stop` around the queue: the pool of a cycle, its workers, and the stop token. Callers
of `submit`, `start` and `stop` take turns at `submit_mutex_`; consumers never take it.
-/

namespace BankManagement

/-- A worker of the pool, or the caller of `stop`, who runs the tasks that the workers have left. -/
abbrev Consumer (n : ℕ) := Option (Fin n)

inductive Place
  | exited
  | waiting
  | consuming
  | popped (ticket : Ticket)
  | executing (ticket : Ticket)
  deriving DecidableEq

namespace Place

def ticket? : Place → Option Ticket
  | .popped ticket => some ticket
  | .executing ticket => some ticket
  | _ => none

def running : Place → Option Transaction
  | .executing ticket => some ticket.txn
  | _ => none

end Place

def Consumer.rest {n : ℕ} : Consumer n → Place
  | none => .exited
  | some _ => .waiting

/-- The tasks of the pool are all alike, each of them one `consumer_loop`. -/
structure ThreadPool where
  tasks : ℕ
  stopping : Bool

def ThreadPool.submit (pool : ThreadPool) : ThreadPool :=
  if pool.stopping then pool else { pool with tasks := pool.tasks + 1 }

inductive Holder
  | starting (left : ℕ)
  | requested
  | joining (k : ℕ)
  | draining
  deriving DecidableEq

/-- The processor in its cycles; `pool` is the one of the last `start`. The code does not keep the
last five: what `submit` has accepted and refused, what `process_impl` has returned for, whether a
`start` ever was, and whether a `stop` has returned with no `start` after it. -/
structure Lifecycle (n : ℕ) where
  processor : TransactionProcessor (Consumer n)
  started : Bool
  stopRequested : Bool
  pool : ThreadPool
  place : Consumer n → Place
  holder : Option Holder
  accepted : List Ticket
  refused : List Transaction
  executed : List Ticket
  everStarted : Bool
  halted : Bool

namespace State

variable {ι : Type} [DecidableEq ι] {s s' : State ι} {i : ι} {now : TimePoint} {fault : Option Exn}

theorem step_callOf (h : s.step i now fault = some s') (hexit : s'.exitOf i = none) : s'.callOf i = s.callOf i := by
  obtain ⟨pc, pc', hi, hm, hjob⟩ := step_job h
  have hsame : pc'.job = pc.job := by
    cases hj : pc'.job with
    | some job => exact (hjob job hj).symm
    | none =>
      cases pc' with
      | finished exit =>
        rw [exitOf, hm.self] at hexit
        cases hexit
      | want _ _ => cases hj
      | inside _ _ => cases hj
      | lock _ _ _ _ => cases hj
      | audit _ _ => cases hj
      | unlock _ _ _ => cases hj
  rw [callOf, hm.self, callOf, hi, Option.bind_some, Option.bind_some, hsame]

omit [DecidableEq ι] in
theorem callOf_congr (h : s'.threads i = s.threads i) : s'.callOf i = s.callOf i := by
  rw [callOf, h, callOf]

omit [DecidableEq ι] in
theorem callOf_of_exitOf {exit : Exit} (h : s.exitOf i = some exit) : s.callOf i = none :=
  Idle.callOf (.inr ⟨exit, exitOf_eq_some h⟩)

end State

namespace TransactionProcessor

variable {ι : Type} [DecidableEq ι] {p p' : TransactionProcessor ι} {i : ι}

structure Own (p p' : TransactionProcessor ι) (i : ι) : Prop where
  queue : p'.queue = p.queue
  accepting : p'.accepting = p.accepting
  submitting : p'.submitting = p.submitting
  handed : p.handed.length ≤ p'.handed.length
  others : ∀ j, j ≠ i → p'.pipeline.threads j = p.pipeline.threads j

theorem call_own {number : ℕ} {c : Call} (h : p.call i number c = some p') :
    p'.taking = p.taking ∧ p'.pipeline.callOf i = some c ∧ Own p p' i := by
  obtain ⟨pipeline, hstart, rfl⟩ := Option.map_eq_some_iff.mp h
  obtain ⟨_, rfl⟩ := State.start_eq_some hstart
  refine ⟨rfl, ?_, rfl, rfl, rfl, le_rfl, fun j hj => Function.update_of_ne hj _ _⟩
  apply State.callOf_eq_some.mpr
  exact ⟨_, Function.update_self _ _ _, Job.entry_job _⟩

theorem take_own (h : p.next (.take i) = some p') :
    ∃ ticket id, (i, ticket) ∈ p.taking ∧ p'.taking = p.taking.eraseP (·.1 = i) ∧
      p'.pipeline.callOf i = some ⟨ticket.txn, id⟩ ∧ Own p p' i := by
  simp only [next] at h
  split at h
  · cases h
  · rename_i j ticket hfind
    obtain rfl : j = i := by simpa using List.find?_some hfind
    refine ⟨ticket, ?_⟩
    unfold takeReservedId at h
    split at h
    · obtain ⟨htaking, hcall, hown⟩ := call_own h
      exact ⟨_, List.mem_of_find?_eq_some hfind, htaking, hcall, hown.1, hown.2, hown.3, hown.4, hown.5⟩
    · obtain ⟨htaking, hcall, hown⟩ := call_own h
      refine ⟨_, List.mem_of_find?_eq_some hfind, htaking, hcall, hown.1, hown.2, hown.3, ?_, hown.5⟩
      refine le_trans ?_ hown.4
      simp [handOut]

theorem act_own {now : TimePoint} {fault : Option Exn} (h : p.next (.act i now fault) = some p') :
    p.pipeline.step i now fault = some p'.pipeline ∧ p'.taking = p.taking ∧ Own p p' i := by
  obtain ⟨pipeline, hstep, rfl⟩ := Option.map_eq_some_iff.mp h
  obtain ⟨_, _, _, hm, _⟩ := State.step_job hstep
  exact ⟨hstep, rfl, rfl, rfl, rfl, le_rfl, fun j hj => hm.other hj⟩

end TransactionProcessor

namespace Lifecycle

variable {n : ℕ}

inductive Event (n : ℕ)
  | submit (txn : Transaction)
  | reserve
  | enqueue
  | start
  | launch
  | stop
  | close
  | join
  | drain
  | fetch (i : Fin n)
  | waitPop (c : Consumer n)
  | take (c : Consumer n)
  | act (c : Consumer n) (now : TimePoint) (fault : Option Exn)

def create (world : World) : Lifecycle n where
  processor := .create world
  started := false
  stopRequested := false
  pool := ⟨0, false⟩
  place := fun _ => .exited
  holder := none
  accepted := []
  refused := []
  executed := []
  everStarted := false
  halted := false

def move (s : Lifecycle n) (c : Consumer n) (place : Place) : Lifecycle n :=
  { s with place := Function.update s.place c place }

def runTask (s : Lifecycle n) (c : Consumer n) (tasks : ℕ) : Lifecycle n :=
  { s.move c .consuming with pool := { s.pool with tasks } }

/-- A step that has to wait is none: for the mutex, for a task or a stop of the pool, for an item or
the stop token, for a worker to exit. Nor is there a step on which `process_impl` does not return. -/
def next (s : Lifecycle n) : Event n → Option (Lifecycle n)
  | .submit txn =>
    if s.holder = none then
      (s.processor.next (.submit txn)).map fun processor =>
        if s.processor.accepting then { s with processor } else { s with processor, refused := s.refused ++ [txn] }
    else none
  | .reserve => (s.processor.next .reserve).map fun processor => { s with processor }
  | .enqueue => match s.processor.submitting with
    | some (.reserved ticket) => (s.processor.next .enqueue).map fun processor =>
      { s with processor, accepted := s.accepted ++ [ticket] }
    | _ => none
  | .start =>
    if s.holder = none ∧ s.processor.submitting = none then
      if s.started then some s
      else (s.processor.next .start).map fun processor =>
        { s with
          processor
          started := true
          stopRequested := false
          pool := ⟨0, false⟩
          place := Consumer.rest
          holder := some (.starting n)
          everStarted := true
          halted := false }
    else none
  | .launch => match s.holder with
    | some (.starting 0) => some { s with holder := none }
    | some (.starting (left + 1)) => some { s with pool := s.pool.submit, holder := some (.starting left) }
    | _ => none
  | .stop =>
    if s.holder = none then
      (s.processor.next .stop).map fun processor =>
        if s.started then { s with processor, stopRequested := true, holder := some .requested }
        else { s with processor, halted := true }
    else none
  | .close => match s.holder with
    | some .requested => some { s with pool := { s.pool with stopping := true }, holder := some (.joining 0) }
    | _ => none
  | .join => match s.holder with
    | some (.joining k) =>
      if hk : k < n then
        if s.place (some ⟨k, hk⟩) = .exited then some { s with holder := some (.joining (k + 1)) } else none
      else some { s with holder := some .draining }
    | _ => none
  | .drain =>
    if s.holder = some .draining ∧ s.place none = .exited then
      match s.pool.tasks with
      | 0 => some { s with started := false, holder := none, halted := true }
      | tasks + 1 => some (s.runTask none tasks)
    else none
  | .fetch i =>
    if s.place (some i) = .waiting then
      match s.pool.tasks with
      | 0 => if s.pool.stopping then some (s.move (some i) .exited) else none
      | tasks + 1 => some (s.runTask (some i) tasks)
    else none
  | .waitPop c =>
    if s.place c = .consuming then
      match s.processor.queue with
      | [] => if s.stopRequested then some (s.move c c.rest) else none
      | ticket :: _ => (s.processor.next (.pop c)).map fun processor => { s.move c (.popped ticket) with processor }
    else none
  | .take c => match s.place c with
    | .popped ticket => (s.processor.next (.take c)).map fun processor =>
      { s.move c (.executing ticket) with processor }
    | _ => none
  | .act c now fault => match s.place c with
    | .executing ticket => (s.processor.next (.act c now fault)).bind fun processor =>
      match processor.pipeline.exitOf c with
      | none => some { s with processor }
      | some (.returned _) =>
        some { s.move c .consuming with processor, executed := s.executed ++ [ticket] }
      | some _ => none
    | _ => none

def run (s : Lifecycle n) (events : List (Event n)) : Option (Lifecycle n) := Runs.run next s events

def holders (s : Lifecycle n) (ticket : Ticket) : Finset (Consumer n) :=
  Finset.univ.filter fun c => (s.place c).ticket? = some ticket

inductive Effect (s s' : Lifecycle n) : Prop
  | refuse (txn : Transaction) (ha : s.processor.accepting = false) (hs : s' = { s with refused := s.refused ++ [txn] })
  | accept (txn : Transaction) (hh : s.holder = none) (hsub : s.processor.submitting = none)
    (ha : s.processor.accepting = true)
    (hs : s' = { s with processor := { s.processor.handOut txn with
      submitting := some (.fetched ⟨s.processor.handed.length, txn⟩ s.processor.nextId) } })
  | reserve {ticket id} (hsub : s.processor.submitting = some (.fetched ticket id))
    (hs : s' = { s with processor := { s.processor with
      reserved := s.processor.reserved ++ [id], submitting := some (.reserved ticket) } })
  | enqueue {ticket} (hsub : s.processor.submitting = some (.reserved ticket))
    (hs : s' = { s with
      processor := { s.processor with queue := s.processor.queue ++ [ticket], submitting := none }
      accepted := s.accepted ++ [ticket] })
  | restart (hs : s' = s)
  | start (hh : s.holder = none) (hsub : s.processor.submitting = none) (hst : s.started = false)
    (hs : s' = { s with
      processor := { s.processor with accepting := true }
      started := true
      stopRequested := false
      pool := ⟨0, false⟩
      place := Consumer.rest
      holder := some (.starting n)
      everStarted := true
      halted := false })
  | launch {left} (hh : s.holder = some (.starting (left + 1)))
    (hs : s' = { s with pool := s.pool.submit, holder := some (.starting left) })
  | launched (hh : s.holder = some (.starting 0)) (hs : s' = { s with holder := none })
  | stop (hh : s.holder = none) (hsub : s.processor.submitting = none) (hst : s.started = true)
    (hs : s' = { s with
      processor := { s.processor with accepting := false }, stopRequested := true, holder := some .requested })
  | halt (hh : s.holder = none) (hsub : s.processor.submitting = none) (hst : s.started = false)
    (hs : s' = { s with processor := { s.processor with accepting := false }, halted := true })
  | close (hh : s.holder = some .requested)
    (hs : s' = { s with pool := { s.pool with stopping := true }, holder := some (.joining 0) })
  | join {k} (hk : k < n) (hh : s.holder = some (.joining k)) (hp : s.place (some ⟨k, hk⟩) = .exited)
    (hs : s' = { s with holder := some (.joining (k + 1)) })
  | joined {k} (hk : n ≤ k) (hh : s.holder = some (.joining k)) (hs : s' = { s with holder := some .draining })
  | drained (hh : s.holder = some .draining) (hp : s.place none = .exited) (ht : s.pool.tasks = 0)
    (hs : s' = { s with started := false, holder := none, halted := true })
  | fetch {c tasks} (hp : s.place c = c.rest) (hh : c = none → s.holder = some .draining)
    (ht : s.pool.tasks = tasks + 1) (hs : s' = s.runTask c tasks)
  | exit {i} (hp : s.place (some i) = .waiting) (ht : s.pool.tasks = 0) (hst : s.pool.stopping = true)
    (hs : s' = s.move (some i) .exited)
  | pop {c ticket queue} (hp : s.place c = .consuming) (hq : s.processor.queue = ticket :: queue)
    (hidle : ∀ x ∈ s.processor.taking, x.1 ≠ c)
    (hs : s' = { s.move c (.popped ticket) with
      processor := { s.processor with queue, taking := s.processor.taking ++ [(c, ticket)] } })
  | leave {c} (hp : s.place c = .consuming) (hq : s.processor.queue = []) (hst : s.stopRequested = true)
    (hs : s' = s.move c c.rest)
  | take {c ticket found id processor} (hp : s.place c = .popped ticket) (hfound : (c, found) ∈ s.processor.taking)
    (htaking : processor.taking = s.processor.taking.eraseP (·.1 = c))
    (hcall : processor.pipeline.callOf c = some ⟨found.txn, id⟩) (hown : s.processor.Own processor c)
    (hs : s' = { s.move c (.executing ticket) with processor })
  | act {c ticket processor} (hp : s.place c = .executing ticket) (htaking : processor.taking = s.processor.taking)
    (hcall : processor.pipeline.callOf c = s.processor.pipeline.callOf c) (hown : s.processor.Own processor c)
    (hs : s' = { s with processor })
  | finish {c ticket processor} (hp : s.place c = .executing ticket) (htaking : processor.taking = s.processor.taking)
    (hcall : processor.pipeline.callOf c = none) (hown : s.processor.Own processor c)
    (hs : s' = { s.move c .consuming with processor, executed := s.executed ++ [ticket] })

variable {s s' : Lifecycle n}

theorem next_effect {event : Event n} (h : s.next event = some s') : Effect s s' := by
  cases event with
  | submit txn =>
    simp only [next] at h
    split_ifs at h with hh ha
    · obtain ⟨processor, hp, rfl⟩ := Option.map_eq_some_iff.mp h
      simp only [TransactionProcessor.next, if_pos ha] at hp
      split_ifs at hp with hsub
      obtain rfl := Option.some.inj hp
      exact .accept txn hh hsub ha rfl
    · obtain ⟨processor, hp, rfl⟩ := Option.map_eq_some_iff.mp h
      simp only [TransactionProcessor.next, if_neg ha] at hp
      split_ifs at hp with hsub
      obtain rfl := Option.some.inj hp
      exact .refuse txn (by simpa using ha) rfl
  | reserve =>
    obtain ⟨processor, hp, rfl⟩ := Option.map_eq_some_iff.mp h
    simp only [TransactionProcessor.next] at hp
    split at hp
    · obtain rfl := Option.some.inj hp
      exact .reserve ‹_› rfl
    · cases hp
  | enqueue =>
    simp only [next] at h
    split at h
    · rename_i ticket hsub
      simp only [TransactionProcessor.next, hsub, Option.map_some] at h
      exact .enqueue hsub (Option.some.inj h).symm
    · cases h
  | start =>
    simp only [next] at h
    split_ifs at h with hh hst
    · exact .restart (Option.some.inj h).symm
    · simp only [TransactionProcessor.next, if_pos hh.2, Option.map_some] at h
      exact .start hh.1 hh.2 (by simpa using hst) (Option.some.inj h).symm
  | launch =>
    simp only [next] at h
    split at h
    · exact .launched ‹_› (Option.some.inj h).symm
    · exact .launch ‹_› (Option.some.inj h).symm
    · cases h
  | stop =>
    simp only [next] at h
    split_ifs at h with hh hst
    · obtain ⟨processor, hp, rfl⟩ := Option.map_eq_some_iff.mp h
      simp only [TransactionProcessor.next] at hp
      split_ifs at hp with hsub
      obtain rfl := Option.some.inj hp
      exact .stop hh hsub hst rfl
    · obtain ⟨processor, hp, rfl⟩ := Option.map_eq_some_iff.mp h
      simp only [TransactionProcessor.next] at hp
      split_ifs at hp with hsub
      obtain rfl := Option.some.inj hp
      exact .halt hh hsub (by simpa using hst) rfl
  | close =>
    simp only [next] at h
    split at h
    · exact .close ‹_› (Option.some.inj h).symm
    · cases h
  | join =>
    simp only [next] at h
    split at h
    · split_ifs at h with hk hp
      · exact .join hk ‹_› hp (Option.some.inj h).symm
      · exact .joined (Nat.le_of_not_lt hk) ‹_› (Option.some.inj h).symm
    · cases h
  | drain =>
    simp only [next] at h
    split_ifs at h with hh
    split at h
    · exact .drained hh.1 hh.2 ‹_› (Option.some.inj h).symm
    · exact .fetch hh.2 (fun _ => hh.1) ‹_› (Option.some.inj h).symm
  | fetch i =>
    by_cases hp : s.place (some i) = .waiting
    · simp only [next, if_pos hp] at h
      split at h
      · split_ifs at h with hst
        exact .exit hp ‹_› hst (Option.some.inj h).symm
      · exact .fetch hp (fun hc => by cases hc) ‹_› (Option.some.inj h).symm
    · simp only [next, if_neg hp] at h
      cases h
  | waitPop c =>
    by_cases hp : s.place c = .consuming
    · simp only [next, if_pos hp] at h
      split at h
      · split_ifs at h with hst
        exact .leave hp ‹_› hst (Option.some.inj h).symm
      · rename_i ticket queue hq
        simp only [TransactionProcessor.next, hq] at h
        split_ifs at h with hidle
        · refine .pop hp hq ?_ (Option.some.inj h).symm
          simp only [TransactionProcessor.idle, Bool.and_eq_true, List.all_eq_true] at hidle
          exact fun x hx => by simpa using hidle.1 x hx
        · cases h
    · simp only [next, if_neg hp] at h
      cases h
  | take c =>
    simp only [next] at h
    split at h
    · obtain ⟨processor, hp, rfl⟩ := Option.map_eq_some_iff.mp h
      obtain ⟨found, id, hfound, htaking, hcall, hown⟩ := TransactionProcessor.take_own hp
      exact .take ‹_› hfound htaking hcall hown rfl
    · cases h
  | act c now fault =>
    simp only [next] at h
    split at h
    · obtain ⟨processor, hp, h⟩ := Option.bind_eq_some_iff.mp h
      obtain ⟨hstep, htaking, hown⟩ := TransactionProcessor.act_own hp
      split at h
      · obtain rfl := Option.some.inj h
        exact .act ‹_› htaking (State.step_callOf hstep ‹_›) hown rfl
      · obtain rfl := Option.some.inj h
        exact .finish ‹_› htaking (State.callOf_of_exitOf ‹_›) hown rfl
      · cases h
    · cases h

end Lifecycle

end BankManagement
