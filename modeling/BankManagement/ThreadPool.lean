import BankManagement.Shutdown

/-!
The pool by itself: `submit` callers, the workers, and `stop` callers one after the other. A step is
one critical section of `mutex_`, one call to a thread or to `cv_`, or the end of a task.
-/

namespace BankManagement.ThreadPool

inductive Worker
  | looking
  | asleep
  | running (task : ℕ)
  | exited
  deriving DecidableEq

inductive Stopper (n : ℕ)
  | away
  | notifying
  | requesting (k : ℕ)
  | joining (i : Fin n)
  | draining
  | running (task : ℕ)
  deriving DecidableEq

/-- A task goes by the number of its `submit`. The code does not keep the last four: what each `submit`
has answered, the tasks in the order they left the queue and in the order they ended, and how often
`stop` has returned. A `notice` is a `notify_one` that is still to come. -/
structure State (n : ℕ) where
  tasks : List ℕ
  stopping : Bool
  notices : ℕ
  workers : Fin n → Worker
  requested : Fin n → Bool
  cleared : Bool
  stopper : Stopper n
  answers : List Bool
  dequeued : List ℕ
  executed : List ℕ
  stopped : ℕ

inductive Event (n : ℕ)
  | submit
  | notify (i : Option (Fin n))
  | wake (i : Fin n)
  | look (i : Fin n)
  | finish (i : Fin n)
  | stop
  | proceed
  deriving DecidableEq

def Worker.notified : Worker → Worker
  | .asleep => .looking
  | worker => worker

namespace State

variable {n : ℕ}

def create (n : ℕ) : State n where
  tasks := []
  stopping := false
  notices := 0
  workers := fun _ => .looking
  requested := fun _ => false
  cleared := false
  stopper := .away
  answers := []
  dequeued := []
  executed := []
  stopped := 0

def set (s : State n) (i : Fin n) (worker : Worker) : State n :=
  { s with workers := Function.update s.workers i worker }

def notifyAll (s : State n) : State n := { s with workers := fun i => (s.workers i).notified }

def submit (s : State n) : State n :=
  if s.stopping then { s with answers := s.answers ++ [false] }
  else { s with
    tasks := s.tasks ++ [s.answers.length], notices := s.notices + 1, answers := s.answers ++ [true] }

/-- A task may run on as long as it likes, but it ends. A `wake` is spurious. -/
def next (s : State n) : Event n → Option (State n)
  | .submit => some s.submit
  | .notify i => match s.notices, i with
    | 0, _ => none
    | notices + 1, some i => if s.workers i = .asleep then some { s.set i .looking with notices } else none
    | notices + 1, none => if ∀ i, s.workers i ≠ .asleep then some { s with notices } else none
  | .wake i => if s.workers i = .asleep then some (s.set i .looking) else none
  | .look i =>
    if s.workers i = .looking then
      match s.tasks with
      | [] =>
        if s.stopping then some (s.set i .exited)
        -- with the token requested `cv_.wait` returns, and the loop comes round
        else if s.requested i then some s
        else some (s.set i .asleep)
      | task :: tasks => some { s.set i (.running task) with tasks, dequeued := s.dequeued ++ [task] }
    else none
  | .finish i => match s.workers i with
    | .running task => some { s.set i .looking with executed := s.executed ++ [task] }
    | _ => none
  | .stop => if s.stopper = .away then some { s with stopping := true, stopper := .notifying } else none
  | .proceed => match s.stopper with
    | .away => none
    | .notifying => some { s.notifyAll with stopper := .requesting 0 }
    | .requesting k =>
      if hk : k < n ∧ s.cleared = false then
        some { s.notifyAll with
          requested := Function.update s.requested ⟨k, hk.1⟩ true, stopper := .joining ⟨k, hk.1⟩ }
      else some { s with cleared := true, stopper := .draining }
    | .joining i => if s.workers i = .exited then some { s with stopper := .requesting (i + 1) } else none
    | .draining => match s.tasks with
      | [] => some { s with stopper := .away, stopped := s.stopped + 1 }
      | task :: tasks => some { s with stopper := .running task, tasks, dequeued := s.dequeued ++ [task] }
    | .running task => some { s with stopper := .draining, executed := s.executed ++ [task] }

def run (s : State n) (events : List (Event n)) : Option (State n) := Runs.run next s events

def pool (s : State n) : ThreadPool := ⟨s.tasks.length, s.stopping⟩

theorem submit_pool (s : State n) : s.submit.pool = s.pool.submit := by
  cases hst : s.stopping with
  | true => simp [submit, pool, ThreadPool.submit, hst]
  | false => simp [submit, pool, ThreadPool.submit, hst]

inductive Effect (s : State n) : Event n → State n → Prop
  | refuse (hst : s.stopping = true) : Effect s .submit { s with answers := s.answers ++ [false] }
  | accept (hst : s.stopping = false) : Effect s .submit { s with
    tasks := s.tasks ++ [s.answers.length], notices := s.notices + 1, answers := s.answers ++ [true] }
  | notify {i notices} (hn : s.notices = notices + 1) (hi : s.workers i = .asleep) :
    Effect s (.notify (some i)) { s.set i .looking with notices }
  | unheard {notices} (hn : s.notices = notices + 1) : Effect s (.notify none) { s with notices }
  | wake {i} (hi : s.workers i = .asleep) : Effect s (.wake i) (s.set i .looking)
  | exit {i} (hi : s.workers i = .looking) (ht : s.tasks = []) (hst : s.stopping = true) :
    Effect s (.look i) (s.set i .exited)
  | again {i} (hst : s.stopping = false) : Effect s (.look i) s
  | sleep {i} (hi : s.workers i = .looking) (hst : s.stopping = false) : Effect s (.look i) (s.set i .asleep)
  | pop {i task tasks} (hi : s.workers i = .looking) (ht : s.tasks = task :: tasks) :
    Effect s (.look i) { s.set i (.running task) with tasks, dequeued := s.dequeued ++ [task] }
  | finish {i task} (hi : s.workers i = .running task) :
    Effect s (.finish i) { s.set i .looking with executed := s.executed ++ [task] }
  | stop (hs : s.stopper = .away) : Effect s .stop { s with stopping := true, stopper := .notifying }
  | notifyAll (hs : s.stopper = .notifying) : Effect s .proceed { s.notifyAll with stopper := .requesting 0 }
  | request {k} (hs : s.stopper = .requesting k) (hk : k < n) (hc : s.cleared = false) :
    Effect s .proceed { s.notifyAll with
      requested := Function.update s.requested ⟨k, hk⟩ true, stopper := .joining ⟨k, hk⟩ }
  | clear {k} (hs : s.stopper = .requesting k) (hk : k < n → s.cleared = true) :
    Effect s .proceed { s with cleared := true, stopper := .draining }
  | join {i} (hs : s.stopper = .joining i) (hi : s.workers i = .exited) :
    Effect s .proceed { s with stopper := .requesting (i + 1) }
  | leave (hs : s.stopper = .draining) (ht : s.tasks = []) :
    Effect s .proceed { s with stopper := .away, stopped := s.stopped + 1 }
  | drain {task tasks} (hs : s.stopper = .draining) (ht : s.tasks = task :: tasks) :
    Effect s .proceed { s with stopper := .running task, tasks, dequeued := s.dequeued ++ [task] }
  | drained {task} (hs : s.stopper = .running task) :
    Effect s .proceed { s with stopper := .draining, executed := s.executed ++ [task] }

variable {s s' : State n} {event : Event n}

theorem next_effect (h : s.next event = some s') : Effect s event s' := by
  cases event with
  | submit =>
    obtain rfl := Option.some.inj h
    unfold submit
    split_ifs with hst
    · exact .refuse hst
    · exact .accept (by simpa using hst)
  | notify i =>
    simp only [next] at h
    split at h
    · cases h
    · split_ifs at h with hi
      obtain rfl := Option.some.inj h
      exact .notify ‹_› hi
    · split_ifs at h with hi
      obtain rfl := Option.some.inj h
      exact .unheard ‹_›
  | wake i =>
    simp only [next] at h
    split_ifs at h with hi
    obtain rfl := Option.some.inj h
    exact .wake hi
  | look i =>
    by_cases hi : s.workers i = .looking
    · simp only [next, if_pos hi] at h
      split at h
      · split_ifs at h with hst hr
        · obtain rfl := Option.some.inj h
          exact .exit hi ‹_› hst
        · obtain rfl := Option.some.inj h
          exact .again (by simpa using hst)
        · obtain rfl := Option.some.inj h
          exact .sleep hi (by simpa using hst)
      · obtain rfl := Option.some.inj h
        exact .pop hi ‹_›
    · simp only [next, if_neg hi] at h
      cases h
  | finish i =>
    simp only [next] at h
    split at h
    · obtain rfl := Option.some.inj h
      exact .finish ‹_›
    · cases h
  | stop =>
    simp only [next] at h
    split_ifs at h with hs
    obtain rfl := Option.some.inj h
    exact .stop hs
  | proceed =>
    simp only [next] at h
    split at h
    · cases h
    · obtain rfl := Option.some.inj h
      exact .notifyAll ‹_›
    · split_ifs at h with hk
      · obtain rfl := Option.some.inj h
        exact .request ‹_› hk.1 hk.2
      · obtain rfl := Option.some.inj h
        refine .clear ‹_› fun hlt => ?_
        simpa using not_and.mp hk hlt
    · split_ifs at h with hi
      obtain rfl := Option.some.inj h
      exact .join ‹_› hi
    · split at h
      · obtain rfl := Option.some.inj h
        exact .leave ‹_› ‹_›
      · obtain rfl := Option.some.inj h
        exact .drain ‹_› ‹_›
    · obtain rfl := Option.some.inj h
      exact .drained ‹_›

end State

def Worker.tally (task : ℕ) (worker : Worker) : ℕ := if worker = .running task then 1 else 0

def Stopper.tally {n : ℕ} (task : ℕ) (stopper : Stopper n) : ℕ := if stopper = .running task then 1 else 0

theorem Worker.tally_eq_zero {worker : Worker} (h : ∀ task, worker ≠ .running task) (task : ℕ) :
    worker.tally task = 0 := if_neg (h task)

theorem Worker.notified_tally (worker : Worker) (task : ℕ) : worker.notified.tally task = worker.tally task := by
  cases worker <;> rfl

def accepted (answers : List Bool) : List ℕ :=
  (List.range answers.length).filter fun task => answers[task]? = some true

theorem accepted_append (answers : List Bool) (answer : Bool) :
    accepted (answers ++ [answer]) = accepted answers ++ if answer then [answers.length] else [] := by
  have hold : (List.range answers.length).filter (fun task => (answers ++ [answer])[task]? = some true) =
      accepted answers := by
    apply List.filter_congr
    intro task htask
    rw [List.getElem?_append_left (List.mem_range.mp htask)]
  rw [accepted, List.length_append, List.length_singleton, List.range_succ, List.filter_append, hold,
    List.filter_singleton, List.getElem?_concat_length]
  cases answer <;> rfl

theorem mem_accepted {answers : List Bool} {task : ℕ} : task ∈ accepted answers ↔ answers[task]? = some true := by
  rw [accepted, List.mem_filter, List.mem_range, decide_eq_true_eq]
  constructor
  · exact fun h => h.2
  · exact fun h => ⟨(List.getElem?_eq_some_iff.mp h).1, h⟩

theorem accepted_nodup (answers : List Bool) : (accepted answers).Nodup := List.nodup_range.filter _

namespace State

variable {n : ℕ} {s s' : State n} {event : Event n} {i : Fin n} {worker : Worker}

def inHand (s : State n) (task : ℕ) : ℕ := ∑ i, (s.workers i).tally task + s.stopper.tally task

structure Counted (s : State n) : Prop where
  order : accepted s.answers = s.dequeued ++ s.tasks
  count : ∀ task, s.dequeued.count task = s.executed.count task + s.inHand task

theorem inHand_set (s : State n) (i : Fin n) (worker : Worker) (task : ℕ) :
    (s.set i worker).inHand task + (s.workers i).tally task = s.inHand task + worker.tally task := by
  have hsum := sum_update (Worker.tally task) s.workers i worker
  change ∑ j, (Function.update s.workers i worker j).tally task + s.stopper.tally task + _ =
    ∑ j, (s.workers j).tally task + s.stopper.tally task + _
  omega

theorem inHand_notifyAll (s : State n) (task : ℕ) : s.notifyAll.inHand task = s.inHand task := by
  simp only [inHand, notifyAll, Worker.notified_tally]

theorem Counted.set (h : s.Counted) (hi : ∀ task, s.workers i ≠ .running task)
    (hw : ∀ task, worker ≠ .running task) : (s.set i worker).Counted := by
  refine ⟨h.order, fun task => ?_⟩
  have hset := inHand_set s i worker task
  rw [Worker.tally_eq_zero hi, Worker.tally_eq_zero hw] at hset
  change s.dequeued.count task = s.executed.count task + _
  rw [h.count task]
  omega

theorem Counted.move (h : s.Counted) {stopper : Stopper n} (hs : ∀ task, s.stopper ≠ .running task)
    (hs' : ∀ task, stopper ≠ .running task) : { s with stopper }.Counted := by
  refine ⟨h.order, fun task => ?_⟩
  change _ = s.executed.count task + (∑ i, (s.workers i).tally task + stopper.tally task)
  rw [h.count task, inHand, Stopper.tally, Stopper.tally, if_neg (hs task), if_neg (hs' task)]

theorem Counted.notifyAll (h : s.Counted) : s.notifyAll.Counted := by
  refine ⟨h.order, fun task => ?_⟩
  rw [inHand_notifyAll]
  exact h.count task

theorem Counted.next (h : s.Counted) (he : Effect s event s') : s'.Counted := by
  cases he with
  | refuse hst =>
    refine ⟨?_, h.count⟩
    rw [accepted_append, h.order]
    exact List.append_nil _
  | accept hst =>
    refine ⟨?_, h.count⟩
    rw [accepted_append, h.order]
    exact List.append_assoc _ _ _
  | @notify i notices hn hi =>
    have hset : (s.set i .looking).Counted := h.set (by simp [hi]) (by simp)
    exact ⟨hset.order, hset.count⟩
  | unheard hn => exact ⟨h.order, h.count⟩
  | wake hi => exact h.set (by simp [hi]) (by simp)
  | exit hi ht hst => exact h.set (by simp [hi]) (by simp)
  | again hst => exact h
  | sleep hi hst => exact h.set (by simp [hi]) (by simp)
  | @pop i task tasks hi ht =>
    refine ⟨?_, fun c => ?_⟩
    · rw [List.append_assoc]
      exact h.order.trans (congrArg _ ht)
    · have hset := inHand_set s i (.running task) c
      have hcount := h.count c
      rw [hi] at hset
      simp only [Worker.tally, Worker.running.injEq, reduceCtorEq, if_false] at hset
      change (s.dequeued ++ [task]).count c = s.executed.count c + (s.set i (.running task)).inHand c
      rw [List.count_append, List.count_singleton]
      simp only [beq_iff_eq]
      omega
  | @finish i task hi =>
    refine ⟨h.order, fun c => ?_⟩
    have hset := inHand_set s i .looking c
    have hcount := h.count c
    rw [hi] at hset
    simp only [Worker.tally, Worker.running.injEq, reduceCtorEq, if_false] at hset
    change s.dequeued.count c = (s.executed ++ [task]).count c + (s.set i .looking).inHand c
    rw [List.count_append, List.count_singleton]
    simp only [beq_iff_eq]
    omega
  | stop hs =>
    have hmove : { s with stopper := .notifying }.Counted := h.move (by simp [hs]) (by simp)
    exact ⟨hmove.order, hmove.count⟩
  | notifyAll hs => exact h.notifyAll.move (by simp [State.notifyAll, hs]) (by simp)
  | @request k hs hk hc =>
    have hmove : { s.notifyAll with stopper := .joining ⟨k, hk⟩ }.Counted :=
      h.notifyAll.move (by simp [State.notifyAll, hs]) (by simp)
    exact ⟨hmove.order, hmove.count⟩
  | clear hs hk =>
    have hmove : { s with stopper := .draining }.Counted := h.move (by simp [hs]) (by simp)
    exact ⟨hmove.order, hmove.count⟩
  | join hs hi => exact h.move (by simp [hs]) (by simp)
  | leave hs ht =>
    have hmove : { s with stopper := .away }.Counted := h.move (by simp [hs]) (by simp)
    exact ⟨hmove.order, hmove.count⟩
  | @drain task tasks hs ht =>
    refine ⟨?_, fun c => ?_⟩
    · rw [List.append_assoc]
      exact h.order.trans (congrArg _ ht)
    · have hcount := h.count c
      simp only [inHand, Stopper.tally, hs, reduceCtorEq, if_false] at hcount
      simp only [inHand, Stopper.tally, Stopper.running.injEq, List.count_append, List.count_singleton, beq_iff_eq]
      omega
  | @drained task hs =>
    refine ⟨h.order, fun c => ?_⟩
    have hcount := h.count c
    simp only [inHand, Stopper.tally, hs, Stopper.running.injEq] at hcount
    simp only [inHand, Stopper.tally, reduceCtorEq, if_false, List.count_append, List.count_singleton, beq_iff_eq]
    omega

def Stage (s : State n) : Stopper n → Prop
  | .away => True
  | .notifying => s.stopping = true
  | .requesting k => s.stopping = true ∧ ∀ i, i.val < k → s.workers i = .exited
  | .joining i => s.stopping = true ∧ ∀ j, j.val < i.val → s.workers j = .exited
  | .draining => s.stopping = true ∧ s.cleared = true
  | .running _ => s.stopping = true ∧ s.cleared = true ∧ s.stopped = 0

structure Staged (s : State n) : Prop where
  stage : s.Stage s.stopper
  exits : ∀ i, s.workers i = .exited → s.stopping = true ∧ s.tasks = []
  awake : s.stopping = true → s.stopper ≠ .notifying → ∀ i, s.workers i ≠ .asleep
  cleared : s.cleared = true → ∀ i, s.workers i = .exited
  ended : 0 < s.stopped → s.stopping = true ∧ s.cleared = true ∧ s.tasks = []

theorem Stage.keep (hstopping : s.stopping = true → s'.stopping = true)
    (hexited : ∀ i, s.workers i = .exited → s'.workers i = .exited) (hcleared : s.cleared = true → s'.cleared = true)
    (hstopped : s'.stopped = s.stopped) {stopper : Stopper n} (h : s.Stage stopper) : s'.Stage stopper := by
  cases stopper with
  | away => trivial
  | notifying => exact hstopping h
  | requesting k => exact ⟨hstopping h.1, fun i hi => hexited i (h.2 i hi)⟩
  | joining i => exact ⟨hstopping h.1, fun j hj => hexited j (h.2 j hj)⟩
  | draining => exact ⟨hstopping h.1, hcleared h.2⟩
  | running task => exact ⟨hstopping h.1, hcleared h.2.1, hstopped.trans h.2.2⟩

theorem Stage.stopping {stopper : Stopper n} (h : s.Stage stopper) (hs : stopper ≠ .away) : s.stopping = true := by
  cases stopper with
  | away => exact absurd rfl hs
  | notifying => exact h
  | requesting k => exact h.1
  | joining i => exact h.1
  | draining => exact h.1
  | running task => exact h.1

theorem notified_exited {w : Worker} : w.notified = .exited ↔ w = .exited := by
  cases w <;> simp [Worker.notified]

theorem notified_ne_asleep (w : Worker) : w.notified ≠ .asleep := by
  cases w <;> simp [Worker.notified]

theorem Staged.set (h : s.Staged) (hi : s.workers i ≠ .exited)
    (hexit : worker = .exited → s.stopping = true ∧ s.tasks = []) (hsleep : worker = .asleep → s.stopping = false) :
    (s.set i worker).Staged := by
  have hother {j : Fin n} (hj : j ≠ i) : (s.set i worker).workers j = s.workers j := Function.update_of_ne hj _ _
  have hself : (s.set i worker).workers i = worker := Function.update_self _ _ _
  have hexited (j : Fin n) (hj : s.workers j = .exited) : (s.set i worker).workers j = .exited := by
    rw [hother, hj]
    rintro rfl
    exact hi hj
  have hstage : (s.set i worker).Stage s.stopper := by
    apply h.stage.keep _ hexited
    · exact id
    · rfl
    · exact id
  refine ⟨hstage, fun j hj => ?_, fun hst hs j hj => ?_, fun hc => ?_, h.ended⟩
  · by_cases hji : j = i
    · subst hji
      exact hexit (hself.symm.trans hj)
    · exact h.exits j ((hother hji).symm.trans hj)
  · by_cases hji : j = i
    · subst hji
      exact Bool.false_ne_true ((hsleep (hself.symm.trans hj)).symm.trans hst)
    · exact h.awake hst hs j ((hother hji).symm.trans hj)
  · exact absurd (h.cleared hc i) hi

theorem Staged.take (h : s.Staged) {task : ℕ} {tasks : List ℕ} (ht : s.tasks = task :: tasks) (dequeued : List ℕ) :
    { s with tasks, dequeued }.Staged := by
  have hnot : s.tasks ≠ [] := by simp [ht]
  refine ⟨h.stage.keep id (fun _ => id) id rfl, fun i hi => ?_, h.awake, h.cleared, fun hend => ?_⟩
  · exact absurd (h.exits i hi).2 hnot
  · exact absurd (h.ended hend).2.2 hnot

theorem Staged.notifyAll (h : s.Staged) {stopper : Stopper n} (hs : s.notifyAll.Stage stopper) :
    { s.notifyAll with stopper }.Staged := by
  refine ⟨hs.keep id (fun _ => id) id rfl, fun i hi => ?_, fun _ _ i => notified_ne_asleep _, fun hc i => ?_, h.ended⟩
  · exact h.exits i (notified_exited.mp hi)
  · exact notified_exited.mpr (h.cleared hc i)

theorem Staged.move (h : s.Staged) {stopper : Stopper n} (hs : s.Stage stopper) (hn : s.stopper ≠ .notifying) :
    { s with stopper }.Staged :=
  ⟨hs.keep id (fun _ => id) id rfl, h.exits, fun hst _ => h.awake hst hn, h.cleared, h.ended⟩

theorem Staged.next (h : s.Staged) (he : Effect s event s') : s'.Staged := by
  have hstage := h.stage
  cases he with
  | refuse hst => exact ⟨hstage.keep id (fun _ => id) id rfl, h.exits, h.awake, h.cleared, h.ended⟩
  | accept hst =>
    have hnot : s.stopping ≠ true := by simp [hst]
    refine ⟨hstage.keep id (fun _ => id) id rfl, fun i hi => ?_, h.awake, h.cleared, fun hend => ?_⟩
    · exact absurd (h.exits i hi).1 hnot
    · exact absurd (h.ended hend).1 hnot
  | @notify i notices hn hi =>
    have hset : (s.set i .looking).Staged := h.set (by simp [hi]) (by simp) (by simp)
    exact ⟨hset.stage.keep id (fun _ => id) id rfl, hset.exits, hset.awake, hset.cleared, hset.ended⟩
  | unheard hn => exact ⟨hstage.keep id (fun _ => id) id rfl, h.exits, h.awake, h.cleared, h.ended⟩
  | wake hi => exact h.set (by simp [hi]) (by simp) (by simp)
  | exit hi ht hst => exact h.set (by simp [hi]) (fun _ => ⟨hst, ht⟩) (by simp)
  | again hst => exact h
  | sleep hi hst => exact h.set (by simp [hi]) (by simp) fun _ => hst
  | @pop i task tasks hi ht =>
    have hset : (s.set i (.running task)).Staged := h.set (by simp [hi]) (by simp) (by simp)
    exact hset.take ht _
  | @finish i task hi =>
    have hset : (s.set i .looking).Staged := h.set (by simp [hi]) (by simp) (by simp)
    exact ⟨hset.stage.keep id (fun _ => id) id rfl, hset.exits, hset.awake, hset.cleared, hset.ended⟩
  | stop hs =>
    refine ⟨rfl, fun i hi => ⟨rfl, (h.exits i hi).2⟩, fun _ hne => absurd rfl hne, h.cleared, fun hend => ?_⟩
    exact ⟨rfl, (h.ended hend).2⟩
  | notifyAll hs =>
    rw [hs] at hstage
    exact h.notifyAll ⟨hstage, fun i hi => absurd hi (Nat.not_lt_zero _)⟩
  | @request k hs hk hc =>
    rw [hs] at hstage
    have hmove : { s.notifyAll with stopper := .joining ⟨k, hk⟩ }.Staged :=
      h.notifyAll ⟨hstage.1, fun i hi => notified_exited.mpr (hstage.2 i hi)⟩
    exact ⟨hmove.stage.keep id (fun _ => id) id rfl, hmove.exits, hmove.awake, hmove.cleared, hmove.ended⟩
  | @clear k hs hk =>
    rw [hs] at hstage
    have hexited (i : Fin n) : s.workers i = .exited := by
      by_cases hi : i.val < k
      · exact hstage.2 i hi
      · exact h.cleared (hk (lt_of_le_of_lt (Nat.le_of_not_lt hi) i.isLt)) i
    have hmove : { s with stopper := .requesting k }.Staged := h.move hstage (by simp [hs])
    refine ⟨⟨hstage.1, rfl⟩, h.exits, fun hst _ => hmove.awake hst (by simp), fun _ => hexited, fun hend => ?_⟩
    exact ⟨hstage.1, rfl, (h.ended hend).2.2⟩
  | @join i hs hi =>
    rw [hs] at hstage
    refine h.move ⟨hstage.1, fun j hj => ?_⟩ (by simp [hs])
    rcases Nat.lt_succ_iff_lt_or_eq.mp hj with hlt | heq
    · exact hstage.2 j hlt
    · rw [Fin.ext heq, hi]
  | leave hs ht =>
    rw [hs] at hstage
    have hmove : { s with stopper := .away }.Staged := h.move trivial (by simp [hs])
    exact ⟨trivial, h.exits, hmove.awake, h.cleared, fun _ => ⟨hstage.1, hstage.2, ht⟩⟩
  | @drain task tasks hs ht =>
    rw [hs] at hstage
    have hzero : s.stopped = 0 := by
      by_contra hne
      have hend := h.ended (Nat.pos_of_ne_zero hne)
      rw [ht] at hend
      cases hend.2.2
    have hmove : { s with stopper := .running task }.Staged := h.move ⟨hstage.1, hstage.2, hzero⟩ (by simp [hs])
    exact hmove.take ht _
  | @drained task hs =>
    rw [hs] at hstage
    have hmove : { s with stopper := .draining }.Staged := h.move ⟨hstage.1, hstage.2.1⟩ (by simp [hs])
    exact ⟨hmove.stage.keep id (fun _ => id) id rfl, h.exits, hmove.awake, h.cleared, h.ended⟩

theorem create_counted (n : ℕ) : (create n).Counted := by
  refine ⟨rfl, fun task => ?_⟩
  simp [create, inHand, Worker.tally, Stopper.tally]

theorem create_staged (n : ℕ) : (create n).Staged := by
  refine ⟨trivial, fun i hi => ?_, fun hst => ?_, fun hc => ?_, fun hend => ?_⟩
  · cases hi
  · cases hst
  · cases hc
  · exact absurd hend (Nat.lt_irrefl 0)

theorem Counted.run {events : List (Event n)} (hs : s.Counted) (h : s.run events = some s') : s'.Counted :=
  Runs.run_invariant (fun hinv hnext => hinv.next (next_effect hnext)) hs h

theorem Staged.run {events : List (Event n)} (hs : s.Staged) (h : s.run events = some s') : s'.Staged :=
  Runs.run_invariant (fun hinv hnext => hinv.next (next_effect hnext)) hs h

theorem Counted.dequeued_count_le (h : s.Counted) (task : ℕ) : s.dequeued.count task ≤ 1 := by
  have hnodup := accepted_nodup s.answers
  rw [h.order] at hnodup
  exact List.nodup_iff_count_le_one.mp (List.nodup_append.mp hnodup).1 task

theorem Counted.not_mem (h : s.Counted) {task : ℕ} (htask : s.answers[task]? ≠ some true) :
    task ∉ s.dequeued ∧ task ∉ s.executed := by
  have hdequeued : task ∉ s.dequeued := by
    intro hmem
    apply htask
    rw [← mem_accepted, h.order]
    exact List.mem_append_left _ hmem
  refine ⟨hdequeued, ?_⟩
  have hcount := h.count task
  rw [List.count_eq_zero_of_not_mem hdequeued] at hcount
  apply List.count_eq_zero.mp
  omega

theorem Staged.inHand_ended (h : s.Staged) (hstopped : 0 < s.stopped) (task : ℕ) : s.inHand task = 0 := by
  have hend := h.ended hstopped
  have hworkers : ∑ i, (s.workers i).tally task = 0 := by
    apply Finset.sum_eq_zero
    intro i _
    rw [h.cleared hend.2.1 i]
    rfl
  have hstopper : s.stopper.tally task = 0 := by
    apply if_neg
    intro hrunning
    have hstage := h.stage
    rw [hrunning] at hstage
    exact Nat.lt_irrefl 0 (hstage.2.2 ▸ hstopped)
  rw [inHand, hworkers, hstopper]

end State

def Worker.weight : Worker → ℕ
  | .looking => 1
  | .asleep => 2
  | .running _ => 2
  | .exited => 0

def Stopper.weight {n : ℕ} : Stopper n → ℕ
  | .away => 0
  | .notifying => 2 * n + 3
  | .requesting k => 2 * (n - k) + 2
  | .joining i => 2 * (n - i) + 1
  | .draining => 1
  | .running _ => 2

def Event.due {n : ℕ} : Event n → Bool
  | .submit | .stop | .wake _ => false
  | _ => true

theorem Worker.notified_weight (worker : Worker) : worker.notified.weight ≤ worker.weight := by
  cases worker with
  | asleep => exact Nat.le_succ 1
  | looking => exact le_rfl
  | running task => exact le_rfl
  | exited => exact le_rfl

namespace State

variable {n : ℕ} {s s' : State n} {event : Event n}

def weights (s : State n) : ℕ := ∑ i, (s.workers i).weight

def work (s : State n) : ℕ := 3 * s.tasks.length + s.notices + s.weights + s.stopper.weight

theorem weights_set {i : Fin n} {before : Worker} (hi : s.workers i = before) (worker : Worker) :
    (s.set i worker).weights + before.weight = s.weights + worker.weight := by
  rw [← hi]
  exact sum_update Worker.weight s.workers i worker

theorem weights_notifyAll (s : State n) : s.notifyAll.weights ≤ s.weights :=
  Finset.sum_le_sum fun i _ => (s.workers i).notified_weight

theorem Effect.work (he : Effect s event s') (hst : s.stopping = true) (hstop : event ≠ .stop) :
    s'.work + (if event = .submit then 0 else 1) ≤ s.work := by
  have hrunning : s.stopping ≠ false := by simp [hst]
  cases he with
  | refuse => exact le_rfl
  | accept hst' => exact absurd hst' hrunning
  | again hst' => exact absurd hst' hrunning
  | sleep hi hst' => exact absurd hst' hrunning
  | stop hs => exact absurd rfl hstop
  | @notify i notices hn hi =>
    have hset : (s.set i .looking).weights + 2 = s.weights + 1 := weights_set hi _
    change 3 * s.tasks.length + notices + (s.set i .looking).weights + s.stopper.weight + 1 ≤ s.work
    rw [State.work, hn]
    omega
  | @unheard notices hn =>
    change 3 * s.tasks.length + notices + s.weights + s.stopper.weight + 1 ≤ s.work
    rw [State.work, hn]
    omega
  | @wake i hi =>
    have hset : (s.set i .looking).weights + 2 = s.weights + 1 := weights_set hi _
    change 3 * s.tasks.length + s.notices + (s.set i .looking).weights + s.stopper.weight + 1 ≤ s.work
    rw [State.work]
    omega
  | @exit i hi ht hst =>
    have hset : (s.set i .exited).weights + 1 = s.weights + 0 := weights_set hi _
    change 3 * s.tasks.length + s.notices + (s.set i .exited).weights + s.stopper.weight + 1 ≤ s.work
    rw [State.work]
    omega
  | @pop i task tasks hi ht =>
    have hset : (s.set i (.running task)).weights + 1 = s.weights + 2 := weights_set hi _
    change 3 * tasks.length + s.notices + (s.set i (.running task)).weights + s.stopper.weight + 1 ≤ s.work
    rw [State.work, ht, List.length_cons]
    omega
  | @finish i task hi =>
    have hset : (s.set i .looking).weights + 2 = s.weights + 1 := weights_set hi _
    change 3 * s.tasks.length + s.notices + (s.set i .looking).weights + s.stopper.weight + 1 ≤ s.work
    rw [State.work]
    omega
  | notifyAll hs =>
    have hset := weights_notifyAll s
    change 3 * s.tasks.length + s.notices + s.notifyAll.weights + (2 * (n - 0) + 2) + 1 ≤ s.work
    rw [State.work, hs, Stopper.weight]
    omega
  | @request k hs hk hc =>
    have hset := weights_notifyAll s
    change 3 * s.tasks.length + s.notices + s.notifyAll.weights + (2 * (n - k) + 1) + 1 ≤ s.work
    rw [State.work, hs, Stopper.weight]
    omega
  | @clear k hs hk =>
    change 3 * s.tasks.length + s.notices + s.weights + 1 + 1 ≤ s.work
    rw [State.work, hs, Stopper.weight]
    omega
  | @join i hs hi =>
    change 3 * s.tasks.length + s.notices + s.weights + (2 * (n - (i.val + 1)) + 2) + 1 ≤ s.work
    rw [State.work, hs, Stopper.weight]
    omega
  | leave hs ht =>
    change 3 * s.tasks.length + s.notices + s.weights + 0 + 1 ≤ s.work
    rw [State.work, hs, Stopper.weight]
  | @drain task tasks hs ht =>
    change 3 * tasks.length + s.notices + s.weights + 2 + 1 ≤ s.work
    rw [State.work, hs, ht, List.length_cons, Stopper.weight]
    omega
  | drained hs =>
    change 3 * s.tasks.length + s.notices + s.weights + 1 + 1 ≤ s.work
    rw [State.work, hs, Stopper.weight]

theorem Effect.stopping (he : Effect s event s') (hst : s.stopping = true) : s'.stopping = true := by
  cases he <;> first | rfl | exact hst

theorem Effect.answers (he : Effect s event s') :
    ∃ answers, s'.answers = s.answers ++ answers ∧ (s.stopping = true → ∀ answer ∈ answers, answer = false) := by
  cases he with
  | refuse => exact ⟨[false], rfl, fun _ _ hmem => List.mem_singleton.mp hmem⟩
  | accept hst =>
    refine ⟨[true], rfl, fun hst' => ?_⟩
    rw [hst] at hst'
    cases hst'
  | _ => exact ⟨[], (List.append_nil _).symm, fun _ _ hmem => absurd hmem List.not_mem_nil⟩

theorem Staged.progress (h : s.Staged) (hs : s.stopper ≠ .away) :
    ∃ event : Event n, event.due = true ∧ (s.next event).isSome = true := by
  have hstage := h.stage
  cases hstopper : s.stopper with
  | away => exact absurd hstopper hs
  | notifying => exact ⟨.proceed, rfl, by simp [State.next, hstopper]⟩
  | requesting k =>
    refine ⟨.proceed, rfl, ?_⟩
    simp only [State.next, hstopper]
    split <;> rfl
  | joining i =>
    rw [hstopper] at hstage
    cases hi : s.workers i with
    | looking =>
      refine ⟨.look i, rfl, ?_⟩
      simp only [State.next, if_pos hi, hstage.1, if_true]
      split <;> rfl
    | asleep => exact absurd hi (h.awake hstage.1 (by simp [hstopper]) i)
    | running task => exact ⟨.finish i, rfl, by simp [State.next, hi]⟩
    | exited => exact ⟨.proceed, rfl, by simp [State.next, hstopper, hi]⟩
  | draining =>
    refine ⟨.proceed, rfl, ?_⟩
    simp only [State.next, hstopper]
    split <;> rfl
  | running task => exact ⟨.proceed, rfl, by simp [State.next, hstopper]⟩

theorem run_answers {events : List (Event n)} (h : s.run events = some s') :
    ∃ answers, s'.answers = s.answers ++ answers ∧ (s.stopping = true → ∀ answer ∈ answers, answer = false) := by
  induction events generalizing s with
  | nil =>
    obtain rfl := Option.some.inj h
    exact ⟨[], (List.append_nil _).symm, fun _ _ hmem => absurd hmem List.not_mem_nil⟩
  | cons event events ih =>
    obtain ⟨t, ht, h⟩ := Runs.run_cons h
    have he := next_effect ht
    obtain ⟨first, hfirst, hnew⟩ := he.answers
    obtain ⟨rest, hrest, hlater⟩ := ih h
    refine ⟨first ++ rest, by rw [hrest, hfirst, List.append_assoc], fun hst answer hmem => ?_⟩
    rcases List.mem_append.mp hmem with hmem | hmem
    · exact hnew hst answer hmem
    · exact hlater (he.stopping hst) answer hmem

theorem run_work {events : List (Event n)} (hst : s.stopping = true) (hstop : .stop ∉ events)
    (h : s.run events = some s') : (events.filter (· ≠ .submit)).length + s'.work ≤ s.work := by
  induction events generalizing s with
  | nil =>
    obtain rfl := Option.some.inj h
    exact (Nat.zero_add _).le
  | cons event events ih =>
    obtain ⟨t, ht, h⟩ := Runs.run_cons h
    have he := next_effect ht
    have hne : event ≠ .stop := fun heq => hstop (heq ▸ List.mem_cons_self)
    have hwork := he.work hst hne
    have hrest := ih (he.stopping hst) (fun hmem => hstop (List.mem_cons_of_mem _ hmem)) h
    by_cases hsubmit : event = .submit
    · rw [if_pos hsubmit] at hwork
      rw [List.filter_cons_of_neg (by simp [hsubmit])]
      omega
    · rw [if_neg hsubmit] at hwork
      rw [List.filter_cons_of_pos (by simp [hsubmit]), List.length_cons]
      omega

/-- Of every run of a pool of `n` workers, none included. What `submit` accepts is executed at most
once, and exactly once by the time a `stop` has returned; what it refuses is never executed; the
queue is left in the order of the calls; with `stopping_` set, everything is refused. And a `stop` does
return: until it has, a thread it waits for can move, and they move no more than `work` times. -/
theorem accepted_once {events : List (Event n)} (h : (create n).run events = some s) :
    (∀ task, s.answers[task]? = some true →
      s.executed.count task ≤ 1 ∧
        (0 < s.stopped → s.dequeued.count task = 1 ∧ s.executed.count task = 1)) ∧
    s.dequeued <+: accepted s.answers ∧
    (∀ more s', s.run more = some s' →
      (∀ task, s.answers[task]? = some false → task ∉ s'.dequeued ∧ task ∉ s'.executed) ∧
      (s.stopping = true →
        (∃ calls, s'.answers = s.answers ++ List.replicate calls false) ∧
        (.stop ∉ more → (more.filter (· ≠ .submit)).length ≤ s.work))) ∧
    (s.stopper ≠ .away →
      s.stopping = true ∧ ∃ event : Event n, event.due = true ∧ (s.next event).isSome = true) := by
  have hcounted : s.Counted := (create_counted n).run h
  have hstaged : s.Staged := (create_staged n).run h
  refine ⟨fun task htask => ⟨?_, fun hstopped => ?_⟩, ⟨_, hcounted.order.symm⟩, fun more s' hmore => ?_, fun hs => ?_⟩
  · have hexecuted := hcounted.count task
    have honce := hcounted.dequeued_count_le task
    omega
  · have hexecuted := hcounted.count task
    rw [hstaged.inHand_ended hstopped] at hexecuted
    have hall := hcounted.order
    rw [(hstaged.ended hstopped).2.2, List.append_nil] at hall
    have honce : s.dequeued.count task = 1 := by
      rw [← hall]
      exact List.count_eq_one_of_mem (accepted_nodup _) (mem_accepted.mpr htask)
    omega
  · obtain ⟨answers, hanswers, hfalse⟩ := run_answers hmore
    refine ⟨fun task htask => ?_, fun hst => ⟨⟨answers.length, ?_⟩, fun hstop => ?_⟩⟩
    · apply (hcounted.run hmore).not_mem
      rw [hanswers, List.getElem?_append_left (List.getElem?_eq_some_iff.mp htask).1, htask]
      simp
    · rw [hanswers, List.eq_replicate_of_mem (hfalse hst)]
      simp
    · exact le_trans (Nat.le_add_right _ _) (run_work hst hstop hmore)
  · exact ⟨hstaged.stage.stopping hs, hstaged.progress hs⟩

def lateSubmit : List (Event 1) :=
  [.submit, .look 0, .submit, .stop, .submit, .finish 0, .look 0, .proceed, .finish 0, .proceed, .look 0, .proceed,
    .proceed, .proceed]

theorem lateSubmit_once : ∃ s, (create 1).run lateSubmit = some s ∧
    s.executed.count 0 = 1 ∧ s.executed.count 1 = 1 ∧ 2 ∉ s.executed := by
  have hrun : ((create 1).run lateSubmit).map (fun s => (s.stopped, s.answers)) = some (1, [true, true, false]) := by
    decide +kernel
  obtain ⟨s, h, hs⟩ := Option.map_eq_some_iff.mp hrun
  obtain ⟨hstopped, hanswers⟩ := Prod.mk.inj hs
  obtain ⟨hexecuted, -, hlater, -⟩ := accepted_once h
  have hpos : 0 < s.stopped := by simp [hstopped]
  refine ⟨s, h, ?_, ?_, ?_⟩
  · exact ((hexecuted 0 (by simp [hanswers])).2 hpos).2
  · exact ((hexecuted 1 (by simp [hanswers])).2 hpos).2
  · exact ((hlater [] s rfl).1 2 (by simp [hanswers])).2

end State

end BankManagement.ThreadPool
