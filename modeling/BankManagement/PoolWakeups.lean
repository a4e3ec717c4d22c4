import BankManagement.ThreadPool
import BankManagement.Wakeups

namespace BankManagement.ThreadPool

open Wakeups

def Worker.phase : Worker → Phase
  | .looking => .looking
  | .asleep => .asleep
  | .running _ => .away
  | .exited => .away

def Worker.effort : Worker → ℕ
  | .looking => 1
  | .asleep => 0
  | .running _ => 2
  | .exited => 0

namespace State

variable {n : ℕ} {s s' : State n} {event : Event n}

def phases (s : State n) : Fin n → Phase := Worker.phase ∘ s.workers

def Attended (s : State n) : Prop := Covered s.tasks.length s.notices s.phases

theorem phases_set (s : State n) (i : Fin n) (worker : Worker) :
    (s.set i worker).phases = Function.update s.phases i worker.phase := Function.comp_update _ _ _ _

theorem notifyAll_awake (s : State n) (i : Fin n) : s.notifyAll.phases i ≠ .asleep := by
  change (s.workers i).notified.phase ≠ .asleep
  cases s.workers i <;> simp [Worker.notified, Worker.phase]

theorem unheard_awake (h : s.next (.notify none) = some s') (i : Fin n) : s.workers i ≠ .asleep := by
  simp only [State.next] at h
  split at h
  · cases h
  · contradiction
  · split_ifs at h with hnone
    exact hnone i

theorem look_empty {i : Fin n} (hi : s.workers i = .looking) (h : s.next (.look i) = some (s.set i .asleep)) :
    s.tasks = [] := by
  cases ht : s.tasks with
  | nil => rfl
  | cons task tasks =>
    simp only [State.next, if_pos hi, ht] at h
    have hworkers := congrArg State.tasks (Option.some.inj h)
    exact absurd (hworkers.trans ht) (List.cons_ne_self task tasks).symm

theorem Attended.next (h : s.Attended) (hnext : s.next event = some s') : s'.Attended := by
  unfold Attended at h
  cases next_effect hnext with
  | refuse => exact h
  | accept =>
    unfold Attended
    rw [List.length_append]
    exact h.posted
  | @notify i notices hn hi =>
    rw [hn] at h
    change Covered s.tasks.length notices (s.set i .looking).phases
    rw [phases_set]
    apply h.heard
    simp [phases, hi, Worker.phase]
  | @unheard notices hn =>
    apply Covered.awake
    intro i hi
    apply unheard_awake hnext i
    cases hw : s.workers i <;> simp_all [phases, Worker.phase]
  | @wake i hi =>
    change Covered s.tasks.length s.notices (s.set i .looking).phases
    rw [phases_set]
    exact h.looking
  | @exit i hi ht hst =>
    change Covered s.tasks.length s.notices _
    rw [ht]
    exact .nothing
  | again => exact h
  | @sleep i hi hst =>
    change Covered s.tasks.length s.notices _
    rw [look_empty hi hnext]
    exact .nothing
  | @pop i task tasks hi ht =>
    rw [ht] at h
    change Covered tasks.length s.notices (s.set i (.running task)).phases
    rw [phases_set]
    exact h.taken
  | @finish i task hi =>
    change Covered s.tasks.length s.notices (s.set i .looking).phases
    rw [phases_set]
    exact h.looking
  | stop => exact h
  | notifyAll => exact .awake s.notifyAll_awake
  | request => exact .awake s.notifyAll_awake
  | clear => exact h
  | join => exact h
  | leave => exact h
  | @drain task tasks hs ht =>
    rw [ht] at h
    exact h.stolen
  | drained => exact h

theorem create_attended (n : ℕ) : (create n).Attended := .nothing

theorem Attended.run {events : List (Event n)} (hs : s.Attended) (h : s.run events = some s') : s'.Attended :=
  Runs.run_invariant (fun hinv hnext => hinv.next hnext) hs h

structure Unstopped (s : State n) : Prop where
  stopping : s.stopping = false
  stopper : s.stopper = .away
  requested : ∀ i, s.requested i = false

theorem create_unstopped (n : ℕ) : (create n).Unstopped := ⟨rfl, rfl, fun _ => rfl⟩

theorem Unstopped.next (h : s.Unstopped) (hstop : event ≠ .stop) (hnext : s.next event = some s') : s'.Unstopped := by
  have haway {stopper : Stopper n} (hs : s.stopper = stopper) : stopper = .away := hs.symm.trans h.stopper
  cases next_effect hnext with
  | refuse hst => exact ⟨h.stopping, h.stopper, h.requested⟩
  | accept hst => exact ⟨h.stopping, h.stopper, h.requested⟩
  | notify hn hi => exact ⟨h.stopping, h.stopper, h.requested⟩
  | unheard hn => exact ⟨h.stopping, h.stopper, h.requested⟩
  | wake hi => exact ⟨h.stopping, h.stopper, h.requested⟩
  | exit hi ht hst => exact ⟨h.stopping, h.stopper, h.requested⟩
  | again hst => exact h
  | sleep hi hst => exact ⟨h.stopping, h.stopper, h.requested⟩
  | pop hi ht => exact ⟨h.stopping, h.stopper, h.requested⟩
  | finish hi => exact ⟨h.stopping, h.stopper, h.requested⟩
  | stop hs => exact absurd rfl hstop
  | notifyAll hs => cases haway hs
  | request hs hk hc => cases haway hs
  | clear hs hk => cases haway hs
  | join hs hi => cases haway hs
  | leave hs ht => cases haway hs
  | drain hs ht => cases haway hs
  | drained hs => cases haway hs

def efforts (s : State n) : ℕ := ∑ i, (s.workers i).effort

def effort (s : State n) : ℕ := 2 * s.tasks.length + 2 * s.notices + s.efforts

theorem efforts_set {i : Fin n} {before : Worker} (hi : s.workers i = before) (worker : Worker) :
    (s.set i worker).efforts + before.effort = s.efforts + worker.effort := by
  rw [← hi]
  exact sum_update Worker.effort s.workers i worker

end State

def Event.spurious {n : ℕ} : Event n → Bool
  | .wake _ => true
  | _ => false

namespace State

variable {n : ℕ} {s s' : State n} {event : Event n}

theorem Unstopped.look (h : s.Unstopped) {i : Fin n} (hnext : s.next (.look i) = some s') :
    s'.effort + 1 ≤ s.effort := by
  by_cases hi : s.workers i = .looking
  · simp only [State.next, if_pos hi, h.stopping, h.requested i] at hnext
    cases ht : s.tasks with
    | nil =>
      rw [ht] at hnext
      obtain rfl := Option.some.inj hnext
      have hset : (s.set i .asleep).efforts + 1 = s.efforts + 0 := efforts_set hi _
      change 2 * s.tasks.length + 2 * s.notices + (s.set i .asleep).efforts + 1 ≤ s.effort
      rw [effort]
      omega
    | cons task tasks =>
      rw [ht] at hnext
      obtain rfl := Option.some.inj hnext
      have hset : (s.set i (.running task)).efforts + 1 = s.efforts + 2 := efforts_set hi _
      change 2 * tasks.length + 2 * s.notices + (s.set i (.running task)).efforts + 1 ≤ s.effort
      rw [effort, ht, List.length_cons]
      omega
  · simp only [State.next, if_neg hi] at hnext
    cases hnext

theorem Unstopped.effort_next (h : s.Unstopped) (hsubmit : event ≠ .submit) (hstop : event ≠ .stop)
    (hnext : s.next event = some s') : s'.effort + 1 ≤ s.effort + 2 * event.spurious.toNat := by
  cases event with
  | submit => exact absurd rfl hsubmit
  | stop => exact absurd rfl hstop
  | look i => exact h.look hnext
  | proceed =>
    simp only [State.next, h.stopper] at hnext
    cases hnext
  | notify i =>
    cases next_effect hnext with
    | @notify i notices hn hi =>
      have hset : (s.set i .looking).efforts + 0 = s.efforts + 1 := efforts_set hi _
      change 2 * s.tasks.length + 2 * notices + (s.set i .looking).efforts + 1 ≤ s.effort
      rw [effort, hn]
      omega
    | @unheard notices hn =>
      change 2 * s.tasks.length + 2 * notices + s.efforts + 1 ≤ s.effort
      rw [effort, hn]
      omega
  | wake i =>
    cases next_effect hnext with
    | wake hi =>
      have hset : (s.set i .looking).efforts + 0 = s.efforts + 1 := efforts_set hi _
      change 2 * s.tasks.length + 2 * s.notices + (s.set i .looking).efforts + 1 ≤ s.effort + 2
      rw [effort]
      omega
  | finish i =>
    cases next_effect hnext with
    | @finish i task hi =>
      have hset : (s.set i .looking).efforts + 2 = s.efforts + 1 := efforts_set hi _
      change 2 * s.tasks.length + 2 * s.notices + (s.set i .looking).efforts + 1 ≤ s.effort
      rw [effort]
      omega

theorem Unstopped.run {events : List (Event n)} (hs : s.Unstopped) (hstop : .stop ∉ events)
    (h : s.run events = some s') : s'.Unstopped := by
  have hall : ∀ event ∈ events, event ≠ Event.stop := by
    rintro event hmem rfl
    exact hstop hmem
  exact Runs.run_preserves (P := fun _ event => event ≠ .stop) (fun hinv hne hnext => hinv.next hne hnext) hs
    (.of_forall hall) h

theorem Unstopped.effort_run {events : List (Event n)} (hs : s.Unstopped) (hsubmit : .submit ∉ events)
    (hstop : .stop ∉ events) (h : s.run events = some s') :
    events.length + s'.effort ≤ s.effort + 2 * events.countP Event.spurious := by
  have hall : ∀ event ∈ events, event ≠ .submit ∧ event ≠ .stop := by
    intro event hmem
    constructor
    · rintro rfl
      exact hsubmit hmem
    · rintro rfl
      exact hstop hmem
  apply Runs.run_spent _ _ hs (.of_forall hall) h
  · exact fun hinv hne hnext => hinv.next hne.2 hnext
  · exact fun hinv hne hnext => hinv.effort_next hne.1 hne.2 hnext

theorem Unstopped.quiet (h : s.Unstopped) (hs : s.Staged) (hq : ∀ event : Event n, event.due = true → s.next event = none)
    (i : Fin n) : s.workers i = .asleep := by
  cases hi : s.workers i with
  | asleep => rfl
  | looking =>
    have hlook := hq (.look i) rfl
    simp only [State.next, if_pos hi, h.stopping, h.requested i] at hlook
    cases ht : s.tasks with
    | nil =>
      rw [ht] at hlook
      cases hlook
    | cons task tasks =>
      rw [ht] at hlook
      cases hlook
  | running task =>
    have hfinish := hq (.finish i) rfl
    simp only [State.next, hi] at hfinish
    cases hfinish
  | exited =>
    have hstopping := (hs.exits i hi).1
    rw [h.stopping] at hstopping
    cases hstopping

theorem quiet_notices {i : Fin n} (hi : s.workers i = .asleep)
    (hq : ∀ event : Event n, event.due = true → s.next event = none) : s.notices = 0 := by
  cases hn : s.notices with
  | zero => rfl
  | succ notices =>
    have hnotify := hq (.notify (some i)) rfl
    simp only [State.next, hn, if_pos hi] at hnotify
    cases hnotify

/-- Without a `stop` a pool that has a worker needs only so many steps to get its queue done: when none
of them is left, every task it accepted has been executed. -/
theorem accepted_done {events more : List (Event n)} (hn : 0 < n) (h : (create n).run events = some s)
    (hstop : .stop ∉ events) (hmore : s.run more = some s') (hsubmit : .submit ∉ more) (hstop' : .stop ∉ more) :
    more.length ≤ s.effort + 2 * more.countP Event.spurious ∧
      ((∀ event : Event n, event.due = true → s'.next event = none) →
        s'.tasks = [] ∧ ∀ task, s'.answers[task]? = some true → s'.executed.count task = 1) := by
  have hunstopped := (create_unstopped n).run hstop h
  refine ⟨?_, fun hq => ?_⟩
  · have heffort := hunstopped.effort_run hsubmit hstop' hmore
    omega
  have hasleep := (hunstopped.run hstop' hmore).quiet (((create_staged n).run h).run hmore) hq
  have htasks : s'.tasks = [] := by
    have hattended : Covered s'.tasks.length s'.notices s'.phases := ((create_attended n).run h).run hmore
    rw [quiet_notices (hasleep ⟨0, hn⟩) hq] at hattended
    apply List.length_eq_zero_iff.mp
    apply hattended.settled (i := ⟨0, hn⟩)
    · intro i
      simp [phases, hasleep i, Worker.phase]
    · simp [phases, hasleep, Worker.phase]
  refine ⟨htasks, fun task htask => ?_⟩
  have hcounted : s'.Counted := ((create_counted n).run h).run hmore
  have hinHand : s'.inHand task = 0 := by
    have hstopper : s'.stopper.tally task = 0 := by
      rw [(hunstopped.run hstop' hmore).stopper]
      rfl
    rw [inHand, hstopper, Nat.add_zero]
    apply Finset.sum_eq_zero
    intro i _
    rw [hasleep i]
    rfl
  have hcount := hcounted.count task
  have hall := hcounted.order
  rw [htasks, List.append_nil] at hall
  rw [hinHand, ← hall, List.count_eq_one_of_mem (accepted_nodup _) (mem_accepted.mpr htask)] at hcount
  omega

def busyWorker : List (Event 1) :=
  let worker := Fin.last 0
  [.look worker, .submit, .notify (some worker), .look worker, .submit, .notify none]

def workOff : List (Event 1) :=
  let worker := Fin.last 0
  [.finish worker, .look worker, .finish worker, .look worker]

theorem busyWorker_done : ∃ s s', (create 1).run busyWorker = some s ∧ s.run workOff = some s' ∧
    s'.executed.count 0 = 1 ∧ s'.executed.count 1 = 1 := by
  have hrun : ((create 1).run busyWorker).bind (fun s => (s.run workOff).map fun s' =>
      (s'.notices, s'.workers 0, s'.stopper, s'.answers)) = some (0, .asleep, .away, [true, true]) := by
    decide +kernel
  obtain ⟨s, h, hs⟩ := Option.bind_eq_some_iff.mp hrun
  obtain ⟨s', h', hs'⟩ := Option.map_eq_some_iff.mp hs
  obtain ⟨hnotices, hs'⟩ := Prod.mk.inj hs'
  obtain ⟨hworker, hs'⟩ := Prod.mk.inj hs'
  obtain ⟨hstopper, hanswers⟩ := Prod.mk.inj hs'
  have hworkers (i : Fin 1) : s'.workers i = .asleep := by
    rw [Subsingleton.elim i 0, hworker]
  have hquiet (event : Event 1) (hdue : event.due = true) : s'.next event = none := by
    cases event with
    | submit => cases hdue
    | stop => cases hdue
    | wake i => cases hdue
    | notify i => simp [State.next, hnotices]
    | look i => simp [State.next, hworkers i]
    | finish i => simp [State.next, hworkers i]
    | proceed => simp [State.next, hstopper]
  have hdone := ((accepted_done Nat.one_pos h (by decide) h' (by decide) (by decide)).2 hquiet).2
  exact ⟨s, s', h, h', hdone 0 (by simp [hanswers]), hdone 1 (by simp [hanswers])⟩

end State

end BankManagement.ThreadPool
