import BankManagement.Domain
import BankManagement.Runs
import BankManagement.Wakeups

/-!
The queue by itself: callers of `enqueue`, `try_pop` and `close`, and threads that call `wait_pop`,
each with a token of its own. A step is one critical section of `mutex_` or one call to `cv_`.
-/

namespace BankManagement.TransactionQueue

open Wakeups

inductive Waiter
  | away
  | looking
  | asleep
  deriving DecidableEq

/-- A `notice` is a `notify_one`, and a `broadcast` a `notify_all`, that is still to come. The code does
not keep the last three: what `enqueue` accepted, what left the queue and to which thread's `wait_pop`,
if to any, and what the calls of `wait_pop` returned. -/
structure State (ι : Type) where
  queue : List Transaction
  closed : Bool
  notices : ℕ
  broadcasts : ℕ
  stopped : ι → Bool
  waiters : ι → Waiter
  accepted : List Transaction
  popped : List (Option ι × Transaction)
  returned : ι → List (Option Transaction)

inductive Event (ι : Type)
  | enqueue (txn : Transaction)
  | notify (i : Option ι)
  | close
  | broadcast
  | requestStop (i : ι)
  | waitPop (i : ι)
  | look (i : ι)
  | wake (i : ι)
  | tryPop
  deriving DecidableEq

def Waiter.notified : Waiter → Waiter
  | .asleep => .looking
  | waiter => waiter

namespace State

variable {ι : Type} [Fintype ι] [DecidableEq ι]

def create (stopped : ι → Bool) : State ι where
  queue := []
  closed := false
  notices := 0
  broadcasts := 0
  stopped := stopped
  waiters := fun _ => .away
  accepted := []
  popped := []
  returned := fun _ => []

def set (s : State ι) (i : ι) (waiter : Waiter) : State ι :=
  { s with waiters := Function.update s.waiters i waiter }

def notifyAll (s : State ι) : State ι := { s with waiters := fun i => (s.waiters i).notified }

def leave (s : State ι) (i : ι) (result : Option Transaction) : State ι :=
  { s.set i .away with returned := Function.update s.returned i (s.returned i ++ [result]) }

/-- The token's callback notifies all when its thread waits. A `wake` is spurious. -/
def next (s : State ι) : Event ι → Option (State ι)
  | .enqueue txn =>
    if s.closed then some s
    else some { s with queue := s.queue ++ [txn], notices := s.notices + 1, accepted := s.accepted ++ [txn] }
  | .notify i => match s.notices, i with
    | 0, _ => none
    | notices + 1, some i => if s.waiters i = .asleep then some { s.set i .looking with notices } else none
    | notices + 1, none => if ∀ i, s.waiters i ≠ .asleep then some { s with notices } else none
  | .close => some { s with closed := true, broadcasts := s.broadcasts + 1 }
  | .broadcast => match s.broadcasts with
    | 0 => none
    | broadcasts + 1 => some { s.notifyAll with broadcasts }
  | .requestStop i =>
    let s' := if s.waiters i = .asleep then s.notifyAll else s
    some { s' with stopped := Function.update s.stopped i true }
  | .waitPop i => if s.waiters i = .away then some (s.set i .looking) else none
  | .look i =>
    if s.waiters i = .looking then
      match s.queue with
      | [] => if s.closed || s.stopped i then some (s.leave i none) else some (s.set i .asleep)
      | txn :: queue => some { s.leave i (some txn) with queue, popped := s.popped ++ [(some i, txn)] }
    else none
  | .wake i => if s.waiters i = .asleep then some (s.set i .looking) else none
  | .tryPop => match s.queue with
    | [] => some s
    | txn :: queue => some { s with queue, popped := s.popped ++ [(none, txn)] }

def run (s : State ι) (events : List (Event ι)) : Option (State ι) := Runs.run next s events

inductive Effect (s : State ι) : Event ι → State ι → Prop
  | refuse {txn} (hc : s.closed = true) : Effect s (.enqueue txn) s
  | accept {txn} (hc : s.closed = false) : Effect s (.enqueue txn)
    { s with queue := s.queue ++ [txn], notices := s.notices + 1, accepted := s.accepted ++ [txn] }
  | notify {i notices} (hn : s.notices = notices + 1) (hi : s.waiters i = .asleep) :
    Effect s (.notify (some i)) { s.set i .looking with notices }
  | unheard {notices} (hn : s.notices = notices + 1) (hall : ∀ i, s.waiters i ≠ .asleep) :
    Effect s (.notify none) { s with notices }
  | close : Effect s .close { s with closed := true, broadcasts := s.broadcasts + 1 }
  | broadcast {broadcasts} (hb : s.broadcasts = broadcasts + 1) : Effect s .broadcast { s.notifyAll with broadcasts }
  | rouse {i} (hi : s.waiters i = .asleep) :
    Effect s (.requestStop i) { s.notifyAll with stopped := Function.update s.stopped i true }
  | request {i} (hi : s.waiters i ≠ .asleep) :
    Effect s (.requestStop i) { s with stopped := Function.update s.stopped i true }
  | enter {i} (hi : s.waiters i = .away) : Effect s (.waitPop i) (s.set i .looking)
  | empty {i} (hi : s.waiters i = .looking) (hq : s.queue = []) (hc : s.closed = true ∨ s.stopped i = true) :
    Effect s (.look i) (s.leave i none)
  | sleep {i} (hi : s.waiters i = .looking) (hq : s.queue = []) (hc : s.closed = false) (hs : s.stopped i = false) :
    Effect s (.look i) (s.set i .asleep)
  | pop {i txn queue} (hi : s.waiters i = .looking) (hq : s.queue = txn :: queue) :
    Effect s (.look i) { s.leave i (some txn) with queue, popped := s.popped ++ [(some i, txn)] }
  | wake {i} (hi : s.waiters i = .asleep) : Effect s (.wake i) (s.set i .looking)
  | nothing (hq : s.queue = []) : Effect s .tryPop s
  | take {txn queue} (hq : s.queue = txn :: queue) : Effect s .tryPop
    { s with queue, popped := s.popped ++ [(none, txn)] }

variable {s s' : State ι} {event : Event ι}

theorem next_effect (h : s.next event = some s') : Effect s event s' := by
  cases event with
  | enqueue txn =>
    simp only [next] at h
    split_ifs at h with hc
    · obtain rfl := Option.some.inj h
      exact .refuse hc
    · obtain rfl := Option.some.inj h
      exact .accept (by simpa using hc)
  | notify i =>
    simp only [next] at h
    split at h
    · cases h
    · split_ifs at h with hi
      obtain rfl := Option.some.inj h
      exact .notify ‹_› hi
    · split_ifs at h with hall
      obtain rfl := Option.some.inj h
      exact .unheard ‹_› hall
  | close =>
    obtain rfl := Option.some.inj h
    exact .close
  | broadcast =>
    simp only [next] at h
    split at h
    · cases h
    · obtain rfl := Option.some.inj h
      exact .broadcast ‹_›
  | requestStop i =>
    obtain rfl := Option.some.inj h
    split_ifs with hi
    · exact .rouse hi
    · exact .request hi
  | waitPop i =>
    simp only [next] at h
    split_ifs at h with hi
    obtain rfl := Option.some.inj h
    exact .enter hi
  | look i =>
    by_cases hi : s.waiters i = .looking
    · simp only [next, if_pos hi] at h
      split at h
      · split_ifs at h with hc
        · obtain rfl := Option.some.inj h
          exact .empty hi ‹_› (by simpa using hc)
        · obtain rfl := Option.some.inj h
          rw [Bool.not_eq_true, Bool.or_eq_false_iff] at hc
          exact .sleep hi ‹_› hc.1 hc.2
      · obtain rfl := Option.some.inj h
        exact .pop hi ‹_›
    · simp only [next, if_neg hi] at h
      cases h
  | wake i =>
    simp only [next] at h
    split_ifs at h with hi
    obtain rfl := Option.some.inj h
    exact .wake hi
  | tryPop =>
    simp only [next] at h
    split at h
    · obtain rfl := Option.some.inj h
      exact .nothing ‹_›
    · obtain rfl := Option.some.inj h
      exact .take ‹_›

def received (i : ι) (popped : List (Option ι × Transaction)) : List Transaction :=
  popped.filterMap fun p => if p.1 = some i then some p.2 else none

omit [Fintype ι] in
theorem received_append (i : ι) (popped : List (Option ι × Transaction)) (p : Option ι × Transaction) :
    received i (popped ++ [p]) = received i popped ++ if p.1 = some i then [p.2] else [] := by
  rw [received, List.filterMap_append]
  by_cases hp : p.1 = some i <;> simp [received, hp]

structure Fifo (s : State ι) : Prop where
  order : s.accepted = s.popped.map Prod.snd ++ s.queue
  received : ∀ i, (s.returned i).filterMap id = received i s.popped
  drained : ∀ i, none ∈ s.returned i → s.stopped i = false → s.closed = true ∧ s.queue = []

omit [Fintype ι] in
theorem leave_returned (s : State ι) (i j : ι) (result : Option Transaction) :
    (s.leave i result).returned j = s.returned j ++ if j = i then [result] else [] := by
  by_cases hj : j = i
  · subst hj
    simp [leave]
  · simp [leave, hj]

omit [Fintype ι] in
theorem Fifo.next (h : s.Fifo) (he : Effect s event s') : s'.Fifo := by
  cases he with
  | refuse hc => exact h
  | accept hc =>
    refine ⟨?_, h.received, fun i hnone hs => ?_⟩
    · change s.accepted ++ _ = s.popped.map Prod.snd ++ (s.queue ++ _)
      rw [h.order, List.append_assoc]
    · have hclosed := (h.drained i hnone hs).1
      rw [hc] at hclosed
      cases hclosed
  | notify hn hi => exact ⟨h.order, h.received, h.drained⟩
  | unheard hn hall => exact ⟨h.order, h.received, h.drained⟩
  | close => exact ⟨h.order, h.received, fun i hnone hs => ⟨rfl, (h.drained i hnone hs).2⟩⟩
  | broadcast hb => exact ⟨h.order, h.received, h.drained⟩
  | @rouse i hi =>
    refine ⟨h.order, h.received, fun j hnone hs => h.drained j hnone ?_⟩
    by_cases hj : j = i
    · subst hj
      simp at hs
    · simpa [hj] using hs
  | @request i hi =>
    refine ⟨h.order, h.received, fun j hnone hs => h.drained j hnone ?_⟩
    by_cases hj : j = i
    · subst hj
      simp at hs
    · simpa [hj] using hs
  | enter hi => exact ⟨h.order, h.received, h.drained⟩
  | @empty i hi hq hc =>
    refine ⟨h.order, fun j => ?_, fun j hnone hs => ?_⟩
    · rw [leave_returned, List.filterMap_append, h.received]
      by_cases hj : j = i <;> simp [hj, leave, set]
    · by_cases hj : j = i
      · subst hj
        rcases hc with hc | hstop
        · exact ⟨hc, hq⟩
        · exact absurd (hstop.symm.trans hs) Bool.true_eq_false.mp
      · rw [leave_returned, if_neg hj, List.append_nil] at hnone
        exact h.drained j hnone hs
  | sleep hi hq hc hs => exact ⟨h.order, h.received, h.drained⟩
  | @pop i txn queue hi hq =>
    refine ⟨?_, fun j => ?_, fun j hnone hs => ?_⟩
    · change s.accepted = (s.popped ++ _).map Prod.snd ++ queue
      rw [h.order, hq, List.map_append, List.append_assoc]
      rfl
    · change ((s.leave i (some txn)).returned j).filterMap id = _
      rw [leave_returned, List.filterMap_append, h.received, received_append]
      by_cases hj : j = i
      · subst hj
        simp
      · simp [hj, Ne.symm hj]
    · change none ∈ (s.leave i (some txn)).returned j at hnone
      rw [leave_returned] at hnone
      have hold : none ∈ s.returned j := by
        rcases List.mem_append.mp hnone with hnone | hnone
        · exact hnone
        · split_ifs at hnone <;> simp at hnone
      have hempty := (h.drained j hold hs).2
      rw [hq] at hempty
      cases hempty
  | wake hi => exact ⟨h.order, h.received, h.drained⟩
  | nothing hq => exact h
  | @take txn queue hq =>
    refine ⟨?_, fun j => ?_, fun j hnone hs => ?_⟩
    · change s.accepted = (s.popped ++ _).map Prod.snd ++ queue
      rw [h.order, hq, List.map_append, List.append_assoc]
      rfl
    · change (s.returned j).filterMap id = _
      rw [h.received, received_append]
      simp
    · have hempty := (h.drained j hnone hs).2
      rw [hq] at hempty
      cases hempty

omit [Fintype ι] in
theorem create_fifo (stopped : ι → Bool) : (create stopped).Fifo :=
  ⟨rfl, fun _ => rfl, fun _ hnone => by cases hnone⟩

theorem Fifo.run {events : List (Event ι)} (hs : s.Fifo) (h : s.run events = some s') : s'.Fifo :=
  Runs.run_invariant (fun hinv hnext => hinv.next (next_effect hnext)) hs h

/-- What is accepted leaves the queue once and in the order it came, each thread is given its share in
that order, and a thread whose token is not stopped is told that nothing is left only when the queue is
closed and all that was accepted has left it. -/
theorem accepted_leaves_once {stopped : ι → Bool} {events : List (Event ι)}
    (h : (create stopped).run events = some s) :
    s.accepted = s.popped.map Prod.snd ++ s.queue ∧
      (∀ i, (s.returned i).filterMap id = received i s.popped) ∧
        ∀ i, none ∈ s.returned i → s.stopped i = false → s.closed = true ∧ s.accepted = s.popped.map Prod.snd := by
  have hfifo := (create_fifo stopped).run h
  refine ⟨hfifo.order, hfifo.received, fun i hnone hs => ?_⟩
  obtain ⟨hclosed, hempty⟩ := hfifo.drained i hnone hs
  refine ⟨hclosed, ?_⟩
  have horder := hfifo.order
  rwa [hempty, List.append_nil] at horder

def closeAndDrain : List (Event Unit) :=
  [.enqueue (.deposit 1 5), .waitPop (), .look (), .waitPop (), .look (), .enqueue (.withdraw 1 2), .notify (some ()),
    .close, .look (), .broadcast, .waitPop (), .look ()]

theorem closeAndDrain_once : ∃ s, (create fun _ => false).run closeAndDrain = some s ∧
    s.accepted = s.popped.map Prod.snd := by
  have hrun : ((create fun _ : Unit => false).run closeAndDrain).map (fun s => (s.returned (), s.stopped ())) =
      some ([some (.deposit 1 5), some (.withdraw 1 2), none], false) := by decide +kernel
  obtain ⟨s, h, hs⟩ := Option.map_eq_some_iff.mp hrun
  obtain ⟨hreturned, hstopped⟩ := Prod.mk.inj hs
  exact ⟨s, h, ((accepted_leaves_once h).2.2 () (by simp [hreturned]) hstopped).2⟩

end State

def Waiter.phase : Waiter → Phase
  | .away => .away
  | .looking => .looking
  | .asleep => .asleep

def Event.due {ι : Type} : Event ι → Bool
  | .notify _ | .broadcast | .look _ => true
  | _ => false

def Event.spurious {ι : Type} : Event ι → Bool
  | .wake _ => true
  | _ => false

namespace State

variable {ι : Type} [Fintype ι] [DecidableEq ι] {s s' : State ι} {event : Event ι}

def phases (s : State ι) : ι → Phase := Waiter.phase ∘ s.waiters

omit [Fintype ι] in
theorem phases_set (s : State ι) (i : ι) (waiter : Waiter) :
    (s.set i waiter).phases = Function.update s.phases i waiter.phase := Function.comp_update _ _ _ _

omit [Fintype ι] [DecidableEq ι] in
theorem phases_asleep (s : State ι) (i : ι) : s.phases i = .asleep ↔ s.waiters i = .asleep := by
  change (s.waiters i).phase = .asleep ↔ _
  cases s.waiters i <;> simp [Waiter.phase]

omit [Fintype ι] [DecidableEq ι] in
theorem phases_looking (s : State ι) (i : ι) : s.phases i = .looking ↔ s.waiters i = .looking := by
  change (s.waiters i).phase = .looking ↔ _
  cases s.waiters i <;> simp [Waiter.phase]

omit [Fintype ι] [DecidableEq ι] in
theorem notifyAll_awake (s : State ι) (i : ι) : s.notifyAll.waiters i ≠ .asleep := by
  change (s.waiters i).notified ≠ .asleep
  cases s.waiters i <;> simp [Waiter.notified]

structure Attended (s : State ι) : Prop where
  covered : Covered s.queue.length s.notices s.phases
  closed : s.closed = true → s.broadcasts = 0 → ∀ i, s.waiters i ≠ .asleep
  stopped : ∀ i, s.stopped i = true → s.waiters i ≠ .asleep

omit [DecidableEq ι] in
theorem create_attended (stopped : ι → Bool) : (create stopped).Attended :=
  ⟨.nothing, fun _ _ _ hi => (by cases hi), fun _ _ hi => (by cases hi)⟩

omit [Fintype ι] in
theorem asleep_set {i j : ι} {waiter : Waiter} (hw : waiter ≠ .asleep) (h : (s.set i waiter).waiters j = .asleep) :
    s.waiters j = .asleep := by
  by_cases hj : j = i
  · subst hj
    exact absurd ((Function.update_self _ _ _).symm.trans h) hw
  · exact (Function.update_of_ne hj _ _).symm.trans h

theorem Attended.next (h : s.Attended) (he : Effect s event s') : s'.Attended := by
  obtain ⟨hcovered, hclosed, hstopped⟩ := h
  have hwoken {i : ι} {waiter : Waiter} (hw : waiter ≠ .asleep) :
      (s.closed = true → s.broadcasts = 0 → ∀ j, (s.set i waiter).waiters j ≠ .asleep) ∧
        ∀ j, s.stopped j = true → (s.set i waiter).waiters j ≠ .asleep :=
    ⟨fun hc hb j hj => hclosed hc hb j (asleep_set hw hj), fun j hs hj => hstopped j hs (asleep_set hw hj)⟩
  cases he with
  | refuse hc => exact ⟨hcovered, hclosed, hstopped⟩
  | accept hc =>
    refine ⟨?_, hclosed, hstopped⟩
    rw [List.length_append]
    exact hcovered.posted
  | @notify i notices hn hi =>
    refine ⟨?_, (hwoken (by simp)).1, (hwoken (by simp)).2⟩
    rw [hn] at hcovered
    change Covered s.queue.length notices (s.set i .looking).phases
    rw [phases_set]
    exact hcovered.heard ((phases_asleep s i).mpr hi)
  | unheard hn hall =>
    refine ⟨?_, hclosed, hstopped⟩
    apply Covered.awake
    intro i hi
    exact hall i ((phases_asleep s i).mp hi)
  | close => exact ⟨hcovered, fun _ hb => absurd hb (Nat.succ_ne_zero _), hstopped⟩
  | broadcast hb =>
    refine ⟨?_, fun _ _ => s.notifyAll_awake, fun i _ => s.notifyAll_awake i⟩
    apply Covered.awake
    intro i hi
    exact s.notifyAll_awake i ((phases_asleep _ i).mp hi)
  | rouse hi =>
    refine ⟨?_, fun _ _ => s.notifyAll_awake, fun i _ => s.notifyAll_awake i⟩
    apply Covered.awake
    intro i hi
    exact s.notifyAll_awake i ((phases_asleep _ i).mp hi)
  | @request i hi =>
    refine ⟨hcovered, hclosed, fun j hs => ?_⟩
    by_cases hj : j = i
    · subst hj
      exact hi
    · exact hstopped j (by simpa [hj] using hs)
  | @enter i hi =>
    refine ⟨?_, (hwoken (by simp)).1, (hwoken (by simp)).2⟩
    change Covered s.queue.length s.notices (s.set i .looking).phases
    rw [phases_set]
    exact hcovered.looking
  | @empty i hi hq hc =>
    refine ⟨?_, (hwoken (by simp)).1, (hwoken (by simp)).2⟩
    change Covered s.queue.length s.notices _
    rw [hq]
    exact .nothing
  | @sleep i hi hq hc hs =>
    refine ⟨?_, fun hc' => ?_, fun j hs' hj => ?_⟩
    · change Covered s.queue.length s.notices _
      rw [hq]
      exact .nothing
    · have hfalse := hc.symm.trans hc'
      cases hfalse
    · by_cases hji : j = i
      · subst hji
        have hfalse := hs.symm.trans hs'
        cases hfalse
      · exact hstopped j hs' ((Function.update_of_ne hji _ _).symm.trans hj)
  | @pop i txn queue hi hq =>
    refine ⟨?_, (hwoken (by simp)).1, (hwoken (by simp)).2⟩
    rw [hq] at hcovered
    change Covered queue.length s.notices (s.set i .away).phases
    rw [phases_set]
    exact hcovered.taken
  | @wake i hi =>
    refine ⟨?_, (hwoken (by simp)).1, (hwoken (by simp)).2⟩
    change Covered s.queue.length s.notices (s.set i .looking).phases
    rw [phases_set]
    exact hcovered.looking
  | nothing hq => exact ⟨hcovered, hclosed, hstopped⟩
  | take hq =>
    rw [hq] at hcovered
    exact ⟨hcovered.stolen, hclosed, hstopped⟩

theorem Attended.run {events : List (Event ι)} (hs : s.Attended) (h : s.run events = some s') : s'.Attended :=
  Runs.run_invariant (fun hinv hnext => hinv.next (next_effect hnext)) hs h

def effort (s : State ι) : ℕ := (Fintype.card ι + 1) * s.broadcasts + 2 * s.notices + lookers s.phases

theorem lookers_set {i : ι} {before : Waiter} (hi : s.waiters i = before) (waiter : Waiter) :
    lookers (s.set i waiter).phases + before.phase.looks = lookers s.phases + waiter.phase.looks := by
  rw [phases_set, ← hi]
  exact lookers_update s.phases i waiter.phase

theorem Effect.effort (he : Effect s event s') (hown : event.due = true ∨ event.spurious = true) :
    s'.effort + 1 ≤ s.effort + 2 * event.spurious.toNat := by
  cases he with
  | @notify i notices hn hi =>
    have hset : lookers (s.set i .looking).phases + 0 = lookers s.phases + 1 := lookers_set hi _
    change (Fintype.card ι + 1) * s.broadcasts + 2 * notices + lookers (s.set i .looking).phases + 1 ≤ s.effort
    rw [State.effort, hn]
    omega
  | @unheard notices hn hall =>
    change (Fintype.card ι + 1) * s.broadcasts + 2 * notices + lookers s.phases + 1 ≤ s.effort
    rw [State.effort, hn]
    omega
  | @broadcast broadcasts hb =>
    have hall := lookers_le_card s.notifyAll.phases
    change (Fintype.card ι + 1) * broadcasts + 2 * s.notices + lookers s.notifyAll.phases + 1 ≤ s.effort
    rw [State.effort, hb, Nat.mul_succ]
    omega
  | @empty i hi hq hc =>
    have hset : lookers (s.set i .away).phases + 1 = lookers s.phases + 0 := lookers_set hi _
    change (Fintype.card ι + 1) * s.broadcasts + 2 * s.notices + lookers (s.set i .away).phases + 1 ≤ s.effort
    rw [State.effort]
    omega
  | @sleep i hi hq hc hs =>
    have hset : lookers (s.set i .asleep).phases + 1 = lookers s.phases + 0 := lookers_set hi _
    change (Fintype.card ι + 1) * s.broadcasts + 2 * s.notices + lookers (s.set i .asleep).phases + 1 ≤ s.effort
    rw [State.effort]
    omega
  | @pop i txn queue hi hq =>
    have hset : lookers (s.set i .away).phases + 1 = lookers s.phases + 0 := lookers_set hi _
    change (Fintype.card ι + 1) * s.broadcasts + 2 * s.notices + lookers (s.set i .away).phases + 1 ≤ s.effort
    rw [State.effort]
    omega
  | @wake i hi =>
    have hset : lookers (s.set i .looking).phases + 0 = lookers s.phases + 1 := lookers_set hi _
    change (Fintype.card ι + 1) * s.broadcasts + 2 * s.notices + lookers (s.set i .looking).phases + 1 ≤ s.effort + 2
    rw [State.effort]
    omega
  | refuse hc => simp [Event.due, Event.spurious] at hown
  | accept hc => simp [Event.due, Event.spurious] at hown
  | close => simp [Event.due, Event.spurious] at hown
  | rouse hi => simp [Event.due, Event.spurious] at hown
  | request hi => simp [Event.due, Event.spurious] at hown
  | enter hi => simp [Event.due, Event.spurious] at hown
  | nothing hq => simp [Event.due, Event.spurious] at hown
  | take hq => simp [Event.due, Event.spurious] at hown

theorem effort_run {events : List (Event ι)} (hown : ∀ event ∈ events, event.due = true ∨ event.spurious = true)
    (h : s.run events = some s') : events.length + s'.effort ≤ s.effort + 2 * events.countP Event.spurious :=
  Runs.run_spent (fun _ _ _ => trivial) (fun _ hown hnext => (next_effect hnext).effort hown) trivial (.of_forall hown) h

theorem quiet_looking (hq : ∀ event : Event ι, event.due = true → s.next event = none) (i : ι) :
    s.waiters i ≠ .looking := by
  intro hi
  have hlook := hq (.look i) rfl
  simp only [State.next, if_pos hi] at hlook
  split at hlook
  · split_ifs at hlook
  · cases hlook

theorem quiet_notices (hq : ∀ event : Event ι, event.due = true → s.next event = none) {i : ι}
    (hi : s.waiters i = .asleep) : s.notices = 0 := by
  cases hn : s.notices with
  | zero => rfl
  | succ notices =>
    have hnotify := hq (.notify (some i)) rfl
    simp only [State.next, hn, if_pos hi] at hnotify
    cases hnotify

theorem quiet_broadcasts (hq : ∀ event : Event ι, event.due = true → s.next event = none) : s.broadcasts = 0 := by
  cases hb : s.broadcasts with
  | zero => rfl
  | succ broadcasts =>
    have hbroadcast := hq .broadcast rfl
    simp only [State.next, hb] at hbroadcast
    cases hbroadcast

/-- No wakeup is lost. If no call begins any more, only so many steps are left; and when none is left, a
thread that is still in `wait_pop` sleeps because the queue is empty and open, and its token not
stopped. -/
theorem waits_for_cause {stopped : ι → Bool} {events more : List (Event ι)}
    (h : (create stopped).run events = some s) (hmore : s.run more = some s')
    (hown : ∀ event ∈ more, event.due = true ∨ event.spurious = true) :
    more.length ≤ s.effort + 2 * more.countP Event.spurious ∧
      ((∀ event : Event ι, event.due = true → s'.next event = none) → ∀ i, s'.waiters i ≠ .away →
        s'.waiters i = .asleep ∧ s'.queue = [] ∧ s'.closed = false ∧ s'.stopped i = false) := by
  refine ⟨?_, fun hq i hi => ?_⟩
  · have heffort := effort_run hown hmore
    omega
  have hattended : s'.Attended := ((create_attended stopped).run h).run hmore
  have hasleep : s'.waiters i = .asleep := by
    cases hw : s'.waiters i with
    | asleep => rfl
    | looking => exact absurd hw (quiet_looking hq i)
    | away => exact absurd hw hi
  refine ⟨hasleep, ?_, ?_, ?_⟩
  · have hcovered := hattended.covered
    rw [quiet_notices hq hasleep] at hcovered
    apply List.length_eq_zero_iff.mp
    apply hcovered.settled
    · intro j hj
      exact quiet_looking hq j ((phases_looking s' j).mp hj)
    · exact (phases_asleep s' i).mpr hasleep
  · by_contra hclosed
    exact hattended.closed (by simpa using hclosed) (quiet_broadcasts hq) i hasleep
  · by_contra hstopped
    exact hattended.stopped i (by simpa using hstopped) hasleep

def oneForTwo : List (Event Bool) :=
  [.waitPop false, .look false, .waitPop true, .look true, .enqueue (.deposit 1 5)]

theorem oneForTwo_waits : ∃ s s', (create fun _ => false).run oneForTwo = some s ∧
    s.run [.notify (some true), .look true] = some s' ∧ s'.waiters false = .asleep ∧ s'.queue = [] := by
  have hrun : ((create fun _ : Bool => false).run oneForTwo).bind (fun s =>
      (s.run [.notify (some true), .look true]).map fun s' =>
        (s'.notices, s'.broadcasts, s'.waiters false, s'.waiters true)) = some (0, 0, .asleep, .away) := by
    decide +kernel
  obtain ⟨s, h, hs⟩ := Option.bind_eq_some_iff.mp hrun
  obtain ⟨s', h', hs'⟩ := Option.map_eq_some_iff.mp hs
  obtain ⟨hnotices, hs'⟩ := Prod.mk.inj hs'
  obtain ⟨hbroadcasts, hs'⟩ := Prod.mk.inj hs'
  obtain ⟨hfalse, htrue⟩ := Prod.mk.inj hs'
  have hquiet (event : Event Bool) (hdue : event.due = true) : s'.next event = none := by
    cases event with
    | notify i => simp [State.next, hnotices]
    | broadcast => simp [State.next, hbroadcasts]
    | look i => cases i <;> simp [State.next, hfalse, htrue]
    | _ => cases hdue
  obtain ⟨hasleep, hqueue, -⟩ := (waits_for_cause h h' (by decide)).2 hquiet false (by simp [hfalse])
  exact ⟨s, s', h, h', hasleep, hqueue⟩

end State

end BankManagement.TransactionQueue
