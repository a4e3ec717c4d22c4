import BankManagement.Lifecycle
import BankManagement.Wakeups

namespace BankManagement

def Submission.ticket : Submission → Ticket
  | .fetched ticket _ => ticket
  | .reserved ticket => ticket

def Place.tally (ticket : Ticket) (place : Place) : ℕ := if place.ticket? = some ticket then 1 else 0

theorem Consumer.rest_ticket {n : ℕ} (c : Consumer n) : c.rest.ticket? = none := by
  cases c <;> rfl

def Place.Busy (place : Place) : Prop := place ≠ .exited ∧ place ≠ .waiting

namespace Lifecycle

variable {n : ℕ} {s s' : Lifecycle n} {c : Consumer n} {t : Ticket}

def tickets (s : Lifecycle n) : List Ticket := s.accepted ++ (s.processor.submitting.map Submission.ticket).toList

structure Counted (s : Lifecycle n) : Prop where
  numbers : (s.tickets.map (·.number)).Nodup
  below : ∀ t ∈ s.tickets, t.number < s.processor.handed.length
  kept : ∀ t, s.processor.queue.count t + (s.holders t).card + s.executed.count t = s.accepted.count t

def Stage (s : Lifecycle n) : Holder → Prop
  | .starting _ => s.started = true ∧ s.pool.stopping = false
  | .requested => s.started = true ∧ s.stopRequested = true
  | .joining k => s.started = true ∧ s.stopRequested = true ∧ ∀ i : Fin n, i.val < k → s.place (some i) = .exited
  | .draining => s.started = true ∧ s.stopRequested = true ∧ ∀ i : Fin n, s.place (some i) = .exited

def Live (s : Lifecycle n) : Prop :=
  s.stopRequested = true ∧ s.processor.queue = [] ∨ (∃ left, s.holder = some (.starting (left + 1))) ∨
    0 < s.pool.tasks ∨ ∃ c, (s.place c).Busy

structure Staged (s : Lifecycle n) : Prop where
  mutex : s.holder ≠ none → s.processor.submitting = none
  stage : ∀ holder, s.holder = some holder → s.Stage holder
  refusing : s.stopRequested = true ∨ s.halted = true →
    s.processor.accepting = false ∧ s.processor.submitting = none
  caller : s.place none = .exited
  idle : s.started = false → ∀ c, s.place c = .exited
  live : s.started = true → s.Live
  exits : s.started = true → ∀ i : Fin n, s.place (some i) = .exited → s.pool.tasks = 0 ∧ s.pool.stopping = true
  halted : s.halted = true → s.started = false ∧ (s.everStarted = true → s.processor.queue = [])
  ended : s.started = false → s.everStarted = true → s.halted = true

structure Executing (s : Lifecycle n) : Prop where
  once : (s.processor.taking.map (·.1)).Nodup
  popped : ∀ x ∈ s.processor.taking, s.place x.1 = .popped x.2
  running : ∀ c, (s.place c).running = (s.processor.pipeline.callOf c).map (·.txn)

theorem tickets_eq (hacc : s'.accepted = s.accepted) (hsub : s'.processor.submitting = s.processor.submitting) :
    s'.tickets = s.tickets := by
  rw [tickets, hacc, hsub, tickets]

theorem holders_eq_empty (h : ∀ c, (s.place c).ticket? = none) (t : Ticket) : s.holders t = ∅ := by
  apply Finset.filter_eq_empty_iff.mpr
  intro c _
  rw [h c]
  exact fun he => by cases he

theorem move_self (s : Lifecycle n) (c : Consumer n) (place : Place) : (s.move c place).place c = place :=
  Function.update_self _ _ _

theorem move_other (s : Lifecycle n) {d : Consumer n} (hd : d ≠ c) (place : Place) :
    (s.move c place).place d = s.place d :=
  Function.update_of_ne hd _ _

theorem card_holders_move (s : Lifecycle n) (c : Consumer n) (place : Place) (t : Ticket) :
    ((s.move c place).holders t).card + (s.place c).tally t = (s.holders t).card + place.tally t := by
  have hcard (u : Lifecycle n) : (u.holders t).card = ∑ d, (u.place d).tally t := Finset.card_filter _ _
  rw [hcard, hcard]
  exact sum_update (Place.tally t) s.place c place

theorem Counted.keep (h : s.Counted) (hacc : s'.accepted = s.accepted)
    (hsub : s'.processor.submitting = s.processor.submitting)
    (hhanded : s.processor.handed.length ≤ s'.processor.handed.length)
    (hkept : ∀ t, s'.processor.queue.count t + (s'.holders t).card + s'.executed.count t =
      s.processor.queue.count t + (s.holders t).card + s.executed.count t) : s'.Counted := by
  have htickets := tickets_eq hacc hsub
  refine ⟨?_, fun t ht => ?_, fun t => ?_⟩
  · rw [htickets]
    exact h.numbers
  · rw [htickets] at ht
    exact lt_of_lt_of_le (h.below t ht) hhanded
  · rw [hkept, h.kept, hacc]

theorem Counted.move (h : s.Counted) {place : Place} (hbefore : (s.place c).ticket? = none)
    (hafter : place.ticket? = none) : (s.move c place).Counted := by
  refine h.keep rfl rfl (le_refl s.processor.handed.length) fun t => ?_
  have hcard := card_holders_move s c place t
  rw [Place.tally, Place.tally, hbefore, hafter] at hcard
  simp only [reduceCtorEq, if_false, Nat.add_zero] at hcard
  rw [hcard]
  rfl

theorem Counted.next (h : s.Counted) (hs : s.Staged) (he : Effect s s') : s'.Counted := by
  cases he with
  | accept txn hh hsub ha hs' =>
    have hbefore : s.tickets = s.accepted := by
      rw [tickets, hsub]
      simp
    subst hs'
    refine ⟨?_, fun t ht => ?_, h.kept⟩
    · change ((s.accepted ++ [_]).map _).Nodup
      rw [List.map_append, ← hbefore]
      refine List.nodup_append.mpr ⟨h.numbers, List.pairwise_singleton _ _, ?_⟩
      rintro _ hx _ hy rfl
      obtain ⟨t, ht, htx⟩ := List.mem_map.mp hx
      have hlt := h.below t ht
      rw [htx, List.mem_singleton.mp hy] at hlt
      exact lt_irrefl _ hlt
    · change t ∈ s.accepted ++ [_] at ht
      change t.number < (s.processor.handed ++ [_]).length
      rw [List.length_append, List.length_singleton]
      rcases List.mem_append.mp ht with ht | ht
      · rw [← hbefore] at ht
        exact Nat.lt_succ_of_lt (h.below t ht)
      · rw [List.mem_singleton.mp ht]
        exact Nat.lt_succ_self _
  | @reserve ticket id hsub hs' =>
    have hsame : s'.tickets = s.tickets := by
      subst hs'
      rw [tickets, tickets, hsub]
      rfl
    subst hs'
    refine ⟨?_, fun t ht => ?_, h.kept⟩
    · rw [hsame]
      exact h.numbers
    · rw [hsame] at ht
      exact h.below t ht
  | @enqueue ticket hsub hs' =>
    have hsame : s'.tickets = s.tickets := by
      subst hs'
      rw [tickets, tickets, hsub]
      exact List.append_nil _
    subst hs'
    refine ⟨?_, fun t ht => ?_, fun t => ?_⟩
    · rw [hsame]
      exact h.numbers
    · rw [hsame] at ht
      exact h.below t ht
    · change (s.processor.queue ++ [ticket]).count t + (s.holders t).card + s.executed.count t =
        (s.accepted ++ [ticket]).count t
      have hkept := h.kept t
      rw [List.count_append, List.count_append]
      omega
  | restart hs' =>
    subst hs'
    exact h
  | start hh hsub hst hs' =>
    subst hs'
    refine h.keep rfl rfl (le_refl s.processor.handed.length) fun t => ?_
    have hbefore : s.holders t = ∅ := by
      apply holders_eq_empty
      intro c
      rw [hs.idle hst c]
      rfl
    rw [hbefore, holders_eq_empty Consumer.rest_ticket]
  | refuse _ _ hs' | launch _ hs' | launched _ hs' | stop _ _ _ hs' | halt _ _ _ hs' | close _ hs'
  | join _ _ _ hs' | joined _ _ hs' | drained _ _ _ hs' =>
    -- no ticket moves
    subst hs'
    exact ⟨h.numbers, h.below, h.kept⟩
  | @fetch c tasks hp hh ht hs' =>
    subst hs'
    have hmove : (s.move c .consuming).Counted := by
      apply h.move _ rfl
      rw [hp, Consumer.rest_ticket]
    exact ⟨hmove.numbers, hmove.below, hmove.kept⟩
  | exit hp ht hst hs' =>
    subst hs'
    apply h.move _ rfl
    rw [hp]
    rfl
  | leave hp hq hst hs' =>
    subst hs'
    apply h.move _ (Consumer.rest_ticket _)
    rw [hp]
    rfl
  | @pop c ticket queue hp hq hidle hs' =>
    subst hs'
    refine h.keep rfl rfl (le_refl s.processor.handed.length) fun t => ?_
    have hcard := card_holders_move s c (.popped ticket) t
    rw [hp] at hcard
    change queue.count t + ((s.move c (.popped ticket)).holders t).card + s.executed.count t = _
    rw [hq, List.count_cons]
    simp only [Place.tally, Place.ticket?, reduceCtorEq, if_false, Option.some.injEq] at hcard
    simp only [beq_iff_eq]
    omega
  | @take c ticket found id processor hp hfound htaking hcall hown hs' =>
    subst hs'
    refine h.keep rfl hown.submitting hown.handed fun t => ?_
    have hcard := card_holders_move s c (.executing ticket) t
    have htally : (Place.popped ticket).tally t = (Place.executing ticket).tally t := rfl
    rw [hp, htally] at hcard
    change processor.queue.count t + ((s.move c (.executing ticket)).holders t).card + s.executed.count t = _
    rw [hown.queue]
    omega
  | act hp htaking hcall hown hs' =>
    subst hs'
    refine h.keep rfl hown.submitting hown.handed fun t => ?_
    change _ + (s.holders t).card + _ = _
    rw [hown.queue]
  | @finish c ticket processor hp htaking hcall hown hs' =>
    subst hs'
    refine h.keep rfl hown.submitting hown.handed fun t => ?_
    have hcard := card_holders_move s c .consuming t
    rw [hp] at hcard
    change processor.queue.count t + ((s.move c .consuming).holders t).card + (s.executed ++ [ticket]).count t = _
    rw [hown.queue, List.count_append, List.count_singleton]
    simp only [Place.tally, Place.ticket?, reduceCtorEq, if_false, Option.some.injEq] at hcard
    simp only [beq_iff_eq]
    omega

theorem Live.keep (h : s.Live) (hstop : s.stopRequested = true → s'.stopRequested = true)
    (hqueue : s'.processor.queue = s.processor.queue) (hholder : ∀ left, s.holder ≠ some (.starting (left + 1)))
    (htasks : s'.pool.tasks = s.pool.tasks) (hplace : s'.place = s.place) : s'.Live := by
  rcases h with ⟨hst, hq⟩ | ⟨left, hh⟩ | ht | hbusy
  · exact .inl ⟨hstop hst, hqueue.trans hq⟩
  · exact absurd hh (hholder left)
  · refine .inr (.inr (.inl ?_))
    rwa [htasks]
  · refine .inr (.inr (.inr ?_))
    rwa [hplace]

theorem Live.queue (h : s.Live) (hholder : ∀ left, s.holder ≠ some (.starting (left + 1))) (htasks : s.pool.tasks = 0)
    (hplace : ∀ c, s.place c = .exited) : s.processor.queue = [] := by
  rcases h with ⟨_, hq⟩ | ⟨left, hh⟩ | ht | ⟨c, hbusy⟩
  · exact hq
  · exact absurd hh (hholder left)
  · rw [htasks] at ht
    exact absurd ht (lt_irrefl 0)
  · exact absurd (hplace c) hbusy.1

structure Consumes (s s' : Lifecycle n) (c : Consumer n) : Prop where
  active : s.place c ≠ .exited
  others : ∀ d, d ≠ c → s'.place d = s.place d
  holder : s'.holder = s.holder
  started : s'.started = s.started
  stopRequested : s'.stopRequested = s.stopRequested
  stopping : s'.pool.stopping = s.pool.stopping
  accepting : s'.processor.accepting = s.processor.accepting
  submitting : s'.processor.submitting = s.processor.submitting
  everStarted : s'.everStarted = s.everStarted
  halted : s'.halted = s.halted

theorem Consumes.exited (hc : Consumes s s' c) {d : Consumer n} (hd : s.place d = .exited) : s'.place d = .exited := by
  rw [hc.others d, hd]
  rintro rfl
  exact hc.active hd

theorem Consumes.stage (hc : Consumes s s' c) {holder : Holder} (h : s.Stage holder) : s'.Stage holder := by
  cases holder with
  | starting left => exact ⟨by rw [hc.started, h.1], by rw [hc.stopping, h.2]⟩
  | requested => exact ⟨by rw [hc.started, h.1], by rw [hc.stopRequested, h.2]⟩
  | joining k => exact ⟨by rw [hc.started, h.1], by rw [hc.stopRequested, h.2.1], fun i hi => hc.exited (h.2.2 i hi)⟩
  | draining => exact ⟨by rw [hc.started, h.1], by rw [hc.stopRequested, h.2.1], fun i => hc.exited (h.2.2 i)⟩

theorem Staged.consume (h : s.Staged) (hc : Consumes s s' c) (hlive : s'.Live)
    (htasks : s.pool.tasks = 0 → s'.pool.tasks = 0)
    (hexits : s'.place c = .exited → s'.pool.tasks = 0 ∧ s.pool.stopping = true) : s'.Staged where
  mutex hh := by
    rw [hc.holder] at hh
    rw [hc.submitting, h.mutex hh]
  stage holder hh := by
    rw [hc.holder] at hh
    exact hc.stage (h.stage holder hh)
  refusing hr := by
    rw [hc.stopRequested, hc.halted] at hr
    rw [hc.accepting, hc.submitting]
    exact h.refusing hr
  caller := hc.exited h.caller
  idle hst d := by
    rw [hc.started] at hst
    exact hc.exited (h.idle hst d)
  live _ := hlive
  exits hst i hi := by
    rw [hc.started] at hst
    rw [hc.stopping]
    by_cases hic : some i = c
    · rw [hic] at hi
      exact hexits hi
    · rw [hc.others _ hic] at hi
      obtain ⟨ht, hstop⟩ := h.exits hst i hi
      exact ⟨htasks ht, hstop⟩
  halted hh := by
    rw [hc.halted] at hh
    exact absurd (h.idle (h.halted hh).1 c) hc.active
  ended hst hever := by
    rw [hc.started] at hst
    exact absurd (h.idle hst c) hc.active

theorem Staged.tasks (h : s.Staged) (hn : 0 < n) (hh : s.holder = some .draining) : s.pool.tasks = 0 := by
  obtain ⟨hst, _, hall⟩ := h.stage _ hh
  exact (h.exits hst ⟨0, hn⟩ (hall _)).1

theorem Staged.submitter (h : s.Staged) (hsub : s.processor.submitting ≠ none) :
    s.holder = none ∧ s.stopRequested ≠ true ∧ s.halted ≠ true :=
  ⟨by_contra fun hh => hsub (h.mutex hh), fun hr => hsub (h.refusing (.inl hr)).2, fun hr => hsub (h.refusing (.inr hr)).2⟩

theorem Staged.busy (h : s.Staged) {place : Place} (hc : Consumes s s' c) (hplace : s'.place c = place)
    (hbusy : place.Busy) (htasks : s.pool.tasks = 0 → s'.pool.tasks = 0) : s'.Staged := by
  refine h.consume hc (.inr (.inr (.inr ⟨c, ?_⟩))) htasks fun he => ?_
  · rwa [hplace]
  · rw [hplace] at he
    exact absurd he hbusy.1

theorem Staged.advance (h : s.Staged) {holder holder' : Holder} (hh : s.holder = some holder)
    (hstarting : ∀ left, holder ≠ .starting (left + 1)) (hstage : s.Stage holder') :
    { s with holder := some holder' }.Staged := by
  refine { h with
    mutex := fun _ => h.mutex (by rw [hh]; exact fun he => by cases he)
    stage := fun other he => ?_
    live := fun hst => (h.live hst).keep id rfl (fun left he => ?_) rfl rfl }
  · obtain rfl := Option.some.inj he
    exact hstage
  · exact absurd (Option.some.inj (hh.symm.trans he)) (hstarting left)

theorem Staged.next (h : s.Staged) (hn : 0 < n) (he : Effect s s') : s'.Staged := by
  cases he with
  | refuse txn ha hs' =>
    subst hs'
    exact { h with }
  | accept txn hh hsub ha hs' =>
    subst hs'
    refine { h with mutex := fun hne => absurd hh hne, refusing := fun hr => ?_ }
    have hfalse := (h.refusing hr).1
    rw [ha] at hfalse
    cases hfalse
  | reserve hsub hs' =>
    obtain ⟨hh, hstop, hhalt⟩ := h.submitter (by rw [hsub]; exact fun he => by cases he)
    subst hs'
    exact { h with
      mutex := fun hne => absurd hh hne
      refusing := fun hr => hr.elim (absurd · hstop) (absurd · hhalt) }
  | enqueue hsub hs' =>
    obtain ⟨hh, hstop, hhalt⟩ := h.submitter (by rw [hsub]; exact fun he => by cases he)
    subst hs'
    refine { h with
      mutex := fun _ => rfl
      refusing := fun hr => hr.elim (absurd · hstop) (absurd · hhalt)
      live := fun hst => ?_
      halted := fun hr => absurd hr hhalt }
    rcases h.live hst with ⟨hr, _⟩ | hlive
    · exact absurd hr hstop
    · exact .inr hlive
  | restart hs' =>
    subst hs'
    exact h
  | start hh hsub hst hs' =>
    subst hs'
    obtain ⟨left, rfl⟩ := Nat.exists_eq_succ_of_ne_zero hn.ne'
    exact {
      mutex := fun _ => hsub
      stage := fun holder he => (by obtain rfl := Option.some.inj he; exact ⟨rfl, rfl⟩)
      refusing := fun hr => (by rcases hr with hr | hr <;> cases hr)
      caller := rfl
      idle := fun he => by cases he
      live := fun _ => .inr (.inl ⟨left, rfl⟩)
      exits := fun _ i hi => by cases hi
      halted := fun he => by cases he
      ended := fun he => by cases he }
  | @launch left hh hs' =>
    obtain ⟨hst, hstop⟩ := h.stage _ hh
    have hpool : s.pool.submit = { s.pool with tasks := s.pool.tasks + 1 } := by simp [ThreadPool.submit, hstop]
    subst hs'
    refine { h with
      mutex := fun _ => h.mutex (by rw [hh]; exact fun he => by cases he)
      stage := fun holder he => ?_
      live := fun _ => .inr (.inr (.inl ?_))
      exits := fun _ i hi => ?_ }
    · obtain rfl := Option.some.inj he
      refine ⟨hst, ?_⟩
      change s.pool.submit.stopping = false
      rw [hpool, hstop]
    · change 0 < s.pool.submit.tasks
      rw [hpool]
      exact Nat.succ_pos _
    · have hexit := (h.exits hst i hi).2
      rw [hstop] at hexit
      cases hexit
  | launched hh hs' =>
    subst hs'
    exact { h with
      mutex := fun hne => absurd rfl hne
      stage := fun holder he => by cases he
      live := fun hst => (h.live hst).keep id rfl (fun left he => by rw [hh] at he; cases he) rfl rfl }
  | stop hh hsub hst hs' =>
    subst hs'
    refine { h with
      mutex := fun _ => hsub
      stage := fun holder he => ?_
      refusing := fun _ => ⟨rfl, hsub⟩
      live := fun _ => (h.live hst).keep (fun _ => rfl) rfl (fun left he => by rw [hh] at he; cases he) rfl rfl }
    obtain rfl := Option.some.inj he
    exact ⟨hst, rfl⟩
  | halt hh hsub hst hs' =>
    subst hs'
    exact { h with
      refusing := fun _ => ⟨rfl, hsub⟩
      halted := fun _ => ⟨hst, fun hever => (h.halted (h.ended hst hever)).2 hever⟩
      ended := fun _ _ => rfl }
  | close hh hs' =>
    obtain ⟨hst, hstop⟩ := h.stage _ hh
    subst hs'
    have hmoved : { s with holder := some (.joining 0) }.Staged :=
      h.advance hh (fun left he => by cases he) ⟨hst, hstop, fun i hi => absurd hi (Nat.not_lt_zero _)⟩
    refine { hmoved with
      stage := fun holder he => ?_
      exits := fun hst i hi => ⟨(h.exits hst i hi).1, rfl⟩ }
    obtain rfl := Option.some.inj he
    exact hmoved.stage _ rfl
  | @join k hk hh hp hs' =>
    obtain ⟨hst, hstop, hjoined⟩ := h.stage _ hh
    subst hs'
    refine h.advance hh (fun left he => by cases he) ⟨hst, hstop, fun i hi => ?_⟩
    rcases Nat.lt_succ_iff_lt_or_eq.mp hi with hi | hi
    · exact hjoined i hi
    · obtain rfl : i = ⟨k, hk⟩ := Fin.ext hi
      exact hp
  | joined hk hh hs' =>
    obtain ⟨hst, hstop, hjoined⟩ := h.stage _ hh
    subst hs'
    exact h.advance hh (fun left he => by cases he) ⟨hst, hstop, fun i => hjoined i (lt_of_lt_of_le i.isLt hk)⟩
  | drained hh hp ht hs' =>
    obtain ⟨hst, hstop, hall⟩ := h.stage _ hh
    have hexited (c : Consumer n) : s.place c = .exited := by
      cases c with
      | none => exact hp
      | some i => exact hall i
    have hqueue := (h.live hst).queue (fun left he => by rw [hh] at he; cases he) ht hexited
    subst hs'
    exact { h with
      mutex := fun hne => absurd rfl hne
      stage := fun holder he => by cases he
      refusing := fun _ => h.refusing (.inl hstop)
      idle := fun _ => hexited
      live := fun he => by cases he
      exits := fun he => by cases he
      halted := fun _ => ⟨rfl, fun _ => hqueue⟩
      ended := fun _ _ => rfl }
  | @fetch c tasks hp hh ht hs' =>
    have hactive : s.place c ≠ .exited := by
      cases c with
      | none =>
        rw [h.tasks hn (hh rfl)] at ht
        cases ht
      | some i =>
        rw [hp]
        exact fun he => by cases he
    subst hs'
    refine h.busy ⟨hactive, fun d hd => move_other s hd _, rfl, rfl, rfl, rfl, rfl, rfl, rfl, rfl⟩
      (move_self s c .consuming) ⟨nofun, nofun⟩ fun h0 => ?_
    rw [ht] at h0
    cases h0
  | @exit i hp ht hst hs' =>
    have hactive : s.place (some i) ≠ .exited := by
      rw [hp]
      exact fun he => by cases he
    have hstarted : s.started = true := by
      by_contra hne
      exact hactive (h.idle (by simpa using hne) _)
    subst hs'
    refine h.consume ⟨hactive, fun d hd => move_other s hd _, rfl, rfl, rfl, rfl, rfl, rfl, rfl, rfl⟩
      ?_ id fun _ => ⟨ht, hst⟩
    rcases h.live hstarted with hq | ⟨left, hh⟩ | hpos | ⟨d, hbusy⟩
    · exact .inl hq
    · have hstop := (h.stage _ hh).2
      rw [hst] at hstop
      cases hstop
    · exact absurd ht hpos.ne'
    · refine .inr (.inr (.inr ⟨d, ?_⟩))
      rw [move_other]
      · exact hbusy
      · rintro rfl
        exact hbusy.2 hp
  | @pop c ticket queue hp hq hidle hs' =>
    subst hs'
    exact h.busy ⟨by rw [hp]; exact nofun, fun d hd => move_other s hd _, rfl, rfl, rfl, rfl, rfl, rfl, rfl, rfl⟩
      (move_self s c (.popped ticket)) ⟨nofun, nofun⟩ id
  | @leave c hp hq hst hs' =>
    subst hs'
    have hactive : s.place c ≠ .exited := by
      rw [hp]
      exact nofun
    refine h.consume ⟨hactive, fun d hd => move_other s hd _, rfl, rfl, rfl, rfl, rfl, rfl, rfl, rfl⟩
      (.inl ⟨hst, hq⟩) id fun he => ?_
    rw [move_self] at he
    cases c with
    | none => exact absurd h.caller hactive
    | some i => cases he
  | @take c ticket found id processor hp hfound htaking hcall hown hs' =>
    subst hs'
    exact h.busy ⟨by rw [hp]; exact nofun, fun d hd => move_other s hd _, rfl, rfl, rfl, rfl, hown.accepting,
      hown.submitting, rfl, rfl⟩ (move_self s c (.executing ticket)) ⟨nofun, nofun⟩ fun h0 => h0
  | @act c ticket processor hp htaking hcall hown hs' =>
    subst hs'
    exact h.busy ⟨by rw [hp]; exact nofun, fun d _ => rfl, rfl, rfl, rfl, rfl, hown.accepting, hown.submitting, rfl, rfl⟩
      hp ⟨nofun, nofun⟩ fun h0 => h0
  | @finish c ticket processor hp htaking hcall hown hs' =>
    subst hs'
    exact h.busy ⟨by rw [hp]; exact nofun, fun d hd => move_other s hd _, rfl, rfl, rfl, rfl, hown.accepting,
      hown.submitting, rfl, rfl⟩ (move_self s c .consuming) ⟨nofun, nofun⟩ fun h0 => h0

theorem Executing.keep (h : s.Executing) (htaking : s'.processor.taking = s.processor.taking)
    (hplace : s'.place = s.place) (hcalls : s'.processor.pipeline = s.processor.pipeline) : s'.Executing := by
  refine ⟨?_, ?_, ?_⟩
  · rw [htaking]
    exact h.once
  · rw [htaking, hplace]
    exact h.popped
  · rw [hplace, hcalls]
    exact h.running

theorem Executing.move (h : s.Executing) {place : Place} (hbefore : (s.place c).running = none)
    (hnot : ∀ ticket, s.place c ≠ .popped ticket) (hafter : place.running = none) : (s.move c place).Executing := by
  refine ⟨h.once, fun x hx => ?_, fun d => ?_⟩
  · have hpopped := h.popped x hx
    rw [move_other, hpopped]
    rintro rfl
    exact hnot _ hpopped
  · by_cases hd : d = c
    · subst hd
      rw [move_self, hafter, ← hbefore]
      exact h.running d
    · rw [move_other s hd]
      exact h.running d

theorem Executing.own (h : s.Executing) {place : Place} {processor : TransactionProcessor (Consumer n)}
    (hplace : s'.place = (s.move c place).place) (hprocessor : s'.processor = processor)
    (hown : s.processor.Own processor c) (honce : (processor.taking.map (·.1)).Nodup)
    (hsub : ∀ x ∈ processor.taking, x ∈ s.processor.taking ∧ x.1 ≠ c)
    (hrunning : place.running = (processor.pipeline.callOf c).map (·.txn)) : s'.Executing := by
  subst hprocessor
  refine ⟨honce, fun x hx => ?_, fun d => ?_⟩
  · obtain ⟨hx, hne⟩ := hsub x hx
    rw [hplace, move_other s hne]
    exact h.popped x hx
  · rw [hplace]
    by_cases hd : d = c
    · subst hd
      rw [move_self, hrunning]
    · rw [move_other s hd, State.callOf_congr (hown.others d hd)]
      exact h.running d

theorem Executing.erased (h : s.Executing) {found : Ticket} (hfound : (c, found) ∈ s.processor.taking) :
    ((s.processor.taking.eraseP (·.1 = c)).map (·.1)).Nodup ∧
      ∀ x ∈ s.processor.taking.eraseP (·.1 = c), x ∈ s.processor.taking ∧ x.1 ≠ c := by
  obtain ⟨first, before, after, _, hfirst, hsplit, herased⟩ :=
    @List.exists_of_eraseP _ (fun x : Consumer n × Ticket => decide (x.1 = c)) _ _ hfound (decide_eq_true rfl)
  have hnodup := h.once
  rw [hsplit, List.map_append, List.map_cons, List.nodup_middle, ← List.map_append] at hnodup
  obtain ⟨hnotMem, hrest⟩ := List.nodup_cons.mp hnodup
  rw [herased]
  refine ⟨hrest, fun x hx => ⟨?_, ?_⟩⟩
  · rw [← herased] at hx
    exact List.mem_of_mem_eraseP hx
  · rintro rfl
    apply hnotMem
    rw [of_decide_eq_true hfirst]
    exact List.mem_map_of_mem hx

theorem Executing.not_taking (h : s.Executing) {ticket : Ticket} (hp : s.place c = .executing ticket) :
    ∀ x ∈ s.processor.taking, x ∈ s.processor.taking ∧ x.1 ≠ c := by
  refine fun x hx => ⟨hx, ?_⟩
  rintro rfl
  have hpopped := h.popped x hx
  rw [hp] at hpopped
  cases hpopped

theorem Executing.next (h : s.Executing) (hs : s.Staged) (he : Effect s s') : s'.Executing := by
  cases he with
  | restart hs' =>
    subst hs'
    exact h
  | start hh hsub hst hs' =>
    have hexited := hs.idle hst
    subst hs'
    refine ⟨h.once, fun x hx => ?_, fun c => ?_⟩
    · have hpopped := h.popped x hx
      rw [hexited] at hpopped
      cases hpopped
    · have hrunning := h.running c
      rw [hexited] at hrunning
      refine Eq.trans ?_ hrunning
      cases c <;> rfl
  | refuse _ _ hs' | accept _ _ _ _ hs' | reserve _ hs' | enqueue _ hs' | launch _ hs' | launched _ hs'
  | stop _ _ _ hs' | halt _ _ _ hs' | close _ hs' | join _ _ _ hs' | joined _ _ hs' | drained _ _ _ hs' =>
    -- no consumer moves
    subst hs'
    exact h.keep rfl rfl rfl
  | @fetch c tasks hp hh ht hs' =>
    subst hs'
    have hmove : (s.move c .consuming).Executing := by
      apply h.move _ _ rfl
      · rw [hp]
        cases c <;> rfl
      · intro ticket
        rw [hp]
        cases c <;> exact nofun
    exact hmove.keep rfl rfl rfl
  | exit hp ht hst hs' =>
    subst hs'
    apply h.move _ _ rfl
    · rw [hp]
      rfl
    · rw [hp]
      exact nofun
  | @leave c hp hq hst hs' =>
    subst hs'
    apply h.move
    · rw [hp]
      rfl
    · rw [hp]
      exact nofun
    · cases c <;> rfl
  | @pop c ticket queue hp hq hidle hs' =>
    subst hs'
    have hmove : (s.move c (.popped ticket)).Executing := by
      apply h.move _ _ rfl
      · rw [hp]
        rfl
      · rw [hp]
        exact nofun
    refine ⟨?_, fun x hx => ?_, hmove.running⟩
    · change ((s.processor.taking ++ [_]).map _).Nodup
      rw [List.map_append]
      refine List.nodup_append.mpr ⟨h.once, List.pairwise_singleton _ _, ?_⟩
      rintro _ hx _ hy rfl
      obtain ⟨x, hx, hxc⟩ := List.mem_map.mp hx
      exact hidle x hx (hxc.trans (List.mem_singleton.mp hy))
    · rcases List.mem_append.mp hx with hx | hx
      · exact hmove.popped x hx
      · rw [List.mem_singleton.mp hx]
        exact move_self s c (.popped ticket)
  | @take c ticket found id processor hp hfound htaking hcall hown hs' =>
    obtain ⟨honce, hsub⟩ := h.erased hfound
    have hsame : ticket = found := by
      have hpopped := h.popped _ hfound
      rw [hp] at hpopped
      exact Place.popped.inj hpopped
    subst hs' hsame
    rw [← htaking] at honce hsub
    refine h.own rfl rfl hown honce hsub ?_
    rw [hcall]
    rfl
  | @act c ticket processor hp htaking hcall hown hs' =>
    subst hs'
    have hplace : s.place = (s.move c (.executing ticket)).place := by
      rw [← hp]
      exact (Function.update_eq_self c s.place).symm
    have hsub := h.not_taking hp
    have honce := h.once
    rw [← htaking] at honce
    refine h.own hplace rfl hown honce ?_ ?_
    · rw [htaking]
      exact hsub
    · rw [hcall, ← h.running, hp]
  | @finish c ticket processor hp htaking hcall hown hs' =>
    subst hs'
    have hsub := h.not_taking hp
    have honce := h.once
    rw [← htaking] at honce
    refine h.own rfl rfl hown honce ?_ ?_
    · rw [htaking]
      exact hsub
    · rw [hcall]
      rfl

structure Orderly (s : Lifecycle n) : Prop where
  staged : s.Staged
  counted : s.Counted
  executing : s.Executing

theorem create_orderly (world : World) : (create world : Lifecycle n).Orderly where
  staged :=
    { mutex := fun hh => absurd rfl hh
      stage := nofun
      refusing := fun hr => (by rcases hr with hr | hr <;> cases hr)
      caller := rfl
      idle := fun _ _ => rfl
      live := nofun
      exits := nofun
      halted := nofun
      ended := nofun }
  counted :=
    { numbers := List.nodup_nil
      below := by rintro t ⟨⟩
      kept := fun t => by
        rw [holders_eq_empty (fun _ => rfl)]
        rfl }
  executing := ⟨List.nodup_nil, by rintro x ⟨⟩, fun _ => rfl⟩

theorem Orderly.next (h : s.Orderly) (hn : 0 < n) {event : Event n} (hnext : s.next event = some s') : s'.Orderly :=
  ⟨h.staged.next hn (next_effect hnext), h.counted.next h.staged (next_effect hnext),
    h.executing.next h.staged (next_effect hnext)⟩

theorem Staged.halted_holder (h : s.Staged) (hh : s.halted = true) : s.holder = none := by
  have hst := (h.halted hh).1
  cases hholder : s.holder with
  | none => rfl
  | some holder =>
    have hstage := h.stage holder hholder
    cases holder <;> exact absurd hstage.1 (by rw [hst]; decide)

theorem Counted.nodup (h : s.Counted) : s.accepted.Nodup := by
  have hnumbers := h.numbers
  rw [tickets, List.map_append] at hnumbers
  exact (List.nodup_append.mp hnumbers).1.of_map _

/-- Every ticket for which `submit` has returned success is queued, in the hands of one consumer, or
executed once, and is nowhere else; what consumers execute are the transactions of their tickets. -/
structure NothingLost (s : Lifecycle n) : Prop where
  distinct : s.accepted.Nodup
  placed : ∀ t ∈ s.accepted, s.processor.queue.count t + (s.holders t).card + s.executed.count t = 1
  only : ∀ t ∉ s.accepted, s.processor.queue.count t + (s.holders t).card + s.executed.count t = 0
  running : ∀ c, (s.place c).running = (s.processor.pipeline.callOf c).map (·.txn)

/-- A `stop` has returned: if a `start` ever came before it then all is executed, and `submit` is refused. -/
structure Quiesced (s : Lifecycle n) : Prop where
  drained : s.everStarted = true → s.processor.queue = [] ∧ s.executed.Perm s.accepted
  refuses : ∀ txn, s.next (.submit txn) = some { s with refused := s.refused ++ [txn] }

theorem Orderly.nothingLost (h : s.Orderly) : s.NothingLost where
  distinct := h.counted.nodup
  placed t ht := by rw [h.counted.kept, List.count_eq_one_of_mem h.counted.nodup ht]
  only t ht := by rw [h.counted.kept, List.count_eq_zero_of_not_mem ht]
  running := h.executing.running

theorem Orderly.quiesced (h : s.Orderly) (hh : s.halted = true) : s.Quiesced where
  drained hever := by
    obtain ⟨hst, hqueue⟩ := h.staged.halted hh
    refine ⟨hqueue hever, ?_⟩
    apply List.perm_iff_count.mpr
    intro t
    have hkept := h.counted.kept t
    have hnone : s.holders t = ∅ := by
      apply holders_eq_empty
      intro c
      rw [h.staged.idle hst c]
      rfl
    rw [hqueue hever, hnone] at hkept
    simpa using hkept
  refuses txn := by
    obtain ⟨haccepting, hsub⟩ := h.staged.refusing (.inr hh)
    have hprocessor : s.processor.next (.submit txn) = some s.processor := by
      simp [TransactionProcessor.next, hsub, haccepting]
    rw [Lifecycle.next, if_pos (h.staged.halted_holder hh), hprocessor, haccepting]
    rfl

theorem run_nothingLost (hn : 0 < n) {world : World} {events : List (Event n)}
    (h : (create world : Lifecycle n).run events = some s) : s.NothingLost ∧ (s.halted = true → s.Quiesced) := by
  have horderly : s.Orderly := Runs.run_invariant (fun hs hnext => hs.next hn hnext) (create_orderly world) h
  exact ⟨horderly.nothingLost, horderly.quiesced⟩

def earlyStop (first second : Fin 2) : List (Event 2) :=
  [.submit (.deposit 7 5), .reserve, .enqueue, .start, .launch, .launch, .launch, .stop, .fetch first, .close,
    .waitPop (some first), .take (some first), .fetch second, .waitPop (some second), .fetch second, .join] ++
  List.replicate 20 (.act (some first) 0 none) ++
  [.waitPop (some first), .fetch first, .join, .join, .drain, .submit (.deposit 7 3)]

theorem earlyStop_nothingLost : ∃ s, (create (State.oneAccountWorld 7) : Lifecycle 2).run (earlyStop 1 0) = some s ∧
    s.executed.map (·.txn) = [.deposit 7 5] ∧ s.refused = [.deposit 7 3] ∧
    s.NothingLost ∧ s.Quiesced := by
  have hrun : ((create (State.oneAccountWorld 7) : Lifecycle 2).run (earlyStop 1 0)).map
      (fun s => (s.halted, s.executed.map (·.txn), s.refused)) =
    some (true, [.deposit 7 5], [.deposit 7 3]) := by decide +kernel
  obtain ⟨s, h, hs⟩ := Option.map_eq_some_iff.mp hrun
  obtain ⟨hhalted, hs⟩ := Prod.mk.inj hs
  obtain ⟨hexecuted, hrefused⟩ := Prod.mk.inj hs
  obtain ⟨hlost, hquiesced⟩ := run_nothingLost (by decide) h
  exact ⟨s, h, hexecuted, hrefused, hlost, hquiesced hhalted⟩

end Lifecycle

end BankManagement
