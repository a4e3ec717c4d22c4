import BankManagement.CallProgress
import BankManagement.DurableBank
import BankManagement.PipelineWatch
import BankManagement.Shutdown

namespace BankManagement

structure Pc.Calls (pc : Pc) : Prop where
  job : ∀ job, pc.job = some job → ∃ c, job = .processImpl c
  result : ∀ job held, pc ≠ .unlock job held .unlocked

theorem Job.entry_calls (c : Call) : (Job.processImpl c).entry.Calls := by
  constructor
  · intro job hjob
    rw [Job.entry_job] at hjob
    exact ⟨c, (Option.some.inj hjob).symm⟩
  · intro job held
    rw [Job.entry]
    split_ifs
    · exact Pc.noConfusion
    · cases (Job.processImpl c).order <;> exact Pc.noConfusion

theorem Pc.Quiet.result {w : World} {pc pc' : Pc} (h : pc.Quiet w pc') (hp : pc.Calls) {job : Job}
    {held : List AccountId} : pc' ≠ .unlock job held .unlocked := by
  cases h with
  | @locked job held k todo =>
    obtain ⟨c, rfl⟩ := hp.job job rfl
    cases todo <;> nofun
  | checked now =>
    unfold validated
    split_ifs <;> nofun
  | unlocked hnext =>
    rintro ⟨⟩
    exact hp.result _ _ rfl
  | @settled job exit =>
    obtain ⟨c, rfl⟩ := hp.job job rfl
    cases exit <;> nofun
  | enter | found | loaded | missing | saved | noted | audited => nofun

theorem Pc.Quiet.returned {w : World} {pc pc' : Pc} (h : pc.Quiet w pc') (hp : pc.Calls) {exit : Exit}
    (hexit : pc' = .finished exit) : ∃ result, exit = .returned result := by
  cases h with
  | @locked job held k todo =>
    obtain ⟨c, rfl⟩ := hp.job job rfl
    cases todo <;> cases hexit
  | checked now =>
    unfold validated at hexit
    split_ifs at hexit
  | @settled job exit' =>
    obtain ⟨c, rfl⟩ := hp.job job rfl
    cases exit' with
    | returned result => exact ⟨result, (Pc.finished.inj hexit).symm⟩
    | thrown what => cases hexit
    | unlocked => exact absurd rfl (hp.result _ _)
  | enter | found | loaded | missing | saved | noted | audited | unlocked => cases hexit

theorem Act.thrown_result (held : List AccountId) (what : Exn) (act : Act) (job : Job) (rest : List AccountId) :
    act.thrown held what ≠ .unlock job rest .unlocked := by
  cases act with
  | appendAudit entry note =>
    rw [Act.thrown]
    split_ifs <;> simp
  | mutexFor | load | appendWal | save | markCommitted | appendTransaction => simp [Act.thrown]

namespace State

variable {ι : Type} [DecidableEq ι] {s s' : State ι} {i : ι}

def Calls (s : State ι) : Prop := ∀ i pc, s.threads i = some pc → pc.Calls

omit [DecidableEq ι] in
theorem Calls.idle (h : s.Calls) (hi : s.callOf i = none) : s.Idle i := by
  cases ht : s.threads i with
  | none => exact .inl ht
  | some pc =>
    cases hjob : pc.job with
    | none =>
      cases pc with
      | finished exit => exact .inr ⟨exit, ht⟩
      | want | inside | lock | audit | unlock => cases hjob
    | some job =>
      obtain ⟨c, rfl⟩ := (h i pc ht).job job hjob
      rw [callOf_eq_some.mpr ⟨pc, ht, hjob⟩] at hi
      cases hi

theorem Calls.moved (h : s.Calls) {pc' : Pc} (hm : Moves s s' i pc') (hp : pc'.Calls) : s'.Calls := by
  intro j pc hj
  rcases hm.cases hj with ⟨rfl, rfl⟩ | ⟨-, hj⟩
  · exact hp
  · exact h j pc hj

theorem Calls.step (h : s.Calls) {now : TimePoint} {fault : Option Exn} (hstep : s.step i now fault = some s') :
    s'.Calls := by
  obtain ⟨pc, pc', hi, hm, hjob⟩ := step_job hstep
  refine h.moved hm ⟨fun job hj => (h i pc hi).job job (hjob job hj), fun job held => ?_⟩
  cases step_effect hstep with
  | quiet hi' hm' hq =>
    rw [Moves.unique hm hm']
    exact hq.result (h i _ hi')
  | thrown what hf hi' hm' =>
    rw [Moves.unique hm hm']
    exact Act.thrown_result _ what _ job held
  | append hi' happ hm' | refused hi' happ hm' =>
    rw [Moves.unique hm hm']
    nofun
  | save hi' hm' | record hi' hm' =>
    rw [Moves.unique hm hm']
    nofun
  | commit hi' hr hm' | rejected hi' hr hm' =>
    rw [Moves.unique hm hm']
    nofun

theorem Calls.returned (h : s.Calls) {now : TimePoint} (hstep : s.step i now none = some s') {exit : Exit}
    (hexit : s'.exitOf i = some exit) : ∃ result, exit = .returned result := by
  have hfinished := exitOf_eq_some hexit
  cases step_effect hstep with
  | quiet hi hm hq =>
    rw [hm.self] at hfinished
    exact hq.returned (h i _ hi) (Option.some.inj hfinished)
  | thrown what hf => cases hf
  | append hi happ hm | refused hi happ hm =>
    rw [hm.self] at hfinished
    cases hfinished
  | save hi hm | record hi hm =>
    rw [hm.self] at hfinished
    cases hfinished
  | commit hi hr hm | rejected hi hr hm =>
    rw [hm.self] at hfinished
    cases hfinished

end State

def Place.load (work : ℕ) : Place → ℕ
  | .exited => 0
  | .waiting => 1
  | .consuming => 2
  | .popped _ => 34
  | .executing _ => 3 + work

def Holder.work (n : ℕ) : Holder → ℕ
  | .starting left => 4 * left + 1
  | .requested => n + 3
  | .joining k => n - k + 2
  | .draining => 1

theorem Consumer.rest_load {n : ℕ} (c : Consumer n) (work : ℕ) : c.rest.load work ≤ 1 := by
  cases c
  · exact Nat.zero_le 1
  · exact le_refl 1

namespace Lifecycle

variable {n : ℕ} {s s' : Lifecycle n} {c : Consumer n}

def load (s : Lifecycle n) (c : Consumer n) : ℕ := (s.place c).load (s.processor.pipeline.work c)

def effort (s : Lifecycle n) : ℕ :=
  33 * s.processor.queue.length + ∑ c, s.load c + 3 * s.pool.tasks + s.holder.elim 0 (Holder.work n)

theorem sum_load (hothers : ∀ d, d ≠ c → s'.load d = s.load d) :
    ∑ d, s'.load d + s.load c = ∑ d, s.load d + s'.load c := by
  have hupdate : Function.update s.load c (s'.load c) = s'.load := by
    apply Function.update_eq_iff.mpr
    exact ⟨rfl, fun d hd => (hothers d hd).symm⟩
  have hsum := sum_update id s.load c (s'.load c)
  simpa only [id_eq, hupdate] using hsum

end Lifecycle

namespace TransactionProcessor

variable {ι : Type} [DecidableEq ι] {p p' : TransactionProcessor ι} {event : BankManagement.Event ι}

structure Calling (p : TransactionProcessor ι) : Prop where
  guarded : p.pipeline.Guarded
  calls : p.pipeline.Calls
  work : ∀ i, p.pipeline.work i ≤ 30

omit [DecidableEq ι] in
theorem create_calling (world : World) : (create world : TransactionProcessor ι).Calling :=
  ⟨State.guarded_init world, fun i pc hi => (by cases hi), fun _ => Nat.zero_le 30⟩

theorem Calling.begin (h : p.Calling) {i : ι} {c : Call} {pipeline : State ι}
    (hs : p.pipeline.next (.begin i (.processImpl c)) = some pipeline) :
    pipeline.Guarded ∧ pipeline.Calls ∧ ∀ j, pipeline.work j ≤ 30 := by
  refine ⟨h.guarded.next hs, ?_, fun j => ?_⟩
  · obtain ⟨-, rfl⟩ := State.start_eq_some hs
    exact h.calls.moved rfl (Job.entry_calls c)
  · by_cases hji : j = i
    · subst hji
      obtain ⟨-, rfl⟩ := State.start_eq_some hs
      rw [State.work_of_threads (Function.update_self _ _ _)]
      exact Job.entry_work _
    · have hwork := State.next_work hs j
      rw [show (Label.begin i (.processImpl c)).beginsOf j = false from decide_eq_false (Ne.symm hji)] at hwork
      exact le_trans (Nat.le_of_add_right_le hwork) (h.work j)

theorem Calling.next (h : p.Calling) (hnext : p.next event = some p') : p'.Calling := by
  have hlabel := next_label hnext
  cases hl : p.label event with
  | none =>
    rw [hl] at hlabel
    dsimp only at hlabel
    refine ⟨?_, ?_, ?_⟩ <;> rw [hlabel]
    · exact h.guarded
    · exact h.calls
    · exact h.work
  | some label =>
    rw [hl] at hlabel
    cases label with
    | begin i job =>
      obtain ⟨c, rfl⟩ : ∃ c, job = .processImpl c := by
        cases event with
        | processOne j txn => exact ⟨_, (Label.begin.inj (Option.some.inj hl)).2.symm⟩
        | take j =>
          obtain ⟨taken, -, hl⟩ := Option.map_eq_some_iff.mp hl
          exact ⟨_, (Label.begin.inj hl).2.symm⟩
        | act j now fault => cases hl
        | start | stop | reserve | enqueue | submit | pop => cases hl
      obtain ⟨hguarded, hcalls, hwork⟩ := h.begin hlabel
      exact ⟨hguarded, hcalls, hwork⟩
    | act i now fault =>
      refine ⟨h.guarded.next hlabel, h.calls.step hlabel, fun j => ?_⟩
      have hwork := State.next_work hlabel j
      exact le_trans (Nat.le_of_add_right_le hwork) (h.work j)

end TransactionProcessor

namespace Lifecycle

variable {n : ℕ} {s s' : Lifecycle n} {c : Consumer n} {event : Event n}

theorem load_congr {d : Consumer n} (hplace : s'.place d = s.place d)
    (hthreads : s'.processor.pipeline.threads d = s.processor.pipeline.threads d) : s'.load d = s.load d := by
  rw [load, load, hplace, State.work, State.work, hthreads]

theorem load_of_place {place : Place} (hp : s.place c = place) : s.load c = place.load (s.processor.pipeline.work c) := by
  rw [load, hp]

theorem effort_of_holder {holder : Option Holder} {pool : ThreadPool}
    (hlt : 3 * pool.tasks + holder.elim 0 (Holder.work n) < 3 * s.pool.tasks + s.holder.elim 0 (Holder.work n)) :
    { s with holder, pool }.effort < s.effort := by
  have hsum : ∑ d, { s with holder, pool }.load d = ∑ d, s.load d := rfl
  unfold effort
  rw [hsum]
  dsimp only
  omega

theorem effort_of_place (c : Consumer n) (place : Place) (hplace : s'.place = (s.move c place).place)
    (hholder : s'.holder = s.holder)
    (hothers : ∀ d, d ≠ c → s'.processor.pipeline.threads d = s.processor.pipeline.threads d)
    (hlt : 33 * s'.processor.queue.length + place.load (s'.processor.pipeline.work c) + 3 * s'.pool.tasks <
      33 * s.processor.queue.length + s.load c + 3 * s.pool.tasks) : s'.effort < s.effort := by
  have hsum : ∑ d, s'.load d + s.load c = ∑ d, s.load d + s'.load c := by
    apply sum_load
    intro d hd
    apply load_congr _ (hothers d hd)
    rw [hplace, move_other s hd]
  have hload : s'.load c = place.load (s'.processor.pipeline.work c) := by
    apply load_of_place
    rw [hplace, move_self]
  unfold effort
  rw [hholder]
  omega

theorem effort_next (hs : s.Staged) (hcalling : s.processor.Calling) (hholder : s.holder ≠ none)
    (h : s.next event = some s') : s'.effort < s.effort := by
  have hsub := hs.mutex hholder
  cases event with
  | submit txn =>
    simp only [next, if_neg hholder] at h
    cases h
  | reserve =>
    simp only [next, TransactionProcessor.next, hsub, Option.map_none] at h
    cases h
  | enqueue =>
    simp only [next, hsub] at h
    cases h
  | start =>
    simp only [next, hholder, false_and, if_false] at h
    cases h
  | stop =>
    simp only [next, if_neg hholder] at h
    cases h
  | launch =>
    simp only [next] at h
    split at h
    · rename_i hh
      obtain rfl := Option.some.inj h
      apply effort_of_holder
      rw [hh]
      exact Nat.lt_succ_self _
    · rename_i left hh
      obtain rfl := Option.some.inj h
      apply effort_of_holder
      have htasks : s.pool.submit.tasks ≤ s.pool.tasks + 1 := by
        unfold ThreadPool.submit
        split_ifs
        · exact Nat.le_succ _
        · exact le_refl _
      rw [hh]
      simp only [Option.elim_some, Holder.work]
      omega
    · cases h
  | close =>
    simp only [next] at h
    split at h
    · rename_i hh
      obtain rfl := Option.some.inj h
      apply effort_of_holder
      rw [hh]
      simp only [Option.elim_some, Holder.work]
      omega
    · cases h
  | join =>
    simp only [next] at h
    split at h
    · rename_i k hh
      split_ifs at h with hk hp
      · obtain rfl := Option.some.inj h
        apply effort_of_holder
        rw [hh]
        simp only [Option.elim_some, Holder.work]
        omega
      · obtain rfl := Option.some.inj h
        apply effort_of_holder
        rw [hh]
        simp only [Option.elim_some, Holder.work]
        omega
    · cases h
  | drain =>
    simp only [next] at h
    split_ifs at h with hh
    split at h
    · obtain rfl := Option.some.inj h
      apply effort_of_holder
      rw [hh.1]
      exact Nat.lt_succ_self _
    · rename_i tasks ht
      obtain rfl := Option.some.inj h
      refine effort_of_place none .consuming rfl rfl (fun _ _ => rfl) ?_
      rw [load_of_place hh.2, ht]
      simp only [runTask, move, Place.load]
      omega
  | fetch i =>
    by_cases hp : s.place (some i) = .waiting
    swap
    · simp only [next, if_neg hp] at h
      cases h
    simp only [next, if_pos hp] at h
    split at h
    · split_ifs at h
      obtain rfl := Option.some.inj h
      refine effort_of_place (some i) .exited rfl rfl (fun _ _ => rfl) ?_
      rw [load_of_place hp]
      simp only [move, Place.load]
      omega
    · rename_i tasks ht
      obtain rfl := Option.some.inj h
      refine effort_of_place (some i) .consuming rfl rfl (fun _ _ => rfl) ?_
      rw [load_of_place hp, ht]
      simp only [runTask, move, Place.load]
      omega
  | waitPop c =>
    by_cases hp : s.place c = .consuming
    swap
    · simp only [next, if_neg hp] at h
      cases h
    simp only [next, if_pos hp] at h
    split at h
    · split_ifs at h
      obtain rfl := Option.some.inj h
      refine effort_of_place c c.rest rfl rfl (fun _ _ => rfl) ?_
      have hrest := c.rest_load (s.processor.pipeline.work c)
      have hload : s.load c = 2 := load_of_place hp
      rw [hload]
      dsimp only [move]
      omega
    · rename_i ticket queue hq
      simp only [TransactionProcessor.next, hq] at h
      split_ifs at h
      · obtain rfl := Option.some.inj h
        refine effort_of_place c (.popped ticket) rfl rfl (fun _ _ => rfl) ?_
        rw [load_of_place hp, hq]
        simp only [move, Place.load, List.length_cons]
        omega
      · cases h
  | take c =>
    simp only [next] at h
    split at h
    · rename_i ticket hp
      obtain ⟨processor, hnext, rfl⟩ := Option.map_eq_some_iff.mp h
      obtain ⟨-, -, -, -, -, hown⟩ := TransactionProcessor.take_own hnext
      have hwork := (hcalling.next hnext).work c
      refine effort_of_place c (.executing ticket) rfl rfl hown.others ?_
      rw [load_of_place hp]
      simp only [move, Place.load, hown.queue]
      omega
    · cases h
  | act c now fault =>
    simp only [next] at h
    split at h
    · rename_i ticket hp
      obtain ⟨processor, hnext, h⟩ := Option.bind_eq_some_iff.mp h
      obtain ⟨hstep, -, hown⟩ := TransactionProcessor.act_own hnext
      have hwork : processor.pipeline.work c + 1 ≤ s.processor.pipeline.work c := by
        have hlabel : s.processor.pipeline.next (.act c now fault) = some processor.pipeline := hstep
        have hspent := State.next_work hlabel c
        simpa [Label.actsOf, Label.beginsOf] using hspent
      split at h
      · obtain rfl := Option.some.inj h
        refine effort_of_place c (.executing ticket) ?_ rfl hown.others ?_
        · rw [move, ← hp, Function.update_eq_self]
        · rw [load_of_place hp]
          simp only [Place.load, hown.queue]
          omega
      · obtain rfl := Option.some.inj h
        refine effort_of_place c .consuming rfl rfl hown.others ?_
        rw [load_of_place hp]
        simp only [move, Place.load, hown.queue]
        omega
      · cases h
    · cases h

structure Working (s : Lifecycle n) : Prop where
  orderly : s.Orderly
  calling : s.processor.Calling
  taking : ∀ c ticket, s.place c = .popped ticket → (c, ticket) ∈ s.processor.taking
  closing : ∀ k, s.holder = some (.joining k) → s.pool.stopping = true

theorem create_working (world : World) : (create world : Lifecycle n).Working where
  orderly := create_orderly world
  calling := TransactionProcessor.create_calling world
  taking := nofun
  closing := nofun

theorem Working.taking_move (h : s.Working) {place : Place} (hplace : s'.place = (s.move c place).place)
    (hself : ∀ ticket, place ≠ .popped ticket)
    (hothers : ∀ x ∈ s.processor.taking, x.1 ≠ c → x ∈ s'.processor.taking) (d : Consumer n) (ticket : Ticket)
    (hp : s'.place d = .popped ticket) : (d, ticket) ∈ s'.processor.taking := by
  rw [hplace] at hp
  by_cases hd : d = c
  · subst hd
    rw [move_self] at hp
    exact absurd hp (hself ticket)
  · rw [move_other s hd] at hp
    exact hothers _ (h.taking d ticket hp) hd

theorem Working.effect (h : s.Working) (he : Effect s s') (horderly : s'.Orderly)
    (hcalling : s'.processor.Calling) : s'.Working := by
  have hrest (c : Consumer n) (ticket : Ticket) : c.rest ≠ .popped ticket := by
    cases c <;> nofun
  cases he with
  | restart hs =>
    subst hs
    exact h
  | start hh hsub hst hs =>
    subst hs
    exact ⟨horderly, hcalling, fun c ticket hp => absurd hp (hrest c ticket), nofun⟩
  | refuse _ _ hs | accept _ _ _ _ hs | reserve _ hs | enqueue _ hs | halt _ _ _ hs =>
    subst hs
    exact ⟨horderly, hcalling, h.taking, h.closing⟩
  | launch _ hs | launched _ hs | stop _ _ _ hs | joined _ _ hs | drained _ _ _ hs =>
    subst hs
    exact ⟨horderly, hcalling, h.taking, nofun⟩
  | close hh hs =>
    subst hs
    exact ⟨horderly, hcalling, h.taking, fun _ _ => rfl⟩
  | @join k hk hh hp hs =>
    subst hs
    exact ⟨horderly, hcalling, h.taking, fun _ _ => h.closing k hh⟩
  | @fetch c tasks hp hh ht hs =>
    subst hs
    exact ⟨horderly, hcalling, h.taking_move rfl nofun fun x hx _ => hx, h.closing⟩
  | exit hp ht hst hs =>
    subst hs
    exact ⟨horderly, hcalling, h.taking_move rfl nofun fun x hx _ => hx, h.closing⟩
  | leave hp hq hst hs =>
    subst hs
    exact ⟨horderly, hcalling, h.taking_move rfl (hrest _) fun x hx _ => hx, h.closing⟩
  | @pop c ticket queue hp hq hidle hs =>
    subst hs
    refine ⟨horderly, hcalling, fun d found hd => ?_, h.closing⟩
    by_cases hdc : d = c
    · subst hdc
      obtain rfl := Place.popped.inj ((move_self s d _).symm.trans hd)
      exact List.mem_append_right _ (List.mem_singleton.mpr rfl)
    · rw [show _ = s.place d from move_other s hdc _] at hd
      exact List.mem_append_left _ (h.taking d found hd)
  | @take c ticket found id processor hp hfound htaking hcall hown hs =>
    subst hs
    refine ⟨horderly, hcalling, h.taking_move rfl nofun fun x hx hne => ?_, h.closing⟩
    change x ∈ processor.taking
    rw [htaking]
    exact (List.mem_eraseP_of_neg (by simpa using hne)).mpr hx
  | @act c ticket processor hp htaking hcall hown hs =>
    subst hs
    refine ⟨horderly, hcalling, fun d found hd => ?_, h.closing⟩
    change _ ∈ processor.taking
    rw [htaking]
    exact h.taking d found hd
  | @finish c ticket processor hp htaking hcall hown hs =>
    subst hs
    refine ⟨horderly, hcalling, h.taking_move rfl nofun fun x hx _ => ?_, h.closing⟩
    change x ∈ processor.taking
    rwa [htaking]

theorem next_processor (h : s.next event = some s') :
    s'.processor = s.processor ∨ ∃ e, s.processor.next e = some s'.processor := by
  cases event with
  | submit txn =>
    simp only [next] at h
    split_ifs at h
    · obtain ⟨processor, hp, rfl⟩ := Option.map_eq_some_iff.mp h
      exact .inr ⟨_, hp⟩
    · obtain ⟨processor, hp, rfl⟩ := Option.map_eq_some_iff.mp h
      exact .inr ⟨_, hp⟩
  | reserve =>
    obtain ⟨processor, hp, rfl⟩ := Option.map_eq_some_iff.mp h
    exact .inr ⟨_, hp⟩
  | enqueue =>
    simp only [next] at h
    split at h
    · obtain ⟨processor, hp, rfl⟩ := Option.map_eq_some_iff.mp h
      exact .inr ⟨_, hp⟩
    · cases h
  | start =>
    simp only [next] at h
    split_ifs at h
    · obtain rfl := Option.some.inj h
      exact .inl rfl
    · obtain ⟨processor, hp, rfl⟩ := Option.map_eq_some_iff.mp h
      exact .inr ⟨_, hp⟩
  | stop =>
    simp only [next] at h
    split_ifs at h
    · obtain ⟨processor, hp, rfl⟩ := Option.map_eq_some_iff.mp h
      exact .inr ⟨_, hp⟩
    · obtain ⟨processor, hp, rfl⟩ := Option.map_eq_some_iff.mp h
      exact .inr ⟨_, hp⟩
  | take c =>
    simp only [next] at h
    split at h
    · obtain ⟨processor, hp, rfl⟩ := Option.map_eq_some_iff.mp h
      exact .inr ⟨_, hp⟩
    · cases h
  | act c now fault =>
    simp only [next] at h
    split at h
    · obtain ⟨processor, hp, h⟩ := Option.bind_eq_some_iff.mp h
      split at h
      · obtain rfl := Option.some.inj h
        exact .inr ⟨_, hp⟩
      · obtain rfl := Option.some.inj h
        exact .inr ⟨_, hp⟩
      · cases h
    · cases h
  | waitPop c =>
    by_cases hp : s.place c = .consuming
    swap
    · simp only [next, if_neg hp] at h
      cases h
    simp only [next, if_pos hp] at h
    split at h
    · split_ifs at h
      obtain rfl := Option.some.inj h
      exact .inl rfl
    · obtain ⟨processor, hp, rfl⟩ := Option.map_eq_some_iff.mp h
      exact .inr ⟨_, hp⟩
  | launch =>
    simp only [next] at h
    split at h
    · obtain rfl := Option.some.inj h
      exact .inl rfl
    · obtain rfl := Option.some.inj h
      exact .inl rfl
    · cases h
  | close =>
    simp only [next] at h
    split at h
    · obtain rfl := Option.some.inj h
      exact .inl rfl
    · cases h
  | join =>
    simp only [next] at h
    split at h
    · split_ifs at h <;> obtain rfl := Option.some.inj h <;> exact .inl rfl
    · cases h
  | drain =>
    simp only [next] at h
    split_ifs at h
    split at h <;> obtain rfl := Option.some.inj h <;> exact .inl rfl
  | fetch i =>
    by_cases hp : s.place (some i) = .waiting
    swap
    · simp only [next, if_neg hp] at h
      cases h
    simp only [next, if_pos hp] at h
    split at h
    · split_ifs at h
      obtain rfl := Option.some.inj h
      exact .inl rfl
    · obtain rfl := Option.some.inj h
      exact .inl rfl

theorem next_calling (h : s.processor.Calling) (hnext : s.next event = some s') : s'.processor.Calling := by
  rcases next_processor hnext with hsame | ⟨e, hp⟩
  · rwa [hsame]
  · exact h.next hp

theorem Working.next (h : s.Working) (hn : 0 < n) (hnext : s.next event = some s') : s'.Working :=
  h.effect (next_effect hnext) (h.orderly.next hn hnext) (next_calling h.calling hnext)

theorem Working.idle (h : s.Working) (hp : (s.place c).running = none) : s.processor.pipeline.Idle c := by
  apply h.calling.calls.idle
  have hrunning := h.orderly.executing.running c
  rw [hp] at hrunning
  exact Option.map_eq_none_iff.mp hrunning.symm

theorem Working.execute (h : s.Working) {ticket : Ticket} (hp : s.place c = .executing ticket) :
    ∃ event, (s.next event).isSome := by
  have hactive : ¬ s.processor.pipeline.Idle c := by
    intro hidle
    have hrunning := h.orderly.executing.running c
    rw [hidle.callOf, hp] at hrunning
    cases hrunning
  obtain ⟨d, hd, hstep⟩ := h.calling.guarded.progress hactive
  obtain ⟨pipeline, hstep⟩ := Option.isSome_iff_exists.mp (hstep 0)
  have hrunning := h.orderly.executing.running d
  cases hcall : s.processor.pipeline.callOf d with
  | none => exact absurd (h.calling.calls.idle hcall) hd
  | some call =>
    rw [hcall] at hrunning
    cases hplace : s.place d with
    | executing ticket =>
      refine ⟨.act d 0 none, ?_⟩
      simp only [Lifecycle.next, hplace, TransactionProcessor.next, hstep, Option.map_some, Option.bind_some]
      split
      · rfl
      · rfl
      · rename_i exit hexit hne
        obtain ⟨result, rfl⟩ := h.calling.calls.returned hstep hne
        exact absurd rfl (hexit result)
    | exited | waiting | consuming | popped =>
      rw [hplace] at hrunning
      cases hrunning

theorem Working.worker (h : s.Working) (hstop : s.stopRequested = true) (hclosed : s.pool.stopping = true) {i : Fin n}
    (hp : s.place (some i) ≠ .exited) : ∃ event, (s.next event).isSome := by
  cases hplace : s.place (some i) with
  | exited => exact absurd hplace hp
  | waiting =>
    refine ⟨.fetch i, ?_⟩
    rw [Lifecycle.next, if_pos hplace]
    split
    · rw [if_pos hclosed]
      rfl
    · rfl
  | consuming =>
    refine ⟨.waitPop (some i), ?_⟩
    rw [Lifecycle.next, if_pos hplace]
    split
    · rw [if_pos hstop]
      rfl
    · rename_i ticket queue hq
      have hidle : s.processor.idle (some i) = true := by
        simp only [TransactionProcessor.idle, Bool.and_eq_true, List.all_eq_true]
        constructor
        · intro x hx
          have hpopped := h.orderly.executing.popped x hx
          apply decide_eq_true
          rintro hxi
          rw [hxi, hplace] at hpopped
          cases hpopped
        · rcases h.idle (c := some i) (by rw [hplace]; rfl) with hnone | ⟨exit, hfinished⟩
          · rw [hnone]
          · rw [hfinished]
      simp only [TransactionProcessor.next, hq, if_pos hidle, Option.map_some, Option.isSome_some]
  | popped ticket =>
    refine ⟨.take (some i), ?_⟩
    simp only [Lifecycle.next, hplace, Option.isSome_map]
    have hmem := h.taking _ _ hplace
    cases hfind : s.processor.taking.find? (·.1 = some i) with
    | none =>
      have hnone := List.find?_eq_none.mp hfind _ hmem
      exact absurd (decide_eq_true rfl) hnone
    | some found =>
      have hstart (job : Job) : (s.processor.pipeline.start (some i) job).isSome := by
        rcases h.idle (c := some i) (by rw [hplace]; rfl) with hnone | ⟨exit, hfinished⟩
        · simp [State.start, hnone]
        · simp [State.start, hfinished]
      simp only [TransactionProcessor.next, hfind, TransactionProcessor.takeReservedId]
      split
      · simpa [TransactionProcessor.call] using hstart _
      · simpa [TransactionProcessor.call, TransactionProcessor.handOut] using hstart _
  | executing ticket => exact h.execute hplace

theorem Working.progress (h : s.Working) (hh : s.holder ≠ none) : ∃ event, (s.next event).isSome := by
  cases hholder : s.holder with
  | none => exact absurd hholder hh
  | some holder =>
    cases holder with
    | starting left =>
      refine ⟨.launch, ?_⟩
      cases left <;> simp [Lifecycle.next, hholder]
    | requested => exact ⟨.close, by simp [Lifecycle.next, hholder]⟩
    | joining k =>
      obtain ⟨-, hstop, -⟩ := h.orderly.staged.stage _ hholder
      by_cases hk : k < n
      · by_cases hp : s.place (some ⟨k, hk⟩) = .exited
        · exact ⟨.join, by simp [Lifecycle.next, hholder, hk, hp]⟩
        · exact h.worker hstop (h.closing k hholder) hp
      · exact ⟨.join, by simp [Lifecycle.next, hholder, hk]⟩
    | draining =>
      refine ⟨.drain, ?_⟩
      rw [Lifecycle.next, if_pos ⟨hholder, h.orderly.staged.caller⟩]
      split <;> rfl

theorem effort_le (h : s.processor.Calling) :
    s.effort ≤ 33 * s.processor.queue.length + 3 * s.pool.tasks + 34 * (n + 1) + s.holder.elim 0 (Holder.work n) := by
  have hload (c : Consumer n) : s.load c ≤ 34 := by
    have hwork := h.work c
    unfold load
    cases s.place c <;> simp only [Place.load] <;> omega
  have hsum : ∑ c, s.load c ≤ 34 * (n + 1) := by
    have hcard := Finset.sum_le_sum fun (c : Consumer n) (_ : c ∈ Finset.univ) => hload c
    rw [Finset.sum_const, Finset.card_univ, Fintype.card_option, Fintype.card_fin, nsmul_eq_mul, Nat.cast_id,
      Nat.mul_comm] at hcard
    exact hcard
  unfold effort
  omega

/-- While the caller of `start` or `stop` is in it somebody can take a step, and only so many steps
are taken before it is out again. -/
theorem run_settles (hn : 0 < n) {world : World} {events : List (Event n)}
    (h : (create world : Lifecycle n).run events = some s) :
    (s.holder ≠ none → ∃ event, (s.next event).isSome) ∧
      ∀ more s', Runs.Along next (fun t _ => t.holder ≠ none) s more → s.run more = some s' →
        more.length ≤ 33 * s.processor.queue.length + 3 * s.pool.tasks + 34 * (n + 1) + s.holder.elim 0 (Holder.work n) := by
  have hworking : s.Working := Runs.run_invariant (fun hs hnext => hs.next hn hnext) (create_working world) h
  refine ⟨hworking.progress, fun more s' hbusy hmore => le_trans ?_ (effort_le hworking.calling)⟩
  have hspent : more.length + s'.effort ≤ s.effort + 0 * more.countP fun _ => false := by
    apply Runs.run_spent (fun hs _ hnext => Working.next hs hn hnext) _ hworking hbusy hmore
    intro t event t' ht hbusy hnext
    rw [Nat.zero_mul]
    exact effort_next ht.orderly.staged ht.calling hbusy hnext
  omega

def loadedStop : List (Event 2) :=
  [.submit (.deposit 7 5), .reserve, .enqueue, .start, .launch, .launch, .launch, .stop]

theorem loadedStop_settles : ∃ s, (create (State.oneAccountWorld 7) : Lifecycle 2).run loadedStop = some s ∧
    (∃ event, (s.next event).isSome) ∧
    ∀ more s', Runs.Along next (fun t _ => t.holder ≠ none) s more → s.run more = some s' → more.length ≤ 146 := by
  have h : (create (State.oneAccountWorld 7) : Lifecycle 2).run loadedStop = some _ := rfl
  obtain ⟨hsome, hbound⟩ := run_settles (by decide) h
  exact ⟨_, h, hsome nofun, hbound⟩

end Lifecycle

end BankManagement
