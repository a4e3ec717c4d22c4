import BankManagement.PipelineTrail
import BankManagement.Serialisability

namespace BankManagement

open Codec

def Label.thread {ι : Type} : Label ι → ι
  | .begin i _ => i
  | .act i _ _ => i

/-- A pipeline with two lists that the code does not keep: who wrote which entry of the trail, and how
the calls that are over have ended. -/
structure Watched (ι : Type) where
  pipeline : State ι
  written : List (Call × AuditEntry)
  exits : List (Call × Exit)

namespace Watched

variable {ι : Type}

def init (world : World) : Watched ι := ⟨.init world, [], []⟩

def next [DecidableEq ι] (w : Watched ι) (label : Label ι) : Option (Watched ι) :=
  (w.pipeline.next label).map fun s' =>
    let caller := (w.pipeline.callOf label.thread).toList
    { pipeline := s'
      written := w.written ++ caller.flatMap fun c =>
        (s'.world.audit.drop w.pipeline.world.audit.length).map fun entry => (c, entry)
      exits := w.exits ++ caller.flatMap fun c => (s'.exitOf label.thread).toList.map fun exit => (c, exit) }

def run [DecidableEq ι] (w : Watched ι) (labels : List (Label ι)) : Option (Watched ι) := Runs.run next w labels

def entriesOf (w : Watched ι) (x : TransactionId) : List AuditEntry :=
  (w.written.filter fun p => p.1.id = x).map (·.2)

def recordsOf (w : Watched ι) (x : TransactionId) : List TransactionRecord :=
  w.pipeline.world.transactions.filter fun r => r.id = x

end Watched

def Result.action : Result TransactionRecord → String
  | .success _ => "txn.completed"
  | .failure _ => "txn.failed"

def Result.Booked (result : Result TransactionRecord) (records : List TransactionRecord)
    (entries : List AuditEntry) : Prop :=
  records = result.value?.toList ∧ ∃ e, entries = [e] ∧ e.action = result.action

def Act.Stand (records : List TransactionRecord) (entries : List AuditEntry) : Act → Prop
  | .appendAudit entry note =>
    entry.action = note.result.action ∧ records = note.result.value?.toList ∧ entries = []
  | _ => records = [] ∧ entries = []

def Pc.Stand (records : List TransactionRecord) (entries : List AuditEntry) : Pc → Prop
  | .want _ act => act.Stand records entries
  | .inside _ act => act.Stand records entries
  | .lock _ _ _ _ => records = [] ∧ entries = []
  | .audit _ note => note.action = note.result.action ∧ records = note.result.value?.toList ∧ entries = []
  | .unlock _ _ (.returned result) => result.Booked records entries
  | .unlock _ _ (.thrown _) => records = [] ∧ entries = []
  | .unlock _ _ .unlocked => False
  | .finished (.returned result) => result.Booked records entries
  | .finished _ => False

section

variable {c : Call} {records : List TransactionRecord} {entries : List AuditEntry}

theorem Job.entry_stand : (Job.processImpl c).entry.Stand [] [] := by
  rw [Job.entry]
  split_ifs
  · exact ⟨rfl, rfl, rfl⟩
  · cases (Job.processImpl c).order <;> exact ⟨rfl, rfl⟩

theorem Pc.Quiet.stand {w : World} {pc pc' : Pc} (h : pc.Quiet w pc') (hp : pc'.pending = pc.pending)
    (hw : pc.writing = none) (hjob : pc.job = some (.processImpl c)) (hs : pc.Stand records entries) :
    pc'.Stand records entries := by
  cases h with
  | enter => exact hs
  | found => exact hs
  | @locked job held k todo =>
    obtain rfl := Option.some.inj hjob
    cases todo <;> exact hs
  | loaded => exact hs
  | missing => exact ⟨rfl, hs⟩
  | checked now =>
    unfold validated
    split_ifs
    · exact ⟨rfl, hs⟩
    · exact hs
  | saved => exact hs
  | noted entry => cases hp
  | audited => cases hw
  | @unlocked job held k rest exit =>
    cases exit <;> exact hs
  | @settled job exit =>
    obtain rfl := Option.some.inj hjob
    cases exit with
    | returned result => exact hs
    | thrown what => exact ⟨rfl, hs⟩
    | unlocked => exact hs

end

namespace State

variable {ι : Type} [DecidableEq ι] {s s' : State ι} {i : ι}

inductive Books (s s' : State ι) (i : ι) : Prop
  | keep {pc pc'} (hi : s.threads i = some pc) (hm : Moves s s' i pc')
    (hjob : ∀ job, pc'.job = some job → pc.job = some job)
    (hs : ∀ c records entries, pc.job = some (.processImpl c) → pc.Stand records entries → pc'.Stand records entries)
    (ht : s'.world.transactions = s.world.transactions) (ha : s'.world.audit = s.world.audit)
  | record {held c record} (hi : s.threads i = some (.inside held (.appendTransaction c record)))
    (hm : Moves s s' i (.audit held (.completed c record)))
    (ht : s'.world.transactions = s.world.transactions ++ [record]) (ha : s'.world.audit = s.world.audit)
  | write {held entry note} (hi : s.threads i = some (.inside held (.appendAudit entry note)))
    (hm : Moves s s' i (.unlock (.processImpl note.call) held (.returned note.result)))
    (ht : s'.world.transactions = s.world.transactions) (ha : s'.world.audit = s.world.audit ++ [entry])

theorem Moves.unique {pc pc' : Pc} (h : Moves s s' i pc) (h' : Moves s s' i pc') : pc = pc' :=
  Option.some.inj (h.self.symm.trans h'.self)

theorem effect_transactions {fault : Option Exn} (h : Effect s s' i fault) :
    s'.world.transactions = s.world.transactions ∨ ∃ held c record,
      s.threads i = some (.inside held (.appendTransaction c record)) ∧
      Moves s s' i (.audit held (.completed c record)) ∧
      s'.world.transactions = s.world.transactions ++ [record] := by
  cases h with
  | record hi hm _ _ ht => exact .inr ⟨_, _, _, hi, hm, ht⟩
  | thrown what hf hi hm hw => exact .inl (by rw [hw])
  | quiet _ _ _ _ _ ht => exact .inl ht
  | append _ _ _ _ _ ht => exact .inl ht
  | refused _ _ _ _ _ ht => exact .inl ht
  | save _ _ _ _ ht => exact .inl ht
  | commit _ _ _ _ _ ht => exact .inl ht
  | rejected _ _ _ _ _ ht => exact .inl ht

theorem step_books {now : TimePoint} (h : s.step i now none = some s') : Books s s' i := by
  rcases effect_transactions (step_effect h) with ht | ⟨held, c, record, hi, hm, ht⟩
  · cases step_trail h with
    | @keep pc pc' hi hm hp hw ha =>
      have hstand : (∀ job, pc'.job = some job → pc.job = some job) ∧ ∀ c records entries,
          pc.job = some (.processImpl c) → pc.Stand records entries → pc'.Stand records entries := by
        have same {pc₁ pc₁' : Pc} (hi₁ : s.threads i = some pc₁) (hm₁ : Moves s s' i pc₁') : pc = pc₁ ∧ pc' = pc₁' :=
          ⟨Option.some.inj (hi.symm.trans hi₁), hm.unique hm₁⟩
        cases step_effect h with
        | quiet hi₁ hm₁ hq =>
          obtain ⟨rfl, rfl⟩ := same hi₁ hm₁
          exact ⟨hq.continues.job, fun c records entries hjob => hq.stand hp hw hjob⟩
        | thrown what hf => cases hf
        | append hi₁ _ hm₁ =>
          obtain ⟨rfl, rfl⟩ := same hi₁ hm₁
          exact ⟨fun _ hj => hj, fun _ _ _ _ hs => hs⟩
        | refused hi₁ _ hm₁ =>
          obtain ⟨rfl, rfl⟩ := same hi₁ hm₁
          exact ⟨fun _ hj => hj, fun _ _ _ _ hs => hs⟩
        | save hi₁ hm₁ =>
          obtain ⟨rfl, rfl⟩ := same hi₁ hm₁
          exact ⟨fun _ hj => hj, fun _ _ _ _ hs => hs⟩
        | commit hi₁ _ hm₁ =>
          obtain ⟨rfl, rfl⟩ := same hi₁ hm₁
          exact ⟨fun _ hj => hj, fun _ _ _ _ hs => hs⟩
        | rejected hi₁ _ hm₁ =>
          obtain ⟨rfl, rfl⟩ := same hi₁ hm₁
          exact ⟨fun _ hj => hj, fun _ _ _ _ hs => hs⟩
        | record _ _ _ _ ht₁ =>
          rw [ht] at ht₁
          simp at ht₁
      exact .keep hi hm hstand.1 hstand.2 ht ha
    | fetch now' hi hm ha => exact .keep hi hm (fun _ hj => hj) (fun _ _ _ _ hs => hs) ht ha
    | write hf hi hm ha => exact .write hi hm ht ha
    | lose what hf => cases hf
  · refine .record hi hm ht ?_
    cases step_trail h with
    | keep _ _ _ _ ha => exact ha
    | fetch _ _ _ ha => exact ha
    | write _ hi₁ =>
      rw [hi] at hi₁
      cases hi₁
    | lose what hf => cases hf

end State

namespace Watched

variable {ι : Type} [DecidableEq ι] {w w' : Watched ι} {i : ι} {label : Label ι} {x : TransactionId}

structure Accounted (w : Watched ι) : Prop where
  tracked : w.pipeline.Tracked
  delivered : w.pipeline.Delivered
  trail : w.written.map (·.2) = w.pipeline.world.audit
  once : (w.pipeline.world.transactions.map (·.id)).Nodup
  apart : ∀ i j c c', w.pipeline.callOf i = some c → w.pipeline.callOf j = some c' → c.id = c'.id → i = j
  active : ∀ i pc c, w.pipeline.threads i = some pc → pc.job = some (.processImpl c) →
    pc.Stand (w.recordsOf c.id) (w.entriesOf c.id)
  ended : ∀ p ∈ w.exits, (Pc.finished p.2).Stand (w.recordsOf p.1.id) (w.entriesOf p.1.id) ∧
    ∀ i c, w.pipeline.callOf i = some c → c.id ≠ p.1.id

structure Unused (w : Watched ι) (x : TransactionId) : Prop where
  fresh : w.pipeline.FreshId x
  active : ∀ i c, w.pipeline.callOf i = some c → c.id ≠ x
  records : w.recordsOf x = []
  entries : w.entriesOf x = []
  exits : ∀ p ∈ w.exits, p.1.id ≠ x

theorem next_pipeline (h : w.next label = some w') : w.pipeline.next label = some w'.pipeline := by
  obtain ⟨s', hs, rfl⟩ := Option.map_eq_some_iff.mp h
  exact hs

theorem map_pipeline (w : Watched ι) (label : Label ι) : (w.next label).map (·.pipeline) = w.pipeline.next label := by
  rw [next, Option.map_map]
  exact Option.map_id'

theorem exists_run {world : World} {labels : List (Label ι)} {s : State ι} (h : (State.init world).run labels = some s) :
    ∃ w : Watched ι, (init world).run labels = some w ∧ w.pipeline = s := by
  apply Option.map_eq_some_iff.mp
  rw [run, Runs.run_map map_pipeline]
  exact h

theorem next_written (h : w.next label = some w') (ha : w'.pipeline.world.audit = w.pipeline.world.audit) :
    w'.written = w.written := by
  obtain ⟨s', hs, rfl⟩ := Option.map_eq_some_iff.mp h
  change w.written ++ List.flatMap _ _ = _
  change s'.world.audit = _ at ha
  rw [ha, List.drop_length]
  simp

theorem next_writes (h : w.next label = some w') {c : Call} (hc : w.pipeline.callOf label.thread = some c)
    {entry : AuditEntry} (ha : w'.pipeline.world.audit = w.pipeline.world.audit ++ [entry]) :
    w'.written = w.written ++ [(c, entry)] := by
  obtain ⟨s', hs, rfl⟩ := Option.map_eq_some_iff.mp h
  change w.written ++ List.flatMap _ _ = _
  change s'.world.audit = _ at ha
  rw [ha, hc, List.drop_left]
  rfl

theorem mem_exits (h : w.next label = some w') {p : Call × Exit} (hp : p ∈ w'.exits) :
    p ∈ w.exits ∨ w.pipeline.callOf label.thread = some p.1 ∧
      w'.pipeline.threads label.thread = some (.finished p.2) := by
  obtain ⟨s', hs, rfl⟩ := Option.map_eq_some_iff.mp h
  rcases List.mem_append.mp hp with hp | hp
  · exact .inl hp
  · right
    obtain ⟨c, hc, hp⟩ := List.mem_flatMap.mp hp
    obtain ⟨exit, hexit, rfl⟩ := List.mem_map.mp hp
    exact ⟨Option.mem_toList.mp hc, State.exitOf_eq_some (Option.mem_toList.mp hexit)⟩

omit [DecidableEq ι] in
theorem recordsOf_eq (ht : w'.pipeline.world.transactions = w.pipeline.world.transactions) :
    w'.recordsOf x = w.recordsOf x := by
  rw [recordsOf, ht, recordsOf]

omit [DecidableEq ι] in
theorem entriesOf_eq (hw : w'.written = w.written) : w'.entriesOf x = w.entriesOf x := by
  rw [entriesOf, hw, entriesOf]

theorem Accounted.others (h : w.Accounted) (hf : label.fault = none) (hn : w.next label = some w')
    (hx : ∀ c, w.pipeline.callOf label.thread = some c → c.id ≠ x) :
    w'.recordsOf x = w.recordsOf x ∧ w'.entriesOf x = w.entriesOf x := by
  have hs := next_pipeline hn
  cases label with
  | begin i job =>
    obtain ⟨_, hs⟩ := State.start_eq_some hs
    exact ⟨recordsOf_eq (by rw [hs]; rfl), entriesOf_eq (next_written hn (by rw [hs]; rfl))⟩
  | act i now fault =>
    obtain rfl : fault = none := hf
    cases State.step_books hs with
    | keep hi hm hjob hstand ht ha => exact ⟨recordsOf_eq ht, entriesOf_eq (next_written hn ha)⟩
    | @record held c record hi hm ht ha =>
      refine ⟨?_, entriesOf_eq (next_written hn ha)⟩
      obtain ⟨now', hrecord⟩ := h.delivered.own i _ c record hi rfl
      have hid : record.id = c.id := by rw [hrecord]; rfl
      have hne : c.id ≠ x := hx c (State.callOf_eq_some.mpr ⟨_, hi, rfl⟩)
      rw [recordsOf, ht, List.filter_append, List.filter_singleton, recordsOf]
      simp [hid, hne]
    | @write held entry note hi hm ht ha =>
      refine ⟨recordsOf_eq ht, ?_⟩
      have hc : w.pipeline.callOf i = some note.call := State.callOf_eq_some.mpr ⟨_, hi, rfl⟩
      rw [entriesOf, next_writes hn hc ha, List.filter_append, List.filter_singleton, entriesOf]
      simp [hx note.call hc]

theorem Accounted.move (h : w.Accounted) {now : TimePoint} (hn : w.next (.act i now none) = some w') {pc pc' : Pc}
    (hi : w.pipeline.threads i = some pc) (hm : State.Moves w.pipeline w'.pipeline i pc')
    (hjob : ∀ job, pc'.job = some job → pc.job = some job)
    (htrail : w'.written.map (·.2) = w'.pipeline.world.audit)
    (honce : (w'.pipeline.world.transactions.map (·.id)).Nodup)
    (hown : ∀ c, pc.job = some (.processImpl c) → pc'.Stand (w'.recordsOf c.id) (w'.entriesOf c.id)) :
    w'.Accounted := by
  have hs : w.pipeline.step i now none = some w'.pipeline := next_pipeline hn
  have hback {j c} (hj : w'.pipeline.callOf j = some c) : w.pipeline.callOf j = some c := hm.callOf hi hjob hj
  have hothers {x : TransactionId} (hx : ∀ c, w.pipeline.callOf i = some c → c.id ≠ x) :
      w'.recordsOf x = w.recordsOf x ∧ w'.entriesOf x = w.entriesOf x := by
    apply h.others _ hn hx
    rfl
  refine ⟨h.tracked.step hs, h.delivered.step h.tracked hs, htrail, honce,
    fun j k c c' hj hk => h.apart j k c c' (hback hj) (hback hk), fun j pcj c hj hc => ?_, fun p hp => ?_⟩
  · rcases hm.cases hj with ⟨rfl, rfl⟩ | ⟨hji, hj⟩
    · exact hown c (hjob _ hc)
    · obtain ⟨hr, he⟩ := hothers (x := c.id) fun c' hc' hid =>
        hji (h.apart i j c' c hc' (State.callOf_eq_some.mpr ⟨pcj, hj, hc⟩) hid).symm
      rw [hr, he]
      exact h.active j pcj c hj hc
  · rcases mem_exits hn hp with hp | ⟨hc, hexit⟩
    · obtain ⟨hstand, hnot⟩ := h.ended p hp
      obtain ⟨hr, he⟩ := hothers (hnot i)
      rw [hr, he]
      exact ⟨hstand, fun j c hj => hnot j c (hback hj)⟩
    · obtain ⟨pc₁, hi₁, hjob₁⟩ := State.callOf_eq_some.mp hc
      obtain rfl := Option.some.inj (hi.symm.trans hi₁)
      obtain rfl : pc' = .finished p.2 := Option.some.inj (hm.self.symm.trans hexit)
      refine ⟨hown p.1 hjob₁, fun j c hj hid => ?_⟩
      obtain rfl := h.apart j i c p.1 (hback hj) hc hid
      obtain ⟨pcj, hj, hjob₂⟩ := State.callOf_eq_some.mp hj
      obtain rfl := Option.some.inj (hexit.symm.trans hj)
      cases hjob₂

theorem Accounted.act (h : w.Accounted) {now : TimePoint} (hn : w.next (.act i now none) = some w') :
    w'.Accounted := by
  cases State.step_books (next_pipeline hn : w.pipeline.step i now none = some w'.pipeline) with
  | keep hi hm hjob hstand ht ha =>
    have hw := next_written hn ha
    apply h.move hn hi hm hjob
    · rw [hw, ha, h.trail]
    · rw [ht]
      exact h.once
    · intro c hc
      rw [recordsOf_eq ht, entriesOf_eq hw]
      exact hstand c _ _ hc (h.active i _ c hi hc)
  | @record held c record hi hm ht ha =>
    have hw := next_written hn ha
    obtain ⟨now', hrecord⟩ := h.delivered.own i _ c record hi rfl
    have hid : record.id = c.id := by rw [hrecord]; rfl
    obtain ⟨hrecords, hentries⟩ := h.active i _ c hi rfl
    apply h.move hn hi hm fun _ hj => hj
    · rw [hw, ha, h.trail]
    · rw [ht, List.map_append, List.map_singleton]
      refine List.nodup_append.mpr ⟨h.once, List.pairwise_singleton _ _, ?_⟩
      rintro _ hx _ hy rfl
      obtain ⟨r, hr, hrid⟩ := List.mem_map.mp hx
      have hmem : r ∈ w.recordsOf c.id := by
        apply List.mem_filter.mpr
        refine ⟨hr, ?_⟩
        rw [hrid, List.mem_singleton.mp hy, hid]
        simp
      rw [hrecords] at hmem
      cases hmem
    · intro c' hc'
      obtain rfl : c = c' := Job.processImpl.inj (Option.some.inj hc')
      rw [entriesOf_eq hw, hentries]
      have hafter : w'.recordsOf c.id = [record] := by
        rw [recordsOf, ht, List.filter_append]
        change w.recordsOf c.id ++ _ = _
        rw [hrecords]
        simp [hid]
      rw [hafter]
      exact ⟨rfl, rfl, rfl⟩
  | @write held entry note hi hm ht ha =>
    obtain ⟨haction, hrecords, hentries⟩ := h.active i _ note.call hi rfl
    have hw := next_writes hn (State.callOf_eq_some.mpr ⟨_, hi, rfl⟩) ha
    apply h.move hn hi hm fun _ hj => hj
    · rw [hw, ha, List.map_append, h.trail]
      rfl
    · rw [ht]
      exact h.once
    · intro c' hc'
      obtain rfl : note.call = c' := Job.processImpl.inj (Option.some.inj hc')
      have hafter : w'.entriesOf note.call.id = [entry] := by
        rw [entriesOf, hw, List.filter_append, List.map_append]
        change w.entriesOf note.call.id ++ _ = _
        rw [hentries]
        simp
      rw [recordsOf_eq ht, hafter]
      exact ⟨hrecords, entry, rfl, haction⟩

theorem Accounted.begin (h : w.Accounted) {job : Job} (hu : ∀ c, job = .processImpl c → w.Unused c.id)
    (hn : w.next (.begin i job) = some w') : w'.Accounted := by
  have hs : w.pipeline.start i job = some w'.pipeline := next_pipeline hn
  have ht : w'.pipeline.Tracked := h.tracked.start (fun c hc => (hu c hc).fresh) hs
  have hd : w'.pipeline.Delivered := h.delivered.start hs
  obtain ⟨hidle, hgoto⟩ := State.start_eq_some hs
  have hm : State.Moves w.pipeline w'.pipeline i job.entry := by
    rw [hgoto]
    rfl
  have hworld : w'.pipeline.world = w.pipeline.world := by rw [hgoto]; rfl
  have hw := next_written hn (by rw [hworld])
  have hrecords (x : TransactionId) : w'.recordsOf x = w.recordsOf x := recordsOf_eq (by rw [hworld])
  have hentries (x : TransactionId) : w'.entriesOf x = w.entriesOf x := entriesOf_eq hw
  have hcases {j c} (hj : w'.pipeline.callOf j = some c) :
      (j = i ∧ job = .processImpl c) ∨ w.pipeline.callOf j = some c := by
    obtain ⟨pcj, hj, hc⟩ := State.callOf_eq_some.mp hj
    rcases hm.cases hj with ⟨rfl, rfl⟩ | ⟨_, hj⟩
    · rw [job.entry_job] at hc
      exact .inl ⟨rfl, Option.some.inj hc⟩
    · exact .inr (State.callOf_eq_some.mpr ⟨pcj, hj, hc⟩)
  refine ⟨ht, hd, by rw [hw, hworld, h.trail], by rw [hworld]; exact h.once, ?_, ?_, ?_⟩
  · intro j k c c' hj hk hid
    rcases hcases hj with ⟨rfl, hc⟩ | hj <;> rcases hcases hk with ⟨rfl, hc'⟩ | hk
    · rfl
    · exact absurd hid.symm ((hu c hc).active k c' hk)
    · exact absurd hid ((hu c' hc').active j c hj)
    · exact h.apart j k c c' hj hk hid
  · intro j pcj c hj hc
    rw [hrecords, hentries]
    rcases hm.cases hj with ⟨rfl, rfl⟩ | ⟨_, hj⟩
    · rw [job.entry_job] at hc
      obtain rfl := Option.some.inj hc
      rw [(hu c rfl).records, (hu c rfl).entries]
      exact Job.entry_stand
    · exact h.active j pcj c hj hc
  · intro p hp
    rcases mem_exits hn hp with hp | ⟨hc, _⟩
    · obtain ⟨hstand, hnot⟩ := h.ended p hp
      rw [hrecords, hentries]
      refine ⟨hstand, fun j c hj => ?_⟩
      rcases hcases hj with ⟨_, hc⟩ | hj
      · exact fun hid => (hu c hc).exits p hp hid.symm
      · exact hnot j c hj
    · rw [Label.thread, hidle.callOf] at hc
      cases hc

theorem Accounted.next (h : w.Accounted) (hu : ∀ x, label.callId = some x → w.Unused x)
    (hf : label.fault = none) (hn : w.next label = some w') : w'.Accounted := by
  cases label with
  | begin i job =>
    refine h.begin (fun c hc => ?_) hn
    subst hc
    exact hu c.id rfl
  | act i now fault =>
    obtain rfl : fault = none := hf
    exact h.act hn

theorem Unused.next (hx : w.Unused x) (h : w.Accounted) (hne : label.callId ≠ some x) (hf : label.fault = none)
    (hn : w.next label = some w') : w'.Unused x := by
  have hs := next_pipeline hn
  obtain ⟨hrecords, hentries⟩ := h.others hf hn (hx.active label.thread)
  refine ⟨hx.fresh.next h.tracked hne hs, fun j c hj => ?_, by rw [hrecords, hx.records], by rw [hentries, hx.entries],
    fun p hp => ?_⟩
  · cases label with
    | begin i job =>
      obtain ⟨_, hgoto⟩ := State.start_eq_some hs
      have hm : State.Moves w.pipeline w'.pipeline i job.entry := by
        rw [hgoto]
        rfl
      obtain ⟨pcj, hj, hc⟩ := State.callOf_eq_some.mp hj
      rcases hm.cases hj with ⟨rfl, rfl⟩ | ⟨_, hj⟩
      · rw [job.entry_job] at hc
        obtain rfl := Option.some.inj hc
        exact fun hid => hne (congrArg some hid)
      · exact hx.active j c (State.callOf_eq_some.mpr ⟨pcj, hj, hc⟩)
    | act i now fault =>
      obtain ⟨pc, pc', hi, hm, hjob⟩ := State.step_job hs
      exact hx.active j c (hm.callOf hi hjob hj)
  · rcases mem_exits hn hp with hp | ⟨hc, _⟩
    · exact hx.exits p hp
    · exact hx.active _ p.1 hc

omit [DecidableEq ι] in
theorem init_accounted {world : World} (ht : world.transactions = []) (ha : world.audit = []) :
    Accounted (init world : Watched ι) where
  tracked := State.tracked_init world
  delivered := State.delivered_init world
  trail := ha.symm
  once := by
    change (world.transactions.map _).Nodup
    rw [ht]
    exact List.nodup_nil
  apart := by rintro i j c c' ⟨⟩
  active := by rintro i pc c ⟨⟩
  ended := by rintro p ⟨⟩

omit [DecidableEq ι] in
theorem init_unused {world : World} (hw : world.wal.entries = []) (ht : world.transactions = []) (x : TransactionId) :
    Unused (init world : Watched ι) x where
  fresh := ⟨by simp [init, State.init, hw], by simp [init, State.init]⟩
  active := by rintro i c ⟨⟩
  records := by simp [recordsOf, init, State.init, ht]
  entries := rfl
  exits := by rintro p ⟨⟩

end Watched

end BankManagement
