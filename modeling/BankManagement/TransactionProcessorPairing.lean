import BankManagement.TransactionProcessorIds

namespace BankManagement

open Wal Codec

structure Tagged {α : Type} (base : ℕ) (tags : List ℕ) (l : List α) (R : ℕ → α → Prop) : Prop where
  length : base + tags.length = l.length
  related : ∀ (j : ℕ) n, tags[j]? = some n → ∃ a, l[base + j]? = some a ∧ R n a

theorem Tagged.append {α : Type} {base : ℕ} {tags : List ℕ} {l : List α} {R : ℕ → α → Prop} (h : Tagged base tags l R)
    {n : ℕ} {a : α} (hr : R n a) : Tagged base (tags ++ [n]) (l ++ [a]) R := by
  have hlen := h.length
  refine ⟨by simp only [List.length_append, List.length_singleton]; omega, fun j m hj => ?_⟩
  rcases State.getElem?_append_single hj with hj | ⟨rfl, rfl⟩
  · obtain ⟨b, hb, hrb⟩ := h.related j m hj
    exact ⟨b, by rw [List.getElem?_append_left (List.getElem?_eq_some_iff.mp hb).1, hb], hrb⟩
  · exact ⟨a, by rw [hlen, List.getElem?_concat_length], hr⟩

theorem Tagged.imp {α : Type} {base : ℕ} {tags : List ℕ} {l l' : List α} {R R' : ℕ → α → Prop} (h : Tagged base tags l R)
    (hlen : l'.length = l.length)
    (hr : ∀ (j : ℕ) n a, l[j]? = some a → R n a → ∃ a', l'[j]? = some a' ∧ R' n a') : Tagged base tags l' R' := by
  refine ⟨by rw [hlen]; exact h.length, fun j n hj => ?_⟩
  obtain ⟨a, ha, hra⟩ := h.related j n hj
  exact hr _ n a ha hra

def Submission.ticket? : Submission → Option Ticket
  | .fetched _ _ => none
  | .reserved ticket => some ticket

namespace TransactionProcessor

variable {ι : Type}

def outstanding (p : TransactionProcessor ι) : List Ticket :=
  p.taking.map (·.2) ++ p.queue ++ (p.submitting.bind Submission.ticket?).toList

def EntryOf (p : TransactionProcessor ι) (n : ℕ) (e : Entry) : Prop :=
  ∃ (c : Call) (now : TimePoint), p.handed[n]? = some (c.txn, c.id) ∧ e.id = c.id ∧ e.payload = serialize (c.record now)

def RecordOf (p : TransactionProcessor ι) (n : ℕ) (r : TransactionRecord) : Prop :=
  ∃ (c : Call) (now : TimePoint), p.handed[n]? = some (c.txn, c.id) ∧ r = { c.record now with state := .committed }

structure Paired (world : World) (p : TransactionProcessor ι) : Prop where
  lined : List.Forall₂ (fun ticket id => p.handed[ticket.number]? = some (ticket.txn, id)) p.outstanding p.reserved
  fetched : ∀ ticket id, p.submitting = some (.fetched ticket id) →
    p.handed[ticket.number]? = some (ticket.txn, id)
  calls : ∀ i pc c, p.pipeline.threads i = some pc → pc.job = some (.processImpl c) →
    p.handed[p.working i]? = some (c.txn, c.id)
  entries : Tagged world.wal.entries.length p.journaled p.pipeline.world.wal.entries p.EntryOf
  records : Tagged world.transactions.length p.recorded p.pipeline.world.transactions p.RecordOf
  openedEntries : ∀ (j : ℕ) e, j < world.wal.entries.length → p.pipeline.world.wal.entries[j]? = some e →
    ∃ e' ∈ world.wal.entries, e'.id = e.id
  openedRecords : ∀ (j : ℕ) r, j < world.transactions.length → p.pipeline.world.transactions[j]? = some r →
    r ∈ world.transactions

variable {world : World} {p p' : TransactionProcessor ι}

theorem paired_create (world : World) : Paired world (create world : TransactionProcessor ι) where
  lined := List.Forall₂.nil
  fetched := by simp [create]
  calls := by simp [create, State.init]
  entries := ⟨rfl, by simp [create]⟩
  records := ⟨rfl, by simp [create]⟩
  openedEntries := fun j e _ he => ⟨e, List.mem_of_getElem? he, rfl⟩
  openedRecords := fun j r _ hr => List.mem_of_getElem? hr

theorem handed_handOut {n : ℕ} {q : Transaction × TransactionId} (t : Transaction) (h : p.handed[n]? = some q) :
    (p.handOut t).handed[n]? = some q := by
  change (p.handed ++ _)[n]? = _
  rw [List.getElem?_append_left (List.getElem?_eq_some_iff.mp h).1, h]

theorem Paired.handOut (hp : Paired world p) (t : Transaction) : Paired world (p.handOut t) where
  lined := hp.lined.imp fun _ _ h => handed_handOut t h
  fetched := fun ticket id h => handed_handOut t (hp.fetched ticket id h)
  calls := fun i pc c hi hj => handed_handOut t (hp.calls i pc c hi hj)
  entries := hp.entries.imp rfl fun _ _ e he ⟨c, now, hc, h⟩ => ⟨e, he, c, now, handed_handOut t hc, h⟩
  records := hp.records.imp rfl fun _ _ r hr ⟨c, now, hc, h⟩ => ⟨r, hr, c, now, handed_handOut t hc, h⟩
  openedEntries := hp.openedEntries
  openedRecords := hp.openedRecords

variable [DecidableEq ι]

theorem Paired.call (hp : Paired world p) {i : ι} {number : ℕ} {c : Call}
    (hc : p.handed[number]? = some (c.txn, c.id)) (h : p.call i number c = some p') : Paired world p' := by
  obtain ⟨s, hs, rfl⟩ := Option.map_eq_some_iff.mp h
  obtain ⟨_, rfl⟩ := State.start_eq_some hs
  refine { hp with calls := fun j pc c' hj hjob => ?_ }
  have hm : State.Moves p.pipeline (p.pipeline.goto i (Job.processImpl c).entry) i (Job.processImpl c).entry := rfl
  change p.handed[Function.update p.working i number j]? = _
  rcases hm.cases hj with ⟨rfl, rfl⟩ | ⟨hji, hj⟩
  · rw [Job.entry_job] at hjob
    obtain rfl := Job.processImpl.inj (Option.some.inj hjob)
    rw [Function.update_self, hc]
  · rw [Function.update_of_ne hji, hp.calls j pc c' hj hjob]

theorem Paired.act (hp : Paired world p) (hn : Numbered world p) {i : ι} {now : TimePoint} {fault : Option Exn}
    (h : p.next (.act i now fault) = some p') : Paired world p' := by
  obtain ⟨s, hs, rfl⟩ := Option.map_eq_some_iff.mp h
  have hcalls : ∀ j pc c, s.threads j = some pc → pc.job = some (.processImpl c) →
      p.handed[p.working j]? = some (c.txn, c.id) := by
    intro j pcj c hj hjob
    obtain ⟨pc, pc', hi, hm, hcont⟩ := State.step_job hs
    rcases hm.cases hj with ⟨rfl, rfl⟩ | ⟨_, hj⟩
    · exact hp.calls _ pc c hi (hcont _ hjob)
    · exact hp.calls j pcj c hj hjob
  have hentries : Tagged world.wal.entries.length
        (p.journaled ++ List.replicate (s.world.wal.size - p.pipeline.world.wal.size) (p.working i))
        s.world.wal.entries p.EntryOf ∧
      ∀ (j : ℕ) e, j < world.wal.entries.length → s.world.wal.entries[j]? = some e →
        ∃ e' ∈ world.wal.entries, e'.id = e.id := by
    rcases (hn.tracked.step_journal hs).lines with ⟨hlen, hback⟩ | ⟨pc, c, now', e, hi, hjob, hid, hpayload, happ⟩
    · rw [WalLogger.size, WalLogger.size, hlen, Nat.sub_self, List.replicate_zero, List.append_nil]
      refine ⟨hp.entries.imp hlen fun j n e he hof => ?_, fun j e hj he => ?_⟩
      · have hlt : j < s.world.wal.entries.length := hlen ▸ (List.getElem?_eq_some_iff.mp he).1
        obtain ⟨x, hx, hid, hpayload⟩ := hback j _ (List.getElem?_eq_getElem hlt)
        obtain rfl := Option.some.inj (he.symm.trans hx)
        obtain ⟨c, now', hc, hcid, hcp⟩ := hof
        exact ⟨_, List.getElem?_eq_getElem hlt, c, now', hc, hid ▸ hcid, hpayload ▸ hcp⟩
      · obtain ⟨x, hx, hid, _⟩ := hback j e he
        obtain ⟨e', he', hid'⟩ := hp.openedEntries j x hj hx
        exact ⟨e', he', hid'.trans hid⟩
    · have hone : s.world.wal.size - p.pipeline.world.wal.size = 1 := by
        rw [WalLogger.size, WalLogger.size, happ, List.length_append, List.length_singleton]
        omega
      rw [hone, happ]
      refine ⟨hp.entries.append ⟨c, now', hp.calls i pc c hi hjob, hid, hpayload⟩, fun j x hj hx => ?_⟩
      rcases State.getElem?_append_single hx with hx | ⟨rfl, _⟩
      · exact hp.openedEntries j x hj hx
      · have hlen := hp.entries.length
        omega
  have hrecords : Tagged world.transactions.length
        (p.recorded ++ List.replicate (s.world.transactions.length - p.pipeline.world.transactions.length) (p.working i))
        s.world.transactions p.RecordOf ∧
      ∀ (j : ℕ) r, j < world.transactions.length → s.world.transactions[j]? = some r → r ∈ world.transactions := by
    rcases hn.delivered.step_transactions hs with hsame | ⟨pc, c, now', hi, hjob, happ⟩
    · rw [hsame, Nat.sub_self, List.replicate_zero, List.append_nil]
      exact ⟨hp.records, hp.openedRecords⟩
    · have hone : s.world.transactions.length - p.pipeline.world.transactions.length = 1 := by
        rw [happ, List.length_append, List.length_singleton]
        omega
      rw [hone, happ]
      refine ⟨hp.records.append ⟨c, now', hp.calls i pc c hi hjob, rfl⟩, fun j x hj hx => ?_⟩
      rcases State.getElem?_append_single hx with hx | ⟨rfl, _⟩
      · exact hp.openedRecords j x hj hx
      · have hlen := hp.records.length
        omega
  exact ⟨hp.lined, hp.fetched, hcalls, hentries.1, hrecords.1, hentries.2, hrecords.2⟩

def TakesInOrder (p : TransactionProcessor ι) : Event ι → Prop
  | .take i => p.taking.head?.map (·.1) = some i
  | _ => True

instance (p : TransactionProcessor ι) : (event : Event ι) → Decidable (p.TakesInOrder event)
  | .take i => inferInstanceAs (Decidable (_ = some i))
  | .start | .stop | .submit _ | .reserve | .enqueue | .processOne _ _ | .pop _ | .act _ _ _ => isTrue trivial

theorem Paired.take (hp : Paired world p) {i : ι} (ho : p.TakesInOrder (.take i))
    (h : p.next (.take i) = some p') : Paired world p' := by
  have hlined := hp.lined
  simp only [TakesInOrder] at ho
  cases htaking : p.taking with
  | nil =>
    rw [htaking] at ho
    cases ho
  | cons first rest =>
    obtain ⟨j, ticket⟩ := first
    rw [htaking] at ho
    obtain rfl := Option.some.inj ho
    rw [outstanding, htaking, List.map_cons, List.cons_append, List.cons_append] at hlined
    cases hreserved : p.reserved with
    | nil =>
      rw [hreserved] at hlined
      cases hlined
    | cons id reserved =>
      rw [hreserved] at hlined
      obtain ⟨hhead, hrest⟩ := List.forall₂_cons.mp hlined
      simp only [TransactionProcessor.next, htaking, List.find?_cons, List.eraseP_cons, decide_true, cond_true,
        TransactionProcessor.takeReservedId, hreserved] at h
      have hdropped : Paired world { p with taking := rest, reserved } := { hp with lined := hrest }
      exact hdropped.call (c := ⟨ticket.txn, id⟩) hhead h

theorem Paired.next (hp : Paired world p) (hn : Numbered world p) {event : Event ι} (ho : p.TakesInOrder event)
    (h : p.next event = some p') : Paired world p' := by
  cases event with
  | start =>
    simp only [TransactionProcessor.next] at h
    split_ifs at h
    obtain rfl := Option.some.inj h
    exact { hp with }
  | stop =>
    simp only [TransactionProcessor.next] at h
    split_ifs at h
    obtain rfl := Option.some.inj h
    exact { hp with }
  | submit txn =>
    simp only [TransactionProcessor.next] at h
    split_ifs at h with hidle haccepting
    · obtain rfl := Option.some.inj h
      have hh := hp.handOut txn
      refine { hh with lined := ?_, fetched := fun ticket id hf => ?_ }
      · have hlined := hh.lined
        have hout : (p.handOut txn).outstanding = p.taking.map (·.2) ++ p.queue := by
          simp [outstanding, TransactionProcessor.handOut, hidle]
        rw [hout] at hlined
        simpa [outstanding, TransactionProcessor.handOut, Submission.ticket?] using hlined
      · obtain ⟨rfl, rfl⟩ := Submission.fetched.inj (Option.some.inj hf)
        exact List.getElem?_concat_length
    · obtain rfl := Option.some.inj h
      exact hp
  | reserve =>
    simp only [TransactionProcessor.next] at h
    split at h
    · rename_i ticket id hsub
      obtain rfl := Option.some.inj h
      have hlined := hp.lined
      have hout : p.outstanding = p.taking.map (·.2) ++ p.queue := by
        simp [outstanding, hsub, Submission.ticket?]
      rw [hout] at hlined
      refine { hp with lined := ?_, fetched := fun ticket' id' hf => (by cases hf) }
      exact List.rel_append hlined (.cons (hp.fetched ticket id hsub) .nil)
    · cases h
  | enqueue =>
    simp only [TransactionProcessor.next] at h
    split at h
    · rename_i ticket hsub
      obtain rfl := Option.some.inj h
      have hlined := hp.lined
      have hout : p.outstanding = p.taking.map (·.2) ++ (p.queue ++ [ticket]) := by
        simp [outstanding, hsub, Submission.ticket?]
      rw [hout] at hlined
      refine { hp with lined := ?_, fetched := fun ticket' id' hf => (by cases hf) }
      simpa [outstanding] using hlined
    · cases h
  | processOne i txn =>
    simp only [TransactionProcessor.next] at h
    split_ifs at h
    exact (hp.handOut txn).call (c := ⟨txn, p.nextId⟩) List.getElem?_concat_length h
  | pop i =>
    simp only [TransactionProcessor.next] at h
    split at h
    · cases h
    · rename_i ticket queue hqueue
      split_ifs at h
      obtain rfl := Option.some.inj h
      have hlined := hp.lined
      rw [outstanding, hqueue] at hlined
      refine { hp with lined := ?_ }
      simpa [outstanding] using hlined
  | take i => exact hp.take ho h
  | act i now fault => exact hp.act hn h

/-- What is promised of an id after it was handed out for a transaction: the records written for
the transaction carry it, and no others. -/
structure IdsStick (world : World) (p : TransactionProcessor ι) : Prop where
  entries : ∀ (n j : ℕ) t x, p.handed[n]? = some (t, x) → p.journaled[j]? = some n →
    ∃ e now, p.pipeline.world.wal.entries[world.wal.entries.length + j]? = some e ∧ e.id = x ∧
      e.payload = serialize (Call.record ⟨t, x⟩ now)
  records : ∀ (n j : ℕ) t x, p.handed[n]? = some (t, x) → p.recorded[j]? = some n →
    ∃ now, p.pipeline.world.transactions[world.transactions.length + j]? =
      some { Call.record ⟨t, x⟩ now with state := .committed }
  onlyEntries : ∀ (n j : ℕ) t x e, p.handed[n]? = some (t, x) → p.pipeline.world.wal.entries[j]? = some e →
    e.id = x → world.wal.entries.length ≤ j ∧ p.journaled[j - world.wal.entries.length]? = some n
  onlyRecords : ∀ (n j : ℕ) t x r, p.handed[n]? = some (t, x) → p.pipeline.world.transactions[j]? = some r →
    r.id = x → world.transactions.length ≤ j ∧ p.recorded[j - world.transactions.length]? = some n

omit [DecidableEq ι] in
theorem Numbered.number_unique (hn : Numbered world p) {m n : ℕ} {t t' : Transaction} {x : TransactionId}
    (hm : p.handed[m]? = some (t, x)) (hn' : p.handed[n]? = some (t', x)) : m = n := by
  have hmx := (hn.numbers m t x hm).2
  have hnx := (hn.numbers n t' x hn').2
  omega

theorem Tagged.ticket {α : Type} {base : ℕ} {tags : List ℕ} {l : List α} {R : ℕ → α → Prop} (h : Tagged base tags l R)
    {j : ℕ} {a : α} (ha : l[j]? = some a) (hj : base ≤ j) : ∃ n, tags[j - base]? = some n ∧ R n a := by
  have hlen := h.length
  have hlt := (List.getElem?_eq_some_iff.mp ha).1
  have hget := List.getElem?_eq_getElem (show j - base < tags.length by omega)
  obtain ⟨b, hb, hr⟩ := h.related (j - base) _ hget
  rw [Nat.add_sub_cancel' hj, ha] at hb
  obtain rfl := Option.some.inj hb
  exact ⟨_, hget, hr⟩

omit [DecidableEq ι] in
theorem Paired.idsStick (hp : Paired world p) (hn : Numbered world p) : IdsStick world p := by
  have hids := hn.idsFresh
  have hmem {n : ℕ} {t : Transaction} {x : TransactionId} (h : p.handed[n]? = some (t, x)) : x ∈ p.ids :=
    List.mem_map_of_mem (List.mem_of_getElem? h)
  constructor
  · intro n j t x hh hj
    obtain ⟨e, he, c, now, hc, hid, hpayload⟩ := hp.entries.related j n hj
    obtain ⟨rfl, rfl⟩ := Prod.mk.inj (Option.some.inj (hc.symm.trans hh))
    exact ⟨e, now, he, hid, hpayload⟩
  · intro n j t x hh hj
    obtain ⟨r, hr, c, now, hc, rfl⟩ := hp.records.related j n hj
    obtain ⟨rfl, rfl⟩ := Prod.mk.inj (Option.some.inj (hc.symm.trans hh))
    exact ⟨now, hr⟩
  · rintro n j t x e hh he rfl
    have hj : world.wal.entries.length ≤ j := by
      by_contra hlt
      obtain ⟨e', he', hid⟩ := hp.openedEntries j e (by omega) he
      exact hn.new e.id (hmem hh) e' he' hid
    obtain ⟨m, hm, c, now, hc, hid, _⟩ := Tagged.ticket hp.entries he hj
    rw [← hid] at hc
    rw [← hn.number_unique hc hh]
    exact ⟨hj, hm⟩
  · rintro n j t x r hh hr rfl
    have hj : world.transactions.length ≤ j := by
      by_contra hlt
      exact (hids.new r.id (hmem hh)).1 r (hp.openedRecords j r (by omega) hr) rfl
    obtain ⟨m, hm, c, now, hc, rfl⟩ := Tagged.ticket hp.records hr hj
    rw [← hn.number_unique hc hh]
    exact ⟨hj, hm⟩

/-- The steps that keep each id with its transaction: consumers take ids in the order of their pops,
and the counter is sound when it advances. -/
def KeepsPairs (p : TransactionProcessor ι) (event : Event ι) : Prop := p.TakesInOrder event ∧ p.HandsOutSound event

instance (p : TransactionProcessor ι) (event : Event ι) : Decidable (p.KeepsPairs event) :=
  inferInstanceAs (Decidable (_ ∧ _))

theorem run_idsStick {events : List (Event ι)} (h : (create world).run events = some p)
    (hs : Runs.Along TransactionProcessor.next KeepsPairs (create world) events) : IdsStick world p := by
  have hstep {q q' : TransactionProcessor ι} {event : Event ι} (hq : Numbered world q ∧ Paired world q)
      (hk : q.KeepsPairs event) (hnext : q.next event = some q') : Numbered world q' ∧ Paired world q' :=
    ⟨hq.1.next hk.2 hnext, hq.2.next hq.1 hk.1 hnext⟩
  obtain ⟨hn, hp⟩ := Runs.run_preserves (fun hq hk hnext => hstep hq hk hnext)
    ⟨numbered_create world, paired_create world⟩ hs h
  exact hp.idsStick hn

def twoConsumers (first second : Fin 2) : List (Event (Fin 2)) :=
  [.submit (.deposit 7 5), .reserve, .enqueue, .submit (.deposit 7 3), .reserve, .enqueue,
    .pop 0, .pop 1, .take first, .take second] ++
  List.replicate 20 (.act 1 0 none) ++ List.replicate 20 (.act 0 0 none)

theorem twoConsumers_idsStick : ∃ p, (create (State.oneAccountWorld 7)).run (twoConsumers 0 1) = some p ∧
    p.handed.map (·.2) = [1, 2] ∧ p.journaled = [1, 0] ∧ IdsStick (State.oneAccountWorld 7) p := by
  have hrun : ((create (State.oneAccountWorld 7)).run (twoConsumers 0 1)).map
      (fun p => (p.handed.map (·.2), p.journaled)) = some ([1, 2], [1, 0]) := by decide +kernel
  obtain ⟨p, h, hp⟩ := Option.map_eq_some_iff.mp hrun
  obtain ⟨hids, hjournaled⟩ := Prod.mk.inj hp
  exact ⟨p, h, hids, hjournaled, run_idsStick h (by decide +kernel)⟩

theorem twoConsumers_swap : ∃ p, (create (State.oneAccountWorld 7)).run (twoConsumers 1 0) = some p ∧
    ¬ IdsStick (State.oneAccountWorld 7) p := by
  have hrun : ((create (State.oneAccountWorld 7)).run (twoConsumers 1 0)).map
      (fun p => (p.handed, p.recorded, p.pipeline.world.transactions.map (·.id))) =
    some ([(.deposit 7 5, 1), (.deposit 7 3, 2)], [1, 0], [1, 2]) := by decide +kernel
  obtain ⟨p, h, hp⟩ := Option.map_eq_some_iff.mp hrun
  obtain ⟨hhanded, hp⟩ := Prod.mk.inj hp
  obtain ⟨hrecorded, hids⟩ := Prod.mk.inj hp
  refine ⟨p, h, fun hs => ?_⟩
  obtain ⟨now, hr⟩ := hs.records 1 0 _ _ (by rw [hhanded]; rfl) (by rw [hrecorded]; rfl)
  have hid := congrArg (Option.map (·.id)) hr
  rw [← List.getElem?_map, hids] at hid
  cases hid

end TransactionProcessor

end BankManagement
