import BankManagement.AuthService
import BankManagement.Runs
import Mathlib.Data.List.Induction

/-!
The session table over a sequence of calls. Expired entries stay in the table until a `validate` comes
across them; what a call returns does not show whether one has.
-/

namespace BankManagement

namespace SessionManager

/-- The clock is read only for a token in the table. -/
def validate (now : ℕ → TimePoint) (token : Bytes) (m : SessionManager) : Option Session × SessionManager :=
  match m.find token with
  | none => (none, m)
  | some session =>
    if session.expiresAt ≤ now m.readings then
      (none, { m with
        sessions := m.sessions.filter (fun s => decide (s.token ≠ token)), readings := m.readings + 1 })
    else (some session, { m with readings := m.readings + 1 })

end SessionManager

inductive SessionCall
  | create (customerId : CustomerId) (role : Role)
  | validate (token : Bytes)
  | revoke (token : Bytes)

inductive SessionEvent
  | created (time : TimePoint) (session : Session)
  | revoked (token : Bytes)

def SessionEvent.token : SessionEvent → Bytes
  | .created _ session => session.token
  | .revoked token => token

/-- The table, with the time of the last call and a log that the code does not keep. -/
structure SessionTable where
  manager : SessionManager
  clock : TimePoint
  log : List SessionEvent

namespace SessionTable

def opened (tokens : List Bytes) (start : TimePoint) : SessionTable := ⟨⟨[], tokens, 0⟩, start, []⟩

def next (ttl : Int64) (t : SessionTable) (call : TimePoint × SessionCall) : Option SessionTable :=
  if call.1 < t.clock then none
  else match call.2 with
  | .create customerId role => (t.manager.create (fun _ => call.1) ttl customerId role).map fun (session, manager) =>
    { manager, clock := call.1, log := t.log ++ [.created call.1 session] }
  | .validate token =>
    some { t with manager := (t.manager.validate (fun _ => call.1) token).2, clock := call.1 }
  | .revoke token => match t.manager.revoke token with
    | (none, manager) => some { t with manager, clock := call.1 }
    | (some _, manager) => some { manager, clock := call.1, log := t.log ++ [.revoked token] }

def run (ttl : Int64) (t : SessionTable) (calls : List (TimePoint × SessionCall)) : Option SessionTable :=
  Runs.run (next ttl) t calls

end SessionTable

/-- The latest `create` of `token` returned `session`, at `time`, and no `revoke` of it has succeeded since. -/
def Stands (log : List SessionEvent) (token : Bytes) (time : TimePoint) (session : Session) : Prop :=
  ∃ before after, log = before ++ .created time session :: after ∧ session.token = token ∧
    ∀ e ∈ after, e.token ≠ token

def lastEvent (token : Bytes) (log : List SessionEvent) : Option SessionEvent :=
  (log.filter fun e => e.token = token).getLast?

def expected (ttl : Int64) (now : TimePoint) : Option SessionEvent → Option Session
  | some (.created time session) => if now < SessionManager.expiry time ttl then some session else none
  | _ => none

theorem lastEvent_append (token : Bytes) (log : List SessionEvent) (e : SessionEvent) :
    lastEvent token (log ++ [e]) = if e.token = token then some e else lastEvent token log := by
  unfold lastEvent
  rw [List.filter_append]
  split_ifs with h <;> simp [h]

theorem lastEvent_token {token : Bytes} {log : List SessionEvent} {e : SessionEvent}
    (h : lastEvent token log = some e) : e ∈ log ∧ e.token = token := by
  obtain ⟨hmem, htoken⟩ := List.mem_filter.mp (List.mem_of_getLast? h)
  exact ⟨hmem, by simpa using htoken⟩

theorem stands_iff {log : List SessionEvent} {token : Bytes} {time : TimePoint} {session : Session} :
    Stands log token time session ↔ lastEvent token log = some (.created time session) := by
  constructor
  · rintro ⟨before, after, rfl, htoken, hafter⟩
    have hnone : after.filter (fun e => e.token = token) = [] := by
      apply List.filter_eq_nil_iff.mpr
      intro e he
      simpa using hafter e he
    have hcreated : SessionEvent.token (.created time session) = token := htoken
    unfold lastEvent
    rw [List.filter_append, List.filter_cons_of_pos (by simpa using hcreated), hnone, List.getLast?_concat]
  · intro h
    induction log using List.reverseRecOn with
    | nil => cases h
    | append_singleton log e ih =>
      rw [lastEvent_append] at h
      split_ifs at h with he
      · obtain rfl := Option.some.inj h
        exact ⟨log, [], rfl, he, by rintro x ⟨⟩⟩
      · obtain ⟨before, after, rfl, htoken, hafter⟩ := ih h
        refine ⟨before, after ++ [e], by simp, htoken, ?_⟩
        intro x hx
        rcases List.mem_append.mp hx with hx | hx
        · exact hafter x hx
        · rw [List.mem_singleton.mp hx]
          exact he

/-- The lifetime in nanoseconds, and the time at which it ends, are numbers that the clock can hold. -/
def TtlFits (ttl : Int64) (time : TimePoint) : Prop :=
  (-2 ^ 63 ≤ ttl.toInt * 1000000000 ∧ ttl.toInt * 1000000000 < 2 ^ 63) ∧
    -2 ^ 63 ≤ time.toInt + ttl.toInt * 1000000000 ∧ time.toInt + ttl.toInt * 1000000000 < 2 ^ 63

instance (ttl : Int64) (time : TimePoint) : Decidable (TtlFits ttl time) := inferInstanceAs (Decidable (_ ∧ _))

def SessionCall.Fits (ttl : Int64) (call : TimePoint × SessionCall) : Prop :=
  match call.2 with
  | .create _ _ => TtlFits ttl call.1
  | _ => True

instance SessionCall.decidableFits (ttl : Int64) : (call : TimePoint × SessionCall) → Decidable (SessionCall.Fits ttl call)
  | (time, .create _ _) => inferInstanceAs (Decidable (TtlFits ttl time))
  | (_, .validate _) | (_, .revoke _) => isTrue trivial

theorem TtlFits.expiry_toInt {ttl : Int64} {time : TimePoint} (h : TtlFits ttl time) :
    (SessionManager.expiry time ttl).toInt = time.toInt + ttl.toInt * 1000000000 := by
  obtain ⟨⟨hlow, hhigh⟩, hlow', hhigh'⟩ := h
  have hnano : (ttl * 1000000000).toInt = ttl.toInt * 1000000000 := by
    rw [Int64.toInt_mul]
    apply Int.bmod_eq_of_le
    · exact hlow
    · exact hhigh
  rw [SessionManager.expiry, Int64.toInt_add, hnano]
  apply Int.bmod_eq_of_le
  · exact hlow'
  · exact hhigh'

namespace SessionManager

variable {m : SessionManager} {token other : Bytes} {session : Session}

theorem find_token (h : m.find token = some session) : session.token = token := by
  simpa using List.find?_some h

theorem find_erased (sessions : List Session) (token other : Bytes) :
    (sessions.filter fun s => decide (s.token ≠ token)).find? (fun s => s.token == other) =
      if other = token then none else sessions.find? fun s => s.token == other := by
  rw [List.find?_filter]
  split_ifs with h
  · apply List.find?_eq_none.mpr
    intro s _
    simp [h]
  · congr 1
    funext s
    by_cases hs : s.token = other
    · simp [hs, h]
    · simp [hs]

theorem drawToken_new {sessions : List Session} {tokens rest : List Bytes}
    (h : drawToken sessions tokens = some (token, rest)) : ∀ s ∈ sessions, s.token ≠ token := by
  induction tokens with
  | nil => cases h
  | cons candidate tokens ih =>
    unfold drawToken at h
    split_ifs at h with hused
    · exact ih h
    · obtain ⟨rfl, rfl⟩ := Prod.mk.inj (Option.some.inj h)
      simpa using hused

variable {now : ℕ → TimePoint} {ttl : Int64} {customerId : CustomerId} {role : Role} {manager : SessionManager}

theorem validate_eq_some :
    (m.validate now token).1 = some session ↔ m.find token = some session ∧ now m.readings < session.expiresAt := by
  unfold validate
  cases hf : m.find token with
  | none => simp
  | some s =>
    dsimp only
    split_ifs with hle
    · constructor
      · rintro ⟨⟩
      · rintro ⟨⟨⟩, hlt⟩
        exact absurd hle (Int64.not_le.mpr hlt)
    · constructor
      · rintro ⟨⟩
        exact ⟨rfl, Int64.not_le.mp hle⟩
      · rintro ⟨⟨⟩, _⟩
        rfl

theorem validate_sessions (now : ℕ → TimePoint) (token : Bytes) (m : SessionManager) :
    (∀ s, m.find token = some s → now m.readings < s.expiresAt) ∧ (m.validate now token).2.sessions = m.sessions ∨
      ∃ s, m.find token = some s ∧ s.expiresAt ≤ now m.readings ∧
        (m.validate now token).2.sessions = m.sessions.filter fun s => decide (s.token ≠ token) := by
  unfold validate
  cases hf : m.find token with
  | none =>
    left
    refine ⟨?_, rfl⟩
    rintro s ⟨⟩
  | some s =>
    dsimp only
    split_ifs with hle
    · exact .inr ⟨s, rfl, hle, rfl⟩
    · left
      refine ⟨?_, rfl⟩
      rintro _ ⟨⟩
      exact Int64.not_le.mp hle

theorem create_cases (h : m.create now ttl customerId role = some (session, manager)) :
    (∀ s ∈ m.sessions, s.token ≠ session.token) ∧ manager.sessions = m.sessions ++ [session] ∧
      session.state = .authenticated ∧ session.expiresAt = expiry (now m.readings) ttl := by
  obtain ⟨⟨token, tokens⟩, hd, h⟩ := Option.bind_eq_some_iff.mp h
  obtain ⟨rfl, rfl⟩ := Prod.mk.inj (Option.some.inj h)
  exact ⟨drawToken_new hd, rfl, rfl, rfl⟩

theorem find_created (h : m.create now ttl customerId role = some (session, manager)) (other : Bytes) :
    manager.find other = if session.token = other then some session else m.find other := by
  obtain ⟨hnew, hsessions, -, -⟩ := create_cases h
  unfold find
  rw [hsessions, List.find?_append]
  split_ifs with ho
  · have hnone : m.sessions.find? (fun s => s.token == other) = none := by
      apply List.find?_eq_none.mpr
      intro s hs
      simpa [ho] using hnew s hs
    rw [hnone]
    simp [ho]
  · simp [ho]

def purge (p : Session → Bool) (m : SessionManager) : SessionManager := { m with sessions := m.sessions.filter p }

theorem find_purge {p : Session → Bool} (hd : (m.sessions.map Session.token).Nodup) :
    (m.purge p).find token = some session ↔ m.find token = some session ∧ p session = true := by
  have hone {s s' : Session} (hs : s ∈ m.sessions) (hs' : s' ∈ m.sessions) (h : s.token = s'.token) : s = s' :=
    List.inj_on_of_nodup_map hd hs hs' h
  constructor
  · intro h
    obtain ⟨hmem, hp⟩ := List.mem_filter.mp (List.mem_of_find?_eq_some h)
    refine ⟨?_, hp⟩
    cases hf : m.find token with
    | none => exact absurd (by simpa using find_token h) (List.find?_eq_none.mp hf session hmem)
    | some s =>
      apply congrArg
      exact hone (List.mem_of_find?_eq_some hf) hmem ((find_token hf).trans (find_token h).symm)
  · rintro ⟨h, hp⟩
    have hmem := List.mem_of_find?_eq_some h
    cases hf : (m.purge p).find token with
    | none =>
      apply absurd (show (session.token == token) = true by simpa using find_token h)
      exact List.find?_eq_none.mp hf session (List.mem_filter.mpr ⟨hmem, hp⟩)
    | some s =>
      apply congrArg
      exact hone (List.mem_filter.mp (List.mem_of_find?_eq_some hf)).1 hmem
        ((find_token hf).trans (find_token h).symm)

end SessionManager

namespace SessionTable

open SessionManager

variable {ttl : Int64} {t t' : SessionTable} {token : Bytes} {now : TimePoint} {call : TimePoint × SessionCall}

structure Consistent (ttl : Int64) (t : SessionTable) : Prop where
  distinct : (t.manager.sessions.map Session.token).Nodup
  found : ∀ {token session}, t.manager.find token = some session →
    ∃ time, lastEvent token t.log = some (.created time session)
  kept : ∀ {token time session}, lastEvent token t.log = some (.created time session) →
    t.manager.find token = some session ∨ expiry time ttl ≤ t.clock
  made : ∀ {time session}, SessionEvent.created time session ∈ t.log →
    session.state = .authenticated ∧ session.expiresAt = expiry time ttl

theorem opened_consistent (ttl : Int64) (tokens : List Bytes) (start : TimePoint) :
    Consistent ttl (opened tokens start) where
  distinct := List.nodup_nil
  found h := by cases h
  kept h := by cases h
  made h := by cases h

theorem Consistent.erase (h : Consistent ttl t) {manager : SessionManager} {clock : TimePoint}
    {events : List SessionEvent} (hclock : t.clock ≤ clock)
    (hm : manager.sessions = t.manager.sessions.filter fun s => decide (s.token ≠ token))
    (he : events = [.revoked token] ∨ events = [] ∧ ∃ s, t.manager.find token = some s ∧ s.expiresAt ≤ clock) :
    Consistent ttl ⟨manager, clock, t.log ++ events⟩ := by
  have hfind (other : Bytes) : manager.find other = if other = token then none else t.manager.find other := by
    unfold find
    rw [hm]
    exact find_erased t.manager.sessions token other
  have hlast {other : Bytes} (ho : other ≠ token) : lastEvent other (t.log ++ events) = lastEvent other t.log := by
    obtain rfl | ⟨rfl, _⟩ := he
    · rw [lastEvent_append, SessionEvent.token, if_neg (Ne.symm ho)]
    · rw [List.append_nil]
  refine ⟨?_, ?_, ?_, ?_⟩
  · rw [hm]
    exact h.distinct.sublist (List.filter_sublist.map _)
  · intro other session hs
    change manager.find other = some session at hs
    rw [hfind] at hs
    split_ifs at hs with ho
    rw [hlast ho]
    exact h.found hs
  · intro other time session hl
    change manager.find other = some session ∨ expiry time ttl ≤ clock
    by_cases ho : other = token
    · subst ho
      right
      obtain rfl | ⟨rfl, s, hs, hle⟩ := he
      · rw [lastEvent_append, SessionEvent.token, if_pos rfl] at hl
        cases hl
      · rw [List.append_nil] at hl
        obtain ⟨time', hl'⟩ := h.found hs
        obtain ⟨rfl, rfl⟩ := SessionEvent.created.inj (Option.some.inj (hl'.symm.trans hl))
        rwa [← (h.made (lastEvent_token hl).1).2]
    · rw [hlast ho] at hl
      rw [hfind, if_neg ho]
      exact (h.kept hl).imp_right fun hle => Int64.le_trans hle hclock
  · intro time session hmem
    obtain hmem | hmem := List.mem_append.mp hmem
    · exact h.made hmem
    · obtain rfl | ⟨rfl, _⟩ := he
      · cases List.mem_singleton.mp hmem
      · cases hmem

theorem Consistent.create (h : Consistent ttl t) {manager : SessionManager} {clock : TimePoint} {session : Session}
    {customerId : CustomerId} {role : Role} (hclock : t.clock ≤ clock)
    (hc : t.manager.create (fun _ => clock) ttl customerId role = some (session, manager)) :
    Consistent ttl ⟨manager, clock, t.log ++ [.created clock session]⟩ := by
  obtain ⟨hnew, hsessions, hstate, hexpires⟩ := create_cases hc
  have hfind := find_created hc
  have hlast (other : Bytes) : lastEvent other (t.log ++ [.created clock session]) =
      if session.token = other then some (.created clock session) else lastEvent other t.log :=
    lastEvent_append other t.log (.created clock session)
  refine ⟨?_, ?_, ?_, ?_⟩
  · rw [hsessions, List.map_append, List.nodup_append]
    refine ⟨h.distinct, List.nodup_singleton _, ?_⟩
    intro x hx y hy
    obtain ⟨s, hs, rfl⟩ := List.mem_map.mp hx
    rw [List.mem_singleton.mp hy]
    exact hnew s hs
  · intro other s hs
    change manager.find other = some s at hs
    rw [hfind] at hs
    rw [hlast]
    split_ifs at hs ⊢ with ho
    · obtain rfl := Option.some.inj hs
      exact ⟨clock, rfl⟩
    · exact h.found hs
  · intro other time s hl
    change manager.find other = some s ∨ expiry time ttl ≤ clock
    rw [hlast] at hl
    rw [hfind]
    split_ifs at hl ⊢ with ho
    · obtain ⟨rfl, rfl⟩ := SessionEvent.created.inj (Option.some.inj hl)
      exact .inl rfl
    · exact (h.kept hl).imp_right fun hle => Int64.le_trans hle hclock
  · intro time s hmem
    obtain hmem | hmem := List.mem_append.mp hmem
    · exact h.made hmem
    · obtain ⟨rfl, rfl⟩ := SessionEvent.created.inj (List.mem_singleton.mp hmem)
      exact ⟨hstate, hexpires⟩

theorem next_consistent (h : Consistent ttl t) (hn : next ttl t call = some t') :
    Consistent ttl t' ∧ t.clock ≤ t'.clock := by
  obtain ⟨clock, call⟩ := call
  unfold next at hn
  dsimp only at hn
  split_ifs at hn with hback
  have hclock : t.clock ≤ clock := Int64.not_lt.mp hback
  cases call with
  | create customerId role =>
    obtain ⟨⟨session, manager⟩, hc, rfl⟩ := Option.map_eq_some_iff.mp hn
    exact ⟨h.create hclock hc, hclock⟩
  | validate token =>
    obtain rfl := Option.some.inj hn
    refine ⟨?_, hclock⟩
    obtain ⟨-, hsame⟩ | ⟨s, hs, hle, herased⟩ := validate_sessions (fun _ => clock) token t.manager
    · refine ⟨by rw [hsame]; exact h.distinct, ?_, ?_, h.made⟩
      · intro other session hf
        unfold find at hf
        rw [hsame] at hf
        exact h.found hf
      · intro other time session hl
        unfold find
        rw [hsame]
        exact (h.kept hl).imp_right fun hle => Int64.le_trans hle hclock
    · have herase := h.erase hclock herased (.inr ⟨rfl, s, hs, hle⟩)
      rwa [List.append_nil] at herase
  | revoke token =>
    unfold revoke at hn
    cases hf : t.manager.find token with
    | none =>
      simp only [hf, Option.some.injEq] at hn
      subst hn
      exact ⟨⟨h.distinct, h.found, fun hl => (h.kept hl).imp_right fun hle => Int64.le_trans hle hclock, h.made⟩,
        hclock⟩
    | some session =>
      simp only [hf, Option.some.injEq] at hn
      subst hn
      exact ⟨h.erase hclock rfl (.inl rfl), hclock⟩

theorem run_consistent {tokens : List Bytes} {start : TimePoint} {calls : List (TimePoint × SessionCall)}
    (h : run ttl (opened tokens start) calls = some t) : Consistent ttl t :=
  Runs.run_invariant (fun hs hn => (next_consistent hs hn).1) (opened_consistent ttl tokens start) h

theorem expected_eq_some {e : Option SessionEvent} {session : Session} :
    expected ttl now e = some session ↔ ∃ time, e = some (.created time session) ∧ now < expiry time ttl := by
  constructor
  · intro h
    rcases e with _ | ⟨time, s⟩ | _
    · cases h
    · change (if now < expiry time ttl then some s else none) = some session at h
      split_ifs at h with hlt
      obtain rfl := Option.some.inj h
      exact ⟨time, rfl, hlt⟩
    · cases h
  · rintro ⟨time, rfl, hlt⟩
    exact if_pos hlt

theorem Consistent.validate_expected (h : Consistent ttl t) (hnow : t.clock ≤ now) (token : Bytes) :
    (t.manager.validate (fun _ => now) token).1 = expected ttl now (lastEvent token t.log) := by
  apply Option.ext
  intro session
  rw [validate_eq_some, expected_eq_some]
  constructor
  · rintro ⟨hf, hlt⟩
    obtain ⟨time, hl⟩ := h.found hf
    rw [(h.made (lastEvent_token hl).1).2] at hlt
    exact ⟨time, hl, hlt⟩
  · rintro ⟨time, hl, hlt⟩
    rw [(h.made (lastEvent_token hl).1).2]
    refine ⟨?_, hlt⟩
    apply (h.kept hl).resolve_right
    intro hle
    exact Int64.not_le.mpr hlt (Int64.le_trans hle hnow)

theorem next_created {time : TimePoint} {session : Session} (hn : next ttl t call = some t')
    (h : SessionEvent.created time session ∈ t'.log) :
    SessionEvent.created time session ∈ t.log ∨ ∃ customerId role, call = (time, .create customerId role) := by
  obtain ⟨clock, call⟩ := call
  unfold next at hn
  dsimp only at hn
  split_ifs at hn
  cases call with
  | create customerId role =>
    obtain ⟨⟨created, manager⟩, _, rfl⟩ := Option.map_eq_some_iff.mp hn
    rcases List.mem_append.mp h with h | h
    · exact .inl h
    · obtain ⟨rfl, -⟩ := SessionEvent.created.inj (List.mem_singleton.mp h)
      exact .inr ⟨customerId, role, rfl⟩
  | validate token =>
    obtain rfl := Option.some.inj hn
    exact .inl h
  | revoke token =>
    left
    dsimp only at hn
    split at hn
    · obtain rfl := Option.some.inj hn
      exact h
    · obtain rfl := Option.some.inj hn
      rcases List.mem_append.mp h with h | h
      · exact h
      · cases List.mem_singleton.mp h

theorem run_created {tokens : List Bytes} {start : TimePoint} {calls : List (TimePoint × SessionCall)}
    (h : run ttl (opened tokens start) calls = some t) {time : TimePoint} {session : Session}
    (hmem : SessionEvent.created time session ∈ t.log) : ∃ customerId role, (time, .create customerId role) ∈ calls := by
  have hall : ∀ time session, SessionEvent.created time session ∈ t.log →
      ∃ customerId role, (time, SessionCall.create customerId role) ∈ calls := by
    apply Runs.run_history _ _ h
    · rintro time session ⟨⟩
    · intro calls t call t' _ ih hn time session hmem
      rcases next_created hn hmem with hmem | ⟨customerId, role, rfl⟩
      · obtain ⟨customerId, role, hcall⟩ := ih time session hmem
        exact ⟨customerId, role, List.mem_append_left _ hcall⟩
      · exact ⟨customerId, role, List.mem_append_right _ (List.mem_singleton_self _)⟩
  exact hall time session hmem

/-- `validate` answers by the last event of its token: a purge of expired entries does not show, and neither
does anything done to other tokens. A session lives `ttl` seconds from its creation, and replaces none. -/
structure MeetsSpec (ttl : Int64) (t : SessionTable) (now : TimePoint) (token : Bytes) : Prop where
  found : ∀ session, (t.manager.validate (fun _ => now) token).1 = some session ↔
    ∃ time, Stands t.log token time session ∧ now.toInt < time.toInt + ttl.toInt * 1000000000
  made : ∀ time session, Stands t.log token time session →
    session.state = .authenticated ∧ session.expiresAt.toInt = time.toInt + ttl.toInt * 1000000000
  others : ∀ tokens start calls t', run ttl (opened tokens start) calls = some t' → t'.clock ≤ now →
    t'.log.filter (·.token = token) = t.log.filter (·.token = token) →
    (t'.manager.validate (fun _ => now) token).1 = (t.manager.validate (fun _ => now) token).1
  purged : ∀ p : Session → Bool, (∀ s ∈ t.manager.sessions, p s = false → s.expiresAt ≤ now) →
    ((t.manager.purge p).validate (fun _ => now) token).1 = (t.manager.validate (fun _ => now) token).1
  fresh : ∀ customerId role session manager,
    t.manager.create (fun _ => now) ttl customerId role = some (session, manager) →
    t.manager.find session.token = none ∧ manager.find session.token = some session ∧
      ∀ other, other ≠ session.token → manager.find other = t.manager.find other

/-- After every run of calls at which the lifetime fits, the table answers as it should. -/
theorem run_meetsSpec {tokens : List Bytes} {start : TimePoint} {calls : List (TimePoint × SessionCall)}
    (hfits : ∀ call ∈ calls, SessionCall.Fits ttl call) (h : run ttl (opened tokens start) calls = some t)
    (hnow : t.clock ≤ now) (token : Bytes) : MeetsSpec ttl t now token := by
  have hc := run_consistent h
  have hexpiry {time : TimePoint} {session : Session} (hs : Stands t.log token time session) :
      (expiry time ttl).toInt = time.toInt + ttl.toInt * 1000000000 := by
    obtain ⟨customerId, role, hcall⟩ := run_created h (lastEvent_token (stands_iff.mp hs)).1
    have htime : TtlFits ttl time := hfits _ hcall
    exact htime.expiry_toInt
  refine ⟨?_, ?_, ?_, ?_, ?_⟩
  · intro session
    rw [hc.validate_expected hnow, expected_eq_some]
    apply exists_congr
    intro time
    rw [← stands_iff]
    apply and_congr_right
    intro hs
    rw [Int64.lt_iff_toInt_lt, hexpiry hs]
  · intro time session hs
    obtain ⟨hstate, hexpires⟩ := hc.made (lastEvent_token (stands_iff.mp hs)).1
    refine ⟨hstate, ?_⟩
    rw [hexpires, hexpiry hs]
  · intro tokens' start' calls' t' h' hnow' hlog
    rw [hc.validate_expected hnow, (run_consistent h').validate_expected hnow', lastEvent, hlog, lastEvent]
  · intro p hp
    apply Option.ext
    intro session
    rw [validate_eq_some, validate_eq_some, find_purge hc.distinct]
    constructor
    · rintro ⟨⟨hf, _⟩, hlt⟩
      exact ⟨hf, hlt⟩
    · rintro ⟨hf, hlt⟩
      refine ⟨⟨hf, ?_⟩, hlt⟩
      cases hps : p session with
      | true => rfl
      | false => exact absurd (hp session (List.mem_of_find?_eq_some hf) hps) (Int64.not_le.mpr hlt)
  · intro customerId role session manager hcreate
    obtain ⟨hnew, -⟩ := create_cases hcreate
    have hfind := find_created hcreate
    refine ⟨?_, ?_, ?_⟩
    · apply List.find?_eq_none.mpr
      intro s hs
      simpa using hnew s hs
    · rw [hfind, if_pos rfl]
    · intro other hother
      rw [hfind, if_neg (Ne.symm hother)]

def someCalls : List (TimePoint × SessionCall) :=
  [(0, .create 3 .customer), (4000000000, .validate (ascii "ab")), (4000000000, .create 4 .admin),
   (6000000000, .revoke (ascii "ef"))]

theorem run_someCalls : ∃ t, run 5 (opened [ascii "ab", ascii "ab", ascii "cd"] 0) someCalls = some t ∧
    t.manager.sessions.length = 2 ∧ MeetsSpec 5 t 7000000000 (ascii "ab") := by
  have h : run 5 (opened [ascii "ab", ascii "ab", ascii "cd"] 0) someCalls = some
      ⟨⟨[⟨ascii "ab", 3, .customer, .authenticated, 5000000000⟩, ⟨ascii "cd", 4, .admin, .authenticated, 9000000000⟩],
        [], 3⟩, 6000000000,
        [.created 0 ⟨ascii "ab", 3, .customer, .authenticated, 5000000000⟩,
         .created 4000000000 ⟨ascii "cd", 4, .admin, .authenticated, 9000000000⟩]⟩ := rfl
  exact ⟨_, h, rfl, run_meetsSpec (by decide) h (by decide) (ascii "ab")⟩

theorem endless_notMeetsSpec : ∃ t,
    run 9223372036854775807 (opened [ascii "ab"] 0) [(0, .create 3 .customer)] = some t ∧
    ¬ MeetsSpec 9223372036854775807 t t.clock (ascii "ab") := by
  refine ⟨_, rfl, ?_⟩
  intro h
  have hstands : Stands [.created 0 ⟨ascii "ab", 3, .customer, .authenticated, -1000000000⟩] (ascii "ab") 0
      ⟨ascii "ab", 3, .customer, .authenticated, -1000000000⟩ := ⟨[], [], rfl, rfl, fun e he => absurd he List.not_mem_nil⟩
  have hvalid := (h.found _).mpr ⟨0, hstands, by decide⟩
  cases hvalid

end SessionTable

/-- `revoke` accepts what `validate` would accept at the same instant, and `logout` refuses the rest without
a trace. -/
def AcceptsLive (env : Surroundings) (now : TimePoint) (token : Bytes) (s : AuthService) : Prop :=
  ((s.sessions.revoke token).1.isSome = true ↔ (s.sessions.validate (fun _ => now) token).1.isSome = true) ∧
    ((s.sessions.validate (fun _ => now) token).1 = none →
      (s.logout env token).1 = .failure "invalid session" ∧ (s.logout env token).2.audit = s.audit)

theorem acceptsLive_iff (env : Surroundings) (now : TimePoint) (token : Bytes) (s : AuthService) :
    AcceptsLive env now token s ↔ ∀ session, s.sessions.find token = some session → now < session.expiresAt := by
  unfold AcceptsLive SessionManager.validate AuthService.logout SessionManager.revoke
  cases hf : s.sessions.find token with
  | none => simp
  | some session =>
    dsimp only
    constructor
    · rintro ⟨hsame, _⟩ _ ⟨⟩
      apply Int64.not_le.mp
      intro hle
      rw [if_pos hle] at hsame
      simp at hsame
    · intro hlive
      rw [if_neg (Int64.not_le.mpr (hlive session rfl))]
      simp

theorem expired_notAcceptsLive : ∃ t,
    SessionTable.run 5 (SessionTable.opened [ascii "ab"] 0) [(0, .create 3 .customer)] = some t ∧
    ¬ AcceptsLive AuthService.exampleSurroundings 5000000000 (ascii "ab")
      { AuthService.idle with sessions := t.manager } := by
  refine ⟨_, rfl, ?_⟩
  rintro ⟨hsame, _⟩
  have hrevoked : (SessionManager.revoke (ascii "ab")
      ⟨[⟨ascii "ab", 3, .customer, .authenticated, 5000000000⟩], [], 1⟩).1.isSome = true := rfl
  cases hsame.mp hrevoked

end BankManagement
