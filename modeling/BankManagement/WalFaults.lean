import BankManagement.WalCoherence

namespace BankManagement.Wal

open Codec LineFraming WalLogger

inductive Call
  | append (r : TransactionRecord)
  | markCommitted (id : TransactionId)
  deriving DecidableEq

def Call.exec (w : WalLogger) : Call → WalLogger
  | .append r => w.append r
  | .markCommitted id => (w.markCommitted id).2

def Entry.content (e : Entry) : TransactionId × TransactionState × Bytes := (e.id, e.state, e.payload)

structure Skewed (w : WalLogger) (lines : List Bytes) (rest : Bytes) (later : List Entry) (written : ℕ) :
    Prop where
  file : w.file = join newline lines ++ rest
  entries : w.entries = scan 0 lines ++ later
  clean : ∀ line ∈ lines, newline ∉ line
  dropTail : w.dropTail = false
  length : rest.length = written + (later.map (fun e => e.bytes.length)).sum
  nextOffset : w.nextOffset = (join newline lines).length + (later.map (fun e => e.bytes.length)).sum
  newlines : rest.count newline ≤ later.length
  offsets : ∀ e ∈ later, (join newline lines).length ≤ e.offset ∧ e.offset + e.bytes.length ≤ w.nextOffset
  last : later ≠ [] → rest.getLast? = some newline
  torn : later = [] → newline ∉ rest

theorem Layout.appendTorn {w : WalLogger} {lines : List Bytes} {tail : Bytes} (h : Layout w lines tail)
    (t : Torn) :
    Skewed (w.appendTorn t.r t.written) lines ((line t.r).take t.written) [] t.written where
  file := h.appendTorn_file t.r t.written
  entries := by
    change w.dropInterrupted.entries = _
    rw [h.dropInterrupted.entries, List.append_nil]
  clean := h.clean
  dropTail := dropInterrupted_dropTail w
  length := by simpa using Nat.le_of_lt t.lt
  nextOffset := h.dropInterrupted.nextOffset
  newlines := by rw [count_clean (line_prefix_clean t.lt)]; exact Nat.zero_le _
  offsets := by simp
  last := by simp
  torn := fun _ => line_prefix_clean t.lt

variable {w : WalLogger} {lines : List Bytes} {rest : Bytes} {later : List Entry} {written : ℕ}

theorem line_count (r : TransactionRecord) : (line r).count newline = 1 := by
  have hc : newline ∉ (appended r (openFile [])).text := newline_text (newline_serialize r)
  rw [line_bytes r (openFile []), Entry.bytes, List.count_append, count_clean hc]
  rfl

theorem Skewed.append (h : Skewed w lines rest later written) (r : TransactionRecord) :
    Skewed (w.append r) lines (rest ++ line r) (later ++ [appended r w]) written := by
  have hd : w.dropInterrupted = w := by rw [dropInterrupted, if_neg (by simp [h.dropTail])]
  have hlen : (line r).length = (appended r w).bytes.length := by rw [← line_bytes]
  have hnext : (w.append r).nextOffset = w.nextOffset + (appended r w).bytes.length := by
    rw [← hlen]
    change w.dropInterrupted.nextOffset + _ = _
    rw [hd]
  have hoff : (appended r w).offset = w.nextOffset := by
    change w.dropInterrupted.nextOffset = _
    rw [hd]
  constructor
  · change w.dropInterrupted.file ++ line r = _
    rw [hd, h.file, List.append_assoc]
  · rw [append_entries, h.entries, List.append_assoc]
  · exact h.clean
  · exact dropInterrupted_dropTail w
  · simp [h.length, hlen, Nat.add_assoc]
  · simp [hnext, h.nextOffset, Nat.add_assoc]
  · have hn := h.newlines
    rw [List.count_append, line_count, List.length_append, List.length_singleton]
    omega
  · intro e he
    rw [hnext]
    rcases List.mem_append.mp he with he | he
    · have ho := h.offsets e he
      omega
    · rw [List.mem_singleton.mp he, hoff, h.nextOffset]
      omega
  · intro _
    rw [line_bytes r w, Entry.bytes, ← List.append_assoc, List.getLast?_concat]
  · simp

theorem set_inside {pos : ℕ} {b : UInt8} (hb : b ≠ newline) (hpos : pos + 1 < rest.length) :
    (rest.set pos b).count newline ≤ rest.count newline ∧ (rest.set pos b).getLast? = rest.getLast? := by
  constructor
  · rw [List.count_set (by omega)]
    simp [hb]
  · rw [List.getLast?_eq_getElem?, List.getLast?_eq_getElem?, List.length_set,
      List.getElem?_set_ne (by omega)]

theorem map_set_self {α β : Type*} {f : α → β} {l : List α} {i : ℕ} {a b : α} (hi : l[i]? = some a)
    (hf : f b = f a) : (l.set i b).map f = l.map f := by
  obtain ⟨hlt, rfl⟩ := List.getElem?_eq_some_iff.mp hi
  rw [List.map_set, hf, ← List.getElem_map f (h := by simpa using hlt), List.set_getElem_self]

theorem Entry.bytes_length_state (e : Entry) (s : TransactionState) :
    ({ e with state := s } : Entry).bytes.length = e.bytes.length := by
  simp [Entry.bytes_length, Entry.text_length]

theorem Skewed.commitLater (h : Skewed w lines rest later written) {i : ℕ} {e : Entry}
    (hi : later[i - (scan 0 lines).length]? = some e) (hge : (scan 0 lines).length ≤ i) :
    Skewed (w.commitAt i e) lines
      (rest.set (e.offset + kStateFieldPos - (join newline lines).length) (stateByte .committed))
      (later.set (i - (scan 0 lines).length) { e with state := .committed }) written := by
  have he := List.mem_of_getElem? hi
  obtain ⟨hlo, hhi⟩ := h.offsets e he
  have hlen := h.length
  have hnext := h.nextOffset
  have hsum := map_set_self (f := fun e : Entry => e.bytes.length) hi (e.bytes_length_state .committed)
  have hbytes : kStateFieldPos + 2 ≤ e.bytes.length := by
    rw [Entry.bytes_length, Entry.text_length, kHeaderSize, kStateFieldPos]
    omega
  obtain ⟨pos, hpos⟩ : ∃ pos, e.offset + kStateFieldPos = (join newline lines).length + pos :=
    ⟨_, (Nat.add_sub_of_le (by omega)).symm⟩
  have hin : pos + 1 < rest.length := by omega
  obtain ⟨hcount, hlast⟩ := set_inside (b := stateByte .committed) (by decide) hin
  rw [hpos, Nat.add_sub_cancel_left]
  constructor
  · change putAt w.file _ _ = _
    have hput := putAt_inside (join newline lines) [] rest (show pos < rest.length by omega) (stateByte .committed)
    simp only [List.append_nil] at hput
    rw [h.file, hpos, hput]
  · change w.entries.set i _ = _
    rw [h.entries, List.set_append_right _ _ hge]
  · exact h.clean
  · exact h.dropTail
  · rw [hsum, List.length_set]
    exact hlen
  · rw [hsum]
    exact hnext
  · rw [List.length_set]
    exact hcount.trans h.newlines
  · intro x hx
    rcases List.mem_or_eq_of_mem_set hx with hx | rfl
    · exact h.offsets x hx
    · rw [Entry.bytes_length_state]
      exact ⟨hlo, hhi⟩
  · intro _
    rw [hlast]
    exact h.last (List.ne_nil_of_mem he)
  · intro hnil
    rw [List.set_eq_nil_iff] at hnil
    rw [hnil] at he
    contradiction

theorem Skewed.markCommitted (h : Skewed w lines rest later written) (id : TransactionId) :
    ∃ lines' rest' later', Skewed (w.markCommitted id).2 lines' rest' later' written ∧
      later'.length = later.length := by
  by_cases hk : ∃ e ∈ w.entries, e.id = id
  · obtain ⟨i, e, hi, _, _, ⟨_, hr⟩ | ⟨_, hr⟩⟩ := markCommitted_known hk
    · exact ⟨lines, rest, later, by rw [hr]; exact h, rfl⟩
    · rw [hr]
      rw [h.entries] at hi
      rcases Nat.lt_or_ge i (scan 0 lines).length with hlt | hge
      · rw [List.getElem?_append_left hlt] at hi
        obtain ⟨lines', hput, hscan, hclean, hlen, _⟩ := flip_lines h.clean hi rest
        refine ⟨lines', rest, later, ⟨?_, ?_, hclean, h.dropTail, h.length, ?_, h.newlines, ?_, h.last, h.torn⟩, rfl⟩
        · change putAt w.file _ _ = _
          rw [h.file, hput]
        · change w.entries.set i _ = _
          rw [h.entries, List.set_append_left _ _ hlt, hscan]
        · rw [hlen]
          exact h.nextOffset
        · rw [hlen]
          exact h.offsets
      · rw [List.getElem?_append_right hge] at hi
        exact ⟨lines, _, _, h.commitLater hi hge, List.length_set⟩
  · rw [markCommitted_unknown (by simpa using hk)]
    exact ⟨lines, rest, later, h, rfl⟩

theorem Skewed.calls (h : Skewed w lines rest later written) (calls : List Call) :
    ∃ lines' rest' later', Skewed (calls.foldl Call.exec w) lines' rest' later' written ∧
      (later' = [] ↔ later = [] ∧ ∀ r, Call.append r ∉ calls) := by
  induction calls generalizing w lines rest later with
  | nil => exact ⟨lines, rest, later, h, by simp⟩
  | cons call calls ih =>
    cases call with
    | append r =>
      obtain ⟨lines', rest', later', h', hnil⟩ := ih (h.append r)
      refine ⟨lines', rest', later', h', ?_⟩
      rw [hnil]
      constructor
      · simp
      · rintro ⟨_, hno⟩
        exact absurd List.mem_cons_self (hno r)
    | markCommitted id =>
      obtain ⟨lines₁, rest₁, later₁, h₁, hlen⟩ := h.markCommitted id
      obtain ⟨lines', rest', later', h', hnil⟩ := ih h₁
      refine ⟨lines', rest', later', h', ?_⟩
      rw [hnil, ← List.length_eq_zero_iff, hlen, List.length_eq_zero_iff]
      simp

theorem Skewed.reopen (h : Skewed w lines rest later written) :
    (openFile w.file).entries = scan 0 lines ++ scan (join newline lines).length (split newline rest).1 := by
  rw [(openFile_layout w.file).entries, h.file, split_join_append h.clean, scan_append, Nat.zero_add]

theorem scan_length_le (lineStart : ℕ) (lines : List Bytes) : (scan lineStart lines).length ≤ lines.length := by
  induction lines generalizing lineStart with
  | nil => rfl
  | cons line lines ih =>
    have hrest := ih (lineStart + line.length + 1)
    rw [scan, List.length_append]
    cases parseEntry lineStart line <;> simp <;> omega

theorem complete_of_scan {lineStart : ℕ} {lines : List Bytes}
    (h : lines.length ≤ (scan lineStart lines).length) : Complete lines := by
  induction lines generalizing lineStart with
  | nil => simp [Complete]
  | cons line lines ih =>
    have hrest := scan_length_le (lineStart + line.length + 1) lines
    cases hp : parseEntry lineStart line with
    | none =>
      simp [scan, hp] at h
      omega
    | some e =>
      have hc : Complete lines := @ih (lineStart + line.length + 1) (by simp [scan, hp] at h; omega)
      intro l hl
      rcases List.mem_cons.mp hl with rfl | hl
      · exact ⟨e, (parseEntry_exact hp).2⟩
      · exact hc l hl

theorem content_lengths {es fs : List Entry} (h : es.map Entry.content = fs.map Entry.content) :
    es.map (fun e => e.bytes.length) = fs.map (fun e => e.bytes.length) := by
  have hf (e : Entry) : e.bytes.length = (fun c : TransactionId × TransactionState × Bytes =>
      kHeaderSize + c.2.2.length + 1) e.content := by
    rw [Entry.bytes_length, Entry.text_length]
    rfl
  have hl := congrArg (List.map (fun c : TransactionId × TransactionState × Bytes =>
    kHeaderSize + c.2.2.length + 1)) h
  simpa only [List.map_map, Function.comp_def, hf] using hl

theorem Skewed.content_ne (h : Skewed w lines rest later written) (hlater : later ≠ []) (hw : written ≠ 0) :
    (openFile w.file).entries.map Entry.content ≠ w.entries.map Entry.content := by
  intro heq
  rw [h.reopen, h.entries, List.map_append, List.map_append] at heq
  have hcontent := List.append_cancel_left heq
  have hnum := congrArg List.length hcontent
  have hcount := split_count newline rest
  have hjoin := join_split newline rest
  obtain ⟨_, htail⟩ := split_clean newline rest
  generalize hs : split newline rest = s at *
  obtain ⟨ls, tl⟩ := s
  simp only [List.length_map] at hnum hcount hjoin htail hcontent
  have hc : Complete ls := complete_of_scan (by rw [hnum, hcount]; exact h.newlines)
  have hbytes := congrArg List.length (scan_tiled hc (join newline lines).length).2
  rw [List.length_flatMap, content_lengths hcontent] at hbytes
  have hnil : tl = [] := by
    by_contra hne
    have hl := h.last hlater
    rw [← hjoin, List.getLast?_append_of_ne_nil _ hne] at hl
    exact htail (List.mem_of_getLast? hl)
  have hlen := h.length
  rw [← hjoin, hnil, List.append_nil, ← hbytes] at hlen
  omega

theorem Skewed.content_eq (h : Skewed w lines rest later written) (hlater : later = []) :
    (openFile w.file).entries.map Entry.content = w.entries.map Entry.content := by
  rw [h.reopen, h.entries, split_tail (h.torn hlater), hlater]
  rfl

theorem Coherent.calls {w : WalLogger} (h : Coherent w) (calls : List Call) :
    Coherent (calls.foldl Call.exec w) := by
  induction calls generalizing w with
  | nil => exact h
  | cons call calls ih =>
    obtain ⟨lines, tail, hl⟩ := h
    cases call with
    | append r => exact ih ⟨_, _, hl.append r⟩
    | markCommitted id =>
      obtain ⟨lines', hm, _⟩ := hl.markCommitted id
      exact ih ⟨lines', tail, hm⟩

/-- A failed append is forgotten exactly when it wrote nothing, or nothing is appended after it. -/
theorem appendTorn_forgotten_iff (data : Bytes) (ops : List Op) (t : Torn) (calls : List Call) :
    let w := calls.foldl Call.exec ((journal data ops).appendTorn t.r t.written)
    ((openFile w.file).entries.map Entry.content = w.entries.map Entry.content ∧
      ∀ e ∈ w.entries, e.state = .committed → ∃ e' ∈ (openFile w.file).entries, e'.content = e.content) ↔
    t.written = 0 ∨ ∀ r, Call.append r ∉ calls := by
  intro w
  obtain ⟨lines, tail, h⟩ := journal_coherent data ops
  obtain ⟨lines', rest, later, hs, hnil⟩ := (h.appendTorn t).calls calls
  constructor
  · rintro ⟨heq, _⟩
    by_contra! hcon
    obtain ⟨hw, r, hr⟩ := hcon
    have hne : later ≠ [] := fun hl => (hnil.mp hl).2 r hr
    exact hs.content_ne hne hw heq
  · intro hcase
    have heq : (openFile w.file).entries.map Entry.content = w.entries.map Entry.content := by
      rcases hcase with hzero | hno
      · have htorn : (journal data ops).appendTorn t.r t.written = (journal data ops).dropInterrupted := by
          simp [WalLogger.appendTorn, hzero]
        have hc : Coherent w := by
          change Coherent (calls.foldl Call.exec _)
          rw [htorn]
          exact Coherent.calls ⟨lines, [], h.dropInterrupted⟩ calls
        obtain ⟨_, _, hl⟩ := hc
        rw [hl.reopen_entries]
      · exact hs.content_eq (hnil.mpr ⟨rfl, hno⟩)
    refine ⟨heq, fun e he _ => ?_⟩
    have hm : e.content ∈ (openFile w.file).entries.map Entry.content := by
      rw [heq]
      exact List.mem_map_of_mem he
    exact List.mem_map.mp hm

def firstDeposit : TransactionRecord where
  id := 1
  timestamp := 0
  type := .deposit
  state := .validated
  fromId := none
  toId := some 7
  amount := 500

def secondDeposit : TransactionRecord := { firstDeposit with id := 2 }

theorem appendTorn_merges :
    let w := [Call.append secondDeposit, Call.markCommitted 2].foldl Call.exec
      ((journal [] []).appendTorn firstDeposit 1)
    1 < (line firstDeposit).length ∧
      (openFile w.file).entries.map Entry.content ≠ w.entries.map Entry.content ∧
      w.loadAll.map (fun r => (r.id, r.state)) = [(2, .committed)] ∧ (openFile w.file).loadAll = [] := by
  decide +kernel

end BankManagement.Wal
