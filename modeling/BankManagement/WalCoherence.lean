import BankManagement.WalFraming

namespace BankManagement.Wal

open Codec LineFraming WalLogger

/-- The file is the lines and an unterminated tail, and the members of the logger say so. -/
structure Layout (w : WalLogger) (lines : List Bytes) (tail : Bytes) : Prop where
  file : w.file = join newline lines ++ tail
  entries : w.entries = scan 0 lines
  clean : ∀ line ∈ lines, newline ∉ line
  tail_clean : newline ∉ tail
  nextOffset : w.nextOffset = (join newline lines).length
  validLength : w.dropTail = true → w.validLength = w.nextOffset
  noTail : w.dropTail = false → tail = []

def Coherent (w : WalLogger) : Prop := ∃ lines tail, Layout w lines tail

def Complete (lines : List Bytes) : Prop := ∀ line ∈ lines, ∃ e : Entry, line = e.text

theorem openFile_layout (data : Bytes) :
    Layout (openFile data) (split newline data).1 (split newline data).2 := by
  obtain ⟨hclean, htail⟩ := split_clean newline data
  have hjoin := join_split newline data
  have htotal := congrArg List.length hjoin
  rw [List.length_append] at htotal
  have hlen : data.length - (split newline data).2.length = (join newline (split newline data).1).length := by
    omega
  unfold openFile
  simp only [hlen]
  split_ifs with hlt
  · exact ⟨hjoin.symm, rfl, hclean, htail, rfl, fun _ => rfl, by simp⟩
  · have hnil : (split newline data).2 = [] := List.eq_nil_of_length_eq_zero (by omega)
    refine ⟨hjoin.symm, rfl, hclean, htail, ?_, by simp, fun _ => hnil⟩
    have hzero : (split newline data).2.length = 0 := by rw [hnil]; rfl
    change data.length = _
    omega

theorem openFile_coherent (data : Bytes) : Coherent (openFile data) := ⟨_, _, openFile_layout data⟩

variable {w : WalLogger} {lines : List Bytes} {tail : Bytes}

theorem Layout.reopen (h : Layout w lines tail) : Layout (openFile w.file) lines tail := by
  have ho := openFile_layout w.file
  rwa [h.file, split_join h.clean h.tail_clean, ← h.file] at ho

theorem Layout.reopen_entries (h : Layout w lines tail) : (openFile w.file).entries = w.entries := by
  rw [h.reopen.entries, h.entries]

theorem resizeFile_prefix (front back : Bytes) : resizeFile (front ++ back) front.length = front := by
  have hz : front.length - (front ++ back).length = 0 := by simp
  simp [resizeFile]

theorem Layout.dropInterrupted (h : Layout w lines tail) : Layout w.dropInterrupted lines [] := by
  unfold WalLogger.dropInterrupted
  split_ifs with hd
  · have hv := h.validLength hd
    have hn := h.nextOffset
    refine ⟨?_, h.entries, h.clean, by simp, ?_, by simp [truncateInterruptedTail], fun _ => rfl⟩
    · simp only [truncateInterruptedTail, hv, hn, h.file, resizeFile_prefix, List.append_nil]
    · simp only [truncateInterruptedTail, hv, hn]
  · obtain rfl := h.noTail (by simpa using hd)
    exact h

theorem dropInterrupted_entries (w : WalLogger) : w.dropInterrupted.entries = w.entries := by
  unfold WalLogger.dropInterrupted
  split_ifs <;> rfl

theorem dropInterrupted_dropTail (w : WalLogger) : w.dropInterrupted.dropTail = false := by
  unfold WalLogger.dropInterrupted
  split_ifs with h
  · rfl
  · simpa using h

def appended (r : TransactionRecord) (w : WalLogger) : Entry :=
  { id := r.id, state := r.state, offset := w.dropInterrupted.nextOffset, payload := serialize r }

theorem line_bytes (r : TransactionRecord) (w : WalLogger) : line r = (appended r w).bytes := by
  simp [line, Entry.bytes, Entry.text, appended]

theorem append_entries (r : TransactionRecord) (w : WalLogger) :
    (w.append r).entries = w.entries ++ [appended r w] := by
  simp only [WalLogger.append, dropInterrupted_entries, appended]

theorem newline_hexField (width n : ℕ) : newline ∉ hexField width n := by
  have hall : ∀ d < 16, newline ≠ Json.hexDigit d.toUInt8 := by decide
  induction width with
  | zero => simp [hexField]
  | succ width ih =>
    simp only [hexField, List.mem_cons, not_or]
    exact ⟨hall _ (Nat.mod_lt _ (by decide)), ih⟩

theorem newline_stateByte (s : TransactionState) : newline ≠ stateByte s := by
  cases s <;> decide

theorem newline_text {e : Entry} (h : newline ∉ e.payload) : newline ∉ e.text := by
  simp only [Entry.text, List.mem_append, List.mem_cons, not_or]
  exact ⟨newline_hexField _ _, newline_stateByte _, h⟩

theorem newline_payload {e : Entry} (h : newline ∉ e.text) : newline ∉ e.payload := by
  simp only [Entry.text, List.mem_append, List.mem_cons, not_or] at h
  exact h.2.2

theorem newline_serialize (r : TransactionRecord) : newline ∉ serialize r := by
  intro h
  exact absurd (serialize_printable r newline h) (by decide)

theorem Layout.append (h : Layout w lines tail) (r : TransactionRecord) :
    Layout (w.append r) (lines ++ [(appended r w).text]) [] := by
  have hd := h.dropInterrupted
  have hoff : (appended r w).offset = (join newline lines).length := hd.nextOffset
  have hjoin : join newline (lines ++ [(appended r w).text]) = join newline lines ++ line r := by
    rw [join_append, line_bytes r w]
    simp [Entry.bytes]
  refine ⟨?_, ?_, ?_, by simp, ?_, ?_, fun _ => rfl⟩
  · rw [hjoin, List.append_nil]
    change w.dropInterrupted.file ++ line r = _
    rw [hd.file, List.append_nil]
  · rw [append_entries, h.entries, scan_append, Nat.zero_add, ← hoff, scan_text]
    rfl
  · intro l hl
    rcases List.mem_append.mp hl with hl | hl
    · exact h.clean l hl
    · rw [List.mem_singleton.mp hl]
      exact newline_text (newline_serialize r)
  · rw [hjoin, List.length_append, ← hoff]
    rfl
  · intro ht
    have hf : (w.append r).dropTail = false := dropInterrupted_dropTail w
    rw [hf] at ht
    contradiction

theorem line_prefix_clean {r : TransactionRecord} {written : ℕ} (h : written < (line r).length) :
    newline ∉ (line r).take written := by
  rw [line_bytes r (openFile []), Entry.bytes] at h ⊢
  rw [List.take_append_of_le_length (by simpa using Nat.le_of_lt_succ (by simpa using h))]
  exact fun hm => newline_text (newline_serialize r) (List.mem_of_mem_take hm)

theorem Layout.appendTorn_file (h : Layout w lines tail) (r : TransactionRecord) (written : ℕ) :
    (w.appendTorn r written).file = join newline lines ++ (line r).take written := by
  change w.dropInterrupted.file ++ _ = _
  rw [h.dropInterrupted.file, List.append_nil]

theorem Layout.crash (h : Layout w lines tail) {r : TransactionRecord} {written : ℕ}
    (hw : written < (line r).length) :
    Layout (openFile (w.appendTorn r written).file) lines ((line r).take written) := by
  have ho := openFile_layout (w.appendTorn r written).file
  have hs := split_join h.clean (line_prefix_clean hw)
  rw [← h.appendTorn_file r written] at hs
  rwa [hs] at ho

theorem putAt_inside (front back : Bytes) (text : Bytes) {pos : ℕ} (h : pos < text.length) (b : UInt8) :
    putAt (front ++ (text ++ back)) (front.length + pos) b = front ++ (text.set pos b ++ back) := by
  have hlt : front.length + pos < (front ++ (text ++ back)).length := by
    simp only [List.length_append]
    omega
  rw [putAt, if_pos hlt, List.set_append_right _ _ (by omega), Nat.add_sub_cancel_left, List.set_append_left _ _ h]

theorem flip_lines {i : ℕ} {e : Entry} {lines : List Bytes} (hclean : ∀ line ∈ lines, newline ∉ line)
    (hi : (scan 0 lines)[i]? = some e) (rest : Bytes) :
    ∃ lines', putAt (join newline lines ++ rest) (e.offset + kStateFieldPos) (stateByte .committed) =
        join newline lines' ++ rest ∧
      scan 0 lines' = (scan 0 lines).set i { e with state := .committed } ∧
      (∀ line ∈ lines', newline ∉ line) ∧ (join newline lines').length = (join newline lines).length ∧
      (Complete lines → Complete lines') := by
  obtain ⟨before, after, rfl, ho, rfl⟩ := scan_split hi
  rw [Nat.zero_add] at ho
  have hpos : kStateFieldPos < e.text.length := by
    rw [Entry.text_length, kHeaderSize, kStateFieldPos]
    omega
  have hjoin (text : Bytes) : join newline (before ++ text :: after) ++ rest =
      join newline before ++ (text ++ newline :: (join newline after ++ rest)) := by
    simp [join_append]
  refine ⟨before ++ { e with state := .committed }.text :: after, ?_, scan_set ho _, ?_, ?_, ?_⟩
  · rw [hjoin, hjoin, ho, putAt_inside _ _ _ hpos, Entry.text_set, ho]
  · intro l hl
    rcases List.mem_append.mp hl with hl | hl
    · exact hclean l (List.mem_append_left _ hl)
    · rcases List.mem_cons.mp hl with rfl | hl
      · have hp : newline ∉ e.payload := newline_payload (hclean _ (by simp))
        exact newline_text hp
      · exact hclean l (List.mem_append_right _ (List.mem_cons_of_mem _ hl))
  · simp [join_append, Entry.text_length]
  · intro hc l hl
    rcases List.mem_append.mp hl with hl | hl
    · exact hc l (List.mem_append_left _ hl)
    · rcases List.mem_cons.mp hl with rfl | hl
      · exact ⟨_, rfl⟩
      · exact hc l (List.mem_append_right _ (List.mem_cons_of_mem _ hl))

theorem Layout.markCommitted (h : Layout w lines tail) (id : TransactionId) :
    ∃ lines', Layout (w.markCommitted id).2 lines' tail ∧ (Complete lines → Complete lines') := by
  by_cases hk : ∃ e ∈ w.entries, e.id = id
  · obtain ⟨i, e, hi, _, _, ⟨_, hr⟩ | ⟨_, hr⟩⟩ := markCommitted_known hk
    · exact ⟨lines, by rw [hr]; exact h, fun hc => hc⟩
    · rw [h.entries] at hi
      obtain ⟨lines', hput, hscan, hclean, hlen, hc⟩ := flip_lines h.clean hi tail
      refine ⟨lines', ?_, hc⟩
      rw [hr]
      refine ⟨?_, ?_, hclean, h.tail_clean, by rw [hlen]; exact h.nextOffset, h.validLength, h.noTail⟩
      · change putAt w.file _ _ = _
        rw [h.file, hput]
      · change w.entries.set i _ = _
        rw [h.entries, hscan]
  · rw [markCommitted_unknown (by simpa using hk)]
    exact ⟨lines, h, fun hc => hc⟩

structure Torn where
  r : TransactionRecord
  written : ℕ
  lt : written < (line r).length

/-- What can happen to one journal file. A crash leaves a torn write, and the next process opens
the file. -/
inductive Op
  | append (r : TransactionRecord)
  | markCommitted (id : TransactionId)
  | reopen
  | crash (torn : Torn)

def Op.exec (w : WalLogger) : Op → WalLogger
  | .append r => w.append r
  | .markCommitted id => (w.markCommitted id).2
  | .reopen => openFile w.file
  | .crash torn => openFile (w.appendTorn torn.r torn.written).file

def journal (data : Bytes) (ops : List Op) : WalLogger := ops.foldl Op.exec (openFile data)

theorem Layout.exec (h : Layout w lines tail) (op : Op) :
    ∃ lines' tail', Layout (op.exec w) lines' tail' ∧ (Complete lines → Complete lines') := by
  cases op with
  | append r =>
    refine ⟨_, _, h.append r, fun hc l hl => ?_⟩
    rcases List.mem_append.mp hl with hl | hl
    · exact hc l hl
    · exact ⟨_, List.mem_singleton.mp hl⟩
  | markCommitted id =>
    obtain ⟨lines', hl, hc⟩ := h.markCommitted id
    exact ⟨lines', tail, hl, hc⟩
  | reopen => exact ⟨lines, tail, h.reopen, fun hc => hc⟩
  | crash torn => exact ⟨lines, _, h.crash torn.lt, fun hc => hc⟩

theorem foldl_layout (h : Layout w lines tail) (ops : List Op) :
    ∃ lines' tail', Layout (ops.foldl Op.exec w) lines' tail' ∧ (Complete lines → Complete lines') := by
  induction ops generalizing w lines tail with
  | nil => exact ⟨lines, tail, h, fun hc => hc⟩
  | cons op ops ih =>
    obtain ⟨lines₁, tail₁, h₁, hc₁⟩ := h.exec op
    obtain ⟨lines₂, tail₂, h₂, hc₂⟩ := ih h₁
    exact ⟨lines₂, tail₂, h₂, fun hc => hc₂ (hc₁ hc)⟩

theorem journal_coherent (data : Bytes) (ops : List Op) : Coherent (journal data ops) := by
  obtain ⟨lines, tail, h, _⟩ := foldl_layout (openFile_layout data) ops
  exact ⟨lines, tail, h⟩

theorem journal_complete (ops : List Op) :
    ∃ lines tail, Layout (journal [] ops) lines tail ∧ Complete lines := by
  obtain ⟨lines, tail, h, hc⟩ := foldl_layout (openFile_layout []) ops
  exact ⟨lines, tail, h, hc (by simp [split, Complete])⟩

def Tiled (start : ℕ) : List Entry → Prop
  | [] => True
  | e :: rest => e.offset = start ∧ Tiled (start + e.bytes.length) rest

theorem scan_tiled {lines : List Bytes} (h : Complete lines) (lineStart : ℕ) :
    Tiled lineStart (scan lineStart lines) ∧
      (scan lineStart lines).flatMap Entry.bytes = join newline lines := by
  induction lines generalizing lineStart with
  | nil => exact ⟨trivial, rfl⟩
  | cons line lines ih =>
    obtain ⟨e, rfl⟩ := h line List.mem_cons_self
    have hc : Complete lines := fun l hl => h l (List.mem_cons_of_mem _ hl)
    have hs := scan_text { e with offset := lineStart } lines
    obtain ⟨ht, hj⟩ := ih hc (lineStart + e.bytes.length)
    refine ⟨?_, ?_⟩
    · rw [show e.text = ({ e with offset := lineStart } : Entry).text from rfl, hs]
      exact ⟨rfl, ht⟩
    · rw [show e.text = ({ e with offset := lineStart } : Entry).text from rfl, hs, List.flatMap_cons]
      simp only [join_cons]
      rw [← hj]
      simp [Entry.bytes, Entry.text]

theorem Layout.entry_bytes (h : Layout w lines tail) {e : Entry} (he : e ∈ w.entries) :
    e.bytes <+: w.file.drop e.offset := by
  obtain ⟨i, hi⟩ := List.mem_iff_getElem?.mp he
  rw [h.entries] at hi
  obtain ⟨before, after, hl, ho, _⟩ := scan_split hi
  rw [h.file, hl, ho, Nat.zero_add, join_append, List.append_assoc, List.drop_left, join_cons]
  exact ⟨join newline after ++ tail, by simp [Entry.bytes]⟩

theorem Layout.statePos_lt (h : Layout w lines tail) {e : Entry} (he : e ∈ w.entries) :
    e.offset + kStateFieldPos < w.file.length := by
  have hle := (h.entry_bytes he).length_le
  rw [List.length_drop, Entry.bytes_length, Entry.text_length, kHeaderSize] at hle
  rw [kStateFieldPos]
  omega

theorem Layout.markCommitted_file (h : Layout w lines tail) (id : TransactionId) :
    (w.markCommitted id).2.file.length = w.file.length ∧
      ∃ pos, ∀ i : ℕ, i ≠ pos → (w.markCommitted id).2.file[i]? = w.file[i]? := by
  by_cases hk : ∃ e ∈ w.entries, e.id = id
  · obtain ⟨i, e, hi, _, _, ⟨_, hr⟩ | ⟨_, hr⟩⟩ := markCommitted_known hk
    · exact ⟨by rw [hr], 0, fun _ _ => by rw [hr]⟩
    · have hlt := h.statePos_lt (List.mem_of_getElem? hi)
      rw [hr]
      simp only [commitAt, putAt, if_pos hlt, List.length_set, true_and]
      exact ⟨e.offset + kStateFieldPos, fun i hne => List.getElem?_set_ne hne.symm⟩
  · rw [markCommitted_unknown (by simpa using hk)]
    exact ⟨rfl, 0, fun _ _ => rfl⟩

theorem markCommitted_rejected {id : TransactionId} {what : Exn} {w' : WalLogger}
    (h : w.markCommitted id = (.error what, w')) : w' = w := by
  by_cases hk : ∃ e ∈ w.entries, e.id = id
  · obtain ⟨i, e, _, _, _, ⟨_, hr⟩ | ⟨_, hr⟩⟩ := markCommitted_known hk <;> simp [hr] at h
  · rw [markCommitted_unknown (by simpa using hk)] at h
    exact (congrArg Prod.snd h).symm

structure Faithful (w : WalLogger) : Prop where
  bytes : ∀ e ∈ w.entries,
    idToField e.id ++ [stateByte e.state] ++ e.payload ++ [newline] <+: w.file.drop e.offset
  tiled : Tiled 0 w.entries
  framed : ∃ tail, w.file = w.entries.flatMap Entry.bytes ++ tail ∧ newline ∉ tail
  committed : ∀ {id w'}, w.markCommitted id = (.ok (), w') →
    w'.file.length = w.file.length ∧ ∃ pos, ∀ i : ℕ, i ≠ pos → w'.file[i]? = w.file[i]?
  rejected : ∀ {id what w'}, w.markCommitted id = (.error what, w') → w' = w
  entries : (openFile w.file).entries = w.entries
  size : (openFile w.file).size = w.size
  loadAll : (openFile w.file).loadAll = w.loadAll
  replayFrom : ∀ k, (openFile w.file).replayFrom k = w.replayFrom k
  torn : ∀ t : Torn, (openFile (w.appendTorn t.r t.written).file).entries = w.entries
  unmerged : ∀ r : TransactionRecord, (w.append r).file = w.entries.flatMap Entry.bytes ++ line r

theorem Layout.faithful (h : Layout w lines tail) (hc : Complete lines) : Faithful w := by
  obtain ⟨htiled, hjoin⟩ := scan_tiled hc 0
  rw [← h.entries] at htiled hjoin
  have hentries := h.reopen_entries
  refine ⟨fun e he => ?_, htiled, ⟨tail, by rw [hjoin, h.file], h.tail_clean⟩, fun {id w'} hr => ?_,
    markCommitted_rejected, hentries, ?_, ?_, fun k => ?_, fun t => ?_, fun r => ?_⟩
  · simpa [Entry.bytes, Entry.text] using h.entry_bytes he
  · have hf := h.markCommitted_file id
    rwa [hr] at hf
  · simp only [WalLogger.size, hentries]
  · simp only [WalLogger.loadAll, hentries]
  · simp only [WalLogger.replayFrom, hentries]
  · rw [(h.crash t.lt).entries, h.entries]
  · rw [hjoin]
    change w.dropInterrupted.file ++ line r = _
    rw [h.dropInterrupted.file, List.append_nil]

/-- The journal stays coherent with its file, from an empty file on. -/
theorem journal_faithful (ops : List Op) : Faithful (journal [] ops) := by
  obtain ⟨lines, tail, h, hc⟩ := journal_complete ops
  exact h.faithful hc

end BankManagement.Wal
