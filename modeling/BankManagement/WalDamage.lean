import BankManagement.WalFaults

namespace BankManagement.Wal

open Codec LineFraming WalLogger

def damageLine (i : ℕ) (damage data : Bytes) : Bytes :=
  join newline ((split newline data).1.set i damage) ++ (split newline data).2

theorem parseEntry_shift (lineStart lineStart' : ℕ) (line : Bytes) :
    (parseEntry lineStart line).map Entry.content = (parseEntry lineStart' line).map Entry.content := by
  unfold parseEntry
  split_ifs
  · cases idFromField 0 (line.take kIdFieldWidth) with
    | none => rfl
    | some id => cases (line)[kStateFieldPos]?.bind stateFromByte <;> rfl
  · rfl

theorem scan_shift (lineStart lineStart' : ℕ) (lines : List Bytes) :
    (scan lineStart lines).map Entry.content = (scan lineStart' lines).map Entry.content := by
  induction lines generalizing lineStart lineStart' with
  | nil => rfl
  | cons line lines ih =>
    have hline := congrArg Option.toList (parseEntry_shift lineStart lineStart' line)
    rw [Option.toList_map, Option.toList_map] at hline
    rw [scan, scan, List.map_append, List.map_append, hline, ih]

theorem records_of_content {es fs : List Entry} (h : es.map Entry.content = fs.map Entry.content) (n : ℕ) :
    (es.drop n).filterMap record = (fs.drop n).filterMap record := by
  have hrecord (l : List Entry) : (l.drop n).filterMap record =
      ((l.map Entry.content).drop n).filterMap fun c =>
        (deserializeTransaction c.2.2).map fun r => { r with state := c.2.1 } := by
    rw [← List.map_drop, List.filterMap_map]
    rfl
  rw [hrecord, hrecord, h]

theorem scan_complete_length {lines : List Bytes} (h : Complete lines) (lineStart : ℕ) :
    (scan lineStart lines).length = lines.length := by
  induction lines generalizing lineStart with
  | nil => rfl
  | cons line lines ih =>
    obtain ⟨e, rfl⟩ := h line List.mem_cons_self
    have hrest := ih (fun l hl => h l (List.mem_cons_of_mem _ hl)) (lineStart + e.text.length + 1)
    have hentry := parseEntry_text { e with offset := lineStart }
    rw [scan, List.length_append, show parseEntry lineStart e.text = some { e with offset := lineStart } from hentry,
      hrest, List.length_cons, Option.toList_some, List.length_singleton, Nat.add_comm]

theorem damageLine_entries {data damage : Bytes} (h : newline ∉ damage) (i : ℕ) :
    (openFile (damageLine i damage data)).entries = scan 0 ((split newline data).1.set i damage) := by
  obtain ⟨hclean, htail⟩ := split_clean newline data
  have hset : ∀ line ∈ (split newline data).1.set i damage, newline ∉ line := by
    intro line hline
    rcases List.mem_or_eq_of_mem_set hline with hline | rfl
    · exact hclean line hline
    · exact h
  rw [(openFile_layout _).entries, damageLine, split_join hset htail]

theorem filterMap_drop_succ {α β : Type} (f : α → Option β) (l : List α) (n : ℕ) :
    (l.drop n).filterMap f = (l[n]?.bind f).toList ++ (l.drop (n + 1)).filterMap f := by
  by_cases hn : n < l.length
  · rw [List.drop_eq_getElem_cons hn, List.getElem?_eq_getElem hn, Option.bind_some]
    cases hf : f l[n] with
    | none => rw [List.filterMap_cons_none hf]; rfl
    | some b => rw [List.filterMap_cons_some hf]; rfl
  · rw [List.drop_eq_nil_of_le (by omega), List.drop_eq_nil_of_le (by omega), List.getElem?_eq_none (by omega)]
    rfl

theorem drop_past {α : Type} {before after : List α} {n : ℕ} (h : before.length = n) (x : α) (m : ℕ) :
    (before ++ x :: after).drop (n + 1 + m) = after.drop m := by
  rw [List.drop_append, h, List.drop_eq_nil_of_le (by omega), List.nil_append]
  have hsub : n + 1 + m - n = m + 1 := by omega
  rw [hsub, List.drop_succ_cons]

theorem scan_around (before : List Bytes) (line : Bytes) (after : List Bytes) :
    ∃ lineStart lineEnd, scan 0 (before ++ line :: after) =
      scan 0 before ++ ((parseEntry lineStart line).toList ++ scan lineEnd after) := by
  refine ⟨(join newline before).length, (join newline before).length + line.length + 1, ?_⟩
  rw [scan_append, Nat.zero_add, scan]

/-- The records after a damaged line are found at their places exactly when its header can still
be read, or when the first of them cannot be read itself. -/
theorem replayFrom_damaged_iff (ops : List Op) {i k : ℕ} {damage : Bytes} (hd : newline ∉ damage) (hk : i < k) :
    (openFile (damageLine i damage (journal [] ops).file)).replayFrom k =
        (openFile (journal [] ops).file).replayFrom k ↔
      (parseEntry 0 damage).isSome ∨ (openFile (journal [] ops).file).entries[k]?.bind record = none := by
  obtain ⟨lines, tail, hl, hc⟩ := journal_complete ops
  have hsplit : (split newline (journal [] ops).file).1 = lines := by
    rw [hl.file, split_join hl.clean hl.tail_clean]
  have hopen : (openFile (journal [] ops).file).entries = scan 0 lines := hl.reopen.entries
  rw [replayFrom, replayFrom, damageLine_entries hd, hsplit, hopen]
  by_cases hi : i < lines.length
  · obtain ⟨m, rfl⟩ : ∃ m, k = i + 1 + m := ⟨k - (i + 1), by omega⟩
    have hbefore : (scan 0 (lines.take i)).length = i := by
      rw [scan_complete_length (fun l h => hc l (List.mem_of_mem_take h)), List.length_take_of_le (by omega)]
    obtain ⟨s, s', hscan⟩ := scan_around (lines.take i) lines[i] (lines.drop (i + 1))
    obtain ⟨t, t', hdamaged⟩ := scan_around (lines.take i) damage (lines.drop (i + 1))
    rw [← List.drop_eq_getElem_cons hi, List.take_append_drop] at hscan
    have hset : lines.take i ++ damage :: lines.drop (i + 1) = lines.set i damage := by
      rw [List.set_eq_take_append_cons_drop, if_pos hi]
    rw [hset] at hdamaged
    obtain ⟨e, he⟩ := hc lines[i] (List.getElem_mem hi)
    have hparse : parseEntry s lines[i] = some { e with offset := s } := by
      rw [he]
      exact parseEntry_text { e with offset := s }
    rw [hparse, Option.toList_some, List.singleton_append] at hscan
    have hrest := records_of_content (scan_shift t' s' (lines.drop (i + 1)))
    rw [hscan, hdamaged, drop_past hbefore]
    have hget : (scan 0 (lines.take i) ++ { e with offset := s } :: scan s' (lines.drop (i + 1)))[i + 1 + m]? =
        (scan s' (lines.drop (i + 1)))[m]? := by
      rw [List.getElem?_append_right (by omega), hbefore]
      have hsub : i + 1 + m - i = m + 1 := by omega
      rw [hsub, List.getElem?_cons_succ]
    rw [hget]
    have hshift := parseEntry_shift 0 t damage
    cases hp : parseEntry t damage with
    | some e' =>
      rw [hp] at hshift
      rw [Option.toList_some, List.singleton_append, drop_past hbefore, hrest]
      apply iff_of_true rfl
      exact .inl (by rw [← Option.isSome_map, hshift]; rfl)
    | none =>
      rw [hp] at hshift
      have hnone : (parseEntry 0 damage).isSome = false := by rw [← Option.isSome_map, hshift]; rfl
      have hdrop : i + 1 + m - i = m + 1 := by omega
      rw [hnone, Option.toList_none, List.nil_append, List.drop_append, hbefore, hdrop,
        List.drop_eq_nil_of_le (by omega), List.nil_append, hrest, filterMap_drop_succ record _ m]
      cases (scan s' (lines.drop (i + 1)))[m]?.bind record with
      | none => simp
      | some r => simp
  · rw [List.set_eq_of_length_le (Nat.not_lt.mp hi)]
    apply iff_of_true rfl
    have hnone : (scan 0 lines)[k]? = none := by
      apply List.getElem?_eq_none
      rw [scan_complete_length hc]
      omega
    exact .inr (by rw [hnone]; rfl)

def threeDeposits : List Op := [1, 2, 3].map fun id =>
  .append { projectTransaction id 0 (.deposit 7 500) with state := .committed }

theorem threeDeposits_headerKept :
    (openFile (damageLine 0 (ascii "00000000000000014x") (journal [] threeDeposits).file)).replayFrom 2 =
      (openFile (journal [] threeDeposits).file).replayFrom 2 :=
  (replayFrom_damaged_iff threeDeposits (by decide) (by decide)).mpr (.inl (by decide +kernel))

def brokenHeader : Bytes := ((split newline (journal [] threeDeposits).file).1.headD []).set 0 0x78

theorem brokenHeader_shifts : newline ∉ brokenHeader ∧
    (openFile (damageLine 0 brokenHeader (journal [] threeDeposits).file)).replayFrom 2 ≠
      (openFile (journal [] threeDeposits).file).replayFrom 2 := by
  decide +kernel

end BankManagement.Wal
