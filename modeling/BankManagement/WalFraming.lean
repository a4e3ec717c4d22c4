import BankManagement.WalLogger
import Mathlib.Tactic.Positivity
import Mathlib.Tactic.Ring

namespace BankManagement.Wal

open Json Codec LineFraming

theorem nibble_hexDigit {d : ℕ} (h : d < 16) : nibble (hexDigit d.toUInt8) = some d := by
  have hall : ∀ d < 16, nibble (hexDigit d.toUInt8) = some d := by decide
  exact hall d h

theorem nibble_eq_some {c : UInt8} {d : ℕ} (h : nibble c = some d) : d < 16 ∧ c = hexDigit d.toUInt8 := by
  unfold nibble at h
  split_ifs at h with hdec hhex
  · obtain ⟨hl, hu⟩ := hdec
    rw [UInt8.le_iff_toNat_le] at hl hu
    have hd := Option.some.inj h
    simp only [UInt8.reduceToNat] at hl hu hd
    have hall : ∀ d < 10, hexDigit d.toUInt8 = (0x30 + d).toUInt8 := by decide
    refine ⟨by omega, UInt8.toNat_inj.mp ?_⟩
    rw [hall d (by omega)]
    simp only [Nat.toUInt8, UInt8.toNat_ofNat']
    omega
  · obtain ⟨hl, hu⟩ := hhex
    rw [UInt8.le_iff_toNat_le] at hl hu
    have hd := Option.some.inj h
    simp only [UInt8.reduceToNat] at hl hu hd
    have hall : ∀ d < 6, hexDigit (d + 10).toUInt8 = (0x61 + d).toUInt8 := by decide
    obtain ⟨e, rfl⟩ : ∃ e, d = e + 10 := ⟨d - 10, by omega⟩
    refine ⟨by omega, UInt8.toNat_inj.mp ?_⟩
    rw [hall e (by omega)]
    simp only [Nat.toUInt8, UInt8.toNat_ofNat']
    omega

theorem hexField_length (width n : ℕ) : (hexField width n).length = width := by
  induction width with
  | zero => rfl
  | succ width ih => simp [hexField, ih]

theorem hexField_add (width d n : ℕ) : hexField width (d * 16 ^ width + n) = hexField width n := by
  induction width generalizing d with
  | zero => rfl
  | succ width ih =>
    have he : d * 16 ^ (width + 1) + n = d * 16 * 16 ^ width + n := by ring
    have hd : (d * 16 * 16 ^ width + n) / 16 ^ width % 16 = n / 16 ^ width % 16 := by
      rw [Nat.add_comm, Nat.add_mul_div_right _ _ (by positivity)]
      omega
    rw [hexField, hexField, he, hd, ih]

theorem idFromField_hexField (v width n : ℕ) (rest : Bytes) :
    idFromField (UInt64.ofNat v) (hexField width n ++ rest) =
      idFromField (UInt64.ofNat (v * 16 ^ width + n % 16 ^ width)) rest := by
  induction width generalizing v with
  | zero => simp [hexField, Nat.mod_one]
  | succ width ih =>
    have hd : n / 16 ^ width % 16 < 16 := Nat.mod_lt _ (by decide)
    have hv : (UInt64.ofNat v) * 16 + (n / 16 ^ width % 16).toUInt64 =
        UInt64.ofNat (v * 16 + n / 16 ^ width % 16) := by
      rw [UInt64.ofNat_add, UInt64.ofNat_mul]
      rfl
    have hn : n % 16 ^ (width + 1) = n % 16 ^ width + 16 ^ width * (n / 16 ^ width % 16) := by
      rw [pow_succ, Nat.mod_mul]
    simp only [hexField, List.cons_append, idFromField, nibble_hexDigit hd, hv]
    rw [ih, hn]
    congr 2
    ring

theorem idFromField_exact {field : Bytes} {v : ℕ} {id : UInt64}
    (h : idFromField (UInt64.ofNat v) field = some id)
    (hv : v * 16 ^ field.length + 16 ^ field.length ≤ 2 ^ 64) :
    ∃ n < 16 ^ field.length, field = hexField field.length n ∧ id.toNat = v * 16 ^ field.length + n := by
  induction field generalizing v with
  | nil =>
    simp only [List.length_nil, pow_zero, mul_one] at hv
    obtain rfl := Option.some.inj h
    have hlt : v < 2 ^ 64 := hv
    exact ⟨0, by simp, rfl, by simpa using hlt⟩
  | cons c rest ih =>
    rw [idFromField] at h
    cases hc : nibble c with
    | none => simp [hc] at h
    | some d =>
      obtain ⟨hd, rfl⟩ := nibble_eq_some hc
      have hvd : (UInt64.ofNat v) * 16 + d.toUInt64 = UInt64.ofNat (v * 16 + d) := by
        rw [UInt64.ofNat_add, UInt64.ofNat_mul]
        rfl
      rw [hc] at h
      simp only [hvd] at h
      have hp : 16 ^ (rest.length + 1) = 16 * 16 ^ rest.length := by ring
      have hle : d * 16 ^ rest.length + 16 ^ rest.length ≤ 16 * 16 ^ rest.length := by
        rw [← Nat.succ_mul]
        exact Nat.mul_le_mul_right _ hd
      have he : v * (16 * 16 ^ rest.length) = v * 16 * 16 ^ rest.length := by ring
      simp only [List.length_cons, hp, he] at hv ⊢
      obtain ⟨n, hn, hrest, hid⟩ := ih h (by rw [Nat.add_mul]; omega)
      refine ⟨d * 16 ^ rest.length + n, by omega, ?_, by rw [hid]; ring⟩
      have hdiv : (d * 16 ^ rest.length + n) / 16 ^ rest.length % 16 = d := by
        rw [Nat.add_comm, Nat.add_mul_div_right _ _ (by positivity), Nat.div_eq_of_lt hn]
        omega
      rw [hexField, hdiv, hexField_add, ← hrest]

theorem idToField_length (id : TransactionId) : (idToField id).length = kIdFieldWidth := hexField_length _ _

theorem idFromField_idToField (id : TransactionId) : idFromField 0 (idToField id) = some id := by
  have h := idFromField_hexField 0 kIdFieldWidth id.toNat []
  have hlt : id.toNat % 16 ^ kIdFieldWidth = id.toNat := Nat.mod_eq_of_lt id.toNat_lt
  simp only [List.append_nil, Nat.zero_mul, Nat.zero_add, hlt, UInt64.ofNat_toNat] at h
  exact h

theorem idToField_idFromField {field : Bytes} {id : TransactionId} (hl : field.length = kIdFieldWidth)
    (h : idFromField 0 field = some id) : field = idToField id := by
  obtain ⟨n, _, hf, hid⟩ := idFromField_exact (v := 0) h (by rw [hl]; decide)
  rw [Nat.zero_mul, Nat.zero_add] at hid
  rw [hf, idToField, hid, hl]

theorem stateFromByte_stateByte (s : TransactionState) : stateFromByte (stateByte s) = some s := by
  cases s <;> decide

theorem stateByte_stateFromByte {c : UInt8} {s : TransactionState} (h : stateFromByte c = some s) :
    c = stateByte s := by
  unfold stateFromByte at h
  split_ifs at h <;> obtain rfl := Option.some.inj h <;> assumption

def Entry.text (e : Entry) : Bytes := idToField e.id ++ stateByte e.state :: e.payload

def Entry.bytes (e : Entry) : Bytes := e.text ++ [newline]

theorem Entry.text_length (e : Entry) : e.text.length = kHeaderSize + e.payload.length := by
  simp only [Entry.text, List.length_append, idToField_length, List.length_cons, kHeaderSize]
  omega

theorem parseEntry_text (e : Entry) : parseEntry e.offset e.text = some e := by
  have hl : kHeaderSize ≤ e.text.length := by rw [Entry.text_length]; omega
  have htake : e.text.take kIdFieldWidth = idToField e.id := by
    rw [Entry.text, List.take_left' (idToField_length _)]
  have hstate : e.text[kStateFieldPos]? = some (stateByte e.state) := by
    rw [Entry.text, List.getElem?_append_right (by rw [idToField_length]; rfl), idToField_length]
    rfl
  have hh : (idToField e.id ++ [stateByte e.state]).length = kHeaderSize := by
    rw [List.length_append, idToField_length]
    rfl
  have hdrop : e.text.drop kHeaderSize = e.payload := by
    rw [Entry.text, List.append_cons, List.drop_left' hh]
  simp [parseEntry, hl, htake, idFromField_idToField, hstate, stateFromByte_stateByte, hdrop]

theorem parseEntry_exact {lineStart : ℕ} {line : Bytes} {e : Entry} (h : parseEntry lineStart line = some e) :
    e.offset = lineStart ∧ line = e.text := by
  unfold parseEntry at h
  split_ifs at h with hl
  have hlt : kStateFieldPos < line.length := hl
  have htake : (line.take kIdFieldWidth).length = kIdFieldWidth := by
    rw [List.length_take]
    exact Nat.min_eq_left (Nat.le_of_lt hlt)
  cases hid : idFromField 0 (line.take kIdFieldWidth) with
  | none => simp [hid] at h
  | some id =>
    rw [hid, List.getElem?_eq_getElem hlt, Option.bind_some] at h
    cases hs : stateFromByte (line)[kStateFieldPos] with
    | none => simp [hs] at h
    | some state =>
      simp only [hs, Option.some.injEq] at h
      subst h
      refine ⟨rfl, ?_⟩
      calc line = line.take kIdFieldWidth ++ line.drop kIdFieldWidth := (List.take_append_drop _ _).symm
        _ = idToField id ++ (line)[kStateFieldPos] :: line.drop kHeaderSize := by
          rw [← idToField_idFromField htake hid]
          congr 1
          exact List.drop_eq_getElem_cons hlt
        _ = _ := by rw [stateByte_stateFromByte hs]; rfl

theorem Entry.bytes_length (e : Entry) : e.bytes.length = e.text.length + 1 := by simp [Entry.bytes]

theorem Entry.text_set (e : Entry) (s : TransactionState) :
    e.text.set kStateFieldPos (stateByte s) = { e with state := s }.text := by
  simp only [Entry.text]
  rw [List.set_append_right _ _ (by rw [idToField_length]; rfl), idToField_length]
  rfl

theorem scan_append (lineStart : ℕ) (lines rest : List Bytes) :
    scan lineStart (lines ++ rest) =
      scan lineStart lines ++ scan (lineStart + (join newline lines).length) rest := by
  induction lines generalizing lineStart with
  | nil => simp [scan]
  | cons line lines ih =>
    simp only [List.cons_append, scan, ih, join_cons, List.length_append, List.length_cons, List.append_assoc]
    congr 3
    omega

theorem scan_text (e : Entry) (rest : List Bytes) :
    scan e.offset (e.text :: rest) = e :: scan (e.offset + e.bytes.length) rest := by
  rw [scan, parseEntry_text, Entry.bytes_length]
  rfl

theorem scan_split {lineStart i : ℕ} {lines : List Bytes} {e : Entry}
    (h : (scan lineStart lines)[i]? = some e) :
    ∃ before after, lines = before ++ e.text :: after ∧
      e.offset = lineStart + (join newline before).length ∧ (scan lineStart before).length = i := by
  induction lines generalizing lineStart i with
  | nil => simp [scan] at h
  | cons line lines ih =>
    rw [scan] at h
    cases hp : parseEntry lineStart line with
    | none =>
      rw [hp] at h
      obtain ⟨before, after, hl, ho, hi⟩ := ih (by simpa using h)
      refine ⟨line :: before, after, by rw [hl]; rfl, by simp [ho]; omega, ?_⟩
      simpa [scan, hp] using hi
    | some first =>
      obtain ⟨hoff, rfl⟩ := parseEntry_exact hp
      rw [hp] at h
      cases i with
      | zero =>
        obtain rfl : first = e := by simpa using h
        exact ⟨[], lines, rfl, by simp [hoff], rfl⟩
      | succ i =>
        obtain ⟨before, after, hl, ho, hi⟩ := ih (by simpa using h)
        refine ⟨first.text :: before, after, by rw [hl]; rfl, by simp [ho]; omega, ?_⟩
        simpa [scan, hp] using hi

theorem scan_set {before after : List Bytes} {e : Entry} (ho : e.offset = (join newline before).length)
    (s : TransactionState) :
    scan 0 (before ++ { e with state := s }.text :: after) =
      (scan 0 (before ++ e.text :: after)).set (scan 0 before).length { e with state := s } := by
  have he (s : TransactionState) : scan (0 + (join newline before).length) ({ e with state := s }.text :: after) =
      { e with state := s } :: scan (e.offset + e.bytes.length) after := by
    rw [Nat.zero_add, ← ho]
    have hb : ({ e with state := s } : Entry).bytes.length = e.bytes.length := by
      simp [Entry.bytes_length, Entry.text_length]
    rw [← hb]
    exact scan_text _ _
  rw [scan_append, scan_append, he s, he e.state]
  simp

end BankManagement.Wal
