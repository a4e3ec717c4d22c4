import BankManagement.LineFraming
import BankManagement.Serializer

namespace BankManagement

open Json Codec

def TransactionState.index : TransactionState → ℕ
  | .pending => 0
  | .validated => 1
  | .walWritten => 2
  | .applied => 3
  | .committed => 4
  | .failed => 5
  | .rolledBack => 6

namespace Wal

def kIdFieldWidth : ℕ := 16
def kStateFieldPos : ℕ := kIdFieldWidth
def kHeaderSize : ℕ := kIdFieldWidth + 1

def newline : UInt8 := 0x0a

def stateByte (s : TransactionState) : UInt8 := (0x30 + s.index).toUInt8

def stateFromByte (c : UInt8) : Option TransactionState :=
  if c = 0x30 then some .pending
  else if c = 0x31 then some .validated
  else if c = 0x32 then some .walWritten
  else if c = 0x33 then some .applied
  else if c = 0x34 then some .committed
  else if c = 0x35 then some .failed
  else if c = 0x36 then some .rolledBack
  else none

def hexField : ℕ → ℕ → Bytes
  | 0, _ => []
  | width + 1, n => hexDigit (n / 16 ^ width % 16).toUInt8 :: hexField width n

def idToField (id : TransactionId) : Bytes := hexField kIdFieldWidth id.toNat

def nibble (c : UInt8) : Option ℕ :=
  if 0x30 ≤ c ∧ c ≤ 0x39 then some (c.toNat - 0x30)
  else if 0x61 ≤ c ∧ c ≤ 0x66 then some (c.toNat - 0x61 + 10)
  else none

def idFromField (value : UInt64) : Bytes → Option UInt64
  | [] => some value
  | c :: rest => match nibble c with
    | none => none
    | some n => idFromField (value * 16 + n.toUInt64) rest

structure Entry where
  id : TransactionId
  state : TransactionState
  offset : ℕ
  payload : Bytes
  deriving DecidableEq

/-- The logger's members, with the bytes of the file it writes. -/
structure WalLogger where
  file : Bytes
  entries : List Entry
  nextOffset : ℕ
  dropTail : Bool
  validLength : ℕ

def parseEntry (lineStart : ℕ) (line : Bytes) : Option Entry :=
  if kHeaderSize ≤ line.length then
    match idFromField 0 (line.take kIdFieldWidth) with
    | none => none
    | some id => match (line)[kStateFieldPos]?.bind stateFromByte with
      | none => none
      | some state => some { id, state, offset := lineStart, payload := line.drop kHeaderSize }
  else none

def scan (lineStart : ℕ) : List Bytes → List Entry
  | [] => []
  | line :: rest => (parseEntry lineStart line).toList ++ scan (lineStart + line.length + 1) rest

def openFile (data : Bytes) : WalLogger :=
  let (lines, tail) := LineFraming.split newline data
  let lineStart := data.length - tail.length
  if lineStart < data.length then
    { file := data, entries := scan 0 lines, nextOffset := lineStart, dropTail := true, validLength := lineStart }
  else
    { file := data, entries := scan 0 lines, nextOffset := data.length, dropTail := false, validLength := 0 }

def resizeFile (data : Bytes) (size : ℕ) : Bytes :=
  data.take size ++ List.replicate (size - data.length) 0

/-- A put after a seek: bytes between the end and the position are zeros. -/
def putAt (data : Bytes) (pos : ℕ) (b : UInt8) : Bytes :=
  if pos < data.length then data.set pos b
  else data ++ List.replicate (pos - data.length) 0 ++ [b]

namespace WalLogger

def truncateInterruptedTail (w : WalLogger) : WalLogger :=
  { w with file := resizeFile w.file w.validLength, dropTail := false, nextOffset := w.validLength }

def dropInterrupted (w : WalLogger) : WalLogger :=
  if w.dropTail then w.truncateInterruptedTail else w

def line (r : TransactionRecord) : Bytes :=
  idToField r.id ++ [stateByte r.state] ++ serialize r ++ [newline]

def append (r : TransactionRecord) (w : WalLogger) : WalLogger :=
  let w := w.dropInterrupted
  let entry := { id := r.id, state := r.state, offset := w.nextOffset, payload := serialize r }
  { w with
    file := w.file ++ line r
    entries := w.entries ++ [entry]
    nextOffset := w.nextOffset + (line r).length }

/-- An append that stops after `written` bytes of its line: the process crashes there, or the
stream fails and the call throws. -/
def appendTorn (r : TransactionRecord) (written : ℕ) (w : WalLogger) : WalLogger :=
  let w := w.dropInterrupted
  { w with file := w.file ++ (line r).take written }

def commitAt (i : ℕ) (entry : Entry) (w : WalLogger) : WalLogger :=
  { w with
    file := putAt w.file (entry.offset + kStateFieldPos) (stateByte .committed)
    entries := w.entries.set i { entry with state := .committed } }

def markCommitted (id : TransactionId) (w : WalLogger) : Except Exn Unit × WalLogger :=
  let i := w.entries.findIdx (·.id == id)
  match w.entries[i]? with
  | none => (.error "WalLogger: mark_committed on unknown transaction id", w)
  | some entry =>
    if entry.state = .committed then (.ok (), w)
    else (.ok (), w.commitAt i entry)

def size (w : WalLogger) : ℕ := w.entries.length

/-- The record of an entry: the header's state is authoritative. -/
def record (e : Entry) : Option TransactionRecord :=
  (deserializeTransaction e.payload).map fun r => { r with state := e.state }

def loadAll (w : WalLogger) : List TransactionRecord := w.entries.filterMap record

def replayFrom (w : WalLogger) (fromLsn : ℕ) : List TransactionRecord :=
  (w.entries.drop fromLsn).filterMap record

theorem markCommitted_unknown {id : TransactionId} {w : WalLogger} (h : ∀ e ∈ w.entries, e.id ≠ id) :
    w.markCommitted id = (.error "WalLogger: mark_committed on unknown transaction id", w) := by
  have hi : w.entries.findIdx (·.id == id) = w.entries.length := by
    apply List.findIdx_eq_length_of_false
    simpa using h
  simp [markCommitted, hi]

theorem markCommitted_known {id : TransactionId} {w : WalLogger} (h : ∃ e ∈ w.entries, e.id = id) :
    ∃ i e, w.entries[i]? = some e ∧ e.id = id ∧ (∀ j < i, ∀ e', w.entries[j]? = some e' → e'.id ≠ id) ∧
      (e.state = .committed ∧ w.markCommitted id = (.ok (), w) ∨
        e.state ≠ .committed ∧ w.markCommitted id = (.ok (), w.commitAt i e)) := by
  have hlt : w.entries.findIdx (·.id == id) < w.entries.length := by
    obtain ⟨e, he, hid⟩ := h
    exact List.findIdx_lt_length_of_exists ⟨e, he, by simpa using hid⟩
  have hget := List.getElem?_eq_getElem hlt
  refine ⟨_, _, hget, by simpa using List.findIdx_getElem (w := hlt), ?_, ?_⟩
  · intro j hj e' he'
    have hjl : j < w.entries.length := by omega
    rw [List.getElem?_eq_getElem hjl] at he'
    obtain rfl := Option.some.inj he'
    simpa using List.not_of_lt_findIdx hj
  · by_cases hs : w.entries[w.entries.findIdx (·.id == id)].state = .committed
    · exact .inl ⟨hs, by rw [markCommitted, hget]; exact if_pos hs⟩
    · exact .inr ⟨hs, by rw [markCommitted, hget]; exact if_neg hs⟩

end WalLogger

end Wal

end BankManagement
