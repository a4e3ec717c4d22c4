import BankManagement.Json

/-!
The texts of the format as syntax trees: what each spells, and which value it denotes. Numbers may
have leading zeros here and strings raw control bytes; `Tree.standard` tells the trees of the standard's
grammar apart.
-/

namespace BankManagement.Json

def Gap := {gap : Bytes // ∀ c ∈ gap, c = 0x20 ∨ c = 0x09 ∨ c = 0x0a ∨ c = 0x0d}

def Digit := {c : UInt8 // 0x30 ≤ c ∧ c ≤ 0x39}

def HexDigit := {c : UInt8 // (0x30 ≤ c ∧ c ≤ 0x39) ∨ (0x41 ≤ c ∧ c ≤ 0x46) ∨ (0x61 ≤ c ∧ c ≤ 0x66)}

def Digit.value (d : Digit) : ℕ := d.1.toNat - 0x30

def HexDigit.value (d : HexDigit) : ℕ :=
  if d.1 ≤ 0x39 then d.1.toNat - 0x30 else if d.1 ≤ 0x46 then d.1.toNat - 0x41 + 10 else d.1.toNat - 0x61 + 10

inductive Escape
  | quote
  | backslash
  | slash
  | backspace
  | formFeed
  | lineFeed
  | carriageReturn
  | tab

def Escape.letter : Escape → UInt8
  | .quote => 0x22
  | .backslash => 0x5c
  | .slash => 0x2f
  | .backspace => 0x62
  | .formFeed => 0x66
  | .lineFeed => 0x6e
  | .carriageReturn => 0x72
  | .tab => 0x74

def Escape.byte : Escape → UInt8
  | .quote => 0x22
  | .backslash => 0x5c
  | .slash => 0x2f
  | .backspace => 0x08
  | .formFeed => 0x0c
  | .lineFeed => 0x0a
  | .carriageReturn => 0x0d
  | .tab => 0x09

def codePoint (a b c d : HexDigit) : ℕ := ((a.value * 16 + b.value) * 16 + c.value) * 16 + d.value

/-- What may stand between the quotes of a string. A code point is no surrogate. -/
inductive Piece
  | plain (c : UInt8) (h : c ≠ 0x22 ∧ c ≠ 0x5c)
  | letter (e : Escape)
  | code (a b c d : HexDigit) (h : (codePoint a b c d).isValidChar)

namespace Piece

def text : Piece → Bytes
  | .plain c _ => [c]
  | .letter e => [0x5c, e.letter]
  | .code a b c d _ => [0x5c, 0x75, a.1, b.1, c.1, d.1]

def bytes : Piece → Bytes
  | .plain c _ => [c]
  | .letter e => [e.byte]
  | .code a b c d _ => String.utf8EncodeChar (Char.ofNat (codePoint a b c d))

def strict : Piece → Bool
  | .plain c _ => decide (0x20 ≤ c)
  | _ => true

end Piece

structure Numeral where
  negative : Bool
  first : Digit
  rest : List Digit

namespace Numeral

def text (n : Numeral) : Bytes := (if n.negative then [0x2d] else []) ++ n.first.1 :: n.rest.map (·.1)

def magnitude (n : Numeral) : ℕ := n.rest.foldl (fun m d => m * 10 + d.value) n.first.value

def value (n : Numeral) : Int := if n.negative then -(n.magnitude : Int) else n.magnitude

def strict (n : Numeral) : Bool := n.first.1 ≠ 0x30 || n.rest.isEmpty

def inRange (n : Numeral) : Bool := decide (-2 ^ 63 ≤ n.value) && decide (n.value < 2 ^ 63)

end Numeral

def quoted (pieces : List Piece) : Bytes := 0x22 :: (pieces.flatMap Piece.text ++ [0x22])

mutual

inductive Tree
  | null
  | integer (n : Numeral)
  | string (pieces : List Piece)
  | emptyArray (gap : Gap)
  | array (items : Items)
  | emptyObject (gap : Gap)
  | object (members : Members)

inductive Items
  | last (before : Gap) (item : Tree) (after : Gap)
  | more (before : Gap) (item : Tree) (after : Gap) (rest : Items)

inductive Members
  | last (before : Gap) (key : List Piece) (colonBefore colonAfter : Gap) (member : Tree) (after : Gap)
  | more (before : Gap) (key : List Piece) (colonBefore colonAfter : Gap) (member : Tree) (after : Gap) (rest : Members)

end

mutual

def Tree.text : Tree → Bytes
  | .null => ascii "null"
  | .integer n => n.text
  | .string pieces => quoted pieces
  | .emptyArray gap => 0x5b :: (gap.1 ++ [0x5d])
  | .array items => 0x5b :: items.text
  | .emptyObject gap => 0x7b :: (gap.1 ++ [0x7d])
  | .object members => 0x7b :: members.text

def Items.text : Items → Bytes
  | .last before item after => before.1 ++ (item.text ++ (after.1 ++ [0x5d]))
  | .more before item after rest => before.1 ++ (item.text ++ (after.1 ++ 0x2c :: rest.text))

def Members.text : Members → Bytes
  | .last before key colonBefore colonAfter member after =>
    before.1 ++ (quoted key ++ (colonBefore.1 ++ 0x3a :: (colonAfter.1 ++ (member.text ++ (after.1 ++ [0x7d])))))
  | .more before key colonBefore colonAfter member after rest =>
    before.1 ++ (quoted key ++ (colonBefore.1 ++ 0x3a ::
      (colonAfter.1 ++ (member.text ++ (after.1 ++ 0x2c :: rest.text)))))

end

mutual

def Tree.value : Tree → Value
  | .null => .null
  | .integer n => .integer (Int64.ofInt n.value)
  | .string pieces => .string (pieces.flatMap Piece.bytes)
  | .emptyArray _ => .array []
  | .array items => .array items.values
  | .emptyObject _ => .object []
  | .object members => .object (members.values [])

def Items.values : Items → List Value
  | .last _ item _ => [item.value]
  | .more _ item _ rest => item.value :: rest.values

/-- The members after those in `out`: of two with the same key the last one wins, at the place of
the first. -/
def Members.values (out : List (Bytes × Value)) : Members → List (Bytes × Value)
  | .last _ key _ _ member _ => setMember out (key.flatMap Piece.bytes) member.value
  | .more _ key _ _ member _ rest => rest.values (setMember out (key.flatMap Piece.bytes) member.value)

end

mutual

def Tree.all (number : Numeral → Bool) (piece : Piece → Bool) : Tree → Bool
  | .null => true
  | .integer n => number n
  | .string pieces => pieces.all piece
  | .emptyArray _ => true
  | .array items => items.all number piece
  | .emptyObject _ => true
  | .object members => members.all number piece

def Items.all (number : Numeral → Bool) (piece : Piece → Bool) : Items → Bool
  | .last _ item _ => item.all number piece
  | .more _ item _ rest => item.all number piece && rest.all number piece

def Members.all (number : Numeral → Bool) (piece : Piece → Bool) : Members → Bool
  | .last _ key _ _ member _ => key.all piece && member.all number piece
  | .more _ key _ _ member _ rest => key.all piece && member.all number piece && rest.all number piece

end

/-- A tree of the standard's grammar: no leading zeros, no raw control bytes, and every number an
`int64_t`. -/
def Tree.standard (t : Tree) : Bool := t.all (fun n => n.strict && n.inRange) Piece.strict

def Tree.readable (t : Tree) : Bool := t.all (fun n => decide (n.magnitude < 2 ^ 63)) (fun _ => true)

def Spells (t : Tree) (text : Bytes) : Prop := ∃ before after : Gap, text = before.1 ++ (t.text ++ after.1)

def Denotes (text : Bytes) (v : Value) : Prop := ∃ t : Tree, t.standard = true ∧ Spells t text ∧ t.value = v

end BankManagement.Json
