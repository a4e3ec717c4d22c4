import BankManagement.Domain

namespace BankManagement.Json

inductive Value
  | null
  | integer (value : Int64)
  | string (text : Bytes)
  | array (items : List Value)
  | object (members : List (Bytes × Value))

namespace Value

def asInteger : Value → Option Int64
  | .integer n => some n
  | _ => none

def asString : Value → Option Bytes
  | .string text => some text
  | _ => none

def items : Value → List Value
  | .array items => items
  | _ => []

def members : Value → List (Bytes × Value)
  | .object members => members
  | _ => []

def find (v : Value) (key : Bytes) : Option Value :=
  (v.members.find? (fun m => m.1 == key)).map (·.2)

end Value

def setMember (members : List (Bytes × Value)) (key : Bytes) (child : Value) : List (Bytes × Value) :=
  match members with
  | [] => [(key, child)]
  | (k, v) :: rest => if k = key then (k, child) :: rest else (k, v) :: setMember rest key child

namespace Value

def set (v : Value) (key : Bytes) (child : Value) : Except Exn Value :=
  match v with
  | .object members => .ok (.object (setMember members key child))
  | _ => .error "Value::set on a non-object"

def push (v : Value) (child : Value) : Except Exn Value :=
  match v with
  | .array items => .ok (.array (items ++ [child]))
  | _ => .error "Value::push on a non-array"

/-- The values that the public constructors, `set` and `push` make. A child that is changed later,
through the reference that either returns, is one that could have been passed as it then is. -/
inductive Built : Value → Prop
  | null : Built .null
  | integer (n : Int64) : Built (.integer n)
  | string (text : Bytes) : Built (.string text)
  | array : Built (.array [])
  | object : Built (.object [])
  | set {v child v' : Value} {key : Bytes} (hv : Built v) (hc : Built child) (h : v.set key child = .ok v') : Built v'
  | push {v child v' : Value} (hv : Built v) (hc : Built child) (h : v.push child = .ok v') : Built v'

end Value

def hexDigit (n : UInt8) : UInt8 := if n < 10 then 0x30 + n else 0x57 + n

def escapeByte (c : UInt8) : Bytes :=
  if c = 0x22 then [0x5c, 0x22]
  else if c = 0x5c then [0x5c, 0x5c]
  else if c = 0x08 then [0x5c, 0x62]
  else if c = 0x0c then [0x5c, 0x66]
  else if c = 0x0a then [0x5c, 0x6e]
  else if c = 0x0d then [0x5c, 0x72]
  else if c = 0x09 then [0x5c, 0x74]
  else if c < 0x20 then [0x5c, 0x75, 0x30, 0x30, hexDigit (c / 16), hexDigit (c % 16)]
  else [c]

def escaped (text : Bytes) : Bytes := 0x22 :: (text.flatMap escapeByte ++ [0x22])

def digits (n : ℕ) : Bytes := (Nat.toDigits 10 n).map Char.toUInt8

def decimal (n : Int64) : Bytes :=
  if n < 0 then 0x2d :: digits n.toInt.natAbs else digits n.toInt.natAbs

mutual

def dump : Value → Bytes
  | .null => ascii "null"
  | .integer n => decimal n
  | .string text => escaped text
  | .array items => 0x5b :: (dumpItems true items ++ [0x5d])
  | .object members => 0x7b :: (dumpMembers true members ++ [0x7d])

def dumpItems (first : Bool) : List Value → Bytes
  | [] => []
  | item :: rest => (if first then [] else [0x2c]) ++ dump item ++ dumpItems false rest

def dumpMembers (first : Bool) : List (Bytes × Value) → Bytes
  | [] => []
  | (key, member) :: rest =>
    (if first then [] else [0x2c]) ++ escaped key ++ 0x3a :: (dump member ++ dumpMembers false rest)

end

def appendUtf8 (cp : ℕ) : Bytes :=
  if cp ≤ 0x7f then [cp.toUInt8]
  else if cp ≤ 0x7ff then [(0xc0 + cp / 64).toUInt8, (0x80 + cp % 64).toUInt8]
  else if cp ≤ 0xffff then
    [(0xe0 + cp / 4096).toUInt8, (0x80 + cp / 64 % 64).toUInt8, (0x80 + cp % 64).toUInt8]
  else
    [(0xf0 + cp / 262144).toUInt8, (0x80 + cp / 4096 % 64).toUInt8, (0x80 + cp / 64 % 64).toUInt8,
      (0x80 + cp % 64).toUInt8]

def hexValue (c : UInt8) : Option ℕ :=
  if 0x30 ≤ c ∧ c ≤ 0x39 then some (c.toNat - 0x30)
  else if 0x61 ≤ c ∧ c ≤ 0x66 then some (c.toNat - 0x61 + 10)
  else if 0x41 ≤ c ∧ c ≤ 0x46 then some (c.toNat - 0x41 + 10)
  else none

def isDigit (c : UInt8) : Bool := decide (0x30 ≤ c) && decide (c ≤ 0x39)

def isSpace (c : UInt8) : Bool := c == 0x20 || c == 0x09 || c == 0x0a || c == 0x0d

def skipWhitespace (text : Bytes) : Bytes := text.dropWhile isSpace

def parseKeyword (keyword : Bytes) (value : Value) (text : Bytes) : Option (Value × Bytes) :=
  if keyword <+: text then some (value, text.drop keyword.length) else none

def parseDigits (value : ℕ) : Bytes → Option (ℕ × Bytes)
  | [] => some (value, [])
  | c :: rest =>
    if isDigit c then
      let digit := c.toNat - 0x30
      if value > (2 ^ 63 - 1 - digit) / 10 then none else parseDigits (value * 10 + digit) rest
    else some (value, c :: rest)

def parseInteger (text : Bytes) : Option (Value × Bytes) :=
  let negative := text.head? == some 0x2d
  let text := if negative then text.tail else text
  if (text.head?.map isDigit).getD false then
    (parseDigits 0 text).map fun (value, rest) =>
      (.integer (if negative then -Int64.ofNat value else Int64.ofNat value), rest)
  else none

def parseHex4 (a b c d : UInt8) : Option ℕ := do
  let a ← hexValue a
  let b ← hexValue b
  let c ← hexValue c
  let d ← hexValue d
  return ((a * 16 + b) * 16 + c) * 16 + d

def unescape (c : UInt8) : Option UInt8 :=
  if c = 0x22 then some 0x22
  else if c = 0x5c then some 0x5c
  else if c = 0x2f then some 0x2f
  else if c = 0x62 then some 0x08
  else if c = 0x66 then some 0x0c
  else if c = 0x6e then some 0x0a
  else if c = 0x72 then some 0x0d
  else if c = 0x74 then some 0x09
  else none

def parseString (out : Bytes) : Bytes → Option (Bytes × Bytes)
  | [] => none
  | c :: rest =>
    if c = 0x22 then some (out, rest)
    else if c ≠ 0x5c then parseString (out ++ [c]) rest
    else match rest with
      | [] => none
      | e :: rest =>
        if e = 0x75 then match rest with
          | a :: b :: c :: d :: rest => match parseHex4 a b c d with
            | none => none
            | some cp =>
              -- surrogate pairs are not expected
              if 0xd800 ≤ cp ∧ cp ≤ 0xdfff then none else parseString (out ++ appendUtf8 cp) rest
          | _ => none
        else match unescape e with
          | none => none
          | some b => parseString (out ++ [b]) rest

mutual

/-- `fuel` bounds the depth of the recursion and the turns of the two loops together. -/
def parseValue : ℕ → Bytes → Option (Value × Bytes)
  | 0, _ => none
  | _ + 1, [] => none
  | fuel + 1, c :: rest =>
    if c = 0x7b then
      let text := skipWhitespace rest
      if text.head? = some 0x7d then some (.object [], text.tail) else parseMembers fuel [] text
    else if c = 0x5b then
      let text := skipWhitespace rest
      if text.head? = some 0x5d then some (.array [], text.tail) else parseItems fuel [] text
    else if c = 0x22 then (parseString [] rest).map fun (out, rest) => (.string out, rest)
    else if c = 0x6e then parseKeyword (ascii "null") .null (c :: rest)
    else if isDigit c || c == 0x2d then parseInteger (c :: rest)
    else none

def parseItems : ℕ → List Value → Bytes → Option (Value × Bytes)
  | 0, _, _ => none
  | fuel + 1, out, text =>
    match parseValue fuel (skipWhitespace text) with
    | none => none
    | some (item, rest) =>
      match skipWhitespace rest with
      | c :: rest =>
        if c = 0x2c then parseItems fuel (out ++ [item]) rest
        else if c = 0x5d then some (.array (out ++ [item]), rest)
        else none
      | [] => none

def parseMembers : ℕ → List (Bytes × Value) → Bytes → Option (Value × Bytes)
  | 0, _, _ => none
  | fuel + 1, out, text =>
    match skipWhitespace text with
    | [] => none
    | q :: text =>
      if q ≠ 0x22 then none
      else match parseString [] text with
        | none => none
        | some (key, rest) =>
          match skipWhitespace rest with
          | [] => none
          | c :: rest =>
            if c ≠ 0x3a then none
            else match parseValue fuel (skipWhitespace rest) with
              | none => none
              | some (member, rest) =>
                match skipWhitespace rest with
                | c :: rest =>
                  if c = 0x2c then parseMembers fuel (setMember out key member) rest
                  else if c = 0x7d then some (.object (setMember out key member), rest)
                  else none
                | [] => none

end

/-- Every turn of a loop and every nesting consumes a byte, so this fuel never runs out. -/
def parse (text : Bytes) : Option Value :=
  match parseValue (2 * text.length + 2) (skipWhitespace text) with
  | none => none
  | some (value, rest) => if skipWhitespace rest = [] then some value else none

end BankManagement.Json
