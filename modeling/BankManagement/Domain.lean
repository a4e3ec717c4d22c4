import Mathlib.Algebra.Order.Ring.Int
import Mathlib.Data.List.Basic

namespace BankManagement

abbrev Bytes := List UInt8

/-- The bytes of a string literal of the source; all of them are ASCII. -/
def ascii (s : String) : Bytes := s.toList.map Char.toUInt8

/-- The text of a `std::exception`: every handler of the source reads only `what()`. -/
abbrev Exn := String

abbrev CustomerId := UInt64
abbrev AccountId := UInt64
abbrev TransactionId := UInt64

/-- A `system_clock` time point, in nanoseconds since the epoch. -/
abbrev TimePoint := Int64

def toUnixMs (t : TimePoint) : Int64 := t / 1000000
def fromUnixMs (ms : Int64) : TimePoint := ms * 1000000

theorem toUnixMs_toInt (t : TimePoint) : (toUnixMs t).toInt = t.toInt.tdiv 1000000 := by
  unfold toUnixMs
  rw [Int64.toInt_div_of_ne_right _ _ (by decide)]
  rfl

inductive AccountStatus
  | active
  | frozen
  | closed
  deriving DecidableEq, Repr

inductive TransactionType
  | deposit
  | withdraw
  | transfer
  deriving DecidableEq, Repr

inductive TransactionState
  | pending
  | validated
  | walWritten
  | applied
  | committed
  | failed
  | rolledBack
  deriving DecidableEq, Repr

def AccountStatus.toString : AccountStatus → Bytes
  | .active => ascii "active"
  | .frozen => ascii "frozen"
  | .closed => ascii "closed"

def AccountStatus.fromString (text : Bytes) : Option AccountStatus :=
  if text = ascii "active" then some .active
  else if text = ascii "frozen" then some .frozen
  else if text = ascii "closed" then some .closed
  else none

def TransactionType.toString : TransactionType → Bytes
  | .deposit => ascii "deposit"
  | .withdraw => ascii "withdraw"
  | .transfer => ascii "transfer"

def TransactionType.fromString (text : Bytes) : Option TransactionType :=
  if text = ascii "deposit" then some .deposit
  else if text = ascii "withdraw" then some .withdraw
  else if text = ascii "transfer" then some .transfer
  else none

def TransactionState.toString : TransactionState → Bytes
  | .pending => ascii "pending"
  | .validated => ascii "validated"
  | .walWritten => ascii "wal_written"
  | .applied => ascii "applied"
  | .committed => ascii "committed"
  | .failed => ascii "failed"
  | .rolledBack => ascii "rolled_back"

def TransactionState.fromString (text : Bytes) : Option TransactionState :=
  if text = ascii "pending" then some .pending
  else if text = ascii "validated" then some .validated
  else if text = ascii "wal_written" then some .walWritten
  else if text = ascii "applied" then some .applied
  else if text = ascii "committed" then some .committed
  else if text = ascii "failed" then some .failed
  else if text = ascii "rolled_back" then some .rolledBack
  else none

structure Money where
  cents : ℕ
  lt : cents < 2 ^ 63
  deriving DecidableEq, Repr

namespace Money

def zero : Money := ⟨0, by decide⟩

instance instOfNat (cents : ℕ) : OfNat Money cents where
  ofNat := ⟨cents % 2 ^ 63, Nat.mod_lt _ (by decide)⟩

/-- The constructor, on an argument that passes its check. -/
def ofCents (cents : Int64) (_ : ¬ cents < 0) : Money :=
  ⟨cents.toNatClampNeg, cents.toNatClampNeg_lt⟩

def isPositive (m : Money) : Bool := decide (0 < m.cents)

def plus (m other : Money) : Except Exn Money :=
  if h : other.cents > 2 ^ 63 - 1 - m.cents then .error "Money: addition overflow"
  else .ok ⟨m.cents + other.cents, by have := m.lt; omega⟩

def minus (m other : Money) : Except Exn Money :=
  if other.cents > m.cents then .error "Money: subtraction would go below zero"
  else .ok ⟨m.cents - other.cents, by have := m.lt; omega⟩

def canSubtract (m other : Money) : Bool := decide (other.cents ≤ m.cents)

end Money

structure Account where
  id : AccountId
  ownerId : CustomerId
  balance : Money
  status : AccountStatus
  version : UInt64
  deriving DecidableEq, Repr

namespace Account

/-- Status is not checked here: `validate` is what blocks frozen and closed accounts. -/
def deposit (a : Account) (amount : Money) : Except Exn Account :=
  if amount.cents = 0 then .ok a
  else match a.balance.plus amount with
    | .error e => .error e
    | .ok balance => .ok { a with balance, version := a.version + 1 }

def canWithdraw (a : Account) (amount : Money) : Bool :=
  decide (a.status = .active) && a.balance.canSubtract amount

def withdraw (a : Account) (amount : Money) : Except Exn Account :=
  if a.status ≠ .active then
    .error "Account: transaction refused on a frozen or closed account"
  else if !a.balance.canSubtract amount then .error "Account: insufficient funds"
  else match a.balance.minus amount with
    | .error e => .error e
    | .ok balance => .ok { a with balance, version := a.version + 1 }

def setStatus (a : Account) (status : AccountStatus) : Account :=
  if a.status = status then a else { a with status, version := a.version + 1 }

end Account

inductive Transaction
  | deposit (accountId : AccountId) (amount : Money)
  | withdraw (accountId : AccountId) (amount : Money)
  | transfer (fromId toId : AccountId) (amount : Money)
  deriving DecidableEq, Repr

structure TransactionRecord where
  id : TransactionId
  timestamp : TimePoint
  type : TransactionType
  state : TransactionState
  fromId : Option AccountId
  toId : Option AccountId
  amount : Money
  deriving DecidableEq, Repr

namespace Transaction

def typeOf : Transaction → TransactionType
  | .deposit .. => .deposit
  | .withdraw .. => .withdraw
  | .transfer .. => .transfer

def amountOf : Transaction → Money
  | .deposit _ amount => amount
  | .withdraw _ amount => amount
  | .transfer _ _ amount => amount

def debitAccount : Transaction → Option AccountId
  | .deposit .. => none
  | .withdraw k _ => some k
  | .transfer fromId _ _ => some fromId

def creditAccount : Transaction → Option AccountId
  | .deposit k _ => some k
  | .withdraw .. => none
  | .transfer _ toId _ => some toId

def pushUnique (ids : List AccountId) : Option AccountId → List AccountId
  | none => ids
  | some k => if k ∈ ids then ids else ids ++ [k]

def involvedAccounts (t : Transaction) : List AccountId :=
  pushUnique (pushUnique [] t.debitAccount) t.creditAccount

def formatMoney (cents : ℕ) : String :=
  "$" ++ toString (cents / 100) ++ "." ++ (if cents % 100 < 10 then "0" else "") ++
    toString (cents % 100)

def describe : Transaction → String
  | .deposit k amount =>
    "deposit account " ++ toString k.toNat ++ " += " ++ formatMoney amount.cents
  | .withdraw k amount =>
    "withdraw account " ++ toString k.toNat ++ " -= " ++ formatMoney amount.cents
  | .transfer fromId toId amount =>
    "transfer " ++ formatMoney amount.cents ++ " account " ++ toString fromId.toNat ++
      " -> " ++ toString toId.toNat

end Transaction

def projectTransaction (id : TransactionId) (now : TimePoint) (t : Transaction) : TransactionRecord where
  id := id
  timestamp := now
  type := t.typeOf
  state := .pending
  fromId := t.debitAccount
  toId := t.creditAccount
  amount := t.amountOf

def materializeTransaction (r : TransactionRecord) : Except Exn Transaction :=
  match r.type with
  | .deposit => match r.toId with
    | none => .error "materialize: deposit record lacks a target"
    | some k => .ok (.deposit k r.amount)
  | .withdraw => match r.fromId with
    | none => .error "materialize: withdraw record lacks a source"
    | some k => .ok (.withdraw k r.amount)
  | .transfer => match r.fromId, r.toId with
    | some fromId, some toId => .ok (.transfer fromId toId r.amount)
    | _, _ => .error "materialize: transfer record lacks a leg"

end BankManagement
