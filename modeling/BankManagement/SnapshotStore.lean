import BankManagement.Serializer

namespace BankManagement

open Json Codec

structure Snapshot where
  lsn : ℕ
  accounts : List Account
  deriving DecidableEq

namespace Snapshot

def kLsn : Bytes := ascii "lsn"
def kAccounts : Bytes := ascii "accounts"

def toJson (s : Snapshot) : Value :=
  objectOf [(kLsn, .integer (UInt64.ofNat s.lsn).toInt64), (kAccounts, .array (s.accounts.map accountToJson))]

def text (s : Snapshot) : Bytes := dump s.toJson ++ [0x0a]

def fromJson (doc : Value) : Option Snapshot :=
  if !isObject doc then none
  else match doc.find kLsn, doc.find kAccounts with
    | some lsn, some accounts => match lsn.asInteger with
      | none => none
      | some n => (accounts.items.mapM accountFromJson).map fun accounts => ⟨n.toUInt64.toNat, accounts⟩
    | _, _ => none

def load (file : Option Bytes) : Option Snapshot :=
  (file.bind parse).bind fromJson

end Snapshot

def Account.Storable (a : Account) : Prop :=
  a.id.toNat < 2 ^ 63 ∧ a.ownerId.toNat < 2 ^ 63 ∧ a.version.toNat < 2 ^ 63

instance (a : Account) : Decidable a.Storable := inferInstanceAs (Decidable (_ ∧ _ ∧ _))

namespace Codec

theorem accountToJson_members (a : Account) :
    accountToJson a = .object [
      (kId, .integer a.id.toInt64), (kOwner, .integer a.ownerId.toInt64),
      (kBalance, .integer (Int64.ofNat a.balance.cents)), (kStatus, .string a.status.toString),
      (kVersion, .integer a.version.toInt64)] := rfl

theorem accountToJson_keys (a : Account) : DistinctKeys (accountToJson a) := by
  have hkeys : [kId, kOwner, kBalance, kStatus, kVersion].Nodup := by decide
  exact ⟨hkeys, trivial, trivial, trivial, trivial, trivial, trivial⟩

theorem accountToJson_parseable {a : Account} (h : a.Storable) : parseable (accountToJson a) = true := by
  obtain ⟨hid, howner, hversion⟩ := h
  rw [accountToJson_members]
  simp only [parseable, parseableMembers, Bool.and_eq_true, decide_eq_true_eq, ne_eq, toInt64_min,
    (ofNat_cents a.balance).2.1, not_false_eq_true, true_and, and_true]
  omega

theorem accountFromJson_toJson (a : Account) :
    accountFromJson (accountToJson a) = if a.Storable then some a else none := by
  have hid : intOf (accountToJson a) kId = some a.id.toInt64 := rfl
  have howner : intOf (accountToJson a) kOwner = some a.ownerId.toInt64 := rfl
  have hbalance : intOf (accountToJson a) kBalance = some (Int64.ofNat a.balance.cents) := rfl
  have hstatus : strOf (accountToJson a) kStatus = some a.status.toString := rfl
  have hversion : intOf (accountToJson a) kVersion = some a.version.toInt64 := rfl
  have hobj : isObject (accountToJson a) = true := rfl
  unfold accountFromJson
  simp only [hobj, hid, howner, hbalance, hstatus, hversion]
  have hneg : a.id.toInt64 < 0 ∨ a.ownerId.toInt64 < 0 ∨ a.version.toInt64 < 0 ↔ ¬ a.Storable := by
    simp only [Account.Storable, toInt64_neg]
    omega
  by_cases hs : a.Storable
  · simp [hneg, hs, (ofNat_cents a.balance).1, ofCents_cents]
  · simp [hneg, hs, (ofNat_cents a.balance).1]

theorem accountFromJson_storable {v : Value} {a : Account} (h : accountFromJson v = some a) : a.Storable := by
  unfold accountFromJson at h
  split_ifs at h
  simp only [Option.bind_eq_bind, Option.bind_eq_some_iff] at h
  obtain ⟨id, _, owner, _, balance, _, status, _, version, _, h⟩ := h
  split_ifs at h with _ hneg
  simp only [Option.bind_eq_some_iff] at h
  obtain ⟨status, _, h⟩ := h
  obtain rfl := Option.some.inj h
  simp only [not_or] at hneg
  exact ⟨toUInt64_lt hneg.1, toUInt64_lt hneg.2.1, toUInt64_lt hneg.2.2⟩

end Codec

namespace Snapshot

theorem toJson_members (s : Snapshot) :
    s.toJson = .object [(kLsn, .integer (UInt64.ofNat s.lsn).toInt64),
      (kAccounts, .array (s.accounts.map accountToJson))] := rfl

theorem toJson_keys (s : Snapshot) : DistinctKeys s.toJson := by
  have hkeys : [kLsn, kAccounts].Nodup := by decide
  have hitems : DistinctKeysItems (s.accounts.map accountToJson) := by
    induction s.accounts with
    | nil => trivial
    | cons a accounts ih => exact ⟨accountToJson_keys a, ih⟩
  exact ⟨hkeys, trivial, hitems, trivial⟩

theorem accounts_parseable {accounts : List Account} (h : ∀ a ∈ accounts, a.Storable) :
    parseableItems (accounts.map accountToJson) = true := by
  induction accounts with
  | nil => rfl
  | cons a accounts ih =>
    simp only [List.map_cons, parseableItems, Bool.and_eq_true]
    exact ⟨accountToJson_parseable (h a List.mem_cons_self), ih fun b hb => h b (List.mem_cons_of_mem _ hb)⟩

theorem toJson_parseable {s : Snapshot} (hlt : s.lsn < 2 ^ 64) (hl : s.lsn ≠ 2 ^ 63) (ha : ∀ a ∈ s.accounts, a.Storable) :
    parseable s.toJson = true := by
  have hitems := accounts_parseable ha
  rw [toJson_members]
  simp only [parseable, parseableMembers, hitems, Bool.and_true, decide_eq_true_eq, ne_eq, toInt64_min,
    UInt64.toNat_ofNat']
  omega

theorem mapM_accountFromJson (accounts : List Account) :
    (accounts.map accountToJson).mapM accountFromJson =
      if ∀ a ∈ accounts, a.Storable then some accounts else none := by
  induction accounts with
  | nil => simp
  | cons a accounts ih =>
    rw [List.map_cons, List.mapM_cons, accountFromJson_toJson, ih]
    by_cases ha : a.Storable
    · by_cases hr : ∀ b ∈ accounts, b.Storable
      · rw [if_pos ha, if_pos hr, if_pos (List.forall_mem_cons.mpr ⟨ha, hr⟩)]
        rfl
      · rw [if_pos ha, if_neg hr, if_neg (fun hc => hr (List.forall_mem_cons.mp hc).2)]
        rfl
    · rw [if_neg ha, if_neg (fun hc => ha (List.forall_mem_cons.mp hc).1)]
      rfl

theorem parse_text (s : Snapshot) : parse s.text = if parseable s.toJson then some s.toJson else none :=
  parse_dump_space _ s.toJson_keys (noDigit_cons (by decide) _) (by decide)

theorem load_text_of_ne {s : Snapshot} (hlt : s.lsn < 2 ^ 64) (hl : s.lsn ≠ 2 ^ 63) (ha : ∀ a ∈ s.accounts, a.Storable) :
    load (some s.text) = some s := by
  have hparse : parse s.text = some s.toJson := by
    rw [parse_text, if_pos (toJson_parseable hlt hl ha)]
  have hlsn : (UInt64.ofNat s.lsn).toInt64.toUInt64.toNat = s.lsn := by
    change (UInt64.ofNat s.lsn).toNat = s.lsn
    rw [UInt64.toNat_ofNat', Nat.mod_eq_of_lt (by omega)]
  have hobj : isObject s.toJson = true := rfl
  have hfind : s.toJson.find kLsn = some (.integer (UInt64.ofNat s.lsn).toInt64) := rfl
  have hitems : s.toJson.find kAccounts = some (.array (s.accounts.map accountToJson)) := rfl
  rw [load, Option.bind_some, hparse, Option.bind_some, fromJson]
  simp only [hobj, hfind, hitems, Value.asInteger, Value.items, mapM_accountFromJson, if_pos ha, hlsn]
  rfl

theorem load_text {s : Snapshot} (hl : s.lsn < 2 ^ 63) (ha : ∀ a ∈ s.accounts, a.Storable) :
    load (some s.text) = some s :=
  load_text_of_ne (Nat.lt_trans hl (by decide)) (Nat.ne_of_lt hl) ha

theorem mem_of_mapM {α β : Type} {f : α → Option β} {l : List α} {ys : List β} (h : l.mapM f = some ys) {y : β}
    (hy : y ∈ ys) : ∃ x ∈ l, f x = some y := by
  induction l generalizing ys with
  | nil =>
    obtain rfl := Option.some.inj h
    cases hy
  | cons x l ih =>
    rw [List.mapM_cons] at h
    obtain ⟨b, hb, h⟩ := Option.bind_eq_some_iff.mp h
    obtain ⟨bs, hbs, h⟩ := Option.bind_eq_some_iff.mp h
    obtain rfl := Option.some.inj h
    rcases List.mem_cons.mp hy with rfl | hy
    · exact ⟨x, List.mem_cons_self, hb⟩
    · obtain ⟨x', hx', hf⟩ := ih hbs hy
      exact ⟨x', List.mem_cons_of_mem _ hx', hf⟩

theorem load_storable {file : Option Bytes} {s : Snapshot} (h : load file = some s) :
    ∀ a ∈ s.accounts, a.Storable := by
  obtain ⟨doc, _, h⟩ := Option.bind_eq_some_iff.mp h
  unfold fromJson at h
  split_ifs at h
  split at h
  · split at h
    · cases h
    · obtain ⟨accounts, haccounts, rfl⟩ := Option.map_eq_some_iff.mp h
      intro a ha
      obtain ⟨v, _, hv⟩ := mem_of_mapM haccounts ha
      exact accountFromJson_storable hv
  · cases h

theorem lsn_of_load {s : Snapshot} (h : load (some s.text) = some s) : s.lsn < 2 ^ 64 ∧ s.lsn ≠ 2 ^ 63 := by
  rw [load, Option.bind_some, parse_text] at h
  split_ifs at h with hp
  · rw [Option.bind_some, fromJson] at h
    have hobj : isObject s.toJson = true := rfl
    have hfind : s.toJson.find kLsn = some (.integer (UInt64.ofNat s.lsn).toInt64) := rfl
    have hitems : s.toJson.find kAccounts = some (.array (s.accounts.map accountToJson)) := rfl
    simp only [hobj, hfind, hitems, Value.asInteger, Bool.not_true, Bool.false_eq_true, ↓reduceIte] at h
    obtain ⟨accounts, _, hs⟩ := Option.map_eq_some_iff.mp h
    have hlsn : (UInt64.ofNat s.lsn).toNat = s.lsn := congrArg Snapshot.lsn hs
    have hlt : s.lsn < 2 ^ 64 := hlsn ▸ (UInt64.ofNat s.lsn).toNat_lt
    refine ⟨hlt, fun he => ?_⟩
    rw [toJson_members] at hp
    simp only [parseable, parseableMembers, Bool.and_eq_true, decide_eq_true_eq, ne_eq, toInt64_min, hlsn] at hp
    exact hp.1 he
  · cases h

end Snapshot

theorem deserialize_serializeAccount (a : Account) :
    deserializeAccount (serializeAccount a) = if a.Storable then some a else none := by
  rw [deserializeAccount, serializeAccount, parse_dump _ (accountToJson_keys a)]
  split_ifs with hp hs hs
  · rw [Option.bind_some, accountFromJson_toJson, if_pos hs]
  · rw [Option.bind_some, accountFromJson_toJson, if_neg hs]
  · exact absurd (accountToJson_parseable hs) hp
  · rfl

theorem materialize_stored (id : TransactionId) (now : TimePoint) (t : Transaction) :
    materializeTransaction (stored (projectTransaction id now t)) = .ok t := by
  cases t <;> rfl

/-- What is stored is read back exactly when the signed numbers of the text can hold its ids. -/
theorem stored_roundTrips_iff (r : TransactionRecord) (id : TransactionId) (now : TimePoint) (t : Transaction)
    (a : Account) (s : Snapshot) :
    (deserializeTransaction (serialize r) = some (stored r) ↔ Decodable r) ∧
    ((deserializeTransaction (serialize (projectTransaction id now t))).map materializeTransaction =
      some (.ok t) ↔ Decodable (projectTransaction id now t)) ∧
    (deserializeAccount (serializeAccount a) = some a ↔ a.Storable) ∧
    (Snapshot.load (some s.text) = some s ↔
      s.lsn < 2 ^ 64 ∧ s.lsn ≠ 2 ^ 63 ∧ ∀ a ∈ s.accounts, a.Storable) := by
  refine ⟨?_, ?_, ?_, ?_⟩
  · rw [deserialize_serialize]
    split_ifs with hd <;> simp [hd]
  · rw [deserialize_serialize]
    split_ifs with hd <;> simp [hd, materialize_stored]
  · rw [deserialize_serializeAccount]
    split_ifs with hs <;> simp [hs]
  · constructor
    · intro h
      exact ⟨(Snapshot.lsn_of_load h).1, (Snapshot.lsn_of_load h).2, Snapshot.load_storable h⟩
    · rintro ⟨hlt, hl, ha⟩
      exact Snapshot.load_text_of_ne hlt hl ha

def highOwner : Account := ⟨1, 0xffffffffffffffff, .zero, .active, 0⟩

theorem highOwner_lost : ¬ (Snapshot.load (some (Snapshot.text ⟨0, [highOwner]⟩)) = some ⟨0, [highOwner]⟩) ∧
    deserializeTransaction (serialize (projectTransaction 1 0 (.deposit 0x8000000000000001 .zero))) = none := by
  decide +kernel

namespace Snapshot

def isArray : Value → Bool
  | .array _ => true
  | _ => false

def Describes (content : Bytes) (s : Snapshot) : Prop :=
  ∃ doc n items, parse content = some doc ∧ isObject doc = true ∧
    doc.find kLsn = some (.integer n) ∧ (s.lsn : Int) = n.toInt ∧
    doc.find kAccounts = some (.array items) ∧ items.map accountFromJson = s.accounts.map some

def Shaped (content : Bytes) : Prop :=
  ∀ doc n accounts, parse content = some doc → isObject doc = true → doc.find kLsn = some (.integer n) →
    doc.find kAccounts = some accounts → (∀ item ∈ accounts.items, (accountFromJson item).isSome = true) →
    ¬ n < 0 ∧ isArray accounts = true

variable {content : Bytes} {s : Snapshot}

theorem mapM_eq_some {α β : Type} {f : α → Option β} {l : List α} {ys : List β} :
    l.mapM f = some ys ↔ l.map f = ys.map some := by
  induction l generalizing ys with
  | nil => cases ys <;> simp
  | cons x l ih =>
    rw [List.mapM_cons, List.map_cons]
    cases ys with
    | nil => cases f x <;> cases l.mapM f <;> simp
    | cons y ys =>
      rw [List.map_cons, List.cons.injEq, ← ih]
      cases f x <;> cases l.mapM f <;> simp

theorem exists_map_some {α β : Type} {f : α → Option β} {l : List α} (h : ∀ x ∈ l, (f x).isSome = true) :
    ∃ ys : List β, l.map f = ys.map some := by
  induction l with
  | nil => exact ⟨[], rfl⟩
  | cons x l ih =>
    obtain ⟨y, hy⟩ := Option.isSome_iff_exists.mp (h x List.mem_cons_self)
    obtain ⟨ys, hys⟩ := ih fun z hz => h z (List.mem_cons_of_mem _ hz)
    exact ⟨y :: ys, by rw [List.map_cons, List.map_cons, hy, hys]⟩

theorem toUInt64_toNat {n : Int64} (h : ¬ n < 0) : (n.toUInt64.toNat : Int) = n.toInt := by
  have hlt := toUInt64_lt h
  have hn : n.toInt = n.toUInt64.toBitVec.toInt := rfl
  have hnat : n.toUInt64.toBitVec.toNat = n.toUInt64.toNat := rfl
  rw [hn, BitVec.toInt_eq_toNat_cond, hnat, if_pos (by omega)]

theorem load_eq_some : load (some content) = some s ↔ ∃ doc n accounts, parse content = some doc ∧
    isObject doc = true ∧ doc.find kLsn = some (.integer n) ∧ s.lsn = n.toUInt64.toNat ∧
    doc.find kAccounts = some accounts ∧ accounts.items.map accountFromJson = s.accounts.map some := by
  constructor
  · intro h
    obtain ⟨doc, hparse, h⟩ := Option.bind_eq_some_iff.mp h
    unfold fromJson at h
    split_ifs at h with hobj
    split at h
    · rename_i lsn accounts hlsn haccounts
      cases lsn with
      | integer n =>
        obtain ⟨loaded, hloaded, rfl⟩ := Option.map_eq_some_iff.mp h
        exact ⟨doc, n, accounts, hparse, by simpa using hobj, hlsn, rfl, haccounts, mapM_eq_some.mp hloaded⟩
      | null | string | array | object => cases h
    · cases h
  · rintro ⟨doc, n, accounts, hparse, hobj, hlsn, hn, haccounts, hitems⟩
    change (parse content).bind fromJson = some s
    rw [hparse, Option.bind_some, fromJson, hobj, hlsn, haccounts]
    simp only [Bool.not_true, Bool.false_eq_true, ↓reduceIte, Value.asInteger, mapM_eq_some.mpr hitems,
      Option.map_some, ← hn]

/-- The loader takes anything that has no items for an empty array, and any integer for a size. -/
theorem load_describes_iff (content : Bytes) :
    (∀ s, load (some content) = some s ↔ Describes content s) ↔ Shaped content := by
  constructor
  · intro h doc n accounts hparse hobj hlsn haccounts hitems
    obtain ⟨loaded, hloaded⟩ := exists_map_some hitems
    have hload : load (some content) = some ⟨n.toUInt64.toNat, loaded⟩ :=
      load_eq_some.mpr ⟨doc, n, accounts, hparse, hobj, hlsn, rfl, haccounts, hloaded⟩
    obtain ⟨doc', n', items, hparse', _, hlsn', hn, haccounts', _⟩ := (h _).mp hload
    obtain rfl := Option.some.inj (hparse.symm.trans hparse')
    obtain rfl := Value.integer.inj (Option.some.inj (hlsn.symm.trans hlsn'))
    obtain rfl := Option.some.inj (haccounts.symm.trans haccounts')
    refine ⟨?_, rfl⟩
    rw [Int64.lt_iff_toInt_lt, ← hn]
    exact Int.not_lt.mpr (Int.natCast_nonneg _)
  · intro h s
    rw [load_eq_some]
    constructor
    · rintro ⟨doc, n, accounts, hparse, hobj, hlsn, hn, haccounts, hitems⟩
      have hsome : ∀ item ∈ accounts.items, (accountFromJson item).isSome = true := by
        intro item hitem
        have hmem : accountFromJson item ∈ s.accounts.map some := by
          rw [← hitems]
          exact List.mem_map_of_mem hitem
        obtain ⟨a, _, ha⟩ := List.mem_map.mp hmem
        rw [← ha]
        rfl
      obtain ⟨hneg, harray⟩ := h doc n accounts hparse hobj hlsn haccounts hsome
      cases accounts with
      | array items => exact ⟨doc, n, items, hparse, hobj, hlsn, hn ▸ toUInt64_toNat hneg, haccounts, hitems⟩
      | null | integer | string | object => cases harray
    · rintro ⟨doc, n, items, hparse, hobj, hlsn, hn, haccounts, hitems⟩
      have hneg : ¬ n < 0 := by
        rw [Int64.lt_iff_toInt_lt, ← hn]
        exact Int.not_lt.mpr (Int.natCast_nonneg _)
      refine ⟨doc, n, .array items, hparse, hobj, hlsn, ?_, haccounts, hitems⟩
      have hnat := toUInt64_toNat hneg
      omega

theorem misshapen_loaded :
    load (some (ascii "\x7b\"lsn\":5,\"accounts\":null\x7d")) = some ⟨5, []⟩ ∧
    load (some (ascii "\x7b\"lsn\":-1,\"accounts\":[]\x7d")) = some ⟨18446744073709551615, []⟩ ∧
    ¬ ∀ content s, load (some content) = some s ↔ Describes content s := by
  have hnull : load (some (ascii "\x7b\"lsn\":5,\"accounts\":null\x7d")) = some ⟨5, []⟩ := by decide +kernel
  refine ⟨hnull, by decide +kernel, ?_⟩
  intro h
  obtain ⟨doc, n, items, hparse, _, _, _, haccounts, _⟩ := (h _ _).mp hnull
  have hfind : ((parse (ascii "\x7b\"lsn\":5,\"accounts\":null\x7d")).bind (·.find kAccounts)).map isArray =
      some false := by decide +kernel
  rw [hparse, Option.bind_some, haccounts] at hfind
  cases hfind

end Snapshot

end BankManagement
