import BankManagement.AuthService

namespace BankManagement.PasswordHasher

abbrev Digest := { bytes : Bytes // bytes.length = 32 }

def deriveOrThrow (pbkdf2 : Bytes → Bytes → Option Digest) (pin salt : Bytes) : Except Exn PasswordHash :=
  match pbkdf2 pin salt with
  | none => .error "PasswordHasher: PBKDF2 derivation failed"
  | some digest => .ok { algorithm := algorithmName, salt := bytesToHex salt, digest := bytesToHex digest }

def createWithSalt (pbkdf2 : Bytes → Bytes → Option Digest) (pin saltHex : Bytes) : Except Exn PasswordHash := do
  let salt ← hexToBytes saltHex
  deriveOrThrow pbkdf2 pin salt

/-- `verify` with its `try` block; what is thrown outside of it would be the result. -/
def tryVerify (pbkdf2 : Bytes → Bytes → Option Digest) (pin : Bytes) (stored : PasswordHash) : Except Exn Bool :=
  if stored.algorithm ≠ algorithmName ∨ stored.digest = [] then .ok false
  else
    let block : Except Exn Bool := do
      let salt ← hexToBytes stored.salt
      let derived ← deriveOrThrow pbkdf2 pin salt
      return derived.digest == stored.digest
    match block with
    | .ok result => .ok result
    | .error _ => .ok false

theorem tryVerify_total (pbkdf2 : Bytes → Bytes → Digest) (pin : Bytes) (stored : PasswordHash) :
    tryVerify (fun pin salt => some (pbkdf2 pin salt)) pin stored =
      .ok (verify (fun pin salt => pbkdf2 pin salt) pin stored) := by
  unfold tryVerify verify
  split_ifs
  · rfl
  · cases hexToBytes stored.salt <;> rfl

def IsHexDigit (c : UInt8) : Prop := (0x30 ≤ c ∧ c ≤ 0x39) ∨ (0x41 ≤ c ∧ c ≤ 0x46) ∨ (0x61 ≤ c ∧ c ≤ 0x66)

instance (c : UInt8) : Decidable (IsHexDigit c) := inferInstanceAs (Decidable (_ ∨ _))

def EvenHex (hex : Bytes) : Prop := hex.length % 2 = 0 ∧ ∀ c ∈ hex, IsHexDigit c

def toLower (c : UInt8) : UInt8 := if 0x41 ≤ c ∧ c ≤ 0x5A then c + 0x20 else c

section Digits

variable {c v : UInt8}

theorem nibble_ok (h : nibble c = .ok v) : v < 16 ∧ toLower c = hexChar v ∧ IsHexDigit c := by
  have hall : ∀ n < 256, ∀ v ∈ (nibble (UInt8.ofNat n)).toOption,
      v < 16 ∧ toLower (UInt8.ofNat n) = hexChar v ∧ IsHexDigit (UInt8.ofNat n) := by decide +kernel
  have hc := hall c.toNat c.toNat_lt v
  rw [UInt8.ofNat_toNat, h] at hc
  exact hc rfl

theorem nibble_of_isHexDigit (h : IsHexDigit c) : ∃ v, nibble c = .ok v := by
  unfold nibble
  split_ifs with hdigit hlower hupper
  · exact ⟨_, rfl⟩
  · exact ⟨_, rfl⟩
  · exact ⟨_, rfl⟩
  · rcases h with h | h | h
    · exact absurd h hdigit
    · exact absurd h hupper
    · exact absurd h hlower

theorem hexChar_inj {w : UInt8} (hv : v < 16) (hw : w < 16) (h : hexChar v = hexChar w) : v = w := by
  have hall : ∀ n < 16, ∀ m < 16, hexChar (UInt8.ofNat n) = hexChar (UInt8.ofNat m) → n = m := by decide +kernel
  have hnat := hall v.toNat hv w.toNat hw
  rw [UInt8.ofNat_toNat, UInt8.ofNat_toNat] at hnat
  exact UInt8.toNat_inj.mp (hnat h)

theorem isHexDigit_of_toLower (hv : v < 16) (h : toLower c = hexChar v) : IsHexDigit c := by
  have hall : ∀ n < 256, ∀ m < 16, toLower (UInt8.ofNat n) = hexChar (UInt8.ofNat m) → IsHexDigit (UInt8.ofNat n) := by
    decide +kernel
  have hnat := hall c.toNat c.toNat_lt v.toNat hv
  rw [UInt8.ofNat_toNat, UInt8.ofNat_toNat] at hnat
  exact hnat h

theorem nibble_iff (hv : v < 16) : nibble c = .ok v ↔ toLower c = hexChar v := by
  constructor
  · exact fun h => (nibble_ok h).2.1
  · intro h
    obtain ⟨w, hw⟩ := nibble_of_isHexDigit (isHexDigit_of_toLower hv h)
    obtain ⟨hlt, hchar, _⟩ := nibble_ok hw
    rw [hw, hexChar_inj hlt hv (hchar.symm.trans h)]

theorem toLower_hexChar (hv : v < 16) : toLower (hexChar v) = hexChar v := by
  have hall : ∀ n < 16, toLower (hexChar (UInt8.ofNat n)) = hexChar (UInt8.ofNat n) := by decide +kernel
  have hnat := hall v.toNat hv
  rwa [UInt8.ofNat_toNat] at hnat

theorem high_lt (b : UInt8) : b / 16 < 16 := by
  rw [UInt8.lt_iff_toNat_lt, UInt8.toNat_div]
  have hlt := b.toNat_lt
  change b.toNat / 16 < 16
  omega

theorem low_lt (b : UInt8) : b % 16 < 16 := by
  rw [UInt8.lt_iff_toNat_lt, UInt8.toNat_mod]
  change b.toNat % 16 < 16
  omega

theorem halves (b : UInt8) : b / 16 * 16 + b % 16 = b := by
  have hlt := b.toNat_lt
  apply UInt8.toNat_inj.mp
  rw [UInt8.toNat_add, UInt8.toNat_mul, UInt8.toNat_div, UInt8.toNat_mod]
  change (b.toNat / 16 * 16 % 256 + b.toNat % 16) % 256 = b.toNat
  omega

theorem high_low {w : UInt8} (hv : v < 16) (hw : w < 16) : (v * 16 + w) / 16 = v ∧ (v * 16 + w) % 16 = w := by
  have hv' : v.toNat < 16 := hv
  have hw' : w.toNat < 16 := hw
  have hsum : (v * 16 + w).toNat = v.toNat * 16 + w.toNat := by
    rw [UInt8.toNat_add, UInt8.toNat_mul]
    change (v.toNat * 16 % 256 + w.toNat) % 256 = _
    omega
  constructor
  · apply UInt8.toNat_inj.mp
    rw [UInt8.toNat_div, hsum]
    change (v.toNat * 16 + w.toNat) / 16 = v.toNat
    omega
  · apply UInt8.toNat_inj.mp
    rw [UInt8.toNat_mod, hsum]
    change (v.toNat * 16 + w.toNat) % 16 = w.toNat
    omega

end Digits

section Texts

variable {hex bytes : Bytes}

theorem bytesToHex_cons (b : UInt8) (bytes : Bytes) :
    bytesToHex (b :: bytes) = hexChar (b / 16) :: hexChar (b % 16) :: bytesToHex bytes := rfl

theorem bytesToHex_length (bytes : Bytes) : (bytesToHex bytes).length = 2 * bytes.length := by
  induction bytes with
  | nil => rfl
  | cons b bytes ih =>
    rw [bytesToHex_cons, List.length_cons, List.length_cons, List.length_cons, ih]
    omega

theorem toLower_bytesToHex (bytes : Bytes) : (bytesToHex bytes).map toLower = bytesToHex bytes := by
  induction bytes with
  | nil => rfl
  | cons b bytes ih =>
    rw [bytesToHex_cons, List.map_cons, List.map_cons, ih, toLower_hexChar (high_lt b), toLower_hexChar (low_lt b)]

theorem pairsToBytes_cons {high low : UInt8} {rest : Bytes} (h : pairsToBytes (high :: low :: rest) = .ok bytes) :
    ∃ v w tail, nibble high = .ok v ∧ nibble low = .ok w ∧ pairsToBytes rest = .ok tail ∧
      bytes = (v * 16 + w) :: tail := by
  cases hv : nibble high with
  | error e =>
    rw [pairsToBytes, hv] at h
    cases h
  | ok v =>
    cases hw : nibble low with
    | error e =>
      rw [pairsToBytes, hv, hw] at h
      cases h
    | ok w =>
      cases ht : pairsToBytes rest with
      | error e =>
        rw [pairsToBytes, hv, hw, ht] at h
        cases h
      | ok tail =>
        rw [pairsToBytes, hv, hw, ht] at h
        exact ⟨v, w, tail, rfl, rfl, rfl, (Except.ok.inj h).symm⟩

theorem pairsToBytes_iff (heven : hex.length % 2 = 0) :
    pairsToBytes hex = .ok bytes ↔ hex.map toLower = bytesToHex bytes := by
  induction hex using pairsToBytes.induct generalizing bytes with
  | case1 high low rest ih =>
    have hrest : rest.length % 2 = 0 := by
      rw [List.length_cons, List.length_cons] at heven
      omega
    constructor
    · intro h
      obtain ⟨v, w, tail, hv, hw, ht, rfl⟩ := pairsToBytes_cons h
      obtain ⟨hvlt, hvchar, _⟩ := nibble_ok hv
      obtain ⟨hwlt, hwchar, _⟩ := nibble_ok hw
      rw [bytesToHex_cons, (high_low hvlt hwlt).1, (high_low hvlt hwlt).2, List.map_cons, List.map_cons, hvchar, hwchar,
        (ih hrest).mp ht]
    · intro h
      cases bytes with
      | nil => cases h
      | cons b bytes =>
        rw [bytesToHex_cons, List.map_cons, List.map_cons] at h
        obtain ⟨hhigh, h⟩ := List.cons.inj h
        obtain ⟨hlow, h⟩ := List.cons.inj h
        rw [pairsToBytes, (nibble_iff (high_lt b)).mpr hhigh, (nibble_iff (low_lt b)).mpr hlow, (ih hrest).mpr h]
        change Except.ok ((b / 16 * 16 + b % 16) :: bytes) = _
        rw [halves]
  | case2 hex hshort =>
    have hnil : hex = [] := by
      match hex, hshort, heven with
      | [], _, _ => rfl
      | high :: low :: rest, hshort, _ => exact absurd rfl (hshort high low rest)
    subst hnil
    constructor
    · intro h
      obtain rfl := Except.ok.inj h
      rfl
    · intro h
      cases bytes with
      | nil => rfl
      | cons b bytes => cases h

theorem hexToBytes_iff : hexToBytes hex = .ok bytes ↔ hex.map toLower = bytesToHex bytes := by
  unfold hexToBytes
  by_cases heven : hex.length % 2 = 0
  · rw [if_neg (not_not.mpr heven)]
    exact pairsToBytes_iff heven
  · rw [if_pos heven]
    constructor
    · intro h
      cases h
    · intro h
      have hlength := congrArg List.length h
      rw [List.length_map, bytesToHex_length] at hlength
      omega

theorem hexToBytes_bytesToHex (bytes : Bytes) : hexToBytes (bytesToHex bytes) = .ok bytes :=
  hexToBytes_iff.mpr (toLower_bytesToHex bytes)

theorem exists_pairsToBytes (hdigits : ∀ c ∈ hex, IsHexDigit c) : ∃ bytes, pairsToBytes hex = .ok bytes := by
  induction hex using pairsToBytes.induct with
  | case1 high low rest ih =>
    obtain ⟨v, hv⟩ := nibble_of_isHexDigit (hdigits high List.mem_cons_self)
    obtain ⟨w, hw⟩ := nibble_of_isHexDigit (hdigits low (List.mem_cons_of_mem _ List.mem_cons_self))
    obtain ⟨tail, ht⟩ := ih fun c hc => hdigits c (List.mem_cons_of_mem _ (List.mem_cons_of_mem _ hc))
    refine ⟨(v * 16 + w) :: tail, ?_⟩
    rw [pairsToBytes, hv, hw, ht]
    rfl
  | case2 hex hshort => exact ⟨[], by rw [pairsToBytes]; exact hshort⟩

theorem evenHex_of_lower (h : hex.map toLower = bytesToHex bytes) : EvenHex hex := by
  refine ⟨?_, fun c hc => ?_⟩
  · have hlength := congrArg List.length h
    rw [List.length_map, bytesToHex_length] at hlength
    omega
  · have hmem : toLower c ∈ bytesToHex bytes := by
      rw [← h]
      exact List.mem_map_of_mem hc
    obtain ⟨b, _, hb⟩ := List.mem_flatMap.mp hmem
    rcases List.mem_cons.mp hb with hb | hb
    · exact isHexDigit_of_toLower (high_lt b) hb
    · exact isHexDigit_of_toLower (low_lt b) (List.mem_singleton.mp hb)

theorem evenHex_iff : EvenHex hex ↔ ∃ bytes, hexToBytes hex = .ok bytes := by
  constructor
  · rintro ⟨heven, hdigits⟩
    unfold hexToBytes
    rw [if_neg (not_not.mpr heven)]
    exact exists_pairsToBytes hdigits
  · rintro ⟨bytes, h⟩
    exact evenHex_of_lower (hexToBytes_iff.mp h)

end Texts

section Verify

variable {pbkdf2 : Bytes → Bytes → Option Digest} {pin saltHex salt : Bytes} {stored : PasswordHash}

theorem digest_ne_nil (digest : Digest) : bytesToHex digest ≠ [] := by
  intro h
  have hlength := bytesToHex_length digest
  rw [h, digest.property] at hlength
  cases hlength

theorem createWithSalt_ok (h : createWithSalt pbkdf2 pin saltHex = .ok stored) : ∃ salt digest,
    hexToBytes saltHex = .ok salt ∧ pbkdf2 pin salt = some digest ∧
      stored = ⟨algorithmName, bytesToHex salt, bytesToHex digest⟩ := by
  unfold createWithSalt at h
  cases hsalt : hexToBytes saltHex with
  | error e =>
    rw [hsalt] at h
    cases h
  | ok salt =>
    rw [hsalt] at h
    change deriveOrThrow pbkdf2 pin salt = .ok stored at h
    unfold deriveOrThrow at h
    cases hdigest : pbkdf2 pin salt with
    | none =>
      rw [hdigest] at h
      cases h
    | some digest =>
      rw [hdigest] at h
      exact ⟨salt, digest, rfl, hdigest, (Except.ok.inj h).symm⟩

theorem createWithSalt_of {digest : Digest} (hsalt : hexToBytes saltHex = .ok salt)
    (hdigest : pbkdf2 pin salt = some digest) :
    createWithSalt pbkdf2 pin saltHex = .ok ⟨algorithmName, bytesToHex salt, bytesToHex digest⟩ := by
  unfold createWithSalt
  rw [hsalt]
  change deriveOrThrow pbkdf2 pin salt = _
  rw [deriveOrThrow, hdigest]

theorem tryVerify_eq (halgorithm : stored.algorithm = algorithmName) (hdigest : stored.digest ≠ []) :
    tryVerify pbkdf2 pin stored = .ok (match createWithSalt pbkdf2 pin stored.salt with
      | .ok derived => derived.digest == stored.digest
      | .error _ => false) := by
  unfold tryVerify createWithSalt
  rw [if_neg (by simp [halgorithm, hdigest])]
  cases hexToBytes stored.salt with
  | error e => rfl
  | ok salt =>
    change (match (deriveOrThrow pbkdf2 pin salt).bind fun derived => .ok (derived.digest == stored.digest) with
      | .ok result => Except.ok result
      | .error _ => .ok false) = .ok (match deriveOrThrow pbkdf2 pin salt with
        | .ok derived => derived.digest == stored.digest
        | .error _ => false)
    cases deriveOrThrow pbkdf2 pin salt <;> rfl

theorem tryVerify_iff (pbkdf2 : Bytes → Bytes → Option Digest) (pin : Bytes) (stored : PasswordHash) :
    ∃ result, tryVerify pbkdf2 pin stored = .ok result ∧
      (result = true ↔ stored.algorithm = algorithmName ∧ ∃ salt digest, hexToBytes stored.salt = .ok salt ∧
        pbkdf2 pin salt = some digest ∧ stored.digest = bytesToHex digest) := by
  by_cases hcheck : stored.algorithm ≠ algorithmName ∨ stored.digest = []
  · refine ⟨false, ?_, ?_⟩
    · unfold tryVerify
      rw [if_pos hcheck]
    · constructor
      · intro h
        cases h
      · rintro ⟨halgorithm, salt, digest, -, -, heq⟩
        rcases hcheck with hne | hnil
        · exact absurd halgorithm hne
        · exact absurd (heq.symm.trans hnil) (digest_ne_nil digest)
  · obtain ⟨halgorithm, hne⟩ := not_or.mp hcheck
    rw [not_not] at halgorithm
    refine ⟨_, tryVerify_eq halgorithm hne, ?_⟩
    constructor
    · intro h
      split at h
      · rename_i derived hderived
        obtain ⟨salt, digest, hsalt, hdigest, rfl⟩ := createWithSalt_ok hderived
        exact ⟨halgorithm, salt, digest, hsalt, hdigest, (beq_iff_eq.mp h).symm⟩
      · cases h
    · rintro ⟨-, salt, digest, hsalt, hdigest, heq⟩
      rw [createWithSalt_of hsalt hdigest]
      exact beq_iff_eq.mpr heq.symm

/-- What `create_with_salt` returns verifies, with the salt in lower case; it returns for hex of even
length under which PBKDF2 does not fail. `verify` always returns, and with `true` for the hashes of the
PIN only. -/
theorem storedHashes_verify (pbkdf2 : Bytes → Bytes → Option Digest) :
    (∀ pin saltHex, (∃ stored, createWithSalt pbkdf2 pin saltHex = .ok stored) ↔
      EvenHex saltHex ∧ ∀ salt, saltHex.map toLower = bytesToHex salt → (pbkdf2 pin salt).isSome = true) ∧
    (∀ pin saltHex stored, createWithSalt pbkdf2 pin saltHex = .ok stored →
      stored.salt = saltHex.map toLower ∧ tryVerify pbkdf2 pin stored = .ok true) ∧
    ∀ pin stored, ∃ result, tryVerify pbkdf2 pin stored = .ok result ∧
      (result = true ↔ stored.algorithm = algorithmName ∧ EvenHex stored.salt ∧ ∃ salt digest,
        stored.salt.map toLower = bytesToHex salt ∧ pbkdf2 pin salt = some digest ∧
          stored.digest = bytesToHex digest) := by
  refine ⟨fun pin saltHex => ⟨?_, ?_⟩, fun pin saltHex stored h => ?_, fun pin stored => ?_⟩
  · rintro ⟨stored, h⟩
    obtain ⟨salt, digest, hsalt, hdigest, -⟩ := createWithSalt_ok h
    refine ⟨evenHex_iff.mpr ⟨salt, hsalt⟩, fun salt' hsalt' => ?_⟩
    obtain rfl := Except.ok.inj (hsalt.symm.trans (hexToBytes_iff.mpr hsalt'))
    rw [hdigest]
    rfl
  · rintro ⟨heven, hsome⟩
    obtain ⟨salt, hsalt⟩ := evenHex_iff.mp heven
    obtain ⟨digest, hdigest⟩ := Option.isSome_iff_exists.mp (hsome salt (hexToBytes_iff.mp hsalt))
    exact ⟨_, createWithSalt_of hsalt hdigest⟩
  · obtain ⟨salt, digest, hsalt, hdigest, rfl⟩ := createWithSalt_ok h
    refine ⟨(hexToBytes_iff.mp hsalt).symm, ?_⟩
    obtain ⟨result, hresult, hiff⟩ := tryVerify_iff pbkdf2 pin ⟨algorithmName, bytesToHex salt, bytesToHex digest⟩
    rw [hresult, hiff.mpr ⟨rfl, salt, digest, hexToBytes_bytesToHex salt, hdigest, rfl⟩]
  · obtain ⟨result, hresult, hiff⟩ := tryVerify_iff pbkdf2 pin stored
    refine ⟨result, hresult, hiff.trans ?_⟩
    constructor
    · rintro ⟨halgorithm, salt, digest, hsalt, hdigest, heq⟩
      exact ⟨halgorithm, evenHex_iff.mpr ⟨salt, hsalt⟩, salt, digest, hexToBytes_iff.mp hsalt, hdigest, heq⟩
    · rintro ⟨halgorithm, -, salt, digest, hsalt, hdigest, heq⟩
      exact ⟨halgorithm, salt, digest, hexToBytes_iff.mpr hsalt, hdigest, heq⟩

end Verify

def lengthsDigest (pin salt : Bytes) : Option Digest :=
  if pin = [] then none
  else some ⟨List.replicate 31 (UInt8.ofNat salt.length) ++ [UInt8.ofNat pin.length], rfl⟩

theorem upperCaseSalt_verifies : ∃ stored,
    createWithSalt lengthsDigest (ascii "4321") (ascii "0aAfFF") = .ok stored ∧ stored.salt = ascii "0aafff" ∧
      tryVerify lengthsDigest (ascii "4321") stored = .ok true := by
  obtain ⟨hcreates, hverifies, -⟩ := storedHashes_verify lengthsDigest
  have heven : EvenHex (ascii "0aAfFF") := ⟨by decide, by decide +kernel⟩
  obtain ⟨stored, hstored⟩ := (hcreates (ascii "4321") (ascii "0aAfFF")).mpr ⟨heven, fun salt _ => rfl⟩
  obtain ⟨hsalt, hverify⟩ := hverifies _ _ stored hstored
  exact ⟨stored, hstored, hsalt.trans (by decide), hverify⟩

end BankManagement.PasswordHasher
