import Stele.Crypto
import Stele.Lib.Json

/-!
# The producer registry's records (`pkg/storage/producers.go`)

A `Producer` is the operator's record of an entity that may submit entries. An enrolled record
carries an operator signature over `canonicalEnrollment`, and a record made by the
proof-of-possession ceremony also carries the producer's signature over `challengeBytes`.
-/

namespace Stele

open Lib Json

structure Producer where
  id : Bytes
  publicKey : Bytes
  quantumPublicKey : Bytes := []
  attestationType : Bytes := []
  description : Bytes := []
  registeredAt : Int := 0
  scope : Bytes := []
  issuedAt : Int := 0
  expiresAt : Int := 0
  operatorEpoch : Nat := 0
  signature : Bytes := []
  quantumOperatorPubKey : Bytes := []
  quantumSignature : Bytes := []
  revoked : Bool := false
  revokedAt : Int := 0
  revokeReason : Bytes := []
  challengeNonce : Bytes := []
  challengeSignature : Bytes := []
  quantumChallengeSignature : Bytes := []
  deriving DecidableEq, Repr

namespace Producer

def enrollmentTag : Bytes := line (lit "stele-enrollment/v0")

def challengeTag : Bytes := line (lit "stele-enroll-challenge/v0")

def canonicalEnrollment (p : Producer) : Bytes :=
  enrollmentTag ++ put p.id ++ put p.publicKey ++ put p.quantumPublicKey ++ put p.scope ++
    put p.attestationType ++ be 8 (u64 p.issuedAt) ++ be 8 (u64 p.expiresAt) ++
    be 8 p.operatorEpoch

def challengeBytes (p : Producer) : Bytes :=
  if p.challengeNonce = [] then []
  else challengeTag ++ p.canonicalEnrollment ++ p.challengeNonce

def hasEnrollment (p : Producer) : Prop := p.signature ≠ []

instance (p : Producer) : Decidable p.hasEnrollment := inferInstanceAs (Decidable (_ ≠ _))

def hasChallengeResponse (p : Producer) : Prop := p.challengeSignature ≠ []

instance (p : Producer) : Decidable p.hasChallengeResponse := inferInstanceAs (Decidable (_ ≠ _))

def isExpired (p : Producer) (now : Int) : Prop := p.expiresAt ≠ 0 ∧ p.expiresAt ≤ now

instance (p : Producer) (now : Int) : Decidable (p.isExpired now) :=
  inferInstanceAs (Decidable (_ ∧ _))

variable (C : Crypto)

def verifyConsent (p : Producer) : Res Unit := do
  ensure p.hasChallengeResponse (errorf "producer carries no challenge response" [])
  ensure (p.publicKey.length = edPublicKeySize)
    (errorf "consent: producer pubkey wrong length %d" [.nat p.publicKey.length])
  ensure (p.challengeSignature.length = edSignatureSize)
    (errorf "consent: classical signature wrong length %d" [.nat p.challengeSignature.length])
  let challenge := p.challengeBytes
  C.checkEd p.publicKey challenge p.challengeSignature
    (errorf "consent: classical signature invalid" [])
  checkIf (p.quantumPublicKey ≠ []) do
    ensure (p.quantumChallengeSignature.length = quantumSignatureSize)
      (errorf "consent: quantum signature wrong length %d"
        [.nat p.quantumChallengeSignature.length])
    let qp ← wrapErr "consent: decode quantum pubkey: %w" []
      (Crypto.decodeQuantum p.quantumPublicKey)
    ensure (C.dilVerify qp challenge p.quantumChallengeSignature = true)
      (errorf "consent: quantum signature invalid" [])

/-- `VerifyEnrollment`. The operator chain is read through its two key lookups; an absent key is
`none`. -/
def verifyEnrollment (chainPubKey qChainPubKey : Nat → Option Bytes) (p : Producer) :
    Res Unit := do
  ensure p.hasEnrollment (errorf "producer carries no enrollment signature" [])
  ensure (p.signature.length = edSignatureSize)
    (errorf "enrollment classical signature wrong length %d" [.nat p.signature.length])
  match chainPubKey p.operatorEpoch with
  | none => throw (errorf "enrollment epoch %d not found in operator chain" [.nat p.operatorEpoch])
  | some opPub =>
    let canon := p.canonicalEnrollment
    C.checkEd opPub canon p.signature (errorf "enrollment classical signature invalid" [])
    checkIf (p.quantumSignature ≠ [] ∨ p.quantumOperatorPubKey ≠ []) do
      ensure (p.quantumSignature.length = quantumSignatureSize)
        (errorf "enrollment quantum signature wrong length %d" [.nat p.quantumSignature.length])
      ensure (p.quantumOperatorPubKey.length = quantumPublicKeySize)
        (errorf "enrollment quantum operator pubkey wrong length %d"
          [.nat p.quantumOperatorPubKey.length])
      match qChainPubKey p.operatorEpoch with
      | none =>
        throw (errorf
          "enrollment claims quantum signature but operator chain has no quantum key at epoch %d"
          [.nat p.operatorEpoch])
      | some expectedQ =>
        ensure (p.quantumOperatorPubKey = expectedQ)
          (errorf "enrollment quantum operator pubkey does not match chain" [])
        let qp ← wrapErr "enrollment decode quantum operator pubkey: %w" []
          (Crypto.decodeQuantum p.quantumOperatorPubKey)
        ensure (C.dilVerify qp canon p.quantumSignature = true)
          (errorf "enrollment quantum signature invalid" [])

/-- What `VerifyEnrollment` checks: `opPub` is the operator's key of the record's epoch. The chain's
quantum key is looked at only when the record has a quantum half. -/
structure Enrolled (chainPubKey qChainPubKey : Nat → Option Bytes) (p : Producer) (opPub : Bytes) :
    Prop where
  key : chainPubKey p.operatorEpoch = some opPub
  signed : C.EdValid opPub p.canonicalEnrollment p.signature
  quantum : p.quantumSignature ≠ [] ∨ p.quantumOperatorPubKey ≠ [] →
    p.quantumSignature.length = quantumSignatureSize ∧
    qChainPubKey p.operatorEpoch = some p.quantumOperatorPubKey ∧
    C.DilValid p.quantumOperatorPubKey p.canonicalEnrollment p.quantumSignature

section
variable {C} {chainPubKey qChainPubKey : Nat → Option Bytes} {p : Producer}

lemma verifyEnrollment_ok {u : Unit} :
    p.verifyEnrollment C chainPubKey qChainPubKey = .ok u ↔
      ∃ opPub, p.Enrolled C chainPubKey qChainPubKey opPub := by
  cases hkey : chainPubKey p.operatorEpoch with
  | none =>
    simp only [verifyEnrollment, hkey, bind_ok, ensure_ok, exists_const, throw_ok, and_false,
      false_iff]
    rintro ⟨opPub, h⟩
    cases hkey.symm.trans h.key
  | some opPub =>
    simp only [verifyEnrollment, hkey, bind_ok, ensure_ok, exists_const, Crypto.checkEd_ok,
      checkIf_ok]
    constructor
    · rintro ⟨-, -, hsigned, hquantum⟩
      refine ⟨opPub, hkey, hsigned, fun hany => ?_⟩
      obtain ⟨hlen, -, hq⟩ := hquantum hany
      cases hqkey : qChainPubKey p.operatorEpoch with
      | none => simp [hqkey] at hq
      | some =>
        simp only [hqkey, bind_ok, ensure_ok, exists_const, wrapErr_ok,
          Crypto.decodeQuantum_ok] at hq
        obtain ⟨hexp, key, ⟨hkeylen, rfl⟩, hver⟩ := hq
        exact ⟨hlen, by rw [hexp], hkeylen, hver⟩
    · rintro ⟨opPub', h⟩
      cases hkey.symm.trans h.key
      have hlen := C.edVerify_length h.signed.2
      have hne : p.signature ≠ [] := List.ne_nil_of_length_pos (by omega)
      refine ⟨hne, hlen, h.signed, fun hany => ?_⟩
      obtain ⟨hqlen, hqkey, hvalid⟩ := h.quantum hany
      refine ⟨hqlen, hvalid.1, ?_⟩
      simp only [hqkey, bind_ok, ensure_ok, exists_const, wrapErr_ok, Crypto.decodeQuantum_ok]
      exact ⟨trivial, _, ⟨hvalid.1, rfl⟩, hvalid.2⟩

lemma verifyConsent_ok {u : Unit} (h : p.verifyConsent C = .ok u) :
    C.EdValid p.publicKey p.challengeBytes p.challengeSignature ∧
      (p.quantumPublicKey ≠ [] →
        C.DilValid p.quantumPublicKey p.challengeBytes p.quantumChallengeSignature) := by
  simp only [verifyConsent, bind_ok, ensure_ok, exists_const, Crypto.checkEd_ok, checkIf_ok,
    wrapErr_ok, Crypto.decodeQuantum_ok] at h
  obtain ⟨-, -, -, hed, hquantum⟩ := h
  refine ⟨hed, fun hhybrid => ?_⟩
  obtain ⟨-, key, ⟨hlen, rfl⟩, hver⟩ := hquantum hhybrid
  exact ⟨hlen, hver⟩

/-- **The post-quantum half of an enrollment.** An accepted record, whose chain has a Dilithium key
at its epoch, carries a signature by that key exactly when one of its two quantum fields is left. -/
theorem enrollment_downgrade_iff {q : Bytes} (hchain : qChainPubKey p.operatorEpoch = some q)
    (h : p.verifyEnrollment C chainPubKey qChainPubKey = .ok ()) :
    C.DilValid q p.canonicalEnrollment p.quantumSignature ↔
      p.quantumSignature ≠ [] ∨ p.quantumOperatorPubKey ≠ [] := by
  obtain ⟨opPub, henrolled⟩ := verifyEnrollment_ok.mp h
  constructor
  · exact fun hvalid => .inl (C.dilVerify_ne_nil hvalid.2)
  · intro hany
    obtain ⟨-, hkey, hvalid⟩ := henrolled.quantum hany
    rw [hchain, Option.some.injEq] at hkey
    rw [hkey]
    exact hvalid

end

def sampleKeys (size : Nat) (epoch : Nat) : Option Bytes :=
  if epoch = 0 then some (List.replicate size 1) else none

def sampleHybrid : Producer :=
  let unsigned : Producer :=
    { id := lit "p"
      publicKey := List.replicate edPublicKeySize 2
      quantumPublicKey := List.replicate quantumPublicKeySize 3 }
  { unsigned with
    signature := Crypto.sample.edSign (List.replicate edPublicKeySize 1)
      unsigned.canonicalEnrollment
    quantumOperatorPubKey := List.replicate quantumPublicKeySize 1
    quantumSignature := Crypto.sample.dilSign (List.replicate quantumPublicKeySize 1)
      unsigned.canonicalEnrollment }

theorem enrollment_downgrade_iff_sample :
    Crypto.sample.DilValid (List.replicate quantumPublicKeySize 1)
      sampleHybrid.canonicalEnrollment sampleHybrid.quantumSignature := by
  have hver : sampleHybrid.verifyEnrollment Crypto.sample (sampleKeys edPublicKeySize)
      (sampleKeys quantumPublicKeySize) = .ok () := by
    decide +kernel
  exact (enrollment_downgrade_iff rfl hver).mpr (.inr (by decide +kernel))

/-- **The quantum half of a stored enrollment can be taken out**: the record is accepted with it and
without it. -/
theorem enrollment_quantum_half_optional :
    sampleHybrid.quantumPublicKey ≠ [] ∧ sampleKeys quantumPublicKeySize 0 ≠ none ∧
      sampleHybrid.verifyEnrollment Crypto.sample (sampleKeys edPublicKeySize)
        (sampleKeys quantumPublicKeySize) = .ok () ∧
      { sampleHybrid with quantumSignature := [], quantumOperatorPubKey := [] }.verifyEnrollment
        Crypto.sample (sampleKeys edPublicKeySize) (sampleKeys quantumPublicKeySize) = .ok () := by
  decide +kernel

/-! ## JSON -/

def toJson (p : Producer) : Json := .obj <|
  fld "id" (.ofStr p.id) ++
  fld "public_key" (.ofBytes p.publicKey) ++
  omitEmpty "quantum_public_key" p.quantumPublicKey.isEmpty (.ofBytes p.quantumPublicKey) ++
  fld "attestation_type" (.ofStr p.attestationType) ++
  omitEmpty "description" p.description.isEmpty (.ofStr p.description) ++
  fld "registered_at" (.num p.registeredAt) ++
  omitEmpty "scope" p.scope.isEmpty (.ofStr p.scope) ++
  omitEmpty "issued_at" (p.issuedAt = 0) (.num p.issuedAt) ++
  omitEmpty "expires_at" (p.expiresAt = 0) (.num p.expiresAt) ++
  omitEmpty "operator_epoch" (p.operatorEpoch = 0) (.num p.operatorEpoch) ++
  omitEmpty "signature" p.signature.isEmpty (.ofBytes p.signature) ++
  omitEmpty "quantum_operator_pub_key" p.quantumOperatorPubKey.isEmpty
    (.ofBytes p.quantumOperatorPubKey) ++
  omitEmpty "quantum_signature" p.quantumSignature.isEmpty (.ofBytes p.quantumSignature) ++
  fld "revoked" (.bool p.revoked) ++
  omitEmpty "revoked_at" (p.revokedAt = 0) (.num p.revokedAt) ++
  omitEmpty "revoke_reason" p.revokeReason.isEmpty (.ofStr p.revokeReason) ++
  omitEmpty "challenge_nonce" p.challengeNonce.isEmpty (.ofBytes p.challengeNonce) ++
  omitEmpty "challenge_signature" p.challengeSignature.isEmpty
    (.ofBytes p.challengeSignature) ++
  omitEmpty "quantum_challenge_signature" p.quantumChallengeSignature.isEmpty
    (.ofBytes p.quantumChallengeSignature)

def ofJson (j : Json) : Res Producer := do
  return {
    id := ← j.field "id" >>= getStr
    publicKey := ← j.field "public_key" >>= getBytes
    quantumPublicKey := ← j.field "quantum_public_key" >>= getBytes
    attestationType := ← j.field "attestation_type" >>= getStr
    description := ← j.field "description" >>= getStr
    registeredAt := ← j.field "registered_at" >>= getInt
    scope := ← j.field "scope" >>= getStr
    issuedAt := ← j.field "issued_at" >>= getInt
    expiresAt := ← j.field "expires_at" >>= getInt
    operatorEpoch := ← j.field "operator_epoch" >>= getNat
    signature := ← j.field "signature" >>= getBytes
    quantumOperatorPubKey := ← j.field "quantum_operator_pub_key" >>= getBytes
    quantumSignature := ← j.field "quantum_signature" >>= getBytes
    revoked := ← j.field "revoked" >>= getBool
    revokedAt := ← j.field "revoked_at" >>= getInt
    revokeReason := ← j.field "revoke_reason" >>= getStr
    challengeNonce := ← j.field "challenge_nonce" >>= getBytes
    challengeSignature := ← j.field "challenge_signature" >>= getBytes
    quantumChallengeSignature := ← j.field "quantum_challenge_signature" >>= getBytes }

lemma ofJson_toJson_coerce (p : Producer) :
    ofJson p.toJson = .ok { p with
      id := coerce p.id, attestationType := coerce p.attestationType
      description := coerce p.description, scope := coerce p.scope
      revokeReason := coerce p.revokeReason } := by
  simp only [ofJson, toJson, field, lastField_append, lastField_fld,
    lastField_omitEmpty, String.reduceEq, ↓reduceIte, ok_bind, getStr_ofStr,
    getStr_omitted, getInt_num, getInt_omitted, getNat_omitted,
    getBool_bool, getBytes_ofBytes, getBytes_omitted]
  rfl

def TermsUtf8 (p : Producer) : Prop := Utf8 p.id ∧ Utf8 p.attestationType ∧ Utf8 p.scope

instance (p : Producer) : Decidable p.TermsUtf8 := inferInstanceAs (Decidable (_ ∧ _ ∧ _))

/-- **The terms of an enrollment survive the registry**: only what no signature covers changes. -/
theorem ofJson_toJson {p : Producer} (h : p.TermsUtf8) :
    ofJson p.toJson = .ok { p with
      description := coerce p.description, revokeReason := coerce p.revokeReason } := by
  rw [ofJson_toJson_coerce, coerce_of_utf8 h.1, coerce_of_utf8 h.2.1, coerce_of_utf8 h.2.2]

end Producer

end Stele
