import Stele.Attest.Envelope
import Stele.Storage.Producers

/-!
# What the two encodings of an enrollment fix (`pkg/storage/producers.go`)

`CanonicalEnrollment` has five length-prefixed fields and three fixed-width integers after its first
line; `ChallengeBytes` has that between a first line of its own and a nonce without a length.
-/

namespace Stele

open Lib List

structure Crypto.SignsOnly (C : Crypto) (msg sig : Bytes) : Prop where
  classical : ∀ pub m, C.EdValid pub m sig → m = msg
  quantum : ∀ pub m, C.DilValid pub m sig → m = msg

namespace Producer

structure Fits (p : Producer) : Prop where
  id : p.id.length < 2 ^ 32
  publicKey : p.publicKey.length < 2 ^ 32
  quantumPublicKey : p.quantumPublicKey.length < 2 ^ 32
  scope : p.scope.length < 2 ^ 32
  attestationType : p.attestationType.length < 2 ^ 32
  issuedAt : IsInt64 p.issuedAt
  expiresAt : IsInt64 p.expiresAt
  operatorEpoch : p.operatorEpoch < 2 ^ 64

structure SameTerms (p q : Producer) : Prop where
  id : p.id = q.id
  publicKey : p.publicKey = q.publicKey
  quantumPublicKey : p.quantumPublicKey = q.quantumPublicKey
  scope : p.scope = q.scope
  attestationType : p.attestationType = q.attestationType
  issuedAt : p.issuedAt = q.issuedAt
  expiresAt : p.expiresAt = q.expiresAt
  operatorEpoch : p.operatorEpoch = q.operatorEpoch

section
variable {p q : Producer} (hp : p.Fits) (hq : q.Fits)
include hp hq

/-- **An enrollment is read off the front of a message in one way.** -/
theorem enrollment_append_inj {x y : Bytes}
    (h : p.canonicalEnrollment ++ x = q.canonicalEnrollment ++ y) : SameTerms p q ∧ x = y := by
  simp only [canonicalEnrollment, append_assoc] at h
  have h := append_cancel_left h
  obtain ⟨hid, h⟩ := put_append_inj hp.id hq.id h
  obtain ⟨hpub, h⟩ := put_append_inj hp.publicKey hq.publicKey h
  obtain ⟨hquantum, h⟩ := put_append_inj hp.quantumPublicKey hq.quantumPublicKey h
  obtain ⟨hscope, h⟩ := put_append_inj hp.scope hq.scope h
  obtain ⟨htype, h⟩ := put_append_inj hp.attestationType hq.attestationType h
  obtain ⟨hissued, h⟩ := be_append_inj (u64_lt _) (u64_lt _) h
  obtain ⟨hexpires, h⟩ := be_append_inj (u64_lt _) (u64_lt _) h
  obtain ⟨hepoch, h⟩ := be_append_inj (w := 8) hp.operatorEpoch hq.operatorEpoch h
  exact ⟨⟨hid, hpub, hquantum, hscope, htype, u64_inj hp.issuedAt hq.issuedAt hissued,
    u64_inj hp.expiresAt hq.expiresAt hexpires, hepoch⟩, h⟩

/-- **The bytes that the operator signs determine the terms.** -/
theorem sameTerms_of_enrollment (h : p.canonicalEnrollment = q.canonicalEnrollment) :
    SameTerms p q :=
  (enrollment_append_inj hp hq (congrArg (· ++ []) h)).1

lemma sameTerms_of_challenge (hpn : p.challengeNonce ≠ []) (hqn : q.challengeNonce ≠ [])
    (h : p.challengeBytes = q.challengeBytes) :
    SameTerms p q ∧ p.challengeNonce = q.challengeNonce := by
  rw [challengeBytes, challengeBytes, if_neg hpn, if_neg hqn, append_assoc, append_assoc] at h
  exact enrollment_append_inj hp hq (append_cancel_left h)

end

lemma challengeBytes_ne_canonical {p : Producer} (hnonce : p.challengeNonce ≠ []) {e : Envelope}
    (hid : e.producerID.length < 0x7374656c) : p.challengeBytes ≠ e.canonical := by
  intro heq
  obtain ⟨rest, htag⟩ : ∃ rest, challengeTag = be 4 0x7374656c ++ rest := ⟨_, rfl⟩
  rw [challengeBytes, if_neg hnonce, htag] at heq
  simp only [Envelope.canonical, put, append_assoc] at heq
  have hlen := be_inj_mod (append_inj heq (by simp)).1
  omega

/-- **Consents and enrollments are unambiguous.** A challenge determines the terms and the nonce, an
enrollment the terms, and no challenge is an envelope. So a signature that verifies on one challenge
only is a consent to no other terms, answers no other nonce and signs no envelope. -/
theorem consent_unambiguous (C : Crypto) (p q : Producer) (hp : p.Fits) (hq : q.Fits)
    (hpn : p.challengeNonce.length = 32) (hqn : q.challengeNonce.length = 32) :
    (p.challengeBytes = q.challengeBytes → SameTerms p q ∧ p.challengeNonce = q.challengeNonce) ∧
    (p.canonicalEnrollment = q.canonicalEnrollment → SameTerms p q) ∧
    (∀ e : Envelope, e.producerID.length < 2 ^ 30 → p.challengeBytes ≠ e.canonical) ∧
    ∀ sig, C.SignsOnly p.challengeBytes sig →
      (q.challengeSignature = sig ∨ q.quantumPublicKey ≠ [] ∧ q.quantumChallengeSignature = sig →
        q.verifyConsent C = .ok () → SameTerms p q ∧ p.challengeNonce = q.challengeNonce) ∧
      ∀ e : Envelope, e.producerID.length < 2 ^ 30 →
        e.signature = sig ∨ e.quantumSignature = sig ∧ sig ≠ [] → e.verify C ≠ .ok () := by
  have hpne : p.challengeNonce ≠ [] := ne_nil_of_length_pos (by omega)
  have hqne : q.challengeNonce ≠ [] := ne_nil_of_length_pos (by omega)
  have hbind : p.challengeBytes = q.challengeBytes →
      SameTerms p q ∧ p.challengeNonce = q.challengeNonce :=
    sameTerms_of_challenge hp hq hpne hqne
  have hno : ∀ e : Envelope, e.producerID.length < 2 ^ 30 → p.challengeBytes ≠ e.canonical :=
    fun e he => challengeBytes_ne_canonical hpne (by omega)
  refine ⟨hbind, sameTerms_of_enrollment hp hq, hno, fun sig hsig => ⟨?_, ?_⟩⟩
  · intro hwhich hok
    obtain ⟨hed, hdil⟩ := verifyConsent_ok hok
    rcases hwhich with rfl | ⟨hhybrid, rfl⟩
    · exact hbind (hsig.classical _ _ hed).symm
    · exact hbind (hsig.quantum _ _ (hdil hhybrid)).symm
  · intro e he hwhich hok
    have hvalid := Envelope.verify_ok.mp hok
    rcases hwhich with rfl | ⟨rfl, hne⟩
    · exact hno e he (hsig.classical _ _ hvalid.signed).symm
    · exact hno e he (hsig.quantum _ _ (hvalid.quantum (.inr hne)).2).symm

def onlyCrypto (msg sig : Bytes) : Crypto :=
  { Crypto.sample with
    edVerify := fun _ m s => decide (m = msg ∧ s = sig ∧ s.length = 64)
    edVerify_length := fun h => (decide_eq_true_iff.mp h).2.2
    dilVerify := fun _ _ _ => false
    dilVerify_ne_nil := fun h => by cases h }

def consented : Producer where
  id := lit "p"
  publicKey := List.replicate 32 2
  scope := lit "s"
  challengeNonce := List.replicate 32 7
  challengeSignature := List.replicate 64 9

lemma consented_fits (p : Producer) (h : p = consented ∨ p = { consented with scope := [] }) :
    p.Fits ∧ p.challengeNonce.length = 32 := by
  rcases h with rfl | rfl
  · refine ⟨?_, by decide⟩
    constructor <;> decide
  · refine ⟨?_, by decide⟩
    constructor <;> decide

theorem consent_unambiguous_scope :
    let C := onlyCrypto consented.challengeBytes consented.challengeSignature
    consented.verifyConsent C = .ok () ∧
      { consented with scope := [] }.verifyConsent C ≠ .ok () := by
  obtain ⟨hfits, hnonce⟩ := consented_fits consented (.inl rfl)
  obtain ⟨hfits', hnonce'⟩ := consented_fits { consented with scope := [] } (.inr rfl)
  refine ⟨by decide +kernel, fun hok => ?_⟩
  have hsigns : (onlyCrypto consented.challengeBytes consented.challengeSignature).SignsOnly
      consented.challengeBytes consented.challengeSignature := by
    refine ⟨fun pub m h => (decide_eq_true_iff.mp h.2).1, fun pub m h => ?_⟩
    cases h.2
  obtain ⟨hsame, -⟩ := ((consent_unambiguous _ consented { consented with scope := [] } hfits hfits'
    hnonce hnonce').2.2.2 _ hsigns).1 (.inl rfl) hok
  exact absurd hsame.scope (by decide)

end Producer

end Stele
