import Stele.Attest.Envelope
import Stele.Lib.Float64

/-!
# Envelopes of the SDKs (`sdk/python`, `sdk/typescript`)

An SDK signs its own canonical bytes and sends the envelope as JSON; the operator decodes the JSON
and verifies the signature over `Envelope.Canonical`. The strings of an SDK are Unicode scalar
values, which JSON carries and Go decodes to UTF-8. A number of JavaScript is a double, and its
JSON text is taken for the number itself.
-/

namespace Stele.Sdk

open Lib Json

structure Envelope where
  producerID : String
  timeNanos : Int
  source : String
  data : Bytes
  publicKey : Bytes
  attestationType : String := "software"
  evidenceHash : Bytes := []
  evidence : Bytes := []
  signature : Bytes := []
  quantumPublicKey : Bytes := []
  quantumSignature : Bytes := []

def utf8 (s : String) : Bytes := s.toList.flatMap String.utf8EncodeChar

def wire (e : Envelope) (time : Int) : Json := .obj <|
  Json.fld "producer_id" (.str (utf8 e.producerID)) ++
  Json.fld "time_ns" (.num time) ++
  Json.fld "source" (.str (utf8 e.source)) ++
  Json.fld "data" (.ofBytes e.data) ++
  Json.fld "public_key" (.ofBytes e.publicKey) ++
  Json.fld "attestation_type" (.str (utf8 e.attestationType)) ++
  Json.fld "signature" (.ofBytes e.signature) ++
  Json.omitEmpty "evidence_hash" e.evidenceHash.isEmpty (.ofBytes e.evidenceHash) ++
  Json.omitEmpty "evidence" e.evidence.isEmpty (.ofBytes e.evidence) ++
  Json.omitEmpty "quantum_public_key" e.quantumPublicKey.isEmpty (.ofBytes e.quantumPublicKey) ++
  Json.omitEmpty "quantum_signature" e.quantumSignature.isEmpty (.ofBytes e.quantumSignature)

def decode (j : Json) : Res Stele.Envelope := do
  let e ← Envelope.ofJson j
  ensure (IsInt64 e.timeNanos) Json.typeError
  return e

/-! ## Python -/

/-- `_put_bytes`: `struct.pack` raises an error for a length that has no `u32`. -/
def Python.putBytes (b : Bytes) : Res Bytes := do
  ensure (b.length < 2 ^ 32) (errorf "struct.error: argument out of range" [])
  return put b

def Python.canonicalBytes (e : Envelope) : Res Bytes := do
  let producerID ← putBytes (utf8 e.producerID)
  ensure (IsInt64 e.timeNanos) (errorf "struct.error: argument out of range" [])
  let source ← putBytes (utf8 e.source)
  let data ← putBytes e.data
  let publicKey ← putBytes e.publicKey
  let type ← putBytes (utf8 e.attestationType)
  let evidenceHash ← putBytes e.evidenceHash
  let quantumPublicKey ← putBytes e.quantumPublicKey
  return producerID ++ be 8 (u64 e.timeNanos) ++ source ++ data ++ publicKey ++ type ++
    evidenceHash ++ quantumPublicKey

def Python.toDict (e : Envelope) : Json := wire e e.timeNanos

/-! ## TypeScript -/

/-- `canonicalBytes`. `setUint32` and `setBigInt64` take a number modulo their width. -/
def TypeScript.canonicalBytes (e : Envelope) : Bytes :=
  put (utf8 e.producerID) ++ be 8 (u64 e.timeNanos) ++ put (utf8 e.source) ++ put e.data ++
    put e.publicKey ++ put (utf8 e.attestationType) ++ put e.evidenceHash ++ put e.quantumPublicKey

def TypeScript.number (n : Int) : Int :=
  if 0 ≤ n then ⌊toFloat n⌋ else -⌊toFloat (-n)⌋

def TypeScript.envelopeToWire (e : Envelope) : Res Json := do
  ensure (e.signature ≠ [])
    (errorf "envelopeToWire: signature missing — call signEnvelope first" [])
  return wire e (number e.timeNanos)

/-! ## What the operator decodes -/

def Envelope.sent (e : Envelope) (time : Int) : Stele.Envelope where
  producerID := utf8 e.producerID
  timeNanos := time
  source := utf8 e.source
  data := e.data
  publicKey := e.publicKey
  type := utf8 e.attestationType
  evidenceHash := e.evidenceHash
  evidence := e.evidence
  signature := e.signature
  quantumPublicKey := e.quantumPublicKey
  quantumSignature := e.quantumSignature

lemma decode_wire (e : Envelope) (time : Int) (g : Stele.Envelope) :
    decode (wire e time) = .ok g ↔ IsInt64 time ∧ g = e.sent time := by
  have hjson : Envelope.ofJson (wire e time) = .ok (e.sent time) := by
    simp only [Envelope.ofJson, wire, Json.field, lastField_append, lastField_fld,
      lastField_omitEmpty, String.reduceEq, ↓reduceIte, ok_bind, Json.getStr, getInt_num,
      getBytes_ofBytes, getBytes_omitted]
    rfl
  simp only [decode, hjson, ok_bind, bind_ok, ensure_ok, pure_ok, exists_const]
  exact and_congr_right fun _ => eq_comm

lemma Python.canonicalBytes_ok {e : Envelope} {bytes : Bytes}
    (h : canonicalBytes e = .ok bytes) : (e.sent e.timeNanos).canonical = bytes := by
  simp only [canonicalBytes, putBytes, bind_ok, pure_ok] at h
  obtain ⟨_, ⟨-, -, rfl⟩, -, -, _, ⟨-, -, rfl⟩, _, ⟨-, -, rfl⟩, _, ⟨-, -, rfl⟩, _, ⟨-, -, rfl⟩,
    _, ⟨-, -, rfl⟩, _, ⟨-, -, rfl⟩, rfl⟩ := h
  rfl

lemma TypeScript.canonical_sent {e : Envelope} {time : Int} (htime : IsInt64 time)
    (h : IsInt64 e.timeNanos) :
    (e.sent time).canonical = canonicalBytes e ↔ time = e.timeNanos := by
  constructor
  · intro heq
    simp only [Envelope.canonical, canonicalBytes, Envelope.sent, List.append_assoc] at heq
    obtain ⟨hbytes, -⟩ := List.append_inj (List.append_cancel_left heq) (by simp)
    exact u64_inj htime h (be_inj (u64_lt _) (u64_lt _) hbytes)
  · rintro rfl
    rfl

lemma TypeScript.number_eq {n : Int} (h : n.natAbs < 2 ^ 53) : number n = n := by
  have hfloat : toFloat (n.natAbs : ℚ) = n.natAbs := toFloat_natCast h
  unfold number
  split
  · rename_i hn
    obtain ⟨m, rfl⟩ := Int.eq_ofNat_of_zero_le hn
    simpa using congrArg Int.floor hfloat
  · rename_i hn
    obtain ⟨m, hm⟩ := Int.eq_ofNat_of_zero_le (show 0 ≤ -n by omega)
    obtain rfl : n = -m := by omega
    simpa using congrArg Int.floor hfloat

def timed (time : Int) : Envelope :=
  { producerID := "p", timeNanos := time, source := "s", data := [1], publicKey := [2],
    signature := [3] }

end Stele.Sdk
