import Stele.Crypto
import Stele.Lib.Json

/-!
# Producer envelopes (`pkg/attest`)

An `Envelope` is what a producer signs and sends; the operator logs it verbatim.
-/

namespace Stele

open Lib Json

structure Envelope where
  producerID : Bytes
  timeNanos : Int
  source : Bytes
  data : Bytes
  publicKey : Bytes
  type : Bytes
  evidenceHash : Bytes
  evidence : Bytes
  signature : Bytes
  quantumPublicKey : Bytes
  quantumSignature : Bytes
  deriving DecidableEq, Repr

namespace Envelope

/-- `Canonical`. The platform evidence is covered through its hash, and the quantum key is covered
also when it is empty. -/
def canonical (e : Envelope) : Bytes :=
  put e.producerID ++ be 8 (u64 e.timeNanos) ++ put e.source ++ put e.data ++ put e.publicKey ++
    put e.type ++ put e.evidenceHash ++ put e.quantumPublicKey

variable (C : Crypto)

def hash (e : Envelope) : Bytes := C.sha256 e.canonical

def verify (e : Envelope) : Res Unit := do
  ensure (e.publicKey.length = edPublicKeySize)
    (errorf "envelope: bad public key length %d" [.nat e.publicKey.length])
  ensure (e.signature.length = edSignatureSize)
    (errorf "envelope: bad signature length %d" [.nat e.signature.length])
  checkIf (e.evidence ≠ []) <|
    ensure (C.sha256 e.evidence = e.evidenceHash)
      (errorf "envelope: EvidenceHash does not match Evidence" [])
  C.checkEd e.publicKey e.canonical e.signature
    (errorf "envelope: invalid producer signature (classical)" [])
  -- One quantum field without the other is a downgrade attempt and fails a length check.
  checkIf (e.quantumPublicKey ≠ [] ∨ e.quantumSignature ≠ []) do
    ensure (e.quantumPublicKey.length = quantumPublicKeySize)
      (errorf "envelope: bad quantum public key length %d" [.nat e.quantumPublicKey.length])
    ensure (e.quantumSignature.length = quantumSignatureSize)
      (errorf "envelope: bad quantum signature length %d" [.nat e.quantumSignature.length])
    let qPub ← wrapErr "envelope: decode quantum pubkey: %w" []
      (Crypto.decodeQuantum e.quantumPublicKey)
    ensure (C.dilVerify qPub e.canonical e.quantumSignature = true)
      (errorf "envelope: invalid producer signature (quantum)" [])

structure Valid (e : Envelope) : Prop where
  evidence_hash : e.evidence ≠ [] → C.sha256 e.evidence = e.evidenceHash
  signed : C.EdValid e.publicKey e.canonical e.signature
  quantum : e.quantumPublicKey ≠ [] ∨ e.quantumSignature ≠ [] →
    e.quantumSignature.length = quantumSignatureSize ∧
    C.DilValid e.quantumPublicKey e.canonical e.quantumSignature

variable {C}

lemma verify_ok {e : Envelope} {u : Unit} : e.verify C = .ok u ↔ e.Valid C := by
  simp only [verify, bind_ok, ensure_ok, checkIf_ok, Crypto.checkEd_ok, wrapErr_ok,
    Crypto.decodeQuantum_ok, exists_const]
  constructor
  · rintro ⟨-, -, hev, hed, hq⟩
    refine ⟨hev, hed, fun h => ?_⟩
    obtain ⟨-, hqsig, _, ⟨hlen, rfl⟩, hdil⟩ := hq h
    exact ⟨hqsig, hlen, hdil⟩
  · rintro ⟨hev, hed, hq⟩
    refine ⟨hed.1, C.edVerify_length hed.2, hev, hed, fun h => ?_⟩
    obtain ⟨hqsig, hlen, hdil⟩ := hq h
    exact ⟨hlen, hqsig, _, ⟨hlen, rfl⟩, hdil⟩

lemma noPanic_verify (e : Envelope) : NoPanic (e.verify C) := by
  simp +contextual [verify, ensure_ok]

/-! ## What the canonical form fixes -/

structure Fits (e : Envelope) : Prop where
  producerID : e.producerID.length < 2 ^ 32
  timeNanos : IsInt64 e.timeNanos
  source : e.source.length < 2 ^ 32
  data : e.data.length < 2 ^ 32
  publicKey : e.publicKey.length < 2 ^ 32
  type : e.type.length < 2 ^ 32
  evidenceHash : e.evidenceHash.length < 2 ^ 32
  quantumPublicKey : e.quantumPublicKey.length < 2 ^ 32

structure Agree (e f : Envelope) : Prop where
  producerID : e.producerID = f.producerID
  timeNanos : e.timeNanos = f.timeNanos
  source : e.source = f.source
  data : e.data = f.data
  publicKey : e.publicKey = f.publicKey
  type : e.type = f.type
  evidenceHash : e.evidenceHash = f.evidenceHash
  quantumPublicKey : e.quantumPublicKey = f.quantumPublicKey

/-- **The canonical form determines the fields it covers.** -/
theorem agree_of_canonical {e f : Envelope} (he : e.Fits) (hf : f.Fits)
    (h : e.canonical = f.canonical) : e.Agree f := by
  simp only [canonical, List.append_assoc] at h
  obtain ⟨hid, h⟩ := put_append_inj he.producerID hf.producerID h
  obtain ⟨htime, h⟩ := be_append_inj (u64_lt _) (u64_lt _) h
  obtain ⟨hsource, h⟩ := put_append_inj he.source hf.source h
  obtain ⟨hdata, h⟩ := put_append_inj he.data hf.data h
  obtain ⟨hpub, h⟩ := put_append_inj he.publicKey hf.publicKey h
  obtain ⟨htype, h⟩ := put_append_inj he.type hf.type h
  obtain ⟨hev, h⟩ := put_append_inj he.evidenceHash hf.evidenceHash h
  have hq : put e.quantumPublicKey ++ [] = put f.quantumPublicKey ++ [] := by simpa using h
  obtain ⟨hqpub, -⟩ := put_append_inj he.quantumPublicKey hf.quantumPublicKey hq
  exact ⟨hid, u64_inj he.timeNanos hf.timeNanos htime, hsource, hdata, hpub, htype, hev, hqpub⟩

/-! ## JSON -/

def toJson (e : Envelope) : Json := .obj <|
  fld "producer_id" (.ofStr e.producerID) ++
  fld "time_ns" (.num e.timeNanos) ++
  fld "source" (.ofStr e.source) ++
  fld "data" (.ofBytes e.data) ++
  fld "public_key" (.ofBytes e.publicKey) ++
  fld "attestation_type" (.ofStr e.type) ++
  omitEmpty "evidence_hash" e.evidenceHash.isEmpty (.ofBytes e.evidenceHash) ++
  omitEmpty "evidence" e.evidence.isEmpty (.ofBytes e.evidence) ++
  fld "signature" (.ofBytes e.signature) ++
  omitEmpty "quantum_public_key" e.quantumPublicKey.isEmpty (.ofBytes e.quantumPublicKey) ++
  omitEmpty "quantum_signature" e.quantumSignature.isEmpty (.ofBytes e.quantumSignature)

def ofJson (j : Json) : Res Envelope := do
  return {
    producerID := ← j.field "producer_id" >>= getStr
    timeNanos := ← j.field "time_ns" >>= getInt
    source := ← j.field "source" >>= getStr
    data := ← j.field "data" >>= getBytes
    publicKey := ← j.field "public_key" >>= getBytes
    type := ← j.field "attestation_type" >>= getStr
    evidenceHash := ← j.field "evidence_hash" >>= getBytes
    evidence := ← j.field "evidence" >>= getBytes
    signature := ← j.field "signature" >>= getBytes
    quantumPublicKey := ← j.field "quantum_public_key" >>= getBytes
    quantumSignature := ← j.field "quantum_signature" >>= getBytes }

structure IsUtf8 (e : Envelope) : Prop where
  producerID : Utf8 e.producerID
  source : Utf8 e.source
  type : Utf8 e.type

instance (e : Envelope) : Decidable e.IsUtf8 :=
  decidable_of_iff (Utf8 e.producerID ∧ Utf8 e.source ∧ Utf8 e.type)
    ⟨fun ⟨h1, h2, h3⟩ => ⟨h1, h2, h3⟩, fun ⟨h1, h2, h3⟩ => ⟨h1, h2, h3⟩⟩

lemma ofJson_toJson_coerce (e : Envelope) :
    ofJson e.toJson = .ok { e with
      producerID := coerce e.producerID, source := coerce e.source, type := coerce e.type } := by
  simp only [ofJson, toJson, field, lastField_append, lastField_fld,
    lastField_omitEmpty, String.reduceEq, ↓reduceIte, ok_bind, getStr_ofStr,
    getInt_num, getBytes_ofBytes, getBytes_omitted]
  rfl

lemma ofJson_toJson {e : Envelope} (h : e.IsUtf8) : ofJson e.toJson = .ok e := by
  rw [ofJson_toJson_coerce, coerce_of_utf8 h.producerID, coerce_of_utf8 h.source,
    coerce_of_utf8 h.type]

end Envelope

end Stele
