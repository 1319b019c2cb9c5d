import Stele.Checkpoint.Checkpoint

/-!
# `chain.json` and stored checkpoints

The JSON forms of a rotation chain and of a checkpoint. What is written and read comes back with its
strings coerced to UTF-8 (`Chain.ofJson_toJson`, `Checkpoint.unmarshal_marshal`). The strings of a
chain are the origin, the locator of the active key, the group digests and the members' IDs, so a
certificate without member signatures and with no digest comes back as it is
(`RotationCert.crossed_single`).
-/

namespace Stele

open Lib Json

lemma getBytes_omitEmpty (b : Bytes) :
    getBytes (if decide (b = []) then .null else .ofBytes b) = .ok b := by
  by_cases h : b = []
  · subst h
    rfl
  · simp [h]

namespace MemberSig

def ofJson (j : Json) : Res MemberSig := do
  return {
    memberID := ← j.field "member_id" >>= getStr
    publicKey := ← j.field "public_key" >>= getBytes
    signature := ← j.field "signature" >>= getBytes
    signedAt := ← j.field "signed_at" >>= getInt
    quantumPublicKey := ← j.field "quantum_public_key" >>= getBytes
    quantumSignature := ← j.field "quantum_signature" >>= getBytes }

def crossed (s : MemberSig) : MemberSig := { s with memberID := coerce s.memberID }

lemma ofJson_toJson (s : MemberSig) : ofJson s.toJson = .ok s.crossed := by
  simp only [ofJson, toJson, field, lastField_append, lastField_fld,
    lastField_omitEmpty, String.reduceEq, ↓reduceIte, ok_bind, getStr_ofStr,
    getInt_omitted, getBytes_ofBytes, getBytes_omitEmpty]
  rfl

end MemberSig

lemma getPtr_ptrJson {α : Type} {ofJson : Json → Res α} {toJson : α → Json} {back : α → α}
    (hnull : ∀ x, (toJson x).isNull = false) (h : ∀ x, ofJson (toJson x) = .ok (back x))
    (o : Option α) : getPtr ofJson (ptrJson toJson o) = .ok (o.map back) := by
  cases o with
  | none => rfl
  | some x =>
    have hx := hnull x
    show getPtr ofJson (toJson x) = .ok (some (back x))
    unfold getPtr
    split
    · rename_i heq
      rw [heq] at hx
      cases hx
    · rw [h x]
      rfl

namespace RotationCert

def toJson (c : RotationCert) : Json := .obj <|
  fld "epoch" (.num c.epoch) ++
  fld "public_key" (.ofBytes c.publicKey) ++
  fld "started_at" (.num c.startedAt) ++
  fld "signed_by" (.ofBytes c.signedBy) ++
  fld "signature" (.ofBytes c.signature) ++
  omitEmpty "quantum_public_key" (c.quantumPublicKey = []) (.ofBytes c.quantumPublicKey) ++
  omitEmpty "quantum_signed_by" (c.quantumSignedBy = []) (.ofBytes c.quantumSignedBy) ++
  omitEmpty "quantum_signature" (c.quantumSignature = []) (.ofBytes c.quantumSignature) ++
  omitEmpty "threshold_group_digest" c.thresholdGroupDigest.isEmpty
    (.ofStr c.thresholdGroupDigest) ++
  omitEmpty "member_sigs" c.memberSigs.isEmpty
    (.arr (c.memberSigs.map (ptrJson MemberSig.toJson)))

def ofJson (j : Json) : Res RotationCert := do
  return {
    epoch := ← j.field "epoch" >>= getNat
    publicKey := ← j.field "public_key" >>= getBytes
    startedAt := ← j.field "started_at" >>= getInt
    signedBy := ← j.field "signed_by" >>= getBytes
    signature := ← j.field "signature" >>= getBytes
    quantumPublicKey := ← j.field "quantum_public_key" >>= getBytes
    quantumSignedBy := ← j.field "quantum_signed_by" >>= getBytes
    quantumSignature := ← j.field "quantum_signature" >>= getBytes
    thresholdGroupDigest := ← j.field "threshold_group_digest" >>= getStr
    memberSigs := ← j.field "member_sigs" >>= getArr (getPtr MemberSig.ofJson) }

def crossed (c : RotationCert) : RotationCert :=
  { c with
    thresholdGroupDigest := coerce c.thresholdGroupDigest
    memberSigs := c.memberSigs.map (Option.map MemberSig.crossed) }

lemma ofJson_toJson (c : RotationCert) : ofJson c.toJson = .ok c.crossed := by
  have hptr := @getPtr_ptrJson MemberSig MemberSig.ofJson MemberSig.toJson MemberSig.crossed
    (fun _ => rfl) MemberSig.ofJson_toJson
  have hsigs := getArr_omitted hptr c.memberSigs
  simp only [ofJson, toJson, field, lastField_append, lastField_fld,
    lastField_omitEmpty, String.reduceEq, ↓reduceIte, ok_bind, getNat_num,
    getInt_num, getBytes_ofBytes, getBytes_omitEmpty, getStr_omitted, hsigs]
  rfl

lemma crossed_single {c : RotationCert} (hdigest : c.thresholdGroupDigest = [])
    (hsigs : c.memberSigs = []) : c.crossed = c := by
  simp only [crossed, hdigest, hsigs, List.map_nil]
  cases c
  simp_all [coerce, coerceFrom]

end RotationCert

namespace Chain

def toJson (ch : Chain) : Json := .obj <|
  fld "origin" (.ofStr ch.origin) ++
  fld "certs" (.arr (ch.certs.map (ptrJson RotationCert.toJson))) ++
  omitEmpty "active_locator" ch.activeLocator.isEmpty (.ofStr ch.activeLocator)

def ofJson (j : Json) : Res Chain := do
  return {
    origin := ← j.field "origin" >>= getStr
    certs := ← j.field "certs" >>= getArr (getPtr RotationCert.ofJson)
    activeLocator := ← j.field "active_locator" >>= getStr }

def crossed (ch : Chain) : Chain where
  origin := coerce ch.origin
  certs := ch.certs.map (Option.map RotationCert.crossed)
  activeLocator := coerce ch.activeLocator

lemma ofJson_toJson (ch : Chain) : ofJson ch.toJson = .ok ch.crossed := by
  have hptr := @getPtr_ptrJson RotationCert RotationCert.ofJson RotationCert.toJson
    RotationCert.crossed (fun _ => rfl) RotationCert.ofJson_toJson
  have hcerts := getArr_map hptr ch.certs
  simp only [ofJson, toJson, field, lastField_append, lastField_fld,
    lastField_omitEmpty, String.reduceEq, ↓reduceIte, ok_bind, getStr_ofStr,
    getStr_omitted, hcerts]
  rfl

end Chain

namespace WitnessSig

def ofJson (j : Json) : Res WitnessSig := do
  return {
    witnessID := ← j.field "witness_id" >>= getStr
    publicKey := ← j.field "public_key" >>= getBytes
    keyID := ← j.field "key_id" >>= getStr
    signature := ← j.field "signature" >>= getBytes
    signedAt := ← j.field "signed_at" >>= getInt
    quantumPublicKey := ← j.field "quantum_public_key" >>= getBytes
    quantumSignature := ← j.field "quantum_signature" >>= getBytes }

def crossed (w : WitnessSig) : WitnessSig :=
  { w with witnessID := coerce w.witnessID, keyID := coerce w.keyID }

lemma ofJson_toJson (w : WitnessSig) : ofJson w.toJson = .ok w.crossed := by
  simp only [ofJson, toJson, field, lastField_append, lastField_fld,
    lastField_omitEmpty, String.reduceEq, ↓reduceIte, ok_bind, getStr_ofStr,
    getInt_num, getBytes_ofBytes, getBytes_omitEmpty]
  rfl

end WitnessSig

namespace Beacon

def ofJson (j : Json) : Res Beacon := do
  return {
    source := ← j.field "source" >>= getStr
    round := ← j.field "round" >>= getNat
    value := ← j.field "value" >>= getBytes
    signature := ← j.field "signature" >>= getBytes
    chainHash := ← j.field "chain_hash" >>= getBytes }

def crossed (b : Beacon) : Beacon := { b with source := coerce b.source }

lemma ofJson_toJson (b : Beacon) : ofJson b.toJson = .ok b.crossed := by
  simp only [ofJson, toJson, field, lastField_append, lastField_fld,
    lastField_omitEmpty, String.reduceEq, ↓reduceIte, ok_bind, getStr_ofStr,
    getNat_num, getBytes_ofBytes, getBytes_omitEmpty]
  rfl

end Beacon

namespace Checkpoint

def unmarshal (j : Json) : Res Checkpoint := do
  return {
    origin := ← j.field "origin" >>= getStr
    size := ← j.field "size" >>= getNat
    rootHash := ← j.field "root_hash" >>= getBytes
    headHash := ← j.field "head_hash" >>= getBytes
    timeNanos := ← j.field "time_ns" >>= getInt
    epochIdx := ← j.field "epoch_idx" >>= getNat
    keyID := ← j.field "key_id" >>= getStr
    beacon := ← j.field "beacon" >>= getPtr Beacon.ofJson
    signature := ← j.field "signature" >>= getBytes
    quantumSignature := ← j.field "quantum_signature" >>= getBytes
    thresholdGroupDigest := ← j.field "threshold_group_digest" >>= getStr
    memberSigs := ← j.field "member_sigs" >>= getArr (getPtr MemberSig.ofJson)
    witnesses := ← j.field "witnesses" >>= getArr (getPtr WitnessSig.ofJson) }

def crossed (c : Checkpoint) : Checkpoint :=
  { c with
    origin := coerce c.origin
    keyID := coerce c.keyID
    beacon := c.beacon.map Beacon.crossed
    thresholdGroupDigest := coerce c.thresholdGroupDigest
    memberSigs := c.memberSigs.map (Option.map MemberSig.crossed)
    witnesses := c.witnesses.map (Option.map WitnessSig.crossed) }

lemma unmarshal_marshal (c : Checkpoint) : unmarshal c.marshal = .ok c.crossed := by
  have hsigs := getArr_omitted (@getPtr_ptrJson MemberSig MemberSig.ofJson MemberSig.toJson
    MemberSig.crossed (fun _ => rfl) MemberSig.ofJson_toJson) c.memberSigs
  have hwits := getArr_omitted (@getPtr_ptrJson WitnessSig WitnessSig.ofJson
    WitnessSig.toJson WitnessSig.crossed (fun _ => rfl) WitnessSig.ofJson_toJson) c.witnesses
  have hbeacon : getPtr Beacon.ofJson
      (if c.beacon.isNone = true then .null else ptrJson Beacon.toJson c.beacon) =
        .ok (c.beacon.map Beacon.crossed) := by
    cases hb : c.beacon with
    | none => rfl
    | some b =>
      exact @getPtr_ptrJson Beacon Beacon.ofJson Beacon.toJson Beacon.crossed (fun _ => rfl)
        Beacon.ofJson_toJson (some b)
  have hdigest : getStr (if decide (c.thresholdGroupDigest = []) = true then .null
      else .ofStr c.thresholdGroupDigest) = .ok (coerce c.thresholdGroupDigest) := by
    by_cases h : c.thresholdGroupDigest = []
    · rw [h]
      rfl
    · simp [h]
  have hempty {α : Type} [DecidableEq α] (l : List α) : decide (l = []) = l.isEmpty := by
    cases l <;> simp
  simp only [unmarshal, marshal, field, lastField_append, lastField_fld,
    lastField_omitEmpty, String.reduceEq, ↓reduceIte, ok_bind, getStr_ofStr,
    getNat_num, getInt_num, getBytes_ofBytes, getBytes_omitEmpty, hdigest, hbeacon]
  simp only [hempty, hsigs, hwits, ok_bind]
  rfl

end Checkpoint

end Stele
