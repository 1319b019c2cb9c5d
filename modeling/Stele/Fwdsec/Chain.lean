import Stele.Threshold.Multisig

/-!
# Rotation chains (`pkg/fwdsec`)

A `Chain` is the list of rotation certificates from genesis to the active epoch, as it is read from
JSON: an element may be nil, and the functions that read a certificate panic on one.
-/

namespace Stele

open Lib List

structure RotationCert where
  epoch : Nat
  publicKey : Bytes
  startedAt : Int
  signedBy : Bytes
  signature : Bytes := []
  quantumPublicKey : Bytes := []
  quantumSignedBy : Bytes := []
  quantumSignature : Bytes := []
  thresholdGroupDigest : Bytes := []
  memberSigs : List (Option MemberSig) := []
  deriving DecidableEq, Repr

def orNone (s : Bytes) : Bytes := if s = [] then lit "none" else s

variable {u : Unit}

namespace RotationCert

/-- The first line of a certificate's canonical form. -/
def tag : Bytes := line (lit "stele-rotation/v0")

def canonical (c : RotationCert) : Bytes :=
  tag ++ line (lit "epoch: " ++ dec c.epoch) ++ line (lit "public_key: " ++ hex c.publicKey) ++
    line (lit "started_at: " ++ decInt c.startedAt) ++
    line (lit "signed_by: " ++ hex c.signedBy) ++
    line (lit "quantum_public_key: " ++ orNone (hex c.quantumPublicKey)) ++
    line (lit "threshold_group: " ++ orNone c.thresholdGroupDigest)

variable (C : Crypto)

def verifyQuantumCert (c : RotationCert) : Res Unit := do
  ensure (c.quantumPublicKey.length = quantumPublicKeySize)
    (errorf "quantum public key wrong length %d" [.nat c.quantumPublicKey.length])
  ensure (c.quantumSignedBy.length = quantumPublicKeySize)
    (errorf "quantum signed-by wrong length %d" [.nat c.quantumSignedBy.length])
  ensure (c.quantumSignature.length = quantumSignatureSize)
    (errorf "quantum signature wrong length %d" [.nat c.quantumSignature.length])
  let dPub ← wrapErr "decode quantum signed_by: %w" [] (Crypto.decodeQuantum c.quantumSignedBy)
  ensure (C.dilVerify dPub c.canonical c.quantumSignature = true)
    (errorf "quantum signature invalid" [])

def verify (c : RotationCert) : Res Unit := do
  ensure (c.publicKey.length = edPublicKeySize)
    (errorf "rotation cert epoch %d: bad PublicKey length" [.nat c.epoch])
  ensure (c.memberSigs = [])
    (errorf "rotation cert epoch %d: threshold-mode cert requires VerifyWithGroup" [.nat c.epoch])
  ensure (c.signedBy.length = edPublicKeySize)
    (errorf "rotation cert epoch %d: bad SignedBy length" [.nat c.epoch])
  C.checkEd c.signedBy c.canonical c.signature
    (errorf "rotation cert epoch %d: classical signature invalid" [.nat c.epoch])
  checkIf (c.quantumPublicKey ≠ [] ∨ c.quantumSignature ≠ [] ∨ c.quantumSignedBy ≠ []) <|
    wrapErr "rotation cert epoch %d: %w" [.nat c.epoch] (c.verifyQuantumCert C)

def verifyWithGroup (c : RotationCert) (group : Option Group) : Res Unit :=
  if c.memberSigs = [] then c.verify C
  else
    match group with
    | none =>
      .error (errorf "rotation cert epoch %d: threshold-mode cert requires group" [.nat c.epoch])
    | some g => do
      let digest ← g.digest C
      ensure (c.thresholdGroupDigest = hex digest)
        (errorf "rotation cert epoch %d: group digest mismatch" [.nat c.epoch])
      verifyMulti C group c.canonical c.memberSigs

/-! ## What the two modes check -/

structure SingleOk (c : RotationCert) : Prop where
  memberSigs : c.memberSigs = []
  publicKey_length : c.publicKey.length = edPublicKeySize
  signed : C.EdValid c.signedBy c.canonical c.signature
  quantum : c.quantumPublicKey ≠ [] ∨ c.quantumSignature ≠ [] ∨ c.quantumSignedBy ≠ [] →
    c.quantumPublicKey.length = quantumPublicKeySize ∧
    c.quantumSignature.length = quantumSignatureSize ∧
    C.DilValid c.quantumSignedBy c.canonical c.quantumSignature

structure GroupOk (group : Option Group) (c : RotationCert) : Prop where
  memberSigs : c.memberSigs ≠ []
  digest : ∃ g d, group = some g ∧ g.digest C = .ok d ∧ c.thresholdGroupDigest = hex d
  quorum : verifyMulti C group c.canonical c.memberSigs = .ok ()

variable {C}

variable {c : RotationCert}

lemma verifyQuantumCert_ok :
    c.verifyQuantumCert C = .ok u ↔
      c.quantumPublicKey.length = quantumPublicKeySize ∧
      c.quantumSignature.length = quantumSignatureSize ∧
      C.DilValid c.quantumSignedBy c.canonical c.quantumSignature := by
  simp only [verifyQuantumCert, bind_ok, ensure_ok, exists_const, wrapErr_ok,
    Crypto.decodeQuantum_ok]
  constructor
  · rintro ⟨hpk, -, hsig, _, ⟨hlen, rfl⟩, hdil⟩
    exact ⟨hpk, hsig, hlen, hdil⟩
  · rintro ⟨hpk, hsig, hlen, hdil⟩
    exact ⟨hpk, hlen, hsig, _, ⟨hlen, rfl⟩, hdil⟩

lemma verify_ok : c.verify C = .ok u ↔ c.SingleOk C := by
  simp only [verify, bind_ok, ensure_ok, exists_const, Crypto.checkEd_ok, checkIf_ok, wrapErr_ok,
    verifyQuantumCert_ok]
  constructor
  · rintro ⟨hpk, hms, -, hed, hq⟩
    exact ⟨hms, hpk, hed, hq⟩
  · rintro ⟨hms, hpk, hed, hq⟩
    exact ⟨hpk, hms, hed.1, hed, hq⟩

lemma verifyWithGroup_ok {group : Option Group} (hne : c.memberSigs ≠ []) :
    c.verifyWithGroup C group = .ok u ↔ c.GroupOk C group := by
  unfold verifyWithGroup
  rw [if_neg hne]
  cases group with
  | none =>
    simp only [reduceCtorEq, false_iff]
    rintro ⟨-, ⟨g, d, hg, -⟩, -⟩
    cases hg
  | some g =>
    simp only [bind_ok, ensure_ok, exists_const]
    constructor
    · rintro ⟨d, hd, hdig, hq⟩
      exact ⟨hne, ⟨g, d, rfl, hd, hdig⟩, hq⟩
    · rintro ⟨-, ⟨g', d, hg, hd, hdig⟩, hq⟩
      cases hg
      exact ⟨d, hd, hdig, hq⟩

lemma canonical_inj {d : RotationCert} (h : c.canonical = d.canonical) :
    c.epoch = d.epoch ∧ c.publicKey = d.publicKey ∧ c.startedAt = d.startedAt ∧
      c.signedBy = d.signedBy := by
  simp only [canonical, append_assoc] at h
  have h := (append_inj h rfl).2
  obtain ⟨hepoch, h⟩ := line_append_inj (noNewline_append (by decide) (dec_noNewline _))
    (noNewline_append (by decide) (dec_noNewline _)) h
  obtain ⟨hkey, h⟩ := line_append_inj (noNewline_append (by decide) (hex_noNewline _))
    (noNewline_append (by decide) (hex_noNewline _)) h
  obtain ⟨hstart, h⟩ := line_append_inj (noNewline_append (by decide) (decInt_noNewline _))
    (noNewline_append (by decide) (decInt_noNewline _)) h
  obtain ⟨hby, -⟩ := line_append_inj (noNewline_append (by decide) (hex_noNewline _))
    (noNewline_append (by decide) (hex_noNewline _)) h
  exact ⟨dec_inj (append_cancel_left hepoch), hex_inj (append_cancel_left hkey),
    decInt_inj (append_cancel_left hstart), hex_inj (append_cancel_left hby)⟩

end RotationCert

structure Chain where
  origin : Bytes
  certs : List (Option RotationCert)
  activeLocator : Bytes := []
  deriving DecidableEq, Repr

namespace Chain

def nilCert : Fault := .panic "invalid memory address or nil pointer dereference"

def certAt (epoch : Nat) : List (Option RotationCert) → Res (Option RotationCert)
  | [] => .ok none
  | none :: _ => .error nilCert
  | some c :: certs => if c.epoch = epoch then .ok (some c) else certAt epoch certs

def publicKeyAt (ch : Chain) (epoch : Nat) : Res (Option Bytes) := do
  return (← certAt epoch ch.certs).map RotationCert.publicKey

def quantumPublicKeyAt (ch : Chain) (epoch : Nat) : Res Bytes := do
  return ((← certAt epoch ch.certs).map RotationCert.quantumPublicKey).getD []

variable (C : Crypto)

def verifyCert (group : Option Group) (cert : RotationCert) : Res Unit :=
  if cert.memberSigs ≠ [] then do
    ensure (group.isSome = true)
      (errorf "chain: epoch %d is threshold-signed but no group supplied" [.nat cert.epoch])
    cert.verifyWithGroup C group
  else
    cert.verify C

/-- The checks of a certificate against the one before it; genesis has none. A group-signed
certificate is not linked to the previous epoch's key. -/
def verifyLink : Option RotationCert → RotationCert → Res Unit
  | none, _ => .ok ()
  | some prev, cert => do
    ensure (cert.epoch = prev.epoch + 1)
      (errorf "chain: epoch jump %d -> %d" [.nat prev.epoch, .nat cert.epoch])
    ensure (prev.startedAt ≤ cert.startedAt)
      (errorf "chain: epoch %d started before its parent" [.nat cert.epoch])
    checkIf (cert.memberSigs = []) do
      ensure (cert.signedBy = prev.publicKey)
        (errorf "chain: epoch %d signed by unexpected key" [.nat cert.epoch])
      checkIf (cert.quantumPublicKey ≠ [] ∨ cert.quantumSignedBy ≠ []) <|
        ensure (cert.quantumSignedBy = prev.quantumPublicKey)
          (errorf "chain: epoch %d quantum half signed by unexpected key" [.nat cert.epoch])

def verifyCerts (group : Option Group) :
    Option RotationCert → List (Option RotationCert) → Res Unit
  | _, [] => .ok ()
  | _, none :: _ => .error nilCert
  | prev, some cert :: certs => do
    verifyCert C group cert
    verifyLink prev cert
    verifyCerts group (some cert) certs

def verifyChainWith (ch : Chain) (rootPub : Bytes) (group : Option Group) : Res Unit :=
  match ch.certs with
  | [] => .error (errorf "chain: no certs" [])
  | none :: _ => .error nilCert
  | some genesis :: _ => do
    ensure (genesis.epoch = 0)
      (errorf "chain: first cert must be epoch 0, got %d" [.nat genesis.epoch])
    ensure (genesis.publicKey = rootPub)
      (errorf "chain: genesis public key does not match trusted root" [])
    ensure (genesis.signedBy = rootPub)
      (errorf "chain: genesis must be self-signed (SignedBy == PublicKey)" [])
    ensure (genesis.quantumPublicKey = [] ∨ genesis.quantumPublicKey = genesis.quantumSignedBy)
      (errorf "chain: genesis quantum half must be self-signed" [])
    verifyCerts C group none ch.certs

def verifyChain (ch : Chain) (rootPub : Bytes) : Res Unit := ch.verifyChainWith C rootPub none

def verifyChainWithGroup (ch : Chain) (rootPub : Bytes) (group : Option Group) : Res Unit :=
  ch.verifyChainWith C rootPub group

/-! ## What the walk accepts -/

structure Link (prev cert : RotationCert) : Prop where
  epoch : cert.epoch = prev.epoch + 1
  startedAt : prev.startedAt ≤ cert.startedAt
  signedBy : cert.memberSigs = [] → cert.signedBy = prev.publicKey
  quantum : cert.memberSigs = [] → cert.quantumPublicKey ≠ [] ∨ cert.quantumSignedBy ≠ [] →
    cert.quantumSignedBy = prev.quantumPublicKey

def Linked (group : Option Group) : Option RotationCert → List RotationCert → Prop
  | _, [] => True
  | prev, c :: cs =>
    (c.SingleOk C ∨ c.GroupOk C group) ∧ (∀ p, prev = some p → Link p c) ∧ Linked group (some c) cs

structure Accepted (ch : Chain) (rootPub : Bytes) (group : Option Group) (genesis : RotationCert)
    (rest : List RotationCert) : Prop where
  certs : ch.certs = (genesis :: rest).map some
  epoch : genesis.epoch = 0
  publicKey : genesis.publicKey = rootPub
  signedBy : genesis.signedBy = rootPub
  quantum : genesis.quantumPublicKey = [] ∨ genesis.quantumPublicKey = genesis.quantumSignedBy
  linked : Linked C group none (genesis :: rest)

variable {C}

variable {group : Option Group}

lemma verifyCert_ok {cert : RotationCert} :
    verifyCert C group cert = .ok u ↔ cert.SingleOk C ∨ cert.GroupOk C group := by
  unfold verifyCert
  by_cases hms : cert.memberSigs = []
  · rw [if_neg (not_not.mpr hms), RotationCert.verify_ok]
    exact ⟨.inl, fun h => h.elim id fun h => absurd hms h.memberSigs⟩
  · rw [if_pos hms]
    simp only [bind_ok, ensure_ok, exists_const, RotationCert.verifyWithGroup_ok hms]
    constructor
    · exact fun h => .inr h.2
    · rintro (h | h)
      · exact absurd h.memberSigs hms
      · obtain ⟨g, -, hg, -⟩ := h.digest
        exact ⟨by rw [hg]; rfl, h⟩

lemma verifyLink_ok {prev : Option RotationCert} {cert : RotationCert} :
    verifyLink prev cert = .ok u ↔ ∀ p, prev = some p → Link p cert := by
  cases prev with
  | none => simp [verifyLink]
  | some =>
    simp only [verifyLink, bind_ok, ensure_ok, exists_const, checkIf_ok, Option.some.injEq,
      forall_eq']
    constructor
    · rintro ⟨he, hs, hl⟩
      exact ⟨he, hs, fun h => (hl h).1, fun h => (hl h).2⟩
    · rintro ⟨he, hs, hby, hq⟩
      exact ⟨he, hs, fun h => ⟨hby h, hq h⟩⟩

lemma verifyCerts_ok {prev : Option RotationCert} {certs : List (Option RotationCert)} :
    verifyCerts C group prev certs = .ok u ↔
      ∃ cs, certs = cs.map some ∧ Linked C group prev cs := by
  induction certs generalizing prev with
  | nil =>
    simp only [verifyCerts, true_iff]
    exact ⟨[], rfl, trivial⟩
  | cons o certs ih =>
    cases o with
    | none =>
      simp only [verifyCerts, reduceCtorEq, false_iff]
      rintro ⟨cs, hcs, -⟩
      cases cs <;> simp at hcs
    | some cert =>
      simp only [verifyCerts, bind_ok, verifyCert_ok, verifyLink_ok, exists_const, ih]
      constructor
      · rintro ⟨hver, hl, cs, rfl, hcs⟩
        exact ⟨cert :: cs, rfl, hver, hl, hcs⟩
      · rintro ⟨cs, hcs, hlinked⟩
        cases cs with
        | nil => simp at hcs
        | cons c cs =>
          simp only [map_cons, List.cons.injEq, Option.some.injEq] at hcs
          obtain ⟨rfl, rfl⟩ := hcs
          exact ⟨hlinked.1, hlinked.2.1, cs, rfl, hlinked.2.2⟩

variable {ch : Chain} {rootPub : Bytes}

lemma verifyChainWith_ok :
    ch.verifyChainWith C rootPub group = .ok u ↔
      ∃ genesis rest, Accepted C ch rootPub group genesis rest := by
  unfold verifyChainWith
  match hcerts : ch.certs with
  | [] =>
    simp only [reduceCtorEq, false_iff]
    rintro ⟨genesis, rest, h⟩
    have := h.certs
    simp [hcerts] at this
  | none :: _ =>
    simp only [reduceCtorEq, false_iff]
    rintro ⟨genesis, rest, h⟩
    have := h.certs
    simp [hcerts] at this
  | some g :: tail =>
    simp only [bind_ok, ensure_ok, exists_const, verifyCerts_ok]
    constructor
    · rintro ⟨he, hpk, hby, hq, cs, hcs, hlinked⟩
      cases cs with
      | nil => simp at hcs
      | cons c cs =>
        simp only [map_cons, List.cons.injEq, Option.some.injEq] at hcs
        obtain ⟨rfl, rfl⟩ := hcs
        exact ⟨g, cs, hcerts, he, hpk, hby, hq, hlinked⟩
    · rintro ⟨genesis, rest, h⟩
      have hc := h.certs
      rw [hcerts, map_cons, List.cons.injEq, Option.some.injEq] at hc
      obtain ⟨rfl, rfl⟩ := hc
      exact ⟨h.epoch, h.publicKey, h.signedBy, h.quantum, g :: rest, rfl, h.linked⟩

/-! ## Accepted chains -/

variable {cs : List RotationCert} {i : Nat}

lemma Linked.prev {prev : Option RotationCert} (h : Linked C group prev cs) {d : RotationCert}
    (hd : cs[i + 1]? = some d) :
    ∃ c, cs[i]? = some c ∧ Link c d ∧ (d.SingleOk C ∨ d.GroupOk C group) := by
  induction cs generalizing prev i with
  | nil => cases hd
  | cons c cs ih =>
    obtain ⟨-, -, htail⟩ := h
    rw [getElem?_cons_succ] at hd
    cases i with
    | zero =>
      cases cs with
      | nil => cases hd
      | cons =>
        cases hd
        exact ⟨c, rfl, htail.2.1 c rfl, htail.1⟩
    | succ => exact ih htail hd

/-- Without a group every certificate of a linked list is signed by a single key. -/
lemma Linked.next {prev : Option RotationCert} (h : Linked C none prev cs) {d : RotationCert}
    (hd : cs[i + 1]? = some d) : ∃ c, cs[i]? = some c ∧ Link c d ∧ d.SingleOk C := by
  obtain ⟨c, hc, hlink, hs | hg⟩ := h.prev hd
  · exact ⟨c, hc, hlink, hs⟩
  · obtain ⟨g, -, hnone, -⟩ := hg.digest
    cases hnone

lemma Linked.epoch_eq (h : Linked C group none cs) (h0 : ∀ c, cs[0]? = some c → c.epoch = 0)
    {c : RotationCert} (hc : cs[i]? = some c) : c.epoch = i := by
  induction i generalizing c with
  | zero => exact h0 c hc
  | succ i ih =>
    obtain ⟨b, hb, hlink, -⟩ := h.prev hc
    rw [hlink.epoch, ih hb]

lemma certAt_eq {k : Nat} (h : ∀ (i : Nat) c, cs[i]? = some c → c.epoch = k + i) (i : Nat) :
    certAt (k + i) (cs.map some) = .ok cs[i]? := by
  induction cs generalizing k i with
  | nil => rfl
  | cons c cs ih =>
    have hc : c.epoch = k := h 0 c rfl
    rw [map_cons, certAt]
    cases i with
    | zero => simp [hc]
    | succ i =>
      rw [if_neg (by omega), getElem?_cons_succ]
      have hcs : ∀ (i : Nat) d, cs[i]? = some d → d.epoch = (k + 1) + i := fun i d hd => by
        rw [h (i + 1) d (by simpa using hd)]
        omega
      rw [← ih hcs i]
      congr 1
      omega

variable {genesis : RotationCert} {rest : List RotationCert}

section

variable (h : Accepted C ch rootPub group genesis rest)

include h

lemma Accepted.certAt_eq (i : Nat) :
    certAt i ch.certs = .ok (genesis :: rest)[i]? := by
  have hep : ∀ (i : Nat) c, (genesis :: rest)[i]? = some c → c.epoch = 0 + i := fun i c hc => by
    rw [Nat.zero_add]
    refine h.linked.epoch_eq (fun c hc => ?_) hc
    cases hc
    exact h.epoch
  have hat := Chain.certAt_eq hep i
  rw [Nat.zero_add] at hat
  rw [h.certs, hat]

lemma Accepted.publicKeyAt_eq (i : Nat) :
    ch.publicKeyAt i = .ok ((genesis :: rest)[i]?.map RotationCert.publicKey) := by
  rw [publicKeyAt, h.certAt_eq]
  rfl

lemma Accepted.quantumPublicKeyAt_eq (i : Nat) :
    ch.quantumPublicKeyAt i =
      .ok (((genesis :: rest)[i]?.map RotationCert.quantumPublicKey).getD []) := by
  rw [quantumPublicKeyAt, h.certAt_eq]
  rfl

end

end Chain

end Stele
