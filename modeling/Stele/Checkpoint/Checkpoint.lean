import Stele.Fwdsec.Chain
import Stele.Lib.Json
import Stele.Threshold.Coordinator

/-!
# Checkpoints (`pkg/checkpoint`)

A `Checkpoint` is the operator's signed statement of the size, the root and the head of the log.
-/

namespace Stele

open Lib Json

structure Beacon where
  source : Bytes
  round : Nat
  value : Bytes
  signature : Bytes := []
  chainHash : Bytes := []
  deriving DecidableEq, Repr

structure WitnessSig where
  witnessID : Bytes
  publicKey : Bytes
  keyID : Bytes
  signature : Bytes
  signedAt : Int
  quantumPublicKey : Bytes := []
  quantumSignature : Bytes := []
  deriving DecidableEq, Repr

structure Checkpoint where
  origin : Bytes
  size : Nat
  rootHash : Bytes
  headHash : Bytes
  timeNanos : Int
  epochIdx : Nat
  keyID : Bytes
  beacon : Option Beacon := none
  signature : Bytes := []
  quantumSignature : Bytes := []
  thresholdGroupDigest : Bytes := []
  memberSigs : List (Option MemberSig) := []
  witnesses : List (Option WitnessSig) := []
  deriving DecidableEq, Repr

/-- `fwdsec.KeyID`: the first 8 bytes of the key's hash, in hexadecimal. -/
def keyIDOf (C : Crypto) (pub : Bytes) : Bytes := hex ((C.sha256 pub).take 8)

variable {c : Checkpoint}

namespace Checkpoint

def tag : Bytes := line (lit "stele/v1")

def beaconText : Option Beacon → Bytes
  | none => lit "none"
  | some b => b.source ++ lit ":" ++ dec b.round ++ lit ":" ++ hex b.value

def canonical (c : Checkpoint) : Bytes :=
  tag ++ line (lit "origin: " ++ c.origin) ++ line (lit "size: " ++ dec c.size) ++
    line (lit "root: " ++ hex c.rootHash) ++ line (lit "head: " ++ hex c.headHash) ++
    line (lit "time: " ++ decInt c.timeNanos) ++ line (lit "epoch: " ++ dec c.epochIdx) ++
    line (lit "beacon: " ++ beaconText c.beacon) ++
    line (lit "threshold_group: " ++ orNone c.thresholdGroupDigest)

def canonicalForWitness (c : Checkpoint) : Bytes :=
  c.canonical ++ line (lit "operator_sig: " ++ hex c.signature)

variable (C : Crypto)

/-! ## Verification -/

def verifyQuantumCheckpoint (pubBytes msg sig : Bytes) : Res Unit := do
  let pub ← wrapErr "decode quantum pubkey: %w" [] (Crypto.decodeQuantum pubBytes)
  ensure (C.dilVerify pub msg sig = true) (errorf "dilithium signature invalid" [])

def verifyGroup (c : Checkpoint) : Option Group → Res Unit
  | none => .error (errorf "checkpoint: threshold-signed but no group supplied" [])
  | some group => do
    wrapErr "threshold group: %w" [] (Group.validate (some group))
    let digest ← group.digest C
    ensure (c.thresholdGroupDigest = hex digest)
      (errorf "checkpoint group digest %s does not match supplied group %s"
        [.bytes c.thresholdGroupDigest, .bytes (hex digest)])
    verifyMulti C (some group) c.canonical c.memberSigs

/-- The post-quantum half of the single-signature path: `qChainPub` is the epoch's quantum key in
the chain. Either both sides have a quantum half or neither does. -/
def verifyQuantumHalf (c : Checkpoint) (qChainPub : Bytes) : Res Unit :=
  if qChainPub ≠ [] then do
    ensure (c.quantumSignature ≠ [])
      (errorf "checkpoint epoch %d: chain has a quantum pubkey but checkpoint is missing quantum_signature (downgrade attempt?)"
        [.nat c.epochIdx])
    wrapErr "checkpoint quantum signature: %w" []
      (verifyQuantumCheckpoint C qChainPub c.canonical c.quantumSignature)
  else
    ensure (c.quantumSignature = [])
      (errorf "checkpoint epoch %d has quantum signature but chain has no quantum pubkey"
        [.nat c.epochIdx])

def verifySingle (c : Checkpoint) (chain : Option Chain) (rootPub : Bytes) : Res Unit :=
  match chain with
  | none => .error (errorf "checkpoint: rotation chain required for single-sig verify" [])
  | some chain => do
    wrapErr "rotation chain: %w" [] (chain.verifyChain C rootPub)
    match ← chain.publicKeyAt c.epochIdx with
    | none => throw (errorf "rotation chain does not contain epoch %d" [.nat c.epochIdx])
    | some pub =>
      ensure (keyIDOf C pub = c.keyID)
        (errorf "checkpoint key_id %s does not match epoch %d (%s)"
          [.bytes c.keyID, .nat c.epochIdx, .bytes (keyIDOf C pub)])
      C.checkEd pub c.canonical c.signature
        (errorf "checkpoint operator signature invalid (classical)" [])
      let qChainPub ← chain.quantumPublicKeyAt c.epochIdx
      c.verifyQuantumHalf C qChainPub

def verify (c : Checkpoint) (chain : Option Chain) (rootPub : Bytes) (group : Option Group) :
    Res Unit :=
  if c.memberSigs ≠ [] then c.verifyGroup C group else c.verifySingle C chain rootPub

structure GroupSigned (c : Checkpoint) (group : Option Group) : Prop where
  digest : ∃ g d, group = some g ∧ g.digest C = .ok d ∧ c.thresholdGroupDigest = hex d
  quorum : verifyMulti C group c.canonical c.memberSigs = .ok ()

/-- What the single-signature path checks: `pub` is the key of the checkpoint's epoch in a chain
that verifies under the root, `qpub` the epoch's quantum key, empty when it has none. -/
structure ChainSigned (c : Checkpoint) (chain : Chain) (rootPub pub qpub : Bytes) : Prop where
  chain_ok : chain.verifyChain C rootPub = .ok ()
  key : chain.publicKeyAt c.epochIdx = .ok (some pub)
  keyID : keyIDOf C pub = c.keyID
  signed : C.EdValid pub c.canonical c.signature
  qkey : chain.quantumPublicKeyAt c.epochIdx = .ok qpub
  quantum : if qpub = [] then c.quantumSignature = []
    else C.DilValid qpub c.canonical c.quantumSignature

variable {C} {u : Unit}

lemma verifyGroup_ok {group : Option Group} :
    c.verifyGroup C group = .ok u ↔ c.GroupSigned C group := by
  cases group with
  | none =>
    simp only [verifyGroup, reduceCtorEq, false_iff]
    rintro ⟨⟨g, d, hg, -⟩, -⟩
    cases hg
  | some g =>
    simp only [verifyGroup, bind_ok, wrapErr_ok, ensure_ok, exists_const]
    constructor
    · rintro ⟨_, -, d, hd, hdig, hq⟩
      exact ⟨⟨g, d, rfl, hd, hdig⟩, hq⟩
    · rintro ⟨⟨g', d, hg, hd, hdig⟩, hq⟩
      cases hg
      obtain ⟨g', hg, hwf, -⟩ := verifyMulti_ok.mp hq
      cases hg
      exact ⟨(), Group.validate_ok.mpr hwf, d, hd, hdig, hq⟩

lemma verifyQuantumCheckpoint_ok {pub msg sig : Bytes} :
    verifyQuantumCheckpoint C pub msg sig = .ok u ↔ C.DilValid pub msg sig := by
  simp only [verifyQuantumCheckpoint, bind_ok, wrapErr_ok, Crypto.decodeQuantum_ok, ensure_ok]
  constructor
  · rintro ⟨_, ⟨hlen, rfl⟩, hdil⟩
    exact ⟨hlen, hdil⟩
  · rintro ⟨hlen, hdil⟩
    exact ⟨_, ⟨hlen, rfl⟩, hdil⟩

lemma verifyQuantumHalf_ok {qpub : Bytes} :
    c.verifyQuantumHalf C qpub = .ok u ↔
      if qpub = [] then c.quantumSignature = []
      else C.DilValid qpub c.canonical c.quantumSignature := by
  unfold verifyQuantumHalf
  by_cases hq : qpub = []
  · rw [if_neg (not_not.mpr hq), if_pos hq, ensure_ok]
  · rw [if_pos hq, if_neg hq]
    simp only [bind_ok, ensure_ok, exists_const, wrapErr_ok, verifyQuantumCheckpoint_ok]
    exact ⟨And.right, fun h => ⟨C.dilVerify_ne_nil h.2, h⟩⟩

lemma verifySingle_ok {chain : Option Chain} {rootPub : Bytes} :
    c.verifySingle C chain rootPub = .ok u ↔
      ∃ ch pub qpub, chain = some ch ∧ c.ChainSigned C ch rootPub pub qpub := by
  cases chain with
  | none => simp [verifySingle]
  | some ch =>
    simp only [verifySingle, bind_ok, wrapErr_ok]
    constructor
    · rintro ⟨_, hch, o, hkey, h⟩
      cases o with
      | none => simp at h
      | some pub =>
        simp only [bind_ok, ensure_ok, exists_const, Crypto.checkEd_ok, verifyQuantumHalf_ok] at h
        obtain ⟨hid, hed, qpub, hqkey, hq⟩ := h
        exact ⟨ch, pub, qpub, rfl, hch, hkey, hid, hed, hqkey, hq⟩
    · rintro ⟨ch', pub, qpub, hch', h⟩
      cases hch'
      refine ⟨(), h.chain_ok, some pub, h.key, ?_⟩
      simp only [bind_ok, ensure_ok, exists_const, Crypto.checkEd_ok, verifyQuantumHalf_ok]
      exact ⟨h.keyID, h.signed, qpub, h.qkey, h.quantum⟩

lemma verify_ok {chain : Option Chain} {rootPub : Bytes} {group : Option Group} :
    c.verify C chain rootPub group = .ok u ↔
      if c.memberSigs ≠ [] then c.GroupSigned C group
      else ∃ ch pub qpub, chain = some ch ∧ c.ChainSigned C ch rootPub pub qpub := by
  unfold verify
  split
  · exact verifyGroup_ok
  · exact verifySingle_ok

end Checkpoint

/-! ## Signing -/

structure Coordinator where
  group : Group
  round : Bytes → Round group

/-- What `Signer.Sign` reads: the forward-secure signer's state, the clock, and the answers of the
key store or, in threshold mode, of the coordinator. -/
structure SignReads where
  origin : Bytes
  pub : Bytes
  epoch : Nat
  now : Int
  threshold : Option (Group × Coordinator)
  fwsSign : Bytes → Res Bytes
  quantumSign : Option (Bytes → Res Bytes)

namespace Checkpoint

def unsigned (C : Crypto) (r : SignReads) (size : Nat) (root head : Bytes)
    (beacon : Option Beacon) : Checkpoint where
  origin := r.origin
  size := size
  rootHash := root
  headHash := head
  timeNanos := r.now
  epochIdx := r.epoch
  keyID := keyIDOf C r.pub
  beacon := beacon

def signThreshold (C : Crypto) (c : Checkpoint) (group : Group) (coord : Coordinator) :
    Res Checkpoint := do
  let digest ← group.digest C
  let c := { c with thresholdGroupDigest := hex digest }
  let res ← coord.group.sign C c.canonical (coord.round c.canonical)
  match res.err with
  | some e => throw (.err (.wrap "checkpoint threshold sign: %w" [] e))
  | none => return { c with memberSigs := res.sigs.map some }

def signSingle (c : Checkpoint) (r : SignReads) : Res Checkpoint := do
  let sig ← r.fwsSign c.canonical
  match r.quantumSign with
  | none => return { c with signature := sig }
  | some quantumSign =>
    let qsig ← wrapErr "checkpoint hybrid sign: %w" [] (quantumSign c.canonical)
    return { c with signature := sig, quantumSignature := qsig }

def sign (C : Crypto) (r : SignReads) (size : Nat) (root head : Bytes) (beacon : Option Beacon) :
    Res Checkpoint :=
  let c := unsigned C r size root head beacon
  match r.threshold with
  | some (group, coord) => c.signThreshold C group coord
  | none => c.signSingle r

def SameLog (a b : Checkpoint) : Prop :=
  a.size = b.size ∧ a.rootHash = b.rootHash ∧ a.headHash = b.headHash

lemma signThreshold_sameLog {C : Crypto} {c' : Checkpoint} {group : Group} {coord : Coordinator}
    (h : c.signThreshold C group coord = .ok c') : c'.SameLog c := by
  simp only [signThreshold, bind_ok] at h
  obtain ⟨digest, -, res, -, h⟩ := h
  cases hres : res.err with
  | some => simp [hres] at h
  | none =>
    simp only [hres, pure_ok] at h
    subst h
    exact ⟨rfl, rfl, rfl⟩

lemma signSingle_sameLog {c' : Checkpoint} {r : SignReads} (h : c.signSingle r = .ok c') :
    c'.SameLog c := by
  simp only [signSingle, bind_ok] at h
  obtain ⟨sig, -, h⟩ := h
  cases hq : r.quantumSign with
  | none =>
    simp only [hq, pure_ok] at h
    subst h
    exact ⟨rfl, rfl, rfl⟩
  | some =>
    simp only [hq, bind_ok, pure_ok] at h
    obtain ⟨qsig, -, h⟩ := h
    subst h
    exact ⟨rfl, rfl, rfl⟩

/-- **A signed checkpoint makes the statement that was asked for**, whatever the signer read. -/
theorem sign_statement {C : Crypto} {r : SignReads} {size : Nat} {root head : Bytes}
    {beacon : Option Beacon} (h : sign C r size root head beacon = .ok c) :
    c.size = size ∧ c.rootHash = root ∧ c.headHash = head := by
  unfold sign at h
  cases ht : r.threshold with
  | none =>
    simp only [ht] at h
    exact signSingle_sameLog h
  | some =>
    simp only [ht] at h
    exact signThreshold_sameLog h

end Checkpoint

/-! ## The stored form -/

def MemberSig.toJson (s : MemberSig) : Json := .obj <|
  fld "member_id" (.ofStr s.memberID) ++
  fld "public_key" (.ofBytes s.publicKey) ++
  fld "signature" (.ofBytes s.signature) ++
  omitEmpty "signed_at" (s.signedAt = 0) (.num s.signedAt) ++
  omitEmpty "quantum_public_key" (s.quantumPublicKey = []) (.ofBytes s.quantumPublicKey) ++
  omitEmpty "quantum_signature" (s.quantumSignature = []) (.ofBytes s.quantumSignature)

def WitnessSig.toJson (w : WitnessSig) : Json := .obj <|
  fld "witness_id" (.ofStr w.witnessID) ++
  fld "public_key" (.ofBytes w.publicKey) ++
  fld "key_id" (.ofStr w.keyID) ++
  fld "signature" (.ofBytes w.signature) ++
  fld "signed_at" (.num w.signedAt) ++
  omitEmpty "quantum_public_key" (w.quantumPublicKey = []) (.ofBytes w.quantumPublicKey) ++
  omitEmpty "quantum_signature" (w.quantumSignature = []) (.ofBytes w.quantumSignature)

def Beacon.toJson (b : Beacon) : Json := .obj <|
  fld "source" (.ofStr b.source) ++
  fld "round" (.num b.round) ++
  fld "value" (.ofBytes b.value) ++
  omitEmpty "signature" (b.signature = []) (.ofBytes b.signature) ++
  omitEmpty "chain_hash" (b.chainHash = []) (.ofBytes b.chainHash)

def ptrJson {α : Type} (toJson : α → Json) : Option α → Json
  | some x => toJson x
  | none => .null

def Checkpoint.marshal (c : Checkpoint) : Json := .obj <|
  fld "origin" (.ofStr c.origin) ++
  fld "size" (.num c.size) ++
  fld "root_hash" (.ofBytes c.rootHash) ++
  fld "head_hash" (.ofBytes c.headHash) ++
  fld "time_ns" (.num c.timeNanos) ++
  fld "epoch_idx" (.num c.epochIdx) ++
  fld "key_id" (.ofStr c.keyID) ++
  omitEmpty "beacon" c.beacon.isNone (ptrJson Beacon.toJson c.beacon) ++
  omitEmpty "signature" (c.signature = []) (.ofBytes c.signature) ++
  omitEmpty "quantum_signature" (c.quantumSignature = []) (.ofBytes c.quantumSignature) ++
  omitEmpty "threshold_group_digest" (c.thresholdGroupDigest = [])
    (.ofStr c.thresholdGroupDigest) ++
  omitEmpty "member_sigs" (c.memberSigs = [])
    (.arr (c.memberSigs.map (ptrJson MemberSig.toJson))) ++
  omitEmpty "witnesses" (c.witnesses = [])
    (.arr (c.witnesses.map (ptrJson WitnessSig.toJson)))

end Stele
