import Stele.Cmd.Client
import Stele.Keys.Signer

/-!
# The audit report (`pkg/audit`)

`Run` makes its own requests and reports what it finds. A failed check is a finding and makes the
status FAIL; it is not an error.
-/

namespace Stele.Audit

open Lib

open Cmd

inductive Status
  | pass
  | fail
  | warn
  deriving DecidableEq, Repr

structure Config where
  operatorURL : Bytes
  rootPublicKey : Option Bytes := none
  trustAnchorSource : Bytes := []
  sampleN : Int := 0

structure TrustAnchorSummary where
  source : Bytes := []
  rootPublicKeyHex : Bytes := []
  rootKeyID : Bytes := []
  matchedOnServer : Bool := false
  notes : String := ""

structure EpochSummary where
  epoch : Nat
  startedAt : Int
  keyID : Bytes
  hybrid : Bool
  threshold : Bool

structure ChainSummary where
  origin : Bytes := []
  activeEpoch : Nat := 0
  epochs : Nat := 0
  verified : Bool := false
  verifyError : Option Err := none
  epochSummary : List EpochSummary := []

structure CheckpointSummary where
  size : Nat := 0
  rootHashHex : Bytes := []
  signedAt : Int := 0
  epoch : Nat := 0
  verified : Bool := false
  verifyError : Option Err := none
  beaconBound : Bool := false
  beaconSource : Bytes := []
  witnessCount : Nat := 0
  witnesses : List (Bytes × Bytes) := []
  thresholdMode : Bool := false
  thresholdActual : Nat := 0
  hybridSigned : Bool := false

structure InclusionSample where
  index : Nat
  verified : Bool := false
  producer : Bytes := []
  error : Option Err := none
  deriving DecidableEq

structure Report where
  origin : Bytes := []
  size : Nat := 0
  trustAnchor : TrustAnchorSummary := {}
  chain : ChainSummary := {}
  latestCheckpoint : CheckpointSummary := {}
  samples : List InclusionSample := []
  status : Status := .pass
  findings : List Err := []

def pickStatus (current candidate : Status) : Status :=
  if current = .fail ∨ candidate = .fail then .fail
  else if current = .warn ∨ candidate = .warn then .warn
  else .pass

def Report.fail (r : Report) (finding : Err) : Report :=
  { r with status := .fail, findings := r.findings ++ [finding] }

def Report.warn (r : Report) (finding : Err) : Report :=
  { r with status := pickStatus r.status .warn, findings := r.findings ++ [finding] }

section
variable (C : Crypto) (P : ProofImpl Bytes)

def checkTrustAnchor (cfg : Config) (serverRoot : Bytes) : TrustAnchorSummary :=
  let out : TrustAnchorSummary := {
    source := cfg.trustAnchorSource
    rootPublicKeyHex := hex serverRoot
    rootKeyID := keyIDOf C serverRoot }
  match cfg.rootPublicKey with
  | none =>
    { out with notes := "no pre-shared trust anchor supplied; server-reported root is unchecked" }
  | some root =>
    if root = serverRoot then { out with matchedOnServer := true }
    else
      { out with
        notes := "mismatch — operator-reported root does NOT match the trust anchor" }

def anchorStep (cfg : Config) (pk : PubKeyResponse) (r : Report) : Report :=
  let r := { r with trustAnchor := checkTrustAnchor C cfg pk.rootPublicKey }
  let r :=
    if ¬ r.trustAnchor.matchedOnServer ∧ cfg.trustAnchorSource ≠ [] then
      r.fail (.errorf
        "trust anchor mismatch: server's claimed root does not match the caller-supplied root anchor"
        [])
    else r
  if cfg.trustAnchorSource = [] then
    r.warn (.errorf
      "trust-anchor source unspecified — running in 'trust whatever server reports' mode (NOT compliance-grade)"
      [])
  else r

def epochSummary (cert : RotationCert) : EpochSummary where
  epoch := cert.epoch
  startedAt := cert.startedAt
  keyID := keyIDOf C cert.publicKey
  hybrid := decide (cert.quantumPublicKey ≠ [])
  threshold := decide (cert.memberSigs ≠ [])

def summarizeChain (chain : Option Chain) (root : Bytes) : Res ChainSummary :=
  match chain with
  | none => .ok { verifyError := some (.errorf "chain not returned by server" []) }
  | some ch => do
    let out : ChainSummary := {
      origin := ch.origin
      activeEpoch := ← ch.activeEpoch
      epochs := ch.certs.length }
    match ch.verifyChain C root with
    | .error (.panic w) => .error (.panic w)
    | .error (.err e) => .ok { out with verifyError := some e }
    | .ok () =>
      let certs ← ch.certs.mapM deref
      .ok { out with verified := true, epochSummary := certs.map (epochSummary C) }

def chainStep (a : Answers) (pk : PubKeyResponse) (r : Report) : Res Report :=
  match a.keychain with
  | .error e =>
    let r := { r with chain := { verifyError := some e } }
    .ok (r.fail (.wrap "failed to fetch /keychain: %s" [] e))
  | .ok chain => do
    let summary ← summarizeChain C chain pk.rootPublicKey
    let r := { r with chain := summary }
    if summary.verified = true then return r
    else return r.fail (.errorf "chain verification failed: %s" [])

def summarizeCheckpoint (c : Checkpoint) (v : Verifier) : Res CheckpointSummary := do
  let witnesses ← c.witnesses.mapM deref
  let out : CheckpointSummary := {
    size := c.size
    rootHashHex := hex c.rootHash
    signedAt := c.timeNanos
    epoch := c.epochIdx
    witnessCount := c.witnesses.length
    thresholdMode := decide (c.thresholdGroupDigest ≠ [])
    hybridSigned := decide (c.quantumSignature ≠ [])
    beaconBound := c.beacon.isSome
    beaconSource := (c.beacon.map Beacon.source).getD []
    thresholdActual := if c.thresholdGroupDigest ≠ [] then c.memberSigs.length else 0
    witnesses := witnesses.map fun w => (w.witnessID, keyIDOf C w.publicKey) }
  match v.checkpoint C c with
  | .error (.panic w) => .error (.panic w)
  | .error (.err e) => .ok { out with verifyError := some e }
  | .ok () => .ok { out with verified := true }

/-- The fourth step. A failed request for the chain has left none. -/
def checkpointStep (a : Answers) (pk : PubKeyResponse) (r : Report) : Res Report :=
  match a.checkpoint with
  | .error e =>
    let r := { r with latestCheckpoint := { verifyError := some e } }
    .ok (r.fail (.wrap "failed to fetch /checkpoint: %s" [] e))
  | .ok none => .ok (r.warn (.errorf "operator has no checkpoint yet" []))
  | .ok (some c) => do
    let v : Verifier := {
      origin := pk.origin
      rootPublicKey := pk.rootPublicKey
      chain := (a.keychain.toOption).join }
    let summary ← summarizeCheckpoint C c v
    let r := { r with latestCheckpoint := summary, size := c.size }
    if summary.verified = true then return r
    else return r.fail (.errorf "checkpoint signature verification failed: %s" [])

def sizeStep (a : Answers) (r : Report) : Report :=
  match a.size with
  | .error _ => r
  | .ok size =>
    if 0 < r.latestCheckpoint.size ∧ size < r.latestCheckpoint.size then
      r.fail (.errorf "size regression: /size reports %d but latest checkpoint is at size %d"
        [.nat size, .nat r.latestCheckpoint.size])
    else r

def sampleOne (a : Answers) (size : Nat) (root : Bytes) (i : Nat) : InclusionSample :=
  match a.sampleEntry i with
  | .error e => { index := i, error := some (.wrap "fetch entry: %s" [] e) }
  | .ok entry =>
    match a.inclusion i (some size) with
    | .error e =>
      { index := i, producer := entry.producerID, error := some (.wrap "fetch proof: %s" [] e) }
    | .ok prf =>
      match P.verifyInclusion i size entry.leafHash prf.proof root with
      | .error e => { index := i, producer := entry.producerID, error := some e }
      | .ok () => { index := i, producer := entry.producerID, verified := true }

def sampleLoop (a : Answers) (size step : Nat) (root : Bytes) : Nat → Nat → List InclusionSample
  | 0, _ => []
  | n + 1, i =>
    if i < size then sampleOne P a size root i :: sampleLoop a size step root n (i + step) else []

def sampleCount (sampleN : Int) (size : Nat) : Int :=
  let int := Int.bmod size (2 ^ 64)
  if int < sampleN then int else sampleN

def sampleInclusion (a : Answers) (cfg : Config) (size : Nat) (root : Bytes) :
    Res (List InclusionSample) :=
  let n := sampleCount cfg.sampleN size
  if n < 0 then .error (.panic "makeslice: cap out of range")
  else if n = 0 then .error (.panic "integer divide by zero")
  else
    let step := size / n.toNat
    .ok (sampleLoop P a size (if step = 0 then 1 else step) root n.toNat 0)

def reportSample (r : Report) (s : InclusionSample) : Report :=
  if s.verified = true then r
  else r.fail (.errorf "inclusion proof failed for entry %d: %s" [.nat s.index])

def samplesStep (a : Answers) (cfg : Config) (r : Report) : Res Report :=
  if 0 < cfg.sampleN ∧ 0 < r.latestCheckpoint.size then do
    let c ← deref a.checkpoint.toOption.join
    let samples ← sampleInclusion P a cfg r.latestCheckpoint.size c.rootHash
    return samples.foldl reportSample { r with samples := samples }
  else .ok r

def run (cfg : Config) (a : Answers) : Res Report :=
  if cfg.operatorURL = [] then .error (errorf "audit: OperatorURL required" [])
  else
    match a.pubkey with
    | .error e => .ok (Report.fail {} (.wrap "failed to fetch /pubkey: %s" [] e))
    | .ok pk => do
      let r := anchorStep C cfg pk { origin := pk.origin }
      let r ← chainStep C a pk r
      let r ← checkpointStep C a pk r
      samplesStep P a cfg (sizeStep a r)

end

end Stele.Audit
