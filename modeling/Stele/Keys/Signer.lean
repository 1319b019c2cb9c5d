import Stele.Keys.Token

/-!
# The forward-secure signer, call by call (`pkg/fwdsec/fwdsec.go`)

`Signer` with its key store and its directory. Each method is a program over the calls of `Op`, so
that it may fail at any call or be cut off before any call.
-/

namespace Stele

open Lib Prog

namespace Chain

def activePublicKey (ch : Chain) : Res Bytes :=
  match ch.certs.getLast? with
  | none => .ok []
  | some none => .error nilCert
  | some (some cert) => .ok cert.publicKey

def activeEpoch (ch : Chain) : Res Nat :=
  match ch.certs.getLast? with
  | none => .ok 0
  | some none => .error nilCert
  | some (some cert) => .ok cert.epoch

def rootPublicKey (ch : Chain) : Res Bytes :=
  match ch.certs with
  | [] => .ok []
  | none :: _ => .error nilCert
  | some cert :: _ => .ok cert.publicKey

def extend (ch : Chain) (cert : RotationCert) (locator : Bytes) : Chain :=
  { ch with certs := ch.certs ++ [some cert], activeLocator := locator }

end Chain

namespace Keys

/-- `fwdsec.Signer`. A threshold rotator's group may be nil. -/
structure Signer where
  origin : Bytes
  dir : Bytes
  chain : Chain
  active : Option LiveKey
  store : KeyStore
  threshRotator : Option (Option Group) := none

def chainPath (dir : Bytes) : Bytes := join dir (lit "chain.json")

def tmpPath (dir : Bytes) : Bytes := chainPath dir ++ lit ".tmp"

def writeChain (dir : Bytes) (chain : Chain) : Calls (Option Err) := do
  match ← writeFile (tmpPath dir) (.doc chain.toJson) with
  | some e => return some e
  | none => sys (.rename (tmpPath dir) (chainPath dir))

def parseChain : Except Err Content → Res Chain
  | .error e => .error (.err e)
  | .ok (.doc j) => Chain.ofJson j
  | .ok _ => .error (errorf "invalid character" [])

section
variable (C : Crypto)

/-- Sign a certificate, with the quantum half when `quantum` asks for it. `what` starts the error
texts. -/
def signCert (what : String) (key : LiveKey) (quantum : Prop) [Decidable quantum]
    (cert : RotationCert) : Calls (Res RotationCert) := do
  match ← key.sign C cert.canonical with
  | .error e => return .error (e.wrap (what ++ " (classical): %w") [])
  | .ok sig =>
    let cert' := { cert with signature := sig }
    if quantum then
      match key.quantumSign C cert.canonical with
      | .error e => return .error (e.wrap (what ++ " (quantum): %w") [])
      | .ok qsig => return .ok { cert' with quantumSignature := qsig }
    else return .ok cert'

def discard {α : Type} (key : LiveKey) (e : Fault) : Calls (Res α) := do
  let _ ← key.destroy
  return .error e

/-! ## Opening a signer -/

def genesisCert (now : Int) (key : LiveKey) : RotationCert where
  epoch := 0
  publicKey := key.pub
  startedAt := now
  signedBy := key.pub
  quantumPublicKey := key.quantumPublic.getD []
  quantumSignedBy := key.quantumPublic.getD []

def genesisWith (origin dir : Bytes) (store : KeyStore) (active : LiveKey) :
    Calls (Res Signer) := do
  let now ← sys .unixNano
  match ← signCert C "fwdsec: self-sign genesis" active (active.quantumPublic.isSome = true)
      (genesisCert now active) with
  | .error e => discard active e
  | .ok cert =>
    let chain : Chain := ⟨origin, [some cert], active.locator⟩
    match ← writeChain dir chain with
    | some e => return .error (.err e)
    | none => return .ok ⟨origin, dir, chain, some active, store, none⟩

def createGenesis (origin dir : Bytes) (store : KeyStore) : Calls (Res Signer) := do
  match ← store.generate C with
  | .error e => return .error (e.wrap "fwdsec: generate genesis key: %w" [])
  | .ok active => genesisWith C origin dir store active

def checkChain (origin : Bytes) (chain : Chain) : Res Unit := do
  ensure (chain.certs ≠ []) (errorf "fwdsec: empty chain" [])
  ensure (chain.origin = [] ∨ chain.origin = origin)
    (errorf "fwdsec: origin mismatch (chain=%q, expected=%q)" [.bytes chain.origin, .bytes origin])
  ensure (chain.activeLocator ≠ [])
    (errorf "fwdsec: chain missing active_locator (corrupt or pre-v1.1)" [])

def loadWith (origin dir : Bytes) (store : KeyStore) (chain : Chain) : Calls (Res Signer) := do
  match checkChain origin chain with
  | .error e => return .error e
  | .ok () =>
    match ← store.load C chain.activeLocator with
    | .error e => return .error (e.wrap "fwdsec: load active key: %w" [])
    | .ok active =>
      match chain.activePublicKey with
      | .error e => return .error e
      | .ok pub =>
        if active.pub = pub then return .ok ⟨origin, dir, chain, some active, store, none⟩
        else
          discard active
            (errorf "fwdsec: store returned key with public key that does not match chain" [])

def loadActive (origin dir : Bytes) (store : KeyStore) : Calls (Res Signer) := do
  let content ← sys (.readFile (chainPath dir))
  match parseChain content with
  | .error e => return .error e
  | .ok chain => loadWith C origin dir store chain

def newSignerWithStore (origin dir : Bytes) (store : KeyStore) : Calls (Res Signer) := do
  match ← sys (.mkdirAll dir) with
  | some e => return .error (.err e)
  | none =>
    match ← sys (.stat (chainPath dir)) with
    | .ok none => createGenesis C origin dir store
    | _ => loadActive C origin dir store

def Signer.useThresholdRotation (s : Signer) (rotator : Option (Option Group)) : Signer :=
  { s with threshRotator := rotator }

/-! ## Signing and rotating -/

namespace Signer

variable (s : Signer)

def sign (msg : Bytes) : Calls (Res (Nat × Bytes)) :=
  match s.active with
  | none => return .error (errorf "fwdsec: no active key" [])
  | some active => do
    match ← active.sign C msg with
    | .error e => return .error e
    | .ok out => return do
        let epoch ← s.chain.activeEpoch
        return (epoch, out)

def hybrid : Bool := (s.active.bind LiveKey.quantumPublic).isSome

def quantumSign (msg : Bytes) : Res Bytes :=
  match s.active with
  | none => .error (errorf "fwdsec: no active key" [])
  | some active => active.quantumSign C msg

def reads (pub : Bytes) (epoch : Nat) (now : Int) (sig : Res (Nat × Bytes)) : SignReads where
  origin := s.origin
  pub := pub
  epoch := epoch
  now := now
  threshold := none
  fwsSign := fun _ => do return (← sig).2
  quantumSign := if s.hybrid then some (s.quantumSign C) else none

def signCheckpoint (size : Nat) (root head : Bytes) (beacon : Option Beacon) :
    Calls (Res Checkpoint) :=
  match s.chain.activePublicKey, s.chain.activeEpoch with
  | .ok pub, .ok epoch => do
    let now ← sys .unixNano
    let unsigned := Checkpoint.unsigned C (s.reads C pub epoch now (.ok (0, []))) size root head
      beacon
    let sig ← s.sign C unsigned.canonical
    return Checkpoint.sign C (s.reads C pub epoch now sig) size root head beacon
  | .error e, _ => return .error e
  | _, .error e => return .error e

def rotationCert (now : Int) (prevCert : RotationCert) (newActive : LiveKey) : RotationCert where
  epoch := prevCert.epoch + 1
  publicKey := newActive.pub
  startedAt := now
  signedBy := prevCert.publicKey
  quantumPublicKey := newActive.quantumPublic.getD []
  quantumSignedBy := if newActive.quantumPublic.isSome then prevCert.quantumPublicKey else []

def cosign (newActive : LiveKey) (cert : RotationCert) : Calls (Res RotationCert) := do
  match ← sys (.cosign cert.canonical (lit "rotation epoch " ++ dec cert.epoch)) with
  | .error e => discard newActive (.err (.wrap "fwdsec: threshold-sign rotation cert: %w" [] e))
  | .ok sigs => return .ok { cert with memberSigs := sigs }

def certifyGroup (group : Group) (newActive : LiveKey) (cert : RotationCert) :
    Calls (Res RotationCert) :=
  match group.digest C with
  | .error e => return .error e
  | .ok digest => cosign newActive { cert with thresholdGroupDigest := hex digest }

def certifySingle (prevActive : LiveKey) (prevCert : RotationCert) (newActive : LiveKey)
    (cert : RotationCert) : Calls (Res RotationCert) := do
  match ← signCert C "fwdsec: sign rotation cert" prevActive
      (cert.quantumPublicKey ≠ [] ∧ prevCert.quantumPublicKey ≠ []) cert with
  | .error e => discard newActive e
  | .ok cert => return .ok cert

def certify (prevActive : LiveKey) (prevCert : RotationCert) (newActive : LiveKey) :
    Calls (Res RotationCert) := do
  let now ← sys .unixNano
  match s.threshRotator with
  | some none => discard newActive (errorf "fwdsec: threshold rotator returned nil group" [])
  | some (some group) => certifyGroup C group newActive (rotationCert now prevCert newActive)
  | none => certifySingle C prevActive prevCert newActive (rotationCert now prevCert newActive)

def publish (prevActive newActive : LiveKey) (cert : RotationCert) :
    Calls (Signer × Res RotationCert) := do
  let chain := s.chain.extend cert newActive.locator
  match ← writeChain s.dir chain with
  | some e =>
    let _ ← newActive.destroy
    return ({ s with chain := { s.chain with activeLocator := prevActive.locator } },
      .error (.err e))
  | none =>
    match ← prevActive.destroy with
    | (prevActive, some e) =>
      return ({ s with chain := chain, active := some prevActive },
        .error (.err (.wrap "fwdsec: destroy previous key: %w" [] e)))
    | (_, none) => return ({ s with chain := chain, active := some newActive }, .ok cert)

def rotate : Calls (Signer × Res RotationCert) :=
  match s.active, s.chain.certs.getLast? with
  | none, _ => return (s, .error (errorf "fwdsec: no active key" []))
  | _, none => return (s, .error (.panic "index out of range [-1]"))
  | some prevActive, some prevCert => do
    match ← s.store.generate C with
    | .error e => return (s, .error (e.wrap "fwdsec: generate new epoch key: %w" []))
    | .ok newActive =>
      match prevCert with
      | none => return (s, .error Chain.nilCert)
      | some prevCert =>
        match ← s.certify C prevActive prevCert newActive with
        | .error e => return (s, .error e)
        | .ok cert => s.publish prevActive newActive cert

end Signer

end

end Keys

end Stele
