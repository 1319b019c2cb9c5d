import Stele.Checkpoint.Checkpoint
import Stele.Lib.Dict

/-!
# The witness server (`pkg/witness`)

A witness keeps, for every operator it watches, the root it has cosigned at each tree size. The maps
are in memory (`Server`) and each is saved to a file of its own (`Dir`). A save writes a temporary
file and renames it, so it takes effect or not; it may also take effect and report an error
(`Write`).
-/

namespace Stele.Witness

open Lib

structure WatchedOperator where
  origin : Bytes
  rootPublicKey : Bytes
  description : Bytes := []
  deriving DecidableEq, Repr

structure Peer where
  id : Bytes
  url : Bytes
  publicKey : Bytes
  description : Bytes := []
  addedAt : Int := 0
  deriving DecidableEq, Repr

structure ForkEvidence where
  origin : Bytes
  size : Nat
  detectedAt : Int
  ourCheckpoint : Option Checkpoint
  theirCheckpoint : Option Checkpoint
  theirPeerID : Bytes := []
  deriving DecidableEq, Repr

structure SignedSeen where
  witnessID : Bytes
  publicKey : Bytes
  keyID : Bytes
  origin : Bytes
  seen : Dict Nat Bytes
  issuedAt : Int
  signature : Bytes := []

/-- The roots recorded for each origin and tree size, in hexadecimal. -/
abbrev Seen := Dict Bytes (Dict Nat Bytes)

structure Server where
  id : Bytes
  priv : Bytes
  qPriv : Option Bytes
  operators : Dict Bytes WatchedOperator
  seen : Seen
  checkpoints : Dict Bytes (Dict Nat Checkpoint)
  peers : Dict Bytes Peer
  forks : Dict Bytes ForkEvidence
  latest : Dict Bytes (Dict Bytes SignedSeen)

/-! ## Signed statements -/

namespace SignedSeen

def canonical (s : SignedSeen) : Bytes :=
  let sizes := s.seen.keys.mergeSort
  line (lit "stele-seen/v0") ++ line (lit "witness_id: " ++ s.witnessID) ++
    line (lit "origin: " ++ s.origin) ++ line (lit "issued_at: " ++ decInt s.issuedAt) ++
    line (lit "pubkey: " ++ hex s.publicKey) ++ line (lit "entries: " ++ dec sizes.length) ++
    sizes.flatMap fun size => line (dec size ++ lit ":" ++ (s.seen.lookup size).getD [])

def verify (C : Crypto) (s : SignedSeen) : Res Unit := do
  ensure (s.publicKey.length = edPublicKeySize)
    (errorf "signed seen: bad public key length %d" [.nat s.publicKey.length])
  ensure (s.signature.length = edSignatureSize)
    (errorf "signed seen: bad signature length %d" [.nat s.signature.length])
  C.checkEd s.publicKey s.canonical s.signature
    (errorf "signed seen: signature does not verify" [])

def findContradiction (prev next : SignedSeen) : Option Nat :=
  (prev.seen.entries.find? fun e => (next.seen.lookup e.1).any (· ≠ e.2)).map Sigma.fst

end SignedSeen

/-! ## The files -/

/-- The outcome of `atomicWrite`: whether the file was renamed, and the error. -/
structure Write where
  renamed : Bool
  err : Option Err
  renamed_of_ok : err = none → renamed = true

namespace Write

def put {α : Type} (w : Write) (old new : α) : α := if w.renamed then new else old

def result (w : Write) : Res Unit :=
  match w.err with
  | none => .ok ()
  | some e => .error (.err e)

def done : Write := ⟨true, none, fun _ => rfl⟩

lemma result_eq (w : Write) :
    (w.err = none ∧ w.result = .ok ()) ∨ ∃ e, w.err = some e ∧ w.result = .error (.err e) := by
  unfold result
  cases herr : w.err with
  | none => exact .inl ⟨rfl, rfl⟩
  | some e => exact .inr ⟨e, rfl, rfl⟩

lemma put_cases {α : Type} (w : Write) (old new : α) :
    w.put old new = old ∨ w.put old new = new := by
  unfold put
  split
  · exact .inr rfl
  · exact .inl rfl

end Write

/-! What a reader finds of a value that was written to a file: its strings are UTF-8. -/

def rereadMemberSig (s : MemberSig) : MemberSig := { s with memberID := coerce s.memberID }

def rereadWitnessSig (w : WitnessSig) : WitnessSig :=
  { w with witnessID := coerce w.witnessID, keyID := coerce w.keyID }

def rereadCheckpoint (c : Checkpoint) : Checkpoint :=
  { c with
    origin := coerce c.origin
    keyID := coerce c.keyID
    beacon := c.beacon.map fun b => { b with source := coerce b.source }
    thresholdGroupDigest := coerce c.thresholdGroupDigest
    memberSigs := c.memberSigs.map (Option.map rereadMemberSig)
    witnesses := c.witnesses.map (Option.map rereadWitnessSig) }

def WatchedOperator.reread (op : WatchedOperator) : WatchedOperator :=
  { op with origin := coerce op.origin, description := coerce op.description }

def Peer.reread (p : Peer) : Peer :=
  { p with id := coerce p.id, url := coerce p.url, description := coerce p.description }

def ForkEvidence.reread (f : ForkEvidence) : ForkEvidence :=
  { f with
    origin := coerce f.origin
    ourCheckpoint := f.ourCheckpoint.map rereadCheckpoint
    theirCheckpoint := f.theirCheckpoint.map rereadCheckpoint
    theirPeerID := coerce f.theirPeerID }

def SignedSeen.reread (s : SignedSeen) : SignedSeen :=
  { s with
    witnessID := coerce s.witnessID
    keyID := coerce s.keyID
    origin := coerce s.origin
    seen := Dict.mapValues coerce s.seen }

/-- The state files of a witness, as a reader finds them. A missing file reads as an empty one. -/
structure Dir where
  operators : List WatchedOperator := []
  seen : Seen := ∅
  checkpoints : Dict Bytes (Dict Nat Checkpoint) := ∅
  peers : List Peer := []
  forks : Dict Bytes ForkEvidence := ∅
  latest : Dict Bytes (Dict Bytes SignedSeen) := ∅

namespace Dir

def saveOperators (w : Write) (s : Server) (d : Dir) : Dir :=
  { d with operators := w.put d.operators (s.operators.entries.map fun e => e.2.reread) }

def saveSeen (w : Write) (s : Server) (d : Dir) : Dir :=
  { d with seen := w.put d.seen (Dict.crossed id s.seen) }

def saveCheckpoints (w : Write) (s : Server) (d : Dir) : Dir :=
  { d with
    checkpoints :=
      w.put d.checkpoints (Dict.crossed (Dict.mapValues rereadCheckpoint) s.checkpoints) }

def savePeers (w : Write) (s : Server) (d : Dir) : Dir :=
  { d with peers := w.put d.peers (s.peers.entries.map fun e => e.2.reread) }

def saveForks (w : Write) (s : Server) (d : Dir) : Dir :=
  { d with forks := w.put d.forks (Dict.crossed ForkEvidence.reread s.forks) }

def saveAttestations (w : Write) (s : Server) (d : Dir) : Dir :=
  { d with latest := w.put d.latest (Dict.crossed (Dict.crossed SignedSeen.reread) s.latest) }

end Dir

/-- `newServer`. `keys` are the keys that were read or generated, or the first error of reading the
keys and the state files. -/
def newServer (id : Bytes) (keys : Except Err (Bytes × Option Bytes)) (d : Dir) :
    Except Err Server := do
  let (priv, qPriv) ← keys
  return {
    id, priv, qPriv
    operators := d.operators.foldl (fun m op => m.insert op.origin op) ∅
    seen := d.seen
    checkpoints := d.checkpoints
    peers := d.peers.foldl (fun m p => m.insert p.id p) ∅
    forks := d.forks
    latest := d.latest }

/-! ## Configuration -/

/-- What a locked section leaves: the memory, the files and what it returns. -/
abbrev Out (α : Type) := Server × Dir × Res α

namespace Server

def addOperator (op : Option WatchedOperator) (w : Write) (s : Server) (d : Dir) : Out Unit :=
  let invalid := errorf "witness: invalid operator descriptor" []
  match op with
  | none => (s, d, .error invalid)
  | some op =>
    if op.origin = [] ∨ op.rootPublicKey.length ≠ edPublicKeySize then (s, d, .error invalid)
    else
      let s := { s with operators := s.operators.insert op.origin op }
      (s, d.saveOperators w s, w.result)

def addPeer (p : Option Peer) (now : Int) (w : Write) (s : Server) (d : Dir) : Out Unit :=
  let incomplete := errorf "witness: peer requires id + url" []
  match p with
  | none => (s, d, .error incomplete)
  | some p =>
    if p.id = [] ∨ p.url = [] then (s, d, .error incomplete)
    else if p.publicKey.length ≠ edPublicKeySize then
      (s, d, .error (errorf "witness: peer public key wrong length %d" [.nat p.publicKey.length]))
    else
      let p := if p.addedAt = 0 then { p with addedAt := now } else p
      let s := { s with peers := s.peers.insert p.id p }
      (s, d.savePeers w s, w.result)

/-! ## Forks and gossip -/

def recordFork (f : ForkEvidence) (w : Write) (s : Server) (d : Dir) : Server × Dir :=
  let s := { s with forks := s.forks.insert f.origin f }
  (s, d.saveForks w s)

def clearFork (origin : Bytes) (w : Write) (s : Server) (d : Dir) : Server × Dir :=
  let s := { s with forks := s.forks.erase origin }
  (s, d.saveForks w s)

/-- The loop of `CompareWithPeer`: the first size at which the peer has another root, with our root
and theirs. -/
def findFork (s : Server) (origin : Bytes) (peerSeen : Dict Nat Bytes) :
    Option (Nat × Bytes × Bytes) :=
  peerSeen.entries.findSome? fun ⟨size, theirRoot⟩ =>
    match s.seen.get2 origin size with
    | none => none
    | some ourRoot => if ourRoot = theirRoot then none else some (size, ourRoot, theirRoot)

def peerFork (s : Server) (now : Int) (origin : Bytes) (size : Nat) (theirs : Option Checkpoint)
    (peerID : Bytes) : ForkEvidence where
  origin := origin
  size := size
  detectedAt := now
  ourCheckpoint := s.checkpoints.get2 origin size
  theirCheckpoint := theirs
  theirPeerID := peerID

def acceptsStatement (C : Crypto) (peer : Peer) (stmt : SignedSeen) : Res Bool :=
  match stmt.verify C with
  | .error (.panic w) => .error (.panic w)
  | .error (.err _) => .ok false
  | .ok () => .ok (decide (stmt.publicKey = peer.publicKey ∧ stmt.witnessID = peer.id))

/-- `recordAttestationLocked`: a peer that contradicts its last statement is flagged as a fork of
the origin. `wf` and `wa` are the saves of the forks and of the statements. -/
def recordAttestation (peerID : Bytes) (ss : SignedSeen) (now : Int) (wf wa : Write) (s : Server)
    (d : Dir) : Out Unit :=
  let (s, d) :=
    match (s.latest.get2 peerID ss.origin).bind (·.findContradiction ss) with
    | none => (s, d)
    | some size =>
      s.recordFork { origin := ss.origin, size, detectedAt := now, ourCheckpoint := none,
                     theirCheckpoint := none, theirPeerID := peerID } wf d
  let s := { s with latest := s.latest.put2 peerID ss.origin ss }
  (s, d.saveAttestations wa s, wa.result)

def issueSignedSeen (C : Crypto) (now : Int) (origin : Bytes) (s : Server) : SignedSeen :=
  let pub := C.edPublic s.priv
  let ss : SignedSeen := {
    witnessID := s.id
    publicKey := pub
    keyID := keyIDOf C pub
    origin := origin
    seen := (s.seen.lookup origin).getD ∅
    issuedAt := now }
  { ss with signature := C.edSign s.priv ss.canonical }

/-! ## Cosigning -/

def checkCosign (C : Crypto) (s : Server) (c : Checkpoint) (chain : Option Chain)
    (group : Option Group) : Res Unit := do
  ensure ((s.forks.lookup c.origin).isNone = true)
    (errorf "witness: refusing to cosign — origin %q is flagged as FORKED (see /witness/v0/forks)"
      [.bytes c.origin])
  match s.operators.lookup c.origin with
  | none => throw (errorf "witness: operator %q is not on the watch list" [.bytes c.origin])
  | some op =>
    wrapErr "witness: operator signature did not verify: %w" []
      (c.verify C chain op.rootPublicKey group)

def conflict (s : Server) (c : Checkpoint) : Option Bytes :=
  (s.seen.get2 c.origin c.size).filter (· ≠ hex c.rootHash)

def note (s : Server) (c : Checkpoint) : Server :=
  { s with
    seen := s.seen.put2 c.origin c.size (hex c.rootHash)
    checkpoints := s.checkpoints.put2 c.origin c.size c }

def beginCosign (C : Crypto) (now : Int) (w : Write) (c : Option Checkpoint)
    (chain : Option Chain) (group : Option Group) (s : Server) (d : Dir) : Out Checkpoint :=
  match c with
  | none => (s, d, .error (.panic "invalid memory address or nil pointer dereference"))
  | some c =>
    match s.checkCosign C c chain group with
    | .error e => (s, d, .error e)
    | .ok () =>
      match s.conflict c with
      | some existing =>
        let (s, d) := s.recordFork
          { origin := c.origin, size := c.size, detectedAt := now,
            ourCheckpoint := s.checkpoints.get2 c.origin c.size, theirCheckpoint := some c } w d
        (s, d, .error (errorf
          "witness: FORK detected for %s at size %d (existing root %s, new %s)"
          [.bytes c.origin, .nat c.size, .bytes existing, .bytes (hex c.rootHash)]))
      | none => (s.note c, d, .ok c)

def witnessSig (C : Crypto) (s : Server) (now : Int) (c : Checkpoint) : WitnessSig :=
  let msg := c.canonicalForWitness
  let pub := C.edPublic s.priv
  let ws : WitnessSig := {
    witnessID := s.id
    publicKey := pub
    keyID := keyIDOf C pub
    signature := C.edSign s.priv msg
    signedAt := now }
  match s.qPriv with
  | none => ws
  | some q => { ws with quantumPublicKey := C.dilPublic q, quantumSignature := C.dilSign q msg }

structure CosignReads where
  now : Int
  forks : Write
  seen : Write
  checkpoints : Write

def CosignReads.clean (now : Int) : CosignReads := ⟨now, .done, .done, .done⟩

def cosign (C : Crypto) (r : CosignReads) (c : Option Checkpoint) (chain : Option Chain)
    (group : Option Group) (s : Server) (d : Dir) : Out WitnessSig :=
  match s.beginCosign C r.now r.forks c chain group d with
  | (s, d, .error e) => (s, d, .error e)
  | (s, d, .ok c) =>
    let d := d.saveSeen r.seen s
    match r.seen.result with
    | .error e => (s, d, .error e)
    | .ok () =>
      let d := d.saveCheckpoints r.checkpoints s
      (s, d, r.checkpoints.result.map fun _ => s.witnessSig C r.now c)

section
variable {C : Crypto} {s : Server} {c : Checkpoint} {chain : Option Chain} {group : Option Group}

lemma checkCosign_ok {u : Unit} : s.checkCosign C c chain group = .ok u ↔
    s.forks.lookup c.origin = none ∧ ∃ op, s.operators.lookup c.origin = some op ∧
      c.verify C chain op.rootPublicKey group = .ok () := by
  simp only [checkCosign, bind_ok, ensure_ok, exists_const, Option.isNone_iff_eq_none]
  cases s.operators.lookup c.origin with
  | none => simp
  | some => simp

lemma conflict_eq_none : s.conflict c = none ↔
    ∀ root, s.seen.get2 c.origin c.size = some root → root = hex c.rootHash := by
  simp [conflict, Option.filter_eq_none_iff]

lemma beginCosign_cases (now : Int) (w : Write) (o : Option Checkpoint) (chain : Option Chain)
    (group : Option Group) (d : Dir) :
    (∃ c, o = some c ∧ s.checkCosign C c chain group = .ok () ∧ s.conflict c = none ∧
      s.beginCosign C now w o chain group d = (s.note c, d, .ok c)) ∨
    ∃ s' d' e, s.beginCosign C now w o chain group d = (s', d', .error e) ∧
      s'.seen = s.seen ∧ d'.seen = d.seen := by
  cases o with
  | none => exact .inr ⟨_, _, _, rfl, rfl, rfl⟩
  | some c =>
    cases hcheck : s.checkCosign C c chain group with
    | error e =>
      refine .inr ⟨s, d, e, ?_, rfl, rfl⟩
      simp only [beginCosign, hcheck]
    | ok =>
      cases hconf : s.conflict c with
      | some =>
        simp only [beginCosign, hcheck, hconf]
        exact .inr ⟨_, _, _, rfl, rfl, rfl⟩
      | none =>
        refine .inl ⟨c, rfl, hcheck, hconf, ?_⟩
        simp only [beginCosign, hcheck, hconf]

lemma cosign_ok {r : CosignReads} {o : Option Checkpoint} {d : Dir} {sig : WitnessSig} :
    (s.cosign C r o chain group d).2.2 = .ok sig ↔
      ∃ c, o = some c ∧ s.checkCosign C c chain group = .ok () ∧ s.conflict c = none ∧
        r.seen.result = .ok () ∧ r.checkpoints.result = .ok () ∧
        (s.note c).witnessSig C r.now c = sig := by
  rcases s.beginCosign_cases (C := C) r.now r.forks o chain group d with
     ⟨c, rfl, hcheck, hconf, hbegin⟩ | ⟨s', d', e, hbegin, -⟩
  · simp only [cosign, hbegin]
    cases r.seen.result with
    | error => simp
    | ok _ =>
      cases r.checkpoints.result with
      | error => simp [Except.map]
      | ok => simp [Except.map, hcheck, hconf]
  · simp only [cosign, hbegin, reduceCtorEq, false_iff]
    rintro ⟨c, rfl, hcheck, hconf, -⟩
    simp [beginCosign, hcheck, hconf] at hbegin

end

end Server

/-! ## The endpoint -/

structure CosignRequest where
  checkpoint : Option Checkpoint
  chain : Option Chain
  group : Option Group
  deriving DecidableEq, Repr

inductive Reply
  | error (status : Nat) (e : Err)
  | sig (status : Nat) (sig : WitnessSig)
  deriving DecidableEq, Repr

/-- The handler of `/witness/v0/cosign`: `body` is the decoded request. A panic of `Cosign` ends the
request without a response. -/
def handleCosign (C : Crypto) (r : Server.CosignReads) (post : Bool)
    (body : Except Err CosignRequest) (s : Server) (d : Dir) : Out Reply :=
  if post = false then (s, d, .ok (.error 405 (.errorf "POST required" [])))
  else
    match body with
    | .error e => (s, d, .ok (.error 400 e))
    | .ok req =>
      if req.checkpoint = none ∨ req.chain = none then
        (s, d, .ok (.error 400 (.errorf "checkpoint and chain required" [])))
      else
        match s.cosign C r req.checkpoint req.chain req.group d with
        | (s, d, .error (.panic w)) => (s, d, .error (.panic w))
        | (s, d, .error (.err e)) => (s, d, .ok (.error 400 e))
        | (s, d, .ok sig) => (s, d, .ok (.sig 200 sig))

lemma handleCosign_sig {C : Crypto} {r : Server.CosignReads} {post : Bool} {req : CosignRequest}
    {s : Server} {d : Dir} {status : Nat} {sig : WitnessSig} :
    (handleCosign C r post (.ok req) s d).2.2 = .ok (.sig status sig) ↔
      post = true ∧ status = 200 ∧ req.checkpoint ≠ none ∧ req.chain ≠ none ∧
        (s.cosign C r req.checkpoint req.chain req.group d).2.2 = .ok sig := by
  unfold handleCosign
  cases post with
  | false => simp
  | true =>
    by_cases hreq : req.checkpoint = none ∨ req.chain = none
    · simp only [hreq, Bool.true_eq_false, ↓reduceIte, Except.ok.injEq, reduceCtorEq, false_iff]
      tauto
    · obtain ⟨hc, hch⟩ := not_or.mp hreq
      simp only [Bool.true_eq_false, ↓reduceIte, hreq]
      rcases hcs : s.cosign C r req.checkpoint req.chain req.group d with ⟨s', d', (e | w) | sig'⟩
      · simp
      · simp
      · simp only [Except.ok.injEq, Reply.sig.injEq, true_and]
        constructor
        · rintro ⟨rfl, rfl⟩
          exact ⟨rfl, hc, hch, rfl⟩
        · rintro ⟨rfl, -, -, rfl⟩
          exact ⟨rfl, rfl⟩

end Stele.Witness
