import Stele.Verify.History

/-!
# The verifying commands (`cmd/stele`)

A command asks the server and checks what it gets. `Answers` are the decoded answers of a server of
any behaviour.
-/

namespace Stele.Cmd

open Lib

structure PubKeyResponse where
  origin : Bytes
  rootPublicKey : Bytes

structure InclusionProofResponse where
  treeSize : Nat
  proof : List Bytes
  rootHash : Bytes

structure SampleEntry where
  leafHash : Bytes
  producerID : Bytes

/-- What a server answers to each request, decoded; an error is one of the connection, a status
other than 2xx, or an answer that does not decode. -/
structure Answers where
  pubkey : Except Err PubKeyResponse
  keychain : Except Err (Option Chain)
  thresholdGroup : Except Err (Option Group)
  checkpoint : Except Err (Option Checkpoint)
  size : Except Err Nat
  entries : Nat → Nat → Except Err (List (Option Entry))
  entry : Nat → Except Err (Option Entry)
  sampleEntry : Nat → Except Err SampleEntry
  inclusion : Nat → Option Nat → Except Err InclusionProofResponse

def get {α : Type} (answer : Except Err α) : Res α := answer.mapError .err

def deref {α : Type} : Option α → Res α
  | some a => .ok a
  | none => .error (.panic "invalid memory address or nil pointer dereference")

@[simp] lemma get_ok {α : Type} {answer : Except Err α} {a : α} :
    get answer = .ok a ↔ answer = .ok a := mapError_ok

@[simp] lemma deref_ok {α : Type} {o : Option α} {a : α} : deref o = .ok a ↔ o = some a := by
  cases o <;> simp [deref]

section
variable (C : Crypto) (P : ProofImpl Bytes)

/-- The group that `buildVerifier` uses. A failed request is ignored. -/
def thresholdGroup (a : Answers) : Res (Option Group) :=
  match a.thresholdGroup with
  | .ok (some g) => do
    wrapErr "operator returned invalid threshold group: %w" [] (Group.validate (some g))
    return some g
  | _ => .ok none

def buildVerifier (a : Answers) : Res Verifier := do
  let pk ← get a.pubkey
  let chain ← get a.keychain
  let ch ← deref chain
  wrapErr "rotation chain from server is invalid: %w" [] (ch.verifyChain C pk.rootPublicKey)
  let group ← thresholdGroup a
  return {
    origin := pk.origin
    rootPublicKey := pk.rootPublicKey
    chain := chain
    thresholdGroup := group }

def cmdVerifyInclusion (a : Answers) (idx : Nat) : Res Unit := do
  let verifier ← buildVerifier C a
  let c ← deref (← get a.checkpoint)
  wrapErr "checkpoint signature: %w" [] (verifier.checkpoint C c)
  let prf ← get (a.inclusion idx none)
  let entry ← get (a.entry idx)
  wrapErr "inclusion: %w" [] (verifier.inclusion C P entry prf.treeSize prf.proof prf.rootHash)
  ensure (prf.rootHash = c.rootHash)
    (errorf "proof root does not match checkpoint root (server inconsistency)" [])

end

variable {C : Crypto} {P : ProofImpl Bytes}

lemma buildVerifier_ok {a : Answers} {v : Verifier} : buildVerifier C a = .ok v ↔
    ∃ pk ch group, a.pubkey = .ok pk ∧ a.keychain = .ok (some ch) ∧
      ch.verifyChain C pk.rootPublicKey = .ok () ∧ thresholdGroup a = .ok group ∧
      v = { origin := pk.origin, rootPublicKey := pk.rootPublicKey, chain := some ch,
            thresholdGroup := group } := by
  simp only [buildVerifier, bind_ok, get_ok, deref_ok, wrapErr_ok, pure_ok]
  constructor
  · rintro ⟨pk, hpk, chain, hchain, ch, rfl, _, hverify, group, hgroup, rfl⟩
    exact ⟨pk, ch, group, hpk, hchain, hverify, hgroup, rfl⟩
  · rintro ⟨pk, ch, group, hpk, hchain, hverify, hgroup, rfl⟩
    exact ⟨pk, hpk, some ch, hchain, ch, rfl, (), hverify, group, hgroup, rfl⟩

lemma inclusion_ok {v : Verifier} {entry : Option Entry} {treeSize : Nat} {proof : List Bytes}
    {root : Bytes} {u : Unit} : v.inclusion C P entry treeSize proof root = .ok u ↔
      ∃ e, entry = some e ∧ e.Sound C ∧ e.index < treeSize ∧
        P.verifyInclusion e.index treeSize e.leafHash proof root = .ok () := by
  cases entry with
  | none => simp [Verifier.inclusion]
  | some => simp [Verifier.inclusion, Entry.verify_ok]

structure Checked (C : Crypto) (P : ProofImpl Bytes) (a : Answers) (idx : Nat) (v : Verifier)
    (c : Checkpoint) (prf : InclusionProofResponse) (e : Entry) : Prop where
  verifier : buildVerifier C a = .ok v
  checkpoint : a.checkpoint = .ok (some c)
  accepted : v.checkpoint C c = .ok ()
  proof : a.inclusion idx none = .ok prf
  entry : a.entry idx = .ok (some e)
  sound : e.Sound C
  index : e.index < prf.treeSize
  included : P.verifyInclusion e.index prf.treeSize e.leafHash prf.proof c.rootHash = .ok ()
  root : prf.rootHash = c.rootHash

lemma cmdVerifyInclusion_ok {a : Answers} {idx : Nat} {u : Unit} :
    cmdVerifyInclusion C P a idx = .ok u ↔ ∃ v c prf e, Checked C P a idx v c prf e := by
  simp only [cmdVerifyInclusion, bind_ok, get_ok, deref_ok, wrapErr_ok, ensure_ok, inclusion_ok]
  constructor
  · rintro ⟨v, hv, o, hc, c, rfl, _, haccepted, prf, hprf, o, hentry, _,
      ⟨e, rfl, hsound, hidx, hincl⟩, hroot⟩
    exact ⟨v, c, prf, e, hv, hc, haccepted, hprf, hentry, hsound, hidx, hroot ▸ hincl, hroot⟩
  · rintro ⟨v, c, prf, e, h⟩
    exact ⟨v, h.verifier, some c, h.checkpoint, c, rfl, (), h.accepted, prf, h.proof, some e,
      h.entry, (), ⟨e, rfl, h.sound, h.index, h.root ▸ h.included⟩, h.root⟩

/-- **The verdict is about entry `idx` of the signed tree**: the entry has that index, the proof is
for the signed size, and its leaf is the leaf at `idx` of every list of leaves with the signed size
and root for which the proof library is sound. -/
structure AboutRequest (C : Crypto) (P : ProofImpl Bytes) (idx : Nat) (c : Checkpoint)
    (prf : InclusionProofResponse) (e : Entry) : Prop where
  index : e.index = idx
  treeSize : prf.treeSize = c.size
  leaf : ∀ leaves : List Bytes, leaves.length = c.size → rfc6962Root C leaves = c.rootHash →
    P.InclusionSound (hashChildren C) (emptyRoot C) leaves → leaves[idx]? = some e.leafHash

/-- **The verdict of `verify-inclusion` is about the request exactly when the server answers what
was asked**: an entry with that index, and a proof for the size of the signed checkpoint. -/
theorem inclusion_verdict_iff {a : Answers} {idx : Nat}
    (h : cmdVerifyInclusion C P a idx = .ok ()) :
    ∃ v c prf e, Checked C P a idx v c prf e ∧
      (AboutRequest C P idx c prf e ↔ e.index = idx ∧ prf.treeSize = c.size) := by
  obtain ⟨v, c, prf, e, hchecked⟩ := cmdVerifyInclusion_ok.mp h
  refine ⟨v, c, prf, e, hchecked, fun habout => ⟨habout.index, habout.treeSize⟩, ?_⟩
  rintro ⟨hidx, hsize⟩
  refine ⟨hidx, hsize, fun leaves hlen hroot hsound => ?_⟩
  have hincluded := hchecked.included
  rw [hidx, hsize, ← hlen, ← hroot] at hincluded
  exact hsound idx e.leafHash prf.proof hincluded

/-! ## Answers to other questions -/

def sampleTree : ProofImpl Bytes := pathTree (hashChildren .sample) (emptyRoot .sample)

def answering (leaves : List Bytes) (e : Entry) (prf : InclusionProofResponse) : Answers where
  pubkey := .ok ⟨lit "log", operatorKey⟩
  keychain := .ok (some soloChain)
  thresholdGroup := .ok none
  checkpoint := .ok (some (.signedWith operatorKey { soloCheckpoint with
    size := leaves.length, rootHash := rfc6962Root .sample leaves }))
  size := .ok leaves.length
  entries _ _ := .ok []
  entry _ := .ok (some e)
  sampleEntry _ := .ok ⟨e.leafHash, lit "p"⟩
  inclusion _ _ := .ok prf

def onlyEntry : Answers :=
  answering [(auditedFirst []).leafHash] (auditedFirst [])
    ⟨1, [], rfc6962Root .sample [(auditedFirst []).leafHash]⟩

theorem inclusion_verdict_iff_only :
    ∃ v c prf e, Checked .sample sampleTree onlyEntry 0 v c prf e ∧
      AboutRequest .sample sampleTree 0 c prf e := by
  obtain ⟨v, c, prf, e, hchecked, hiff⟩ :=
    inclusion_verdict_iff (show cmdVerifyInclusion .sample sampleTree onlyEntry 0 = .ok () by
      decide +kernel)
  refine ⟨v, c, prf, e, hchecked, hiff.mpr ⟨?_, ?_⟩⟩
  · cases hchecked.entry
    rfl
  · cases hchecked.checkpoint
    cases hchecked.proof
    rfl

def otherEntry : Answers :=
  answering [(auditedFirst []).leafHash, (auditedSecond []).leafHash] (auditedSecond [])
    ⟨2, [(auditedFirst []).leafHash],
      rfc6962Root .sample [(auditedFirst []).leafHash, (auditedSecond []).leafHash]⟩

def otherTree : Answers :=
  answering [leftLeaf, rightLeaf, (auditedSecond []).leafHash] (auditedSecond [])
    ⟨2, [hashChildren .sample leftLeaf rightLeaf],
      rfc6962Root .sample [leftLeaf, rightLeaf, (auditedSecond []).leafHash]⟩

/-- **Verdicts about something else**: entry 1 passes for entry 0, and the third leaf of three
passes for the second one. -/
theorem verdict_for_other_question :
    (cmdVerifyInclusion .sample sampleTree otherEntry 0 = .ok () ∧ (auditedSecond []).index = 1) ∧
    (cmdVerifyInclusion .sample sampleTree otherTree 1 = .ok () ∧
      otherTree.checkpoint.toOption.join.map Checkpoint.size = some 3 ∧
      (auditedSecond []).leafHash ≠ rightLeaf) := by
  decide +kernel

end Stele.Cmd
