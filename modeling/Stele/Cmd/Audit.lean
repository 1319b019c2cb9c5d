import Stele.Audit.Report

/-!
# The audit command (`cmd/stele`)

`cmdAudit` walks the log with the verifier that the server's answers make, and may write a report.
The key that is passed with `--root` only goes into the report.
-/

namespace Stele.Cmd

open Lib

structure AuditFlags where
  server : Bytes := lit "http://127.0.0.1"
  pdf : Bool := false
  json : Bool := false
  sampleN : Int := 10
  root : Option (Except Err Bytes) := none
  rootSource : Bytes := []

structure ReportFaults where
  json : Option Err := none
  render : Option Err := none
  pdf : Option Err := none

def attempt (format : String) : Option Err → Res Unit
  | none => .ok ()
  | some e => .error (.err (.wrap format [] e))

section
variable (C : Crypto) (P : ProofImpl Bytes)

/-- The progress lines print the first 16 digits of the root key and the active epoch. -/
def printRoot (v : Verifier) (ch : Chain) : Res Unit := do
  ensure (16 ≤ (hex v.rootPublicKey).length) (.panic "slice bounds out of range")
  let _ ← ch.activeEpoch
  return ()

def fetchEntries (a : Answers) (size : Nat) : Nat → Nat → Res (List (Option Entry))
  | 0, _ => .ok []
  | n + 1, start =>
    if start < size then do
      let stop := if size < start + 256 then size else start + 256
      let chunk ← wrapErr "get entries [%d,%d): %w" [.nat start, .nat stop]
        (get (a.entries start stop))
      let rest ← fetchEntries a size n (start + 256)
      return chunk ++ rest
    else .ok []

def walkEntries (a : Answers) (v : Verifier) (c : Checkpoint) (entries : List (Option Entry)) :
    Res Unit :=
  if c.size = 0 then .ok ()
  else do
    wrapErr "hash chain INVALID: %w" [] (v.entryChain C entries)
    let last ← deref entries.getLast?.join
    ensure (last.entryHash = c.headHash)
      (errorf "last entry hash does not match checkpoint head_hash" [])
    let prf ← get (a.inclusion (c.size - 1) none)
    wrapErr "inclusion proof INVALID: %w" []
      (v.inclusion C P (some last) prf.treeSize prf.proof prf.rootHash)
    ensure (prf.rootHash = c.rootHash) (errorf "proof root mismatch with checkpoint root" [])

def reportConfig (flags : AuditFlags) : Res Audit.Config :=
  let cfg : Audit.Config := {
    operatorURL := flags.server
    trustAnchorSource := flags.rootSource
    sampleN := flags.sampleN }
  let bad := "audit: --root must be base64 of a 32-byte Ed25519 pubkey: %w"
  match flags.root with
  | none => .ok cfg
  | some (.error e) => .error (.err (.wrap bad [] e))
  | some (.ok pk) => do
    ensure (pk.length = edPublicKeySize) (errorf bad [])
    return { cfg with
      rootPublicKey := some pk
      trustAnchorSource := if flags.rootSource = [] then lit "supplied" else flags.rootSource }

def writeReport (flags : AuditFlags) (faults : ReportFaults) (a : Answers) : Res Unit := do
  let cfg ← reportConfig flags
  let _ ← wrapErr "audit report: %w" [] (Audit.run C P cfg a)
  checkIf (flags.json = true) (attempt "write json: %w" faults.json)
  checkIf (flags.pdf = true) (attempt "render pdf: %w" faults.render)
  checkIf (flags.pdf = true) (attempt "write pdf: %w" faults.pdf)

def cmdAudit (flags : AuditFlags) (faults : ReportFaults) (a again : Answers) : Res Unit := do
  let verifier ← buildVerifier C a
  let ch ← deref verifier.chain
  printRoot verifier ch
  let c ← deref (← wrapErr "get checkpoint: %w" [] (get a.checkpoint))
  wrapErr "checkpoint signature INVALID: %w" [] (verifier.checkpoint C c)
  ensure (c.size ≤ 2 ^ 45) (.panic "makeslice: cap out of range")
  let entries ← fetchEntries a c.size ((c.size + 255) / 256) 0
  ensure (entries.length = c.size)
    (errorf "got %d entries but checkpoint covers %d" [.nat entries.length, .nat c.size])
  walkEntries C P a verifier c entries
  printRoot verifier ch
  checkIf (flags.pdf = true ∨ flags.json = true) (writeReport C P flags faults again)

end

variable {C : Crypto} {P : ProofImpl Bytes}

def RootedAt (root : Bytes) (ch : Chain) : Prop :=
  ∃ genesis, ch.certs.head? = some (some genesis) ∧ genesis.publicKey = root

structure Audited (C : Crypto) (a : Answers) (v : Verifier) (ch : Chain) (c : Checkpoint)
    (entries : List (Option Entry)) : Prop where
  verifier : buildVerifier C a = .ok v
  chain : v.chain = some ch
  checkpoint : a.checkpoint = .ok (some c)
  accepted : v.checkpoint C c = .ok ()
  fetched : fetchEntries a c.size ((c.size + 255) / 256) 0 = .ok entries
  length : entries.length = c.size
  walked : 0 < c.size → v.entryChain C entries = .ok () ∧ lastHash entries = some c.headHash

lemma walkEntries_ok {a : Answers} {v : Verifier} {c : Checkpoint} {entries : List (Option Entry)}
    {u : Unit} (h : walkEntries C P a v c entries = .ok u) (hpos : 0 < c.size) :
    v.entryChain C entries = .ok () ∧ lastHash entries = some c.headHash := by
  rw [walkEntries, if_neg (Nat.ne_of_gt hpos)] at h
  simp only [bind_ok, wrapErr_ok, deref_ok, ensure_ok] at h
  obtain ⟨_, hchain, last, hlast, _, hhead, -⟩ := h
  refine ⟨hchain, ?_⟩
  rw [lastHash, hlast, Option.map_some, hhead]

lemma cmdAudit_ok {flags : AuditFlags} {faults : ReportFaults} {a again : Answers} {u : Unit}
    (h : cmdAudit C P flags faults a again = .ok u) :
    ∃ v ch c entries, Audited C a v ch c entries := by
  simp only [cmdAudit, bind_ok, wrapErr_ok, get_ok, deref_ok, ensure_ok] at h
  obtain ⟨v, hv, ch, hch, _, -, o, ho, c, rfl, _, haccepted, _, -, entries, hfetched, _, hlen, _,
    hwalk, -⟩ := h
  exact ⟨v, ch, c, entries, hv, hch, ho, haccepted, hfetched, hlen, walkEntries_ok hwalk⟩

lemma Audited.rooted {a : Answers} {v : Verifier} {ch : Chain} {c : Checkpoint}
    {entries : List (Option Entry)} (h : Audited C a v ch c entries) :
    ∃ pk, a.pubkey = .ok pk ∧ ∀ root, RootedAt root ch ↔ pk.rootPublicKey = root := by
  obtain ⟨pk, ch', group, hpk, -, hverify, -, rfl⟩ := buildVerifier_ok.mp h.verifier
  cases h.chain
  obtain ⟨genesis, rest, hacc⟩ := Chain.verifyChainWith_ok.mp hverify
  refine ⟨pk, hpk, fun root => ⟨?_, ?_⟩⟩
  · rintro ⟨genesis', hfirst, rfl⟩
    rw [hacc.certs, List.map_cons, List.head?_cons] at hfirst
    cases hfirst
    exact hacc.publicKey.symm
  · rintro rfl
    exact ⟨genesis, by rw [hacc.certs]; rfl, hacc.publicKey⟩

/-- **The trust anchor is honoured exactly when the server names it.** For every server and all
flags: when the audit of a log passes, the checkpoint was accepted and the entries end at its head
hash; and the chain is rooted at `root` if and only if the server's own answer has `root` as its
root key. -/
theorem audit_honours_root_iff {flags : AuditFlags} {faults : ReportFaults} {a again : Answers}
    (h : cmdAudit C P flags faults a again = .ok ()) (root : Bytes) :
    ∃ v ch c entries, Audited C a v ch c entries ∧
      (RootedAt root ch ↔ ∃ pk, a.pubkey = .ok pk ∧ pk.rootPublicKey = root) := by
  obtain ⟨v, ch, c, entries, haudited⟩ := cmdAudit_ok h
  obtain ⟨pk, hpk, hrooted⟩ := haudited.rooted
  refine ⟨v, ch, c, entries, haudited, ?_⟩
  rw [hrooted root, hpk]
  simp

/-! ## A server with another root key -/

def oneEntryServer : Answers :=
  { onlyEntry with
    checkpoint := .ok (some (.signedWith operatorKey { soloCheckpoint with
      size := 1
      rootHash := rfc6962Root .sample [(auditedFirst []).leafHash]
      headHash := (auditedFirst []).entryHash }))
    entries := fun _ _ => .ok [some (auditedFirst [])] }

def otherRoot (json : Bool) : AuditFlags :=
  { json := json, root := some (.ok (List.replicate 32 9)), rootSource := lit "paper" }

theorem audit_honours_root_iff_sample :
    ∃ v ch c entries, Audited .sample oneEntryServer v ch c entries ∧ RootedAt operatorKey ch := by
  obtain ⟨v, ch, c, entries, haudited, hiff⟩ := audit_honours_root_iff
    (show cmdAudit .sample sampleTree {} {} oneEntryServer oneEntryServer = .ok () by
      decide +kernel) operatorKey
  exact ⟨v, ch, c, entries, haudited, hiff.mpr ⟨_, rfl, rfl⟩⟩

/-- **A server with another root key than the one that was passed passes the audit**, without a
report, and with one that says FAIL. -/
theorem audit_accepts_other_root :
    (List.replicate 32 9 : Bytes) ≠ operatorKey ∧
    cmdAudit .sample sampleTree (otherRoot false) {} oneEntryServer oneEntryServer = .ok () ∧
    cmdAudit .sample sampleTree (otherRoot true) {} oneEntryServer oneEntryServer = .ok () ∧
    ((reportConfig (otherRoot true)).toOption.bind fun cfg =>
      (Audit.run .sample sampleTree cfg oneEntryServer).toOption.map Audit.Report.status) =
        some .fail := by
  decide +kernel

end Stele.Cmd
