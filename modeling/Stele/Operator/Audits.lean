import Stele.Operator.Published
import Stele.Cmd.Audit

/-!
# Auditing an honest operator

The report, `audit` and `verify-inclusion` against the API of an operator in single-signature mode,
after any honest run.
-/

namespace Stele

open Lib List

def Cmd.AuditFlags.Usable (flags : Cmd.AuditFlags) : Prop :=
  flags.server ≠ [] ∧ ∀ x, flags.root = some x → ∃ pk, x = .ok pk ∧ pk.length = edPublicKeySize

namespace Operator

open Keys (Signer KeyStore Choice)
open Api Cmd

variable {C : Crypto} {P : ProofImpl Bytes} {R : RangeImpl Bytes}
  {RngHolds : R.Rng → List Bytes → Prop} {store : KeyStore} {s : State R} {signer : Signer}
  {p : Core.Proc R}

lemma fetchEntries_eq {a : Answers} {es : List Entry} {size : Nat} (hsize : size ≤ es.length)
    (hentries : ∀ start stop, start < stop → stop ≤ size → stop - start ≤ 256 →
      a.entries start stop = .ok (((es.drop start).take (stop - start)).map some))
    {n start : Nat} (hn : size ≤ start + 256 * n) :
    fetchEntries a size n start = .ok (((es.take size).drop start).map some) := by
  induction n generalizing start with
  | zero =>
    rw [fetchEntries, drop_eq_nil_of_le (by rw [length_take]; omega)]
    rfl
  | succ n ih =>
    rw [fetchEntries]
    by_cases hlt : start < size
    · rw [if_pos hlt]
      have hstop : (if size < start + 256 then size else start + 256) =
          start + min 256 (size - start) := by
        split <;> omega
      have hchunk := hentries start (start + min 256 (size - start)) (by omega) (by omega)
        (by omega)
      rw [Nat.add_sub_cancel_left] at hchunk
      simp only [hstop, bind_ok, wrapErr_ok, Cmd.get_ok, pure_ok]
      refine ⟨_, hchunk, _, ih (by omega), ?_⟩
      rw [← map_append, ← take_take, ← drop_take, ← drop_drop, take_append_drop]
    · rw [if_neg hlt, drop_eq_nil_of_le (by rw [length_take]; omega)]
      rfl

section
variable (hR : R.Lawful (hashChildren C) (emptyRoot C) RngHolds)
  (hP : P.Lawful (hashChildren C) (emptyRoot C)) (h : Inv C RngHolds store none s)
  (hrun : Running s signer p) {es : List Entry} (hes : s.log.Upheld C RngHolds es)
  {c : Checkpoint} (hc : (s.server signer p).handleCheckpoint = .ok (some c))
  {rootPub : Bytes} (hroot : signer.chain.rootPublicKey = .ok rootPub)
  (hfits : es.length ≤ 2 ^ 45) (served : Nat → Option Nat → List Core.Request)

include h hrun hroot in
lemma buildVerifier_succeeds :
    buildVerifier C ((s.server signer p).answers C P served) = .ok
      ⟨signer.origin, rootPub, some signer.chain.crossed, none, 0, none⟩ := by
  have hgroup : s.group = none := by
    cases hg : s.group with
    | none => rfl
    | some g => cases (h.mode g hg).1
  refine buildVerifier_ok.mpr ⟨⟨signer.origin, rootPub⟩, signer.chain.crossed, none,
    h.pubkey_eq hrun hroot, (h.keychain_eq hrun).1, published_chain (h.good hrun) hroot, ?_, rfl⟩
  have hanswer : ((s.server signer p).answers C P served).thresholdGroup = .ok none :=
    h.thresholdGroup_eq.trans (by rw [hgroup])
  rw [Cmd.thresholdGroup, hanswer]

include h hrun hes hc hroot in
lemma checkpoint_succeeds :
    Verifier.checkpoint C ⟨signer.origin, rootPub, some signer.chain.crossed, none, 0, none⟩ c =
      .ok () :=
  have hendorsed := (h.checkpoint_endorsed hrun hes hc).1
  hendorsed.accepted (h.good hrun) hroot hendorsed.single rfl rfl rfl rfl

include hR h hrun hes hc hroot hfits in
lemma report_passing :
    Audit.Passing C ((s.server signer p).answers C P served) ⟨signer.origin, rootPub⟩
      signer.chain.crossed c :=
  h.passing (h.good hrun) hroot hR hrun hes (by omega) hc
    (h.checkpoint_endorsed hrun hes hc).1.single served

include hR hP hrun hes hfits in
lemma inclusion_served {i : Nat} {e : Entry} (he : es[i]? = some e) (treeSize : Option Nat)
    (hsize : treeSize.getD es.length = es.length) :
    ∃ proof, ((s.server signer p).answers C P served).inclusion i treeSize =
        .ok ⟨es.length, proof, rfc6962Root C (es.map Entry.leafHash)⟩ ∧
      P.verifyInclusion i es.length e.leafHash proof
        (rfc6962Root C (es.map Entry.leafHash)) = .ok () :=
  ((hrun.serves hes).after hR hP (served i treeSize)).handleInclusionProof_current hR hP he
    (by omega) hsize

variable (hcovers : c.size = es.length)

include h hrun hes hc hcovers in
lemma covering_root : c.rootHash = rfc6962Root C (es.map Entry.leafHash) ∧
    c.headHash = Db.headOf es := by
  obtain ⟨-, hcommits⟩ := h.checkpoint_endorsed hrun hes hc
  refine ⟨?_, ?_⟩
  · rw [hcommits.root, hcovers, take_length]
  · rw [hcommits.head, hcovers, take_length]

include hR hP h hrun hes hc hfits hcovers in
lemma samples_verified {i : Nat} (hi : i < c.size) :
    (Audit.sampleOne P ((s.server signer p).answers C P served) c.size c.rootHash i).verified =
      true := by
  have he : es[i]? = some es[i] := getElem?_eq_getElem (by omega)
  obtain ⟨proof, hproof, hverified⟩ := inclusion_served hR hP hrun hes hfits served he
    (some es.length) rfl
  have hentry : ((s.server signer p).answers C P served).sampleEntry i =
      .ok (Server.sampleOf (some es[i])) := by
    show ((s.server signer p).handleGetEntry i).map Server.sampleOf = _
    rw [(hrun.serves hes).handleGetEntry_eq (by omega) he]
    rfl
  rw [hcovers, (covering_root h hrun hes hc hcovers).1]
  simp only [Audit.sampleOne, hentry, hproof]
  rw [show (Server.sampleOf (some es[i])).leafHash = es[i].leafHash from rfl, hverified]

include hR hP hrun hes in
lemma sample_refused (hshort : c.size ≠ es.length) :
    (Audit.sampleOne P ((s.server signer p).answers C P served) c.size c.rootHash 0).verified =
      false := by
  have hserves := (hrun.serves hes).after hR hP (served 0 (some c.size))
  obtain ⟨e, he⟩ := hserves.handleInclusionProof_other hR hP (i := 0) hshort
  have hinclusion : ((s.server signer p).answers C P served).inclusion 0 (some c.size) =
      .error e := he
  unfold Audit.sampleOne
  split
  · rfl
  · rw [hinclusion]

include hR hP h hrun hes hc hroot hfits hcovers in
lemma verifyInclusion_succeeds {idx : Nat} (hidx : idx < c.size) :
    cmdVerifyInclusion C P ((s.server signer p).answers C P served) idx = .ok () := by
  have he : es[idx]? = some es[idx] := getElem?_eq_getElem (by omega)
  obtain ⟨proof, hproof, hverified⟩ := inclusion_served hR hP hrun hes hfits served he
    none rfl
  have hindex : es[idx].index = idx := by
    simpa [Entry.nextIndex] using hes.inv.db.chained.index_eq he
  have hcovered := (covering_root h hrun hes hc hcovers).1
  refine cmdVerifyInclusion_ok.mpr ⟨_, c, _, es[idx], {
    verifier := buildVerifier_succeeds h hrun hroot served
    checkpoint := hc
    accepted := checkpoint_succeeds h hrun hes hc hroot
    proof := hproof
    entry := (hrun.serves hes).handleGetEntry_eq (by omega) he
    sound := hes.inv.db.sound _ (mem_of_getElem? he)
    index := by
      show es[idx].index < es.length
      omega
    included := ?_
    root := hcovered.symm }⟩
  rw [hindex, hcovered]
  exact hverified

include hR hP h hrun hes hc hfits hcovers in
lemma walkEntries_succeeds (v : Verifier) :
    walkEntries C P ((s.server signer p).answers C P served) v c (es.map some) = .ok () := by
  unfold walkEntries
  split
  · rfl
  · rename_i hpos
    have hne : es ≠ [] := by
      rintro rfl
      exact hpos hcovers
    obtain ⟨last, hlast⟩ : ∃ e, es.getLast? = some e := ⟨_, getLast?_eq_some_getLast hne⟩
    have he : es[c.size - 1]? = some last := by rw [hcovers, ← getLast?_eq_getElem?, hlast]
    obtain ⟨hroot, hhead⟩ := covering_root h hrun hes hc hcovers
    obtain ⟨proof, hproof, hverified⟩ := inclusion_served hR hP hrun hes hfits served he
      none rfl
    have hindex : last.index = c.size - 1 := by
      simpa [Entry.nextIndex] using hes.inv.db.chained.index_eq he
    simp only [bind_ok, wrapErr_ok, Cmd.get_ok, deref_ok, ensure_ok, Verifier.entryChain_ok,
      inclusion_ok]
    refine ⟨(), ⟨by simpa using hne, es, rfl, hes.inv.db.chained, hes.inv.db.sound⟩, last, ?_, (),
      ?_, _, hproof, (), ⟨last, rfl, hes.inv.db.sound _ (mem_of_getElem? he), ?_, ?_⟩,
      hroot.symm⟩
    · rw [getLast?_map, hlast]
      rfl
    · rw [hhead, Db.headOf, hlast]
      rfl
    · show last.index < es.length
      omega
    · rw [hindex]
      exact hverified

include h hrun hroot in
lemma printRoot_succeeds {v : Verifier} (hkey : v.rootPublicKey = rootPub) :
    printRoot v signer.chain.crossed = .ok () := by
  have hver := published_chain (h.good hrun) hroot
  obtain ⟨-, epoch, hepoch⟩ := Audit.verified_certs hver
  obtain ⟨genesis, rest, hacc⟩ := Chain.verifyChainWith_ok.mp hver
  have hlen : rootPub.length = edPublicKeySize := by
    rcases hacc.linked.1 with hsingle | hgroup
    · rw [← hacc.publicKey]
      exact hsingle.publicKey_length
    · obtain ⟨g, d, hg, -⟩ := hgroup.digest
      cases hg
  simp only [printRoot, bind_ok, ensure_ok, pure_ok]
  refine ⟨(), ?_, epoch, hepoch, trivial⟩
  rw [hkey, hex_length, hlen]
  decide

include hR h hrun hes hc hroot hfits in
lemma writeReport_succeeds {flags : AuditFlags} (hflags : flags.Usable) :
    writeReport C P flags {} ((s.server signer p).answers C P served) = .ok () := by
  have hcfg : ∃ cfg, reportConfig flags = .ok cfg ∧ cfg.operatorURL = flags.server := by
    unfold reportConfig
    cases hr : flags.root with
    | none => exact ⟨_, rfl, rfl⟩
    | some x =>
      obtain ⟨pk, rfl, hlen⟩ := hflags.2 x hr
      simp only [ensure, if_pos hlen, ok_bind]
      exact ⟨_, rfl, rfl⟩
  obtain ⟨cfg, hcfg, hurl⟩ := hcfg
  have hurl' : cfg.operatorURL ≠ [] := by
    rw [hurl]
    exact hflags.1
  have hpassing := report_passing (P := P) hR h hrun hes hc hroot hfits served
  obtain ⟨r, samples, hreport, -⟩ := hpassing.run_ok (P := P) hurl'
  simp only [writeReport, bind_ok, wrapErr_ok, checkIf_ok]
  exact ⟨cfg, hcfg, r, hreport, (), fun _ => rfl, (), fun _ => rfl, fun _ => rfl⟩

include hR hP h hrun hes hc hroot hfits hcovers in
lemma audit_succeeds {flags : AuditFlags} (hflags : flags.Usable)
    (again : Nat → Option Nat → List Core.Request) :
    cmdAudit C P flags {} ((s.server signer p).answers C P served)
      ((s.server signer p).answers C P again) = .ok () := by
  have hrange : ∀ start stop, start < stop → stop ≤ c.size → stop - start ≤ 256 →
      ((s.server signer p).answers C P served).entries start stop =
        .ok (((es.drop start).take (stop - start)).map some) := by
    intro start stop hlt hstop hmax
    exact (hrun.serves hes).handleEntriesRange_eq hlt (by omega) (by omega)
  have hfetched : fetchEntries ((s.server signer p).answers C P served) c.size
      ((c.size + 255) / 256) 0 = .ok (es.map some) := by
    rw [fetchEntries_eq (by omega) hrange (by omega), hcovers, take_length, drop_zero]
  simp only [cmdAudit, bind_ok, wrapErr_ok, Cmd.get_ok, deref_ok, ensure_ok, checkIf_ok]
  exact ⟨_, buildVerifier_succeeds h hrun hroot served, _, rfl, (),
    printRoot_succeeds h hrun hroot rfl, _, hc, c, rfl, (),
    checkpoint_succeeds h hrun hes hc hroot, (), by omega, _, hfetched, (),
    by rw [length_map, hcovers], (),
    walkEntries_succeeds hR hP h hrun hes hc hfits served hcovers _, (),
    printRoot_succeeds h hrun hroot rfl,
    fun _ => writeReport_succeeds hR h hrun hes hc hroot hfits again hflags⟩

end

/-- **What an audit of an honest operator finds.** In every state of every honest run in
single-signature mode in which nobody holds the log's lock, with a recorded checkpoint of positive
size, whatever proofs the server has served before: the report with the right trust anchor is PASS
when the latest checkpoint covers every entry and FAIL when it does not, and in the first case
`audit` and `verify-inclusion` of every entry return nil. -/
theorem honest_operator_audited {dir : Bytes} {opts : Core.Options} (hC : Keys.Correct C)
    (hR : R.Lawful (hashChildren C) (emptyRoot C) RngHolds)
    (hrep : R.Reports (hashChildren C) (emptyRoot C) RngHolds)
    (hP : P.Lawful (hashChildren C) (emptyRoot C)) {as : List Action}
    (has : Along (step C dir opts) (Honest C dir store none) (init R) as)
    (hrun : Running (run (step C dir opts) (init R) as) signer p) {n : Nat} (hn : 0 < n)
    (hckpt : ((run (step C dir opts) (init R) as).log.db.ckpt.get n).isSome = true)
    (hfits : p.tree.size ≤ 2 ^ 45) (served again : Nat → Option Nat → List Core.Request) :
    let server := (run (step C dir opts) (init R) as).server signer p
    let a := server.answers C P served
    ∃ c rootPub, a.checkpoint = .ok (some c) ∧ n ≤ c.size ∧ c.size ≤ p.tree.size ∧
      signer.chain.rootPublicKey = .ok rootPub ∧
      (∀ cfg : Audit.Config, cfg.operatorURL ≠ [] → cfg.rootPublicKey = some rootPub →
        cfg.trustAnchorSource ≠ [] → 0 < cfg.sampleN →
        ∃ r, Audit.run C P cfg a = .ok r ∧
          r.status = if c.size = p.tree.size then .pass else .fail) ∧
      (c.size = p.tree.size →
        (∀ flags : AuditFlags, flags.Usable →
          cmdAudit C P flags {} a (server.answers C P again) = .ok ()) ∧
        ∀ idx < c.size, cmdVerifyInclusion C P a idx = .ok ()) := by
  intro server a
  have h := run_inv hC hR hrep has
  obtain ⟨es, hes⟩ := h.log
  obtain ⟨c, hc, hle⟩ : ∃ c, server.handleCheckpoint = .ok (some c) ∧ n ≤ c.size :=
    checkpoint_served hes hn hckpt
  obtain ⟨rootPub, hroot, -⟩ := (h.good hrun).verifies
  have hsize : p.tree.size = es.length := by
    have hlen := Tree.size_eq hR (hrun.serves hes).mirrored.ready.holds
    rwa [length_map] at hlen
  rw [hsize] at hfits ⊢
  have hpos : 0 < c.size := Nat.lt_of_lt_of_le hn hle
  have hpassing := report_passing (P := P) hR h hrun hes hc hroot hfits served
  refine ⟨c, rootPub, hc, hle, (h.checkpoint_endorsed hrun hes hc).2.size_le, hroot, ?_, ?_⟩
  · intro cfg hurl hanchor hsource hN
    by_cases hcovers : c.size = es.length
    · rw [if_pos hcovers]
      exact hpassing.run_pass hurl hanchor hsource fun i hi =>
        samples_verified hR hP h hrun hes hc hfits served hcovers hi
    · rw [if_neg hcovers]
      exact hpassing.run_fail hurl hN hpos (sample_refused hR hP hrun hes served hcovers)
  · intro hcovers
    exact ⟨fun flags hflags =>
        audit_succeeds hR hP h hrun hes hc hroot hfits served hcovers hflags again,
      fun idx hidx => verifyInclusion_succeeds hR hP h hrun hes hc hroot hfits served hcovers hidx⟩

/-! ## Entries after the checkpoint -/

def logged (a : Core.Action) : Action := .log a [{ now := 12 }] []

def producedAt (timeNanos : Int) : Envelope :=
  let env := { auditedEnvelope (lit "x") with timeNanos := timeNanos }
  { env with signature := Crypto.sample.edSign (List.replicate 32 5) env.canonical }

def appended (timeNanos : Int) : List Action :=
  logged (.callAppend 0 (some (producedAt timeNanos)) false) :: (Core.steps 0 6).map logged

def coveredRun : List Action :=
  [.startSigner (lit "log") (.file Keys.sampleDir false) (Keys.genesisChoices 1 10),
    logged (.start fun _ => {}),
    logged (.registerProducer none 1 { id := lit "p", publicKey := List.replicate 32 5 })] ++
  appended 7 ++ logged (.callCheckpoint 0) :: (Core.steps 0 5).map logged ++
  [.rotate (Keys.rotateChoices 2 20)]

def after (as : List Action) : State Core.sampleRange :=
  run (step Keys.paired Keys.sampleDir {}) (init Core.sampleRange) as

def published (s : State Core.sampleRange) : Option Answers :=
  match s.keys.signer, s.log.proc with
  | some signer, some p =>
    if p.mu = none then some ((s.server signer p).answers Keys.paired sampleTree fun _ _ => [])
    else none
  | _, _ => none

def anchored : Audit.Config where
  operatorURL := lit "http://127.0.0.1"
  rootPublicKey := some (List.replicate 32 1)
  trustAnchorSource := lit "paper"
  sampleN := 10

theorem honest_operator_audited_sample :
    ∃ signer p, (after coveredRun).keys.signer = some signer ∧ signer.chain.certs.length = 2 ∧
      let a := ((after coveredRun).server signer p).answers Keys.paired sampleTree fun _ _ => []
      (∃ r, Audit.run Keys.paired sampleTree anchored a = .ok r ∧ r.status = .pass) ∧
      cmdAudit Keys.paired sampleTree {} {} a a = .ok () ∧
      cmdVerifyInclusion Keys.paired sampleTree a 0 = .ok () := by
  have has : Along (step Keys.paired Keys.sampleDir {})
      (Honest Keys.paired Keys.sampleDir (.file Keys.sampleDir false) none)
      (init Core.sampleRange) coveredRun := by
    decide +kernel
  have hsigner : (after coveredRun).keys.signer.map
      (fun s => (s.chain.certs.length, s.chain.rootPublicKey)) =
        some (2, .ok (List.replicate 32 1)) := by
    decide +kernel
  have hproc : (after coveredRun).log.proc.map (fun p => (p.mu, p.tree.size)) =
      some (none, 1) := by
    decide +kernel
  obtain ⟨signer, hs, hcerts⟩ := Option.map_eq_some_iff.mp hsigner
  obtain ⟨p, hp, hfree⟩ := Option.map_eq_some_iff.mp hproc
  rw [Prod.mk.injEq] at hcerts hfree
  obtain ⟨c, rootPub, -, hle, hmax, hroot, hreport, hcommands⟩ := honest_operator_audited
    (P := sampleTree) (R := Core.sampleRange) Keys.paired_correct
    (leafList_lawful (hashChildren .sample) (emptyRoot .sample))
    (leafList_reports (hashChildren .sample) (emptyRoot .sample)) (pathTree_lawful _ _) has
    ⟨hs, hp, hfree.1⟩ Nat.one_pos (by decide +kernel) (by rw [hfree.2]; decide)
    (fun _ _ => []) fun _ _ => []
  have hcovers : c.size = p.tree.size := by
    rw [hfree.2] at hmax ⊢
    exact Nat.le_antisymm hmax hle
  obtain ⟨haudit, hinclusion⟩ := hcommands hcovers
  rw [hcerts.2, Except.ok.injEq] at hroot
  obtain ⟨r, hr, hstatus⟩ := hreport anchored (by decide) (by rw [← hroot]; rfl) (by decide)
    (by decide)
  rw [if_pos hcovers] at hstatus
  exact ⟨signer, p, hs, hcerts.1, ⟨r, hr, hstatus⟩, haudit {} ⟨by decide, nofun⟩,
    hinclusion 0 (by omega)⟩

/-- **An append after the latest checkpoint fails the audit**: the run is honest, the report is
FAIL, and neither command succeeds. -/
theorem appended_after_checkpoint_fails :
    Along (step Keys.paired Keys.sampleDir {})
      (Honest Keys.paired Keys.sampleDir (.file Keys.sampleDir false) none)
      (init Core.sampleRange) (coveredRun ++ appended 8) ∧
    ((published (after (coveredRun ++ appended 8))).map fun a =>
      ((Audit.run Keys.paired sampleTree anchored a).toOption.map Audit.Report.status,
        (cmdAudit Keys.paired sampleTree {} {} a a).isOk,
        cmdVerifyInclusion Keys.paired sampleTree a 0)) =
      some (some .fail, false, .error (errorf
        "proof root does not match checkpoint root (server inconsistency)" [])) := by
  decide +kernel

end Operator

end Stele
