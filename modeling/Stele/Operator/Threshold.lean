import Stele.Operator.Audits

/-!
# Auditing an operator in threshold mode

`buildVerifier` and the report verify the chain without the group, and the report verifies the
checkpoint without it, too. So a certificate or a checkpoint that the group has signed is rejected.
-/

namespace Stele

open Lib List Option

variable {C : Crypto}

namespace Chain

variable {group : Option Group}

def SingleSigned (ch : Chain) : Prop := ∀ c, some c ∈ ch.certs → c.memberSigs = []

lemma Linked.single {prev : Option RotationCert} {cs : List RotationCert}
    (h : Linked C group prev cs) (hsingle : ∀ c ∈ cs, c.memberSigs = []) :
    Linked C none prev cs := by
  induction cs generalizing prev with
  | nil => trivial
  | cons c cs ih =>
    obtain ⟨hver, hlink, htail⟩ := h
    refine ⟨.inl ?_, hlink, ih htail fun d hd => hsingle d (mem_cons_of_mem _ hd)⟩
    rcases hver with hs | hg
    · exact hs
    · exact absurd (hsingle c mem_cons_self) hg.memberSigs

lemma verifyChain_iff_single {ch : Chain} {rootPub : Bytes} {genesis : RotationCert}
    {rest : List RotationCert} (h : ch.Accepted C rootPub group genesis rest) :
    ch.verifyChain C rootPub = .ok () ↔ ch.SingleSigned := by
  constructor
  · intro hver c hc
    obtain ⟨genesis', rest', hacc⟩ := verifyChainWith_ok.mp hver
    rw [hacc.certs] at hc
    obtain ⟨c', hc', heq⟩ := mem_map.mp hc
    cases heq
    rcases hacc.linked.verified hc' with hs | hg
    · exact hs.memberSigs
    · obtain ⟨g, d, hg, -⟩ := hg.digest
      cases hg
  · intro hsingle
    refine verifyChainWith_ok.mpr ⟨genesis, rest, { h with linked := h.linked.single ?_ }⟩
    intro c hc
    refine hsingle c ?_
    rw [h.certs]
    exact mem_map_of_mem hc

end Chain

lemma Keys.Good.single {C : Crypto} {group : Option Group} {quant clocked : Prop}
    {w : World} {ch : Chain} (h : Good C group quant clocked w ch)
    (hsingle : ch.SingleSigned) : Good C none quant clocked w ch := by
  obtain ⟨genesis, rest, hacc⟩ := h.accepted
  have hver := (Chain.verifyChain_iff_single hacc).mpr hsingle
  obtain ⟨genesis', rest', hacc'⟩ := Chain.verifyChainWith_ok.mp hver
  refine { h with accepted := ⟨genesis', rest', ?_⟩ }
  rwa [← hacc'.publicKey] at hacc'

namespace Operator

open Keys (Signer KeyStore Choice)
open Api Cmd

variable {P : ProofImpl Bytes} {R : RangeImpl Bytes} {RngHolds : R.Rng → List Bytes → Prop}
  {store : KeyStore} {s : State R} {signer : Signer} {p : Core.Proc R} {g : Group}

section
variable (h : Inv C RngHolds store (some g) s) (hmode : s.group = some g)
  (hrun : Running s signer p) {rootPub : Bytes}
  (hroot : signer.chain.rootPublicKey = .ok rootPub)
  (served : Nat → Option Nat → List Core.Request)

include h hrun hroot in
lemma published_chain_iff :
    signer.chain.crossed.verifyChain C rootPub = .ok () ↔ signer.chain.SingleSigned := by
  have hread := (h.good hrun).read
  obtain ⟨genesis, rest, hacc⟩ := ((h.good hrun).of_certs hread).accepted
  have hkey : genesis.publicKey = rootPub := by
    have hfirst := hroot
    rw [Chain.rootPublicKey, ← hread, hacc.certs] at hfirst
    exact Except.ok.inj hfirst
  rw [hkey] at hacc
  rw [Chain.verifyChain_iff_single hacc, Chain.SingleSigned, hread]
  rfl

include h hmode hrun hroot in
/-- **`buildVerifier`** succeeds exactly when the group has signed no rotation. -/
theorem buildVerifier_iff {v : Verifier} :
    buildVerifier C ((s.server signer p).answers C P served) = .ok v ↔
      signer.chain.SingleSigned ∧
        v = ⟨signer.origin, rootPub, some signer.chain.crossed, some g, 0, none⟩ := by
  have hpk : ((s.server signer p).answers C P served).pubkey = .ok ⟨signer.origin, rootPub⟩ :=
    h.pubkey_eq hrun hroot
  have hkeys : ((s.server signer p).answers C P served).keychain =
      .ok (some signer.chain.crossed) := (h.keychain_eq hrun).1
  have hgroup : Cmd.thresholdGroup ((s.server signer p).answers C P served) = .ok (some g) := by
    have hanswer : ((s.server signer p).answers C P served).thresholdGroup = .ok (some g) :=
      h.thresholdGroup_eq.trans (by rw [hmode])
    simp only [Cmd.thresholdGroup, hanswer, (h.mode g hmode).2.2, wrapErr]
    rfl
  rw [buildVerifier_ok, ← published_chain_iff h hrun hroot]
  constructor
  · rintro ⟨pk, ch, group, hpk', hkeys', hver, hgroup', rfl⟩
    rw [hpk, Except.ok.injEq] at hpk'
    rw [hkeys, Except.ok.injEq, Option.some.injEq] at hkeys'
    rw [hgroup, Except.ok.injEq] at hgroup'
    subst hpk' hkeys' hgroup'
    exact ⟨hver, rfl⟩
  · rintro ⟨hver, rfl⟩
    exact ⟨_, _, _, hpk, hkeys, hver, hgroup, rfl⟩

variable {es : List Entry} (hes : s.log.Upheld C RngHolds es) {c : Checkpoint}
  (hc : (s.server signer p).handleCheckpoint = .ok (some c))

include h hrun hroot hes hc in
lemma checkpoint_accepted (hsingle : signer.chain.SingleSigned) :
    Verifier.checkpoint C ⟨signer.origin, rootPub, some signer.chain.crossed, some g, 0, none⟩ c =
      .ok () := by
  have hendorsed := (h.checkpoint_endorsed hrun hes hc).1
  by_cases hms : c.memberSigs = []
  · exact hendorsed.accepted ((h.good hrun).single hsingle) hroot hms rfl rfl rfl rfl
  · have hsigned := hendorsed.signed
    rw [if_neg hms] at hsigned
    simp only [Verifier.checkpoint, bind_ok, ensure_ok, checkIf_ok, exists_const,
      Checkpoint.verify_ok, if_pos hms]
    exact ⟨hendorsed.origin, hsigned, nofun⟩

lemma reportVerifier_single {pk : PubKeyResponse} {chain : Option Chain} {u : Unit}
    (hver : (Audit.reportVerifier pk chain).checkpoint C c = .ok u) : c.memberSigs = [] := by
  by_contra hms
  simp only [Verifier.checkpoint, bind_ok, Checkpoint.verify_ok, if_pos hms] at hver
  obtain ⟨_, -, _, hsigned, -⟩ := hver
  obtain ⟨g, d, hg, -⟩ := hsigned.digest
  cases hg

end

/-- **When an operator in threshold mode can be audited.** In every state of every honest run in
which the operator is in threshold mode and nobody holds the log's lock, with the checkpoint `c`
that is served: `buildVerifier` succeeds and its verifier accepts `c` if and only if the group has
signed no certificate of the chain; and the report says that the chain and the checkpoint verify if
and only if it has not signed `c` either. -/
theorem threshold_auditable_iff {dir : Bytes} {opts : Core.Options} (hC : Keys.Correct C)
    (hR : R.Lawful (hashChildren C) (emptyRoot C) RngHolds)
    (hrep : R.Reports (hashChildren C) (emptyRoot C) RngHolds) {as : List Action}
    (has : Along (step C dir opts) (Honest C dir store (some g)) (init R) as)
    (hmode : (run (step C dir opts) (init R) as).group = some g)
    (hrun : Running (run (step C dir opts) (init R) as) signer p) (hfits : p.tree.size < 2 ^ 63)
    (served : Nat → Option Nat → List Core.Request) {c : Checkpoint} :
    let a := ((run (step C dir opts) (init R) as).server signer p).answers C P served
    a.checkpoint = .ok (some c) →
    ((∃ v, buildVerifier C a = .ok v ∧ v.checkpoint C c = .ok ()) ↔ signer.chain.SingleSigned) ∧
    ∀ cfg : Audit.Config, cfg.operatorURL ≠ [] →
      ((∃ r, Audit.run C P cfg a = .ok r ∧ r.chain.verified = true ∧
          r.latestCheckpoint.verified = true) ↔
        signer.chain.SingleSigned ∧ c.memberSigs = []) := by
  intro a hc
  have h := run_inv hC hR hrep has
  obtain ⟨es, hes⟩ := h.log
  obtain ⟨rootPub, hroot, -⟩ := (h.good hrun).verifies
  have hsize : p.tree.size = es.length := by
    have hlen := Tree.size_eq hR (hrun.serves hes).mirrored.ready.holds
    rwa [length_map] at hlen
  have hpk : a.pubkey = .ok ⟨signer.origin, rootPub⟩ := h.pubkey_eq hrun hroot
  have hkeys : a.keychain = .ok (some signer.chain.crossed) := (h.keychain_eq hrun).1
  refine ⟨⟨?_, fun hsingle => ?_⟩, fun cfg hurl => ⟨?_, ?_⟩⟩
  · rintro ⟨v, hv, -⟩
    exact ((buildVerifier_iff h hmode hrun hroot served).mp hv).1
  · exact ⟨_, (buildVerifier_iff h hmode hrun hroot served).mpr ⟨hsingle, rfl⟩,
      checkpoint_accepted h hrun hroot hes hc hsingle⟩
  · rintro ⟨r, hr, hchain, hckpt⟩
    obtain ⟨hchain_iff, hckpt_iff⟩ := Audit.run_verified_iff hr hpk
    obtain ⟨ch, hch, hver⟩ := hchain_iff.mp hchain
    obtain ⟨c', hc', haccepted⟩ := hckpt_iff.mp hckpt
    rw [hkeys, Except.ok.injEq, Option.some.injEq] at hch
    rw [hc, Except.ok.injEq, Option.some.injEq] at hc'
    subst hch hc'
    exact ⟨(published_chain_iff h hrun hroot).mp hver, reportVerifier_single haccepted⟩
  · rintro ⟨hsingle, hms⟩
    have hpassing := h.passing (P := P) ((h.good hrun).single hsingle) hroot hR hrun hes
      (hsize ▸ hfits) hc hms served
    obtain ⟨r, -, hr, -⟩ := hpassing.run_ok (P := P) hurl
    obtain ⟨hchain_iff, hckpt_iff⟩ := Audit.run_verified_iff hr hpk
    refine ⟨r, hr, hchain_iff.mpr ⟨_, hkeys, hpassing.chain⟩, hckpt_iff.mpr ⟨c, hc, ?_⟩⟩
    rw [hkeys]
    exact hpassing.accepted

/-! ## A run with a rotation -/

def cosigners : Group where
  version := 1
  origin := lit "log"
  members := [some
    { id := lit "g", publicKey := List.replicate 32 9, endpoint := lit "http://g" }]
  threshold := 1
  createdAt := 0

def cosignature (msg : Bytes) : MemberSig where
  memberID := lit "g"
  publicKey := List.replicate 32 9
  signature := Crypto.sample.edSign (List.replicate 32 9) msg

def cosigned (a : Core.Action) : Action :=
  let ckpt := { soloCheckpoint with size := 1 }
  .log a [] (cosigners.asked.map fun m =>
    (m, .http 200 [] (some (some (cosignature ckpt.canonical)))))

def thresholdRun : List Action :=
  [.startSigner (lit "log") (.file Keys.sampleDir false) (Keys.genesisChoices 1 10),
    .useThreshold cosigners, cosigned (.start fun _ => {}),
    cosigned (.registerProducer none 1 { id := lit "p", publicKey := List.replicate 32 5 })] ++
  appended 7 ++ cosigned (.callCheckpoint 0) :: (Core.steps 0 5).map cosigned

def cosignedRotation : Action :=
  let cert : RotationCert := {
    epoch := 1, publicKey := List.replicate 32 2, startedAt := 20, signedBy := List.replicate 32 1 }
  .rotate ((Keys.rotateChoices 2 20).take 7 ++
    { sigs := [some (cosignature cert.canonical)] } :: (Keys.rotateChoices 2 20).drop 7)

/-- **A threshold operator fails the audit.** The run is honest. After the checkpoint that the group
has signed, `buildVerifier` succeeds and its verifier accepts the checkpoint, but the report says
that it does not verify. After the rotation `buildVerifier` fails, and the report says that the
chain does not verify either. -/
theorem threshold_rotation_not_auditable :
    Along (step Keys.paired Keys.sampleDir {})
      (Honest Keys.paired Keys.sampleDir (.file Keys.sampleDir false) (some cosigners))
      (init Core.sampleRange) (thresholdRun ++ [cosignedRotation]) ∧
    let audit (as : List Action) := (published (after as)).map fun a =>
      ((buildVerifier Keys.paired a).toOption.map fun v =>
          a.checkpoint.toOption.join.map fun c => (v.checkpoint Keys.paired c).isOk,
        (Audit.run Keys.paired sampleTree anchored a).toOption.map fun r =>
          (r.chain.verified, r.latestCheckpoint.verified))
    audit thresholdRun = some (some (some true), some (true, false)) ∧
    audit (thresholdRun ++ [cosignedRotation]) = some (none, some (false, false)) := by
  decide +kernel

def changedRun : List Action := coveredRun ++ [.useThreshold cosigners]

theorem threshold_auditable_iff_changed :
    ∃ signer p c, (after changedRun).group = some cosigners ∧ signer.chain.certs.length = 2 ∧
      let a := ((after changedRun).server signer p).answers Keys.paired sampleTree fun _ _ => []
      a.checkpoint = .ok (some c) ∧
      (∃ v, buildVerifier Keys.paired a = .ok v ∧ v.checkpoint Keys.paired c = .ok ()) ∧
      ∃ r, Audit.run Keys.paired sampleTree anchored a = .ok r ∧ r.chain.verified = true ∧
        r.latestCheckpoint.verified = true := by
  have has : Along (step Keys.paired Keys.sampleDir {})
      (Honest Keys.paired Keys.sampleDir (.file Keys.sampleDir false) (some cosigners))
      (init Core.sampleRange) changedRun := by
    decide +kernel
  have hmode : (after changedRun).group = some cosigners := by decide +kernel
  have hsigner : (after changedRun).keys.signer.map
      (fun s => s.chain.certs.map (Option.map RotationCert.memberSigs)) =
        some [some [], some []] := by
    decide +kernel
  have hproc : (after changedRun).log.proc.map (fun p => (p.mu, p.tree.size)) =
      some (none, 1) := by
    decide +kernel
  have hckpt : (published (after changedRun)).map
      (fun a => a.checkpoint.toOption.map (Option.map Checkpoint.memberSigs)) =
        some (some (some [])) := by
    decide +kernel
  obtain ⟨signer, hs, hcerts⟩ := map_eq_some_iff.mp hsigner
  obtain ⟨p, hp, hfree⟩ := map_eq_some_iff.mp hproc
  rw [Prod.mk.injEq] at hfree
  have hsingle : signer.chain.SingleSigned := by
    intro c hc
    have hmem : some c.memberSigs ∈ [some [], some []] := by
      rw [← hcerts]
      exact mem_map.mpr ⟨some c, hc, rfl⟩
    simpa using hmem
  have hanswers : published (after changedRun) = some (((after changedRun).server signer p).answers
      Keys.paired sampleTree fun _ _ => []) := by
    simp only [published, hs, hp, hfree.1, if_true]
  rw [hanswers, map_some, Option.some.injEq] at hckpt
  obtain ⟨o, ho, hmap⟩ := map_eq_some_iff.mp hckpt
  obtain ⟨c, rfl, hms⟩ := map_eq_some_iff.mp hmap
  have hread : ∀ x : Except Err (Option Checkpoint), x.toOption = some (some c) →
      x = .ok (some c) := by
    rintro (e | o) h <;> cases h
    rfl
  have hc := hread _ ho
  obtain ⟨hverifier, hreport⟩ := threshold_auditable_iff (P := sampleTree)
    (R := Core.sampleRange) Keys.paired_correct
    (leafList_lawful (hashChildren .sample) (emptyRoot .sample))
    (leafList_reports (hashChildren .sample) (emptyRoot .sample)) has hmode ⟨hs, hp, hfree.1⟩
    (by rw [hfree.2]; decide) (fun _ _ => []) hc
  have hlen : signer.chain.certs.length = 2 := by simpa using congrArg List.length hcerts
  exact ⟨signer, p, c, hmode, hlen, hc, hverifier.mpr hsingle,
    (hreport anchored (by decide)).mpr ⟨hsingle, hms⟩⟩

end Operator

end Stele
