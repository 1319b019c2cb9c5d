import Stele.Api.Server
import Stele.Audit.Verdict

/-!
# What a verdict rests on
-/

namespace Stele.Audit

open Lib List

open Cmd

/-! ## The status never gets better -/

variable {C : Crypto} {P : ProofImpl Bytes}

lemma anchorStep_status (cfg : Config) (pk : PubKeyResponse) (r : Report) :
    (anchorStep C cfg pk r).origin = r.origin ∧
    r.status.rank ≤ (anchorStep C cfg pk r).status.rank ∧
    ((anchorStep C cfg pk r).status = .pass →
      cfg.rootPublicKey = some pk.rootPublicKey ∧ cfg.trustAnchorSource ≠ []) := by
  unfold anchorStep
  by_cases hsource : cfg.trustAnchorSource = []
  · simp only [hsource, ne_eq, not_true_eq_false, and_false, ↓reduceIte]
    exact ⟨rfl, pickStatus_rank _ _, fun hpass => absurd hpass (pickStatus_warn_ne_pass _)⟩
  · simp only [hsource, ne_eq, not_false_eq_true, and_true, ↓reduceIte]
    split
    · refine ⟨rfl, r.status.rank_le_two, fun hpass => ?_⟩
      cases hpass
    · rename_i hmatched
      refine ⟨rfl, le_refl _, fun _ => ?_⟩
      rw [not_not] at hmatched
      unfold checkTrustAnchor at hmatched
      cases hroot : cfg.rootPublicKey with
      | none => simp [hroot] at hmatched
      | some root =>
        by_cases heq : root = pk.rootPublicKey
        · rw [heq]
        · simp [hroot, heq] at hmatched

lemma sizeStep_status (a : Answers) (r : Report) :
    (sizeStep a r).origin = r.origin ∧ r.status.rank ≤ (sizeStep a r).status.rank ∧
      ((sizeStep a r).status = .pass → ∀ n, a.size = .ok n → r.latestCheckpoint.size ≤ n) := by
  unfold sizeStep
  cases hsize : a.size with
  | error =>
    refine ⟨rfl, le_refl _, fun _ n hn => ?_⟩
    cases hn
  | ok =>
    simp only
    split
    · refine ⟨rfl, r.status.rank_le_two, fun hpass => ?_⟩
      cases hpass
    · rename_i hregression
      refine ⟨rfl, le_refl _, fun _ n hn => ?_⟩
      cases hn
      omega

lemma reportSamples_origin (samples : List InclusionSample) (r : Report) :
    (samples.foldl reportSample r).origin = r.origin ∧
      (samples.foldl reportSample r).samples = r.samples := by
  induction samples generalizing r with
  | nil => exact ⟨rfl, rfl⟩
  | cons s samples ih =>
    obtain ⟨horigin, hsamples⟩ := ih (reportSample r s)
    rw [foldl_cons, horigin, hsamples]
    unfold reportSample
    split <;> exact ⟨rfl, rfl⟩

variable {a : Answers} {cfg : Config}

lemma samplesStep_status {r r' : Report} (h : samplesStep P a cfg r = .ok r') :
    r'.origin = r.origin ∧ r.status.rank ≤ r'.status.rank ∧
      (r'.status = .pass → 0 < cfg.sampleN → 0 < r.latestCheckpoint.size →
        ∃ c, a.checkpoint = .ok (some c) ∧
          sampleInclusion P a cfg r.latestCheckpoint.size c.rootHash = .ok r'.samples ∧
          ∀ s ∈ r'.samples, s.verified = true) := by
  unfold samplesStep at h
  by_cases hasked : 0 < cfg.sampleN ∧ 0 < r.latestCheckpoint.size
  · rw [if_pos hasked] at h
    simp only [bind_ok, pure_ok, deref_ok] at h
    obtain ⟨c, hc, samples, hsamples, rfl⟩ := h
    have hckpt : a.checkpoint = .ok (some c) := by
      cases ha : a.checkpoint with
      | error =>
        rw [ha] at hc
        cases hc
      | ok =>
        rw [ha] at hc
        exact congrArg Except.ok hc
    obtain ⟨-, -, hstatus⟩ := reportSamples_frame samples { r with samples := samples }
    obtain ⟨horigin, hkept⟩ := reportSamples_origin samples { r with samples := samples }
    refine ⟨horigin, ?_, fun hpass _ _ => ⟨c, hckpt, ?_, ?_⟩⟩
    · rw [hstatus]
      split
      · exact le_refl _
      · exact r.status.rank_le_two
    · rw [hkept]
      exact hsamples
    · rw [hstatus] at hpass
      rw [hkept]
      by_contra hnot
      rw [if_neg hnot] at hpass
      cases hpass
  · rw [if_neg hasked] at h
    cases h
    exact ⟨rfl, le_refl _, fun _ hN hsize => absurd ⟨hN, hsize⟩ hasked⟩

/-! ## PASS -/

def steps (C : Crypto) (P : ProofImpl Bytes) (cfg : Config) (a : Answers) (pk : PubKeyResponse) :
    List (Report → Res Report) :=
  [fun r => .ok (anchorStep C cfg pk r), chainStep C a pk, checkpointStep C a pk,
    fun r => .ok (sizeStep a r), samplesStep P a cfg]

lemma run_eq_steps (hurl : cfg.operatorURL ≠ []) {pk : PubKeyResponse} (hpk : a.pubkey = .ok pk) :
    run C P cfg a = (steps C P cfg a pk).foldlM (fun r step => step r) { origin := pk.origin } := by
  simp only [run, if_neg hurl, hpk, steps, foldlM_cons, foldlM_nil, ok_bind, bind_pure]

lemma step_status {pk : PubKeyResponse} {step : Report → Res Report}
    (hstep : step ∈ steps C P cfg a pk) {r r' : Report} (h : step r = .ok r') :
    r.status.rank ≤ r'.status.rank := by
  simp only [steps, mem_cons, not_mem_nil, or_false] at hstep
  rcases hstep with rfl | rfl | rfl | rfl | rfl
  · cases h
    exact (anchorStep_status cfg pk r).2.1
  · exact (chainStep_ok h).2.2.1
  · exact (checkpointStep_ok h).2.2.1
  · cases h
    exact (sizeStep_status a r).2.1
  · exact (samplesStep_status h).2.1

structure SampleChecked (P : ProofImpl Bytes) (a : Answers) (size : Nat) (root : Bytes)
    (s : InclusionSample) (shown : SampleEntry) (prf : InclusionProofResponse) : Prop where
  entry : a.sampleEntry s.index = .ok shown
  proof : a.inclusion s.index (some size) = .ok prf
  included : P.verifyInclusion s.index size shown.leafHash prf.proof root = .ok ()
  producer : s.producer = shown.producerID

variable {size : Nat} {root : Bytes}

lemma sampleOne_verified {i : Nat} (h : (sampleOne P a size root i).verified = true) :
    ∃ entry prf, SampleChecked P a size root (sampleOne P a size root i) entry prf := by
  unfold sampleOne at h ⊢
  cases hentry : a.sampleEntry i with
  | error =>
    rw [hentry] at h
    cases h
  | ok entry =>
    cases hprf : a.inclusion i (some size) with
    | error =>
      simp only [hentry, hprf] at h
      cases h
    | ok prf =>
      cases hver : P.verifyInclusion i size entry.leafHash prf.proof root with
      | error =>
        simp only [hentry, hprf, hver] at h
        cases h
      | ok =>
        simp only [hver]
        exact ⟨entry, prf, hentry, hprf, hver, rfl⟩

lemma sampleInclusion_ok {samples : List InclusionSample}
    (h : sampleInclusion P a cfg size root = .ok samples) :
    (0 < size → samples ≠ []) ∧ ∀ s ∈ samples, ∃ i < size, s = sampleOne P a size root i := by
  simp only [sampleInclusion] at h
  split at h
  · cases h
  · split at h
    · cases h
    · rename_i hneg hzero
      cases h
      refine ⟨fun hsize hnil => ?_, fun s hs => mem_sampleLoop hs⟩
      obtain ⟨m, hm⟩ : ∃ m, (sampleCount cfg.sampleN size).toNat = m + 1 :=
        ⟨(sampleCount cfg.sampleN size).toNat - 1, by omega⟩
      rw [hm, sampleLoop, if_pos hsize] at hnil
      cases hnil

lemma samples_checked {samples : List InclusionSample}
    (h : sampleInclusion P a cfg size root = .ok samples) {s : InclusionSample} (hs : s ∈ samples)
    (hv : s.verified = true) : ∃ entry prf, SampleChecked P a size root s entry prf := by
  obtain ⟨i, -, rfl⟩ := (sampleInclusion_ok h).2 s hs
  exact sampleOne_verified hv

structure Earned (C : Crypto) (P : ProofImpl Bytes) (cfg : Config) (a : Answers) (r : Report)
    (pk : PubKeyResponse) (ch : Chain) (c : Checkpoint) : Prop where
  pubkey : a.pubkey = .ok pk
  root : cfg.rootPublicKey = some pk.rootPublicKey
  source : cfg.trustAnchorSource ≠ []
  keychain : a.keychain = .ok (some ch)
  chain : ch.verifyChain C pk.rootPublicKey = .ok ()
  checkpoint : a.checkpoint = .ok (some c)
  origin : r.origin = pk.origin
  accepted : (reportVerifier pk (some ch)).checkpoint C c = .ok ()
  size : ∀ n, a.size = .ok n → c.size ≤ n
  samples : 0 < cfg.sampleN → 0 < c.size → r.samples ≠ [] ∧
    ∀ s ∈ r.samples, ∃ shown prf, SampleChecked P a c.size c.rootHash s shown prf

/-- **A PASS is earned.** A report has status PASS only when every check was made and passed, and no
step of `Run` makes a status better than it was. -/
theorem pass_is_earned (C : Crypto) (P : ProofImpl Bytes) (cfg : Config) (a : Answers) (r : Report)
    (h : run C P cfg a = .ok r) :
    (r.status = .pass → ∃ pk ch c, Earned C P cfg a r pk ch c) ∧
    ∀ pk, a.pubkey = .ok pk →
      run C P cfg a = (steps C P cfg a pk).foldlM (fun r step => step r) { origin := pk.origin } ∧
      ∀ step ∈ steps C P cfg a pk, ∀ before after, step before = .ok after →
        before.status.rank ≤ after.status.rank := by
  have hurl : cfg.operatorURL ≠ [] := by
    intro hnil
    rw [run, if_pos hnil] at h
    cases h
  refine ⟨fun hpass => ?_, fun pk hpk => ⟨run_eq_steps hurl hpk, fun step hstep _ _ hok =>
    step_status hstep hok⟩⟩
  cases hpk : a.pubkey with
  | error e =>
    simp only [run, if_neg hurl, hpk] at h
    cases h
    cases hpass
  | ok pk =>
    have hverified := run_verified_iff h hpk
    simp only [run, if_neg hurl, hpk, bind_ok] at h
    obtain ⟨r1, hchain, r2, hckpt, hsamples⟩ := h
    obtain ⟨horigin1, -, hanchor⟩ := anchorStep_status (C := C) cfg pk { origin := pk.origin }
    obtain ⟨-, horigin2, hrank2, hchained, hchainiff⟩ := chainStep_ok hchain
    obtain ⟨-, horigin3, hrank3, hckpted, -⟩ := checkpointStep_ok hckpt
    obtain ⟨horigin4, hrank4, hsized⟩ := sizeStep_status a r2
    obtain ⟨horigin5, hrank5, hsampled⟩ := samplesStep_status hsamples
    obtain ⟨-, hframe⟩ := sizeStep_frame a r2
    -- a PASS at the end is a PASS after every step
    have hpass4 := Status.eq_pass_of_rank hrank5 hpass
    have hpass3 := Status.eq_pass_of_rank hrank4 hpass4
    have hpass2 := Status.eq_pass_of_rank hrank3 hpass3
    have hpass1 := Status.eq_pass_of_rank hrank2 hpass2
    obtain ⟨hroot, hsource⟩ := hanchor hpass1
    obtain ⟨c, hc, hcverified, hcsize⟩ := hckpted hpass3
    obtain ⟨ch, hch, hchverify⟩ := hchainiff.mp (hchained hpass2)
    obtain ⟨hframe5, hframe6⟩ := samplesStep_frame hsamples
    rw [hframe6, hframe] at hverified
    obtain ⟨c', hc', haccepted⟩ := hverified.2.mp hcverified
    cases hc.symm.trans hc'
    rw [hch] at haccepted
    refine ⟨pk, ch, c, hpk, hroot, hsource, hch, hchverify, hc, ?_, haccepted, ?_, ?_⟩
    · rw [horigin5, horigin4, horigin3, horigin2, horigin1]
    · rw [← hcsize]
      exact hsized hpass4
    · intro hN hpos
      rw [hframe, hcsize] at hsampled
      obtain ⟨c'', hc'', hsample, hall⟩ := hsampled hpass hN hpos
      cases hc.symm.trans hc''
      exact ⟨(sampleInclusion_ok hsample).1 hpos,
        fun s hs => samples_checked hsample hs (hall s hs)⟩

def preShared : Config where
  operatorURL := lit "http://op"
  rootPublicKey := some operatorKey
  trustAnchorSource := lit "paper"
  sampleN := 1

theorem pass_is_earned_only : ∃ r pk ch c, run .sample sampleTree preShared onlyEntry = .ok r ∧
    r.status = .pass ∧ Earned .sample sampleTree preShared onlyEntry r pk ch c := by
  have hstatus : (run .sample sampleTree preShared onlyEntry).toOption.map Report.status =
      some .pass := by decide +kernel
  cases hrun : run .sample sampleTree preShared onlyEntry with
  | error f =>
    rw [hrun] at hstatus
    cases hstatus
  | ok r =>
    rw [hrun] at hstatus
    have hpass : r.status = .pass := Option.some.inj hstatus
    obtain ⟨pk, ch, c, hearned⟩ :=
      (pass_is_earned .sample sampleTree preShared onlyEntry r hrun).1 hpass
    exact ⟨r, pk, ch, c, rfl, hpass, hearned⟩

/-! ## The entry that a sample shows -/

def entryOfJson (j : Json) : Res Entry := do
  return {
    index := ← j.field "index" >>= Json.getNat
    timeNanos := ← j.field "time_ns" >>= Json.getInt
    prevHash := ← j.field "prev_hash" >>= Json.getBytes
    envelope := ← j.field "envelope" >>= Entry.getEnvelope
    honeypot := ← j.field "honeypot" >>= Json.getBool
    entryHash := ← j.field "entry_hash" >>= Json.getBytes
    leafHash := ← j.field "leaf_hash" >>= Json.getBytes }

def decodeEntry (j : Json) : Res (Option Entry) := do
  j.field "entry" >>= Json.getPtr entryOfJson

def decodeSample (j : Json) : Res SampleEntry := do
  let entry ← j.field "entry"
  let _ ← entry.field "index" >>= Json.getNat
  let leafHash ← entry.field "leaf_hash" >>= Json.getBytes
  let envelope ← entry.field "envelope"
  let producerID ← envelope.field "producer_id" >>= Json.getStr
  return { leafHash := leafHash, producerID := producerID }

def httpGet {α : Type} (decode : Json → Res α) (answer : Except Err Json) : Except Err α := do
  let body ← answer
  match decode body with
  | .ok v => .ok v
  | .error (.err e) => .error e
  | .error (.panic w) => .error (.errorf w [])

lemma httpGet_ok {α : Type} {decode : Json → Res α} {answer : Except Err Json} {v : α} :
    httpGet decode answer = .ok v ↔ ∃ body, answer = .ok body ∧ decode body = .ok v := by
  cases answer with
  | error => simp [httpGet]
  | ok body =>
    simp only [httpGet, Except.ok.injEq, exists_eq_left']
    show (match decode body with
      | .ok v => .ok v
      | .error (.err e) => .error e
      | .error (.panic w) => .error (.errorf w [])) = Except.ok v ↔ _
    split <;> simp [*]

def showing (a : Answers) (body : Nat → Except Err Json) : Answers :=
  { a with sampleEntry := fun i => httpGet decodeSample (body i) }

/-- **The two decodings agree** on the fields that both have. -/
theorem decodeSample_eq {j : Json} {o : Option Entry} (h : decodeEntry j = .ok o) :
    decodeSample j = .ok (Api.Server.sampleOf o) := by
  simp only [decodeEntry, bind_ok] at h
  obtain ⟨entry, hentry, h⟩ := h
  simp only [decodeSample, hentry, ok_bind]
  by_cases hnull : entry = .null
  · subst hnull
    cases h
    rfl
  · have hptr : Json.getPtr entryOfJson entry = (do return some (← entryOfJson entry)) := by
      cases entry with
      | null => exact absurd rfl hnull
      | _ => rfl
    rw [hptr] at h
    simp only [entryOfJson, bind_ok, pure_ok] at h
    obtain ⟨e, ⟨index, ⟨jindex, hjindex, hindex⟩, time, -, prev, -, env, ⟨jenv, hjenv, henv⟩, pot,
      -, hash, -, leaf, ⟨jleaf, hjleaf, hleaf⟩, rfl⟩, rfl⟩ := h
    simp only [hjindex, hindex, hjleaf, hleaf, hjenv, ok_bind]
    by_cases henull : jenv = .null
    · subst henull
      cases henv
      rfl
    · have hget : Entry.getEnvelope jenv = (do return some (← Envelope.ofJson jenv)) := by
        cases jenv with
        | null => exact absurd rfl henull
        | _ => rfl
      rw [hget] at henv
      simp only [Envelope.ofJson, bind_ok, pure_ok] at henv
      obtain ⟨envelope, ⟨producer, ⟨jproducer, hjproducer, hproducer⟩, _, -, _, -, _, -, _, -, _, -,
        _, -, _, -, _, -, _, -, _, -, rfl⟩, rfl⟩ := henv
      simp only [hjproducer, hproducer, ok_bind]
      rfl

structure SampleBinds (C : Crypto) (P : ProofImpl Bytes) (a : Answers)
    (body : Nat → Except Err Json) (size : Nat) (root : Bytes) (s : InclusionSample) (e : Entry)
    (env : Envelope) : Prop where
  shown : httpGet decodeEntry (body s.index) = .ok (some e)
  index : e.index = s.index
  verified : e.verify C = .ok ()
  included : ∃ prf, a.inclusion s.index (some size) = .ok prf ∧
    P.verifyInclusion s.index size (hashLeaf C (e.canonical C)) prf.proof root = .ok ()
  leaf : ∀ leaves : List Bytes, leaves.length = size → rfc6962Root C leaves = root →
    P.InclusionSound (hashChildren C) (emptyRoot C) leaves →
    leaves[s.index]? = some (hashLeaf C (e.canonical C))
  envelope : e.envelope = some env
  signed : env.verify C = .ok ()
  producer : s.producer = env.producerID

/-- **A verified sample binds the entry that was shown exactly when that entry has the sampled index
and verifies by itself.** -/
theorem sample_binds_iff (C : Crypto) (P : ProofImpl Bytes) (cfg : Config) (a : Answers)
    (body : Nat → Except Err Json) (size : Nat) (root : Bytes) (samples : List InclusionSample)
    (h : sampleInclusion P (showing a body) cfg size root = .ok samples) (s : InclusionSample)
    (hs : s ∈ samples) (hv : s.verified = true) :
    (∃ e env, SampleBinds C P a body size root s e env) ↔
      ∃ e, httpGet decodeEntry (body s.index) = .ok (some e) ∧ e.index = s.index ∧
        e.verify C = .ok () := by
  constructor
  · rintro ⟨e, env, hbinds⟩
    exact ⟨e, hbinds.shown, hbinds.index, hbinds.verified⟩
  · rintro ⟨e, hshown, hindex, hverify⟩
    obtain ⟨entry, prf, hchecked⟩ := samples_checked h hs hv
    obtain ⟨j, hj, hdecoded⟩ := httpGet_ok.mp hshown
    obtain ⟨j', hj', hsample⟩ := httpGet_ok.mp hchecked.entry
    cases hj.symm.trans hj'
    cases (decodeSample_eq hdecoded).symm.trans hsample
    have hsound := Entry.verify_ok.mp hverify
    obtain ⟨env, henv, hvalid⟩ := hsound.envelope
    have hincluded := hchecked.included
    simp only [Api.Server.sampleOf, Option.map_some, Option.getD_some, hsound.leafHash]
      at hincluded
    refine ⟨e, env, hshown, hindex, hverify, ⟨prf, hchecked.proof, hincluded⟩, ?_, henv,
      Envelope.verify_ok.mpr hvalid, ?_⟩
    · rintro leaves rfl rfl hsoundLib
      exact hsoundLib s.index _ _ hincluded
    · rw [hchecked.producer]
      simp [Api.Server.sampleOf, henv]

def honestBody (_ : Nat) : Except Err Json := .ok (.obj [("entry", (auditedFirst []).marshal)])

theorem sample_binds_iff_only : ∃ s e env,
    SampleBinds .sample sampleTree onlyEntry honestBody 1
      (rfc6962Root .sample [(auditedFirst []).leafHash]) s e env := by
  let root := rfc6962Root .sample [(auditedFirst []).leafHash]
  let s : InclusionSample := { index := 0, producer := lit "p", verified := true }
  have hsamples : sampleInclusion sampleTree (showing onlyEntry honestBody) preShared 1 root =
      .ok [s] := by
    decide +kernel
  refine ⟨s, (sample_binds_iff .sample sampleTree preShared onlyEntry honestBody 1 root [s] hsamples
    s mem_cons_self rfl).mpr ⟨auditedFirst [], ?_, rfl, ?_⟩⟩ <;> decide +kernel

def otherProducer : Entry :=
  { auditedFirst [] with
    index := 7
    envelope := some { auditedEnvelope [] with producerID := lit "mallory" } }

def forgedBody (_ : Nat) : Except Err Json := .ok (.obj [("entry", otherProducer.marshal)])

/-- **A report that passes, about an entry that is not in the log.** -/
theorem sample_of_forged_entry : ∃ r, run .sample sampleTree preShared
      (showing onlyEntry forgedBody) = .ok r ∧ r.status = .pass ∧
    (∃ s ∈ r.samples, s.index = 0 ∧ s.verified = true ∧ s.producer = lit "mallory") ∧
    httpGet decodeEntry (forgedBody 0) = .ok (some otherProducer) ∧ otherProducer.index = 7 ∧
    otherProducer.verify .sample ≠ .ok () ∧
    hashLeaf .sample (otherProducer.canonical .sample) ≠ otherProducer.leafHash := by
  have hsummary : (run .sample sampleTree preShared (showing onlyEntry forgedBody)).toOption.map
        (fun r => (r.status, r.samples.map fun s => (s.index, s.verified, s.producer))) =
      some (.pass, [(0, true, lit "mallory")]) := by
    decide +kernel
  cases hrun : run .sample sampleTree preShared (showing onlyEntry forgedBody) with
  | error f =>
    rw [hrun] at hsummary
    cases hsummary
  | ok r =>
    rw [hrun] at hsummary
    obtain ⟨hpass, hsamples⟩ := Prod.mk.inj (Option.some.inj hsummary)
    obtain ⟨s, hs, hshow⟩ := mem_map.mp (hsamples ▸ mem_cons_self)
    obtain ⟨hindex, hrest⟩ := Prod.mk.inj hshow
    obtain ⟨hverified, hproducer⟩ := Prod.mk.inj hrest
    refine ⟨r, rfl, hpass, ⟨s, hs, hindex, hverified, hproducer⟩, ?_, rfl, ?_, ?_⟩ <;>
      decide +kernel

end Stele.Audit
