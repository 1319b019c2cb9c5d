import Stele.Audit.Report

/-!
# The verdict of a report

What the report says about given answers.
-/

namespace Stele.Audit

open Lib List

open Cmd

variable {C : Crypto} {P : ProofImpl Bytes}

lemma mapM_deref {α : Type} {l : List (Option α)} (h : none ∉ l) :
    ∃ xs, l.mapM deref = .ok xs := by
  induction l with
  | nil => exact ⟨[], rfl⟩
  | cons o l ih =>
    rw [mem_cons, not_or] at h
    obtain ⟨xs, hxs⟩ := ih h.2
    cases o with
    | none => exact absurd rfl h.1
    | some x => exact ⟨x :: xs, by rw [mapM_cons, hxs]; rfl⟩

/-! ## What each step leaves -/

def Status.rank : Status → Nat
  | .pass => 0
  | .warn => 1
  | .fail => 2

lemma Status.rank_le_two (s : Status) : s.rank ≤ 2 := by
  cases s <;> decide

lemma Status.eq_pass_of_rank {s t : Status} (h : s.rank ≤ t.rank) (ht : t = .pass) :
    s = .pass := by
  subst ht
  cases s with
  | pass => rfl
  | warn => cases h
  | fail => cases h

lemma pickStatus_rank (s t : Status) : s.rank ≤ (pickStatus s t).rank := by
  cases s <;> cases t <;> decide

lemma pickStatus_warn_ne_pass (s : Status) : pickStatus s .warn ≠ .pass := by
  cases s <;> decide

lemma anchorStep_frame (cfg : Config) (pk : PubKeyResponse) (r : Report) :
    (anchorStep C cfg pk r).latestCheckpoint = r.latestCheckpoint := by
  unfold anchorStep
  simp only
  split <;> split <;> rfl

def reportVerifier (pk : PubKeyResponse) (chain : Option Chain) : Verifier where
  origin := pk.origin
  rootPublicKey := pk.rootPublicKey
  chain := chain

variable {root : Bytes}

lemma summarizeChain_verified {chain : Option Chain} {out : ChainSummary}
    (h : summarizeChain C chain root = .ok out) :
    out.verified = true ↔ ∃ ch, chain = some ch ∧ ch.verifyChain C root = .ok () := by
  cases chain with
  | none =>
    cases h
    simp
  | some ch =>
    simp only [summarizeChain, bind_ok] at h
    obtain ⟨epoch, -, h⟩ := h
    cases hver : ch.verifyChain C root with
    | error f =>
      rw [hver] at h
      cases f with
      | panic => cases h
      | err =>
        cases h
        simp [hver]
    | ok =>
      rw [hver] at h
      simp only [bind_ok, Except.ok.injEq] at h
      obtain ⟨certs, -, rfl⟩ := h
      simp [hver]

variable {a : Answers} {pk : PubKeyResponse} {r r' : Report}

lemma chainStep_ok (h : chainStep C a pk r = .ok r') :
    r'.latestCheckpoint = r.latestCheckpoint ∧ r'.origin = r.origin ∧
      r.status.rank ≤ r'.status.rank ∧ (r'.status = .pass → r'.chain.verified = true) ∧
      (r'.chain.verified = true ↔
        ∃ ch, a.keychain = .ok (some ch) ∧ ch.verifyChain C pk.rootPublicKey = .ok ()) := by
  unfold chainStep at h
  cases hkeys : a.keychain with
  | error =>
    rw [hkeys] at h
    cases h
    exact ⟨rfl, rfl, r.status.rank_le_two, fun hpass => (by cases hpass), by simp [Report.fail]⟩
  | ok =>
    rw [hkeys] at h
    simp only [bind_ok] at h
    obtain ⟨summary, hsummary, h⟩ := h
    have hverified := summarizeChain_verified hsummary
    by_cases hv : summary.verified = true
    · rw [if_pos hv, pure_ok] at h
      subst h
      exact ⟨rfl, rfl, Nat.le_refl _, fun _ => hv, by simpa using hverified⟩
    · rw [if_neg hv, pure_ok] at h
      subst h
      exact ⟨rfl, rfl, r.status.rank_le_two, fun hpass => (by cases hpass),
        by simpa [Report.fail] using hverified⟩

lemma summarizeCheckpoint_ok {c : Checkpoint} {v : Verifier} {out : CheckpointSummary}
    (h : summarizeCheckpoint C c v = .ok out) :
    out.size = c.size ∧ (out.verified = true ↔ v.checkpoint C c = .ok ()) := by
  simp only [summarizeCheckpoint, bind_ok] at h
  obtain ⟨ws, -, h⟩ := h
  cases hver : v.checkpoint C c with
  | error f =>
    rw [hver] at h
    cases f with
    | panic => cases h
    | err =>
      cases h
      simp
  | ok =>
    rw [hver] at h
    cases h
    simp

lemma checkpointStep_ok (h : checkpointStep C a pk r = .ok r') :
    r'.chain = r.chain ∧ r'.origin = r.origin ∧ r.status.rank ≤ r'.status.rank ∧
      (r'.status = .pass → ∃ c, a.checkpoint = .ok (some c) ∧
        r'.latestCheckpoint.verified = true ∧ r'.latestCheckpoint.size = c.size) ∧
      (r.latestCheckpoint.verified = false → (r'.latestCheckpoint.verified = true ↔ ∃ c,
        a.checkpoint = .ok (some c) ∧
          (reportVerifier pk a.keychain.toOption.join).checkpoint C c = .ok ())) := by
  unfold checkpointStep at h
  cases hckpt : a.checkpoint with
  | error =>
    rw [hckpt] at h
    cases h
    exact ⟨rfl, rfl, r.status.rank_le_two, fun hpass => (by cases hpass),
      fun _ => by simp [Report.fail]⟩
  | ok o =>
    rw [hckpt] at h
    cases o with
    | none =>
      cases h
      exact ⟨rfl, rfl, pickStatus_rank _ _, fun hpass => absurd hpass (pickStatus_warn_ne_pass _),
        fun hr => by simp [Report.warn, hr]⟩
    | some c =>
      simp only [bind_ok] at h
      obtain ⟨summary, hsummary, h⟩ := h
      obtain ⟨hsize, hverified⟩ := summarizeCheckpoint_ok hsummary
      rw [show (⟨pk.origin, pk.rootPublicKey, a.keychain.toOption.join, none, 0, none⟩ :
        Verifier) = reportVerifier pk a.keychain.toOption.join from rfl] at hverified
      by_cases hv : summary.verified = true
      · rw [if_pos hv, pure_ok] at h
        subst h
        exact ⟨rfl, rfl, Nat.le_refl _, fun _ => ⟨c, rfl, hv, hsize⟩,
          fun _ => by simpa using hverified⟩
      · rw [if_neg hv, pure_ok] at h
        subst h
        exact ⟨rfl, rfl, r.status.rank_le_two, fun hpass => (by cases hpass),
          fun _ => by simpa [Report.fail] using hverified⟩

lemma sizeStep_frame (a : Answers) (r : Report) : (sizeStep a r).chain = r.chain ∧
    (sizeStep a r).latestCheckpoint = r.latestCheckpoint := by
  unfold sizeStep
  split
  · exact ⟨rfl, rfl⟩
  · split <;> exact ⟨rfl, rfl⟩

lemma reportSamples_frame (samples : List InclusionSample) (r : Report) :
    (samples.foldl reportSample r).chain = r.chain ∧
      (samples.foldl reportSample r).latestCheckpoint = r.latestCheckpoint ∧
      (samples.foldl reportSample r).status =
        if ∀ s ∈ samples, s.verified = true then r.status else .fail := by
  induction samples generalizing r with
  | nil => simp
  | cons s samples ih =>
    obtain ⟨hchain, hckpt, hstatus⟩ := ih (reportSample r s)
    rw [foldl_cons, hchain, hckpt, hstatus]
    by_cases hs : s.verified = true
    · simp [reportSample, hs]
    · simp [reportSample, hs, Report.fail]

variable {cfg : Config}

lemma samplesStep_frame (h : samplesStep P a cfg r = .ok r') :
    r'.chain = r.chain ∧ r'.latestCheckpoint = r.latestCheckpoint := by
  unfold samplesStep at h
  split at h
  · simp only [bind_ok, pure_ok] at h
    obtain ⟨c, -, samples, -, rfl⟩ := h
    obtain ⟨hchain, hckpt, -⟩ := reportSamples_frame samples { r with samples := samples }
    exact ⟨hchain, hckpt⟩
  · cases h
    exact ⟨rfl, rfl⟩

lemma run_verified_iff (h : run C P cfg a = .ok r) (hpk : a.pubkey = .ok pk) :
    (r.chain.verified = true ↔
      ∃ ch, a.keychain = .ok (some ch) ∧ ch.verifyChain C pk.rootPublicKey = .ok ()) ∧
    (r.latestCheckpoint.verified = true ↔ ∃ c, a.checkpoint = .ok (some c) ∧
      (reportVerifier pk a.keychain.toOption.join).checkpoint C c = .ok ()) := by
  unfold run at h
  split at h
  · cases h
  · rw [hpk] at h
    simp only [bind_ok] at h
    obtain ⟨r1, hchain, r2, hckpt, h⟩ := h
    obtain ⟨hframe1, -, -, -, hverified⟩ := chainStep_ok hchain
    rw [anchorStep_frame] at hframe1
    obtain ⟨hframe2, -, -, -, hverified2⟩ := checkpointStep_ok hckpt
    obtain ⟨hsize1, hsize2⟩ := sizeStep_frame a r2
    obtain ⟨hsamples1, hsamples2⟩ := samplesStep_frame h
    rw [hsamples1, hsize1, hframe2, hsamples2, hsize2]
    exact ⟨hverified, hverified2 (by rw [hframe1])⟩

/-! ## Answers that pass -/

structure Passing (C : Crypto) (a : Answers) (pk : PubKeyResponse) (ch : Chain) (c : Checkpoint) :
    Prop where
  pubkey : a.pubkey = .ok pk
  keychain : a.keychain = .ok (some ch)
  chain : ch.verifyChain C pk.rootPublicKey = .ok ()
  checkpoint : a.checkpoint = .ok (some c)
  witnesses : none ∉ c.witnesses
  accepted : (reportVerifier pk (some ch)).checkpoint C c = .ok ()
  size : ∃ n, a.size = .ok n ∧ c.size ≤ n
  fits : c.size < 2 ^ 63

lemma verified_certs {ch : Chain} (h : ch.verifyChain C root = .ok ()) :
    none ∉ ch.certs ∧ ∃ epoch, ch.activeEpoch = .ok epoch := by
  obtain ⟨genesis, rest, hacc⟩ := Chain.verifyChainWith_ok.mp h
  have hlast : ch.certs.getLast? =
      some (some ((genesis :: rest).getLast (cons_ne_nil _ _))) := by
    rw [hacc.certs, getLast?_map, getLast?_eq_some_getLast (cons_ne_nil _ _)]
    rfl
  refine ⟨by rw [hacc.certs]; simp, ((genesis :: rest).getLast (cons_ne_nil _ _)).epoch, ?_⟩
  rw [Chain.activeEpoch, hlast]

variable {ch : Chain} {c : Checkpoint} (h : Passing C a pk ch c)

section
include h

lemma Passing.chainStep_eq (r : Report) :
    ∃ summary, chainStep C a pk r = .ok { r with chain := summary } := by
  obtain ⟨hcerts, epoch, hepoch⟩ := verified_certs h.chain
  obtain ⟨certs, hcerts⟩ := mapM_deref hcerts
  simp only [chainStep, h.keychain, summarizeChain, hepoch, h.chain, hcerts, ok_bind, if_true]
  exact ⟨_, rfl⟩

lemma Passing.checkpointStep_eq (r : Report) :
    ∃ summary, checkpointStep C a pk r =
        .ok { r with latestCheckpoint := summary, size := c.size } ∧ summary.size = c.size := by
  obtain ⟨ws, hws⟩ := mapM_deref h.witnesses
  have haccepted : (⟨pk.origin, pk.rootPublicKey, (a.keychain.toOption).join, none, 0, none⟩ :
      Verifier).checkpoint C c = .ok () := by
    rw [h.keychain]
    exact h.accepted
  simp only [checkpointStep, h.checkpoint, summarizeCheckpoint, hws, haccepted, ok_bind, if_true]
  exact ⟨_, rfl, rfl⟩

lemma Passing.sizeStep_eq {r : Report} (hr : r.latestCheckpoint.size = c.size) :
    sizeStep a r = r := by
  obtain ⟨n, hn, hle⟩ := h.size
  simp only [sizeStep, hn, hr]
  rw [if_neg (by omega)]

omit h in
lemma sampleCount_pos {sampleN : Int} {size : Nat} (hN : 0 < sampleN) (hsize : 0 < size)
    (hfits : size < 2 ^ 63) : 0 < sampleCount sampleN size := by
  have hint : Int.bmod (size : Int) (2 ^ 64) = size := by
    rw [Int.bmod_eq_of_le_mul_two (by omega) (by omega)]
  simp only [sampleCount, hint]
  split <;> omega

lemma Passing.run_ok {cfg : Config} (hurl : cfg.operatorURL ≠ []) :
    ∃ r samples, run C P cfg a = .ok r ∧
      (if 0 < cfg.sampleN ∧ 0 < c.size then
        sampleInclusion P a cfg c.size c.rootHash = .ok samples else samples = []) ∧
      r.status = if ∀ s ∈ samples, s.verified = true
        then (anchorStep C cfg pk { origin := pk.origin }).status else .fail := by
  obtain ⟨chain, hchain⟩ := h.chainStep_eq (anchorStep C cfg pk { origin := pk.origin })
  obtain ⟨ckpt, hckpt, hsize⟩ := h.checkpointStep_eq
    { anchorStep C cfg pk { origin := pk.origin } with chain := chain }
  have hregression := h.sizeStep_eq (r := { anchorStep C cfg pk { origin := pk.origin } with
    chain := chain, latestCheckpoint := ckpt, size := c.size }) hsize
  simp only [run, if_neg hurl, h.pubkey, hchain, hckpt, ok_bind, hregression, samplesStep, hsize]
  by_cases hsamples : 0 < cfg.sampleN ∧ 0 < c.size
  · have hpos := sampleCount_pos hsamples.1 hsamples.2 h.fits
    have hsample : ∃ samples, sampleInclusion P a cfg c.size c.rootHash = .ok samples := by
      simp only [sampleInclusion]
      rw [if_neg (by omega), if_neg (by omega)]
      exact ⟨_, rfl⟩
    obtain ⟨samples, hsample⟩ := hsample
    have hderef : deref a.checkpoint.toOption.join = .ok c := by
      rw [h.checkpoint]
      rfl
    simp only [if_pos hsamples, hderef, ok_bind, hsample]
    exact ⟨_, samples, rfl, rfl, (reportSamples_frame samples _).2.2⟩
  · simp only [if_neg hsamples]
    exact ⟨_, [], rfl, rfl, by simp⟩

end

lemma anchorStep_pass (hroot : cfg.rootPublicKey = some pk.rootPublicKey)
    (hsource : cfg.trustAnchorSource ≠ []) : (anchorStep C cfg pk r).status = r.status := by
  simp [anchorStep, checkTrustAnchor, hroot, hsource]

lemma mem_sampleLoop {size step : Nat} {n i : Nat} {s : InclusionSample}
    (h : s ∈ sampleLoop P a size step root n i) : ∃ j < size, s = sampleOne P a size root j := by
  induction n generalizing i with
  | zero => cases h
  | succ n ih =>
    rw [sampleLoop] at h
    split at h
    · rename_i hlt
      rcases mem_cons.mp h with rfl | h
      · exact ⟨i, hlt, rfl⟩
      · exact ih h
    · cases h

section
variable (hurl : cfg.operatorURL ≠ []) (hroot : cfg.rootPublicKey = some pk.rootPublicKey)
  (hsource : cfg.trustAnchorSource ≠ [])
include h hurl hroot hsource

lemma Passing.run_pass
    (hsample : ∀ i < c.size, (sampleOne P a c.size c.rootHash i).verified = true) :
    ∃ r, run C P cfg a = .ok r ∧ r.status = .pass := by
  obtain ⟨r, samples, hrun, hsamples, hstatus⟩ := h.run_ok (P := P) hurl
  refine ⟨r, hrun, ?_⟩
  have hall : ∀ s ∈ samples, s.verified = true := by
    intro s hs
    split at hsamples
    · simp only [sampleInclusion] at hsamples
      split at hsamples
      · cases hsamples
      · split at hsamples
        · cases hsamples
        · cases hsamples
          obtain ⟨j, hj, rfl⟩ := mem_sampleLoop hs
          exact hsample j hj
    · rw [hsamples] at hs
      cases hs
  rw [hstatus, if_pos hall, anchorStep_pass hroot hsource]

omit hroot hsource in
/-- **FAIL**, when samples are asked for and the proof of the first entry does not verify. -/
theorem Passing.run_fail (hN : 0 < cfg.sampleN) (hpos : 0 < c.size)
    (hsample : (sampleOne P a c.size c.rootHash 0).verified = false) :
    ∃ r, run C P cfg a = .ok r ∧ r.status = .fail := by
  obtain ⟨r, samples, hrun, hsamples, hstatus⟩ := h.run_ok (P := P) hurl
  refine ⟨r, hrun, ?_⟩
  have hcount := sampleCount_pos hN hpos h.fits
  obtain ⟨m, hm⟩ : ∃ m, (sampleCount cfg.sampleN c.size).toNat = m + 1 :=
    ⟨(sampleCount cfg.sampleN c.size).toNat - 1, by omega⟩
  rw [if_pos ⟨hN, hpos⟩, sampleInclusion] at hsamples
  simp only at hsamples
  rw [if_neg (by omega), if_neg (by omega), hm, sampleLoop, if_pos hpos] at hsamples
  cases hsamples
  rw [hstatus, if_neg]
  intro hall
  have hfirst := hall _ mem_cons_self
  rw [hsample] at hfirst
  cases hfirst

end

end Stele.Audit
