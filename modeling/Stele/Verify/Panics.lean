import Stele.Audit.Verdict
import Stele.Mirror.Sync
import Stele.Threshold.Digest

/-!
# Verifying what hostile JSON decodes to

Go decodes `null` in a list to a nil pointer, a missing list to an empty one, and keys and sizes to
whatever was sent. The length of a key is compared before `ed25519.Verify` can panic on it, and a
nil signature of a member is skipped. A nil member, certificate, witness signature or entry is
dereferenced.
-/

namespace Stele

open Lib

variable {C : Crypto}

lemma not_nil_cons {α : Type} {o : Option α} {l : List (Option α)} (h : none ∉ o :: l) :
    (∃ a, o = some a) ∧ none ∉ l := by
  cases o <;> simp_all

lemma exists_map_some {α : Type} {l : List (Option α)} (h : none ∉ l) :
    ∃ xs : List α, l = xs.map some := by
  induction l with
  | nil => exact ⟨[], rfl⟩
  | cons o l ih =>
    obtain ⟨⟨a, rfl⟩, hl⟩ := not_nil_cons h
    obtain ⟨xs, rfl⟩ := ih hl
    exact ⟨a :: xs, rfl⟩

variable {group : Option Group}

namespace Group

def NoNil (group : Option Group) : Prop := ∀ g ∈ group, none ∉ g.members

lemma noNil_none : NoNil none := fun _ h => by cases h

lemma noPanic_validateMembers {seenID seenPub : List Bytes} {ms : List (Option Member)}
    (h : none ∉ ms) : NoPanic (validateMembers seenID seenPub ms) := by
  induction ms generalizing seenID seenPub with
  | nil => exact noPanic_ok ()
  | cons o ms ih =>
    obtain ⟨⟨m, rfl⟩, hms⟩ := not_nil_cons h
    simp [validateMembers, ih hms]

variable (h : NoNil group)
include h

lemma noPanic_validate : NoPanic (validate group) := by
  cases group with
  | none => exact noPanic_errorf _ _
  | some g => simp [validate, noPanic_validateMembers (h g rfl)]

lemma noPanic_digest {g : Group} (hg : group = some g) : NoPanic (g.digest C) := by
  obtain ⟨ms, hms⟩ := exists_map_some (h g hg)
  rw [digest, canonical, hms, WellFormed.mapM_some]
  exact noPanic_ok _

lemma noPanic_verifyMulti (msg : Bytes) (sigs : List (Option MemberSig)) :
    NoPanic (verifyMulti C group msg sigs) := by
  unfold verifyMulti
  simp only [noPanic_bind, noPanic_wrapErr, wrapErr_ok]
  refine ⟨noPanic_validate h, fun _ hval => ?_⟩
  cases group with
  | none => exact noPanic_ok ()
  | some g =>
    obtain ⟨ms, hg⟩ := validate_ok.mp hval
    obtain ⟨⟨_, _, reject⟩, ht, -⟩ : ∃ t, tallySigs C g msg {} sigs = .ok t ∧ _ :=
      tallySigs_ok hg {} sigs
    simp only [ht, ok_bind]
    cases reject <;> simp

end Group

section
variable (hgroup : Group.NoNil group)
include hgroup

lemma RotationCert.noPanic_verifyWithGroup (c : RotationCert) :
    NoPanic (c.verifyWithGroup C group) := by
  unfold verifyWithGroup
  split
  · simp +contextual [verify, verifyQuantumCert]
  · cases group with
    | none => exact noPanic_errorf _ _
    | some => simp [Group.noPanic_digest hgroup rfl, Group.noPanic_verifyMulti hgroup]

lemma Chain.noPanic_verifyCert (c : RotationCert) : NoPanic (verifyCert C group c) := by
  unfold verifyCert
  split
  · simp [c.noPanic_verifyWithGroup hgroup]
  · simp +contextual [RotationCert.verify, RotationCert.verifyQuantumCert]

omit hgroup in
lemma Chain.noPanic_verifyLink (prev : Option RotationCert) (c : RotationCert) :
    NoPanic (verifyLink prev c) := by
  cases prev <;> simp [verifyLink]

lemma Chain.noPanic_verifyCerts {prev : Option RotationCert} {certs : List (Option RotationCert)}
    (h : none ∉ certs) : NoPanic (verifyCerts C group prev certs) := by
  induction certs generalizing prev with
  | nil => exact noPanic_ok ()
  | cons o certs ih =>
    obtain ⟨⟨c, rfl⟩, hcerts⟩ := not_nil_cons h
    simp [verifyCerts, noPanic_verifyCert hgroup, noPanic_verifyLink, ih hcerts]

lemma Chain.noPanic_verifyChainWith {ch : Chain} (h : none ∉ ch.certs) (rootPub : Bytes) :
    NoPanic (ch.verifyChainWith C rootPub group) := by
  unfold verifyChainWith
  split
  · exact noPanic_errorf _ _
  · simp_all
  · simp [noPanic_verifyCerts hgroup h]

end

lemma Chain.publicKeyAt_length {ch : Chain} {rootPub pub : Bytes} {i : Nat}
    (h : ch.verifyChain C rootPub = .ok ()) (hpub : ch.publicKeyAt i = .ok (some pub)) :
    pub.length = edPublicKeySize := by
  obtain ⟨genesis, rest, hacc⟩ := verifyChainWith_ok.mp h
  rw [hacc.publicKeyAt_eq, Except.ok.injEq, Option.map_eq_some_iff] at hpub
  obtain ⟨c, hc, rfl⟩ := hpub
  rcases hacc.linked.verified (List.mem_of_getElem? hc) with hsingle | hgrouped
  · exact hsingle.publicKey_length
  · obtain ⟨g, d, hg, -⟩ := hgrouped.digest
    cases hg

lemma Chain.noPanic_certAt {certs : List (Option RotationCert)} (h : none ∉ certs) (i : Nat) :
    NoPanic (certAt i certs) := by
  induction certs with
  | nil => exact noPanic_ok _
  | cons o certs ih =>
    obtain ⟨⟨c, rfl⟩, hcerts⟩ := not_nil_cons h
    rw [certAt]
    split
    · exact noPanic_ok _
    · exact ih hcerts

def Chain.NoNil (chain : Option Chain) : Prop := ∀ ch ∈ chain, none ∉ ch.certs

lemma Checkpoint.noPanic_verify {chain : Option Chain} {group : Option Group}
    (hchain : Chain.NoNil chain) (hgroup : Group.NoNil group) (c : Checkpoint) (rootPub : Bytes) :
    NoPanic (c.verify C chain rootPub group) := by
  unfold verify
  split
  · cases group with
    | none => exact noPanic_errorf _ _
    | some =>
      simp [verifyGroup, Group.noPanic_validate hgroup, Group.noPanic_digest hgroup rfl,
        Group.noPanic_verifyMulti hgroup]
  · cases chain with
    | none => exact noPanic_errorf _ _
    | some ch =>
      have hcerts := hchain ch rfl
      simp only [verifySingle, noPanic_bind, noPanic_wrapErr, wrapErr_ok]
      refine ⟨Chain.noPanic_verifyChainWith Group.noNil_none hcerts rootPub,
        fun _ hver => ⟨?_, fun pub hpub => ?_⟩⟩
      · simp [Chain.publicKeyAt, Chain.noPanic_certAt hcerts]
      · cases pub with
        | none => exact noPanic_throw _ _
        | some =>
          simp only [noPanic_bind, noPanic_ensure, Crypto.noPanic_checkEd, true_and]
          refine fun _ _ => ⟨Chain.publicKeyAt_length hver hpub, fun _ _ => ⟨?_, fun qpub _ => ?_⟩⟩
          · simp [Chain.quantumPublicKeyAt, Chain.noPanic_certAt hcerts]
          · unfold verifyQuantumHalf
            split <;> simp [verifyQuantumCheckpoint]

lemma noPanic_checkEntries {i : Nat} {prev : Option Entry} {entries : List (Option Entry)}
    (h : none ∉ entries) : NoPanic (checkEntries C i prev entries) := by
  induction entries generalizing i prev with
  | nil => exact noPanic_ok ()
  | cons o entries ih =>
    obtain ⟨⟨e, rfl⟩, hentries⟩ := not_nil_cons h
    simp [checkEntries, e.noPanic_verify, e.noPanic_verifyChain, ih hentries]

/-! ## The mirror -/

lemma Db.noPanic_appendEntry (fault : Option Err) (e : Entry) (db : Db) :
    NoPanic (db.appendEntry fault e).2 := by
  have hsize : NoPanic db.readSize := by
    unfold readSize
    split <;> simp
  have hhead : NoPanic db.readHead := by
    unfold readHead headVal
    split
    · exact noPanic_ok _
    · split <;> simp
  have htxn : NoPanic (appendEntryTxn e db) := by simp [appendEntryTxn, hsize, hhead]
  unfold appendEntry update
  split
  · exact noPanic_errorf _ _
  · cases fault with
    | some err => exact noPanic_err err
    | none =>
      cases h : appendEntryTxn e db with
      | ok => exact noPanic_ok ()
      | error => exact fun w hw => htxn w (by rw [h]; exact congrArg _ (Except.error.inj hw))

namespace Mirror

lemma noPanic_acceptEntry (fault : Option Err) (e : Entry) (db : Db) (m : Proc) :
    NoPanic (acceptEntry C fault e db m).2.2 := by
  have hchecks : NoPanic (do e.verify C; e.verifyChain m.prev) := by
    simp [e.noPanic_verify, e.noPanic_verifyChain]
  have hstore := Db.noPanic_appendEntry fault e db
  unfold acceptEntry
  split
  · rename_i f hf
    exact hf ▸ hchecks
  · split
    · rename_i hf
      rwa [hf] at hstore
    · exact noPanic_ok ()

lemma noPanic_acceptEntries {fault : Nat → Option Err} {j : Nat} {es : List (Option Entry)}
    (h : none ∉ es) (db : Db) (m : Proc) : NoPanic (acceptEntries C fault j es db m).2.2 := by
  induction es generalizing j db m with
  | nil => exact noPanic_ok ()
  | cons o es ih =>
    obtain ⟨⟨e, rfl⟩, hes⟩ := not_nil_cons h
    have hone := noPanic_acceptEntry (C := C) (fault j) e db m
    rw [acceptEntries]
    split
    · rename_i f hf
      rw [hf] at hone
      exact (noPanic_wrapErr (x := (.error f : Res Unit))).mpr hone
    · exact ih hes _ _

lemma noPanic_syncLoop {cfg : Config} {a : Answers} (h : ∀ k es, a.entries k = .ok es → none ∉ es)
    {upstreamSize fuel k start : Nat} {db : Db} {m : Proc} {out : Db × Proc × Res Unit}
    (hout : syncLoop C cfg a upstreamSize fuel k start db m = some out) : NoPanic out.2.2 := by
  induction fuel generalizing k start db m with
  | zero =>
    rw [syncLoop] at hout
    split at hout
    · cases hout
    · cases hout
      exact noPanic_ok ()
  | succ fuel ih =>
    rw [syncLoop] at hout
    split at hout
    · split at hout
      · cases hout
        exact noPanic_err _
      · rename_i es hes
        have hacc : NoPanic (acceptEntries C (a.fault k) 0 es db m).2.2 :=
          noPanic_acceptEntries (h k es hes) db m
        split at hout
        · rename_i hf
          cases hout
          exact hf ▸ hacc
        · exact ih hout
    · cases hout
      exact noPanic_ok ()

lemma noPanic_syncOnce {cfg : Config} {a : Answers}
    (h : ∀ k es, a.entries k = .ok es → none ∉ es) {fuel : Nat} {db : Db} {m : Proc}
    {out : Db × Proc × Res Unit} (hout : syncOnce C cfg a fuel db m = some out) :
    NoPanic out.2.2 := by
  unfold syncOnce at hout
  split at hout
  · cases hout
    exact noPanic_err _
  · split at hout
    · cases hout
      exact noPanic_ok ()
    · exact noPanic_syncLoop h hout

end Mirror

/-! ## The audit -/

namespace Audit

open Cmd

lemma noPanic_summarizeChain {chain : Option Chain} (h : Chain.NoNil chain) (root : Bytes) :
    NoPanic (summarizeChain C chain root) := by
  cases chain with
  | none => exact noPanic_ok _
  | some ch =>
    have hcerts := h ch rfl
    have hactive : NoPanic ch.activeEpoch := by
      unfold Chain.activeEpoch
      split
      · exact noPanic_ok _
      · exact absurd (List.mem_of_getLast? ‹_›) hcerts
      · exact noPanic_ok _
    have hverify : NoPanic (ch.verifyChain C root) :=
      Chain.noPanic_verifyChainWith Group.noNil_none hcerts root
    obtain ⟨certs, hmap⟩ := mapM_deref hcerts
    simp only [summarizeChain, noPanic_bind, hmap]
    refine ⟨hactive, fun _ _ => ?_⟩
    split
    · exact absurd ‹_› (hverify _)
    · exact noPanic_ok _
    · exact noPanic_ok _

lemma noPanic_summarizeCheckpoint {c : Checkpoint} {v : Verifier} (hws : none ∉ c.witnesses)
    (hv : NoPanic (v.checkpoint C c)) : NoPanic (summarizeCheckpoint C c v) := by
  obtain ⟨ws, hmap⟩ := mapM_deref hws
  simp only [summarizeCheckpoint, hmap, ok_bind]
  split
  · exact absurd ‹_› (hv _)
  · exact noPanic_ok _
  · exact noPanic_ok _

/-- The chain and the checkpoint that an audit reads have no nil in their lists, and the size of the
checkpoint is an `int`. -/
structure Sane (a : Answers) : Prop where
  certs : Chain.NoNil a.keychain.toOption.join
  witnesses : ∀ c, a.checkpoint = .ok (some c) → none ∉ c.witnesses
  size : ∀ c, a.checkpoint = .ok (some c) → c.size < 2 ^ 63

section
variable {P : ProofImpl Bytes} {a : Answers} (h : Sane a) (pk : PubKeyResponse) (r : Report)
include h

lemma noPanic_chainStep : NoPanic (chainStep C a pk r) := by
  have hcerts := h.certs
  unfold chainStep
  cases hchain : a.keychain with
  | error => exact noPanic_ok _
  | ok =>
    rw [hchain] at hcerts
    refine noPanic_bind.mpr ⟨noPanic_summarizeChain hcerts _, fun summary _ => ?_⟩
    split <;> exact noPanic_ok _

lemma noPanic_checkpointStep : NoPanic (checkpointStep C a pk r) := by
  unfold checkpointStep
  split
  · exact noPanic_ok _
  · exact noPanic_ok _
  · rename_i c hc
    simp only [noPanic_bind]
    refine ⟨noPanic_summarizeCheckpoint (h.witnesses c hc) ?_, fun summary _ => ?_⟩
    · simp [Verifier.checkpoint, c.noPanic_verify h.certs Group.noNil_none]
    · split <;> exact noPanic_ok _

omit h in
lemma checkpointStep_size {r' : Report} (hr : r.latestCheckpoint.size = 0)
    (hok : checkpointStep C a pk r = .ok r') (hpos : 0 < r'.latestCheckpoint.size) :
    ∃ c, a.checkpoint = .ok (some c) ∧ r'.latestCheckpoint.size = c.size := by
  unfold checkpointStep at hok
  split at hok
  · cases hok
    cases hpos
  · cases hok
    exact absurd hr (Nat.ne_of_gt hpos)
  · rename_i c hc
    simp only [bind_ok] at hok
    obtain ⟨summary, hsummary, hok⟩ := hok
    refine ⟨c, hc, ?_⟩
    split at hok <;>
    · cases hok
      exact (summarizeCheckpoint_ok hsummary).1

lemma noPanic_samplesStep {cfg : Config} (hr : 0 < r.latestCheckpoint.size →
    ∃ c, a.checkpoint = .ok (some c) ∧ r.latestCheckpoint.size = c.size) :
    NoPanic (samplesStep P a cfg r) := by
  unfold samplesStep
  split
  · rename_i hasked
    obtain ⟨c, hc, hsize⟩ := hr hasked.2
    have hcount := sampleCount_pos hasked.1 hasked.2 (hsize ▸ h.size c hc)
    simp only [hc, Except.toOption, Option.join_some, deref, ok_bind, sampleInclusion]
    rw [if_neg (by omega), if_neg (by omega)]
    exact noPanic_ok _
  · exact noPanic_ok _

lemma noPanic_run (cfg : Config) : NoPanic (run C P cfg a) := by
  unfold run
  split
  · exact noPanic_errorf _ _
  · split
    · exact noPanic_ok _
    · simp only [noPanic_bind]
      refine ⟨noPanic_chainStep h _ _, fun r hchain => ⟨noPanic_checkpointStep h _ _,
        fun r' hckpt => noPanic_samplesStep h _ ?_⟩⟩
      rw [(sizeStep_frame a r').2]
      refine checkpointStep_size _ _ ?_ hckpt
      rw [(chainStep_ok hchain).1, anchorStep_frame]

end

end Audit

def hugeCheckpoint : Cmd.Answers where
  pubkey := .ok ⟨[], []⟩
  keychain := .ok none
  thresholdGroup := .ok none
  checkpoint := .ok (some ⟨[], 2 ^ 63, [], [], 0, 0, [], none, [], [], [], [], []⟩)
  size := .ok 0
  entries _ _ := .ok []
  entry _ := .ok none
  sampleEntry _ := .error (.errorf "" [])
  inclusion _ _ := .error (.errorf "" [])

lemma Audit.samplesStep_huge {P : ProofImpl Bytes} {cfg : Config} (hN : cfg.sampleN = 1)
    {r : Report} (hsize : r.latestCheckpoint.size = 2 ^ 63) :
    ¬NoPanic (samplesStep P hugeCheckpoint cfg r) := by
  have hcount : sampleCount cfg.sampleN (2 ^ 63) < 0 := by
    rw [hN]
    decide +kernel
  rw [samplesStep, if_pos (by omega), hsize]
  simp only [hugeCheckpoint, Except.toOption, Option.join_some, Cmd.deref, ok_bind,
    sampleInclusion, if_pos hcount]
  exact not_noPanic _

lemma Audit.run_huge (C : Crypto) (P : ProofImpl Bytes) :
    ¬NoPanic (run C P { operatorURL := [1], sampleN := 1 } hugeCheckpoint) := by
  have hchain (r : Report) : ∃ r', chainStep C hugeCheckpoint ⟨[], []⟩ r = .ok r' := ⟨_, rfl⟩
  have hckpt (r : Report) : ∃ r', checkpointStep C hugeCheckpoint ⟨[], []⟩ r = .ok r' ∧
      r'.latestCheckpoint.size = 2 ^ 63 := ⟨_, rfl, rfl⟩
  have hpk : hugeCheckpoint.pubkey = .ok ⟨[], []⟩ := rfl
  simp only [run, hpk, reduceCtorEq, if_false]
  obtain ⟨r, hr⟩ := hchain (anchorStep C { operatorURL := [1], sampleN := 1 } ⟨[], []⟩ {})
  obtain ⟨r', hr', hsize⟩ := hckpt r
  rw [hr, ok_bind, hr', ok_bind]
  exact samplesStep_huge rfl (by rw [(sizeStep_frame _ r').2, hsize])

end Stele
