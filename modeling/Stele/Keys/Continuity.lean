import Stele.Keys.Checkpoints
import Stele.Keys.Disk

/-!
# Checkpoints stay verifiable

Over the whole life of a log, with any number of rotations and restarts, `chain.json` is only ever
extended, so every checkpoint that was ever returned verifies with every later chain
(`checkpoints_stay_verifiable`). The runs are those of a file-backed signer in one key mode, without
I/O errors and with a clock that does not go back.
-/

namespace Stele.Keys

open Lib Prog List

def Calm (C : Crypto) : Op → World → Choice → Prop
  | .edKey, w, r => r.err = none ∧ C.edPublic r.edKey ∉ w.made.map Prod.fst
  | .generateKeyPair label, w, r =>
    r.err = none ∧ C.edPublic r.edKey ∉ w.made.map Prod.fst ∧ label ∉ w.labels
  | .unixNano, w, r => r.err = none ∧ w.clock ≤ r.now
  | _, _, r => r.err = none

instance (C : Crypto) (op : Op) (w : World) (r : Choice) : Decidable (Calm C op w r) := by
  apply op.casesOn (motive := fun op => Decidable (Calm C op w r)) <;> intros <;>
    simp only [Calm] <;> infer_instance

/-- A run of a file-backed signer in one key mode: no call fails or is cut off. -/
def Orderly (C : Crypto) (dir : Bytes) (hybrid : Bool) (sys : Sys) (a : Action) : Prop :=
  Admitted C dir (Calm C) sys a ∧ Completes C dir sys a ∧
    match a with
    | .start _ st r _ => st = .file dir hybrid ∧ r = none
    | _ => True

instance (C : Crypto) (dir : Bytes) (hybrid : Bool) (sys : Sys) :
    (a : Action) → Decidable (Orderly C dir hybrid sys a)
  | .start .. | .rotate .. | .checkpoint .. => by simp only [Orderly]; infer_instance

def LiveKey.BesideChain (dir : Bytes) : LiveKey → Prop
  | .file k => k.path ≠ chainPath dir
  | .hsm _ => False

section
variable {C : Crypto} {dir : Bytes} {hybrid : Bool} {sys : Sys}
  {ok : Op → World → Choice → Prop} {w : World}

lemma Calm.err {op : Op} {r : Choice} (h : Calm C op w r) : r.err = none := by
  cases op <;> first | exact h.1 | exact h

lemma Calm.not_fails (op : Op) : ¬ Fails (Calm C) op := by
  rintro ⟨w, r, hr, herr⟩
  exact herr hr.err

lemma Calm.env : Env C (Calm C) True False where
  edKey _ _ hr := hr.2
  keyPair _ _ _ hr := hr.2
  clock _ _ _ hr := hr.2
  noise := .inr ⟨id, fun _ => Calm.not_fails _⟩

variable {s : Signer}

lemma Calm.rotateEnv (hstore : s.store = .file dir hybrid) (hsingle : s.threshRotator = none)
    (hquant : hybrid = true → ∀ c, some c ∈ s.chain.certs → c.quantumPublicKey ≠ []) :
    RotateEnv C (Calm C) none (hybrid = true) True s where
  started _ _ _ _ _ := .inl trivial
  hybrid hq := ⟨dir, hq ▸ hstore⟩
  quantum dir' last hfile _ hlast := by
    rw [hstore] at hfile
    cases hfile
    exact hquant rfl last (mem_of_getLast? hlast)
  quorum g hg := by
    rw [hsingle] at hg
    cases hg
  destroyed k _ := Calm.not_fails _

variable {w' : World} {ch : Chain}

lemma reads_good {group : Option Group} {quant clocked : Prop}
    (hgood : Good C group quant clocked w ch)
    (hfile : w'.files (chainPath dir) = some (.doc ch.toJson)) :
    ∃ ch', Reads dir w' ch' ∧ ch'.certs = ch.certs :=
  ⟨ch.crossed, ⟨_, hfile, Chain.ofJson_toJson ch⟩, hgood.read⟩

lemma Reads.of_file (h : Reads dir w ch)
    (heq : w'.files (chainPath dir) = w.files (chainPath dir)) : Reads dir w' ch := by
  obtain ⟨j, hfile, hparse⟩ := h
  exact ⟨j, heq.trans hfile, hparse⟩

lemma destroy_chain {key : LiveKey} {res : LiveKey × Option Err} (hkey : key.BesideChain dir)
    (h : DestroyDone ok key w res w') :
    w'.files (chainPath dir) = w.files (chainPath dir) ∧ res.1.BesideChain dir := by
  cases key with
  | file =>
    obtain ⟨key', err⟩ := res
    obtain ⟨rfl, hdone⟩ := h
    exact ⟨hdone.touched _ (Ne.symm hkey), hkey⟩
  | hsm => exact hkey.elim

lemma Reopened.besideChain {origin : Bytes} {chain : Chain} {active : LiveKey}
    (h : Reopened C origin dir (.file dir hybrid) w chain active) : active.BesideChain dir := by
  obtain ⟨raw, priv, qPriv, hfile, -, rfl⟩ := h.load
  obtain ⟨j, hchain, -⟩ := h.read
  intro heq
  have heq : chain.activeLocator = chainPath dir := heq
  rw [heq, hchain] at hfile
  cases hfile

variable (C dir hybrid) in
/-- The invariant: the chain on disk vouches for everything that was ever returned, and it is the
running signer's chain. -/
structure ContinuityInv (sys : Sys) : Prop where
  sound : Sound C none (hybrid = true) True sys
  signer : ∀ s, sys.signer = some s → s.dir = dir ∧ s.store = .file dir hybrid ∧
    s.threshRotator = none ∧ ∀ key, s.active = some key → key.BesideChain dir
  chain : (sys.world.files (chainPath dir) = none ∧ sys.signer = none ∧ sys.issued = []) ∨
    ∃ ch, Reads dir sys.world ch ∧ (∀ x ∈ sys.issued, Vouches C ch x.1 x.2) ∧
      ∀ s, sys.signer = some s → s.chain.certs = ch.certs

lemma ContinuityInv.stopped (h : ContinuityInv C dir hybrid sys)
    (hfile : w.files (chainPath dir) = sys.world.files (chainPath dir))
    (hsound : Sound C none (hybrid = true) True { sys with world := w, signer := none }) :
    ContinuityInv C dir hybrid { sys with world := w, signer := none } where
  sound := hsound
  signer s hs := by cases hs
  chain := by
    rcases h.chain with ⟨habsent, -, hnone⟩ | ⟨ch, hreads, hissued, -⟩
    · exact .inl ⟨hfile.trans habsent, rfl, hnone⟩
    · exact .inr ⟨ch, hreads.of_file hfile, hissued, nofun⟩

variable {rs : List Choice}

lemma ContinuityInv.start (hC : Correct C) (h : ContinuityInv C dir hybrid sys) {origin : Bytes}
    (ha : Orderly C dir hybrid sys (.start origin (.file dir hybrid) none rs)) :
    ContinuityInv C dir hybrid (step C dir sys (.start origin (.file dir hybrid) none rs)) := by
  obtain ⟨hadm, hend, -⟩ := ha
  obtain ⟨hsound, hsame⟩ := h.sound.start hC Calm.env (fun hq => ⟨dir, hq ▸ rfl⟩) hadm (.inr hend)
  rcases start_cases hadm with ⟨op, w, hdies, -, -⟩ | ⟨e, w, hdone, heq⟩ | ⟨s, w, hdone, heq⟩
  · exact absurd hdies (hend.not_dies op)
  · rw [heq] at hsound ⊢
    refine h.stopped ?_ hsound
    rcases hdone.files with hun | ⟨chain, active, res, hopen, -, hdestroy⟩
    · exact hun.chain
    · exact (destroy_chain hopen.besideChain hdestroy).1
  · rw [heq] at hsound hsame ⊢
    have hgood := (hsound.signer _ rfl).good
    cases hdone with
    | founded hfound =>
      rename_i active cert now w1
      obtain ⟨priv, qPriv, path, rfl, hdraft, hpub⟩ := hfound.published origin
      have hissued : sys.issued = [] := by
        rcases h.chain with ⟨-, -, hnone⟩ | ⟨ch, ⟨j, hfile, -⟩, -⟩
        · exact hnone
        · have habsent := hfound.absent
          rw [hfile] at habsent
          cases habsent
      obtain ⟨ch', hreads, hcerts⟩ := reads_good hgood hpub.chain_file
      refine ⟨hsound, fun s' hs' => ?_, .inr ⟨ch', hreads, ?_, fun s' hs' => ?_⟩⟩
      · obtain ⟨hst, hro⟩ := hsame s' hs'
        cases hs'
        refine ⟨rfl, hst, hro, fun key hkey => ?_⟩
        cases hkey
        exact hdraft.isKeyPath.ne_chain
      · intro x hx
        rw [hissued] at hx
        cases hx
      · cases hs'
        exact hcerts.symm
    | reopened hopen hpub =>
      rename_i chain active
      rcases h.chain with ⟨habsent, -, -⟩ | ⟨ch, ⟨j, hfile, hparse⟩, hissued, -⟩
      · obtain ⟨j, hfile, -⟩ := hopen.read
        rw [hfile] at habsent
        cases habsent
      · cases Reads.unique hopen.read ⟨j, hfile, hparse⟩
        refine ⟨hsound, fun s' hs' => ?_,
          .inr ⟨chain, ⟨j, hfile, hparse⟩, hissued, fun s' hs' => ?_⟩⟩
        · obtain ⟨hst, hro⟩ := hsame s' hs'
          cases hs'
          refine ⟨rfl, hst, hro, fun key hkey => ?_⟩
          cases hkey
          exact hopen.besideChain
        · cases hs'
          rfl

lemma ContinuityInv.rotate (hC : Correct C) (h : ContinuityInv C dir hybrid sys)
    (hsig : sys.signer = some s) (ha : Orderly C dir hybrid sys (.rotate rs)) :
    ContinuityInv C dir hybrid (step C dir sys (.rotate rs)) := by
  obtain ⟨hadm, hend, -⟩ := ha
  obtain ⟨hdir, hstore, hsingle, hbeside⟩ := h.signer s hsig
  have hrot := @Calm.rotateEnv C dir hybrid s hstore hsingle (h.sound.signer s hsig).good.quant
  obtain ⟨hsound, hsame⟩ := h.sound.rotate hC Calm.env hsig hrot hadm (.inr hend)
  obtain ⟨ch, hreads, hissued, hcerts⟩ : ∃ ch, Reads dir sys.world ch ∧
      (∀ x ∈ sys.issued, Vouches C ch x.1 x.2) ∧ s.chain.certs = ch.certs := by
    rcases h.chain with ⟨-, hnone, -⟩ | ⟨ch, hreads, hissued, hcerts⟩
    · rw [hsig] at hnone
      cases hnone
    · exact ⟨ch, hreads, hissued, hcerts s hsig⟩
  rcases rotate_cases hsig hadm with ⟨op, w, hdies, -, -⟩ | ⟨s', res, w, hdone, heq⟩
  · exact absurd hdies (hend.not_dies op)
  · rw [heq] at hsound hsame ⊢
    obtain ⟨-, hdir', -, -⟩ := hdone.same
    subst hdir
    have hgood := (hsound.signer s' rfl).good
    have hmode : s'.dir = s.dir ∧ s'.store = .file s.dir hybrid ∧ s'.threshRotator = none := by
      obtain ⟨hst, hro⟩ := hsame s' rfl
      exact ⟨hdir', hst.trans hstore, hro.trans hsingle⟩
    rcases hdone.files hstore with ⟨hun, hsamecerts, hactive⟩ |
      ⟨prevActive, newActive, prevCert, cert, now, w1, prevActive', err, hprep, hdestroy, hchain,
        hactive, -⟩
    · -- `chain.json` and the signer are as they were.
      refine ⟨hsound, fun s'' hs'' => ?_,
        .inr ⟨ch, hreads.of_file hun.chain, hissued, fun s'' hs'' => ?_⟩⟩
      · cases hs''
        exact ⟨hmode.1, hmode.2.1, hmode.2.2, fun key hkey => hbeside key (hactive ▸ hkey)⟩
      · cases hs''
        exact hsamecerts.trans hcerts
    · obtain ⟨priv, qPriv, path, hnew, hdraft, hpub⟩ := hprep.published hstore
      obtain ⟨hfile, hbeside'⟩ := destroy_chain (hbeside _ hprep.active) hdestroy
      rw [hpub.chain_file, ← hchain] at hfile
      obtain ⟨ch', hreads', hcerts'⟩ := reads_good hgood hfile
      have hlonger : ch'.certs = ch.certs ++ [some cert] := by
        rw [hcerts', hchain, ← hcerts]
        rfl
      refine ⟨hsound, fun s'' hs'' => ?_,
        .inr ⟨ch', hreads', fun x hx => (hissued x hx).append hlonger, fun s'' hs'' => ?_⟩⟩
      · cases hs''
        refine ⟨hmode.1, hmode.2.1, hmode.2.2, fun key hkey => ?_⟩
        rw [hactive, Option.some.injEq] at hkey
        subst hkey
        by_cases herr : err = none
        · rw [if_pos herr, hnew]
          exact hdraft.isKeyPath.ne_chain
        · rw [if_neg herr]
          exact hbeside'
      · cases hs''
        exact hcerts'.symm

lemma ContinuityInv.checkpoint (hC : Correct C) (h : ContinuityInv C dir hybrid sys) {size : Nat}
    {root head : Bytes} {beacon : Option Beacon} (hsig : sys.signer = some s)
    (ha : Orderly C dir hybrid sys (.checkpoint size root head beacon rs)) :
    ContinuityInv C dir hybrid (step C dir sys (.checkpoint size root head beacon rs)) := by
  obtain ⟨hadm, hend, -⟩ := ha
  obtain ⟨hsound, hsame⟩ := h.sound.checkpoint hsig (fun _ r hr => hr.2) hadm
  obtain ⟨w, hw, hcases⟩ := checkpoint_cases hsig hadm
  have hfile : w.files (chainPath dir) = sys.world.files (chainPath dir) := by
    rcases hw with rfl | ⟨r, -, rfl⟩ <;> rfl
  obtain ⟨ch, hreads, hissued, hcerts⟩ : ∃ ch, Reads dir sys.world ch ∧
      (∀ x ∈ sys.issued, Vouches C ch x.1 x.2) ∧
      ∀ s, sys.signer = some s → s.chain.certs = ch.certs := by
    rcases h.chain with ⟨-, hnone, -⟩ | hchain
    · rw [hsig] at hnone
      cases hnone
    · exact hchain
  rcases hcases with heq | heq | ⟨rootPub, c, hroot, hnew, heq⟩
  · rw [heq] at hsound ⊢
    exact h.stopped hfile hsound
  · rw [heq] at hsound ⊢
    exact ⟨hsound, h.signer, .inr ⟨ch, hreads.of_file hfile, hissued, hcerts⟩⟩
  · rw [heq] at hsound ⊢
    refine ⟨hsound, h.signer, .inr ⟨ch, hreads.of_file hfile, fun x hx => ?_, hcerts⟩⟩
    rcases mem_append.mp hx with hx | hx
    · exact hissued x hx
    · cases mem_singleton.mp hx
      have hvouches := hnew.vouches hC (hsound.signer s hsig) hroot
      exact hvouches.append (l := []) (by rw [append_nil, hcerts s hsig])

lemma ContinuityInv.vouched (h : ContinuityInv C dir hybrid sys) {rootPub : Bytes}
    {c : Checkpoint} (hc : (rootPub, c) ∈ sys.issued)
    (hch : Reads dir sys.world ch ∨ ∃ s, sys.signer = some s ∧ s.chain = ch) :
    Vouches C ch rootPub c ∧ Good C none (hybrid = true) True sys.world ch := by
  rcases h.chain with ⟨-, -, hnone⟩ | ⟨disk, hdisk, hissued, hcerts⟩
  · rw [hnone] at hc
    cases hc
  · rcases hch with hreads | ⟨s, hs, rfl⟩
    · cases hreads.unique hdisk
      exact ⟨hissued _ hc, hdisk.good h.sound.core⟩
    · have hvouches : Vouches C s.chain rootPub c :=
        (hissued _ hc).append (l := []) (by rw [append_nil]; exact hcerts s hs)
      exact ⟨hvouches, (h.sound.signer s hs).good⟩

lemma continuity_step (hC : Correct C) (a : Action) (h : ContinuityInv C dir hybrid sys)
    (ha : Orderly C dir hybrid sys a) : ContinuityInv C dir hybrid (step C dir sys a) := by
  cases a with
  | start =>
    obtain ⟨rfl, rfl⟩ := ha.2.2
    exact h.start hC ha
  | rotate =>
    exact step_running (I := ContinuityInv C dir hybrid) h (by simp) fun s hsig =>
      h.rotate hC hsig ha
  | checkpoint =>
    exact step_running (I := ContinuityInv C dir hybrid) h (by simp) fun s hsig =>
      h.checkpoint hC hsig ha

end

/-- **Checkpoints stay verifiable for ever**: in every run of a file-backed signer in one key mode,
whatever its rotations and restarts, each checkpoint that was ever returned verifies under the
genesis key with the chain on disk and with the running signer's chain. -/
theorem checkpoints_stay_verifiable {C : Crypto} (hC : Correct C) (dir : Bytes) (hybrid : Bool)
    {as : List Action} (has : Along (step C dir) (Orderly C dir hybrid) Sys.init as)
    {rootPub : Bytes} {c : Checkpoint}
    (hc : (rootPub, c) ∈ (run (step C dir) Sys.init as).issued) {ch : Chain}
    (hch : Reads dir (run (step C dir) Sys.init as).world ch ∨
      ∃ s, (run (step C dir) Sys.init as).signer = some s ∧ s.chain = ch) :
    ch.rootPublicKey = .ok rootPub ∧ c.verify C (some ch) rootPub none = .ok () := by
  have hinit : ContinuityInv C dir hybrid Sys.init := ⟨.init, nofun, .inl ⟨rfl, rfl, rfl⟩⟩
  have hrun := along_invariant (fun sys a h ha => continuity_step hC a h ha) hinit has
  obtain ⟨hvouches, hgood⟩ := hrun.vouched hc hch
  exact ⟨hvouches.rootPublicKey, hvouches.verify hgood⟩

def longRun : List Action :=
  [.start (lit "log") (.file sampleDir false) none (genesisChoices 1 10),
    .checkpoint 1 [1] [2] none [{ now := 12 }], .rotate (rotateChoices 2 20),
    .start (lit "log") (.file sampleDir false) none [{}, {}, {}, {}],
    .rotate (rotateChoices 3 30)]

theorem checkpoints_stay_verifiable_sample :
    ∃ s rootPub c, (run (step paired sampleDir) Sys.init longRun).signer = some s ∧
      (run (step paired sampleDir) Sys.init longRun).issued = [(rootPub, c)] ∧
      s.chain.certs.length = 3 ∧ s.chain.rootPublicKey = .ok rootPub ∧
      c.verify paired (some s.chain) rootPub none = .ok () := by
  have has : Along (step paired sampleDir) (Orderly paired sampleDir false) Sys.init longRun := by
    decide +kernel
  have hlen : (run (step paired sampleDir) Sys.init longRun).signer.map
      (fun s => s.chain.certs.length) = some 3 := by
    decide +kernel
  have hissued : (run (step paired sampleDir) Sys.init longRun).issued.length = 1 := by
    decide +kernel
  obtain ⟨s, hs, hcerts⟩ := Option.map_eq_some_iff.mp hlen
  obtain ⟨⟨rootPub, c⟩, hx⟩ := length_eq_one_iff.mp hissued
  have hver := checkpoints_stay_verifiable paired_correct sampleDir false has
    (by rw [hx]; exact mem_singleton_self _) (.inr ⟨s, hs, rfl⟩)
  exact ⟨s, rootPub, c, hs, hx, hcerts, hver⟩

end Stele.Keys
