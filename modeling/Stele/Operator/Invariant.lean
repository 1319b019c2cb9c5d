import Stele.Operator.Machine

/-!
# The invariant of an honest operator

In every state of every honest run the log is upheld, the signer's chain is good, and the signer or
the group endorses each checkpoint that a thread carries or that was recorded.
-/

namespace Stele.Operator

open Lib

open Keys (Signer Choice KeyStore)

variable {C : Crypto} {R : RangeImpl Bytes} {RngHolds : R.Rng → List Bytes → Prop} {dir : Bytes}
  {opts : Core.Options} {store : KeyStore} {group : Option Group}

structure Inv (C : Crypto) (RngHolds : R.Rng → List Bytes → Prop) (store : KeyStore)
    (group : Option Group) (s : State R) : Prop where
  log : ∃ es, s.log.Upheld C RngHolds es
  keys : Keys.Sound C group (∃ dir, store = .file dir true) False s.keys
  signer : ∀ signer, s.keys.signer = some signer → signer.store = store ∧ Utf8 signer.origin ∧
    signer.threshRotator = s.group.map some
  mode : ∀ g, s.group = some g → group = some g ∧ g.crossed = g ∧ Group.validate (some g) = .ok ()
  alone : s.keys.signer = none → s.log.proc = none
  kept : ∀ signer, s.keys.signer = some signer → s.log.Keeps (Endorsed C group signer)

lemma init_inv : Inv C RngHolds store group (init R) where
  log := ⟨[], Core.init_upheld⟩
  keys := .init
  signer := nofun
  mode := nofun
  alone _ := rfl
  kept := nofun

/-! ## What is signed -/

variable {signer : Signer} {size : Nat} {root head : Bytes} {beacon : Option Beacon}
  {w w' : Keys.World} {rs : List Choice}

/-- What the key store is asked leaves the world but for the clock, and the checkpoint that is made
of its answer was issued. -/
lemma signReads_issued {reads : SignReads}
    (h : (signer.signReads C size root head beacon).exec (Keys.perform C) w rs = (w', .ret reads)) :
    (w' = w ∨ ∃ now, w' = w.tick now) ∧
      ∀ c, Checkpoint.sign C reads size root head beacon = .ok c → Keys.Issued C signer w' c := by
  have hsafe := @Keys.safe_signCheckpoint C (fun _ _ _ => True) signer size root head beacon w
  rw [Signer.signCheckpoint_eq, Prog.safe_bind] at hsafe
  obtain ⟨hw, hissued⟩ := hsafe.returned (Prog.admits_of_forall (fun _ _ _ => trivial) _ _ _) h
  exact ⟨hw.imp_right fun ⟨r, _, hr⟩ => ⟨r.now, hr⟩, hissued⟩

lemma signReads_stopped {op : Keys.Op} {k : Keys.calls.Ans op → Keys.Calls SignReads}
    (h : (signer.signReads C size root head beacon).exec (Keys.perform C) w rs =
      (w', .ask op k)) : w' = w ∨ ∃ now, w' = w.tick now := by
  have hsafe := @Keys.safe_signCheckpoint C (fun _ _ _ => True) signer size root head beacon w
  rw [Signer.signCheckpoint_eq, Prog.safe_bind] at hsafe
  have hw := hsafe.stopped (Prog.admits_of_forall (fun _ _ _ => trivial) _ _ _) h
  exact hw.imp_right fun ⟨r, _, hr⟩ => ⟨r.now, hr⟩

lemma signed_endorsed (hC : Keys.Correct C) {quant : Prop}
    (hsigner : Keys.CoreSigner C group quant False w' signer) (horigin : Utf8 signer.origin)
    {reads : SignReads} (hbeacon : ∀ b, beacon = some b → Utf8 b.source)
    (hexec : (signer.signReads C size root head beacon).exec (Keys.perform C) w rs =
      (w', .ret reads)) {c : Checkpoint}
    (hsign : Checkpoint.sign C reads size root head beacon = .ok c) :
    Endorsed C group signer c := by
  have hissued := (signReads_issued hexec).2 c hsign
  obtain ⟨pub, epoch, now, sig, rfl⟩ := signReads_returned hexec
  have heq := signSingle_eq (u := Checkpoint.unsigned C _ size root head beacon) hsign
  obtain ⟨rootPub, hroot, -⟩ := hsigner.good.verifies
  refine ⟨?_, ?_, ?_, ?_⟩
  · rw [heq]
    rfl
  · rw [heq]
    exact crossed_of_utf8 horigin (utf8_hex _) hbeacon rfl nofun
  · rw [heq]
    exact List.not_mem_nil
  · rw [if_pos hissued.single]
    exact ⟨rootPub, hissued.vouches hC hsigner hroot⟩

lemma cosigned_endorsed {g : Group} {arrivals : List (Member × Reply)}
    {r : Core.Reads} {c : Checkpoint} (hgroup : group = some g)
    (horigin : Utf8 signer.origin) (hbeacon : ∀ b, r.beacon = some b → Utf8 b.source)
    (hsign : Core.signCheckpoint C (cosignedReads C signer g arrivals r) size root head = .ok c)
    (hquorum : verifyMulti C (some g) c.canonical c.memberSigs = .ok ())
    (hmembers : ∀ m ∈ c.memberSigs.reduceOption, Utf8 m.memberID) :
    Endorsed C group signer c := by
  simp only [Core.signCheckpoint, bind_ok] at hsign
  obtain ⟨_, -, hsign⟩ := hsign
  have hne := Keys.quorum_ne_nil hquorum
  have hfail : ∀ e, Checkpoint.sign C (signer.reads C [] 0 0 (.error e)) size root head r.beacon ≠
      .ok c := by
    intro e he
    simp [Checkpoint.sign, Signer.reads, Checkpoint.signSingle] at he
  unfold cosignedReads Signer.thresholdReads at hsign
  cases hpub : signer.chain.activePublicKey with
  | error e =>
    rw [hpub] at hsign
    exact absurd hsign (hfail e)
  | ok =>
    cases hepoch : signer.chain.activeEpoch with
    | error e =>
      rw [hpub, hepoch] at hsign
      exact absurd hsign (hfail e)
    | ok =>
      rw [hpub, hepoch] at hsign
      obtain ⟨d, sigs, hd, heq⟩ := signThreshold_eq hsign
      refine ⟨?_, ?_, ?_, ?_⟩
      · rw [heq]
        rfl
      · refine crossed_of_utf8 ?_ ?_ ?_ ?_ hmembers
        · rw [heq]
          exact horigin
        · rw [heq]
          exact utf8_hex _
        · rw [heq]
          exact hbeacon
        · rw [heq]
          exact utf8_hex _
      · rw [heq]
        exact List.not_mem_nil
      · rw [if_neg hne]
        refine ⟨⟨g, d, hgroup, hd, ?_⟩, hgroup ▸ hquorum⟩
        rw [heq]

/-! ## One action -/

variable {s : State R}

section
variable (h : Inv C RngHolds store group s)
include h

lemma Inv.tick {w : Keys.World} (hw : w = s.keys.world ∨ ∃ now, w = s.keys.world.tick now) :
    Inv C RngHolds store group { s with keys := { s.keys with world := w } } := by
  have hkeys : Keys.Sound C group (∃ dir, store = .file dir true) False
      { s.keys with world := w } := by
    rcases hw with rfl | ⟨now, rfl⟩
    · exact h.keys
    · exact h.keys.tick False.elim
  exact ⟨h.log, hkeys, h.signer, h.mode, h.alone, h.kept⟩

variable (hR : R.Lawful (hashChildren C) (emptyRoot C) RngHolds)
  (hrep : R.Reports (hashChildren C) (emptyRoot C) RngHolds)
include hR hrep

omit h in
lemma crash_inv (hlog : ∃ es, s.log.Upheld C RngHolds es)
    (hcore : Keys.Core C group (∃ dir, store = .file dir true) False s.keys.world) :
    Inv C RngHolds store group (crash s) where
  log := by
    obtain ⟨es, hes⟩ := hlog
    obtain ⟨es', -, hes'⟩ := hes.step hR hrep {} (a := .crash) trivial
    exact ⟨es', hes'⟩
  keys := ⟨hcore, nofun⟩
  signer := nofun
  mode := nofun
  alone _ := rfl
  kept := nofun

lemma Inv.logAction {signer : Signer} (hsigner : s.keys.signer = some signer)
    (opts : Core.Options) {a : Core.Action} (ha : a.IsUtf8)
    (hsign : ∀ t r p size root head c, a = .thread t r → s.log.proc = some p →
      p.pc t = .ckptSign size root head → Core.signCheckpoint C r size root head = .ok c →
      Endorsed C group signer c) :
    Inv C RngHolds store group { s with log := Core.step C opts s.log a } where
  log := by
    obtain ⟨es, hes⟩ := h.log
    obtain ⟨es', -, hes'⟩ := hes.step hR hrep opts ha
    exact ⟨es', hes'⟩
  keys := h.keys
  signer := h.signer
  mode := h.mode
  alone hnone := by cases hsigner.symm.trans hnone
  kept signer' hsigner' := by
    cases hsigner.symm.trans hsigner'
    exact Core.step_keeps Endorsed.gather opts (h.kept signer hsigner) hsign

end

section
variable (hC : Keys.Correct C) (hR : R.Lawful (hashChildren C) (emptyRoot C) RngHolds)
  (hrep : R.Reports (hashChildren C) (emptyRoot C) RngHolds) (h : Inv C RngHolds store group s)
include hC hR hrep h

omit hR hrep in
lemma Inv.startSigner {origin : Bytes} {st : KeyStore} {rs : List Choice}
    (ha : Honest C dir store group s (.startSigner origin st rs)) :
    Inv C RngHolds store group (step C dir opts s (.startSigner origin st rs)) := by
  obtain ⟨rfl, horigin, hempty, hadm⟩ := ha
  cases hsigner : s.keys.signer with
  | some =>
    simp only [step, hsigner]
    exact h
  | none =>
    simp only [step, hsigner]
    have henv : Keys.Env C (Keys.Sane C) False True := Keys.Sane.env fun _ _ _ h => h
    obtain ⟨hsound, hsame⟩ := h.keys.start hC henv id hadm (.inl trivial)
    refine ⟨h.log, hsound, fun signer' hs' => ?_, nofun, fun _ => h.alone hsigner,
      fun signer' hs' => ⟨fun n doc hn => ?_, fun p t c hp => ?_⟩⟩
    · obtain ⟨hstore, hrot⟩ := hsame signer' hs'
      refine ⟨hstore, ?_, hrot⟩
      rcases Keys.start_cases hadm with ⟨op, w, -, -, heq⟩ | ⟨e, w, -, heq⟩ | ⟨s', w, hdone, heq⟩
      · rw [heq] at hs'
        cases hs'
      · rw [heq] at hs'
        cases hs'
      · rw [heq] at hs'
        cases hs'
        cases hdone with
        | founded => exact horigin
        | reopened => exact horigin
    · rw [OrdMap.get, hempty] at hn
      cases hn
    · cases (h.alone hsigner).symm.trans hp

omit hC hR hrep in
lemma Inv.useThreshold {g : Group} (ha : Honest C dir store group s (.useThreshold g)) :
    Inv C RngHolds store group (step C dir opts s (.useThreshold g)) := by
  simp only [step]
  split
  · rename_i signer hsigner hvalid
    obtain ⟨hstore, horigin, -⟩ := h.signer signer hsigner
    have hcore := h.keys.signer signer hsigner
    refine ⟨h.log, ⟨h.keys.core, ?_⟩, ?_, ?_, nofun, ?_⟩
    · rintro signer' ⟨⟩
      exact ⟨hcore.good, hcore.signs⟩
    · rintro signer' ⟨⟩
      exact ⟨hstore, horigin, rfl⟩
    · rintro g' ⟨⟩
      exact ⟨ha.1, ha.2, hvalid⟩
    · rintro signer' ⟨⟩
      exact (h.kept signer hsigner).mono fun c hc => ⟨hc.origin, hc.clean, hc.witnesses, hc.signed⟩
  · exact h

lemma Inv.rotate {rs : List Choice} (ha : Honest C dir store group s (.rotate rs)) :
    Inv C RngHolds store group (step C dir opts s (.rotate rs)) := by
  cases hsigner : s.keys.signer with
  | none =>
    have hidle : Keys.step C dir s.keys (.rotate rs) = s.keys :=
      Keys.step_idle hsigner fun _ _ _ _ => by simp
    simp only [step, hidle, hsigner]
    exact crash_inv hR hrep h.log h.keys.core
  | some signer =>
    have hadm := ha signer hsigner
    obtain ⟨hstore, horigin, hrot⟩ := h.signer signer hsigner
    have henv : Keys.Env C (fun op w r => Keys.Sane C op w r ∧ Keys.InOrder C signer op w r)
        False True := Keys.Sane.env fun _ _ _ h => h.1
    have hrotate : Keys.RotateEnv C
        (fun op w r => Keys.Sane C op w r ∧ Keys.InOrder C signer op w r) group
        (∃ dir, store = .file dir true) False signer := by
      refine Keys.InOrder.rotateEnv (fun _ _ _ h => h.2) ?_ (fun hq => hstore ▸ hq) ?_
      · intro g hg
        rw [hrot, Option.map_eq_some_iff] at hg
        obtain ⟨g', hg', heq⟩ := hg
        cases heq
        exact (h.mode g hg').1
      · intro dir' last hdir _ hlast
        exact (h.keys.signer signer hsigner).good.quant ⟨dir', hstore ▸ hdir⟩ last
          (List.mem_of_getLast? hlast)
    obtain ⟨hsound, hsame⟩ := h.keys.rotate hC henv hsigner hrotate hadm (.inl trivial)
    cases hsigner' : (Keys.step C dir s.keys (.rotate rs)).signer with
    | none =>
      simp only [step, hsigner']
      exact crash_inv hR hrep h.log hsound.core
    | some signer' =>
      simp only [step, hsigner']
      obtain ⟨-, l, hcerts⟩ := Keys.rotate_extends hsigner hadm hsigner'
      have hkept : signer'.origin = signer.origin := by
        rcases Keys.rotate_cases hsigner hadm with ⟨op, w, -, -, heq⟩ | ⟨s'', res, w, hdone, heq⟩
        · rw [heq] at hsigner'
          cases hsigner'
        · rw [heq] at hsigner'
          cases hsigner'
          exact hdone.same.1
      refine ⟨h.log, hsound, fun x hx => ?_, h.mode, fun hnone => ?_, fun x hx => ?_⟩
      · cases hsigner'.symm.trans hx
        obtain ⟨hst, hro⟩ := hsame signer' hsigner'
        exact ⟨hst.trans hstore, hkept ▸ horigin, hro.trans hrot⟩
      · cases hsigner'.symm.trans hnone
      · cases hsigner'.symm.trans hx
        exact (h.kept signer hsigner).mono fun c hc => hc.extend hkept hcerts

lemma Inv.signStep {signer : Signer} (hsigner : s.keys.signer = some signer) {t : Core.Tid}
    {r : Core.Reads} {size : Nat} {root head : Bytes} {rs : List Choice}
    {arrivals : List (Member × Reply)} (hsigning : signing s.log t = some (size, root, head))
    (ha : candid C s arrivals (.thread t r) = true) :
    Inv C RngHolds store group (signStep C opts s signer t r size root head rs arrivals) := by
  obtain ⟨-, horigin, -⟩ := h.signer signer hsigner
  simp only [candid, Bool.and_eq_true, decide_eq_true_eq] at ha
  obtain ⟨hbeacon, hquorate⟩ := ha
  -- the thread's own step: it signs what `signing` says
  have hpc : ∀ {t' r' p size' root' head'}, Core.Action.thread t r = .thread t' r' →
      s.log.proc = some p → p.pc t' = .ckptSign size' root' head' →
      size' = size ∧ root' = root ∧ head' = head := by
    rintro t' r' p size' root' head' ⟨⟩ hp hpc
    simp only [signing, hp, hpc, Option.some.injEq, Prod.mk.injEq] at hsigning
    exact hsigning
  unfold Operator.signStep
  split
  · rename_i e hskew
    refine h.logAction hR hrep hsigner opts trivial ?_
    rintro t' r' p size' root' head' c ⟨⟩ hp hpc hsign
    simp [Core.signCheckpoint, hskew] at hsign
  · rename_i g _ hgroup
    refine h.logAction hR hrep hsigner opts trivial ?_
    rintro t' r' p size' root' head' c ⟨⟩ hp hpc' hsign
    obtain ⟨rfl, rfl, rfl⟩ := hpc rfl hp hpc'
    simp only [quorate, hsigner, hgroup, hsigning, hsign, decide_eq_true_eq] at hquorate
    obtain ⟨hver, hmembers⟩ := hquorate
    refine cosigned_endorsed (h.mode g hgroup).1 horigin hbeacon hsign ?_ hmembers
    cases hres : verifyMulti C (some g) c.canonical c.memberSigs with
    | error =>
      rw [hres] at hver
      cases hver
    | ok => rfl
  · rename_i hskew hgroup
    split
    · rename_i w reads hexec
      have hw := (signReads_issued hexec).1
      have htick := h.tick hw
      refine htick.logAction hR hrep hsigner opts trivial ?_
      rintro t' r' p size' root' head' c ⟨⟩ hp hpc' hsign
      obtain ⟨rfl, rfl, rfl⟩ := hpc rfl hp hpc'
      simp only [Core.signCheckpoint, bind_ok] at hsign
      obtain ⟨_, -, hsign⟩ := hsign
      exact signed_endorsed hC (htick.keys.signer signer hsigner) horigin hbeacon hexec hsign
    · rename_i w op k hexec
      exact crash_inv hR hrep h.log (h.tick (signReads_stopped hexec)).keys.core

lemma step_inv {a : Action} (ha : Honest C dir store group s a) :
    Inv C RngHolds store group (step C dir opts s a) := by
  cases a with
  | startSigner => exact h.startSigner hC ha
  | useThreshold => exact h.useThreshold ha
  | rotate => exact h.rotate hC hR hrep ha
  | log a =>
    obtain ⟨hutf8, hcandid⟩ := ha
    cases hsigner : s.keys.signer with
    | none =>
      simp only [step, hsigner]
      exact h
    | some =>
      simp only [step, hsigner]
      have hother : ∀ a, a.IsUtf8 → (∀ t r, a ≠ .thread t r) →
          Inv C RngHolds store group { s with log := Core.step C opts s.log a } :=
        fun a hutf8 hne => h.logAction hR hrep hsigner opts hutf8
          fun t r _ _ _ _ _ heq => absurd heq (hne t r)
      cases a with
      | crash => exact crash_inv hR hrep h.log h.keys.core
      | thread t =>
        simp only [logStep]
        cases hsigning : signing s.log t with
        | some x =>
          obtain ⟨size, root, head⟩ := x
          exact h.signStep hC hR hrep hsigner hsigning hcandid
        | none =>
          refine h.logAction hR hrep hsigner opts trivial ?_
          rintro t' r' p size root head c ⟨⟩ hp hpc -
          simp [signing, hp, hpc] at hsigning
      | callAppend t env honeypot | callCheckpoint t | registerProducer fault now p
      | revokeProducer fault now id reason | start faults =>
        simp only [logStep]
        exact hother _ hutf8 (by simp)

omit h in
lemma run_inv {as : List Action}
    (has : Along (step C dir opts) (Honest C dir store group) (init R) as) :
    Inv C RngHolds store group (run (step C dir opts) (init R) as) :=
  along_invariant (I := Inv C RngHolds store group)
    (fun _ _ h ha => step_inv hC hR hrep h ha) init_inv has

end

end Stele.Operator
