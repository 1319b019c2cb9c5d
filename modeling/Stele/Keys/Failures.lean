import Stele.Keys.Verifiable

/-!
# What a failed rotation leaves behind

`Rotate` publishes the new certificate and then destroys the key before. When that fails, it returns
an error with the chain extended and the old key still the active one.
-/

namespace Stele

open Lib List Option

namespace Chain

def Numbered (ch : Chain) : Prop :=
  ∃ cs : List RotationCert, ch.certs = cs.map some ∧ ∀ (i : Nat) c, cs[i]? = some c → c.epoch = i

lemma numbered_single (origin locator : Bytes) {cert : RotationCert} (h : cert.epoch = 0) :
    Numbered ⟨origin, [some cert], locator⟩ := by
  refine ⟨[cert], rfl, fun i c hc => ?_⟩
  cases i with
  | zero =>
    cases hc
    exact h
  | succ => simp at hc

namespace Numbered

variable {ch : Chain} (h : ch.Numbered)
include h

lemma last {last : RotationCert} (hlast : ch.certs.getLast? = some (some last)) :
    last.epoch + 1 = ch.certs.length ∧ ch.activeEpoch = .ok last.epoch ∧
      ch.publicKeyAt last.epoch = .ok (some last.publicKey) := by
  obtain ⟨cs, hcs, hep⟩ := h
  have hget : cs[cs.length - 1]? = some last := by
    rw [hcs, getLast?_map, map_eq_some_iff] at hlast
    obtain ⟨c, hc, heq⟩ := hlast
    cases heq
    rw [← getLast?_eq_getElem?]
    exact hc
  have hepoch := hep _ _ hget
  have hpos : 0 < cs.length := by
    obtain ⟨hlt, -⟩ := List.getElem?_eq_some_iff.mp hget
    omega
  refine ⟨?_, ?_, ?_⟩
  · rw [hcs, length_map, hepoch]
    omega
  · simp [activeEpoch, hlast]
  · have hat := @certAt_eq cs 0 (fun i c hc => by rw [hep i c hc, Nat.zero_add]) last.epoch
    rw [Nat.zero_add] at hat
    rw [publicKeyAt, hcs, hat, hepoch, hget]
    rfl

lemma extend {last cert : RotationCert} (hlast : ch.certs.getLast? = some (some last))
    (hcert : cert.epoch = last.epoch + 1) (locator : Bytes) :
    (ch.extend cert locator).Numbered := by
  have hlen := (h.last hlast).1
  obtain ⟨cs, hcs, hep⟩ := h
  rw [hcs, length_map] at hlen
  refine ⟨cs ++ [cert], by simp [Chain.extend, hcs], fun i c hc => ?_⟩
  rcases Nat.lt_trichotomy i cs.length with hlt | rfl | hgt
  · rw [getElem?_append_left hlt] at hc
    exact hep i c hc
  · rw [getElem?_concat_length, Option.some.injEq] at hc
    rw [← hc, hcert, hlen]
  · rw [getElem?_eq_none (by simp; omega)] at hc
    cases hc

lemma crossed : ch.crossed.Numbered := by
  obtain ⟨cs, hcs, hep⟩ := h
  refine ⟨cs.map RotationCert.crossed, ?_, fun i c hc => ?_⟩
  · simp [Chain.crossed, hcs]
  · rw [getElem?_map, map_eq_some_iff] at hc
    obtain ⟨c', hc', rfl⟩ := hc
    exact hep i c' hc'

lemma of_certs {ch' : Chain} (heq : ch'.certs = ch.certs) : ch'.Numbered := by
  obtain ⟨cs, hcs, hep⟩ := h
  exact ⟨cs, heq.trans hcs, hep⟩

end Numbered

end Chain

namespace Keys

open Prog

/-! ## What the calls keep -/

/-- The objects on the token belong together, and every document on disk is a numbered chain. -/
structure Ordered (C : Crypto) (w : World) : Prop where
  paired : Paired C w
  docs : ∀ p j, w.files p = some (.doc j) → ∃ ch : Chain, j = ch.toJson ∧ ch.Numbered

variable {C : Crypto} {w w' : World} {ok : Op → World → Choice → Prop}

lemma ordered_empty : Ordered C World.empty where
  paired := (@core_empty C none False False).paired
  docs p j hj := by cases hj

lemma Ordered.frame (h : Ordered C w) (hobj : w'.objects = w.objects)
    (hdocs : ∀ p j, w'.files p = some (.doc j) → ∃ ch : Chain, j = ch.toJson ∧ ch.Numbered) :
    Ordered C w' :=
  ⟨h.paired.frame hobj, hdocs⟩

lemma Ordered.put (h : Ordered C w) (p : Bytes) {c : Content}
    (hc : ∀ j, c = .doc j → ∃ ch : Chain, j = ch.toJson ∧ ch.Numbered) : Ordered C (w.put p c) := by
  refine h.frame rfl fun p' j hj => ?_
  by_cases hp : p' = p
  · subst hp
    rw [World.put_files_self, Option.some.injEq] at hj
    exact hc j hj
  · rw [World.put_files_ne _ hp] at hj
    exact h.docs p' j hj

lemma Ordered.drop (h : Ordered C w) (p : Bytes) : Ordered C (w.drop p) := by
  refine h.frame rfl fun p' j hj => ?_
  by_cases hp : p' = p
  · subst hp
    rw [World.drop_files_self] at hj
    cases hj
  · rw [World.drop_files_ne _ hp] at hj
    exact h.docs p' j hj

lemma Ordered.putText (h : Ordered C w) (p : Bytes) {b : Bytes} {c : Content}
    (hc : (Content.text b).Part c) : Ordered C (w.put p c) := by
  obtain ⟨t, rfl, -⟩ := hc.text
  exact h.put p nofun

/-- **The calls keep it**, when the labels of new token keys are new. -/
theorem ordered_stable (hlabel : ∀ label w r, ok (.generateKeyPair label) w r → label ∉ w.labels) :
    Stable C ok True (Ordered C) fun _ ch => ch.Numbered where
  edKey w r qpub h _ := h.frame rfl h.docs
  keyPair w r label o1 o2 h hr ho1 ho2 := ⟨h.paired.addPair (hlabel label w r hr) ho1 ho2, h.docs⟩
  lost w hs w' h hlost := by
    have hpaired := h.paired.lost hlost
    obtain ⟨objs, rfl⟩ := hlost.rest
    exact ⟨hpaired, h.docs⟩
  tick w r h _ := h.frame rfl h.docs
  key w p priv qPriv c h _ hc := h.putText p hc
  noise w p b c _ h _ hc := h.putText p hc
  drop w p h := h.drop p
  doc w p ch c h hch hc := by
    refine h.put p fun j hj => ?_
    cases hc with
    | all =>
      cases hj
      exact ⟨ch, rfl, hch⟩
    | cut n => by_cases hn : n = 0 <;> simp [Content.cut, hn] at hj
  publish w dir ch h hch := by
    have hput := (h.drop (tmpPath dir)).put (chainPath dir) (c := .doc ch.toJson) fun j hj => by
      cases hj
      exact ⟨ch, rfl, hch⟩
    exact hput.frame rfl hput.docs

lemma Certified.fields {s : Signer} {prevActive newActive : LiveKey}
    {prevCert cert : RotationCert} {now : Int}
    (h : Certified C ok s prevActive prevCert newActive w now cert) :
    cert.epoch = prevCert.epoch + 1 ∧ cert.publicKey = newActive.pub ∧
      cert.signedBy = prevCert.publicKey := by
  cases h with
  | single _ h =>
    obtain ⟨priv, qsig, -, rfl, -, -⟩ := h.signed
    exact ⟨rfl, rfl, rfl⟩
  | group _ _ hcert =>
    subst hcert
    exact ⟨rfl, rfl, rfl⟩

lemma Founded.fields {dir : Bytes} {store : KeyStore} {active : LiveKey} {cert : RotationCert}
    {now : Int} {w1 : World} (h : Founded C ok dir store w active cert now w1) :
    cert.epoch = 0 ∧ cert.publicKey = active.pub := by
  obtain ⟨priv, qsig, -, rfl, -, -⟩ := h.signed.signed
  exact ⟨rfl, rfl⟩

/-! ## The signer -/

def SignsFor (C : Crypto) (w : World) (key : LiveKey) (cert : RotationCert) : Prop :=
  Signs C w key { cert with quantumPublicKey := key.quantumPublic.getD [] }

/-- The chain is numbered, and what the active key can sign with is the key of its last
certificate. -/
structure Usable (C : Crypto) (w : World) (s : Signer) : Prop where
  numbered : s.chain.Numbered
  active : ∃ key last, s.active = some key ∧ s.chain.certs.getLast? = some (some last) ∧
    SignsFor C w key last

def Matches (s : Signer) : Prop :=
  ∃ key, s.active = some key ∧ s.chain.activePublicKey = .ok key.pub

def Destroys (key : Option LiveKey) : Op → World → Choice → Prop
  | .generateKeyPair label, w, _ => label ∉ w.labels
  | .destroyObject x, _, r => key.bind LiveKey.privateObject = some x → r.err = none
  | _, _, _ => True

instance (key : Option LiveKey) (op : Op) (w : World) (r : Choice) :
    Decidable (Destroys key op w r) := by
  unfold Destroys
  split <;> infer_instance

/-- `Rotate` returns an error although it has published the certificate: it could not destroy the
key before. -/
def failsLate (C : Crypto) (s : Signer) (w : World) (rs : List Choice) : Bool :=
  match (s.rotate C).exec (perform C) w rs with
  | (_, .ret (s', .error _)) => decide (s.chain.certs.length < s'.chain.certs.length)
  | _ => false

def Erasing (C : Crypto) (dir : Bytes) (sys : Sys) (a : Action) : Prop :=
  Admitted C dir (Destroys (sys.signer.bind Signer.active)) sys a

def InTime (C : Crypto) (sys : Sys) : Action → Prop
  | .rotate rs => ∀ s, sys.signer = some s → failsLate C s sys.world rs = false
  | _ => True

instance (C : Crypto) (dir : Bytes) (sys : Sys) (a : Action) : Decidable (Erasing C dir sys a) :=
  inferInstanceAs (Decidable (Admitted _ _ _ _ _))

instance (C : Crypto) (sys : Sys) : (a : Action) → Decidable (InTime C sys a)
  | .rotate _ => decidableSome _
  | .start _ _ _ _ => isTrue trivial
  | .checkpoint _ _ _ _ _ => isTrue trivial

section
variable {s s' : Signer}

lemma Usable.later (h : Usable C w s) (hl : Later False w w') : Usable C w' s := by
  obtain ⟨key, last, hkey, hlast, hsigns⟩ := h.active
  exact ⟨h.numbered, key, last, hkey, hlast, Signs.later hsigns hl⟩

lemma Usable.sign_valid (hC : Correct C) (h : Usable C w s) {msg sig : Bytes} {epoch : Nat}
    {rs : List Choice}
    (hsign : (s.sign C msg).exec (perform C) w rs = (w', .ret (.ok (epoch, sig)))) :
    ∃ pub, s.chain.publicKeyAt epoch = .ok (some pub) ∧ C.EdValid pub msg sig := by
  obtain ⟨key, last, hkey, hlast, hsigns⟩ := h.active
  obtain ⟨-, hactive, hpub⟩ := h.numbered.last hlast
  have hadm : (s.sign C msg).Admits (perform C) (fun _ _ _ => True) w rs :=
    admits_of_forall (fun _ _ _ => trivial) _ _ _
  obtain ⟨-, hres⟩ := (safe_signerSign s msg w).returned hadm hsign
  obtain ⟨hepoch, key', priv, hkey', hholds, rfl⟩ := hres epoch sig rfl
  rw [hkey, Option.some.injEq] at hkey'
  subst hkey'
  rw [hactive, Except.ok.injEq] at hepoch
  subst hepoch
  exact ⟨last.publicKey, hpub, hsigns.edValid hC hholds msg⟩

lemma Prepared.numbered {prevActive newActive : LiveKey} {prevCert cert : RotationCert}
    {now : Int} {w1 : World} (h : s.chain.Numbered)
    (hprep : Prepared C ok s w prevActive newActive prevCert cert now w1) :
    (s.chain.extend cert newActive.locator).Numbered :=
  h.extend hprep.last hprep.certified.fields.1 _

variable (hC : Correct C)
include hC

/-- **Every end of `Rotate` leaves a usable signer**, when the private object of the key before is
destroyed. -/
theorem Usable.rotated (h : Usable C w s)
    (hgone : ∀ k, s.active = some (.hsm k) → ¬ Fails ok (.destroyObject k.privObj))
    {res : Res RotationCert} (hdone : RotateDone C ok s w (s', res) w') : Usable C w' s' := by
  have hlater : Later False w w' := hdone.later False.elim
  have hs := h.later hlater
  cases hdone with
  | refused => exact hs
  | noKey => exact hs
  | nilCert => exact hs
  | unsigned => exact hs
  | unpublished =>
    obtain ⟨key, last, hkey, hlast, hsigns⟩ := hs.active
    exact ⟨hs.numbered.of_certs rfl, key, last, hkey, hlast, hsigns⟩
  | kept hprep hdone =>
    rename_i prevActive prevActive' newActive prevCert cert now e e' w1
    refine ⟨hprep.numbered h.numbered, prevActive', cert, rfl, extend_getLast? _ _ _, ?_⟩
    -- The key before has lost what it signed with.
    obtain ⟨key, last, hkey, -, hsigns⟩ := h.active
    rw [hprep.active, Option.some.injEq] at hkey
    subst hkey
    cases prevActive with
    | file =>
      obtain ⟨rfl, -⟩ := hdone
      exact fun hne => absurd rfl hne
    | hsm k =>
      obtain ⟨rfl, -, hnone⟩ := hdone
      refine ⟨lt_of_lt_of_le hsigns.1 hlater.length, fun o ho => ?_⟩
      rcases hnone with hnone | hfails
      · rw [hnone] at ho
        cases ho
      · exact absurd hfails (hgone k hprep.active)
  | rotated hprep hdone =>
    rename_i prevActive prevActive' newActive prevCert cert now w1
    refine ⟨hprep.numbered h.numbered, newActive, cert, rfl, extend_getLast? _ _ _, ?_⟩
    have hafter : Later False w1 w' :=
      ((Later.tick False.elim).trans (Later.publish (w1.tick now) _ _)).trans hdone.later
    exact ((hprep.gen.newActive hC).signs { cert with
      quantumPublicKey := newActive.quantumPublic.getD [] } hprep.certified.fields.2.1 rfl).later
      hafter

lemma Usable.started {origin dir : Bytes} {store : KeyStore} (h : Ordered C w)
    (hdone : StartDone C ok origin dir store w (.ok s) w') : Usable C w' s := by
  cases hdone with
  | founded hfound =>
    rename_i active cert now w1
    obtain ⟨hepoch, hpub⟩ := hfound.fields
    refine ⟨Chain.numbered_single _ _ hepoch, active, cert, rfl, rfl, ?_⟩
    have hafter : Later False w1
        ((w1.tick now).publish dir ⟨origin, [some cert], active.locator⟩) :=
      (Later.tick False.elim).trans (Later.publish _ _ _)
    exact ((hfound.gen.newActive hC).signs { cert with
      quantumPublicKey := active.quantumPublic.getD [] } hpub rfl).later hafter
  | reopened hopen hpub =>
    rename_i chain active
    obtain ⟨j, hfile, hparse⟩ := hopen.read
    obtain ⟨ch, rfl, hch⟩ := h.docs _ _ hfile
    rw [Chain.ofJson_toJson, Except.ok.injEq] at hparse
    subst hparse
    obtain ⟨last, hlast, hkey⟩ : ∃ last, ch.crossed.certs.getLast? = some (some last) ∧
        last.publicKey = active.pub := by
      have hne : ch.crossed.certs ≠ [] := by
        have hcheck := hopen.check
        simp only [checkChain, bind_ok, ensure_ok, exists_const] at hcheck
        exact hcheck.1
      rw [Chain.activePublicKey] at hpub
      cases hlast : ch.crossed.certs.getLast? with
      | none => exact absurd (getLast?_eq_none_iff.mp hlast) hne
      | some o =>
        cases o with
        | none =>
          rw [hlast] at hpub
          cases hpub
        | some last =>
          rw [hlast] at hpub
          exact ⟨last, rfl, Except.ok.inj hpub⟩
    exact ⟨hch.crossed, active, last, rfl, hlast, hopen.load.own hC h.paired hkey rfl⟩

omit hC in
/-- **Every end of `Rotate` but a late failure** leaves the active key that the chain names. -/
theorem Matches.rotated (h : Matches s) {res : Res RotationCert}
    (hdone : RotateDone C ok s w (s', res) w')
    (htime : ∀ e, res = .error e → s'.chain.certs.length ≤ s.chain.certs.length) : Matches s' := by
  cases hdone with
  | refused => exact h
  | noKey => exact h
  | nilCert => exact h
  | unsigned => exact h
  | unpublished => exact h
  | kept =>
    have hle := htime _ rfl
    simp only [Chain.extend, length_append, length_singleton] at hle
    omega
  | rotated hprep =>
    refine ⟨_, rfl, ?_⟩
    rw [← hprep.certified.fields.2.1, Chain.activePublicKey, extend_getLast?]

omit hC in
lemma Matches.started {origin dir : Bytes} {store : KeyStore}
    (hdone : StartDone C ok origin dir store w (.ok s) w') : Matches s := by
  cases hdone with
  | founded hfound => exact ⟨_, rfl, congrArg Except.ok hfound.fields.2⟩
  | reopened _ hpub => exact ⟨_, rfl, hpub⟩

end

/-! ## Runs -/

structure UsableInv (C : Crypto) (sys : Sys) : Prop where
  ordered : Ordered C sys.world
  signer : ∀ s, sys.signer = some s → Usable C sys.world s

section
variable {dir : Bytes} {sys : Sys}

lemma UsableInv.stopped {w : World} (h : Ordered C w) :
    UsableInv C { sys with world := w, signer := none } :=
  ⟨h, nofun⟩

lemma UsableInv.start (hC : Correct C) (h : UsableInv C sys) {origin : Bytes} {store : KeyStore}
    {rotator : Option (Option Group)} {rs : List Choice}
    (ha : Erasing C dir sys (.start origin store rotator rs)) :
    UsableInv C (step C dir sys (.start origin store rotator rs)) := by
  have hstable := @ordered_stable C (Destroys (sys.signer.bind Signer.active)) fun _ _ _ hr => hr
  rcases start_cases ha with ⟨op, w, -, hstop, heq⟩ | ⟨e, w, hdone, heq⟩ | ⟨s, w, hdone, heq⟩
  · rw [heq]
    exact .stopped (hstable.start_stop h.ordered
      (fun _ _ _ _ hfound => Chain.numbered_single _ _ hfound.fields.1) hstop trivial)
  · rw [heq]
    exact .stopped (hstable.start_done h.ordered
      (fun _ _ _ _ hfound => Chain.numbered_single _ _ hfound.fields.1) hdone)
  · rw [heq]
    refine ⟨hstable.start_done h.ordered
      (fun _ _ _ _ hfound => Chain.numbered_single _ _ hfound.fields.1) hdone, fun s' hs' => ?_⟩
    cases hs'
    have husable := Usable.started hC h.ordered hdone
    exact ⟨husable.numbered, husable.active⟩

lemma UsableInv.rotate (hC : Correct C) (h : UsableInv C sys) {s : Signer}
    (hsig : sys.signer = some s) {rs : List Choice} (ha : Erasing C dir sys (.rotate rs)) :
    UsableInv C (step C dir sys (.rotate rs)) := by
  have hstable := @ordered_stable C (Destroys (sys.signer.bind Signer.active)) fun _ _ _ hr => hr
  have hs := h.signer s hsig
  rcases rotate_cases hsig ha with ⟨op, w, -, hstop, heq⟩ | ⟨s', res, w, hdone, heq⟩
  · rw [heq]
    exact .stopped (hstable.rotate_stop h.ordered
      (fun _ _ _ _ _ _ hprep => hprep.numbered hs.numbered) hstop trivial)
  · rw [heq]
    refine ⟨hstable.rotate_done h.ordered
      (fun _ _ _ _ _ _ hprep => hprep.numbered hs.numbered) hdone, fun s'' hs'' => ?_⟩
    cases hs''
    refine hs.rotated hC (fun k hk => ?_) hdone
    rintro ⟨w, r, hr, herr⟩
    refine herr (hr ?_)
    rw [hsig, bind_some, hk]
    rfl

lemma usable_step (hC : Correct C) (a : Action) (h : UsableInv C sys)
    (ha : Erasing C dir sys a) : UsableInv C (step C dir sys a) := by
  cases a with
  | start => exact h.start hC ha
  | rotate => exact step_running (I := UsableInv C) h (by simp) fun s hsig => h.rotate hC hsig ha
  | checkpoint =>
    refine step_running (I := UsableInv C) h (by simp) fun s hsig => ?_
    obtain ⟨w, hw, hcases⟩ := checkpoint_cases hsig ha
    have hafter : UsableInv C { sys with world := w } := by
      rcases hw with rfl | ⟨r, -, rfl⟩
      · exact h
      · exact ⟨h.ordered.frame rfl h.ordered.docs,
          fun s hs => (h.signer s hs).later (.tick False.elim)⟩
    rcases hcases with heq | heq | ⟨rootPub, c, -, -, heq⟩
    · rw [heq]
      exact .stopped hafter.ordered
    · rw [heq]
      exact ⟨hafter.ordered, hafter.signer⟩
    · rw [heq]
      exact ⟨hafter.ordered, hafter.signer⟩

/-- **A step keeps the active key the one that the chain names.** -/
theorem matches_step (a : Action) (h : ∀ s, sys.signer = some s → Matches s)
    (ha : InTime C sys a) : ∀ s, (step C dir sys a).signer = some s → Matches s := by
  have hadm : Admitted C dir (fun _ _ _ => True) sys a := by
    cases a with
    | start origin store rotator rs => exact admits_of_forall (fun _ _ _ => trivial) _ _ _
    | rotate rs => exact fun _ _ => admits_of_forall (fun _ _ _ => trivial) _ _ _
    | checkpoint size root head beacon rs => exact admitted_checkpoint size root head beacon rs
  cases a with
  | start origin store rotator rs =>
    intro s' hs'
    rcases start_cases hadm with ⟨op, w, -, -, heq⟩ | ⟨e, w, -, heq⟩ | ⟨s, w, hdone, heq⟩
    · rw [heq] at hs'
      cases hs'
    · rw [heq] at hs'
      cases hs'
    · rw [heq] at hs'
      cases hs'
      have hmatches := Matches.started hdone
      exact hmatches
  | rotate rs =>
    intro s' hs'
    cases hsig : sys.signer with
    | none =>
      rw [step_idle hsig fun _ _ _ _ => by simp] at hs'
      exact h s' hs'
    | some s =>
      cases hexec : (s.rotate C).exec (perform C) sys.world rs with
      | mk w p =>
      cases p with
      | ask op k => simp [step, hsig, hexec] at hs'
      | ret out =>
        obtain ⟨s'', res⟩ := out
        have hdone := (safe_rotate s sys.world).returned (hadm s hsig) hexec
        simp only [step, hsig, hexec, Option.some.injEq] at hs'
        subst hs'
        refine (h s hsig).rotated hdone fun e he => ?_
        subst he
        have htime := ha s hsig
        simp only [failsLate, hexec, decide_eq_false_iff_not] at htime
        omega
  | checkpoint size root head beacon rs =>
    intro s' hs'
    cases hsig : sys.signer with
    | none =>
      rw [step_idle hsig fun _ _ _ _ => by simp] at hs'
      exact h s' hs'
    | some s =>
      obtain ⟨w, -, hcases⟩ := checkpoint_cases hsig hadm
      rcases hcases with heq | heq | ⟨rootPub, c, -, -, heq⟩
      · rw [heq] at hs'
        cases hs'
      · rw [heq] at hs'
        exact h s' hs'
      · rw [heq] at hs'
        exact h s' hs'

end

def ioError : Err := .errorf "input/output error" []

def unwrittenRun : List Action :=
  [.start (lit "log") (.file sampleDir false) none (genesisChoices 1 10),
    .rotate [{ edKey := keyOf 2 }, { now := 20, count := 1 }, {}, {}, {}, {}, { now := 20 },
      { err := some ioError }, {}, {}, {}, {}, {}, {}, {}]]

def stuckRun : List Action :=
  [.start (lit "log") (.pkcs11 (lit "log")) none
      [{}, {}, { bytes := [1] }, { edKey := keyOf 1 }, {}, { now := 10 }, {}, {},
        {}, {}, {}, {}, {}],
    .rotate [{ bytes := [2] }, { edKey := keyOf 2 }, {}, { now := 20 }, {}, {},
      {}, {}, {}, {}, {}, { err := some ioError }, {}]]

end Keys

end Stele
