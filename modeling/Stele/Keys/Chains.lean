import Stele.Keys.Invariant

/-!
# The chains that a signer makes

A certificate that the key of the last epoch signed verifies (`SignedCert.singleOk`), so a new log
starts with a good chain (`Founded.good`) and a rotation extends a good chain to a good chain
(`Prepared.good`). With that `Rotate` and `NewSignerWithStore` keep the invariant, where they end
and where they stop: `rotate_done`, `rotate_stop`, `start_done`, `start_stop`.
-/

namespace Stele

open Lib List Option

namespace Chain

lemma linked_concat {C : Crypto} {group : Option Group} {prev : Option RotationCert}
    {cs : List RotationCert} {last c : RotationCert} (h : Linked C group prev (cs ++ [last]))
    (hver : c.SingleOk C ∨ c.GroupOk C group) (hlink : Link last c) :
    Linked C group prev (cs ++ [last] ++ [c]) := by
  induction cs generalizing prev with
  | nil =>
    refine ⟨h.1, h.2.1, hver, fun p hp => ?_, trivial⟩
    rw [← Option.some.inj hp]
    exact hlink
  | cons d cs ih => exact ⟨h.1, h.2.1, ih h.2.2⟩

end Chain

namespace Keys

open Prog

variable {C : Crypto} {group : Option Group} {quant clocked crashes : Prop} {w : World}
  {ok : Op → World → Choice → Prop} (hC : Correct C) (henv : Env C ok clocked crashes)

section
include hC henv

omit henv in
lemma Signs.edValid {key : LiveKey} {c : RotationCert} {priv : Bytes} (h : Signs C w key c)
    (hholds : key.Holds w priv) (msg : Bytes) : C.EdValid c.publicKey msg (C.edSign priv msg) := by
  cases key with
  | file =>
    obtain ⟨e, q, hpriv, -, -, hpub, -⟩ := h (by rw [hholds]; simp)
    rw [hholds, Option.some.injEq] at hpriv
    subst hpriv
    rw [hpub]
    exact ⟨hC.edPublic_length e, hC.edVerify_edSign e _⟩
  | hsm =>
    obtain ⟨o, ho, hcls, rfl⟩ := hholds
    obtain ⟨e, he, hpub, -⟩ := h.2 o ho hcls
    rw [hpub, he]
    exact ⟨hC.edPublic_length e, hC.edVerify_edSign e _⟩

omit henv in
lemma Signs.dilValid {key : LiveKey} {c : RotationCert} {priv msg qsig : Bytes}
    (h : Signs C w key c) (hholds : key.Holds w priv) (hqsign : key.quantumSign C msg = .ok qsig) :
    C.DilValid c.quantumPublicKey msg qsig ∧ qsig.length = quantumSignatureSize := by
  cases key with
  | file =>
    obtain ⟨e, q, -, hqPriv, -, -, hqpub⟩ := h (by rw [hholds]; simp)
    cases q with
    | none => simp [LiveKey.quantumSign, hqPriv] at hqsign
    | some d =>
      simp only [LiveKey.quantumSign, hqPriv, map_some, Except.ok.injEq] at hqsign
      subst hqsign
      rw [hqpub]
      exact ⟨⟨hC.dilPublic_length d, hC.dilVerify_dilSign d _⟩, hC.dilSign_length d _⟩
  | hsm => cases hqsign

omit henv in
lemma SignedCert.singleOk {key : LiveKey} {quantum : Prop} {unsigned cert signer : RotationCert}
    (h : SignedCert C w key quantum unsigned cert) (hsigns : Signs C w key signer)
    (hby : unsigned.signedBy = signer.publicKey)
    (hlen : unsigned.publicKey.length = edPublicKeySize) (hsigs : unsigned.memberSigs = [])
    (hqsig : unsigned.quantumSignature = [])
    (hq : quantum → unsigned.quantumPublicKey.length = quantumPublicKeySize ∧
      unsigned.quantumSignedBy = signer.quantumPublicKey)
    (hnq : ¬ quantum → unsigned.quantumPublicKey = [] ∧ unsigned.quantumSignedBy = []) :
    cert.SingleOk C := by
  obtain ⟨priv, qsig, hholds, rfl, hquantum, hclassical⟩ := h.signed
  have hsigned : C.EdValid unsigned.signedBy unsigned.canonical
      (C.edSign priv unsigned.canonical) := by
    rw [hby]
    exact hsigns.edValid hC hholds _
  refine ⟨hsigs, hlen, hsigned, fun hany => ?_⟩
  by_cases hqu : quantum
  · obtain ⟨hqlen, hqby⟩ := hq hqu
    obtain ⟨hvalid, hsiglen⟩ := hsigns.dilValid hC hholds (hquantum hqu)
    rw [← hqby] at hvalid
    exact ⟨hqlen, hsiglen, hvalid⟩
  · obtain ⟨hqpk, hqby⟩ := hnq hqu
    rw [hclassical hqu, hqsig] at hany
    simp [hqpk, hqby] at hany

omit hC henv in
lemma generate_hybrid {store : KeyStore} {key : LiveKey} {w1 : World}
    (hdone : GenerateDone C ok store w (.ok key) w1) :
    key.quantumPublic.isSome = true ↔ ∃ dir, store = .file dir true := by
  cases store with
  | file dir =>
    cases hdone with
    | done hnew =>
      rename_i priv qPriv path w2
      have hsome : (fileKey C path priv (qPriv.map Subtype.val)).quantumPublic.isSome =
          qPriv.isSome := by
        cases qPriv <;> rfl
      rw [hsome, hnew.hybrid_iff]
      constructor
      · rintro rfl
        exact ⟨dir, rfl⟩
      · rintro ⟨dir', hdir⟩
        cases hdir
        rfl
  | pkcs11 =>
    cases hdone
    constructor
    · intro h
      cases h
    · rintro ⟨dir, hdir⟩
      cases hdir

lemma Founded.good {origin dir : Bytes} {store : KeyStore} {active : LiveKey}
    {cert : RotationCert} {now : Int} {w1 : World} (h : Core C group quant clocked w)
    (hfound : Founded C ok dir store w active cert now w1)
    (hquant : quant → ∃ dir, store = .file dir true) :
    Core C group quant clocked (w1.tick now) ∧ NewActive C (w1.tick now) active ∧
      Good C group quant clocked (w1.tick now) ⟨origin, [some cert], active.locator⟩ ∧
      cert.publicKey = active.pub ∧ cert.quantumPublicKey = active.quantumPublic.getD [] := by
  have hcore := (core_stable henv).founded h hfound
  obtain ⟨r, hr, rfl⟩ := hfound.clock
  have hnew : NewActive C (w1.tick r.now) active :=
    (hfound.gen.newActive hC).later (.tick fun hcl => henv.clock hcl w1 r hr)
  have hsigns : Signs C (w1.tick r.now) active (genesisCert r.now active) := hnew.signs _ rfl rfl
  have hsingle : cert.SingleOk C := by
    refine hfound.signed.singleOk hC hsigns rfl hnew.length rfl rfl ?_ ?_
    · intro hq
      obtain ⟨q, hq⟩ := isSome_iff_exists.mp hq
      refine ⟨?_, rfl⟩
      show (active.quantumPublic.getD []).length = _
      rw [hq]
      exact hnew.quantum_length q hq
    · intro hq
      rw [Bool.not_eq_true, isSome_eq_false_iff, isNone_iff_eq_none] at hq
      constructor <;> simp [genesisCert, hq]
  obtain ⟨priv, qsig, -, rfl, -, -⟩ := hfound.signed.signed
  refine ⟨hcore, hnew, ?_, rfl, rfl⟩
  refine ⟨⟨_, [], rfl, rfl, rfl, rfl, .inr rfl, .inl hsingle, ?_, trivial⟩, ?_, ?_, ?_, ?_⟩
  · intro p hp
    cases hp
  · intro c hc
    cases mem_singleton.mp hc
    exact hnew.made
  · intro c hc
    cases mem_singleton.mp hc
    exact RotationCert.crossed_single rfl rfl
  · intro hq c hc
    cases mem_singleton.mp hc
    obtain ⟨q, hsome⟩ := isSome_iff_exists.mp ((generate_hybrid hfound.gen).mpr (hquant hq))
    have hlen := hnew.quantum_length q hsome
    show active.quantumPublic.getD [] ≠ []
    rw [hsome]
    rintro rfl
    cases hlen
  · intro _ c hc
    cases mem_singleton.mp hc
    exact le_refl _

end

/-- What the results ask of a rotation: the new epoch does not start before the last one, a hybrid
store follows a hybrid epoch, cosigners return a quorum of the group, and the private object of the
key before can be destroyed. -/
structure RotateEnv (C : Crypto) (ok : Op → World → Choice → Prop) (group : Option Group)
    (quant clocked : Prop) (s : Signer) : Prop where
  started : ∀ last, s.chain.certs.getLast? = some (some last) → ∀ w r, ok .unixNano w r →
    clocked ∨ last.startedAt ≤ r.now
  hybrid : quant → ∃ dir, s.store = .file dir true
  quantum : ∀ dir last, s.store = .file dir true → s.threshRotator = none →
    s.chain.certs.getLast? = some (some last) → last.quantumPublicKey ≠ []
  quorum : ∀ g, s.threshRotator = some (some g) → group = some g ∧
    ∀ msg label w r, ok (.cosign msg label) w r → r.err = none →
      verifyMulti C (some g) msg r.sigs = .ok () ∧
      r.sigs.map (Option.map MemberSig.crossed) = r.sigs
  destroyed : ∀ k, s.active = some (.hsm k) → ¬ Fails ok (.destroyObject k.privObj)

section
variable {s : Signer}

lemma quorum_ne_nil {g : Option Group} {msg : Bytes} {sigs : List (Option MemberSig)}
    (h : verifyMulti C g msg sigs = .ok ()) : sigs ≠ [] := by
  rintro rfl
  obtain ⟨g, -, ⟨ms, hwf⟩, hle⟩ := verifyMulti_ok.mp h
  have hempty : (signers C g msg []).card = 0 := by
    rw [Finset.card_eq_zero, Finset.eq_empty_iff_forall_notMem]
    intro m hm
    simp [mem_signers] at hm
  have := hwf.threshold_pos
  omega

lemma Certified.verifies (hC : Correct C) {prevActive newActive : LiveKey}
    {prevCert cert : RotationCert} {now : Int} (henv : RotateEnv C ok group quant clocked s)
    (hlast : s.chain.certs.getLast? = some (some prevCert))
    (hsigns : Signs C (w.tick now) prevActive prevCert) (hnew : NewActive C w newActive)
    (hhyb : newActive.quantumPublic.isSome = true ↔ ∃ dir, s.store = .file dir true)
    (h : Certified C ok s prevActive prevCert newActive w now cert) :
    (cert.SingleOk C ∨ cert.GroupOk C group) ∧ cert.crossed = cert ∧
      cert.epoch = prevCert.epoch + 1 ∧ cert.publicKey = newActive.pub ∧ cert.startedAt = now ∧
      cert.signedBy = prevCert.publicKey ∧
      cert.quantumPublicKey = newActive.quantumPublic.getD [] ∧
      (cert.quantumPublicKey ≠ [] ∨ cert.quantumSignedBy ≠ [] →
        cert.quantumSignedBy = prevCert.quantumPublicKey) := by
  have hquantum : newActive.quantumPublic.getD [] ≠ [] ∨
      (Signer.rotationCert now prevCert newActive).quantumSignedBy ≠ [] →
      (Signer.rotationCert now prevCert newActive).quantumSignedBy = prevCert.quantumPublicKey := by
    intro hany
    cases hq : newActive.quantumPublic with
    | none => simp [Signer.rotationCert, hq] at hany
    | some => simp [Signer.rotationCert, hq]
  cases h with
  | single hmode hsigned =>
    have hsingle : cert.SingleOk C := by
      refine hsigned.singleOk hC hsigns rfl hnew.length rfl rfl ?_ ?_
      · rintro ⟨hq, -⟩
        refine ⟨?_, hquantum (.inl hq)⟩
        show (newActive.quantumPublic.getD []).length = _
        cases hsome : newActive.quantumPublic with
        | none => simp [hsome] at hq
        | some q => exact hnew.quantum_length q hsome
      · intro hnq
        cases hsome : newActive.quantumPublic with
        | none => constructor <;> simp [Signer.rotationCert, hsome]
        | some =>
          -- A hybrid key after an epoch without a quantum key is what `henv` excludes.
          exfalso
          obtain ⟨dir, hstore⟩ := hhyb.mp (by rw [hsome]; rfl)
          refine hnq ⟨?_, henv.quantum dir prevCert hstore hmode hlast⟩
          rw [hsome, getD_some]
          rintro rfl
          have hlen := hnew.quantum_length [] hsome
          cases hlen
    obtain ⟨priv, qsig, -, rfl, -, -⟩ := hsigned.signed
    exact ⟨.inl hsingle, RotationCert.crossed_single rfl rfl, rfl, rfl, rfl, rfl, rfl, hquantum⟩
  | group hmode hdigest hcert hr herr =>
    rename_i g digest label r
    obtain ⟨rfl, hquorum⟩ := henv.quorum g hmode
    obtain ⟨hver, hcrossed⟩ := hquorum _ _ _ _ hr herr
    subst hcert
    refine ⟨.inr ⟨quorum_ne_nil hver, ⟨g, digest, rfl, hdigest, rfl⟩, hver⟩, ?_, rfl, rfl, rfl,
      rfl, rfl, hquantum⟩
    simp only [RotationCert.crossed, hcrossed, coerce_of_utf8 (utf8_hex digest)]

lemma extend_getLast? (ch : Chain) (cert : RotationCert) (locator : Bytes) :
    (ch.extend cert locator).certs.getLast? = some (some cert) := by
  simp [Chain.extend]

lemma Good.extend {ch : Chain} {last cert : RotationCert} (h : Good C group quant clocked w ch)
    (hlast : ch.certs.getLast? = some (some last)) (hver : cert.SingleOk C ∨ cert.GroupOk C group)
    (hlink : Chain.Link last cert) (hmade : (cert.publicKey, cert.quantumPublicKey) ∈ w.made)
    (hcrossed : cert.crossed = cert) (hquant : quant → cert.quantumPublicKey ≠ [])
    (hstarted : clocked → cert.startedAt ≤ w.clock) (locator : Bytes) :
    Good C group quant clocked w (ch.extend cert locator) := by
  obtain ⟨genesis, rest, hacc⟩ := h.accepted
  have hmap : (genesis :: rest).getLast? = some last := by
    have hcerts := hlast
    rw [hacc.certs, getLast?_map, map_eq_some_iff] at hcerts
    obtain ⟨c, hc, heq⟩ := hcerts
    rw [hc, Option.some.inj heq]
  obtain ⟨init, hinit⟩ := getLast?_eq_some_iff.mp hmap
  have hlinked : Chain.Linked C group none (genesis :: (rest ++ [cert])) := by
    have hold := hacc.linked
    rw [hinit] at hold
    have hnew := Chain.linked_concat hold hver hlink
    rw [← hinit] at hnew
    exact hnew
  have hmem : ∀ P : RotationCert → Prop, (∀ c, some c ∈ ch.certs → P c) → P cert →
      ∀ c, some c ∈ (ch.extend cert locator).certs → P c := by
    intro P hold hnew c hc
    rcases mem_append.mp hc with hc | hc
    · exact hold c hc
    · cases mem_singleton.mp hc
      exact hnew
  refine ⟨⟨genesis, rest ++ [cert], ?_, hacc.epoch, rfl, hacc.signedBy, hacc.quantum, hlinked⟩,
    hmem _ h.made hmade, hmem _ h.crossed hcrossed, fun hq => hmem _ (h.quant hq) (hquant hq),
    fun hcl => hmem _ (h.started hcl) (hstarted hcl)⟩
  show ch.certs ++ [some cert] = (genesis :: (rest ++ [cert])).map some
  rw [hacc.certs]
  simp

variable (hrot : RotateEnv C ok group quant clocked s) (h : Core C group quant clocked w)
  (hs : CoreSigner C group quant clocked w s)
include hC henv hrot h hs

lemma Prepared.good {prevActive newActive : LiveKey} {prevCert cert : RotationCert} {now : Int}
    {w1 : World} (hprep : Prepared C ok s w prevActive newActive prevCert cert now w1) :
    Core C group quant clocked (w1.tick now) ∧ Later clocked w (w1.tick now) ∧
      NewActive C (w1.tick now) newActive ∧
      Good C group quant clocked (w1.tick now) (s.chain.extend cert newActive.locator) ∧
      cert.publicKey = newActive.pub ∧
      cert.quantumPublicKey = newActive.quantumPublic.getD [] := by
  have hcore := (core_stable henv).prepared h hprep
  have hlater := hprep.later henv.clock
  have hnew := hprep.gen.newActive hC
  obtain ⟨r, hr, rfl⟩ := hprep.clock
  have htick := fun hcl => henv.clock hcl w1 r hr
  have hs1 := hs.later hlater
  have hhyb := generate_hybrid hprep.gen
  obtain ⟨hver, hcrossed, hepoch, hpub, hstart, hby, hqpub, hq⟩ := hprep.certified.verifies hC hrot
    hprep.last (hs1.signs _ _ hprep.active hprep.last) hnew hhyb
  have hmem : some prevCert ∈ s.chain.certs := mem_of_getLast? hprep.last
  have hle : prevCert.startedAt ≤ r.now := by
    rcases hrot.started prevCert hprep.last w1 r hr with hcl | hle
    · exact ((hs.later hprep.gen.later).good.started hcl prevCert hmem).trans (htick hcl)
    · exact hle
  have hlink : Chain.Link prevCert cert := ⟨hepoch, hstart ▸ hle, fun _ => hby, fun _ => hq⟩
  have hquant : quant → cert.quantumPublicKey ≠ [] := by
    intro hqu
    obtain ⟨q, hsome⟩ := isSome_iff_exists.mp (hhyb.mpr (hrot.hybrid hqu))
    rw [hqpub, hsome, getD_some]
    rintro rfl
    have hlen := hnew.quantum_length [] hsome
    cases hlen
  have hgood := hs1.good.extend hprep.last hver hlink
    (by rw [hpub, hqpub]; exact (hnew.later (.tick htick)).made) hcrossed hquant
    (fun _ => hstart.le) newActive.locator
  exact ⟨hcore, hlater, hnew.later (.tick htick), hgood, hpub, hqpub⟩

lemma rotate_stop {op : Op} {w' : World} (hstop : RotateStop C ok s w op w')
    (hcrash : crashes) : Core C group quant clocked w' := by
  refine (core_stable henv).rotate_stop h (fun _ _ _ _ _ _ hprep => ?_) hstop hcrash
  obtain ⟨-, -, -, hgood, -⟩ := hprep.good hC henv hrot h hs
  exact hgood

lemma rotate_done {res : Signer × Res RotationCert} {w' : World}
    (hdone : RotateDone C ok s w res w') :
    Core C group quant clocked w' ∧ CoreSigner C group quant clocked w' res.1 := by
  have hcore : Core C group quant clocked w' := by
    refine (core_stable henv).rotate_done h (fun _ _ _ _ _ _ hprep => ?_) hdone
    obtain ⟨-, -, -, hgood, -⟩ := hprep.good hC henv hrot h hs
    exact hgood
  have hs' := hs.later (hdone.later henv.clock)
  refine ⟨hcore, ?_⟩
  cases hdone with
  | refused => exact hs'
  | noKey => exact hs'
  | nilCert => exact hs'
  | unsigned => exact hs'
  | unpublished => exact ⟨hs'.good.of_certs rfl, hs'.signs⟩
  | kept hprep hdone =>
    rename_i prevActive prevActive' newActive prevCert cert now e e' w1
    obtain ⟨-, hlater1, -, hgood, -⟩ := hprep.good hC henv hrot h hs
    have hlater : Later clocked (w1.tick now) w' := (Later.publish _ _ _).trans hdone.later
    refine ⟨hgood.later hlater, fun active last hactive _ => ?_⟩
    cases hactive
    -- The key before has lost what it signed with.
    cases prevActive with
    | file =>
      obtain ⟨rfl, -⟩ := hdone
      exact fun hne => absurd rfl hne
    | hsm k =>
      obtain ⟨rfl, -, hgone⟩ := hdone
      have hold := hs.signs _ _ hprep.active hprep.last
      refine ⟨lt_of_lt_of_le hold.1 (hlater1.trans hlater).length, fun o ho => ?_⟩
      rcases hgone with hgone | hfails
      · rw [hgone] at ho
        cases ho
      · exact absurd hfails (hrot.destroyed k hprep.active)
  | rotated hprep hdone =>
    rename_i prevActive prevActive' newActive prevCert cert now w1
    obtain ⟨-, -, hnew, hgood, hpub, hqpub⟩ := hprep.good hC henv hrot h hs
    have hlater : Later clocked (w1.tick now) w' := (Later.publish _ _ _).trans hdone.later
    refine ⟨hgood.later hlater, fun active last hactive hlast => ?_⟩
    cases hactive
    rw [show (s.chain.extend cert newActive.locator).certs.getLast? = _ from
      extend_getLast? _ _ _, Option.some.injEq, Option.some.injEq] at hlast
    subst hlast
    exact (hnew.signs cert hpub hqpub).later hlater

end

section
variable {origin dir : Bytes} {store : KeyStore}

def Reads (dir : Bytes) (w : World) (ch : Chain) : Prop :=
  ∃ j, w.files (chainPath dir) = some (.doc j) ∧ Chain.ofJson j = .ok ch

lemma Reads.unique {ch ch' : Chain} (h : Reads dir w ch) (h' : Reads dir w ch') : ch = ch' := by
  obtain ⟨j, hfile, hparse⟩ := h
  obtain ⟨j', hfile', hparse'⟩ := h'
  rw [hfile] at hfile'
  cases hfile'
  rw [hparse] at hparse'
  exact Except.ok.inj hparse'

lemma Reads.good {ch : Chain} (h : Reads dir w ch) (hcore : Core C group quant clocked w) :
    Good C group quant clocked w ch := by
  obtain ⟨j, hfile, hparse⟩ := h
  obtain ⟨ch', rfl, hgood⟩ := hcore.files _ _ hfile
  rw [Chain.ofJson_toJson, Except.ok.injEq] at hparse
  subst hparse
  exact hgood.of_certs hgood.read

lemma Reopened.good (h : Core C group quant clocked w) {chain : Chain} {active : LiveKey}
    (hopen : Reopened C origin dir store w chain active) : Good C group quant clocked w chain :=
  Reads.good hopen.read h

lemma Loaded.own (hC : Correct C) (h : Paired C w) {locator : Bytes} {active : LiveKey}
    (hload : Loaded C w locator store active) {c : RotationCert} (hpub : c.publicKey = active.pub)
    (hq : c.quantumPublicKey = active.quantumPublic.getD []) : Signs C w active c := by
  cases store with
  | file =>
    obtain ⟨raw, priv, qPriv, -, hdec, rfl⟩ := hload
    obtain ⟨e, d, rfl, rfl⟩ := decodePrivate_lengths hdec
    exact fun _ => ⟨e, d, rfl, rfl, rfl, hpub, hq⟩
  | pkcs11 =>
    obtain ⟨k, priv, pub, der, rfl, hpriv, hprivl, hprivc, hpubo, hpubl, hpubc, hdec⟩ := hload
    have hlen := h.privs _ _ hpriv hprivc
    have hval := h.pairs _ _ _ _ hpriv hpubo (hprivl.trans hpubl.symm) hprivc hpubc
    rw [hval, decodePoint_point (hC.edPublic_length ⟨priv.value, hlen⟩), Except.ok.injEq] at hdec
    have hlt : k.privObj < w.objects.length := by
      by_contra hge
      simp [World.object, getElem?_eq_none (Nat.le_of_not_lt hge)] at hpriv
    refine ⟨hlt, fun o ho _ => ?_⟩
    rw [hpriv, Option.some.injEq] at ho
    subst ho
    exact ⟨⟨priv.value, hlen⟩, rfl, hpub.trans hdec.symm, hq⟩

lemma Loaded.made (hC : Correct C) (h : Core C group quant clocked w) {locator : Bytes}
    {active : LiveKey} (hload : Loaded C w locator store active) :
    (active.pub, active.quantumPublic.getD []) ∈ w.made := by
  cases store with
  | file =>
    obtain ⟨raw, priv, qPriv, hfile, hdec, rfl⟩ := hload
    exact h.files _ _ hfile _ _ hdec
  | pkcs11 =>
    obtain ⟨k, priv, pub, der, rfl, hpriv, hprivl, hprivc, hpubo, hpubl, hpubc, hdec⟩ := hload
    have hlen := h.privs _ _ hpriv hprivc
    have hval := h.pairs _ _ _ _ hpriv hpubo (hprivl.trans hpubl.symm) hprivc hpubc
    have hmade := h.tokens _ _ hpubo hpubc
    rw [hval, decodePoint_point (hC.edPublic_length ⟨priv.value, hlen⟩), Except.ok.injEq] at hdec
    rw [hval, hdec] at hmade
    exact hmade

lemma Loaded.signs (hC : Correct C) (h : Core C group quant clocked w) {chain : Chain}
    (hgood : Good C group quant clocked w chain) {locator : Bytes} {active : LiveKey}
    {last : RotationCert} (hload : Loaded C w locator store active)
    (hlast : chain.certs.getLast? = some (some last)) (hpub : last.publicKey = active.pub) :
    Signs C w active last := by
  refine hload.own hC h.paired hpub ?_
  have hcert := hgood.made last (mem_of_getLast? hlast)
  have hinj := inj_on_of_nodup_map h.fresh hcert (hload.made hC h) hpub
  exact (Prod.mk.inj hinj).2

variable (h : Core C group quant clocked w) (hquant : quant → ∃ dir, store = .file dir true)
include hC henv h hquant

/-- **`NewSignerWithStore` keeps the invariant where it stops.** -/
theorem start_stop {op : Op} {w' : World} (hstop : StartStop C ok origin dir store w op w')
    (hcrash : crashes) : Core C group quant clocked w' := by
  refine (core_stable henv).start_stop h (fun _ _ _ _ hfound => ?_) hstop hcrash
  obtain ⟨-, -, hgood, -⟩ := hfound.good hC henv h hquant
  exact hgood

lemma start_done {res : Res Signer} {w' : World}
    (hdone : StartDone C ok origin dir store w res w') :
    Core C group quant clocked w' ∧
      ∀ s, res = .ok s → CoreSigner C group quant clocked w' s ∧ s.store = store := by
  refine ⟨(core_stable henv).start_done h (fun _ _ _ _ hfound => ?_) hdone, fun s hs => ?_⟩
  · obtain ⟨-, -, hgood, -⟩ := hfound.good hC henv h hquant
    exact hgood
  subst hs
  cases hdone with
  | founded hfound =>
    obtain ⟨-, hnew, hgood, hpub, hqpub⟩ := hfound.good hC henv h hquant
    refine ⟨⟨hgood.later (.publish _ _ _), fun active last hactive hlast => ?_⟩, rfl⟩
    cases hactive
    cases hlast
    exact (hnew.signs _ hpub hqpub).later (@Later.publish clocked _ _ _)
  | reopened hopen hpub =>
    have hgood := hopen.good h
    refine ⟨⟨hgood, fun active last hactive hlast => ?_⟩, rfl⟩
    cases hactive
    refine hopen.load.signs hC h hgood hlast ?_
    rw [Chain.activePublicKey, hlast] at hpub
    exact Except.ok.inj hpub

end

end Keys

end Stele
