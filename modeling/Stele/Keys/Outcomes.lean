import Stele.Keys.Signer

/-!
# What the signer's methods leave behind

One statement for each method: where it may stop and how it may end, with the environment's
choices on the way. Every result about runs is read off these.
-/

namespace Stele.Keys

open Lib Prog

/-! ## The parts -/

namespace World

def tick (w : World) (now : Int) : World := { w with clock := now }

def publish (w : World) (dir : Bytes) (chain : Chain) : World :=
  { (w.drop (tmpPath dir)).put (chainPath dir) (.doc chain.toJson) with renames := w.renames + 1 }

end World

inductive ChainStop (dir : Bytes) (chain : Chain) (w : World) : Op → World → Prop
  | writing {op : Op} {w1 : World} (h : WriteStop (tmpPath dir) (.doc chain.toJson) w op w1) :
      ChainStop dir chain w op w1
  | moving : ChainStop dir chain w (.rename (tmpPath dir) (chainPath dir))
      (w.put (tmpPath dir) (.doc chain.toJson))

inductive ChainDone (ok : Op → World → Choice → Prop) (dir : Bytes) (chain : Chain) (w : World) :
    Option Err → World → Prop
  | unwritten {e : Err} {w1 : World}
      (h : WriteDone ok (tmpPath dir) (.doc chain.toJson) w (some e) w1) :
      ChainDone ok dir chain w (some e) w1
  | unrenamed {e : Err} (h : Fails ok (.rename (tmpPath dir) (chainPath dir))) :
      ChainDone ok dir chain w (some e) (w.put (tmpPath dir) (.doc chain.toJson))
  | done : ChainDone ok dir chain w none (w.publish dir chain)

def GenerateStop (C : Crypto) (ok : Op → World → Choice → Prop) :
    KeyStore → World → Op → World → Prop
  | .file dir hybrid, w => GenStop C ok dir hybrid w
  | .pkcs11 keyPrefix, w =>
    fun _ w1 => w1 = w ∨ ∃ label priv, NewPair C ok keyPrefix w label priv w1

def GenerateDone (C : Crypto) (ok : Op → World → Choice → Prop) :
    KeyStore → World → Res LiveKey → World → Prop
  | .file dir hybrid, w => GenDone C ok dir hybrid w
  | .pkcs11 keyPrefix, w => GenHsmDone C ok keyPrefix w

def DestroyStop (ok : Op → World → Choice → Prop) : LiveKey → World → Op → World → Prop
  | .file k, w => EraseStop ok k.path w
  | .hsm k, w => fun _ w1 => w.Lost [k.privObj, k.pubObj] w1

def DestroyDone (ok : Op → World → Choice → Prop) :
    LiveKey → World → LiveKey × Option Err → World → Prop
  | .file k, w => fun res w' =>
    res.1 = .file { k with priv := none, qPriv := none } ∧ EraseDone ok k.path w res.2 w'
  | .hsm k, w => fun res w' => res.1 = .hsm k ∧ w.Lost [k.privObj, k.pubObj] w' ∧
    (w'.object k.privObj = none ∨ Fails ok (.destroyObject k.privObj))

def Loaded (C : Crypto) (w : World) (locator : Bytes) : KeyStore → LiveKey → Prop
  | .file _ _, key => ∃ raw priv qPriv, w.files locator = some (.text raw) ∧
    decodePrivate raw = .ok (priv, qPriv) ∧ key = fileKey C locator priv qPriv
  | .pkcs11 _, key => ∃ k priv pub der, key = .hsm k ∧
    w.object k.privObj = some priv ∧ priv.label = locator ∧ priv.cls = .privateKey ∧
    w.object k.pubObj = some pub ∧ pub.label = locator ∧ pub.cls = .publicKey ∧
    decodePoint (if der = true then 4 :: 32 :: pub.value else pub.value) = .ok k.pubKey

structure SignedCert (C : Crypto) (w : World) (key : LiveKey) (quantum : Prop)
    (unsigned cert : RotationCert) : Prop where
  signed : ∃ priv qsig, key.Holds w priv ∧
    cert = { unsigned with
      signature := C.edSign priv unsigned.canonical
      quantumSignature := qsig } ∧
    (quantum → key.quantumSign C unsigned.canonical = .ok qsig) ∧
    (¬ quantum → qsig = unsigned.quantumSignature)

def LiveKey.Ready (quantum : Prop) : LiveKey → Prop
  | .file k => k.priv.isSome ∧ (quantum → k.qPriv.isSome)
  | .hsm _ => False

variable {C : Crypto} {ok : Op → World → Choice → Prop}

lemma safe_writeChain (dir : Bytes) (chain : Chain) (w : World) :
    Safe (perform C) ok (ChainStop dir chain w) (ChainDone ok dir chain w) (writeChain dir chain)
      w := by
  refine (safe_writeFile _ _ w).bind (fun op w1 h => .writing h) ?_
  intro err w1 hdone
  cases err with
  | some => exact .unwritten hdone
  | none =>
    cases hdone
    refine ⟨.moving, fun r hr => ?_⟩
    cases herr : r.err with
    | some =>
      simp only [perform, herr]
      exact .unrenamed ⟨_, r, hr, by simp [herr]⟩
    | none =>
      simp only [perform, herr, World.put_files_self, World.put_drop]
      exact .done

lemma safe_generate (store : KeyStore) (w : World) :
    Safe (perform C) ok (GenerateStop C ok store w) (GenerateDone C ok store w) (store.generate C)
      w := by
  cases store with
  | file dir hybrid => exact safe_generateFile dir hybrid w
  | pkcs11 keyPrefix => exact safe_generateHsm keyPrefix w

lemma safe_destroy (key : LiveKey) (w : World) :
    Safe (perform C) ok (DestroyStop ok key w) (DestroyDone ok key w) key.destroy w := by
  cases key with
  | file k =>
    refine (safe_removeKeyFile k.path w).bind (fun _ _ h => h) ?_
    exact fun err w1 hdone => ⟨rfl, hdone⟩
  | hsm k => exact safe_destroyHsm k w

lemma safe_load (store : KeyStore) (locator : Bytes) (w : World) :
    Safe (perform C) ok (fun _ w1 => w1 = w)
      (fun res w' => w' = w ∧ ∀ key, res = .ok key → Loaded C w locator store key)
      (store.load C locator) w := by
  cases store with
  | file => exact safe_loadFile locator w
  | pkcs11 => exact safe_loadHsm locator w

lemma safe_discard {α : Type} (key : LiveKey) (e : Fault) (w : World) :
    Safe (perform C) ok (DestroyStop ok key w)
      (fun res w' => res = .error e ∧ ∃ res', DestroyDone ok key w res' w')
      (discard key e : Calls (Res α)) w := by
  refine (safe_destroy key w).bind (fun _ _ h => h) ?_
  exact fun res w1 hdone => ⟨rfl, res, hdone⟩

lemma safe_signCert (what : String) (key : LiveKey) (quantum : Prop) [Decidable quantum]
    (cert : RotationCert) (w : World) :
    Safe (perform C) ok (fun _ w1 => w1 = w)
      (fun res w' => w' = w ∧ (∀ c, res = .ok c → SignedCert C w key quantum cert c) ∧
        (key.Ready quantum → ∃ c, res = .ok c))
      (signCert C what key quantum cert) w := by
  refine (safe_sign key cert.canonical w).bind (fun _ _ h => h) ?_
  rintro (e | sig) w1 ⟨rfl, hsigned, hready⟩
  · refine (safe_pure _).mpr ⟨rfl, nofun, fun h => ?_⟩
    cases key with
    | file k =>
      obtain ⟨sig, hsig⟩ := hready k rfl h.1
      cases hsig
    | hsm => exact h.elim
  obtain ⟨priv, hholds, rfl⟩ := hsigned sig rfl
  by_cases hq : quantum
  · simp only [if_pos hq]
    cases hqsign : key.quantumSign C cert.canonical with
    | error =>
      refine (safe_pure _).mpr ⟨rfl, nofun, fun h => ?_⟩
      cases key with
      | file =>
        obtain ⟨q, hqPriv⟩ := Option.isSome_iff_exists.mp (h.2 hq)
        simp [LiveKey.quantumSign, hqPriv] at hqsign
      | hsm => exact h.elim
    | ok qsig =>
      refine (safe_pure _).mpr ⟨rfl, fun c h => ?_, fun _ => ⟨_, rfl⟩⟩
      cases h
      exact ⟨priv, qsig, hholds, rfl, fun _ => hqsign, fun h => absurd hq h⟩
  · simp only [if_neg hq]
    refine (safe_pure _).mpr ⟨rfl, fun c h => ?_, fun _ => ⟨_, rfl⟩⟩
    cases h
    exact ⟨priv, _, hholds, rfl, fun h => absurd h hq, fun _ => rfl⟩

/-! ## `Rotate` -/

inductive CertifyStop (ok : Op → World → Choice → Prop) (newActive : LiveKey) (w : World) :
    Op → World → Prop
  | clock {op : Op} : CertifyStop ok newActive w op w
  | signing {op : Op} {r : Choice} (hr : ok .unixNano w r) :
      CertifyStop ok newActive w op (w.tick r.now)
  | discarding {op : Op} {r : Choice} {w1 : World} (hr : ok .unixNano w r)
      (h : DestroyStop ok newActive (w.tick r.now) op w1) : CertifyStop ok newActive w op w1

def CertifyFailed (ok : Op → World → Choice → Prop) (newActive : LiveKey) (w w' : World) : Prop :=
  ∃ r, ok .unixNano w r ∧
    (w' = w.tick r.now ∨ ∃ res, DestroyDone ok newActive (w.tick r.now) res w')

inductive Certified (C : Crypto) (ok : Op → World → Choice → Prop) (s : Signer)
    (prevActive : LiveKey) (prevCert : RotationCert) (newActive : LiveKey) (w : World)
    (now : Int) : RotationCert → Prop
  | single {cert : RotationCert} (hmode : s.threshRotator = none)
      (h : SignedCert C (w.tick now) prevActive
        (newActive.quantumPublic.getD [] ≠ [] ∧ prevCert.quantumPublicKey ≠ [])
        (Signer.rotationCert now prevCert newActive) cert) :
      Certified C ok s prevActive prevCert newActive w now cert
  | group {g : Group} {digest label : Bytes} {r : Choice} {cert : RotationCert}
      (hmode : s.threshRotator = some (some g)) (hdigest : g.digest C = .ok digest)
      (hcert : cert = { Signer.rotationCert now prevCert newActive with
        thresholdGroupDigest := hex digest
        memberSigs := r.sigs })
      (hr : ok (.cosign cert.canonical label) (w.tick now) r) (herr : r.err = none) :
      Certified C ok s prevActive prevCert newActive w now cert

section
variable (s : Signer)

lemma safe_certify (prevActive : LiveKey) (prevCert : RotationCert) (newActive : LiveKey)
    (w : World) :
    Safe (perform C) ok (CertifyStop ok newActive w)
      (fun res w' => match res with
        | .error _ => CertifyFailed ok newActive w w'
        | .ok cert => ∃ r, ok .unixNano w r ∧ w' = w.tick r.now ∧
          Certified C ok s prevActive prevCert newActive w r.now cert)
      (s.certify C prevActive prevCert newActive) w := by
  refine safe_call_bind.mpr ⟨.clock, fun r hr => ?_⟩
  have hdiscard : ∀ e, Safe (perform C) ok (CertifyStop ok newActive w)
      (fun res w' => match res with
        | .error _ => CertifyFailed ok newActive w w'
        | .ok cert => ∃ r, ok .unixNano w r ∧ w' = w.tick r.now ∧
          Certified C ok s prevActive prevCert newActive w r.now cert)
      (discard newActive e) (w.tick r.now) := by
    intro e
    refine (safe_discard newActive e (w.tick r.now)).mono (fun _ _ _ h => h)
      (fun op w1 h => .discarding hr h) ?_
    rintro res w1 ⟨rfl, res', hdone⟩
    exact ⟨r, hr, .inr ⟨res', hdone⟩⟩
  show Safe (perform C) ok _ _ _ (w.tick r.now)
  cases hmode : s.threshRotator with
  | none =>
    refine (safe_signCert _ _ _ _ (w.tick r.now)).bind ?_ ?_
    · rintro op w1 rfl
      exact .signing hr
    · rintro (e | cert) w1 ⟨rfl, hsigned, -⟩
      · exact hdiscard e
      · exact ⟨r, hr, rfl, .single hmode (hsigned cert rfl)⟩
  | some group =>
    cases group with
    | none => exact hdiscard _
    | some g =>
      show Safe (perform C) ok _ _ (Signer.certifyGroup C g newActive _) _
      unfold Signer.certifyGroup
      cases hdigest : g.digest C with
      | error => exact ⟨r, hr, .inl rfl⟩
      | ok =>
        refine safe_call_bind.mpr ⟨.signing hr, fun r1 hr1 => ?_⟩
        cases herr1 : r1.err with
        | some =>
          simp only [perform, herr1]
          exact hdiscard _
        | none =>
          simp only [perform, herr1]
          exact ⟨r, hr, rfl, .group hmode hdigest rfl hr1 herr1⟩

end

/-- `Rotate` in the world `w` generated `newActive`, which left the world `w1`, and had `cert`
signed at the time `now`. -/
structure Prepared (C : Crypto) (ok : Op → World → Choice → Prop) (s : Signer) (w : World)
    (prevActive newActive : LiveKey) (prevCert cert : RotationCert) (now : Int) (w1 : World) :
    Prop where
  active : s.active = some prevActive
  last : s.chain.certs.getLast? = some (some prevCert)
  gen : GenerateDone C ok s.store w (.ok newActive) w1
  clock : ∃ r, ok .unixNano w1 r ∧ r.now = now
  certified : Certified C ok s prevActive prevCert newActive w1 now cert

inductive RotateStop (C : Crypto) (ok : Op → World → Choice → Prop) (s : Signer) (w : World) :
    Op → World → Prop
  | generating {op : Op} {w1 : World} (hgen : GenerateStop C ok s.store w op w1) :
      RotateStop C ok s w op w1
  | certifying {newActive : LiveKey} {op : Op} {w1 w2 : World}
      (hgen : GenerateDone C ok s.store w (.ok newActive) w1)
      (hstop : CertifyStop ok newActive w1 op w2) : RotateStop C ok s w op w2
  | publishing {prevActive newActive : LiveKey} {prevCert cert : RotationCert} {now : Int}
      {op : Op} {w1 w2 : World}
      (hprep : Prepared C ok s w prevActive newActive prevCert cert now w1)
      (hstop : ChainStop s.dir (s.chain.extend cert newActive.locator) (w1.tick now) op w2) :
      RotateStop C ok s w op w2
  | undoing {prevActive newActive : LiveKey} {prevCert cert : RotationCert} {now : Int}
      {op : Op} {e : Err} {w1 w2 w3 : World}
      (hprep : Prepared C ok s w prevActive newActive prevCert cert now w1)
      (hwrite : ChainDone ok s.dir (s.chain.extend cert newActive.locator) (w1.tick now)
        (some e) w2)
      (hstop : DestroyStop ok newActive w2 op w3) : RotateStop C ok s w op w3
  | destroying {prevActive newActive : LiveKey} {prevCert cert : RotationCert} {now : Int}
      {op : Op} {w1 w2 : World}
      (hprep : Prepared C ok s w prevActive newActive prevCert cert now w1)
      (hstop : DestroyStop ok prevActive
        ((w1.tick now).publish s.dir (s.chain.extend cert newActive.locator)) op w2) :
      RotateStop C ok s w op w2

inductive RotateDone (C : Crypto) (ok : Op → World → Choice → Prop) (s : Signer) (w : World) :
    Signer × Res RotationCert → World → Prop
  | refused {e : Fault} (h : s.active = none ∨ s.chain.certs.getLast? = none) :
      RotateDone C ok s w (s, .error e) w
  | noKey {e e' : Fault} {w1 : World} (hgen : GenerateDone C ok s.store w (.error e) w1) :
      RotateDone C ok s w (s, .error e') w1
  | nilCert {e : Fault} {newActive : LiveKey} {w1 : World}
      (hlast : s.chain.certs.getLast? = some none)
      (hgen : GenerateDone C ok s.store w (.ok newActive) w1) :
      RotateDone C ok s w (s, .error e) w1
  | unsigned {e : Fault} {newActive : LiveKey} {w1 w2 : World}
      (hgen : GenerateDone C ok s.store w (.ok newActive) w1)
      (hfail : CertifyFailed ok newActive w1 w2) : RotateDone C ok s w (s, .error e) w2
  | unpublished {prevActive newActive : LiveKey} {prevCert cert : RotationCert} {now : Int}
      {e : Err} {res : LiveKey × Option Err} {w1 w2 w3 : World}
      (hprep : Prepared C ok s w prevActive newActive prevCert cert now w1)
      (hwrite : ChainDone ok s.dir (s.chain.extend cert newActive.locator) (w1.tick now)
        (some e) w2)
      (hdone : DestroyDone ok newActive w2 res w3) :
      RotateDone C ok s w
        ({ s with chain := { s.chain with activeLocator := prevActive.locator } },
          .error (.err e)) w3
  | kept {prevActive prevActive' newActive : LiveKey} {prevCert cert : RotationCert}
      {now : Int} {e e' : Err} {w1 w2 : World}
      (hprep : Prepared C ok s w prevActive newActive prevCert cert now w1)
      (hdone : DestroyDone ok prevActive
        ((w1.tick now).publish s.dir (s.chain.extend cert newActive.locator))
        (prevActive', some e) w2) :
      RotateDone C ok s w
        ({ s with chain := s.chain.extend cert newActive.locator, active := some prevActive' },
          .error (.err e')) w2
  | rotated {prevActive prevActive' newActive : LiveKey} {prevCert cert : RotationCert}
      {now : Int} {w1 w2 : World}
      (hprep : Prepared C ok s w prevActive newActive prevCert cert now w1)
      (hdone : DestroyDone ok prevActive
        ((w1.tick now).publish s.dir (s.chain.extend cert newActive.locator))
        (prevActive', none) w2) :
      RotateDone C ok s w
        ({ s with chain := s.chain.extend cert newActive.locator, active := some newActive },
          .ok cert) w2

section
variable (s : Signer)

lemma safe_rotate (w : World) :
    Safe (perform C) ok (RotateStop C ok s w) (RotateDone C ok s w) (s.rotate C) w := by
  unfold Signer.rotate
  cases hactive : s.active with
  | none => exact .refused (.inl hactive)
  | some prevActive =>
  cases hlast : s.chain.certs.getLast? with
  | none => exact .refused (.inr hlast)
  | some prevCert =>
  refine (safe_generate s.store w).bind (fun op w1 h => .generating h) ?_
  rintro (e | newActive) w1 hgen
  · exact .noKey hgen
  cases prevCert with
  | none => exact .nilCert hlast hgen
  | some prevCert =>
  refine (safe_certify s prevActive prevCert newActive w1).bind
    (fun op w2 h => .certifying hgen h) ?_
  rintro (e | cert) w2 hcert
  · exact .unsigned hgen hcert
  obtain ⟨r, hr, rfl, hcert⟩ := hcert
  have hprep : Prepared C ok s w prevActive newActive prevCert cert r.now w1 :=
    ⟨hactive, hlast, hgen, ⟨r, hr, rfl⟩, hcert⟩
  refine (safe_writeChain s.dir (s.chain.extend cert newActive.locator) (w1.tick r.now)).bind
    (fun op w2 h => .publishing hprep h) ?_
  rintro (_ | e) w2 hwrite
  · cases hwrite
    refine (safe_destroy prevActive _).bind
      (fun op w2 h => .destroying hprep h) ?_
    rintro ⟨prevActive', _ | e⟩ w3 hdone
    · exact .rotated hprep hdone
    · exact .kept hprep hdone
  · refine (safe_destroy newActive w2).bind
      (fun op w2 h => .undoing hprep hwrite h) ?_
    exact fun res w3 hdone => .unpublished hprep hwrite hdone

end

lemma RotateDone.same {C : Crypto} {ok : Op → World → Choice → Prop} {s : Signer} {w w' : World}
    {res : Signer × Res RotationCert} (h : RotateDone C ok s w res w') :
    res.1.origin = s.origin ∧ res.1.dir = s.dir ∧ res.1.store = s.store ∧
      res.1.threshRotator = s.threshRotator := by
  cases h <;> exact ⟨rfl, rfl, rfl, rfl⟩

lemma RotateDone.certs {C : Crypto} {ok : Op → World → Choice → Prop} {s : Signer} {w w' : World}
    {res : Signer × Res RotationCert} (h : RotateDone C ok s w res w') :
    res.1.chain.certs = s.chain.certs ∨
      ∃ cert, res.1.chain.certs = s.chain.certs ++ [some cert] := by
  cases h with
  | refused => exact .inl rfl
  | noKey => exact .inl rfl
  | nilCert => exact .inl rfl
  | unsigned => exact .inl rfl
  | unpublished => exact .inl rfl
  | kept _ _ => exact .inr ⟨_, rfl⟩
  | rotated _ _ => exact .inr ⟨_, rfl⟩

/-! ## `NewSignerWithStore` -/

/-- `createGenesis` in the world `w` generated `active`, which left the world `w1`, and signed
`cert` with it at the time `now`. -/
structure Founded (C : Crypto) (ok : Op → World → Choice → Prop) (dir : Bytes) (store : KeyStore)
    (w : World) (active : LiveKey) (cert : RotationCert) (now : Int) (w1 : World) : Prop where
  absent : w.files (chainPath dir) = none
  gen : GenerateDone C ok store w (.ok active) w1
  clock : ∃ r, ok .unixNano w1 r ∧ r.now = now
  signed : SignedCert C (w1.tick now) active (active.quantumPublic.isSome = true)
    (genesisCert now active) cert

structure Reopened (C : Crypto) (origin dir : Bytes) (store : KeyStore) (w : World) (chain : Chain)
    (active : LiveKey) : Prop where
  read : ∃ j, w.files (chainPath dir) = some (.doc j) ∧ Chain.ofJson j = .ok chain
  check : checkChain origin chain = .ok ()
  load : Loaded C w chain.activeLocator store active

inductive StartStop (C : Crypto) (ok : Op → World → Choice → Prop) (origin dir : Bytes)
    (store : KeyStore) (w : World) : Op → World → Prop
  | reading {op : Op} : StartStop C ok origin dir store w op w
  | generating {op : Op} {w1 : World} (habsent : w.files (chainPath dir) = none)
      (hgen : GenerateStop C ok store w op w1) : StartStop C ok origin dir store w op w1
  | signing {active : LiveKey} {op : Op} {w1 w2 : World}
      (habsent : w.files (chainPath dir) = none)
      (hgen : GenerateDone C ok store w (.ok active) w1) (hstop : CertifyStop ok active w1 op w2) :
      StartStop C ok origin dir store w op w2
  | publishing {active : LiveKey} {cert : RotationCert} {now : Int} {op : Op} {w1 w2 : World}
      (hfound : Founded C ok dir store w active cert now w1)
      (hstop : ChainStop dir ⟨origin, [some cert], active.locator⟩ (w1.tick now) op w2) :
      StartStop C ok origin dir store w op w2
  | discarding {chain : Chain} {active : LiveKey} {op : Op} {w1 : World}
      (hopen : Reopened C origin dir store w chain active)
      (hpub : chain.activePublicKey ≠ .ok active.pub) (hstop : DestroyStop ok active w op w1) :
      StartStop C ok origin dir store w op w1

inductive StartDone (C : Crypto) (ok : Op → World → Choice → Prop) (origin dir : Bytes)
    (store : KeyStore) (w : World) : Res Signer → World → Prop
  | failed {e : Fault} (h : Fails ok (.mkdirAll dir) ∨ Fails ok (.stat (chainPath dir)) ∨
      w.files (chainPath dir) ≠ none) : StartDone C ok origin dir store w (.error e) w
  | noKey {e e' : Fault} {w1 : World} (habsent : w.files (chainPath dir) = none)
      (hgen : GenerateDone C ok store w (.error e) w1) :
      StartDone C ok origin dir store w (.error e') w1
  | unsigned {e : Fault} {active : LiveKey} {w1 w2 : World}
      (habsent : w.files (chainPath dir) = none)
      (hgen : GenerateDone C ok store w (.ok active) w1)
      (hready : ¬ active.Ready (active.quantumPublic.isSome = true))
      (hfail : CertifyFailed ok active w1 w2) : StartDone C ok origin dir store w (.error e) w2
  | unpublished {e : Err} {active : LiveKey} {cert : RotationCert} {now : Int} {w1 w2 : World}
      (hfound : Founded C ok dir store w active cert now w1)
      (hwrite : ChainDone ok dir ⟨origin, [some cert], active.locator⟩ (w1.tick now) (some e) w2) :
      StartDone C ok origin dir store w (.error (.err e)) w2
  | founded {active : LiveKey} {cert : RotationCert} {now : Int} {w1 : World}
      (hfound : Founded C ok dir store w active cert now w1) :
      StartDone C ok origin dir store w
        (.ok ⟨origin, dir, ⟨origin, [some cert], active.locator⟩, some active, store, none⟩)
        ((w1.tick now).publish dir ⟨origin, [some cert], active.locator⟩)
  | mismatched {e : Fault} {chain : Chain} {active : LiveKey} {res : LiveKey × Option Err}
      {w1 : World} (hopen : Reopened C origin dir store w chain active)
      (hpub : chain.activePublicKey ≠ .ok active.pub) (hdone : DestroyDone ok active w res w1) :
      StartDone C ok origin dir store w (.error e) w1
  | reopened {chain : Chain} {active : LiveKey}
      (hopen : Reopened C origin dir store w chain active)
      (hpub : chain.activePublicKey = .ok active.pub) :
      StartDone C ok origin dir store w (.ok ⟨origin, dir, chain, some active, store, none⟩) w

section
variable (origin dir : Bytes) (store : KeyStore)

lemma safe_createGenesis {w : World} (habsent : w.files (chainPath dir) = none) :
    Safe (perform C) ok (StartStop C ok origin dir store w) (StartDone C ok origin dir store w)
      (createGenesis C origin dir store) w := by
  refine (safe_generate store w).bind (fun op w1 h => .generating habsent h) ?_
  rintro (e | active) w1 hgen
  · exact .noKey habsent hgen
  refine safe_call_bind.mpr ⟨.signing habsent hgen .clock, fun r hr => ?_⟩
  refine (safe_signCert _ _ _ _ (w1.tick r.now)).bind ?_ ?_
  · rintro op w2 rfl
    exact .signing habsent hgen (.signing hr)
  rintro (e | cert) w2 ⟨rfl, hsigned, hready⟩
  · refine (safe_discard active e (w1.tick r.now)).mono (fun _ _ _ h => h)
      (fun op w2 h => .signing habsent hgen (.discarding hr h)) ?_
    rintro res w2 ⟨rfl, res', hdone⟩
    refine .unsigned habsent hgen ?_ ⟨r, hr, .inr ⟨res', hdone⟩⟩
    intro h
    obtain ⟨c, hc⟩ := hready h
    cases hc
  · have hfound : Founded C ok dir store w active cert r.now w1 :=
      ⟨habsent, hgen, ⟨r, hr, rfl⟩, hsigned cert rfl⟩
    refine (safe_writeChain dir _ (w1.tick r.now)).bind (fun op w2 h => .publishing hfound h) ?_
    rintro (_ | e) w2 hwrite
    · cases hwrite
      exact .founded hfound
    · exact .unpublished hfound hwrite

lemma safe_loadWith {w : World} {chain : Chain} {j : Json}
    (hfile : w.files (chainPath dir) = some (.doc j)) (hparse : Chain.ofJson j = .ok chain) :
    Safe (perform C) ok (StartStop C ok origin dir store w) (StartDone C ok origin dir store w)
      (loadWith C origin dir store chain) w := by
  have hpresent : w.files (chainPath dir) ≠ none := by
    rw [hfile]
    simp
  unfold loadWith
  cases hcheck : checkChain origin chain with
  | error e => exact .failed (.inr (.inr hpresent))
  | ok u =>
  refine (safe_load store chain.activeLocator w).bind ?_ ?_
  · rintro op w1 rfl
    exact .reading
  rintro (e | active) w1 ⟨rfl, hload⟩
  · exact .failed (.inr (.inr hpresent))
  have hopen : Reopened C origin dir store w1 chain active :=
    ⟨⟨j, hfile, hparse⟩, hcheck, hload active rfl⟩
  cases hpub : chain.activePublicKey with
  | error e => exact .failed (.inr (.inr hpresent))
  | ok pub =>
  by_cases heq : active.pub = pub
  · simp only [if_pos heq]
    exact .reopened hopen (by rw [hpub, heq])
  · simp only [if_neg heq]
    have hne : chain.activePublicKey ≠ .ok active.pub := by
      rw [hpub]
      intro h
      exact heq (Except.ok.inj h).symm
    refine (safe_discard active _ w1).mono (fun _ _ _ h => h)
      (fun op w2 h => .discarding hopen hne h) ?_
    rintro res w2 ⟨rfl, res', hdone⟩
    exact .mismatched hopen hne hdone

lemma safe_newSignerWithStore (w : World) :
    Safe (perform C) ok (StartStop C ok origin dir store w) (StartDone C ok origin dir store w)
      (newSignerWithStore C origin dir store) w := by
  refine safe_call_bind.mpr ⟨.reading, fun r hr => ?_⟩
  cases herr : r.err with
  | some =>
    simp only [perform, herr]
    exact .failed (.inl ⟨w, r, hr, by simp [herr]⟩)
  | none =>
  simp only [perform, herr]
  refine safe_call_bind.mpr ⟨.reading, fun r1 hr1 => ?_⟩
  -- Whatever `Stat` says, `loadActive` reads the file again.
  have hload : (Fails ok (.stat (chainPath dir)) ∨ w.files (chainPath dir) ≠ none) →
      Safe (perform C) ok (StartStop C ok origin dir store w) (StartDone C ok origin dir store w)
        (loadActive C origin dir store) w := by
    intro hwhy
    refine safe_call_bind.mpr ⟨.reading, fun r2 hr2 => ?_⟩
    cases herr2 : r2.err with
    | some =>
      simp only [perform, herr2]
      exact .failed (.inr hwhy)
    | none =>
      cases hfile : w.files (chainPath dir) with
      | none =>
        simp only [perform, herr2, hfile]
        exact .failed (.inr hwhy)
      | some c =>
        simp only [perform, herr2, hfile]
        cases c with
        | doc j =>
          cases hparse : Chain.ofJson j with
          | error =>
            simp only [parseChain, hparse]
            exact .failed (.inr hwhy)
          | ok =>
            simp only [parseChain, hparse]
            exact safe_loadWith origin dir store hfile hparse
        | text => exact .failed (.inr hwhy)
        | torn => exact .failed (.inr hwhy)
  cases herr1 : r1.err with
  | some =>
    simp only [perform, herr1]
    exact hload (.inl ⟨w, r1, hr1, by simp [herr1]⟩)
  | none =>
    cases hfile : w.files (chainPath dir) with
    | none =>
      simp only [perform, herr1, hfile]
      exact safe_createGenesis origin dir store hfile
    | some =>
      simp only [perform, herr1, hfile]
      exact hload (.inr (by rw [hfile]; simp))

end

end Stele.Keys
