import Stele.Keys.Erasure

/-!
# Restarts after a crash

`Rotate` may be cut off before any call. What is on disk then is a chain whose key is in its file,
so that `NewSignerWithStore` opens it.
-/

namespace Stele

open Lib List

lemma MemberSig.crossed_crossed (s : MemberSig) : s.crossed.crossed = s.crossed := by
  simp only [MemberSig.crossed, coerce_of_utf8 (utf8_coerce _)]

lemma RotationCert.crossed_crossed (c : RotationCert) : c.crossed.crossed = c.crossed := by
  have hsigs : ∀ o : Option MemberSig,
      Option.map MemberSig.crossed (Option.map MemberSig.crossed o) =
        Option.map MemberSig.crossed o := by
    rintro (_ | s)
    · rfl
    · exact congrArg some s.crossed_crossed
  simp only [RotationCert.crossed, coerce_of_utf8 (utf8_coerce _), map_map]
  congr 1
  exact map_congr_left fun o _ => hsigs o

namespace Chain

lemma crossed_crossed (ch : Chain) : ch.crossed.crossed = ch.crossed := by
  have hcerts : ∀ o : Option RotationCert,
      Option.map RotationCert.crossed (Option.map RotationCert.crossed o) =
        Option.map RotationCert.crossed o := by
    rintro (_ | c)
    · rfl
    · exact congrArg some c.crossed_crossed
  simp only [crossed, coerce_of_utf8 (utf8_coerce _), map_map]
  congr 1
  exact map_congr_left fun o _ => hcerts o

lemma crossed_extend (ch : Chain) (cert : RotationCert) (locator : Bytes) :
    (ch.extend cert locator).crossed.certs = ch.crossed.certs ++ [some cert.crossed] := by
  simp [crossed, extend]

lemma crossed_getLast? {ch : Chain} {last : RotationCert}
    (h : ch.certs.getLast? = some (some last)) :
    ch.crossed.certs.getLast? = some (some last.crossed) := by
  simp [crossed, h]

def SameOrNext (ch ch' : Chain) : Prop :=
  ch' = ch ∨ ∃ prev cert, ch.certs.getLast? = some (some prev) ∧
    ch'.certs = ch.certs ++ [some cert] ∧ cert.epoch = prev.epoch + 1 ∧
    cert.signedBy = prev.publicKey

end Chain

namespace Keys

open Prog

lemma IsKeyPath.utf8 {dir path : Bytes} (h : IsKeyPath dir path) (hdir : Utf8 dir) :
    Utf8 path := by
  obtain ⟨now, suffix, rfl⟩ := h
  have hname : Utf8 (keyName now suffix) :=
    utf8_append (utf8_append (utf8_append (utf8_append (by decide) (utf8_decInt now)) (by decide))
      (utf8_dec _)) (by decide)
  exact utf8_append (utf8_append hdir (by decide)) hname

/-! ## The directory -/

/-- `chain.json` is `ch`, and the file it names holds the key of its last certificate. -/
structure Restorable (C : Crypto) (origin dir : Bytes) (w : World) (ch : Chain) : Prop where
  file : w.files (chainPath dir) = some (.doc ch.toJson)
  origin_eq : ch.origin = origin
  isKeyPath : IsKeyPath dir ch.activeLocator
  key : ∃ (priv : EdKey) (qPriv : Option DilKey) (last : RotationCert),
    w.files ch.activeLocator = some (keyContent priv qPriv) ∧
    ch.certs.getLast? = some (some last) ∧ last.publicKey = C.edPublic priv

variable {C : Crypto} {ok : Op → World → Choice → Prop} {hybrid : Bool} {ch : Chain}

section
variable {origin dir path : Bytes} {w w' : World}

lemma Restorable.reads (h : Restorable C origin dir w ch) : Reads dir w ch.crossed :=
  ⟨_, h.file, Chain.ofJson_toJson ch⟩

lemma Restorable.frame (h : Restorable C origin dir w ch)
    (hchain : w'.files (chainPath dir) = w.files (chainPath dir))
    (hkey : w'.files ch.activeLocator = w.files ch.activeLocator) :
    Restorable C origin dir w' ch := by
  obtain ⟨priv, qPriv, last, hfile, hlast, hpub⟩ := h.key
  exact ⟨hchain.trans h.file, h.origin_eq, h.isKeyPath, priv, qPriv, last, hkey.trans hfile, hlast,
    hpub⟩

section

variable (hname : ∀ w r, ok .keyName w r → w.files (join dir (keyName r.now r.count)) = none)

include hname

lemma NewKey.absent {priv : EdKey} {qPriv : Option DilKey} {w1 : World}
    (h : NewKey C ok dir hybrid w priv qPriv path w1) : w.files path = none := by
  obtain ⟨r, hr, rfl⟩ := h.named
  have habsent := hname _ r hr
  exact habsent

/-- **While nothing is published, the directory can be restored as before.** -/
theorem Unpublished.restorable
    (h : Unpublished C ok dir hybrid w w') (hr : Restorable C origin dir w ch) :
    Restorable C origin dir w' ch := by
  refine hr.frame h.chain ?_
  cases h with
  | idle hfiles => rw [hfiles]
  | keyed _ hfiles => rw [hfiles]
  | draft h =>
    refine h.other _ ?_ hr.isKeyPath.ne_tmp
    rintro rfl
    obtain ⟨w1, hnew⟩ := h.new
    obtain ⟨priv, qPriv, last, hfile, -⟩ := hr.key
    rw [hnew.absent hname] at hfile
    cases hfile

end

lemma Published.restorable {chain : Chain} {priv : EdKey} {qPriv : Option DilKey}
    {cert : RotationCert} (h : Published C ok dir hybrid w chain priv qPriv path w')
    (horigin : chain.origin = origin) (hloc : chain.activeLocator = path)
    (hlast : chain.certs.getLast? = some (some cert))
    (hcert : cert.publicKey = C.edPublic priv) : Restorable C origin dir w' chain := by
  obtain ⟨w1, hnew⟩ := h.new
  subst hloc
  exact ⟨h.chain_file, horigin, hnew.isKeyPath, priv, qPriv, cert, h.key, hlast, hcert⟩

lemma Restorable.touched (h : Restorable C origin dir w ch) (ht : Touched path w w')
    (hchain : path ≠ chainPath dir) (hkey : path ≠ ch.activeLocator) :
    Restorable C origin dir w' ch :=
  h.frame (ht _ hchain.symm) (ht _ hkey.symm)

variable {key : LiveKey}

lemma destroyStop_touched (hkey : key.BesideChain dir) {op : Op}
    (h : DestroyStop ok key w op w') : Touched key.locator w w' := by
  cases key with
  | file k =>
    have hstop : EraseStop ok k.path w op w' := h
    exact hstop.touched
  | hsm => exact hkey.elim

lemma destroyDone_touched (hkey : key.BesideChain dir) {res : LiveKey × Option Err}
    (h : DestroyDone ok key w res w') : Touched key.locator w w' := by
  cases key with
  | file k =>
    obtain ⟨key', err⟩ := res
    obtain ⟨-, hdone⟩ := h
    have hdone : EraseDone ok k.path w err w' := hdone
    exact hdone.touched
  | hsm => exact hkey.elim

lemma LiveKey.BesideChain.locator_ne (h : key.BesideChain dir) : key.locator ≠ chainPath dir := by
  cases key with
  | file => exact h
  | hsm => exact h.elim

end

/-! ## Runs -/

def Named (dir : Bytes) (path : Option Bytes) : Op → World → Choice → Prop
  | .keyName, w, r => w.files (join dir (keyName r.now r.count)) = none ∧
    path ≠ some (join dir (keyName r.now r.count))
  | _, _, _ => True

instance (dir : Bytes) (path : Option Bytes) (op : Op) (w : World) (r : Choice) :
    Decidable (Named dir path op w r) := by
  unfold Named
  split <;> infer_instance

/-- A run of a file-backed signer with one origin, with I/O errors and crashes anywhere. -/
def FileBacked (C : Crypto) (origin dir : Bytes) (sys : Sys) (a : Action) : Prop :=
  Admitted C dir (Named dir sys.keyPath) sys a ∧
    match a with
    | .start o store _ _ => o = origin ∧ (store = .file dir false ∨ store = .file dir true)
    | _ => True

instance (C : Crypto) (origin dir : Bytes) (sys : Sys) :
    (a : Action) → Decidable (FileBacked C origin dir sys a)
  | .start .. | .rotate .. | .checkpoint .. => by simp only [FileBacked]; infer_instance

structure Runner (origin dir : Bytes) (ch : Chain) (s : Signer) : Prop where
  origin_eq : s.chain.origin = origin
  dir_eq : s.dir = dir
  store : ∃ hybrid, s.store = .file dir hybrid
  active : ∀ key, s.active = some key → key.BesideChain dir
  certs : s.chain.crossed.certs = ch.crossed.certs

inductive RecoverInv (C : Crypto) (origin dir : Bytes) (sys : Sys) : Prop
  | absent (file : sys.world.files (chainPath dir) = none) (signer : sys.signer = none)
  | present (ch : Chain) (disk : Restorable C origin dir sys.world ch)
      (signer : ∀ s, sys.signer = some s → Runner origin dir ch s)

section
variable {origin dir : Bytes} {sys : Sys} {w : World}

lemma RecoverInv.stopped (h : Restorable C origin dir w ch) :
    RecoverInv C origin dir { sys with world := w, signer := none } :=
  .present ch h nofun

lemma RecoverInv.unpublished {path : Option Bytes} {hybrid : Bool}
    (h : RecoverInv C origin dir sys)
    (hun : Unpublished C (Named dir path) dir hybrid sys.world w) :
    RecoverInv C origin dir { sys with world := w, signer := none } := by
  cases h with
  | absent hfile => exact .absent (hun.chain.trans hfile) rfl
  | present ch hdisk _ => exact .stopped (hun.restorable (fun _ _ hr => hr.1) hdisk)

lemma Restorable.loaded (h : Restorable C origin dir w ch) (hdir : Utf8 dir) {hybrid : Bool}
    {chain : Chain} {active : LiveKey}
    (hopen : Reopened C origin dir (.file dir hybrid) w chain active) :
    chain = ch.crossed ∧ chain.activePublicKey = .ok active.pub := by
  cases Reads.unique hopen.read h.reads
  obtain ⟨priv, qPriv, last, hfile, hlast, hpub⟩ := h.key
  obtain ⟨raw, k, q, hraw, hdec, rfl⟩ := hopen.load
  have hloc : ch.crossed.activeLocator = ch.activeLocator := coerce_of_utf8 (h.isKeyPath.utf8 hdir)
  rw [hloc, hfile, Option.some.injEq] at hraw
  cases hraw
  rw [decodePrivate_encodePrivate, Except.ok.injEq, Prod.mk.injEq] at hdec
  obtain ⟨rfl, -⟩ := hdec
  refine ⟨rfl, ?_⟩
  rw [Chain.activePublicKey, Chain.crossed_getLast? hlast]
  exact congrArg Except.ok hpub

lemma RecoverInv.start (horigin : Utf8 origin) (hdir : Utf8 dir) (h : RecoverInv C origin dir sys)
    {o : Bytes} {store : KeyStore} {rotator : Option (Option Group)} {rs : List Choice}
    (ha : FileBacked C origin dir sys (.start o store rotator rs)) :
    RecoverInv C origin dir (step C dir sys (.start o store rotator rs)) := by
  obtain ⟨hadm, rfl, hstore⟩ := ha
  obtain ⟨hybrid, rfl⟩ : ∃ hybrid, store = .file dir hybrid :=
    hstore.elim (fun h => ⟨false, h⟩) fun h => ⟨true, h⟩
  -- The key on disk matches the chain, so that it is never discarded.
  have hmatch : ∀ chain active, Reopened C o dir (.file dir hybrid) sys.world chain active →
      ∃ ch, Restorable C o dir sys.world ch ∧ chain = ch.crossed ∧
        chain.activePublicKey = .ok active.pub := by
    intro chain active hopen
    cases h with
    | absent hfile =>
      obtain ⟨j, hj, -⟩ := hopen.read
      rw [hfile] at hj
      cases hj
    | present ch hdisk => exact ⟨ch, hdisk, hdisk.loaded hdir hopen⟩
  rcases start_cases hadm with ⟨op, w, -, hstop, heq⟩ | ⟨e, w, hdone, heq⟩ | ⟨s, w, hdone, heq⟩
  · rw [heq]
    rcases hstop.files with hun | ⟨chain, active, hopen, hne, -⟩
    · exact h.unpublished hun
    · obtain ⟨-, -, -, hpub⟩ := hmatch chain active hopen
      exact absurd hpub hne
  · rw [heq]
    rcases hdone.files with hun | ⟨chain, active, res, hopen, hne, -⟩
    · exact h.unpublished hun
    · obtain ⟨-, -, -, hpub⟩ := hmatch chain active hopen
      exact absurd hpub hne
  · rw [heq]
    cases hdone with
    | founded hfound =>
      obtain ⟨priv, qPriv, path, rfl, hdraft, hpub⟩ := hfound.published o
      refine .present _ (hpub.restorable rfl rfl rfl hfound.fields.2) fun s hs => ?_
      cases hs
      refine ⟨rfl, rfl, ⟨hybrid, rfl⟩, fun key hkey => ?_, rfl⟩
      cases hkey
      exact hdraft.isKeyPath.ne_chain
    | reopened hopen _ =>
      obtain ⟨ch, hdisk, rfl, -⟩ := hmatch _ _ hopen
      refine .present ch hdisk fun s hs => ?_
      cases hs
      refine ⟨?_, rfl, ⟨hybrid, rfl⟩, fun key hkey => ?_, ?_⟩
      · show coerce ch.origin = o
        rw [hdisk.origin_eq, coerce_of_utf8 horigin]
      · cases hkey
        exact hopen.besideChain
      · exact congrArg Chain.certs ch.crossed_crossed

variable {s : Signer}

lemma Prepared.restorable (h : Runner origin dir ch s) {path : Option Bytes}
    {prevActive newActive : LiveKey} {prevCert cert : RotationCert} {now : Int} {w1 w' : World}
    (hprep : Prepared C (Named dir path) s w prevActive newActive prevCert cert now w1)
    (hpath : path = some prevActive.locator) (htouched : Touched prevActive.locator
      ((w1.tick now).publish s.dir (s.chain.extend cert newActive.locator)) w') :
    Restorable C origin dir w' (s.chain.extend cert newActive.locator) ∧
      ch.crossed.SameOrNext (s.chain.extend cert newActive.locator).crossed ∧
      newActive.BesideChain dir := by
  obtain ⟨hybrid, hstore⟩ := h.store
  obtain ⟨hepoch, hcert, hby⟩ := hprep.certified.fields
  have hdir := h.dir_eq
  subst hdir
  obtain ⟨priv, qPriv, path', rfl, hdraft, hpub⟩ := hprep.published hstore
  have hdisk := hpub.restorable h.origin_eq rfl (extend_getLast? _ _ _) hcert
  have hnew : prevActive.locator ≠ path' := by
    obtain ⟨w2, hkey⟩ := hdraft.new
    obtain ⟨r, hr, rfl⟩ := hkey.named
    intro heq
    exact hr.2 (hpath.trans (congrArg some heq))
  refine ⟨hdisk.touched htouched (h.active _ hprep.active).locator_ne hnew, .inr ?_,
    hdraft.isKeyPath.ne_chain⟩
  refine ⟨prevCert.crossed, cert.crossed, ?_, ?_, hepoch, hby⟩
  · rw [← h.certs]
    exact Chain.crossed_getLast? hprep.last
  · rw [Chain.crossed_extend, h.certs]

lemma RotateDone.chain_origin {ok : Op → World → Choice → Prop} {w w' : World}
    {res : Signer × Res RotationCert} (h : RotateDone C ok s w res w') :
    res.1.chain.origin = s.chain.origin := by
  cases h <;> rfl

/-- **A rotation, wherever it ends or stops**, leaves a directory that can be restored, with the
chain as it was or one certificate longer. -/
theorem RecoverInv.rotate (h : RecoverInv C origin dir sys) (hsig : sys.signer = some s)
    {rs : List Choice} (hadm : Admitted C dir (Named dir sys.keyPath) sys (.rotate rs)) :
    RecoverInv C origin dir (step C dir sys (.rotate rs)) ∧
      ∃ ch ch', Reads dir sys.world ch ∧ Reads dir (step C dir sys (.rotate rs)).world ch' ∧
        ch.SameOrNext ch' := by
  cases h with
  | absent _ hnone =>
    rw [hsig] at hnone
    cases hnone
  | present ch hdisk hsigner =>
  have hrunner := hsigner s hsig
  obtain ⟨hybrid, hstore⟩ := hrunner.store
  have hdir := hrunner.dir_eq
  subst hdir
  have hpath : ∀ {key}, s.active = some key → sys.keyPath = some key.locator := by
    intro key hkey
    rw [Sys.keyPath, hsig, Option.bind_some, hkey]
    rfl
  rcases rotate_cases hsig hadm with ⟨op, w, -, hstop, heq⟩ | ⟨s', res, w, hdone, heq⟩
  · rw [heq]
    rcases hstop.files hstore with hun | ⟨prevActive, newActive, prevCert, cert, now, w1, hprep,
      hdestroy⟩
    · have hdisk' := hun.restorable (fun _ _ hr => hr.1) hdisk
      exact ⟨.stopped hdisk', _, _, hdisk.reads, hdisk'.reads, .inl rfl⟩
    · obtain ⟨hdisk', hnext, -⟩ := hprep.restorable hrunner (hpath hprep.active)
        (destroyStop_touched (hrunner.active _ hprep.active) hdestroy)
      exact ⟨.stopped hdisk', _, _, hdisk.reads, hdisk'.reads, hnext⟩
  · rw [heq]
    obtain ⟨-, hdir', hstore', -⟩ := hdone.same
    have horigin' := hdone.chain_origin
    rcases hdone.files hstore with ⟨hun, hcerts, hsame⟩ | ⟨prevActive, newActive, prevCert, cert,
      now, w1, prevActive', err, hprep, hdestroy, hchain, hactive', -⟩
    · have hdisk' := hun.restorable (fun _ _ hr => hr.1) hdisk
      refine ⟨.present ch hdisk' fun s'' hs'' => ?_, _, _, hdisk.reads, hdisk'.reads, .inl rfl⟩
      cases hs''
      refine ⟨horigin'.trans hrunner.origin_eq, hdir', ⟨hybrid, hstore'.trans hstore⟩,
        fun key hkey => hrunner.active key (hsame ▸ hkey), ?_⟩
      rw [← hrunner.certs]
      exact congrArg (List.map (Option.map RotationCert.crossed)) hcerts
    · have hbeside := hrunner.active _ hprep.active
      obtain ⟨hdisk', hnext, hnew⟩ := hprep.restorable hrunner (hpath hprep.active)
        (destroyDone_touched hbeside hdestroy)
      refine ⟨.present _ hdisk' fun s'' hs'' => ?_, _, _, hdisk.reads, hdisk'.reads, hnext⟩
      cases hs''
      refine ⟨horigin'.trans hrunner.origin_eq, hdir', ⟨hybrid, hstore'.trans hstore⟩,
        fun key hkey => ?_, by rw [hchain]⟩
      rw [hactive', Option.some.injEq] at hkey
      subst hkey
      by_cases herr : err = none
      · rw [if_pos herr]
        exact hnew
      · rw [if_neg herr]
        exact (destroy_chain hbeside hdestroy).2

lemma RecoverInv.tick (h : RecoverInv C origin dir sys)
    (hfiles : w.files = sys.world.files) : RecoverInv C origin dir { sys with world := w } := by
  cases h with
  | absent hfile hnone => exact .absent (by rw [← hfile, ← hfiles]) hnone
  | present ch hdisk hsigner =>
    exact .present ch (hdisk.frame (by rw [hfiles]) (by rw [hfiles])) hsigner

lemma recover_step (horigin : Utf8 origin) (hdir : Utf8 dir) (a : Action)
    (h : RecoverInv C origin dir sys) (ha : FileBacked C origin dir sys a) :
    RecoverInv C origin dir (step C dir sys a) := by
  cases a with
  | start => exact h.start horigin hdir ha
  | rotate =>
    exact step_running (I := RecoverInv C origin dir) h (by simp) fun s hsig =>
      (h.rotate hsig ha.1).1
  | checkpoint =>
    refine step_running (I := RecoverInv C origin dir) h (by simp) fun s hsig => ?_
    obtain ⟨w, hw, hcases⟩ := checkpoint_cases hsig ha.1
    have hfiles : w.files = sys.world.files := by rcases hw with rfl | ⟨r, -, rfl⟩ <;> rfl
    have hticked := h.tick hfiles
    rcases hcases with heq | heq | ⟨rootPub, c, -, -, heq⟩
    · rw [heq]
      cases hticked with
      | absent hfile => exact .absent hfile rfl
      | present ch hdisk => exact .stopped hdisk
    · rw [heq]
      exact hticked
    · rw [heq]
      cases hticked with
      | absent hfile hnone => exact .absent hfile hnone
      | present ch hdisk hsigner => exact .present ch hdisk hsigner

end

/-! ## The restart -/

section
variable {origin dir : Bytes} {w : World} (hok : ∀ op w r, ok op w r → r.err = none)
include hok

lemma safe_loadFile_found {locator raw priv : Bytes} {qPriv : Option Bytes}
    (hloc : locator ≠ []) (hfile : w.files locator = some (.text raw))
    (hdec : decodePrivate raw = .ok (priv, qPriv)) :
    Safe (perform C) ok (fun _ _ => True)
      (fun res _ => res = .ok (fileKey C locator priv qPriv)) (loadFile C locator) w := by
  unfold loadFile
  rw [if_neg hloc]
  refine safe_call_bind.mpr ⟨trivial, fun r hr => ?_⟩
  simp only [perform, hok _ _ _ hr, hfile]
  exact loadContent_ok.mpr ⟨raw, priv, qPriv, rfl, hdec, rfl⟩

lemma Restorable.safe_restart {ch : Chain} (h : Restorable C origin dir w ch)
    (horigin : Utf8 origin) (hdir : Utf8 dir) :
    Safe (perform C) ok (fun _ _ => True)
      (fun res _ => ∃ key, ch.crossed.activePublicKey = .ok key.pub ∧
        res = .ok ⟨origin, dir, ch.crossed, some key, .file dir hybrid, none⟩)
      (newSignerWithStore C origin dir (.file dir hybrid)) w := by
  obtain ⟨priv, qPriv, last, hfile, hlast, hpub⟩ := h.key
  have hloc : ch.crossed.activeLocator = ch.activeLocator := coerce_of_utf8 (h.isKeyPath.utf8 hdir)
  have hactive : ch.crossed.activePublicKey = .ok (C.edPublic priv) := by
    rw [Chain.activePublicKey, Chain.crossed_getLast? hlast]
    exact congrArg Except.ok hpub
  have hcheck : checkChain origin ch.crossed = .ok () := by
    have hsame : ch.crossed.origin = origin := by
      show coerce ch.origin = origin
      rw [h.origin_eq, coerce_of_utf8 horigin]
    have hne : ch.crossed.certs ≠ [] := by
      intro hnil
      have hgot := Chain.crossed_getLast? hlast
      rw [hnil] at hgot
      cases hgot
    simp only [checkChain, bind_ok, ensure_ok, exists_const]
    exact ⟨hne, .inr hsame, hloc ▸ h.isKeyPath.ne_nil⟩
  refine safe_call_bind.mpr ⟨trivial, fun r hr => ?_⟩
  simp only [perform, hok _ _ _ hr]
  refine safe_call_bind.mpr ⟨trivial, fun r1 hr1 => ?_⟩
  simp only [perform, hok _ _ _ hr1, h.file, Option.map_some]
  refine safe_call_bind.mpr ⟨trivial, fun r2 hr2 => ?_⟩
  simp only [perform, hok _ _ _ hr2, h.file, parseChain, Chain.ofJson_toJson]
  unfold loadWith
  rw [hcheck]
  have hload := safe_loadFile_found (C := C) hok (h.isKeyPath.ne_nil) hfile
    (decodePrivate_encodePrivate priv qPriv)
  rw [← hloc] at hload
  refine hload.bind (fun _ _ _ => trivial) ?_
  rintro _ w1 rfl
  rw [hactive]
  simp only [fileKey, LiveKey.pub, ↓reduceIte]
  exact ⟨fileKey C ch.crossed.activeLocator priv (qPriv.map Subtype.val), rfl, rfl⟩

lemma safe_genesis (habsent : w.files (chainPath dir) = none) :
    Safe (perform C) ok (fun _ _ => True)
      (fun res _ => ∃ key cert, cert.epoch = 0 ∧ cert.publicKey = key.pub ∧ res =
        .ok ⟨origin, dir, ⟨origin, [some cert], key.locator⟩, some key, .file dir hybrid, none⟩)
      (newSignerWithStore C origin dir (.file dir hybrid)) w := by
  have hfails : ∀ op, ¬ Fails ok op := by
    rintro op ⟨w, r, hr, herr⟩
    exact herr (hok op w r hr)
  have hpresent : ∀ {chain active}, ¬ Reopened C origin dir (.file dir hybrid) w chain active := by
    intro chain active hopen
    obtain ⟨j, hj, -⟩ := hopen.read
    rw [habsent] at hj
    cases hj
  refine (safe_newSignerWithStore origin dir (.file dir hybrid) w).mono (fun _ _ _ h => h)
    (fun _ _ _ => trivial) ?_
  intro res w' hdone
  cases hdone with
  | failed h =>
    rcases h with h | h | h
    · exact absurd h (hfails _)
    · exact absurd h (hfails _)
    · exact absurd habsent h
  | noKey _ hgen =>
    cases hgen with
    | noKey h => exact absurd h (hfails _)
    | noQuantum _ h => exact absurd h (hfails _)
    | notWritten _ hdone =>
      cases hdone with
      | refused h => exact absurd h (hfails _)
      | failed _ h => exact h.elim (absurd · (hfails _)) (absurd · (hfails _))
  | unsigned _ hgen hready _ =>
    obtain ⟨priv, qPriv, path, rfl, -, -⟩ := GenDone.draft hgen
    refine absurd ⟨rfl, fun hq => ?_⟩ hready
    cases qPriv with
    | none => cases hq
    | some => rfl
  | unpublished _ hwrite =>
    cases hwrite with
    | unwritten hdone =>
      cases hdone with
      | refused h => exact absurd h (hfails _)
      | failed _ h => exact h.elim (absurd · (hfails _)) (absurd · (hfails _))
    | unrenamed h => exact absurd h (hfails _)
  | founded hfound => exact ⟨_, _, hfound.fields.1, hfound.fields.2, rfl⟩
  | mismatched hopen => exact absurd hopen hpresent
  | reopened hopen => exact absurd hopen hpresent

end

/-- **Rotation is crash recoverable**, for a UTF-8 origin and directory and new names of key files:
after every run of starts, rotations and checkpoints of a file-backed signer, with I/O errors and
crashes before any call and in the middle of any write,

* a restart in which no call fails succeeds: it creates a genesis where there is no chain, and it
  opens the chain on disk otherwise; its active key is the one that the chain names;
* a rotation, wherever it ends or stops, leaves the chain on disk as it was or longer by its
  certificate. -/
theorem rotation_crash_recoverable (C : Crypto) {origin dir : Bytes} (horigin : Utf8 origin)
    (hdir : Utf8 dir) {as : List Action}
    (has : Along (step C dir) (FileBacked C origin dir) Sys.init as) :
    let sys := run (step C dir) Sys.init as
    (∀ hybrid rotator rs,
      Admitted C dir (fun _ _ r => r.err = none) sys (.start origin (.file dir hybrid) rotator rs) →
      Completes C dir sys (.start origin (.file dir hybrid) rotator rs) →
      ∃ s key, (step C dir sys (.start origin (.file dir hybrid) rotator rs)).signer = some s ∧
        s.active = some key ∧ s.chain.activePublicKey = .ok key.pub ∧
        (sys.world.files (chainPath dir) = none ∧
            (∃ cert, s.chain.certs = [some cert] ∧ cert.epoch = 0) ∨
          Reads dir sys.world s.chain)) ∧
    ∀ s rs, sys.signer = some s → FileBacked C origin dir sys (.rotate rs) →
      ∃ ch ch', Reads dir sys.world ch ∧ Reads dir (step C dir sys (.rotate rs)).world ch' ∧
        ch.SameOrNext ch' := by
  intro sys
  have hrun : RecoverInv C origin dir sys :=
    along_invariant (fun sys a h ha => recover_step horigin hdir a h ha) (.absent rfl rfl) has
  refine ⟨fun hybrid rotator rs hadm hend => ?_, fun s rs hsig ha => (hrun.rotate hsig ha.1).2⟩
  cases hexec :
    (newSignerWithStore C origin dir (.file dir hybrid)).exec (perform C) sys.world rs with
  | mk w p =>
  cases p with
  | ask op k => simp [Completes, hexec, ended] at hend
  | ret res =>
    cases hrun with
    | absent hfile _ =>
      obtain ⟨key, cert, hepoch, hpub, rfl⟩ :=
        (safe_genesis (fun _ _ _ hr => hr) hfile).returned hadm hexec
      exact ⟨⟨origin, dir, ⟨origin, [some cert], key.locator⟩, some key, .file dir hybrid, rotator⟩,
        key, by simp [step, hexec, Signer.useThresholdRotation], rfl, congrArg Except.ok hpub,
        .inl ⟨hfile, cert, rfl, hepoch⟩⟩
    | present ch hdisk _ =>
      obtain ⟨key, hactive, rfl⟩ :=
        (hdisk.safe_restart (fun _ _ _ hr => hr) horigin hdir).returned hadm hexec
      exact ⟨⟨origin, dir, ch.crossed, some key, .file dir hybrid, rotator⟩, key,
        by simp [step, hexec, Signer.useThresholdRotation], rfl, hactive, .inr hdisk.reads⟩

theorem rotation_crash_recoverable_cut :
    let sys := run (step paired sampleDir) Sys.init ((cutRun 12).take 2)
    let restart : Action := .start (lit "log") (.file sampleDir false) none [{}, {}, {}, {}]
    sys.signer.isNone = true ∧ ∃ s key, (step paired sampleDir sys restart).signer = some s ∧
      s.active = some key ∧ s.chain.activePublicKey = .ok key.pub ∧
      Reads sampleDir sys.world s.chain := by
  intro sys restart
  have has : Along (step paired sampleDir) (FileBacked paired (lit "log") sampleDir) Sys.init
      ((cutRun 12).take 2) := by
    decide +kernel
  have hadm : Admitted paired sampleDir (fun _ _ r => r.err = none) sys restart := by decide +kernel
  have hend : Completes paired sampleDir sys restart := by decide +kernel
  have hfile : (sys.world.files (chainPath sampleDir)).isSome = true := by decide +kernel
  obtain ⟨s, key, hs, hactive, hpub, habsent | hreads⟩ :=
    (rotation_crash_recoverable paired (by decide) (by decide) has).1 false none _ hadm hend
  · rw [habsent.1] at hfile
    cases hfile
  · exact ⟨by decide +kernel, s, key, hs, hactive, hpub, hreads⟩

def restartOf (origin dir : Bytes) : List Action :=
  [.start origin (.file dir false) none (genesisChoices 1 10),
    .start origin (.file dir false) none [{}, {}, {}, {}]]

/-- **Strings that are not UTF-8 are not restored**: the log of the origin `0xff`, and the log in
the directory `0xff`, are created without an error and cannot be opened again. -/
theorem raw_origin_not_restored :
    Along (step paired sampleDir) (Completes paired sampleDir) Sys.init
        (restartOf [0xff] sampleDir) ∧
      ((restartOf [0xff] sampleDir).inits.map fun as =>
        (run (step paired sampleDir) Sys.init as).signer.isSome) = [false, true, false] ∧
      Along (step paired [0xff]) (Completes paired [0xff]) Sys.init
        (restartOf (lit "log") [0xff]) ∧
      ((restartOf (lit "log") [0xff]).inits.map fun as =>
        (run (step paired [0xff]) Sys.init as).signer.isSome) = [false, true, false] := by
  decide +kernel

end Keys

end Stele
