import Stele.Keys.Runs

/-!
# Which files a call touches

The key files, `chain.json` and its temporary file have different names, and each part of a method
works on one of them (`Touched`).
-/

namespace Stele.Keys

open Lib Prog List

def IsKeyPath (dir path : Bytes) : Prop := ∃ now suffix, path = join dir (keyName now suffix)

lemma IsKeyPath.ne_chain {dir path : Bytes} (h : IsKeyPath dir path) : path ≠ chainPath dir := by
  obtain ⟨now, suffix, rfl⟩ := h
  intro heq
  have hname := append_cancel_left heq
  simp only [keyName, append_assoc] at hname
  have hhead : (some 101 : Option UInt8) = some 99 := congrArg List.head? hname
  exact absurd hhead (by decide)

lemma IsKeyPath.ne_tmp {dir path : Bytes} (h : IsKeyPath dir path) : path ≠ tmpPath dir := by
  obtain ⟨now, suffix, rfl⟩ := h
  intro heq
  rw [tmpPath, chainPath, join, join, append_assoc _ (lit "chain.json")] at heq
  have hname := append_cancel_left heq
  simp only [keyName, append_assoc] at hname
  have hhead : (some 101 : Option UInt8) = some 99 := congrArg List.head? hname
  exact absurd hhead (by decide)

lemma tmpPath_ne_chainPath (dir : Bytes) : tmpPath dir ≠ chainPath dir := by
  intro heq
  have hlen := congrArg List.length heq
  simp [tmpPath, lit] at hlen

def Touched (path : Bytes) (w w' : World) : Prop := ∀ q, q ≠ path → w'.files q = w.files q

namespace Touched

lemma refl (path : Bytes) (w : World) : Touched path w w := fun _ _ => rfl

lemma put (path : Bytes) (w : World) (c : Content) : Touched path w (w.put path c) :=
  fun _ hq => w.put_files_ne hq c

lemma drop (path : Bytes) (w : World) : Touched path w (w.drop path) :=
  fun _ hq => w.drop_files_ne hq

end Touched

variable {C : Crypto} {ok : Op → World → Choice → Prop} {hybrid : Bool}

section
variable {w w' : World}

lemma EraseStop.touched {path : Bytes} {op : Op} (h : EraseStop ok path w op w') :
    Touched path w w' := by
  cases h with
  | before => exact .refl path w
  | kept => exact .refl path w
  | during _ => exact .put path w _

lemma EraseDone.touched {path : Bytes} {err : Option Err} (h : EraseDone ok path w err w') :
    Touched path w w' := by
  cases h with
  | skipped => exact .refl path w
  | kept => exact .refl path w
  | left _ _ => exact .put path w _
  | removed => exact .drop path w

lemma publish_chain (w : World) (dir : Bytes) (chain : Chain) :
    (w.publish dir chain).files (chainPath dir) = some (.doc chain.toJson) := by
  simp [World.publish, World.put]

lemma publish_other {dir path : Bytes} (chain : Chain) (hpath : IsKeyPath dir path) :
    (w.publish dir chain).files path = w.files path := by
  show ((w.drop (tmpPath dir)).put (chainPath dir) (.doc chain.toJson)).files path = _
  rw [World.put_files_ne _ hpath.ne_chain, World.drop_files_ne _ hpath.ne_tmp]

variable {dir : Bytes}

lemma NewKey.isKeyPath {priv : EdKey} {qPriv : Option DilKey} {path : Bytes} {w1 : World}
    (h : NewKey C ok dir hybrid w priv qPriv path w1) : IsKeyPath dir path := by
  obtain ⟨r, -, rfl⟩ := h.named
  exact ⟨_, _, rfl⟩

lemma NewKey.files {priv : EdKey} {qPriv : Option DilKey} {path : Bytes} {w1 : World}
    (h : NewKey C ok dir hybrid w priv qPriv path w1) : w1.files = w.files := by
  rw [h.world]
  rfl

end

/-! ## A key that is not in the chain yet -/

/-- What may be at the path of such a key: what was there before, nothing, a part of the key's text,
or a part of the noise over it. -/
inductive Scrap (ok : Op → World → Choice → Prop) (path : Bytes) (priv : EdKey)
    (qPriv : Option DilKey) (before : Option Content) : Option Content → Prop
  | same : Scrap ok path priv qPriv before before
  | gone : Scrap ok path priv qPriv before none
  | part {c : Content} (hc : (keyContent priv qPriv).Part c) :
      Scrap ok path priv qPriv before (some c)
  | noise {b : Bytes} {c : Content} (hb : Noise ok path b) (hc : (Content.text b).Part c) :
      Scrap ok path priv qPriv before (some c)

def TmpLeft (before after : Option Content) : Prop :=
  after = before ∨ ∃ j c, after = some c ∧ (Content.doc j).Part c

/-- A key was made for the file at `path`, and `chain.json` is as it was. -/
structure Draft (C : Crypto) (ok : Op → World → Choice → Prop) (dir : Bytes) (hybrid : Bool)
    (w : World) (priv : EdKey) (qPriv : Option DilKey) (path : Bytes) (w' : World) : Prop where
  new : ∃ w1, NewKey C ok dir hybrid w priv qPriv path w1
  other : ∀ p, p ≠ path → p ≠ tmpPath dir → w'.files p = w.files p
  key : Scrap ok path priv qPriv (w.files path) (w'.files path)
  tmp : TmpLeft (w.files (tmpPath dir)) (w'.files (tmpPath dir))
  made : w'.made = (C.edPublic priv, quantumOf C (qPriv.map Subtype.val)) :: w.made

inductive Unpublished (C : Crypto) (ok : Op → World → Choice → Prop) (dir : Bytes) (hybrid : Bool)
    (w w' : World) : Prop
  | idle (files : w'.files = w.files) (made : w'.made = w.made)
  | keyed {r : Choice} (hr : ok .edKey w r) (files : w'.files = w.files)
      (made : w'.made = (C.edPublic r.edKey, []) :: w.made)
  | draft {priv : EdKey} {qPriv : Option DilKey} {path : Bytes}
      (h : Draft C ok dir hybrid w priv qPriv path w')

section
variable {dir : Bytes} {w w' w'' : World} {priv : EdKey} {qPriv : Option DilKey} {path : Bytes}

namespace Draft

variable (h : Draft C ok dir hybrid w priv qPriv path w')
include h

lemma isKeyPath : IsKeyPath dir path := by
  obtain ⟨w1, hnew⟩ := h.new
  exact hnew.isKeyPath

lemma touchKey (ht : Touched path w' w'') (hmade : w''.made = w'.made)
    (hkey : Scrap ok path priv qPriv (w.files path) (w''.files path)) :
    Draft C ok dir hybrid w priv qPriv path w'' where
  new := h.new
  other p hp htmp := (ht p hp).trans (h.other p hp htmp)
  key := hkey
  tmp := by
    rw [ht _ h.isKeyPath.ne_tmp.symm]
    exact h.tmp
  made := hmade.trans h.made

lemma touchTmp (ht : Touched (tmpPath dir) w' w'') (hmade : w''.made = w'.made)
    (htmp : TmpLeft (w.files (tmpPath dir)) (w''.files (tmpPath dir))) :
    Draft C ok dir hybrid w priv qPriv path w'' where
  new := h.new
  other p hp hp' := (ht p hp').trans (h.other p hp hp')
  key := by
    rw [ht _ h.isKeyPath.ne_tmp]
    exact h.key
  tmp := htmp
  made := hmade.trans h.made

lemma tick (now : Int) : Draft C ok dir hybrid w priv qPriv path (w'.tick now) :=
  ⟨h.new, h.other, h.key, h.tmp, h.made⟩

lemma eraseStop {op : Op} (hstop : EraseStop ok path w' op w'') :
    Draft C ok dir hybrid w priv qPriv path w'' := by
  cases hstop with
  | before => exact h
  | kept => exact h
  | during hb hc =>
    refine h.touchKey (.put path w' _) rfl ?_
    rw [World.put_files_self]
    exact .noise hb hc

lemma eraseDone {err : Option Err} (hdone : EraseDone ok path w' err w'') :
    Draft C ok dir hybrid w priv qPriv path w'' := by
  cases hdone with
  | skipped => exact h
  | kept => exact h
  | left _ hb hc =>
    refine h.touchKey (.put path w' _) rfl ?_
    rw [World.put_files_self]
    exact .noise hb hc
  | removed =>
    refine h.touchKey (.drop path w') rfl ?_
    rw [World.drop_files_self]
    exact .gone

lemma putTmp {j : Json} {c : Content} (hc : (Content.doc j).Part c) :
    Draft C ok dir hybrid w priv qPriv path (w'.put (tmpPath dir) c) := by
  refine h.touchTmp (.put _ w' _) rfl (.inr ⟨j, c, ?_, hc⟩)
  rw [World.put_files_self]

lemma chainStop {chain : Chain} {op : Op} (hstop : ChainStop dir chain w' op w'') :
    Draft C ok dir hybrid w priv qPriv path w'' := by
  cases hstop with
  | writing hstop =>
    cases hstop with
    | opening => exact h
    | writing hc => exact h.putTmp hc
  | moving => exact h.putTmp .all

lemma chainFailed {chain : Chain} {e : Err} (hdone : ChainDone ok dir chain w' (some e) w'') :
    Draft C ok dir hybrid w priv qPriv path w'' := by
  cases hdone with
  | unwritten hdone =>
    cases hdone with
    | refused => exact h
    | failed hc => exact h.putTmp hc
  | unrenamed => exact h.putTmp .all

lemma certifyStop {op : Op}
    (hstop : CertifyStop ok (fileKey C path priv (qPriv.map Subtype.val)) w' op w'') :
    Draft C ok dir hybrid w priv qPriv path w'' := by
  cases hstop with
  | clock => exact h
  | signing _ => exact h.tick _
  | discarding _ hstop => exact (h.tick _).eraseStop hstop

lemma certifyFailed
    (hfail : CertifyFailed ok (fileKey C path priv (qPriv.map Subtype.val)) w' w'') :
    Draft C ok dir hybrid w priv qPriv path w'' := by
  obtain ⟨r, -, rfl | ⟨res, -, hdone⟩⟩ := hfail
  · exact h.tick _
  · exact (h.tick _).eraseDone hdone

end Draft

lemma NewKey.draft {w1 : World} (hnew : NewKey C ok dir hybrid w priv qPriv path w1) :
    Draft C ok dir hybrid w priv qPriv path w1 where
  new := ⟨w1, hnew⟩
  other p _ _ := by rw [hnew.files]
  key := by
    rw [hnew.files]
    exact .same
  tmp := .inl (by rw [hnew.files])
  made := by
    rw [hnew.world]
    rfl

lemma Draft.putKey (h : Draft C ok dir hybrid w priv qPriv path w') {c : Content}
    (hc : (keyContent priv qPriv).Part c) :
    Draft C ok dir hybrid w priv qPriv path (w'.put path c) := by
  refine h.touchKey (.put path w' c) rfl ?_
  rw [World.put_files_self]
  exact .part hc

lemma GenStop.unpublished {op : Op} (h : GenStop C ok dir hybrid w op w') :
    Unpublished C ok dir hybrid w w' := by
  cases h with
  | start => exact .idle rfl rfl
  | made _ hr => exact .keyed hr rfl rfl
  | writing hnew hstop =>
    cases hstop with
    | opening => exact .draft hnew.draft
    | writing hc => exact .draft (hnew.draft.putKey hc)

lemma GenDone.unpublished {e : Fault} (h : GenDone C ok dir hybrid w (.error e) w') :
    Unpublished C ok dir hybrid w w' := by
  cases h with
  | noKey => exact .idle rfl rfl
  | noQuantum hr => exact .keyed hr rfl rfl
  | notWritten hnew hdone =>
    cases hdone with
    | refused => exact .draft hnew.draft
    | failed hc => exact .draft (hnew.draft.putKey hc)

lemma GenDone.draft {key : LiveKey} (h : GenDone C ok dir hybrid w (.ok key) w') :
    ∃ (priv : EdKey) (qPriv : Option DilKey) (path : Bytes),
      key = fileKey C path priv (qPriv.map Subtype.val) ∧
      Draft C ok dir hybrid w priv qPriv path w' ∧
      w'.files path = some (keyContent priv qPriv) := by
  cases h with
  | done hnew => exact ⟨_, _, _, rfl, hnew.draft.putKey .all, World.put_files_self _ _ _⟩

lemma Unpublished.chain (h : Unpublished C ok dir hybrid w w') :
    w'.files (chainPath dir) = w.files (chainPath dir) := by
  cases h with
  | idle hfiles => rw [hfiles]
  | keyed _ hfiles => rw [hfiles]
  | draft h => exact h.other _ h.isKeyPath.ne_chain.symm (tmpPath_ne_chainPath dir).symm

/-! ## The files after `Rotate` and `NewSignerWithStore` -/

/-- The files when a certificate has just been published: `chain.json` is the new chain, the key it
names is in its file, and nothing else changed but the temporary file. -/
structure Published (C : Crypto) (ok : Op → World → Choice → Prop) (dir : Bytes) (hybrid : Bool)
    (w : World) (chain : Chain) (priv : EdKey) (qPriv : Option DilKey) (path : Bytes)
    (w' : World) : Prop where
  new : ∃ w1, NewKey C ok dir hybrid w priv qPriv path w1
  chain_file : w'.files (chainPath dir) = some (.doc chain.toJson)
  key : w'.files path = some (keyContent priv qPriv)
  tmp : w'.files (tmpPath dir) = none
  other : ∀ p, p ≠ path → p ≠ tmpPath dir → p ≠ chainPath dir → w'.files p = w.files p
  made : w'.made = (C.edPublic priv, quantumOf C (qPriv.map Subtype.val)) :: w.made

lemma Draft.publish (h : Draft C ok dir hybrid w priv qPriv path w')
    (hkey : w'.files path = some (keyContent priv qPriv)) (chain : Chain) :
    Published C ok dir hybrid w chain priv qPriv path (w'.publish dir chain) where
  new := h.new
  chain_file := publish_chain w' dir chain
  key := by
    rw [publish_other chain h.isKeyPath]
    exact hkey
  tmp := by
    show ((w'.drop (tmpPath dir)).put (chainPath dir) (.doc chain.toJson)).files _ = _
    rw [World.put_files_ne _ (tmpPath_ne_chainPath dir), World.drop_files_self]
  other p hp htmp hchain := by
    show ((w'.drop (tmpPath dir)).put (chainPath dir) (.doc chain.toJson)).files p = _
    rw [World.put_files_ne _ hchain, World.drop_files_ne _ htmp]
    exact h.other p hp htmp
  made := h.made

end

section
variable {w w' : World} {s : Signer}

section

variable (hstore : s.store = .file s.dir hybrid)

include hstore

lemma Prepared.published {prevActive newActive : LiveKey}
    {prevCert cert : RotationCert} {now : Int} {w1 : World}
    (h : Prepared C ok s w prevActive newActive prevCert cert now w1) :
    ∃ (priv : EdKey) (qPriv : Option DilKey) (path : Bytes),
      newActive = fileKey C path priv (qPriv.map Subtype.val) ∧
      Draft C ok s.dir hybrid w priv qPriv path (w1.tick now) ∧
      Published C ok s.dir hybrid w (s.chain.extend cert newActive.locator) priv qPriv path
        ((w1.tick now).publish s.dir (s.chain.extend cert newActive.locator)) := by
  have hgen := h.gen
  rw [hstore] at hgen
  obtain ⟨priv, qPriv, path, hkey, hdraft, hfile⟩ := GenDone.draft hgen
  exact ⟨priv, qPriv, path, hkey, hdraft.tick now, (hdraft.tick now).publish hfile _⟩

lemma RotateStop.files {op : Op} (h : RotateStop C ok s w op w') :
    Unpublished C ok s.dir hybrid w w' ∨ ∃ prevActive newActive prevCert cert now w1,
        Prepared C ok s w prevActive newActive prevCert cert now w1 ∧
        DestroyStop ok prevActive
          ((w1.tick now).publish s.dir (s.chain.extend cert newActive.locator)) op w' := by
  cases h with
  | generating hgen =>
    rw [hstore] at hgen
    exact .inl (GenStop.unpublished hgen)
  | certifying hgen hstop =>
    rw [hstore] at hgen
    obtain ⟨priv, qPriv, path, rfl, hdraft, -⟩ := GenDone.draft hgen
    exact .inl (.draft (hdraft.certifyStop hstop))
  | publishing hprep hstop =>
    obtain ⟨priv, qPriv, path, -, hdraft, -⟩ := hprep.published hstore
    exact .inl (.draft (hdraft.chainStop hstop))
  | undoing hprep hwrite hstop =>
    obtain ⟨priv, qPriv, path, rfl, hdraft, -⟩ := hprep.published hstore
    exact .inl (.draft ((hdraft.chainFailed hwrite).eraseStop hstop))
  | destroying hprep hstop => exact .inr ⟨_, _, _, _, _, _, hprep, hstop⟩

lemma RotateDone.files {s' : Signer}
    {res : Res RotationCert} (h : RotateDone C ok s w (s', res) w') :
    (Unpublished C ok s.dir hybrid w w' ∧ s'.chain.certs = s.chain.certs ∧
      s'.active = s.active) ∨ ∃ prevActive newActive prevCert cert now w1 prevActive' err,
        Prepared C ok s w prevActive newActive prevCert cert now w1 ∧
        DestroyDone ok prevActive
          ((w1.tick now).publish s.dir (s.chain.extend cert newActive.locator))
          (prevActive', err) w' ∧
        s'.chain = s.chain.extend cert newActive.locator ∧
        s'.active = some (if err = none then newActive else prevActive') ∧
        (err ≠ none → ∃ e, res = .error e) := by
  cases h with
  | refused => exact .inl ⟨.idle rfl rfl, rfl, rfl⟩
  | noKey hgen =>
    rw [hstore] at hgen
    exact .inl ⟨GenDone.unpublished hgen, rfl, rfl⟩
  | nilCert _ hgen =>
    rw [hstore] at hgen
    obtain ⟨priv, qPriv, path, rfl, hdraft, -⟩ := GenDone.draft hgen
    exact .inl ⟨.draft hdraft, rfl, rfl⟩
  | unsigned hgen hfail =>
    rw [hstore] at hgen
    obtain ⟨priv, qPriv, path, rfl, hdraft, -⟩ := GenDone.draft hgen
    exact .inl ⟨.draft (hdraft.certifyFailed hfail), rfl, rfl⟩
  | unpublished hprep hwrite hdone =>
    obtain ⟨priv, qPriv, path, rfl, hdraft, -⟩ := hprep.published hstore
    exact .inl ⟨.draft ((hdraft.chainFailed hwrite).eraseDone hdone.2), rfl, rfl⟩
  | kept hprep hdone =>
    exact .inr ⟨_, _, _, _, _, _, _, _, hprep, hdone, rfl, rfl, fun _ => ⟨_, rfl⟩⟩
  | rotated hprep hdone =>
    exact .inr ⟨_, _, _, _, _, _, _, _, hprep, hdone, rfl, rfl, fun hne => absurd rfl hne⟩

end

end

section
variable {origin dir : Bytes} {w w' : World}

lemma Founded.published {active : LiveKey} {cert : RotationCert} {now : Int} {w1 : World}
    (h : Founded C ok dir (.file dir hybrid) w active cert now w1) (origin : Bytes) :
    ∃ (priv : EdKey) (qPriv : Option DilKey) (path : Bytes),
      active = fileKey C path priv (qPriv.map Subtype.val) ∧
      Draft C ok dir hybrid w priv qPriv path (w1.tick now) ∧
      Published C ok dir hybrid w ⟨origin, [some cert], active.locator⟩ priv qPriv path
        ((w1.tick now).publish dir ⟨origin, [some cert], active.locator⟩) := by
  obtain ⟨priv, qPriv, path, hkey, hdraft, hfile⟩ := GenDone.draft h.gen
  exact ⟨priv, qPriv, path, hkey, hdraft.tick now, (hdraft.tick now).publish hfile _⟩

lemma StartStop.files {op : Op} (h : StartStop C ok origin dir (.file dir hybrid) w op w') :
    Unpublished C ok dir hybrid w w' ∨
      ∃ chain active, Reopened C origin dir (.file dir hybrid) w chain active ∧
        chain.activePublicKey ≠ .ok active.pub ∧ DestroyStop ok active w op w' := by
  cases h with
  | reading => exact .inl (.idle rfl rfl)
  | generating _ hgen => exact .inl (GenStop.unpublished hgen)
  | signing _ hgen hstop =>
    obtain ⟨priv, qPriv, path, rfl, hdraft, -⟩ := GenDone.draft hgen
    exact .inl (.draft (hdraft.certifyStop hstop))
  | publishing hfound hstop =>
    obtain ⟨priv, qPriv, path, -, hdraft, -⟩ := hfound.published origin
    exact .inl (.draft (hdraft.chainStop hstop))
  | discarding hopen hpub hstop => exact .inr ⟨_, _, hopen, hpub, hstop⟩

lemma StartDone.files {e : Fault}
    (h : StartDone C ok origin dir (.file dir hybrid) w (.error e) w') :
    Unpublished C ok dir hybrid w w' ∨
      ∃ chain active res, Reopened C origin dir (.file dir hybrid) w chain active ∧
        chain.activePublicKey ≠ .ok active.pub ∧ DestroyDone ok active w res w' := by
  cases h with
  | failed => exact .inl (.idle rfl rfl)
  | noKey _ hgen => exact .inl (GenDone.unpublished hgen)
  | unsigned _ hgen _ hfail =>
    obtain ⟨priv, qPriv, path, rfl, hdraft, -⟩ := GenDone.draft hgen
    exact .inl (.draft (hdraft.certifyFailed hfail))
  | unpublished hfound hwrite =>
    obtain ⟨priv, qPriv, path, -, hdraft, -⟩ := hfound.published origin
    exact .inl (.draft (hdraft.chainFailed hwrite))
  | mismatched hopen hpub hdone => exact .inr ⟨_, _, _, hopen, hpub, hdone⟩

end

end Stele.Keys
