import Stele.Keys.World

/-!
# Live keys and key stores (`pkg/fwdsec/keystore.go`, `pkg/hsm/pkcs11.go`)

`FileKeyStore` keeps each key in a file of its own; `PKCS11KeyStore` keeps it on a token. Both are
programs over the calls of `Op`.

For each program there is one statement of what it may leave behind, at the end and when it stops
in the middle: `safe_writeFile`, `safe_removeKeyFile`, `safe_generateFile` and their counterparts
for the token.
-/

namespace Stele.Keys

open Lib Prog

def join (dir name : Bytes) : Bytes := dir ++ lit "/" ++ name

def writeFile (path : Bytes) (body : Content) : Calls (Option Err) := do
  match ← sys (.openFile path) with
  | some e => return some e
  | none =>
    sys (.writePart path body)
    let err ← sys (.write path body)
    let err1 ← sys (.close path)
    return err.or err1

/-! ## Keys -/

/-- `fileLiveKey`. The private halves are nil after `Destroy`. -/
structure FileKey where
  priv : Option Bytes
  pub : Bytes
  path : Bytes
  qPriv : Option Bytes := none
  qPub : Option Bytes := none

structure HsmKey where
  privObj : Nat
  pubObj : Nat
  pubKey : Bytes
  label : Bytes

inductive LiveKey
  | file (k : FileKey)
  | hsm (k : HsmKey)

/-- The part of `fileLiveKey.Destroy` that works on the file: overwrite it with noise and remove
it, unless it is not there or `Stat` fails. The first error counts. -/
def removeKeyFile (path : Bytes) : Calls (Option Err) := do
  if path = [] then return none
  match ← sys (.stat path) with
  | .ok (some size) =>
    let (noise, err) ← sys (.noise path size)
    let err2 ← writeFile path (.text noise)
    let err3 ← sys (.remove path)
    return (err.map (.wrap "fwdsec: randomise key file before destroy: %w" [])).or <|
      (err2.map (.wrap "fwdsec: overwrite key file: %w" [])).or <|
      err3.map (.wrap "fwdsec: remove key file: %w" [])
  | _ => return none

namespace LiveKey

def pub : LiveKey → Bytes
  | file k => k.pub
  | hsm k => k.pubKey

def quantumPublic : LiveKey → Option Bytes
  | file k => k.qPub
  | hsm _ => none

def locator : LiveKey → Bytes
  | file k => k.path
  | hsm k => k.label

def sign (C : Crypto) (msg : Bytes) : LiveKey → Calls (Res Bytes)
  | file k =>
    match k.priv with
    | none => return .error (errorf "file livekey: destroyed" [])
    | some priv => return .ok (C.edSign priv msg)
  | hsm k => do
    match ← sys (.signInit k.privObj) with
    | some e => return .error (.err (.wrap "hsm: SignInit: %w" [] e))
    | none =>
      match ← sys (.sign k.privObj msg) with
      | .error e => return .error (.err (.wrap "hsm: Sign: %w" [] e))
      | .ok sig => return .ok sig

def quantumSign (C : Crypto) (msg : Bytes) : LiveKey → Res Bytes
  | file k =>
    match k.qPriv with
    | none => .error (errorf "file livekey: not hybrid (no Dilithium key)" [])
    | some qPriv => .ok (C.dilSign qPriv msg)
  | hsm _ =>
    .error (errorf "hsm livekey: hybrid mode not supported (no PKCS#11 Dilithium mechanism)" [])

/-- `Destroy`: the key without its private halves, and the error. Of the errors that
`errors.Join` puts together for a token key, the first one is kept. -/
def destroy : LiveKey → Calls (LiveKey × Option Err)
  | file k => do
    let err ← removeKeyFile k.path
    return (file { k with priv := none, qPriv := none }, err)
  | hsm k => do
    let err ← sys (.destroyObject k.privObj)
    let err2 ← sys (.destroyObject k.pubObj)
    return (hsm k, (err.map (.wrap "destroy private: %w" [])).or
      (err2.map (.wrap "destroy public: %w" [])))

end LiveKey

/-! ## Stores -/

def fileKey (C : Crypto) (path priv : Bytes) (qPriv : Option Bytes) : LiveKey := .file {
  priv := some priv
  pub := C.edPublic priv
  path := path
  qPriv := qPriv
  qPub := qPriv.map C.dilPublic }

def quantumHalf : Bool → Calls (Res (Option DilKey))
  | false => return .ok none
  | true => do
    match ← sys .dilKey with
    | .error e => return .error (.err (.wrap "file keystore: dilithium keygen: %w" [] e))
    | .ok qPriv => return .ok (some qPriv)

def generateFile (C : Crypto) (dir : Bytes) (hybrid : Bool) : Calls (Res LiveKey) := do
  match ← sys .edKey with
  | .error e => return .error (.err e)
  | .ok priv =>
    let name ← sys .keyName
    match ← quantumHalf hybrid with
    | .error e => return .error e
    | .ok qPriv =>
      let qPriv := qPriv.map Subtype.val
      match ← writeFile (join dir name) (.text (encodePrivate priv qPriv)) with
      | some e => return .error (.err e)
      | none => return .ok (fileKey C (join dir name) priv qPriv)

def loadContent (C : Crypto) (locator : Bytes) : Except Err Content → Res LiveKey
  | .error e => .error (.err (.wrap "file keystore: read %s: %w" [.bytes locator] e))
  | .ok (.text raw) => do
    let (priv, qPriv) ← decodePrivate raw
    return fileKey C locator priv qPriv
  -- A JSON document starts with a brace.
  | .ok _ => .error ((errorf "illegal base64 data" []).wrap "file keystore: decode: %w" [])

def loadFile (C : Crypto) (locator : Bytes) : Calls (Res LiveKey) := do
  if locator = [] then return .error (errorf "file keystore: empty locator" [])
  let content ← sys (.readFile locator)
  return loadContent C locator content

/-- The decoding of `readPublicKeyLocked`: the raw key, or an OCTET STRING with the key in it. -/
def decodePoint (v : Bytes) : Res Bytes :=
  if v = [] then .error (errorf "hsm: empty CKA_EC_POINT" [])
  else if v.length = edPublicKeySize then .ok v
  else
    match v with
    | 4 :: 32 :: raw =>
      if edPublicKeySize ≤ raw.length then .ok (raw.take edPublicKeySize)
      else .error (errorf "hsm: cannot decode CKA_EC_POINT of length %d" [.nat v.length])
    | _ => .error (errorf "hsm: cannot decode CKA_EC_POINT of length %d" [.nat v.length])

def readPublicKey (obj : Nat) : Calls (Res Bytes) := do
  match ← sys (.ecPoint obj) with
  | .error e => return .error (.err (.wrap "hsm: GetAttributeValue(CKA_EC_POINT): %w" [] e))
  | .ok v => return decodePoint v

def generateHsm (keyPrefix : Bytes) : Calls (Res LiveKey) := do
  let suffix ← sys .randHex
  let label := keyPrefix ++ lit "-epoch-" ++ suffix
  match ← sys (.generateKeyPair label) with
  | .error e => return .error (.err (.wrap "hsm: GenerateKeyPair: %w" [] e))
  | .ok (pubObj, privObj) =>
    match ← readPublicKey pubObj with
    | .error e =>
      let _ ← sys (.destroyObject privObj)
      let _ ← sys (.destroyObject pubObj)
      return .error e
    | .ok pubKey => return .ok (.hsm ⟨privObj, pubObj, pubKey, label⟩)

def findOne (label : Bytes) (cls : ObjectClass) : Calls (Res Nat) := do
  match ← sys (.findObjects label cls) with
  | .error e => return .error (.err e)
  | .ok [obj] => return .ok obj
  | .ok [] =>
    return .error (errorf "no object with label=%q class=%d" [.bytes label, .nat cls.toNat])
  | .ok objs =>
    return .error (errorf "multiple objects with label=%q class=%d (got %d)"
      [.bytes label, .nat cls.toNat, .nat objs.length])

def loadHsm (label : Bytes) : Calls (Res LiveKey) := do
  match ← findOne label .privateKey with
  | .error e => return .error (e.wrap "hsm: load private %q: %w" [.bytes label])
  | .ok privObj =>
    match ← findOne label .publicKey with
    | .error e => return .error (e.wrap "hsm: load public %q: %w" [.bytes label])
    | .ok pubObj =>
      match ← readPublicKey pubObj with
      | .error e => return .error e
      | .ok pubKey => return .ok (.hsm ⟨privObj, pubObj, pubKey, label⟩)

inductive KeyStore
  | file (dir : Bytes) (hybrid : Bool)
  | pkcs11 (keyPrefix : Bytes)
  deriving DecidableEq

namespace KeyStore

def generate (C : Crypto) : KeyStore → Calls (Res LiveKey)
  | file dir hybrid => generateFile C dir hybrid
  | pkcs11 keyPrefix => generateHsm keyPrefix

def load (C : Crypto) (locator : Bytes) : KeyStore → Calls (Res LiveKey)
  | file _ _ => loadFile C locator
  | pkcs11 _ => loadHsm locator

end KeyStore

/-! ## What the programs leave behind -/

def Fails (ok : Op → World → Choice → Prop) (op : Op) : Prop := ∃ w r, ok op w r ∧ r.err ≠ none

inductive WriteStop (path : Bytes) (body : Content) (w : World) : Op → World → Prop
  | opening : WriteStop path body w (.openFile path) w
  | writing {op : Op} {c : Content} (hc : body.Part c) : WriteStop path body w op (w.put path c)

inductive WriteDone (ok : Op → World → Choice → Prop) (path : Bytes) (body : Content) (w : World) :
    Option Err → World → Prop
  | refused {e : Err} (h : Fails ok (.openFile path)) : WriteDone ok path body w (some e) w
  | failed {e : Err} {c : Content} (hc : body.Part c)
      (h : Fails ok (.write path body) ∨ Fails ok (.close path)) :
      WriteDone ok path body w (some e) (w.put path c)
  | wrote : WriteDone ok path body w none (w.put path body)

def Noise (ok : Op → World → Choice → Prop) (path b : Bytes) : Prop :=
  ∃ w n r, ok (.noise path n) w r ∧ b = Crypto.fit n r.bytes

def Op.BeforeErase (path : Bytes) (op : Op) : Prop :=
  op = .stat path ∨ (∃ n, op = .noise path n) ∨ op = .openFile path

inductive EraseStop (ok : Op → World → Choice → Prop) (path : Bytes) (w : World) :
    Op → World → Prop
  | before {op : Op} (hop : op.BeforeErase path) : EraseStop ok path w op w
  | kept (h : Fails ok (.openFile path)) : EraseStop ok path w (.remove path) w
  | during {op : Op} {b : Bytes} {c : Content} (hb : Noise ok path b)
      (hc : (Content.text b).Part c) : EraseStop ok path w op (w.put path c)

inductive EraseDone (ok : Op → World → Choice → Prop) (path : Bytes) (w : World) :
    Option Err → World → Prop
  | skipped (h : path = [] ∨ Fails ok (.stat path) ∨ w.files path = none) :
      EraseDone ok path w none w
  | kept {e : Err} (h : Fails ok (.openFile path)) : EraseDone ok path w (some e) w
  | left {e : Err} {b : Bytes} {c : Content} (h : Fails ok (.remove path))
      (hb : Noise ok path b) (hc : (Content.text b).Part c) :
      EraseDone ok path w (some e) (w.put path c)
  | removed {err : Option Err} : EraseDone ok path w err (w.drop path)

def keyContent (priv : EdKey) (qPriv : Option DilKey) : Content :=
  .text (encodePrivate priv (qPriv.map Subtype.val))

def quantumOf (C : Crypto) (qPriv : Option Bytes) : Bytes := (qPriv.map C.dilPublic).getD []

structure NewKey (C : Crypto) (ok : Op → World → Choice → Prop) (dir : Bytes) (hybrid : Bool)
    (w : World) (priv : EdKey) (qPriv : Option DilKey) (path : Bytes) (w1 : World) : Prop where
  chosen : ∃ r, ok .edKey w r ∧ r.edKey = priv
  named : ∃ r, ok .keyName (w.make (C.edPublic priv) []) r ∧ path = join dir (keyName r.now r.count)
  hybrid_iff : qPriv.isSome = hybrid
  world : w1 = w.make (C.edPublic priv) (quantumOf C (qPriv.map Subtype.val))

inductive GenStop (C : Crypto) (ok : Op → World → Choice → Prop) (dir : Bytes) (hybrid : Bool)
    (w : World) : Op → World → Prop
  | start : GenStop C ok dir hybrid w .edKey w
  | made {op : Op} {r : Choice} (hop : op = .keyName ∨ op = .dilKey) (hr : ok .edKey w r) :
      GenStop C ok dir hybrid w op (w.make (C.edPublic r.edKey) [])
  | writing {priv : EdKey} {qPriv : Option DilKey} {path : Bytes} {w1 w2 : World} {op : Op}
      (hnew : NewKey C ok dir hybrid w priv qPriv path w1)
      (hstop : WriteStop path (keyContent priv qPriv) w1 op w2) : GenStop C ok dir hybrid w op w2

inductive GenDone (C : Crypto) (ok : Op → World → Choice → Prop) (dir : Bytes) (hybrid : Bool)
    (w : World) : Res LiveKey → World → Prop
  | noKey {e : Err} (h : Fails ok .edKey) : GenDone C ok dir hybrid w (.error (.err e)) w
  | noQuantum {e : Err} {r : Choice} (hr : ok .edKey w r) (h : Fails ok .dilKey) :
      GenDone C ok dir hybrid w (.error (.err e)) (w.make (C.edPublic r.edKey) [])
  | notWritten {e : Err} {priv : EdKey} {qPriv : Option DilKey} {path : Bytes} {w1 w2 : World}
      (hnew : NewKey C ok dir hybrid w priv qPriv path w1)
      (hdone : WriteDone ok path (keyContent priv qPriv) w1 (some e) w2) :
      GenDone C ok dir hybrid w (.error (.err e)) w2
  | done {priv : EdKey} {qPriv : Option DilKey} {path : Bytes} {w1 : World}
      (hnew : NewKey C ok dir hybrid w priv qPriv path w1) :
      GenDone C ok dir hybrid w (.ok (fileKey C path priv (qPriv.map Subtype.val)))
        (w1.put path (keyContent priv qPriv))

section
variable {C : Crypto} {ok : Op → World → Choice → Prop}

lemma safe_writeFile (path : Bytes) (body : Content) (w : World) :
    Safe (perform C) ok (WriteStop path body w) (WriteDone ok path body w) (writeFile path body)
      w := by
  have hempty : body.Part (.text []) := by
    have hcut : body.cut 0 = .text [] := by cases body <;> rfl
    exact hcut ▸ .cut 0
  refine safe_call_bind.mpr ⟨.opening, fun r hr => ?_⟩
  cases herr : r.err with
  | some =>
    simp only [perform, herr]
    exact .refused ⟨w, r, hr, by simp [herr]⟩
  | none =>
    simp only [perform, herr]
    refine safe_call_bind.mpr ⟨.writing hempty, fun r hr => ?_⟩
    simp only [perform, World.put_put]
    refine safe_call_bind.mpr ⟨.writing (.cut r.count), fun r1 hr1 => ?_⟩
    have hclose : ∀ err : Option Err, ∀ c, body.Part c →
        (err = none → c = body) → (err ≠ none → Fails ok (.write path body)) →
        Safe (perform C) ok (WriteStop path body w) (WriteDone ok path body w)
          (sys (.close path) >>= fun err1 => pure (err.or err1)) (w.put path c) := by
      intro err c hc hnone hsome
      refine safe_call_bind.mpr ⟨.writing hc, fun r2 hr2 => ?_⟩
      cases herr2 : r2.err with
      | some =>
        have hfails : Fails ok (.close path) := ⟨_, r2, hr2, by simp [herr2]⟩
        cases err with
        | some => exact .failed hc (.inl (hsome (by simp)))
        | none =>
          simp only [perform, herr2]
          exact .failed hc (.inr hfails)
      | none =>
        simp only [perform, herr2]
        cases err with
        | some => exact .failed hc (.inl (hsome (by simp)))
        | none =>
          rw [hnone rfl]
          exact .wrote
    cases herr1 : r1.err with
    | some e =>
      simp only [perform, herr1, World.put_put]
      exact hclose (some e) _ (.cut r1.count) (fun h => by cases h)
        fun _ => ⟨_, r1, hr1, by simp [herr1]⟩
    | none =>
      simp only [perform, herr1, World.put_put]
      exact hclose none _ .all (fun _ => rfl) fun h => absurd rfl h

/-- `Destroy` changes one file: it stays, or holds a part of the noise, or is gone. -/
lemma safe_removeKeyFile (path : Bytes) (w : World) :
    Safe (perform C) ok (EraseStop ok path w) (EraseDone ok path w) (removeKeyFile path) w := by
  unfold removeKeyFile
  by_cases hpath : path = []
  · rw [if_pos hpath]
    exact .skipped (.inl hpath)
  rw [if_neg hpath]
  refine safe_call_bind.mpr ⟨.before (.inl rfl), fun r hr => ?_⟩
  cases herr : r.err with
  | some =>
    simp only [perform, herr]
    exact .skipped (.inr (.inl ⟨w, r, hr, by simp [herr]⟩))
  | none =>
    cases hfile : w.files path with
    | none =>
      simp only [perform, herr, hfile, Option.map_none]
      exact .skipped (.inr (.inr hfile))
    | some c0 =>
      simp only [perform, herr, hfile, Option.map_some]
      refine safe_call_bind.mpr ⟨.before (.inr (.inl ⟨_, rfl⟩)), fun r1 hr1 => ?_⟩
      simp only [perform]
      have hnoise : Noise ok path (Crypto.fit (c0.size r.count) r1.bytes) := ⟨w, _, r1, hr1, rfl⟩
      refine (safe_writeFile path _ w).bind ?_ ?_
      · -- Stopped in the middle of the overwriting.
        intro op w1 hstop
        cases hstop with
        | opening => exact .before (.inr (.inr rfl))
        | writing hc => exact .during hnoise hc
      · intro err2 w1 hdone
        cases hdone with
        | refused h =>
          refine safe_call_bind.mpr ⟨.kept h, fun r3 hr3 => ?_⟩
          cases herr3 : r3.err with
          | some =>
            simp only [perform, herr3]
            cases r1.err <;> exact .kept h
          | none =>
            simp only [perform, herr3, hfile]
            exact .removed
        | failed hc _ =>
          refine safe_call_bind.mpr ⟨.during hnoise hc, fun r3 hr3 => ?_⟩
          cases herr3 : r3.err with
          | some =>
            simp only [perform, herr3]
            cases r1.err <;> exact .left ⟨_, r3, hr3, by simp [herr3]⟩ hnoise hc
          | none =>
            simp only [perform, herr3, World.put_files_self, World.put_drop]
            exact .removed
        | wrote =>
          refine safe_call_bind.mpr ⟨.during hnoise .all, fun r3 hr3 => ?_⟩
          cases herr3 : r3.err with
          | some =>
            simp only [perform, herr3]
            cases r1.err <;> exact .left ⟨_, r3, hr3, by simp [herr3]⟩ hnoise .all
          | none =>
            simp only [perform, herr3, World.put_files_self, World.put_drop]
            exact .removed

lemma safe_generateFile (dir : Bytes) (hybrid : Bool) (w : World) :
    Safe (perform C) ok (GenStop C ok dir hybrid w) (GenDone C ok dir hybrid w)
      (generateFile C dir hybrid) w := by
  refine safe_call_bind.mpr ⟨.start, fun r hr => ?_⟩
  cases herr : r.err with
  | some =>
    simp only [perform, herr]
    exact .noKey ⟨w, r, hr, by simp [herr]⟩
  | none =>
    simp only [perform, herr]
    refine safe_call_bind.mpr ⟨.made (.inl rfl) hr, fun r1 hr1 => ?_⟩
    simp only [perform]
    have hwrite : ∀ qPriv : Option DilKey, ∀ w1,
        NewKey C ok dir hybrid w r.edKey qPriv (join dir (keyName r1.now r1.count)) w1 →
        Safe (perform C) ok (GenStop C ok dir hybrid w) (GenDone C ok dir hybrid w)
          (writeFile (join dir (keyName r1.now r1.count)) (keyContent r.edKey qPriv) >>= fun err =>
            match err with
            | some e => pure (.error (.err e))
            | none => pure (.ok (fileKey C (join dir (keyName r1.now r1.count)) r.edKey
                (qPriv.map Subtype.val)))) w1 := by
      intro qPriv w1 hnew
      refine (safe_writeFile _ _ w1).bind (fun op w2 hstop => .writing hnew hstop) ?_
      intro err w2 hdone
      cases err with
      | some => exact .notWritten hnew hdone
      | none =>
        cases hdone
        exact .done hnew
    cases hybrid with
    | false => exact hwrite none _ ⟨⟨r, hr, rfl⟩, ⟨r1, hr1, rfl⟩, rfl, rfl⟩
    | true =>
      refine safe_call_bind.mpr ⟨.made (.inr rfl) hr, fun r2 hr2 => ?_⟩
      cases herr2 : r2.err with
      | some =>
        simp only [perform, herr2]
        exact .noQuantum hr ⟨_, r2, hr2, by simp [herr2]⟩
      | none =>
        simp only [perform, herr2]
        exact hwrite (some r2.dilKey) _ ⟨⟨r, hr, rfl⟩, ⟨r1, hr1, rfl⟩, rfl, rfl⟩

lemma loadContent_ok {locator : Bytes} {x : Except Err Content} {key : LiveKey} :
    loadContent C locator x = .ok key ↔
      ∃ raw priv qPriv, x = .ok (.text raw) ∧ decodePrivate raw = .ok (priv, qPriv) ∧
        key = fileKey C locator priv qPriv := by
  unfold loadContent
  split
  · simp
  · rename_i raw
    simp only [bind_ok, pure_ok, Prod.exists, Except.ok.injEq, Content.text.injEq]
    constructor
    · rintro ⟨priv, qPriv, hdec, rfl⟩
      exact ⟨raw, priv, qPriv, rfl, hdec, rfl⟩
    · rintro ⟨_, priv, qPriv, rfl, hdec, rfl⟩
      exact ⟨priv, qPriv, hdec, rfl⟩
  · rename_i c hc
    constructor
    · intro h
      cases h
    · rintro ⟨raw, _, _, hraw, _⟩
      rw [Except.ok.injEq] at hraw
      exact absurd hraw (hc raw)

lemma safe_loadFile (locator : Bytes) (w : World) :
    Safe (perform C) ok (fun _ w1 => w1 = w)
      (fun res w' => w' = w ∧ ∀ key, res = .ok key → ∃ raw priv qPriv,
        w.files locator = some (.text raw) ∧ decodePrivate raw = .ok (priv, qPriv) ∧
          key = fileKey C locator priv qPriv) (loadFile C locator) w := by
  unfold loadFile
  by_cases hloc : locator = []
  · rw [if_pos hloc]
    exact ⟨rfl, fun key h => by cases h⟩
  rw [if_neg hloc]
  refine safe_call_bind.mpr ⟨rfl, fun r hr => ?_⟩
  cases herr : r.err with
  | some =>
    simp only [perform, herr]
    exact ⟨rfl, fun key h => by cases h⟩
  | none =>
    cases hfile : w.files locator with
    | none =>
      simp only [perform, herr, hfile]
      exact ⟨rfl, fun key h => by cases h⟩
    | some =>
      simp only [perform, herr, hfile]
      refine ⟨rfl, fun key h => ?_⟩
      obtain ⟨raw, priv, qPriv, hc, hdec, rfl⟩ := loadContent_ok.mp h
      rw [Except.ok.injEq] at hc
      exact ⟨raw, priv, qPriv, by rw [hc], hdec, rfl⟩

end

end Stele.Keys
