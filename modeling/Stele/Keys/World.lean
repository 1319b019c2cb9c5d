import Stele.Checkpoint.Json
import Stele.Keys.KeyFile
import Stele.Lib.Effects
import Mathlib.Logic.Function.Basic

/-!
# The environment of the key store

The calls that the forward-secure signer makes to the file system, the clock, the random source,
the PKCS#11 token and the cosigners, each one operation. What a call does depends on a `Choice`
of the environment: whether it fails, how far a failed write got, the key or the time it answers.
-/

namespace Stele.Keys

open Lib List

/-- What a file holds. The text of a JSON document is not modelled; it is no text of a key. -/
inductive Content
  | text (b : Bytes)
  | doc (j : Json)
  | torn

namespace Content

def cut (n : Nat) : Content → Content
  | text b => text (b.take n)
  | doc _ => if n = 0 then text [] else torn
  | torn => if n = 0 then text [] else torn

def size (n : Nat) : Content → Nat
  | text b => b.length
  | _ => n

inductive Part (body : Content) : Content → Prop
  | cut (n : Nat) : Part body (body.cut n)
  | all : Part body body

lemma Part.text {b : Bytes} {c : Content} (h : Part (.text b) c) :
    ∃ t, c = .text t ∧ t <+: b := by
  cases h with
  | cut n => exact ⟨_, rfl, take_prefix n b⟩
  | all => exact ⟨b, rfl, prefix_refl b⟩

end Content

inductive ObjectClass
  | publicKey
  | privateKey
  deriving DecidableEq

def ObjectClass.toNat : ObjectClass → Nat
  | publicKey => 2
  | privateKey => 3

structure Object where
  label : Bytes
  cls : ObjectClass
  /-- The key. The token never gives out a private one. -/
  value : Bytes
  deriving DecidableEq

structure World where
  files : Bytes → Option Content
  objects : List (Option Object)
  /-- The public keys of every key pair made so far, the newest first: classical and quantum, which
  is empty until it is made. -/
  made : List (Bytes × Bytes)
  clock : Int
  renames : Nat

namespace World

def empty : World := ⟨fun _ => none, [], [], 0, 0⟩

variable (w : World)

def put (path : Bytes) (c : Content) : World :=
  { w with files := Function.update w.files path (some c) }

def drop (path : Bytes) : World := { w with files := Function.update w.files path none }

def make (pub qpub : Bytes) : World := { w with made := (pub, qpub) :: w.made }

/-- A quantum key pair is made to go with the newest classical one. -/
def pair (qpub : Bytes) : World :=
  match w.made with
  | [] => w
  | (pub, _) :: made => { w with made := (pub, qpub) :: made }

def object (h : Nat) : Option Object := (w.objects[h]?).getD none

def handles (label : Bytes) (cls : ObjectClass) : List Nat :=
  (List.range w.objects.length).filter fun h =>
    match w.object h with
    | some o => o.label = label ∧ o.cls = cls
    | none => false

def labels : List Bytes := w.objects.filterMap (Option.map Object.label)

lemma mem_labels {h : Nat} {o : Object} (ho : w.object h = some o) : o.label ∈ w.labels := by
  unfold object at ho
  cases hget : w.objects[h]? with
  | none => simp [hget] at ho
  | some =>
    rw [hget, Option.getD_some] at ho
    subst ho
    exact mem_filterMap.mpr ⟨some o, mem_of_getElem? hget, rfl⟩

@[simp] lemma make_pair (pub qpub qpub' : Bytes) :
    (w.make pub qpub).pair qpub' = w.make pub qpub' := rfl

@[simp] lemma put_put (path : Bytes) (c c' : Content) :
    (w.put path c).put path c' = w.put path c' := by
  simp [put]

@[simp] lemma put_drop (path : Bytes) (c : Content) : (w.put path c).drop path = w.drop path := by
  simp [put, drop]

@[simp] lemma put_files_self (path : Bytes) (c : Content) :
    (w.put path c).files path = some c := by
  simp [put]

lemma put_files_ne {path path' : Bytes} (h : path' ≠ path) (c : Content) :
    (w.put path c).files path' = w.files path' := by
  simp [put, h]

@[simp] lemma drop_files_self (path : Bytes) : (w.drop path).files path = none := by simp [drop]

lemma drop_files_ne {path path' : Bytes} (h : path' ≠ path) :
    (w.drop path).files path' = w.files path' := by
  simp [drop, h]

end World

def zeroEdKey : EdKey := ⟨List.replicate edPrivateKeySize 0, length_replicate⟩

def zeroDilKey : DilKey := ⟨List.replicate quantumPrivateKeySize 0, length_replicate⟩

structure Choice where
  err : Option Err := none
  /-- How far a write got, the length of a document, or a random number. -/
  count : Nat := 0
  now : Int := 0
  edKey : EdKey := zeroEdKey
  dilKey : DilKey := zeroDilKey
  bytes : Bytes := []
  sigs : List (Option MemberSig) := []
  /-- Whether the token wraps a public key into an OCTET STRING. -/
  der : Bool := false

inductive Op
  | mkdirAll (dir : Bytes)
  | stat (path : Bytes)
  | readFile (path : Bytes)
  | openFile (path : Bytes)
  | writePart (path : Bytes) (body : Content)
  | write (path : Bytes) (body : Content)
  | close (path : Bytes)
  | rename (oldpath newpath : Bytes)
  | remove (path : Bytes)
  | noise (path : Bytes) (size : Nat)
  | edKey
  | keyName
  | dilKey
  | unixNano
  | cosign (msg label : Bytes)
  | randHex
  | generateKeyPair (label : Bytes)
  | ecPoint (obj : Nat)
  | findObjects (label : Bytes) (cls : ObjectClass)
  | signInit (obj : Nat)
  | sign (obj : Nat) (msg : Bytes)
  | destroyObject (obj : Nat)

@[reducible] def Op.Ans : Op → Type
  | mkdirAll _ | openFile _ | write _ _ | close _ | rename _ _ | remove _ | signInit _
  | destroyObject _ => Option Err
  | stat _ => Except Err (Option Nat)
  | readFile _ => Except Err Content
  | writePart _ _ => Unit
  | noise _ _ => Bytes × Option Err
  | edKey => Except Err EdKey
  | keyName | randHex => Bytes
  | dilKey => Except Err DilKey
  | unixNano => Int
  | cosign _ _ => Except Err (List (Option MemberSig))
  | generateKeyPair _ => Except Err (Nat × Nat)
  | ecPoint _ | sign _ _ => Except Err Bytes
  | findObjects _ _ => Except Err (List Nat)

abbrev calls : Sig := ⟨Op, Op.Ans⟩

abbrev Calls := Prog calls

abbrev sys (op : Op) : Calls op.Ans := @Prog.call calls op

def notExist : Err := .errorf "file does not exist" []

def handleInvalid : Err := .errorf "pkcs11: 0x82: CKR_OBJECT_HANDLE_INVALID" []

/-- `fmt.Sprintf("epoch-%d-%d.key", time.Now().UnixNano(), randSuffix())`. -/
def keyName (now : Int) (suffix : Nat) : Bytes :=
  lit "epoch-" ++ decInt now ++ lit "-" ++ dec (suffix % 2 ^ 32) ++ lit ".key"

def perform (C : Crypto) : Prog.Interp calls World Choice
  | .mkdirAll _, w, r => (w, r.err)
  | .stat path, w, r =>
    match r.err with
    | some e => (w, .error e)
    | none => (w, .ok ((w.files path).map (Content.size r.count)))
  | .readFile path, w, r =>
    match r.err, w.files path with
    | some e, _ => (w, .error e)
    | none, none => (w, .error notExist)
    | none, some c => (w, .ok c)
  | .openFile path, w, r =>
    match r.err with
    | some e => (w, some e)
    | none => (w.put path (.text []), none)
  | .writePart path body, w, r => (w.put path (body.cut r.count), ())
  | .write path body, w, r =>
    match r.err with
    | some e => (w.put path (body.cut r.count), some e)
    | none => (w.put path body, none)
  | .close _, w, r => (w, r.err)
  | .rename oldpath newpath, w, r =>
    match r.err, w.files oldpath with
    | some e, _ => (w, some e)
    | none, none => (w, some notExist)
    | none, some c => ({ (w.drop oldpath).put newpath c with renames := w.renames + 1 }, none)
  | .remove path, w, r =>
    match r.err, w.files path with
    | some e, _ => (w, some e)
    | none, none => (w, some notExist)
    | none, some _ => (w.drop path, none)
  | .noise _ size, w, r => (w, (Crypto.fit size r.bytes, r.err))
  | .edKey, w, r =>
    match r.err with
    | some e => (w, .error e)
    | none => (w.make (C.edPublic r.edKey) [], .ok r.edKey)
  | .keyName, w, r => (w, keyName r.now r.count)
  | .dilKey, w, r =>
    match r.err with
    | some e => (w, .error e)
    | none => (w.pair (C.dilPublic r.dilKey), .ok r.dilKey)
  | .unixNano, w, r => ({ w with clock := r.now }, r.now)
  | .cosign _ _, w, r =>
    match r.err with
    | some e => (w, .error e)
    | none => (w, .ok r.sigs)
  | .randHex, w, r => (w, hex (Crypto.fit 8 r.bytes))
  | .generateKeyPair label, w, r =>
    match r.err with
    | some e => (w, .error e)
    | none =>
      let pub := C.edPublic r.edKey
      ({ w.make pub [] with
          objects := w.objects ++
            [some ⟨label, .publicKey, pub⟩, some ⟨label, .privateKey, r.edKey⟩] },
        .ok (w.objects.length, w.objects.length + 1))
  | .ecPoint obj, w, r =>
    match r.err, w.object obj with
    | some e, _ => (w, .error e)
    | none, none => (w, .error handleInvalid)
    | none, some o =>
      match o.cls with
      | .privateKey => (w, .error (.errorf "pkcs11: 0x11: CKR_ATTRIBUTE_SENSITIVE" []))
      | .publicKey => (w, .ok (if r.der then 4 :: 32 :: o.value else o.value))
  | .findObjects label cls, w, r =>
    match r.err with
    | some e => (w, .error e)
    | none => (w, .ok ((w.handles label cls).take 2))
  | .signInit obj, w, r =>
    match r.err, w.object obj with
    | some e, _ => (w, some e)
    | none, none => (w, some handleInvalid)
    | none, some o =>
      match o.cls with
      | .publicKey => (w, some (.errorf "pkcs11: 0x68: CKR_KEY_FUNCTION_NOT_PERMITTED" []))
      | .privateKey => (w, none)
  | .sign obj msg, w, r =>
    match r.err, w.object obj with
    | some e, _ => (w, .error e)
    | none, none => (w, .error handleInvalid)
    | none, some o => (w, .ok (C.edSign o.value msg))
  | .destroyObject obj, w, r =>
    match r.err, w.object obj with
    | some e, _ => (w, some e)
    | none, none => (w, some handleInvalid)
    | none, some _ => ({ w with objects := w.objects.set obj none }, none)

end Stele.Keys
