import Stele.Checkpoint.Checkpoint
import Stele.Lib.Runs
import Stele.Storage.Producers

/-!
# The forward-secure signer (`fwdsec.Signer`)

The operator's signing keys, in single-signature mode: the key store, `chain.json` and the process
that signs. `Rotate` and the creation of genesis are split at their effects on the key store and on
the file, so that a crash may fall between any two of them. The signer's mutex is held from the
first to the last of them.
-/

namespace Stele.Fwdsec

open Lib List

structure LiveKey where
  priv : Bytes
  qPriv : Option Bytes := none
  locator : Bytes
  deriving DecidableEq

inductive Message
  | rotation (cert : RotationCert)
  | checkpoint (c : Checkpoint)
  | enrollment (p : Producer)

def Message.bytes : Message → Bytes
  | .rotation cert => cert.canonical
  | .checkpoint c => c.canonical
  | .enrollment p => p.canonicalEnrollment

structure ChainFile where
  origin : Bytes
  certs : List RotationCert
  activeLocator : Bytes

def ChainFile.chain (f : ChainFile) : Chain := ⟨f.origin, f.certs.map some, f.activeLocator⟩

structure Signer where
  chain : ChainFile
  active : LiveKey

inductive Proc
  | genesisSign (origin : Bytes) (key : LiveKey)
  | genesisWrite (key : LiveKey) (file : ChainFile)
  | idle (s : Signer)
  | rotateSign (s : Signer) (new : LiveKey)
  | rotateWrite (s : Signer) (new : LiveKey) (cert : RotationCert)
  | rotateDestroy (s : Signer) (new : LiveKey)

/-- What a step reads: the clock and the error that the key store or the file system reports. -/
structure Reads where
  now : Int := 0
  err : Option Err := none
  qErr : Option Err := none

section
variable (C : Crypto)

def LiveKey.pub (k : LiveKey) : Bytes := C.edPublic k.priv

def LiveKey.quantumPublic (k : LiveKey) : Bytes := (k.qPriv.map C.dilPublic).getD []

def LiveKey.quantumSign (k : LiveKey) (msg : Bytes) : Res Bytes :=
  match k.qPriv with
  | none => .error (errorf "file livekey: not hybrid (no Dilithium key)" [])
  | some q => .ok (C.dilSign q msg)

def genesisCert (now : Int) (key : LiveKey) : RotationCert where
  epoch := 0
  publicKey := key.pub C
  startedAt := now
  signedBy := key.pub C
  quantumPublicKey := key.quantumPublic C
  quantumSignedBy := key.quantumPublic C

def rotationCert (now : Int) (prevCert : RotationCert) (new : LiveKey) : RotationCert where
  epoch := prevCert.epoch + 1
  publicKey := new.pub C
  startedAt := now
  signedBy := prevCert.publicKey
  quantumPublicKey := new.quantumPublic C
  quantumSignedBy := if new.quantumPublic C = [] then [] else prevCert.quantumPublicKey

/-- Sign a certificate, with the quantum half when `quantum` asks for it: whether the classical
signature was made, and the signed certificate. `what` starts the error texts. -/
def signCert (what : String) (r : Reads) (key : LiveKey) (quantum : Prop) [Decidable quantum]
    (cert : RotationCert) : Bool × Res RotationCert :=
  match r.err with
  | some e => (false, .error (.err (.wrap (what ++ " (classical): %w") [] e)))
  | none =>
    let cert' := { cert with signature := C.edSign key.priv cert.canonical }
    if quantum then
      match r.qErr with
      | some e => (true, .error (.err (.wrap (what ++ " (quantum): %w") [] e)))
      | none => (true, do
          let qsig ← wrapErr (what ++ " (quantum): %w") [] (key.quantumSign C cert.canonical)
          return { cert' with quantumSignature := qsig })
    else (true, .ok cert')

def loadActive (origin : Bytes) (file : ChainFile) (load : Bytes → Except Err LiveKey) :
    Res LiveKey :=
  match file.certs.getLast? with
  | none => .error (errorf "fwdsec: empty chain" [])
  | some last => do
    ensure (file.origin = [] ∨ file.origin = origin)
      (errorf "fwdsec: origin mismatch (chain=%q, expected=%q)"
        [.bytes file.origin, .bytes origin])
    ensure (file.activeLocator ≠ [])
      (errorf "fwdsec: chain missing active_locator (corrupt or pre-v1.1)" [])
    let active ← wrapErr "fwdsec: load active key: %w" []
      ((load file.activeLocator).mapError Fault.err)
    ensure (active.pub C = last.publicKey)
      (errorf "fwdsec: store returned key with public key that does not match chain" [])
    return active

/-- The operator's keys: `chain.json`, every key that was ever generated, every signature that was
ever made with the public key it was made for, and the process. -/
structure World where
  disk : Option ChainFile
  generated : List LiveKey
  signed : List (Bytes × Message)
  proc : Option Proc

def init : World := ⟨none, [], [], none⟩

inductive Action
  | openSigner (origin : Bytes) (generate : Except Err LiveKey) (load : Bytes → Except Err LiveKey)
  | rotate (generate : Except Err LiveKey)
  | resume (r : Reads)
  | signCheckpoint (c : Checkpoint) (err : Option Err)
  | signEnrollment (p : Producer) (err : Option Err)
  | crash

def World.sign (w : World) (m : Message) (err : Option Err) : World :=
  match w.proc, err with
  | some (.idle s), none => { w with signed := w.signed ++ [(s.active.pub C, m)] }
  | _, _ => w

def World.resume (w : World) (r : Reads) : Proc → World
  | .genesisSign origin key =>
    match signCert C "fwdsec: self-sign genesis" r key (key.quantumPublic C ≠ [])
        (genesisCert C r.now key) with
    | (false, _) => { w with proc := none }
    | (true, .error _) =>
      { w with
        signed := w.signed ++ [(key.pub C, .rotation (genesisCert C r.now key))]
        proc := none }
    | (true, .ok cert) =>
      { w with
        signed := w.signed ++ [(key.pub C, .rotation (genesisCert C r.now key))]
        proc := some (.genesisWrite key ⟨origin, [cert], key.locator⟩) }
  | .genesisWrite key file =>
    match r.err with
    | some _ => { w with proc := none }
    | none => { w with disk := some file, proc := some (.idle ⟨file, key⟩) }
  | .idle s => { w with proc := some (.idle s) }
  | .rotateSign s new =>
    match s.chain.certs.getLast? with
    | none => { w with proc := none }
    | some prevCert =>
      let cert := rotationCert C r.now prevCert new
      match signCert C "fwdsec: sign rotation cert" r s.active
          (cert.quantumPublicKey ≠ [] ∧ prevCert.quantumPublicKey ≠ []) cert with
      | (false, _) => { w with proc := some (.idle s) }
      | (true, .error _) =>
        { w with
          signed := w.signed ++ [(s.active.pub C, .rotation cert)]
          proc := some (.idle s) }
      | (true, .ok cert') =>
        { w with
          signed := w.signed ++ [(s.active.pub C, .rotation cert)]
          proc := some (.rotateWrite s new cert') }
  | .rotateWrite s new cert =>
    match r.err with
    | some _ => { w with proc := some (.idle s) }
    | none =>
      let file := { s.chain with
        certs := s.chain.certs ++ [cert]
        activeLocator := new.locator }
      { w with disk := some file, proc := some (.rotateDestroy { s with chain := file } new) }
  | .rotateDestroy s new =>
    match r.err with
    | some _ => { w with proc := some (.idle s) }
    | none => { w with proc := some (.idle { s with active := new }) }

def World.openSigner (w : World) (origin : Bytes) (generate : Except Err LiveKey)
    (load : Bytes → Except Err LiveKey) : World :=
  match w.proc, w.disk with
  | some _, _ => w
  | none, none =>
    match generate with
    | .error _ => w
    | .ok key =>
      { w with generated := w.generated ++ [key], proc := some (.genesisSign origin key) }
  | none, some file =>
    match loadActive C origin file load with
    | .error _ => w
    | .ok active => { w with proc := some (.idle ⟨file, active⟩) }

def World.rotate (w : World) (generate : Except Err LiveKey) : World :=
  match w.proc, generate with
  | some (.idle s), .ok new =>
    { w with generated := w.generated ++ [new], proc := some (.rotateSign s new) }
  | _, _ => w

def step (w : World) : Action → World
  | .openSigner origin generate load => w.openSigner C origin generate load
  | .rotate generate => w.rotate generate
  | .resume r => (w.proc.map (w.resume C r)).getD w
  | .signCheckpoint c err => w.sign C (.checkpoint c) err
  | .signEnrollment p err => w.sign C (.enrollment p) err
  | .crash => { w with proc := none }

end

/-! ## The ledger of keys and signatures -/

/-- What holds of the chain's keys `pubs`, the generated keys `gens` and the log of signatures. -/
structure Ledger (pubs gens : List Bytes) (signed : List (Bytes × Message)) : Prop where
  sub : ∀ k ∈ pubs, k ∈ gens
  nodup : pubs.Nodup
  rotation_gen : ∀ K m, (K, .rotation m) ∈ signed → m.publicKey ∈ gens
  rotation_next : ∀ K m, (K, .rotation m) ∈ signed → ∀ i, m.epoch = i + 1 →
    pubs[i + 1]? = some m.publicKey ∨ m.publicKey ∉ pubs
  /-- A key outside the chain signs nothing but a genesis certificate. -/
  signer : ∀ K m, (K, m) ∈ signed → K ∈ pubs ∨ ∃ cert, m = .rotation cert ∧ cert.epoch = 0

structure Fresh (pubs gens : List Bytes) (signed : List (Bytes × Message)) (k : Bytes) : Prop where
  gen : k ∈ gens
  notMem : k ∉ pubs
  unnamed : ∀ K m, (K, .rotation m) ∈ signed → m.publicKey ≠ k

/-- A generated key that only certificates for the next epoch name. -/
structure Candidate (pubs gens : List Bytes) (signed : List (Bytes × Message)) (k : Bytes) :
    Prop where
  gen : k ∈ gens
  notMem : k ∉ pubs
  epoch : ∀ K m, (K, .rotation m) ∈ signed → m.publicKey = k → m.epoch = pubs.length

namespace Ledger

variable {pubs gens : List Bytes} {signed : List (Bytes × Message)} {k K : Bytes}

lemma empty : Ledger [] [] [] := ⟨nofun, nodup_nil, nofun, nofun, nofun⟩

variable (h : Ledger pubs gens signed)
include h

lemma generate : Ledger pubs (gens ++ [k]) signed :=
  { h with
    sub := fun x hx => mem_append_left _ (h.sub x hx)
    rotation_gen := fun K m hm => mem_append_left _ (h.rotation_gen K m hm) }

lemma fresh (hk : k ∉ gens) : Fresh pubs (gens ++ [k]) signed k where
  gen := by simp
  notMem hmem := hk (h.sub k hmem)
  unnamed K m hm heq := hk (heq ▸ h.rotation_gen K m hm)

lemma certify {m : RotationCert} (hf : Fresh pubs gens signed m.publicKey)
    (hK : K ∈ pubs ∨ m.epoch = 0) : Ledger pubs gens (signed ++ [(K, .rotation m)]) where
  sub := h.sub
  nodup := h.nodup
  rotation_gen K' m' hm' := by
    rcases mem_append.mp hm' with hm' | hm'
    · exact h.rotation_gen K' m' hm'
    · simp only [mem_singleton, Prod.mk.injEq, Message.rotation.injEq] at hm'
      exact hm'.2 ▸ hf.gen
  rotation_next K' m' hm' i hi := by
    rcases mem_append.mp hm' with hm' | hm'
    · exact h.rotation_next K' m' hm' i hi
    · simp only [mem_singleton, Prod.mk.injEq, Message.rotation.injEq] at hm'
      exact .inr (hm'.2 ▸ hf.notMem)
  signer K' m' hm' := by
    rcases mem_append.mp hm' with hm' | hm'
    · exact h.signer K' m' hm'
    · simp only [mem_singleton, Prod.mk.injEq] at hm'
      obtain ⟨rfl, rfl⟩ := hm'
      exact hK.imp id fun he => ⟨m, rfl, he⟩

omit h in
lemma candidate {m : RotationCert} (hf : Fresh pubs gens signed m.publicKey)
    (he : m.epoch = pubs.length) :
    Candidate pubs gens (signed ++ [(K, .rotation m)]) m.publicKey where
  gen := hf.gen
  notMem := hf.notMem
  epoch K' m' hm' heq := by
    rcases mem_append.mp hm' with hm' | hm'
    · exact absurd heq (hf.unnamed K' m' hm')
    · simp only [mem_singleton, Prod.mk.injEq, Message.rotation.injEq] at hm'
      rw [hm'.2, he]

lemma sign {m : Message} (hK : K ∈ pubs) (hm : ∀ cert, m ≠ .rotation cert) :
    Ledger pubs gens (signed ++ [(K, m)]) where
  sub := h.sub
  nodup := h.nodup
  rotation_gen K' m' hm' := by
    rcases mem_append.mp hm' with hm' | hm'
    · exact h.rotation_gen K' m' hm'
    · simp only [mem_singleton, Prod.mk.injEq] at hm'
      exact absurd hm'.2.symm (hm m')
  rotation_next K' m' hm' := by
    rcases mem_append.mp hm' with hm' | hm'
    · exact h.rotation_next K' m' hm'
    · simp only [mem_singleton, Prod.mk.injEq] at hm'
      exact absurd hm'.2.symm (hm m')
  signer K' m' hm' := by
    rcases mem_append.mp hm' with hm' | hm'
    · exact h.signer K' m' hm'
    · simp only [mem_singleton, Prod.mk.injEq] at hm'
      exact .inl (hm'.1 ▸ hK)

lemma extend (hk : Candidate pubs gens signed k) : Ledger (pubs ++ [k]) gens signed where
  sub x hx := by
    rcases mem_append.mp hx with hx | hx
    · exact h.sub x hx
    · exact mem_singleton.mp hx ▸ hk.gen
  nodup := nodup_append.mpr ⟨h.nodup, nodup_singleton k, fun x hx y hy heq =>
    hk.notMem (by rw [← mem_singleton.mp hy, ← heq]; exact hx)⟩
  rotation_gen := h.rotation_gen
  rotation_next K' m hm i hi := by
    rcases h.rotation_next K' m hm i hi with hnext | hnot
    · exact .inl (by rw [List.getElem?_append_left (List.getElem?_eq_some_iff.mp hnext).1, hnext])
    · by_cases hmk : m.publicKey = k
      · refine .inl ?_
        rw [hmk, ← hi, hk.epoch K' m hm hmk, getElem?_concat_length]
      · exact .inr (by simp [hnot, hmk])
  signer K' m hm := (h.signer K' m hm).imp (mem_append_left _) id

end Ledger

/-! ## Runs -/

section
variable (C : Crypto)

def World.pubs (w : World) : List Bytes :=
  match w.disk with
  | none => []
  | some file => file.certs.map RotationCert.publicKey

def World.gens (w : World) : List Bytes := w.generated.map (LiveKey.pub C)

def Proc.Ok (w : World) : Proc → Prop
  | .genesisSign _ key => w.disk = none ∧ Fresh w.pubs (w.gens C) w.signed (key.pub C)
  | .genesisWrite key file => w.disk = none ∧ Candidate w.pubs (w.gens C) w.signed (key.pub C) ∧
      ∃ cert, file.certs = [cert] ∧ cert.publicKey = key.pub C ∧ cert.epoch = 0
  | .idle s => w.disk = some s.chain ∧ s.active.pub C ∈ w.pubs
  | .rotateSign s new => w.disk = some s.chain ∧ s.active.pub C ∈ w.pubs ∧
      Fresh w.pubs (w.gens C) w.signed (new.pub C)
  | .rotateWrite s new cert => w.disk = some s.chain ∧ s.active.pub C ∈ w.pubs ∧
      Candidate w.pubs (w.gens C) w.signed (new.pub C) ∧
      cert.publicKey = new.pub C ∧ cert.epoch = w.pubs.length
  | .rotateDestroy s new => w.disk = some s.chain ∧ s.active.pub C ∈ w.pubs ∧ new.pub C ∈ w.pubs

structure World.Inv (w : World) : Prop where
  ledger : Ledger w.pubs (w.gens C) w.signed
  epochs : ∀ file, w.disk = some file → ∀ (i : Nat) cert, file.certs[i]? = some cert →
    cert.epoch = i
  proc : ∀ p, w.proc = some p → p.Ok C w

end

variable {C : Crypto}

lemma init_inv : init.Inv C := ⟨Ledger.empty, nofun, nofun⟩

lemma signCert_ok {what : String} {r : Reads} {key : LiveKey} {quantum : Prop}
    [Decidable quantum] {cert cert' : RotationCert} {b : Bool}
    (h : signCert C what r key quantum cert = (b, .ok cert')) :
    cert'.publicKey = cert.publicKey ∧ cert'.epoch = cert.epoch := by
  unfold signCert at h
  cases hr : r.err with
  | some => simp [hr] at h
  | none =>
    simp only [hr] at h
    split at h
    · cases hq : r.qErr with
      | some => simp [hq] at h
      | none =>
        simp only [hq, Prod.mk.injEq, bind_ok, pure_ok] at h
        obtain ⟨-, qsig, -, rfl⟩ := h
        exact ⟨rfl, rfl⟩
    · simp only [Prod.mk.injEq, Except.ok.injEq] at h
      rw [← h.2]
      exact ⟨rfl, rfl⟩

lemma loadActive_ok {origin : Bytes} {file : ChainFile} {load : Bytes → Except Err LiveKey}
    {active : LiveKey} (h : loadActive C origin file load = .ok active) :
    ∃ last, file.certs.getLast? = some last ∧ active.pub C = last.publicKey := by
  unfold loadActive at h
  cases hl : file.certs.getLast? with
  | none => simp [hl] at h
  | some last =>
    simp only [hl, bind_ok, ensure_ok, pure_ok] at h
    obtain ⟨_, -, _, -, a, -, _, hpub, rfl⟩ := h
    exact ⟨last, rfl, hpub⟩

lemma epochs_concat {certs : List RotationCert} {cert : RotationCert}
    (h : ∀ (i : Nat) c, certs[i]? = some c → c.epoch = i) (hc : cert.epoch = certs.length)
    (i : Nat) (c : RotationCert) (hi : (certs ++ [cert])[i]? = some c) : c.epoch = i := by
  rw [getElem?_append] at hi
  split at hi
  · exact h i c hi
  · rename_i hlt
    rw [getElem?_singleton] at hi
    split at hi
    · cases hi
      omega
    · cases hi

section
variable {w : World} (h : w.Inv C)
include h

variable {file : ChainFile}

lemma next_epoch (hdisk : w.disk = some file) {prev : RotationCert}
    (hprev : file.certs.getLast? = some prev) : prev.epoch + 1 = w.pubs.length := by
  rw [List.getLast?_eq_getElem?] at hprev
  have hlt := (List.getElem?_eq_some_iff.mp hprev).1
  rw [h.epochs file hdisk _ _ hprev, World.pubs, hdisk, List.length_map]
  omega

/-- A process that goes idle or away with the same store and log. -/
lemma with_proc {p : Option Proc} (hp : ∀ q, p = some q → q.Ok C w) :
    ({ w with proc := p } : World).Inv C :=
  ⟨h.ledger, h.epochs, fun q hq => hp q hq⟩

lemma sign_inv {m : Message} (hm : ∀ cert, m ≠ .rotation cert) (err : Option Err) :
    (w.sign C m err).Inv C := by
  unfold World.sign
  split
  · rename_i s hproc
    obtain ⟨hdisk, hactive⟩ := h.proc _ hproc
    refine ⟨h.ledger.sign hactive hm, h.epochs, fun p hp => ?_⟩
    simp only [hproc, Option.some.injEq] at hp
    subst hp
    exact ⟨hdisk, hactive⟩
  · exact h

variable {p : Proc} {key : LiveKey}

lemma generate_inv
    (hnew : (({ w with generated := w.generated ++ [key], proc := some p } : World).gens C).Nodup)
    (hp : Fresh w.pubs (w.gens C ++ [key.pub C]) w.signed (key.pub C) →
      p.Ok C { w with generated := w.generated ++ [key], proc := some p }) :
    ({ w with generated := w.generated ++ [key], proc := some p } : World).Inv C := by
  have hgens : ({ w with generated := w.generated ++ [key], proc := some p } : World).gens C =
      w.gens C ++ [key.pub C] := map_append
  have hfresh : key.pub C ∉ w.gens C := by
    rw [hgens] at hnew
    exact fun hmem => (nodup_append.mp hnew).2.2 _ hmem _ (by simp) rfl
  refine ⟨hgens ▸ h.ledger.generate, h.epochs, fun q hq => ?_⟩
  cases hq
  exact hp (h.ledger.fresh hfresh)

lemma openSigner_inv {origin : Bytes} {generate : Except Err LiveKey}
    {load : Bytes → Except Err LiveKey}
    (hnew : ((w.openSigner C origin generate load).gens C).Nodup) :
    (w.openSigner C origin generate load).Inv C := by
  unfold World.openSigner at hnew ⊢
  split
  · exact h
  · rename_i hproc hdisk
    cases generate with
    | error => exact h
    | ok key =>
      simp only [hproc, hdisk] at hnew
      refine generate_inv (p := .genesisSign origin key) h hnew fun hf => ⟨hdisk, ?_⟩
      rwa [World.gens, map_append]
  · rename_i file hproc hdisk
    cases hload : loadActive C origin file load with
    | error => exact h
    | ok =>
      obtain ⟨last, hlast, hpub⟩ := loadActive_ok hload
      refine with_proc h fun q hq => ?_
      cases hq
      refine ⟨hdisk, ?_⟩
      rw [hpub, World.pubs, hdisk]
      exact mem_map_of_mem (mem_of_getLast? hlast)

lemma certify_inv {K : Bytes} {m : RotationCert} {p : Option Proc}
    (hf : Fresh w.pubs (w.gens C) w.signed m.publicKey) (hK : K ∈ w.pubs ∨ m.epoch = 0)
    (hp : ∀ q, p = some q → q.Ok C { w with signed := w.signed ++ [(K, .rotation m)], proc := p }) :
    ({ w with signed := w.signed ++ [(K, .rotation m)], proc := p } : World).Inv C :=
  ⟨h.ledger.certify hf hK, h.epochs, hp⟩

/-- The chain of `file` is written: the old one with the candidate's certificate at its end. -/
lemma write_inv {certs : List RotationCert} {cert : RotationCert}
    (hcand : Candidate w.pubs (w.gens C) w.signed cert.publicKey)
    (hpubs : w.pubs = certs.map RotationCert.publicKey) (hfile : file.certs = certs ++ [cert])
    (hepochs : ∀ (i : Nat) c, certs[i]? = some c → c.epoch = i) (hep : cert.epoch = w.pubs.length)
    (hp : ({ w with disk := some file, proc := some p } : World).pubs =
      w.pubs ++ [cert.publicKey] → p.Ok C { w with disk := some file, proc := some p }) :
    ({ w with disk := some file, proc := some p } : World).Inv C := by
  have hpubs' : ({ w with disk := some file, proc := some p } : World).pubs =
      w.pubs ++ [cert.publicKey] := by
    simp [World.pubs, hfile, ← hpubs]
  refine ⟨hpubs' ▸ h.ledger.extend hcand, fun f hf => ?_, fun q hq => ?_⟩
  · cases hf
    rw [hfile]
    exact epochs_concat hepochs (by rw [hep, hpubs, List.length_map])
  · cases hq
    exact hp hpubs'

variable {s : Signer}

lemma return_inv (hdisk : w.disk = some s.chain) (hactive : s.active.pub C ∈ w.pubs) :
    ({ w with proc := some (.idle s) } : World).Inv C :=
  with_proc h fun q hq => by cases hq; exact ⟨hdisk, hactive⟩

lemma genesisSign_inv {origin : Bytes} (hok : (Proc.genesisSign origin key).Ok C w) (r : Reads) :
    (w.resume C r (.genesisSign origin key)).Inv C := by
  obtain ⟨hdisk, hfresh⟩ := hok
  have hlen : w.pubs.length = 0 := by rw [World.pubs, hdisk]; rfl
  rw [World.resume]
  rcases hsign : signCert C "fwdsec: self-sign genesis" r key (key.quantumPublic C ≠ [])
    (genesisCert C r.now key) with ⟨_ | _, f | cert⟩
  · exact with_proc h nofun
  · exact with_proc h nofun
  · exact certify_inv h hfresh (.inr rfl) nofun
  · obtain ⟨hpk, hep⟩ := signCert_ok hsign
    refine certify_inv h hfresh (.inr rfl) fun q hq => ?_
    cases hq
    exact ⟨hdisk, Ledger.candidate hfresh hlen.symm, cert, rfl, hpk, hep⟩

lemma genesisWrite_inv (hok : (Proc.genesisWrite key file).Ok C w) (r : Reads) :
    (w.resume C r (.genesisWrite key file)).Inv C := by
  obtain ⟨hdisk, hcand, cert, hcerts, hpk, hep⟩ := hok
  rw [World.resume]
  cases hr : r.err with
  | some => exact with_proc h nofun
  | none =>
    have hpubs : w.pubs = [].map RotationCert.publicKey := by rw [World.pubs, hdisk]; rfl
    have hfile : file.certs = [] ++ [cert] := hcerts
    refine write_inv h (hpk ▸ hcand) hpubs hfile nofun (by rw [hep, hpubs]; rfl) fun hnew => ?_
    refine ⟨rfl, ?_⟩
    rw [hnew, hpk]
    simp

variable {new : LiveKey}

lemma rotateSign_inv (hok : (Proc.rotateSign s new).Ok C w) (r : Reads) :
    (w.resume C r (.rotateSign s new)).Inv C := by
  obtain ⟨hdisk, hactive, hfresh⟩ := hok
  rw [World.resume]
  simp only
  cases hlast : s.chain.certs.getLast? with
  | none => exact with_proc h nofun
  | some prev =>
    have hlen := next_epoch h hdisk hlast
    simp only
    rcases hsign : signCert C "fwdsec: sign rotation cert" r s.active
      ((rotationCert C r.now prev new).quantumPublicKey ≠ [] ∧ prev.quantumPublicKey ≠ [])
      (rotationCert C r.now prev new) with ⟨_ | _, f | cert⟩
    · exact return_inv h hdisk hactive
    · exact return_inv h hdisk hactive
    · refine certify_inv h hfresh (.inl hactive) fun q hq => ?_
      cases hq
      exact ⟨hdisk, hactive⟩
    · obtain ⟨hpk, hep⟩ := signCert_ok hsign
      refine certify_inv h hfresh (.inl hactive) fun q hq => ?_
      cases hq
      exact ⟨hdisk, hactive, Ledger.candidate hfresh hlen, hpk, hep.trans hlen⟩

lemma rotateWrite_inv {cert : RotationCert} (hok : (Proc.rotateWrite s new cert).Ok C w)
    (r : Reads) : (w.resume C r (.rotateWrite s new cert)).Inv C := by
  obtain ⟨hdisk, hactive, hcand, hpk, hep⟩ := hok
  have hpubs : w.pubs = s.chain.certs.map RotationCert.publicKey := by rw [World.pubs, hdisk]
  rw [World.resume]
  cases hr : r.err with
  | some => exact return_inv h hdisk hactive
  | none =>
    refine write_inv h (hpk ▸ hcand) hpubs rfl (h.epochs _ hdisk) hep fun hnew => ?_
    refine ⟨rfl, ?_, ?_⟩
    · rw [hnew]
      exact mem_append_left _ hactive
    · rw [hnew, hpk]
      simp

/-- Whether or not the old key could be erased, the signer left is one of the chain. -/
lemma rotateDestroy_inv (hok : (Proc.rotateDestroy s new).Ok C w) (r : Reads) :
    (w.resume C r (.rotateDestroy s new)).Inv C := by
  obtain ⟨hdisk, hactive, hnew⟩ := hok
  rw [World.resume]
  cases hr : r.err with
  | some => exact return_inv h hdisk hactive
  | none => exact return_inv h hdisk hnew

lemma resume_inv (hproc : w.proc = some p) (r : Reads) : (w.resume C r p).Inv C := by
  have hok := h.proc p hproc
  cases p with
  | genesisSign => exact genesisSign_inv h hok r
  | genesisWrite => exact genesisWrite_inv h hok r
  | idle => exact return_inv h hok.1 hok.2
  | rotateSign => exact rotateSign_inv h hok r
  | rotateWrite => exact rotateWrite_inv h hok r
  | rotateDestroy => exact rotateDestroy_inv h hok r

/-- **One action keeps the invariant**, as long as no two keys are the same. -/
theorem step_inv {a : Action} (hnew : ((step C w a).gens C).Nodup) : (step C w a).Inv C := by
  cases a with
  | openSigner => exact openSigner_inv h hnew
  | rotate =>
    rw [step] at hnew ⊢
    unfold World.rotate at hnew ⊢
    split
    · rename_i s new hproc
      simp only [hproc] at hnew
      obtain ⟨hdisk, hactive⟩ := h.proc _ hproc
      refine generate_inv (p := .rotateSign s new) h hnew fun hf => ⟨hdisk, hactive, ?_⟩
      rwa [World.gens, map_append]
    · exact h
  | resume r =>
    rw [step]
    cases hproc : w.proc with
    | none => exact h
    | some => exact resume_inv h hproc r
  | signCheckpoint c err => exact sign_inv h (fun _ he => by cases he) err
  | signEnrollment p err => exact sign_inv h (fun _ he => by cases he) err
  | crash => exact with_proc h nofun

end

lemma resume_generated (w : World) (r : Reads) (p : Proc) :
    (w.resume C r p).generated = w.generated := by
  cases p <;> simp only [World.resume] <;> (repeat' split) <;> rfl

lemma sign_generated (w : World) (m : Message) (err : Option Err) :
    (w.sign C m err).generated = w.generated := by
  unfold World.sign
  split <;> rfl

lemma step_generated (w : World) (a : Action) : w.generated <+: (step C w a).generated := by
  cases a with
  | openSigner =>
    simp only [step, World.openSigner]
    repeat' split
    all_goals first | exact prefix_refl _ | exact prefix_append _ _
  | rotate =>
    simp only [step, World.rotate]
    split
    · exact prefix_append _ _
    · exact prefix_refl _
  | resume =>
    rw [step]
    cases w.proc with
    | none => exact prefix_refl _
    | some => rw [Option.map_some, Option.getD_some, resume_generated]
  | signCheckpoint => rw [step, sign_generated]
  | signEnrollment => rw [step, sign_generated]
  | crash => exact prefix_refl _

/-- **Every state of every run keeps the invariant**, if the generated keys are distinct. -/
theorem run_inv {as : List Action} (hnodup : ((run (step C) init as).gens C).Nodup) :
    (run (step C) init as).Inv C := by
  -- a later state has every key of an earlier one, so distinct keys stay so backwards
  refine run_invariant (I := fun w : World => (w.gens C).Nodup → w.Inv C)
    (fun w a (_ : True) hw hnew => ?_) (fun _ => init_inv) (fun _ _ => trivial) hnodup
  have hgens : (w.gens C).Sublist ((step C w a).gens C) :=
    (step_generated w a).sublist.map (LiveKey.pub C)
  exact step_inv (hw (hnew.sublist hgens)) hnew

end Stele.Fwdsec
