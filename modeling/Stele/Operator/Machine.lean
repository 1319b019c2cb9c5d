import Stele.Api.Server
import Stele.Keys.Checkpoints

/-!
# An operator: its log and its signer

`cmd/steled` runs a log and a forward-secure signer in one process. Here the machine of the log and
the machine of the signer are put together: the step of `CheckpointCtx` that signs asks the signer,
or in threshold mode the cosigners, and every other step is one of the two machines alone.

A rotation does not run inside the signing of a checkpoint here; `Stele.Keys.Concurrent` says what
happens when it does.
-/

namespace Stele

open Lib List

namespace Keys.Signer

variable (C : Crypto) (s : Signer)

/-- What `checkpoint.Signer.Sign` reads in single-signature mode, with the answer of the key. -/
def signReads (size : Nat) (root head : Bytes) (beacon : Option Beacon) : Calls SignReads :=
  match s.chain.activePublicKey, s.chain.activeEpoch with
  | .ok pub, .ok epoch => do
    let now ← sys .unixNano
    let unsigned := Checkpoint.unsigned C (s.reads C pub epoch now (.ok (0, []))) size root head
      beacon
    let sig ← s.sign C unsigned.canonical
    return s.reads C pub epoch now sig
  | .error e, _ => return s.reads C [] 0 0 (.error e)
  | _, .error e => return s.reads C [] 0 0 (.error e)

def thresholdReads (group : Group) (round : Round group) (now : Int) : SignReads :=
  match s.chain.activePublicKey, s.chain.activeEpoch with
  | .ok pub, .ok epoch =>
    { s.reads C pub epoch now (.ok (0, [])) with
      threshold := some (group, ⟨group, fun _ => round⟩) }
  | .error e, _ => s.reads C [] 0 0 (.error e)
  | _, .error e => s.reads C [] 0 0 (.error e)

variable {C s}

lemma signCheckpoint_eq (size : Nat) (root head : Bytes) (beacon : Option Beacon) :
    s.signCheckpoint C size root head beacon =
      s.signReads C size root head beacon >>= fun r =>
        pure (Checkpoint.sign C r size root head beacon) := by
  unfold signCheckpoint signReads
  cases s.chain.activePublicKey with
  | error => rfl
  | ok =>
    cases s.chain.activeEpoch with
    | error => rfl
    | ok =>
      simp only [Prog.bind_bind]
      rfl

end Keys.Signer

namespace Operator

open Keys (Signer Choice KeyStore)

variable {R : RangeImpl Bytes}

structure State (R : RangeImpl Bytes) where
  log : Core.State R
  keys : Keys.Sys
  group : Option Group

def init (R : RangeImpl Bytes) : State R := ⟨Core.init R, .init, none⟩

inductive Action
  | startSigner (origin : Bytes) (store : KeyStore) (rs : List Choice)
  | useThreshold (group : Group)
  | rotate (rs : List Choice)
  /-- An action of the log. The step that signs a checkpoint gets the choices of the key store, or
  the answers of the cosigners in order of arrival. -/
  | log (a : Core.Action) (rs : List Choice) (arrivals : List (Member × Reply))

def collect (group : Group) (arrivals : List (Member × Reply)) : Round group :=
  if h : (arrivals.map Prod.fst).Perm group.asked then ⟨arrivals, h⟩
  else ⟨group.asked.map fun m => (m, .transport (.errorf "context deadline exceeded" [])),
    by rw [map_map]; exact (map_id _).symm ▸ List.Perm.refl _⟩

def signing (s : Core.State R) (t : Core.Tid) : Option (Nat × Bytes × Bytes) :=
  match s.proc with
  | none => none
  | some p =>
    match p.pc t with
    | .ckptSign size root head => some (size, root, head)
    | _ => none

def crash (s : State R) : State R where
  log := { s.log with proc := none }
  keys := { s.keys with signer := none }
  group := none

section
variable (C : Crypto) (dir : Bytes) (opts : Core.Options)

def cosignedReads (signer : Signer) (g : Group) (arrivals : List (Member × Reply))
    (r : Core.Reads) : Core.Reads :=
  { r with signer := signer.thresholdReads C g (collect g arrivals) r.signer.now }

def signStep (s : State R) (signer : Signer) (t : Core.Tid) (r : Core.Reads) (size : Nat)
    (root head : Bytes) (rs : List Choice) (arrivals : List (Member × Reply)) : State R :=
  match Core.checkSkew r.now r.beacon, s.group with
  | .error _, _ => { s with log := Core.step C opts s.log (.thread t r) }
  | .ok (), some g =>
    { s with log := Core.step C opts s.log (.thread t (cosignedReads C signer g arrivals r)) }
  | .ok (), none =>
    match (signer.signReads C size root head r.beacon).exec (Keys.perform C) s.keys.world rs with
    | (w, .ret reads) =>
      { s with
        log := Core.step C opts s.log (.thread t { r with signer := reads })
        keys := { s.keys with world := w } }
    | (w, .ask _ _) => crash { s with keys := { s.keys with world := w } }

def logStep (s : State R) (signer : Signer) (rs : List Choice)
    (arrivals : List (Member × Reply)) : Core.Action → State R
  | .crash => crash s
  | .thread t r =>
    match signing s.log t with
    | some (size, root, head) => signStep C opts s signer t r size root head rs arrivals
    | none => { s with log := Core.step C opts s.log (.thread t r) }
  | a => { s with log := Core.step C opts s.log a }

def step (s : State R) : Action → State R
  | .startSigner origin store rs =>
    match s.keys.signer with
    | some _ => s
    | none => { s with keys := Keys.step C dir s.keys (.start origin store none rs), group := none }
  | .useThreshold g =>
    match s.keys.signer, Group.validate (some g) with
    | some signer, .ok () =>
      { s with
        keys := { s.keys with signer := some (signer.useThresholdRotation (some (some g))) }
        group := some g }
    | _, _ => s
  | .rotate rs =>
    match (Keys.step C dir s.keys (.rotate rs)).signer with
    | some _ => { s with keys := Keys.step C dir s.keys (.rotate rs) }
    | none => crash { s with keys := Keys.step C dir s.keys (.rotate rs) }
  | .log a rs arrivals =>
    match s.keys.signer with
    | none => s
    | some signer => logStep C opts s signer rs arrivals a

/-! ## Honest runs -/

/-- When thread `t` signs in threshold mode, a round that succeeds has a quorum. -/
def quorate (s : State R) (t : Core.Tid) (r : Core.Reads) (arrivals : List (Member × Reply)) :
    Bool :=
  match s.keys.signer, s.group, signing s.log t with
  | some signer, some g, some (size, root, head) =>
    match Core.signCheckpoint C (cosignedReads C signer g arrivals r) size root head with
    | .ok c => decide ((verifyMulti C (some g) c.canonical c.memberSigs).isOk = true ∧
        ∀ m ∈ c.memberSigs.reduceOption, Utf8 m.memberID)
    | .error _ => true
  | _, _, _ => true

def candid (s : State R) (arrivals : List (Member × Reply)) : Core.Action → Bool
  | .thread t r => decide (∀ b, r.beacon = some b → Utf8 b.source) && quorate C s t r arrivals
  | _ => true

/-- **The runs of an honest operator** with one key store: texts are UTF-8, new keys are new, a
rotation is in order, cosigners that answer are a quorum of `group`, and no process is started after
the first checkpoint. Without a group the operator stays in single-signature mode. -/
def Honest (store : KeyStore) (group : Option Group) (s : State R) : Action → Prop
  | .startSigner origin st rs =>
    st = store ∧ Utf8 origin ∧ s.log.db.ckpt.toList = [] ∧
      Keys.Admitted C dir (Keys.Sane C) s.keys (.start origin st none rs)
  | .useThreshold g => group = some g ∧ g.crossed = g
  | .rotate rs => ∀ signer, s.keys.signer = some signer →
    Keys.Admitted C dir (fun op w r => Keys.Sane C op w r ∧ Keys.InOrder C signer op w r) s.keys
      (.rotate rs)
  | .log a _ arrivals => a.IsUtf8 ∧ candid C s arrivals a = true

instance (store : KeyStore) (group : Option Group) (s : State R) :
    (a : Action) → Decidable (Honest C dir store group s a)
  | .startSigner _ _ _ => inferInstanceAs (Decidable (_ ∧ _ ∧ _ ∧ _))
  | .useThreshold _ => inferInstanceAs (Decidable (_ ∧ _))
  | .rotate _ => decidableSome _
  | .log _ _ _ => inferInstanceAs (Decidable (_ ∧ _))

end

/-! ## Endorsed checkpoints -/

/-- **The signer or the group endorses the checkpoint.** Everything but the witness signatures comes
back from its JSON form as it is. -/
structure Endorsed (C : Crypto) (group : Option Group) (signer : Signer) (c : Checkpoint) :
    Prop where
  origin : c.origin = signer.origin
  clean : ({ c with witnesses := [] } : Checkpoint).crossed = { c with witnesses := [] }
  witnesses : none ∉ c.witnesses
  signed : if c.memberSigs = [] then ∃ rootPub, Keys.Vouches C signer.chain rootPub c
    else c.GroupSigned C group

section
variable {C : Crypto} {group : Option Group} {signer signer' : Signer} {c : Checkpoint}

lemma Endorsed.single (h : Endorsed C none signer c) : c.memberSigs = [] := by
  by_contra hmulti
  have hsigned := h.signed
  rw [if_neg hmulti] at hsigned
  obtain ⟨g, d, hg, -⟩ := hsigned.digest
  cases hg

lemma Endorsed.withWitnesses (h : Endorsed C group signer c) {ws : List (Option WitnessSig)}
    (hws : none ∉ ws) : Endorsed C group signer { c with witnesses := ws } where
  origin := h.origin
  clean := h.clean
  witnesses := hws
  signed := by
    have hsigned := h.signed
    split at hsigned
    · rename_i hsingle
      obtain ⟨rootPub, hv⟩ := hsigned
      rw [if_pos hsingle]
      exact ⟨rootPub, hv.root, hv.single, hv.cert⟩
    · rename_i hmulti
      rw [if_neg hmulti]
      exact ⟨hsigned.digest, hsigned.quorum⟩

lemma Endorsed.gather (r : Core.Reads) (c : Checkpoint) (h : Endorsed C group signer c) :
    Endorsed C group signer (Core.gatherWitnessSignatures r c) :=
  h.withWitnesses (by simp [h.witnesses])

section

variable (h : Endorsed C group signer c)

include h

lemma Endorsed.crossed_eq :
    c.crossed = { c with witnesses := c.witnesses.map (Option.map WitnessSig.crossed) } :=
  congrArg (fun d : Checkpoint =>
    { d with witnesses := c.witnesses.map (Option.map WitnessSig.crossed) }) h.clean

lemma Endorsed.crossed : Endorsed C group signer c.crossed := by
  rw [h.crossed_eq]
  refine h.withWitnesses fun hmem => ?_
  obtain ⟨w, hw, hnone⟩ := mem_map.mp hmem
  rw [Option.map_eq_none_iff.mp hnone] at hw
  exact h.witnesses hw

lemma Endorsed.extend (horigin : signer'.origin = signer.origin)
    {l : List (Option RotationCert)} (hcerts : signer'.chain.certs = signer.chain.certs ++ l) :
    Endorsed C group signer' c where
  origin := h.origin.trans horigin.symm
  clean := h.clean
  witnesses := h.witnesses
  signed := by
    have hsigned := h.signed
    split at hsigned
    · rename_i hsingle
      obtain ⟨rootPub, hv⟩ := hsigned
      rw [if_pos hsingle]
      exact ⟨rootPub, hv.append hcerts⟩
    · rename_i hmulti
      rw [if_neg hmulti]
      exact hsigned

end

lemma crossed_of_utf8 (horigin : Utf8 c.origin) (hkey : Utf8 c.keyID)
    (hbeacon : ∀ b, c.beacon = some b → Utf8 b.source) (hdigest : Utf8 c.thresholdGroupDigest)
    (hmembers : ∀ m ∈ c.memberSigs.reduceOption, Utf8 m.memberID) :
    ({ c with witnesses := [] } : Checkpoint).crossed = { c with witnesses := [] } := by
  have hb : c.beacon.map Beacon.crossed = c.beacon := by
    cases hc : c.beacon with
    | none => rfl
    | some b => rw [Option.map_some, Beacon.crossed, coerce_of_utf8 (hbeacon b hc)]
  simp only [Checkpoint.crossed, coerce_of_utf8 horigin, coerce_of_utf8 hkey, hb,
    coerce_of_utf8 hdigest, Keys.crossed_sigs hmembers, map_nil]

/-! ### What a signature makes -/

lemma signSingle_eq {u : Checkpoint} {r : SignReads} (h : u.signSingle r = .ok c) :
    c = { u with signature := c.signature, quantumSignature := c.quantumSignature } := by
  simp only [Checkpoint.signSingle, bind_ok] at h
  obtain ⟨sig, -, h⟩ := h
  cases hq : r.quantumSign with
  | none =>
    simp only [hq, pure_ok] at h
    subst h
    rfl
  | some =>
    simp only [hq, bind_ok, pure_ok] at h
    obtain ⟨qsig, -, h⟩ := h
    subst h
    rfl

lemma signThreshold_eq {u : Checkpoint} {g : Group} {coord : Coordinator}
    (h : u.signThreshold C g coord = .ok c) :
    ∃ d sigs, g.digest C = .ok d ∧
      c = { u with thresholdGroupDigest := hex d, memberSigs := sigs } := by
  simp only [Checkpoint.signThreshold, bind_ok] at h
  obtain ⟨d, hd, res, -, h⟩ := h
  cases hres : res.err with
  | some => simp [hres] at h
  | none =>
    simp only [hres, pure_ok] at h
    exact ⟨d, _, hd, h.symm⟩

lemma signReads_returned {size : Nat} {root head : Bytes} {beacon : Option Beacon}
    {w w' : Keys.World} {rs : List Choice} {reads : SignReads}
    (h : (signer.signReads C size root head beacon).exec (Keys.perform C) w rs = (w', .ret reads)) :
    ∃ pub epoch now sig, reads = signer.reads C pub epoch now sig := by
  have hsafe : Prog.Safe (Keys.perform C) (fun _ _ _ => True) (fun _ _ => True)
      (fun reads _ => ∃ pub epoch now sig, reads = signer.reads C pub epoch now sig)
      (signer.signReads C size root head beacon) w := by
    unfold Signer.signReads
    cases signer.chain.activePublicKey with
    | error => exact ⟨_, _, _, _, rfl⟩
    | ok =>
      cases signer.chain.activeEpoch with
      | error => exact ⟨_, _, _, _, rfl⟩
      | ok =>
        refine Prog.safe_call_bind.mpr ⟨trivial, fun r _ => ?_⟩
        refine (Keys.safe_signerSign signer _ _).bind (fun _ _ _ => trivial) ?_
        intro sig w1 _
        exact (Prog.safe_pure _).mpr ⟨_, _, _, _, rfl⟩
  exact hsafe.returned (Prog.admits_of_forall (fun _ _ _ => trivial) _ _ _) h

end

end Operator

end Stele
