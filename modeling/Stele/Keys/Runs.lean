import Stele.Keys.Outcomes
import Stele.Lib.Runs

/-!
# Runs of a signer

The operator's process over its life: it is started, rotates its key, signs checkpoints, crashes
and is started again. A call gets a list of choices of the environment; when the list is shorter
than the call, the process dies before the next operation.
-/

namespace Stele.Keys

open Lib Prog

/-- The world, the running process, and every checkpoint it ever returned with the genesis key of
the time. -/
structure Sys where
  world : World
  signer : Option Signer
  issued : List (Bytes × Checkpoint)

def Sys.init : Sys := ⟨.empty, none, []⟩

inductive Action
  | start (origin : Bytes) (store : KeyStore) (rotator : Option (Option Group)) (rs : List Choice)
  | rotate (rs : List Choice)
  | checkpoint (size : Nat) (root head : Bytes) (beacon : Option Beacon) (rs : List Choice)

section
variable (C : Crypto) (dir : Bytes)

def step (sys : Sys) : Action → Sys
  | .start origin store rotator rs =>
    match (newSignerWithStore C origin dir store).exec (perform C) sys.world rs with
    | (w, .ret (.ok s)) => { sys with world := w, signer := some (s.useThresholdRotation rotator) }
    | (w, _) => { sys with world := w, signer := none }
  | .rotate rs =>
    match sys.signer with
    | none => sys
    | some s =>
      match (s.rotate C).exec (perform C) sys.world rs with
      | (w, .ret (s', _)) => { sys with world := w, signer := some s' }
      | (w, .ask _ _) => { sys with world := w, signer := none }
  | .checkpoint size root head beacon rs =>
    match sys.signer with
    | none => sys
    | some s =>
      match (s.signCheckpoint C size root head beacon).exec (perform C) sys.world rs with
      | (w, .ret (.ok c)) =>
        match s.chain.rootPublicKey with
        | .ok rootPub => { sys with world := w, issued := sys.issued ++ [(rootPub, c)] }
        | .error _ => { sys with world := w }
      | (w, .ret (.error _)) => { sys with world := w }
      | (w, .ask _ _) => { sys with world := w, signer := none }

def Admitted (ok : Op → World → Choice → Prop) (sys : Sys) : Action → Prop
  | .start origin store _ rs =>
    (newSignerWithStore C origin dir store).Admits (perform C) ok sys.world rs
  | .rotate rs => ∀ s, sys.signer = some s → (s.rotate C).Admits (perform C) ok sys.world rs
  | .checkpoint size root head beacon rs => ∀ s, sys.signer = some s →
    (s.signCheckpoint C size root head beacon).Admits (perform C) ok sys.world rs

instance (ok : Op → World → Choice → Prop) [∀ op w r, Decidable (ok op w r)] (sys : Sys) :
    (a : Action) → Decidable (Admitted C dir ok sys a)
  | .start _ _ _ _ => decidableAdmits _ _ _ _ _
  | .rotate _ => decidableSome _
  | .checkpoint _ _ _ _ _ => decidableSome _

def Completes (sys : Sys) : Action → Prop
  | .start origin store _ rs =>
    ((newSignerWithStore C origin dir store).exec (perform C) sys.world rs).2.ended = true
  | .rotate rs => ∀ s, sys.signer = some s →
    ((s.rotate C).exec (perform C) sys.world rs).2.ended = true
  | .checkpoint size root head beacon rs => ∀ s, sys.signer = some s →
    ((s.signCheckpoint C size root head beacon).exec (perform C) sys.world rs).2.ended = true

instance (sys : Sys) : (a : Action) → Decidable (Completes C dir sys a)
  | .start _ _ _ _ => inferInstanceAs (Decidable (_ = true))
  | .rotate _ => decidableSome _
  | .checkpoint _ _ _ _ _ => decidableSome _

def DiesBefore (sys : Sys) (op : Op) : Action → Prop
  | .start origin store _ rs => ∃ w k,
    (newSignerWithStore C origin dir store).exec (perform C) sys.world rs = (w, .ask op k)
  | .rotate rs => ∃ s w k, sys.signer = some s ∧
    (s.rotate C).exec (perform C) sys.world rs = (w, .ask op k)
  | .checkpoint size root head beacon rs => ∃ s w k, sys.signer = some s ∧
    (s.signCheckpoint C size root head beacon).exec (perform C) sys.world rs = (w, .ask op k)

end

section
variable {C : Crypto} {dir : Bytes} {ok : Op → World → Choice → Prop} {sys : Sys}

lemma Completes.not_dies {a : Action} (h : Completes C dir sys a) (op : Op) :
    ¬ DiesBefore C dir sys op a := by
  cases a with
  | start =>
    rintro ⟨w, k, hexec⟩
    simp [Completes, hexec, ended] at h
  | rotate =>
    rintro ⟨s, w, k, hs, hexec⟩
    have hend := h s hs
    simp [hexec, ended] at hend
  | checkpoint =>
    rintro ⟨s, w, k, hs, hexec⟩
    have hend := h s hs
    simp [hexec, ended] at hend

variable {rs : List Choice}

lemma start_cases {origin : Bytes} {store : KeyStore} {rotator : Option (Option Group)}
    (h : Admitted C dir ok sys (.start origin store rotator rs)) :
    (∃ op w, DiesBefore C dir sys op (.start origin store rotator rs) ∧
      StartStop C ok origin dir store sys.world op w ∧
      step C dir sys (.start origin store rotator rs) = { sys with world := w, signer := none }) ∨
    (∃ e w, StartDone C ok origin dir store sys.world (.error e) w ∧
      step C dir sys (.start origin store rotator rs) = { sys with world := w, signer := none }) ∨
    ∃ s w, StartDone C ok origin dir store sys.world (.ok s) w ∧
      step C dir sys (.start origin store rotator rs) =
        { sys with world := w, signer := some (s.useThresholdRotation rotator) } := by
  have hsafe := @safe_newSignerWithStore C ok origin dir store sys.world
  cases hexec : (newSignerWithStore C origin dir store).exec (perform C) sys.world rs with
  | mk w p =>
  cases p with
  | ask op k => exact .inl ⟨op, w, ⟨w, k, hexec⟩, hsafe.stopped h hexec, by simp [step, hexec]⟩
  | ret res =>
    have hdone := hsafe.returned h hexec
    cases res with
    | error e => exact .inr (.inl ⟨e, w, hdone, by simp [step, hexec]⟩)
    | ok s => exact .inr (.inr ⟨s, w, hdone, by simp [step, hexec]⟩)

lemma rotate_cases {s : Signer} (hs : sys.signer = some s)
    (h : Admitted C dir ok sys (.rotate rs)) :
    (∃ op w, DiesBefore C dir sys op (.rotate rs) ∧ RotateStop C ok s sys.world op w ∧
      step C dir sys (.rotate rs) = { sys with world := w, signer := none }) ∨
    ∃ s' res w, RotateDone C ok s sys.world (s', res) w ∧
      step C dir sys (.rotate rs) = { sys with world := w, signer := some s' } := by
  have hsafe := @safe_rotate C ok s sys.world
  cases hexec : (s.rotate C).exec (perform C) sys.world rs with
  | mk w p =>
  cases p with
  | ask op k =>
    exact .inl ⟨op, w, ⟨s, w, k, hs, hexec⟩, hsafe.stopped (h s hs) hexec,
      by simp [step, hs, hexec]⟩
  | ret res =>
    exact .inr ⟨res.1, res.2, w, hsafe.returned (h s hs) hexec, by simp [step, hs, hexec]⟩

lemma rotate_extends {s s' : Signer} (hs : sys.signer = some s)
    (h : Admitted C dir ok sys (.rotate rs))
    (hs' : (step C dir sys (.rotate rs)).signer = some s') :
    (step C dir sys (.rotate rs)).issued = sys.issued ∧
      ∃ l, s'.chain.certs = s.chain.certs ++ l := by
  rcases rotate_cases hs h with ⟨op, w, -, -, heq⟩ | ⟨s'', res, w, hdone, heq⟩
  · rw [heq] at hs'
    cases hs'
  · rw [heq] at hs' ⊢
    cases hs'
    refine ⟨rfl, ?_⟩
    rcases hdone.certs with hsame | ⟨cert, hnew⟩
    · exact ⟨[], by rw [List.append_nil]; exact hsame⟩
    · exact ⟨_, hnew⟩

end

structure Issued (C : Crypto) (s : Signer) (w : World) (c : Checkpoint) : Prop where
  keyID : ∃ pub, s.chain.activePublicKey = .ok pub ∧ c.keyID = keyIDOf C pub
  epoch : s.chain.activeEpoch = .ok c.epochIdx
  single : c.memberSigs = []
  signed : ∃ active priv, s.active = some active ∧ active.Holds w priv ∧
    c.signature = C.edSign priv c.canonical ∧
    (active.quantumPublic.isSome = true →
      active.quantumSign C c.canonical = .ok c.quantumSignature) ∧
    (active.quantumPublic = none → c.quantumSignature = [])

section
variable {C : Crypto} {dir : Bytes} {ok : Op → World → Choice → Prop} {sys : Sys}

lemma safe_signerSign (s : Signer) (msg : Bytes) (w : World) :
    Safe (perform C) ok (fun _ w1 => w1 = w)
      (fun res w' => w' = w ∧ ∀ epoch sig, res = .ok (epoch, sig) →
        s.chain.activeEpoch = .ok epoch ∧ ∃ active priv, s.active = some active ∧
          active.Holds w priv ∧ sig = C.edSign priv msg) (s.sign C msg) w := by
  unfold Signer.sign
  cases hactive : s.active with
  | none => exact ⟨rfl, nofun⟩
  | some active =>
    refine (safe_sign active msg w).bind (fun _ _ h => h) ?_
    rintro (e | out) w1 ⟨rfl, hsigned, -⟩
    · exact ⟨rfl, nofun⟩
    · refine (safe_pure _).mpr ⟨rfl, fun epoch sig h => ?_⟩
      simp only [bind_ok, pure_ok, Prod.mk.injEq] at h
      obtain ⟨epoch', hepoch, rfl, rfl⟩ := h
      obtain ⟨priv, hholds, hsig⟩ := hsigned out rfl
      exact ⟨hepoch, active, priv, rfl, hholds, hsig⟩

lemma safe_signCheckpoint (s : Signer) (size : Nat) (root head : Bytes)
    (beacon : Option Beacon) (w : World) :
    Safe (perform C) ok (fun _ w1 => w1 = w ∨ ∃ r, ok .unixNano w r ∧ w1 = w.tick r.now)
      (fun res w' => (w' = w ∨ ∃ r, ok .unixNano w r ∧ w' = w.tick r.now) ∧
        ∀ c, res = .ok c → Issued C s w' c)
      (s.signCheckpoint C size root head beacon) w := by
  unfold Signer.signCheckpoint
  cases hpub : s.chain.activePublicKey with
  | error e => exact ⟨.inl rfl, nofun⟩
  | ok pub =>
  cases hepoch : s.chain.activeEpoch with
  | error e => exact ⟨.inl rfl, nofun⟩
  | ok epoch =>
  refine safe_call_bind.mpr ⟨.inl rfl, fun r hr => ?_⟩
  have htick : w.tick r.now = w ∨ ∃ r', ok .unixNano w r' ∧ w.tick r.now = w.tick r'.now :=
    .inr ⟨r, hr, rfl⟩
  refine (safe_signerSign s _ (w.tick r.now)).bind ?_ ?_
  · rintro op w1 rfl
    exact htick
  rintro res w1 ⟨rfl, hsigned⟩
  refine (safe_pure _).mpr ⟨htick, fun c h => ?_⟩
  -- The single-signature path of `checkpoint.Signer.Sign`, with the answer of the key.
  simp only [Checkpoint.sign, Signer.reads, Checkpoint.signSingle, bind_ok, pure_ok] at h
  obtain ⟨sig, ⟨⟨epoch', sig'⟩, rfl, rfl⟩, h⟩ := h
  obtain ⟨-, active, priv, hactive, hholds, rfl⟩ := hsigned epoch' sig' rfl
  have hhyb : s.hybrid = active.quantumPublic.isSome := by simp [Signer.hybrid, hactive]
  cases hq : active.quantumPublic with
  | none =>
    simp only [hhyb, hq, Option.isSome_none, Bool.false_eq_true, ↓reduceIte, pure_ok] at h
    subst h
    exact ⟨⟨pub, hpub, rfl⟩, hepoch, rfl, active, priv, hactive, hholds, rfl,
      fun hsome => (by simp [hq] at hsome), fun _ => rfl⟩
  | some q =>
    simp only [hhyb, hq, Option.isSome_some, ↓reduceIte, bind_ok, wrapErr_ok, pure_ok] at h
    obtain ⟨qsig, hqsig, h⟩ := h
    subst h
    simp only [Signer.quantumSign, hactive] at hqsig
    exact ⟨⟨pub, hpub, rfl⟩, hepoch, rfl, active, priv, hactive, hholds, rfl, fun _ => hqsig,
      fun hnone => (by simp [hq] at hnone)⟩

lemma checkpoint_cases {size : Nat} {root head : Bytes} {beacon : Option Beacon}
    {rs : List Choice} {s : Signer} (hs : sys.signer = some s)
    (h : Admitted C dir ok sys (.checkpoint size root head beacon rs)) :
    ∃ w, (w = sys.world ∨ ∃ r, ok .unixNano sys.world r ∧ w = sys.world.tick r.now) ∧
      (step C dir sys (.checkpoint size root head beacon rs) =
          { sys with world := w, signer := none } ∨
        step C dir sys (.checkpoint size root head beacon rs) = { sys with world := w } ∨
        ∃ rootPub c, s.chain.rootPublicKey = .ok rootPub ∧ Issued C s w c ∧
          step C dir sys (.checkpoint size root head beacon rs) =
            { sys with world := w, issued := sys.issued ++ [(rootPub, c)] }) := by
  have hsafe := @safe_signCheckpoint C ok s size root head beacon sys.world
  cases hexec : (s.signCheckpoint C size root head beacon).exec (perform C) sys.world rs with
  | mk w p =>
  cases p with
  | ask op k => exact ⟨w, hsafe.stopped (h s hs) hexec, .inl (by simp [step, hs, hexec])⟩
  | ret res =>
    obtain ⟨hw, hissued⟩ := hsafe.returned (h s hs) hexec
    refine ⟨w, hw, .inr ?_⟩
    cases res with
    | error e => exact .inl (by simp [step, hs, hexec])
    | ok c =>
      cases hroot : s.chain.rootPublicKey with
      | error e => exact .inl (by simp [step, hs, hexec, hroot])
      | ok rootPub => exact .inr ⟨rootPub, c, rfl, hissued c rfl, by simp [step, hs, hexec, hroot]⟩

end

end Stele.Keys
