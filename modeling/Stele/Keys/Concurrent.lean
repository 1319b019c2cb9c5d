import Stele.Keys.Checkpoints

/-!
# Signing while another goroutine rotates

`checkpoint.Signer.Sign` takes the mutex of the forward-secure signer five times: for the public
key, the epoch, the classical signature, the key mode and the quantum signature. `Rotate` takes it
once. A machine interleaves these critical sections.
-/

namespace Stele.Keys

open Lib Prog List

/-- How far a call of `checkpoint.Signer.Sign` has come. -/
inductive Stage
  | start
  | named (pub : Bytes)
  | drafted (c : Checkpoint)
  | signed (c : Checkpoint)
  | hybrid (c : Checkpoint)
  | ended

structure Call where
  size : Nat
  root : Bytes
  head : Bytes
  beacon : Option Beacon
  stage : Stage := .start

inductive Next
  | go (stage : Stage)
  | done (res : Res Checkpoint)

section
variable (C : Crypto)

def Signer.resume (s : Signer) (call : Call) : Calls Next :=
  match call.stage with
  | .start =>
    match s.chain.activePublicKey with
    | .error e => return .done (.error e)
    | .ok pub => return .go (.named pub)
  | .named pub => do
    let now ← sys .unixNano
    match s.chain.activeEpoch with
    | .error e => return .done (.error e)
    | .ok epoch =>
      return .go (.drafted (Checkpoint.unsigned C (s.reads C pub epoch now (.ok (0, []))) call.size
        call.root call.head call.beacon))
  | .drafted c => do
    match ← s.sign C c.canonical with
    | .error e => return .done (.error e)
    | .ok (_, sig) => return .go (.signed { c with signature := sig })
  | .signed c => if s.hybrid then return .go (.hybrid c) else return .done (.ok c)
  | .hybrid c => return .done do
      let qsig ← wrapErr "checkpoint hybrid sign: %w" [] (s.quantumSign C c.canonical)
      return { c with quantumSignature := qsig }
  | .ended => return .go .ended

def Signer.resumeAll (s : Signer) : Nat → Call → Calls (Res Checkpoint)
  | 0, _ => return .error (errorf "unfinished" [])
  | n + 1, call => do
    match ← s.resume C call with
    | .done res => return res
    | .go stage => s.resumeAll n { call with stage := stage }

structure Shared where
  sys : Sys
  calls : List Call

def Shared.init : Shared := ⟨.init, []⟩

inductive Event
  | start (origin : Bytes) (store : KeyStore) (rs : List Choice)
  | rotate (rs : List Choice)
  | call (size : Nat) (root head : Bytes) (beacon : Option Beacon)
  | resume (i : Nat) (rs : List Choice)

variable (dir : Bytes)

def event (st : Shared) : Event → Shared
  | .start origin store rs =>
    ⟨{ step C dir st.sys (.start origin store none rs) with issued := [] }, []⟩
  | .rotate rs => { st with sys := step C dir st.sys (.rotate rs) }
  | .call size root head beacon =>
    { st with calls := st.calls ++ [⟨size, root, head, beacon, .start⟩] }
  | .resume i rs =>
    match st.sys.signer, st.calls[i]? with
    | some s, some call =>
      match (s.resume C call).exec (perform C) st.sys.world rs with
      | (w, .ret (.go stage)) =>
        ⟨{ st.sys with world := w }, st.calls.set i { call with stage := stage }⟩
      | (w, .ret (.done (.ok c))) =>
        match s.chain.rootPublicKey with
        | .ok rootPub => ⟨{ st.sys with world := w, issued := st.sys.issued ++ [(rootPub, c)] },
            st.calls.set i { call with stage := .ended }⟩
        | .error _ => ⟨{ st.sys with world := w }, st.calls.set i { call with stage := .ended }⟩
      | (w, .ret (.done (.error _))) =>
        ⟨{ st.sys with world := w }, st.calls.set i { call with stage := .ended }⟩
      | (w, .ask _ _) => { st with sys := { st.sys with world := w, signer := none } }
    | _, _ => st

def Stage.idle : Stage → Bool
  | start => true
  | ended => true
  | named _ => false
  | drafted _ => false
  | signed _ => false
  | hybrid _ => false

/-- The signer runs in one key mode, its rotations are in order, and no call is between two of its
sections when one begins. -/
def Undisturbed (store : KeyStore) (st : Shared) : Event → Prop
  | .start origin store' rs => Steady C dir store none st.sys (.start origin store' none rs)
  | .rotate rs => Steady C dir store none st.sys (.rotate rs) ∧
    ∀ call ∈ st.calls, call.stage.idle = true
  | .call _ _ _ _ => True
  | .resume _ _ => True

instance (store : KeyStore) (st : Shared) : (e : Event) → Decidable (Undisturbed C dir store st e)
  | .start origin store' rs =>
    inferInstanceAs (Decidable (Steady C dir store none st.sys (.start origin store' none rs)))
  | .rotate _ => inferInstanceAs (Decidable (_ ∧ _))
  | .call _ _ _ _ => isTrue trivial
  | .resume _ _ => isTrue trivial

end

section
variable {C : Crypto} {s : Signer} {call : Call}

lemma resume_start {pub : Bytes} (hpub : s.chain.activePublicKey = .ok pub) :
    s.resume C { call with stage := .start } = .ret (.go (.named pub)) := by
  simp only [Signer.resume, hpub]
  rfl

lemma resume_named {pub : Bytes} {epoch : Nat} (hepoch : s.chain.activeEpoch = .ok epoch) :
    s.resume C { call with stage := .named pub } = .ask Op.unixNano fun now =>
      .ret (.go (.drafted (Checkpoint.unsigned C (s.reads C pub epoch now (.ok (0, []))) call.size
        call.root call.head call.beacon))) := by
  simp only [Signer.resume, hepoch]
  rfl

lemma resume_signed (c : Checkpoint) :
    s.resume C { call with stage := .signed c } =
      .ret (if s.hybrid = true then .go (.hybrid c) else .done (.ok c)) := by
  cases hhyb : s.hybrid <;> simp only [Signer.resume, hhyb] <;> rfl

lemma signCheckpoint_eq :
    s.resumeAll C 5 { call with stage := .start } =
      s.signCheckpoint C call.size call.root call.head call.beacon := by
  -- The key and the epoch are both those of the last certificate.
  have hlast : (∃ e, s.chain.activePublicKey = .error e) ∨
      ∃ pub epoch, s.chain.activePublicKey = .ok pub ∧ s.chain.activeEpoch = .ok epoch := by
    unfold Chain.activePublicKey Chain.activeEpoch
    split
    · exact .inr ⟨_, _, rfl, rfl⟩
    · exact .inl ⟨_, rfl⟩
    · exact .inr ⟨_, _, rfl, rfl⟩
  rcases hlast with ⟨e, hpub⟩ | ⟨pub, epoch, hpub, hepoch⟩
  · unfold Signer.signCheckpoint
    simp only [Signer.resumeAll, Signer.resume, hpub]
    rfl
  · unfold Signer.signCheckpoint
    simp only [hpub, hepoch]
    rw [Signer.resumeAll, resume_start hpub]
    show s.resumeAll C 4 { call with stage := .named pub } = _
    rw [Signer.resumeAll, resume_named hepoch]
    refine congrArg (@ask calls (Res Checkpoint) Op.unixNano) (funext fun now => ?_)
    show s.resumeAll C 3 { call with stage := .drafted _ } = s.sign C _ >>= _
    rw [Signer.resumeAll]
    show (s.sign C _ >>= _ >>= _ : Calls (Res Checkpoint)) = _
    rw [bind_bind]
    refine congrArg _ (funext fun res => ?_)
    cases res with
    | error => rfl
    | ok =>
      show s.resumeAll C 2 { call with stage := .signed _ } = _
      rw [Signer.resumeAll, resume_signed]
      cases hhyb : s.hybrid with
      | false =>
        simp only [Checkpoint.sign, Signer.reads, Checkpoint.signSingle, hhyb]
        rfl
      | true =>
        simp only [Checkpoint.sign, Signer.reads, Checkpoint.signSingle, hhyb]
        rfl

end

/-! ## Calls that no rotation splits -/

structure Drafted (C : Crypto) (s : Signer) (c : Checkpoint) : Prop where
  keyID : ∃ pub, s.chain.activePublicKey = .ok pub ∧ c.keyID = keyIDOf C pub
  epoch : s.chain.activeEpoch = .ok c.epochIdx
  single : c.memberSigs = []
  quantum : c.quantumSignature = []

def SignedNow (C : Crypto) (s : Signer) (w : World) (c : Checkpoint) : Prop :=
  ∃ active priv, s.active = some active ∧ active.Holds w priv ∧
    c.signature = C.edSign priv c.canonical

def InStep (C : Crypto) (s : Signer) (w : World) : Stage → Prop
  | .start => True
  | .named pub => s.chain.activePublicKey = .ok pub
  | .drafted c => Drafted C s c
  | .signed c => Drafted C s c ∧ SignedNow C s w c
  | .hybrid c => Drafted C s c ∧ SignedNow C s w c ∧ s.hybrid = true
  | .ended => True

section
variable {C : Crypto} {dir : Bytes} {store : KeyStore} {s : Signer} {w : World} {st : Shared}

lemma InStep.tick {stage : Stage} (h : InStep C s w stage) (now : Int) :
    InStep C s (w.tick now) stage := by
  cases stage <;> exact h

lemma InStep.of_idle {stage : Stage} (h : stage.idle = true) : InStep C s w stage := by
  cases stage with
  | start => trivial
  | ended => trivial
  | named => cases h
  | drafted => cases h
  | signed => cases h
  | hybrid => cases h

lemma safe_resume {call : Call} (h : InStep C s w call.stage) :
    Safe (perform C) (fun _ _ _ => True) (fun _ w1 => w1 = w)
      (fun next w' => (w' = w ∨ ∃ now, w' = w.tick now) ∧
        match next with
        | .go stage => InStep C s w' stage
        | .done res => ∀ c, res = .ok c → Issued C s w' c)
      (s.resume C call) w := by
  unfold Signer.resume
  cases hstage : call.stage with
  | start =>
    cases hpub : s.chain.activePublicKey with
    | error => exact ⟨.inl rfl, nofun⟩
    | ok => exact ⟨.inl rfl, hpub⟩
  | named pub =>
    rw [hstage] at h
    refine safe_call_bind.mpr ⟨rfl, fun r _ => ?_⟩
    cases hepoch : s.chain.activeEpoch with
    | error => exact ⟨.inr ⟨r.now, rfl⟩, nofun⟩
    | ok => exact ⟨.inr ⟨r.now, rfl⟩, ⟨pub, h, rfl⟩, hepoch, rfl, rfl⟩
  | drafted c =>
    rw [hstage] at h
    refine (safe_signerSign s c.canonical w).bind (fun _ _ h => h) ?_
    rintro (e | ⟨epoch, sig⟩) w1 ⟨rfl, hsigned⟩
    · exact ⟨.inl rfl, nofun⟩
    · obtain ⟨-, active, priv, hactive, hholds, rfl⟩ := hsigned epoch sig rfl
      exact ⟨.inl rfl, ⟨h.keyID, h.epoch, h.single, h.quantum⟩, active, priv, hactive, hholds, rfl⟩
  | signed =>
    rw [hstage] at h
    obtain ⟨hdraft, active, priv, hactive, hholds, hsig⟩ := h
    have hhyb : s.hybrid = active.quantumPublic.isSome := by simp [Signer.hybrid, hactive]
    cases hquantum : active.quantumPublic with
    | none =>
      simp only [hhyb, hquantum]
      refine ⟨.inl rfl, fun c' hc' => ?_⟩
      cases hc'
      exact ⟨hdraft.keyID, hdraft.epoch, hdraft.single, active, priv, hactive, hholds, hsig,
        fun hsome => (by simp [hquantum] at hsome), fun _ => hdraft.quantum⟩
    | some =>
      have hyes : s.hybrid = true := by rw [hhyb, hquantum]; rfl
      simp only [hyes]
      exact ⟨.inl rfl, hdraft, ⟨active, priv, hactive, hholds, hsig⟩, hyes⟩
  | hybrid =>
    rw [hstage] at h
    obtain ⟨hdraft, ⟨active, priv, hactive, hholds, hsig⟩, hhyb⟩ := h
    refine ⟨.inl rfl, fun c' hc' => ?_⟩
    simp only [bind_ok, wrapErr_ok, pure_ok, Signer.quantumSign, hactive] at hc'
    obtain ⟨qsig, hqsig, rfl⟩ := hc'
    refine ⟨hdraft.keyID, hdraft.epoch, hdraft.single, active, priv, hactive, hholds, hsig,
      fun _ => hqsig, fun hnone => ?_⟩
    simp [Signer.hybrid, hactive, hnone] at hhyb
  | ended => exact ⟨.inl rfl, trivial⟩

variable (C store) in
/-- The invariant: the signer is in order, its chain vouches for what it returned, and the calls are
in step with it. -/
structure CallsInv (st : Shared) : Prop where
  steady : SteadyInv C store none st.sys
  issued : ∀ s, st.sys.signer = some s → ∀ x ∈ st.sys.issued, Vouches C s.chain x.1 x.2
  calls : ∀ s, st.sys.signer = some s → ∀ call ∈ st.calls, InStep C s st.sys.world call.stage

lemma CallsInv.resume (hC : Correct C) (h : CallsInv C store st) (i : Nat) (rs : List Choice) :
    CallsInv C store (event C dir st (.resume i rs)) := by
  cases hsig : st.sys.signer with
  | none =>
    simp only [event, hsig]
    exact h
  | some s =>
  cases hcall : st.calls[i]? with
  | none =>
    simp only [event, hsig, hcall]
    exact h
  | some call =>
  have hstep := h.calls s hsig call (mem_of_getElem? hcall)
  have hsafe := @safe_resume C s st.sys.world call hstep
  have hadm : (s.resume C call).Admits (perform C) (fun _ _ _ => True) st.sys.world rs :=
    admits_of_forall (fun _ _ _ => trivial) _ _ _
  -- The invariant with the world of after and this call at a new stage.
  have hnext : ∀ w' : World, (w' = st.sys.world ∨ ∃ now, w' = st.sys.world.tick now) →
      ∀ stage, InStep C s w' stage → ∀ issued : List (Bytes × Checkpoint),
      (∀ x ∈ issued, Vouches C s.chain x.1 x.2) →
      CallsInv C store ⟨⟨w', some s, issued⟩, st.calls.set i { call with stage := stage }⟩ := by
    intro w' hw' stage hstage issued hissued
    have hsteady : SteadyInv C store none { st.sys with world := w' } := by
      rcases hw' with rfl | ⟨now, rfl⟩
      · exact h.steady
      · exact h.steady.tick now
    refine ⟨⟨hsteady.core, fun s' hs' => hsteady.signer s' (hsig.trans hs')⟩, fun s' hs' => ?_,
      fun s' hs' call' hmem => ?_⟩
    · cases hs'
      exact hissued
    · cases hs'
      rcases mem_or_eq_of_mem_set hmem with hold | rfl
      · have hold := h.calls s hsig call' hold
        rcases hw' with rfl | ⟨now, rfl⟩
        · exact hold
        · exact hold.tick now
      · exact hstage
  cases hexec : (s.resume C call).exec (perform C) st.sys.world rs with
  | mk w' p =>
  cases p with
  | ask op k =>
    obtain rfl := hsafe.stopped hadm hexec
    simp only [event, hsig, hcall, hexec]
    exact ⟨⟨h.steady.core, nofun⟩, nofun, nofun⟩
  | ret next =>
    obtain ⟨hw', hpost⟩ := hsafe.returned hadm hexec
    cases next with
    | go stage =>
      simp only [event, hsig, hcall, hexec]
      exact hnext w' hw' stage hpost _ (h.issued s hsig)
    | done res =>
      cases res with
      | error e =>
        simp only [event, hsig, hcall, hexec]
        exact hnext w' hw' .ended trivial _ (h.issued s hsig)
      | ok c =>
        cases hroot : s.chain.rootPublicKey with
        | error e =>
          simp only [event, hsig, hcall, hexec, hroot]
          exact hnext w' hw' .ended trivial _ (h.issued s hsig)
        | ok rootPub =>
          simp only [event, hsig, hcall, hexec, hroot]
          refine hnext w' hw' .ended trivial _ fun x hx => ?_
          rcases mem_append.mp hx with hx | hx
          · exact h.issued s hsig x hx
          · cases mem_singleton.mp hx
            have hs' : CoreSigner C none (∃ dir, store = .file dir true) False w' s := by
              have hs := (h.steady.signer s hsig).1
              rcases hw' with rfl | ⟨now, rfl⟩
              · exact hs
              · exact hs.later (.tick False.elim)
            exact (hpost c rfl).vouches hC hs' hroot

lemma calls_step (hC : Correct C) (e : Event) (h : CallsInv C store st)
    (he : Undisturbed C dir store st e) : CallsInv C store (event C dir st e) := by
  cases e with
  | start origin store' rs =>
    have hsteady := steady_step hC (.start origin store' none rs) h.steady he
    refine ⟨⟨hsteady.core, hsteady.signer⟩, fun s hs x hx => ?_, fun s hs call hmem => ?_⟩
    · cases hx
    · cases hmem
  | rotate =>
    obtain ⟨hsteady, hidle⟩ := he
    refine ⟨steady_step hC _ h.steady hsteady, fun s' hs' => ?_,
      fun s' hs' call hmem => .of_idle (hidle call hmem)⟩
    cases hsig : st.sys.signer with
    | none =>
      rw [event, step_idle hsig fun _ _ _ _ => by simp] at hs'
      rw [hsig] at hs'
      cases hs'
    | some s =>
      obtain ⟨hissued, l, hcerts⟩ := rotate_extends hsig (hsteady s hsig) hs'
      intro x hx
      exact (h.issued s hsig x (hissued ▸ hx)).append hcerts
  | call =>
    refine ⟨h.steady, h.issued, fun s hs call hmem => ?_⟩
    rcases mem_append.mp hmem with hold | hnew
    · exact h.calls s hs call hold
    · cases mem_singleton.mp hnew
      trivial
  | resume i rs => exact h.resume hC i rs

end

/-- **Signing is atomic while no rotation comes between the sections of a call**: in every such
interleaving each checkpoint that was returned verifies with the signer's chain. -/
theorem sign_atomic_without_rotation {C : Crypto} (hC : Correct C) (dir : Bytes)
    (store : KeyStore) {es : List Event}
    (hes : Along (event C dir) (Undisturbed C dir store) Shared.init es) {s : Signer}
    (hs : (run (event C dir) Shared.init es).sys.signer = some s) {rootPub : Bytes}
    {c : Checkpoint} (hc : (rootPub, c) ∈ (run (event C dir) Shared.init es).sys.issued) :
    c.verify C (some s.chain) rootPub none = .ok () := by
  have hinit : CallsInv C store Shared.init := ⟨⟨core_empty, nofun⟩, nofun, nofun⟩
  have hrun := along_invariant (fun st e h he => calls_step hC e h he) hinit hes
  exact (hrun.issued s hs _ hc).verify (hrun.steady.signer s hs).1.good

def splitCall (n : Nat) : List Event :=
  let sections := List.replicate n (Event.resume 0 [{ now := 12 }])
  [.start (lit "log") (.file sampleDir false) (genesisChoices 1 10), .call 1 [1] [2] none] ++
    sections ++ [.rotate (rotateChoices 2 20)] ++ List.replicate 4 (.resume 0 [{ now := 30 }])

theorem sign_atomic_without_rotation_sample :
    ∃ s rootPub c, (run (event paired sampleDir) Shared.init (splitCall 4)).sys.signer = some s ∧
      (run (event paired sampleDir) Shared.init (splitCall 4)).sys.issued = [(rootPub, c)] ∧
      s.chain.certs.length = 2 ∧ c.verify paired (some s.chain) rootPub none = .ok () := by
  have hes : Along (event paired sampleDir) (Undisturbed paired sampleDir (.file sampleDir false))
      Shared.init (splitCall 4) := by
    decide +kernel
  have hlen : (run (event paired sampleDir) Shared.init (splitCall 4)).sys.signer.map
      (fun s => s.chain.certs.length) = some 2 := by
    decide +kernel
  have hissued :
      (run (event paired sampleDir) Shared.init (splitCall 4)).sys.issued.length = 1 := by
    decide +kernel
  obtain ⟨s, hs, hcerts⟩ := Option.map_eq_some_iff.mp hlen
  obtain ⟨⟨rootPub, c⟩, hx⟩ := length_eq_one_iff.mp hissued
  have hver := sign_atomic_without_rotation paired_correct sampleDir (.file sampleDir false) hes hs
    (by rw [hx]; exact mem_singleton_self _)
  exact ⟨s, rootPub, c, hs, hx, hcerts, hver⟩

/-- **A rotation in the middle of a call splits its checkpoint**: it names epoch 0 and its key, is
signed by the key of epoch 1, and does not verify. -/
theorem rotation_splits_checkpoint :
    (run (event paired sampleDir) Shared.init (splitCall 2)).sys.issued.map (fun x =>
      (x.2.epochIdx, decide (x.2.keyID = keyIDOf paired (paired.edPublic (keyOf 1))),
        decide (x.2.signature = paired.edSign (keyOf 2) x.2.canonical),
        (run (event paired sampleDir) Shared.init (splitCall 2)).sys.signer.map fun s =>
          (x.2.verify paired (some s.chain) x.1 none).isOk)) =
      [(0, true, true, some false)] := by
  decide +kernel

end Stele.Keys
