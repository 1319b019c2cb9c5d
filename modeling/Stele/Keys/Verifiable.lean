import Stele.Keys.Chains

/-!
# Chains stay verifiable

`Rotate` never runs the verifier. A chain that it extends still verifies in every run in which the
new epoch does not start before the last one, a threshold rotator returns a quorum, and the private
object of the key before is destroyed (`chain_verifies`). A clock that is stepped back breaks the
chain (`clock_back_breaks_chain`).
-/

namespace Stele.Keys

open Lib Prog List

def Sane (C : Crypto) : Op → World → Choice → Prop
  | .edKey, w, r => C.edPublic r.edKey ∉ w.made.map Prod.fst
  | .generateKeyPair label, w, r => C.edPublic r.edKey ∉ w.made.map Prod.fst ∧ label ∉ w.labels
  | .noise _ size, _, r => Harmless (Crypto.fit size r.bytes)
  | _, _, _ => True

/-- The calls of a rotation by `s`: the new epoch starts after the last one, the cosigners return a
quorum of their group, and the private object of the key before is destroyed. -/
def InOrder (C : Crypto) (s : Signer) : Op → World → Choice → Prop
  | .unixNano, _, r => ∀ last, s.chain.certs.getLast?.join = some last → last.startedAt ≤ r.now
  | .cosign msg _, _, r => r.err = none → ∀ g, s.threshRotator.join = some g →
    (verifyMulti C (some g) msg r.sigs).isOk = true ∧ ∀ m ∈ r.sigs.reduceOption, Utf8 m.memberID
  | .destroyObject x, _, r => s.active.bind LiveKey.privateObject = some x → r.err = none
  | _, _, _ => True

instance (C : Crypto) (op : Op) (w : World) (r : Choice) : Decidable (Sane C op w r) := by
  apply op.casesOn (motive := fun op => Decidable (Sane C op w r)) <;> intros <;>
    simp only [Sane] <;> infer_instance

instance (C : Crypto) (s : Signer) (op : Op) (w : World) (r : Choice) :
    Decidable (InOrder C s op w r) := by
  apply op.casesOn (motive := fun op => Decidable (InOrder C s op w r)) <;> intros <;>
    simp only [InOrder] <;> infer_instance

def Steady (C : Crypto) (dir : Bytes) (store : KeyStore) (rot : Option (Option Group)) (sys : Sys) :
    Action → Prop
  | .start origin st r rs =>
    st = store ∧ r = rot ∧ Admitted C dir (Sane C) sys (.start origin st r rs)
  | .rotate rs => ∀ s, sys.signer = some s →
    Admitted C dir (fun op w r => Sane C op w r ∧ InOrder C s op w r) sys (.rotate rs)
  | .checkpoint _ _ _ _ _ => True

instance (C : Crypto) (dir : Bytes) (store : KeyStore) (rot : Option (Option Group)) (sys : Sys) :
    (a : Action) → Decidable (Steady C dir store rot sys a)
  | .start .. | .rotate .. | .checkpoint .. => by simp only [Steady]; infer_instance

section
variable {C : Crypto} {dir : Bytes} {store : KeyStore} {rot : Option (Option Group)} {sys : Sys}

lemma Sane.env {ok : Op → World → Choice → Prop} (h : ∀ op w r, ok op w r → Sane C op w r) :
    Env C ok False True where
  edKey w r hr := h _ _ _ hr
  keyPair label w r hr := h _ _ _ hr
  clock hcl := hcl.elim
  noise := by
    refine .inl ?_
    rintro path b ⟨w, n, r, hr, rfl⟩
    exact h _ _ _ hr

lemma crossed_sigs {sigs : List (Option MemberSig)}
    (h : ∀ m ∈ sigs.reduceOption, Utf8 m.memberID) :
    sigs.map (Option.map MemberSig.crossed) = sigs := by
  have hid : ∀ o ∈ sigs, Option.map MemberSig.crossed o = o := by
    rintro (_ | m) hm
    · rfl
    · have hutf8 := h m (reduceOption_mem_iff.mpr hm)
      rw [Option.map_some, MemberSig.crossed, coerce_of_utf8 hutf8]
  exact (map_congr_left hid).trans (map_id' _)

variable {group : Option Group} {quant clocked : Prop}

lemma InOrder.rotateEnv {s : Signer} {ok : Op → World → Choice → Prop}
    (h : ∀ op w r, ok op w r → InOrder C s op w r)
    (hgroup : ∀ g, s.threshRotator = some (some g) → group = some g)
    (hhyb : quant → ∃ dir, s.store = .file dir true)
    (hquant : ∀ dir last, s.store = .file dir true → s.threshRotator = none →
      s.chain.certs.getLast? = some (some last) → last.quantumPublicKey ≠ []) :
    RotateEnv C ok group quant clocked s where
  started last hlast w r hr := .inr (h _ _ _ hr last (by rw [hlast]; rfl))
  hybrid := hhyb
  quantum := hquant
  quorum g hg := by
    have hjoin : s.threshRotator.join = some g := by rw [hg]; rfl
    refine ⟨hgroup g hg, fun msg label w r hr herr => ?_⟩
    obtain ⟨hver, hids⟩ := h _ _ _ hr herr g hjoin
    refine ⟨?_, crossed_sigs hids⟩
    cases hres : verifyMulti C (some g) msg r.sigs with
    | error =>
      rw [hres] at hver
      cases hver
    | ok => rfl
  destroyed k hk := by
    rintro ⟨w, r, hr, herr⟩
    exact herr (h _ _ _ hr (by rw [hk]; rfl))

variable (C store rot) in
structure SteadyInv (sys : Sys) : Prop where
  core : Core C rot.join (∃ dir, store = .file dir true) False sys.world
  signer : ∀ s, sys.signer = some s →
    CoreSigner C rot.join (∃ dir, store = .file dir true) False sys.world s ∧ s.store = store ∧
      s.threshRotator = rot

lemma core_empty :
    Core C group quant clocked World.empty where
  fresh := nodup_nil
  files p c hc := by cases hc
  privs x o ho := by simp [World.object, World.empty] at ho
  pairs x x' o o' ho := by simp [World.object, World.empty] at ho
  tokens x o ho := by simp [World.object, World.empty] at ho

/-! ### One action -/

section
variable {group : Option Group} {quant clocked crashes : Prop} {ok : Op → World → Choice → Prop}

variable (C group quant clocked) in
structure Sound (sys : Sys) : Prop where
  core : Core C group quant clocked sys.world
  signer : ∀ s, sys.signer = some s → CoreSigner C group quant clocked sys.world s

lemma Sound.init : Sound C group quant clocked Sys.init := ⟨core_empty, nofun⟩

variable (hC : Correct C) (henv : Env C ok clocked crashes) (h : Sound C group quant clocked sys)
include hC henv h

variable {rs : List Choice}

lemma Sound.start {origin : Bytes} {st : KeyStore} {r : Option (Option Group)}
    (hquant : quant → ∃ dir, st = .file dir true)
    (hadm : Admitted C dir ok sys (.start origin st r rs))
    (hend : crashes ∨ Completes C dir sys (.start origin st r rs)) :
    Sound C group quant clocked (step C dir sys (.start origin st r rs)) ∧
      ∀ s, (step C dir sys (.start origin st r rs)).signer = some s →
        s.store = st ∧ s.threshRotator = r := by
  rcases start_cases hadm with ⟨op, w, hdies, hstop, heq⟩ | ⟨e, w, hdone, heq⟩ | ⟨s, w, hdone, heq⟩
  · rw [heq]
    rcases hend with hcrash | hend
    · have hcore := start_stop hC henv h.core hquant hstop hcrash
      exact ⟨⟨hcore, nofun⟩, nofun⟩
    · exact absurd hdies (hend.not_dies op)
  · rw [heq]
    have hcore := (start_done hC henv h.core hquant hdone).1
    exact ⟨⟨hcore, nofun⟩, nofun⟩
  · rw [heq]
    obtain ⟨hcore, hsigner⟩ := start_done hC henv h.core hquant hdone
    obtain ⟨hs, hstore⟩ := hsigner s rfl
    refine ⟨⟨hcore, fun s' hs' => ?_⟩, fun s' hs' => ?_⟩
    · cases hs'
      exact ⟨hs.good, hs.signs⟩
    · cases hs'
      exact ⟨hstore, rfl⟩

lemma Sound.rotate {s : Signer} (hsig : sys.signer = some s)
    (hrot : RotateEnv C ok group quant clocked s) (hadm : Admitted C dir ok sys (.rotate rs))
    (hend : crashes ∨ Completes C dir sys (.rotate rs)) :
    Sound C group quant clocked (step C dir sys (.rotate rs)) ∧
      ∀ s', (step C dir sys (.rotate rs)).signer = some s' →
        s'.store = s.store ∧ s'.threshRotator = s.threshRotator := by
  rcases rotate_cases hsig hadm with ⟨op, w, hdies, hstop, heq⟩ | ⟨s', res, w, hdone, heq⟩
  · rw [heq]
    rcases hend with hcrash | hend
    · have hcore := rotate_stop hC henv hrot h.core (h.signer s hsig) hstop hcrash
      exact ⟨⟨hcore, nofun⟩, nofun⟩
    · exact absurd hdies (hend.not_dies op)
  · rw [heq]
    obtain ⟨hcore, hs'⟩ := rotate_done hC henv hrot h.core (h.signer s hsig) hdone
    obtain ⟨-, -, hst, hro⟩ := hdone.same
    refine ⟨⟨hcore, fun s'' hs'' => ?_⟩, fun s'' hs'' => ?_⟩
    · cases hs''
      exact hs'
    · cases hs''
      exact ⟨hst, hro⟩

omit hC henv in
lemma Sound.tick {now : Int} (hclock : clocked → sys.world.clock ≤ now) :
    Sound C group quant clocked { sys with world := sys.world.tick now } :=
  ⟨h.core.tick hclock, fun s hs => (h.signer s hs).later (.tick hclock)⟩

omit hC henv in
lemma Sound.checkpoint {size : Nat} {root head : Bytes} {beacon : Option Beacon} {s : Signer}
    (hsig : sys.signer = some s)
    (hclock : clocked → ∀ r, ok .unixNano sys.world r → sys.world.clock ≤ r.now)
    (hadm : Admitted C dir ok sys (.checkpoint size root head beacon rs)) :
    Sound C group quant clocked (step C dir sys (.checkpoint size root head beacon rs)) ∧
      ∀ s', (step C dir sys (.checkpoint size root head beacon rs)).signer = some s' →
        sys.signer = some s' := by
  obtain ⟨w, hw, hcases⟩ := checkpoint_cases hsig hadm
  have hsound : Sound C group quant clocked { sys with world := w } := by
    rcases hw with rfl | ⟨r, hr, rfl⟩
    · exact h
    · exact h.tick fun hcl => hclock hcl r hr
  rcases hcases with heq | heq | ⟨rootPub, c, -, -, heq⟩
  · rw [heq]
    exact ⟨⟨hsound.core, nofun⟩, nofun⟩
  · rw [heq]
    exact ⟨⟨hsound.core, hsound.signer⟩, fun s' hs' => hs'⟩
  · rw [heq]
    exact ⟨⟨hsound.core, hsound.signer⟩, fun s' hs' => hs'⟩

end

lemma step_idle (h : sys.signer = none) {a : Action}
    (ha : ∀ origin st r rs, a ≠ .start origin st r rs) : step C dir sys a = sys := by
  cases a with
  | start origin st r rs => exact absurd rfl (ha origin st r rs)
  | rotate => simp [step, h]
  | checkpoint => simp [step, h]

/-- The rule for a call of the signer: an invariant has to be shown while a process runs only. -/
lemma step_running {I : Sys → Prop} (h : I sys) {a : Action}
    (ha : ∀ origin st r rs, a ≠ .start origin st r rs)
    (hrun : ∀ s, sys.signer = some s → I (step C dir sys a)) : I (step C dir sys a) := by
  cases hsig : sys.signer with
  | none =>
    rw [step_idle hsig ha]
    exact h
  | some s => exact hrun s hsig

lemma admitted_checkpoint (size : Nat) (root head : Bytes) (beacon : Option Beacon)
    (rs : List Choice) :
    Admitted C dir (fun _ _ _ => True) sys (.checkpoint size root head beacon rs) :=
  fun _ _ => admits_of_forall (fun _ _ _ => trivial) _ _ _

section

variable (h : SteadyInv C store rot sys)

include h

lemma SteadyInv.sound :
    Sound C rot.join (∃ dir, store = .file dir true) False sys :=
  ⟨h.core, fun s hs => (h.signer s hs).1⟩

lemma SteadyInv.tick (now : Int) :
    SteadyInv C store rot { sys with world := sys.world.tick now } := by
  have hsound : Sound C rot.join (∃ dir, store = .file dir true) False
      { sys with world := sys.world.tick now } := h.sound.tick False.elim
  exact ⟨hsound.core, fun s hs => ⟨hsound.signer s hs, (h.signer s hs).2⟩⟩

lemma SteadyInv.rotateEnv {s : Signer} (hsig : sys.signer = some s) :
    RotateEnv C (fun op w r => Sane C op w r ∧ InOrder C s op w r) rot.join
      (∃ dir, store = .file dir true) False s := by
  obtain ⟨hs, hstore, hrot⟩ := h.signer s hsig
  refine InOrder.rotateEnv (fun _ _ _ h => h.2) ?_ (fun hq => hstore ▸ hq) ?_
  · intro g hg
    rw [← hrot, hg]
    rfl
  intro dir last hdir _ hlast
  exact hs.good.quant ⟨dir, hstore ▸ hdir⟩ last (mem_of_getLast? hlast)

end

lemma steady_step (hC : Correct C) (a : Action) (h : SteadyInv C store rot sys)
    (ha : Steady C dir store rot sys a) : SteadyInv C store rot (step C dir sys a) := by
  cases a with
  | start =>
    obtain ⟨rfl, rfl, hadm⟩ := ha
    have henv : Env C (Sane C) False True := Sane.env fun _ _ _ h => h
    obtain ⟨hsound, hsame⟩ := h.sound.start hC henv id hadm (.inl trivial)
    exact ⟨hsound.core, fun s hs => ⟨hsound.signer s hs, hsame s hs⟩⟩
  | rotate =>
    refine step_running (I := SteadyInv C store rot) h (by simp) fun s hsig => ?_
    obtain ⟨-, hstore, hrot⟩ := h.signer s hsig
    have henv : Env C (fun op w r => Sane C op w r ∧ InOrder C s op w r) False True :=
      Sane.env fun _ _ _ h => h.1
    obtain ⟨hsound, hsame⟩ := h.sound.rotate hC henv hsig (h.rotateEnv hsig) (ha s hsig)
      (.inl trivial)
    refine ⟨hsound.core, fun s' hs' => ⟨hsound.signer s' hs', ?_⟩⟩
    obtain ⟨hst, hro⟩ := hsame s' hs'
    exact ⟨hst.trans hstore, hro.trans hrot⟩
  | checkpoint size root head beacon rs =>
    refine step_running (I := SteadyInv C store rot) h (by simp) fun s hsig => ?_
    obtain ⟨hsound, hsame⟩ := h.sound.checkpoint hsig False.elim
      (admitted_checkpoint size root head beacon rs)
    exact ⟨hsound.core, fun s' hs' => ⟨hsound.signer s' hs', (h.signer s' (hsame s' hs')).2⟩⟩

lemma Good.verifies {w : World} {ch : Chain} (h : Good C group quant clocked w ch) :
    ∃ root, ch.rootPublicKey = .ok root ∧ ch.verifyChainWithGroup C root group = .ok () := by
  obtain ⟨genesis, rest, hacc⟩ := h.accepted
  refine ⟨genesis.publicKey, ?_, Chain.verifyChainWith_ok.mpr ⟨genesis, rest, hacc⟩⟩
  simp [Chain.rootPublicKey, hacc.certs]

end

/-- **A rotation in order never breaks the chain**, in any run of starts, rotations and checkpoints
in one key mode, with I/O errors and crashes anywhere. -/
theorem chain_verifies {C : Crypto} (hC : Correct C) (dir : Bytes) (store : KeyStore)
    (rot : Option (Option Group)) {as : List Action}
    (has : Along (step C dir) (Steady C dir store rot) Sys.init as) {s : Signer}
    (hs : (run (step C dir) Sys.init as).signer = some s) :
    ∃ root, s.chain.rootPublicKey = .ok root ∧
      s.chain.verifyChainWithGroup C root rot.join = .ok () := by
  have hstep : ∀ sys a, SteadyInv C store rot sys → Steady C dir store rot sys a →
      SteadyInv C store rot (step C dir sys a) := fun sys a h ha => steady_step hC a h ha
  have hinit : SteadyInv C store rot Sys.init := ⟨core_empty, nofun⟩
  have hrun := along_invariant hstep hinit has
  exact (hrun.signer s hs).1.good.verifies

/-! ## Samples -/

def keyOf (n : UInt8) : EdKey := ⟨List.replicate edPrivateKeySize n, length_replicate⟩

def genesisChoices (n : UInt8) (now : Int) : List Choice :=
  [{}, {}, { edKey := keyOf n }, { now := now }, {}, {}, {}, {}, { now := now }, {}, {}, {}, {}, {}]

def rotateChoices (n : UInt8) (now : Int) : List Choice :=
  [{ edKey := keyOf n }, { now := now, count := 1 }, {}, {}, {}, {}, { now := now },
    {}, {}, {}, {}, {}, {}, {}, {}, {}, {}, {}, {}]

def sampleDir : Bytes := lit "/k"

def rotateAt (now : Int) : List Action :=
  [.start (lit "log") (.file sampleDir false) none (genesisChoices 1 10),
    .rotate (rotateChoices 2 now)]

theorem chain_verifies_sample :
    ∃ s root, (run (step paired sampleDir) Sys.init (rotateAt 20)).signer = some s ∧
      s.chain.certs.length = 2 ∧ s.chain.rootPublicKey = .ok root ∧
      s.chain.verifyChainWithGroup paired root none = .ok () := by
  have has : Along (step paired sampleDir)
      (Steady paired sampleDir (.file sampleDir false) none) Sys.init (rotateAt 20) := by
    decide +kernel
  have hlen : (run (step paired sampleDir) Sys.init (rotateAt 20)).signer.map
      (fun s => s.chain.certs.length) = some 2 := by
    decide +kernel
  obtain ⟨s, hs, hcerts⟩ := Option.map_eq_some_iff.mp hlen
  obtain ⟨root, hroot, hver⟩ := chain_verifies paired_correct sampleDir (.file sampleDir false) none
    has hs
  exact ⟨s, root, hs, hcerts, hroot, hver⟩

/-- **A clock that is stepped back breaks the chain**: the rotation succeeds, its key is the active
one, and the chain does not verify. -/
theorem clock_back_breaks_chain :
    ((run (step paired sampleDir) Sys.init (rotateAt 5)).signer.map fun s =>
      (s.chain.certs.length, s.active.map LiveKey.pub,
        (s.chain.verifyChain paired (paired.edPublic (keyOf 1))).isOk)) =
      some (2, some (paired.edPublic (keyOf 2)), false) := by
  decide +kernel

end Stele.Keys
