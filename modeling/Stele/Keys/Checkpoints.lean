import Stele.Keys.Verifiable

/-!
# Checkpoints of a signer

A checkpoint that the signer returned is `Vouched` by the signer's chain, and stays so when the
chain is extended; with a good chain it passes `checkpoint.Verify` (`Vouches.verify`).

The key mode may change between starts: a classical key after a hybrid one is fine, and a hybrid key
after a classical one breaks the chain (`modes_keep_chain`, `hybrid_after_classical_breaks_chain`).
-/

namespace Stele.Keys

open Lib Prog List

structure Vouches (C : Crypto) (ch : Chain) (rootPub : Bytes) (c : Checkpoint) : Prop where
  root : ∃ genesis, ch.certs[0]? = some (some genesis) ∧ genesis.publicKey = rootPub
  single : c.memberSigs = []
  cert : ∃ cert, ch.certs[c.epochIdx]? = some (some cert) ∧
    keyIDOf C cert.publicKey = c.keyID ∧ C.EdValid cert.publicKey c.canonical c.signature ∧
    if cert.quantumPublicKey = [] then c.quantumSignature = []
    else C.DilValid cert.quantumPublicKey c.canonical c.quantumSignature

section
variable {C : Crypto} {ch ch' : Chain} {rootPub : Bytes} {c : Checkpoint} {quant clocked : Prop}
  {w : World} {s : Signer}

lemma Vouches.append (h : Vouches C ch rootPub c) {l : List (Option RotationCert)}
    (heq : ch'.certs = ch.certs ++ l) : Vouches C ch' rootPub c := by
  have hget : ∀ (i : Nat) cert, ch.certs[i]? = some cert → ch'.certs[i]? = some cert := by
    intro i cert hi
    rw [heq, List.getElem?_append_left (List.getElem?_eq_some_iff.mp hi).1]
    exact hi
  obtain ⟨genesis, hgenesis, hroot⟩ := h.root
  obtain ⟨cert, hcert, hrest⟩ := h.cert
  exact ⟨⟨genesis, hget _ _ hgenesis, hroot⟩, h.single, cert, hget _ _ hcert, hrest⟩

lemma Vouches.rootPublicKey (h : Vouches C ch rootPub c) : ch.rootPublicKey = .ok rootPub := by
  obtain ⟨genesis, hgenesis, rfl⟩ := h.root
  rw [Chain.rootPublicKey]
  cases hcerts : ch.certs with
  | nil =>
    rw [hcerts] at hgenesis
    cases hgenesis
  | cons =>
    rw [hcerts] at hgenesis
    cases hgenesis
    rfl

lemma Vouches.verify (h : Vouches C ch rootPub c) (hgood : Good C none quant clocked w ch) :
    c.verify C (some ch) rootPub none = .ok () := by
  obtain ⟨genesis, rest, hacc⟩ := hgood.accepted
  obtain ⟨genesis', hgenesis, rfl⟩ := h.root
  have hsame : genesis' = genesis := by
    rw [hacc.certs] at hgenesis
    cases hgenesis
    rfl
  subst hsame
  obtain ⟨cert, hcert, hkeyID, hsigned, hquantum⟩ := h.cert
  rw [hacc.certs, getElem?_map, Option.map_eq_some_iff] at hcert
  obtain ⟨cert', hcert, heq⟩ := hcert
  cases heq
  rw [Checkpoint.verify_ok, if_neg (not_not.mpr h.single)]
  refine ⟨ch, cert.publicKey, cert.quantumPublicKey, rfl,
    Chain.verifyChainWith_ok.mpr ⟨_, rest, hacc⟩, ?_, hkeyID, hsigned, ?_, hquantum⟩
  · rw [hacc.publicKeyAt_eq, hcert]
    rfl
  · rw [hacc.quantumPublicKeyAt_eq, hcert]
    rfl

lemma last_at_epoch {group : Option Group} {genesis last : RotationCert}
    {rest : List RotationCert} (hacc : ch.Accepted C rootPub group genesis rest)
    (hlast : ch.certs.getLast? = some (some last)) : ch.certs[last.epoch]? = some (some last) := by
  have hget := hlast
  rw [getLast?_eq_getElem?] at hget
  have hmap := hget
  rw [hacc.certs, getElem?_map, Option.map_eq_some_iff] at hmap
  obtain ⟨last', hlast', heq⟩ := hmap
  cases heq
  have hepoch := hacc.linked.epoch_eq
    (fun c hc => by cases hc; exact hacc.epoch) hlast'
  rw [hepoch, ← hacc.certs]
  exact hget

lemma Signs.quantum_nil {key : LiveKey} {cert : RotationCert} {priv : Bytes}
    (h : Signs C w key cert) (hholds : key.Holds w priv) (hq : key.quantumPublic = none) :
    cert.quantumPublicKey = [] := by
  cases key with
  | file k =>
    obtain ⟨e, q, -, -, hqPub, -, hqpub⟩ := h (by rw [hholds]; simp)
    have hnone : k.qPub = none := hq
    cases q with
    | none => exact hqpub
    | some => simp [hqPub] at hnone
  | hsm =>
    obtain ⟨o, ho, hcls, -⟩ := hholds
    obtain ⟨-, -, -, hnil⟩ := h.2 o ho hcls
    exact hnil

lemma Issued.vouches (hC : Correct C) {group : Option Group}
    (hs : CoreSigner C group quant clocked w s)
    (hissued : Issued C s w c) (hroot : s.chain.rootPublicKey = .ok rootPub) :
    Vouches C s.chain rootPub c := by
  obtain ⟨genesis, rest, hacc⟩ := hs.good.accepted
  obtain ⟨last, hlast⟩ : ∃ last, s.chain.certs.getLast? = some (some last) := by
    rw [hacc.certs, getLast?_map]
    exact ⟨_, by rw [getLast?_eq_some_getLast (cons_ne_nil _ _)]; rfl⟩
  obtain ⟨pub, hpub, hkeyID⟩ := hissued.keyID
  have hepoch := hissued.epoch
  rw [Chain.activePublicKey, hlast, Except.ok.injEq] at hpub
  rw [Chain.activeEpoch, hlast, Except.ok.injEq] at hepoch
  obtain ⟨active, priv, hactive, hholds, hsig, hq, hnq⟩ := hissued.signed
  have hsigns := hs.signs active last hactive hlast
  refine ⟨⟨genesis, by rw [hacc.certs]; rfl, ?_⟩, hissued.single, last, ?_, ?_, ?_, ?_⟩
  · rw [Chain.rootPublicKey, hacc.certs, map_cons, Except.ok.injEq] at hroot
    exact hroot
  · rw [← hepoch]
    exact last_at_epoch hacc hlast
  · rw [hkeyID, hpub]
  · rw [hsig]
    exact hsigns.edValid hC hholds _
  · cases hquantum : active.quantumPublic with
    | none =>
      rw [if_pos (hsigns.quantum_nil hholds hquantum)]
      exact hnq hquantum
    | some =>
      obtain ⟨hvalid, -⟩ := hsigns.dilValid hC hholds (hq (by rw [hquantum]; rfl))
      have hne : last.quantumPublicKey ≠ [] := by
        intro hnil
        have hlen := hvalid.1
        rw [hnil] at hlen
        cases hlen
      rw [if_neg hne]
      exact hvalid

lemma CoreSigner.checkpoint_verifies (hC : Correct C) (hs : CoreSigner C none quant False w s)
    (hroot : s.chain.rootPublicKey = .ok rootPub) {size : Nat} {root head : Bytes}
    {beacon : Option Beacon} {rs : List Choice} {w' : World}
    (hexec : (s.signCheckpoint C size root head beacon).exec (perform C) w rs =
      (w', .ret (.ok c))) : c.verify C (some s.chain) rootPub none = .ok () := by
  have hsafe := @safe_signCheckpoint C (fun _ _ _ => True) s size root head beacon w
  obtain ⟨hw, hissued⟩ := hsafe.returned (admits_of_forall (fun _ _ _ => trivial) _ _ _) hexec
  have hlater : Later False w w' := by
    rcases hw with rfl | ⟨r, -, rfl⟩
    · exact .refl _
    · exact .tick False.elim
  have hs' := hs.later hlater
  exact ((hissued c rfl).vouches hC hs' hroot).verify hs'.good

end

/-! ## Changing the key mode -/

namespace KeyStore

def isFile : KeyStore → Bool
  | file _ _ => true
  | pkcs11 _ => false

def hybrid : KeyStore → Bool
  | file _ h => h
  | pkcs11 _ => false

end KeyStore

/-- A run of a file-backed signer in which the key mode may change at every start. A rotation reads
a time that is not before the last epoch, and a hybrid key does not follow a classical one. -/
def ModesKept (C : Crypto) (dir : Bytes) (sys : Sys) : Action → Prop
  | .start origin st r rs =>
    st.isFile = true ∧ r = none ∧ Admitted C dir (Sane C) sys (.start origin st r rs)
  | .rotate rs => ∀ s, sys.signer = some s →
    Admitted C dir (fun op w r => Sane C op w r ∧ InOrder C s op w r) sys (.rotate rs) ∧
      (s.store.hybrid = true → ∀ last, s.chain.certs.getLast?.join = some last →
        last.quantumPublicKey ≠ [])
  | .checkpoint _ _ _ _ _ => True

instance (C : Crypto) (dir : Bytes) (sys : Sys) : (a : Action) → Decidable (ModesKept C dir sys a)
  | .start .. | .rotate .. | .checkpoint .. => by simp only [ModesKept]; infer_instance

section
variable {C : Crypto} {dir : Bytes} {sys : Sys}

variable (C) in
structure ModesInv (sys : Sys) : Prop where
  sound : Sound C none False False sys
  single : ∀ s, sys.signer = some s → s.threshRotator = none

lemma modes_step (hC : Correct C) (a : Action) (h : ModesInv C sys)
    (ha : ModesKept C dir sys a) : ModesInv C (step C dir sys a) := by
  cases a with
  | start =>
    obtain ⟨-, rfl, hadm⟩ := ha
    have henv : Env C (Sane C) False True := Sane.env fun _ _ _ h => h
    obtain ⟨hsound, hsame⟩ := h.sound.start hC henv False.elim hadm (.inl trivial)
    exact ⟨hsound, fun s hs => (hsame s hs).2⟩
  | rotate =>
    refine step_running (I := ModesInv C) h (by simp) fun s hsig => ?_
    obtain ⟨hadm, hquantum⟩ := ha s hsig
    have henv : Env C (fun op w r => Sane C op w r ∧ InOrder C s op w r) False True :=
      Sane.env fun _ _ _ h => h.1
    have hrot : RotateEnv C (fun op w r => Sane C op w r ∧ InOrder C s op w r)
        none False False s := by
      refine InOrder.rotateEnv (fun _ _ _ h => h.2) ?_ False.elim ?_
      · intro g hg
        cases (h.single s hsig).symm.trans hg
      intro dir' last hstore _ hlast
      refine hquantum ?_ last (by rw [hlast]; rfl)
      rw [hstore]
      rfl
    obtain ⟨hsound, hsame⟩ := h.sound.rotate hC henv hsig hrot hadm (.inl trivial)
    exact ⟨hsound, fun s' hs' => (hsame s' hs').2.trans (h.single s hsig)⟩
  | checkpoint size root head beacon rs =>
    refine step_running (I := ModesInv C) h (by simp) fun s hsig => ?_
    obtain ⟨hsound, hsame⟩ := h.sound.checkpoint hsig False.elim
      (admitted_checkpoint size root head beacon rs)
    exact ⟨hsound, fun s' hs' => h.single s' (hsame s' hs')⟩

end

/-- **Changing the key mode keeps the chain valid while no hybrid key follows a classical one**: the
chain verifies, and so does every checkpoint that the signer signs. -/
theorem modes_keep_chain {C : Crypto} (hC : Correct C) (dir : Bytes) {as : List Action}
    (has : Along (step C dir) (ModesKept C dir) Sys.init as) {s : Signer}
    (hs : (run (step C dir) Sys.init as).signer = some s) :
    ∃ rootPub, s.chain.rootPublicKey = .ok rootPub ∧ s.chain.verifyChain C rootPub = .ok () ∧
      ∀ size root head beacon rs w' c,
        (s.signCheckpoint C size root head beacon).exec (perform C)
          (run (step C dir) Sys.init as).world rs = (w', .ret (.ok c)) →
        c.verify C (some s.chain) rootPub none = .ok () := by
  have hinit : ModesInv C Sys.init := ⟨.init, nofun⟩
  have hrun := along_invariant (fun sys a h ha => modes_step hC a h ha) hinit has
  have hsigner := hrun.sound.signer s hs
  obtain ⟨rootPub, hroot, hver⟩ := hsigner.good.verifies
  refine ⟨rootPub, hroot, hver, ?_⟩
  intro size root head beacon rs w' c hexec
  exact hsigner.checkpoint_verifies hC hroot hexec

def quantumKeyOf (n : UInt8) : DilKey :=
  ⟨List.replicate quantumPrivateKeySize n, length_replicate⟩

def switchMode (first second : Bool) : List Action :=
  let quantum (hybrid : Bool) (n : UInt8) : List Choice :=
    if hybrid then [{ dilKey := quantumKeyOf n }] else []
  [.start (lit "log") (.file sampleDir first) none
      ((genesisChoices 1 10).take 4 ++ quantum first 1 ++ (genesisChoices 1 10).drop 4),
    .start (lit "log") (.file sampleDir second) none [{}, {}, {}, {}],
    .rotate ((rotateChoices 2 20).take 2 ++ quantum second 2 ++
      ((rotateChoices 2 20).drop 2).take 10 ++ [{ err := some notExist }])]

theorem modes_keep_chain_sample :
    ∃ s rootPub, (run (step paired sampleDir) Sys.init (switchMode true false)).signer = some s ∧
      s.chain.certs.length = 2 ∧ s.chain.rootPublicKey = .ok rootPub ∧
      s.chain.verifyChain paired rootPub = .ok () := by
  have has : Along (step paired sampleDir) (ModesKept paired sampleDir) Sys.init
      (switchMode true false) := by
    decide +kernel
  have hlen : (run (step paired sampleDir) Sys.init (switchMode true false)).signer.map
      (fun s => s.chain.certs.length) = some 2 := by
    decide +kernel
  obtain ⟨s, hs, hcerts⟩ := Option.map_eq_some_iff.mp hlen
  obtain ⟨rootPub, hroot, hver, -⟩ := modes_keep_chain paired_correct sampleDir has hs
  exact ⟨s, rootPub, hs, hcerts, hroot, hver⟩

/-- **A hybrid key after a classical one breaks the chain**: the rotation succeeds, its key is the
active one, and the chain does not verify. -/
theorem hybrid_after_classical_breaks_chain :
    ((run (step paired sampleDir) Sys.init (switchMode false true)).signer.map fun s =>
      (s.chain.certs.length, s.active.map LiveKey.pub,
        (s.chain.verifyChain paired (paired.edPublic (keyOf 1))).isOk)) =
      some (2, some (paired.edPublic (keyOf 2)), false) := by
  decide +kernel

end Stele.Keys
