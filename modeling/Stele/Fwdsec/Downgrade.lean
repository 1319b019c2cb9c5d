import Stele.Checkpoint.Checkpoint

/-!
# Hybrid chains and the post-quantum half

When an epoch has a Dilithium key, the certificate after it should carry a signature by that key.
`VerifyChain` looks for one only when the new certificate has a quantum field of its own, so the law
holds exactly for the chains that do not go back to classical keys (`no_downgrade_iff`). A classical
certificate after a hybrid epoch is accepted on its Ed25519 signature (`classical_after_hybrid`).

The adversary of `DilithiumGame` may forge every Ed25519 signature. What it presents contains no
forgery under the operator's Dilithium keys, and those sign rotations to the operator's own keys
only.
-/

namespace Stele

open Lib List

namespace RotationCert

variable {C : Crypto} {c : RotationCert}

lemma SingleOk.quantum_all (h : c.SingleOk C) (hq : c.quantumPublicKey = []) :
    c.quantumSignature = [] ∧ c.quantumSignedBy = [] := by
  by_contra hne
  have hany : c.quantumPublicKey ≠ [] ∨ c.quantumSignature ≠ [] ∨ c.quantumSignedBy ≠ [] := by
    by_cases hs : c.quantumSignature = []
    · exact .inr (.inr fun hby => hne ⟨hs, hby⟩)
    · exact .inr (.inl hs)
  have hlen := (h.quantum hany).1
  rw [hq] at hlen
  cases hlen

end RotationCert

namespace Chain

variable (C : Crypto)

def QuantumLinked (ch : Chain) : Prop :=
  ∀ (i : Nat) (c d : RotationCert), ch.certs[i]? = some (some c) →
    ch.certs[i + 1]? = some (some d) → c.quantumPublicKey ≠ [] →
    C.DilValid c.quantumPublicKey d.canonical d.quantumSignature

def StaysHybrid (ch : Chain) : Prop :=
  ∀ (i : Nat) (c d : RotationCert), ch.certs[i]? = some (some c) →
    ch.certs[i + 1]? = some (some d) → c.quantumPublicKey ≠ [] → d.quantumPublicKey ≠ []

end Chain

structure DilithiumGame where
  own : Bytes → Prop
  signed : Bytes → Bytes → Prop

namespace DilithiumGame

variable (C : Crypto) (G : DilithiumGame)

/-- What is presented holds no forgery under the operator's Dilithium keys, and these keys sign
rotations to the operator's keys only. -/
structure Fair (ch : Chain) (cks : List Checkpoint) : Prop where
  nonempty : ¬ G.own []
  certs : ∀ d, some d ∈ ch.certs → ∀ q, G.own q →
    C.DilValid q d.canonical d.quantumSignature → G.signed q d.canonical
  checkpoints : ∀ c ∈ cks, ∀ q, G.own q →
    C.DilValid q c.canonical c.quantumSignature → G.signed q c.canonical
  rotations : ∀ q (d : RotationCert), G.own q → G.signed q d.canonical → G.own d.quantumPublicKey

/-- After an epoch with an operator's Dilithium key the adversary has no part: every later
certificate and every accepted checkpoint was signed by the operator's key of the epoch before, or
of its epoch. -/
structure Contained (ch : Chain) (rootPub : Bytes) (cks : List Checkpoint) : Prop where
  certs : ∀ (i : Nat) (c : RotationCert), ch.certs[i]? = some (some c) → G.own c.quantumPublicKey →
    ∀ (j : Nat) (d : RotationCert), i ≤ j → ch.certs[j + 1]? = some (some d) →
      ∃ p, ch.certs[j]? = some (some p) ∧ G.own p.quantumPublicKey ∧
        G.signed p.quantumPublicKey d.canonical
  checkpoints : ∀ (i : Nat) (c : RotationCert), ch.certs[i]? = some (some c) →
    G.own c.quantumPublicKey → ∀ ck ∈ cks, i ≤ ck.epochIdx →
      ck.verify C (some ch) rootPub none = .ok () →
      ∃ p, ch.certs[ck.epochIdx]? = some (some p) ∧ G.own p.quantumPublicKey ∧
        G.signed p.quantumPublicKey ck.canonical

end DilithiumGame

section
variable {C : Crypto} {ch : Chain} {rootPub : Bytes}

lemma Chain.link_of_verifyChain (h : ch.verifyChain C rootPub = .ok ()) {i : Nat}
    {d : RotationCert} (hd : ch.certs[i + 1]? = some (some d)) :
    ∃ c, ch.certs[i]? = some (some c) ∧ Chain.Link c d ∧ d.SingleOk C := by
  obtain ⟨genesis, rest, hacc⟩ := Chain.verifyChainWith_ok.mp h
  rw [hacc.certs, getElem?_map, Option.map_eq_some_iff] at hd
  obtain ⟨d', hd', heq⟩ := hd
  cases heq
  obtain ⟨c, hc, hlink, hok⟩ := hacc.linked.next hd'
  exact ⟨c, by rw [hacc.certs, getElem?_map, hc]; rfl, hlink, hok⟩

/-- **The link of an accepted chain has its quantum half exactly when the new key has one.** -/
theorem Chain.quantum_link_iff {c d : RotationCert} (hlink : Chain.Link c d)
    (hok : d.SingleOk C) :
    C.DilValid c.quantumPublicKey d.canonical d.quantumSignature ↔ d.quantumPublicKey ≠ [] := by
  constructor
  · intro hvalid hd
    exact C.dilVerify_ne_nil hvalid.2 (hok.quantum_all hd).1
  · intro hd
    obtain ⟨-, -, hvalid⟩ := hok.quantum (.inl hd)
    rw [← hlink.quantum hok.memberSigs (.inl hd)]
    exact hvalid

lemma Chain.quantumLinked_iff (h : ch.verifyChain C rootPub = .ok ()) :
    ch.QuantumLinked C ↔ ch.StaysHybrid := by
  constructor
  · intro hlinked i c d hc hd hq
    obtain ⟨c', hc', hlink, hok⟩ := Chain.link_of_verifyChain h hd
    rw [hc'] at hc
    cases hc
    exact (Chain.quantum_link_iff hlink hok).mp (hlinked i c d hc' hd hq)
  · intro hstays i c d hc hd hq
    obtain ⟨c', hc', hlink, hok⟩ := Chain.link_of_verifyChain h hd
    rw [hc'] at hc
    cases hc
    exact (Chain.quantum_link_iff hlink hok).mpr (hstays i c d hc' hd hq)

namespace DilithiumGame

variable {G : DilithiumGame} {cks : List Checkpoint}

lemma Fair.next (hfair : G.Fair C ch cks) (hlinked : ch.QuantumLinked C) {i : Nat}
    {c d : RotationCert} (hc : ch.certs[i]? = some (some c))
    (hd : ch.certs[i + 1]? = some (some d)) (hown : G.own c.quantumPublicKey) :
    G.signed c.quantumPublicKey d.canonical ∧ G.own d.quantumPublicKey := by
  have hne : c.quantumPublicKey ≠ [] := fun he => hfair.nonempty (he ▸ hown)
  have hsigned := hfair.certs d (mem_of_getElem? hd) _ hown (hlinked i c d hc hd hne)
  exact ⟨hsigned, hfair.rotations _ d hown hsigned⟩

lemma Fair.own_later (hfair : G.Fair C ch cks) (hlinked : ch.QuantumLinked C)
    (h : ch.verifyChain C rootPub = .ok ()) {i j : Nat} {c d : RotationCert} (hij : i ≤ j)
    (hc : ch.certs[i]? = some (some c)) (hown : G.own c.quantumPublicKey)
    (hd : ch.certs[j]? = some (some d)) : G.own d.quantumPublicKey := by
  -- by induction on the epochs in between
  induction j, hij using Nat.le_induction generalizing d with
  | base =>
    rw [hc] at hd
    cases hd
    exact hown
  | succ j hij ih =>
    obtain ⟨p, hp, -, -⟩ := Chain.link_of_verifyChain h hd
    exact (hfair.next hlinked hp hd (ih hp)).2

lemma Fair.contained (hfair : G.Fair C ch cks) (hlinked : ch.QuantumLinked C)
    (h : ch.verifyChain C rootPub = .ok ()) : G.Contained C ch rootPub cks where
  certs i c hc hown j d hij hd := by
    obtain ⟨p, hp, -, -⟩ := Chain.link_of_verifyChain h hd
    have hpown := hfair.own_later hlinked h hij hc hown hp
    exact ⟨p, hp, hpown, (hfair.next hlinked hp hd hpown).1⟩
  checkpoints i c hc hown ck hck hij hver := by
    rw [Checkpoint.verify_ok] at hver
    split at hver
    · obtain ⟨g, -, hnone, -⟩ := hver.digest
      cases hnone
    · obtain ⟨ch', pub, qpub, heq, hsigned⟩ := hver
      cases heq
      obtain ⟨genesis, rest, hacc⟩ := Chain.verifyChainWith_ok.mp h
      have hkey := hsigned.key
      have hqkey := hsigned.qkey
      rw [hacc.publicKeyAt_eq, Except.ok.injEq, Option.map_eq_some_iff] at hkey
      obtain ⟨p, hp, -⟩ := hkey
      rw [hacc.quantumPublicKeyAt_eq, hp, Except.ok.injEq] at hqkey
      have hcert : ch.certs[ck.epochIdx]? = some (some p) := by
        rw [hacc.certs, getElem?_map, hp]
        rfl
      have hpown := hfair.own_later hlinked h hij hc hown hcert
      have hne : qpub ≠ [] := fun he => hfair.nonempty (he ▸ hqkey ▸ hpown)
      have hvalid := hsigned.quantum
      rw [if_neg hne, ← hqkey] at hvalid
      exact ⟨p, hcert, hpown, hfair.checkpoints ck hck _ hpown hvalid⟩

end DilithiumGame

/-- **The post-quantum half along a chain.** In an accepted chain every hybrid epoch's Dilithium key
signs the next certificate, and an adversary without Dilithium forgeries has no part in what comes
after an operator's hybrid epoch, exactly when no classical epoch follows a hybrid one. -/
theorem no_downgrade_iff (h : ch.verifyChain C rootPub = .ok ()) :
    (ch.QuantumLinked C ∧ ∀ (G : DilithiumGame) (cks : List Checkpoint), G.Fair C ch cks →
      G.Contained C ch rootPub cks) ↔ ch.StaysHybrid := by
  constructor
  · rintro ⟨hlinked, -⟩
    exact (Chain.quantumLinked_iff h).mp hlinked
  · intro hstays
    have hlinked := (Chain.quantumLinked_iff h).mpr hstays
    exact ⟨hlinked, fun G cks hfair => hfair.contained hlinked h⟩

end

/-! ## Samples -/

namespace Downgrade

def sampleCert (epoch : Nat) (n signer : UInt8) (q : Bool) : RotationCert :=
  let qpub := if q then List.replicate quantumPublicKeySize 7 else []
  let unsigned : RotationCert :=
    { epoch := epoch
      publicKey := List.replicate edPublicKeySize n
      startedAt := 0
      signedBy := List.replicate edPublicKeySize signer
      quantumPublicKey := qpub
      quantumSignedBy := qpub }
  { unsigned with
    signature := Crypto.sample.edSign (List.replicate edPublicKeySize signer) unsigned.canonical
    quantumSignature := if q then Crypto.sample.dilSign qpub unsigned.canonical else [] }

def sampleChain (q : Bool) : Chain :=
  ⟨lit "log", [some (sampleCert 0 1 1 true), some (sampleCert 1 2 1 q)], []⟩

def sampleCheckpoint : Checkpoint :=
  let unsigned : Checkpoint :=
    { origin := lit "log", size := 1, rootHash := [1], headHash := [2], timeNanos := 0
      epochIdx := 1, keyID := keyIDOf Crypto.sample (List.replicate edPublicKeySize 2) }
  { unsigned with
    signature := Crypto.sample.edSign (List.replicate edPublicKeySize 2) unsigned.canonical }

end Downgrade

theorem no_downgrade_iff_hybrid :
    (Downgrade.sampleChain true).QuantumLinked Crypto.sample ∧
      ∀ (G : DilithiumGame) (cks : List Checkpoint),
        G.Fair Crypto.sample (Downgrade.sampleChain true) cks →
        G.Contained Crypto.sample (Downgrade.sampleChain true)
          (List.replicate edPublicKeySize 1) cks := by
  have hver : (Downgrade.sampleChain true).verifyChain Crypto.sample
      (List.replicate edPublicKeySize 1) = .ok () := by
    decide +kernel
  refine (no_downgrade_iff hver).mpr ?_
  intro i c d hc hd _
  match i, hd with
  | 0, hd =>
    cases hd
    decide +kernel
  | i + 1, hd => simp [Downgrade.sampleChain] at hd

/-- **A classical certificate after a hybrid epoch is accepted**, and so is a checkpoint of its
epoch, although no Dilithium key signed either. -/
theorem classical_after_hybrid :
    (Downgrade.sampleCert 0 1 1 true).quantumPublicKey ≠ [] ∧
      (Downgrade.sampleCert 1 2 1 false).quantumSignature = [] ∧
      (Downgrade.sampleChain false).verifyChain Crypto.sample
        (List.replicate edPublicKeySize 1) = .ok () ∧
      Downgrade.sampleCheckpoint.quantumSignature = [] ∧
      Downgrade.sampleCheckpoint.verify Crypto.sample (some (Downgrade.sampleChain false))
        (List.replicate edPublicKeySize 1) none = .ok () := by
  decide +kernel

end Stele
