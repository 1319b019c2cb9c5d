import Stele.Fwdsec.Signer

/-!
# Forward security of verification

An auditor who trusts the genesis key accepts a checkpoint of epoch `j`. Whoever built the chain and
the checkpoint may know every epoch key after `k_j`. Then the chain agrees with the operator's up to
epoch `j`, and `k_j` signed the checkpoint as a checkpoint.
-/

namespace Stele

open Lib List

variable {C : Crypto}

/-! ## Kinds of messages -/

namespace Fwdsec

def Message.kind : Message → Bytes
  | .rotation _ => lit "stele-r"
  | .checkpoint _ => lit "stele/v"
  | .enrollment _ => lit "stele-e"

lemma Message.bytes_take (m : Message) : m.bytes.take 7 = m.kind := by
  cases m with
  | rotation =>
    simp only [bytes, RotationCert.canonical, append_assoc]
    exact take_append_of_le_length (by decide)
  | checkpoint =>
    simp only [bytes, Checkpoint.canonical, append_assoc]
    exact take_append_of_le_length (by decide)
  | enrollment =>
    simp only [bytes, Producer.canonicalEnrollment, append_assoc]
    exact take_append_of_le_length (by decide)

lemma Message.checkpoint_of_bytes {m : Message} {c : Checkpoint} (h : m.bytes = c.canonical) :
    ∃ c₀, m = .checkpoint c₀ := by
  have hkind : m.kind = lit "stele/v" := by
    rw [← m.bytes_take, h]
    exact (Message.checkpoint c).bytes_take
  cases m with
  | checkpoint c₀ => exact ⟨c₀, rfl⟩
  | rotation => exact absurd hkind (show lit "stele-r" ≠ lit "stele/v" by decide)
  | enrollment => exact absurd hkind (show lit "stele-e" ≠ lit "stele/v" by decide)

lemma Message.rotation_of_bytes {m : Message} {cert : RotationCert}
    (h : m.bytes = cert.canonical) :
    ∃ cert₀, m = .rotation cert₀ ∧ cert₀.epoch = cert.epoch ∧ cert₀.publicKey = cert.publicKey := by
  have hkind : m.kind = lit "stele-r" := by
    rw [← m.bytes_take, h]
    exact (Message.rotation cert).bytes_take
  cases m with
  | rotation cert₀ =>
    obtain ⟨he, hk, -⟩ := RotationCert.canonical_inj h
    exact ⟨cert₀, rfl, he, hk⟩
  | checkpoint => exact absurd hkind (show lit "stele/v" ≠ lit "stele-r" by decide)
  | enrollment => exact absurd hkind (show lit "stele-e" ≠ lit "stele-r" by decide)

end Fwdsec

namespace Fwdsec

/-! ## The game -/

/-- The keys that the other side does not know: the generated ones, except the epoch keys after
`k_j`. -/
def Uncompromised (C : Crypto) (w : World) (j : Nat) (pub : Bytes) : Prop :=
  pub ∈ w.gens C ∧ ∀ i, j < i → w.pubs[i]? ≠ some pub

/-- A signature that is no forgery: if it verifies under an uncompromised key, then that key
signed the message. -/
def Unforged (C : Crypto) (w : World) (j : Nat) (pub msg sig : Bytes) : Prop :=
  Uncompromised C w j pub → C.EdValid pub msg sig → ∃ m, (pub, m) ∈ w.signed ∧ m.bytes = msg

section
variable {w : World} {j : Nat} {cs : List RotationCert} {c : Checkpoint} {pub : Bytes}
  (hw : w.Inv C) (hlinked : Chain.Linked C none none cs)
  (h0 : ∀ c, cs[0]? = some c → c.epoch = 0)
  (hcerts : ∀ cert ∈ cs, Unforged C w j cert.signedBy cert.canonical cert.signature)

include hlinked h0 hcerts

lemma rotation_signed {i : Nat} {d e : RotationCert} (hd : cs[i]? = some d)
    (he : cs[i + 1]? = some e) (hun : Uncompromised C w j d.publicKey) :
    ∃ m, (d.publicKey, .rotation m) ∈ w.signed ∧ m.epoch = i + 1 ∧ m.publicKey = e.publicKey := by
  obtain ⟨d', hd', hlink, hsingle⟩ := hlinked.next he
  obtain rfl : d = d' := Option.some.inj (hd.symm.trans hd')
  have hby : e.signedBy = d.publicKey := hlink.signedBy hsingle.memberSigs
  obtain ⟨m, hm, hbytes⟩ := hcerts e (mem_of_getElem? he) (hby ▸ hun) hsingle.signed
  obtain ⟨m', rfl, hep, hpk⟩ := Message.rotation_of_bytes hbytes
  exact ⟨m', hby ▸ hm, hep.trans (hlinked.epoch_eq h0 he), hpk⟩

include hw

lemma mem_pubs_of_uncompromised {i : Nat} (hij : i ≤ j) {d last : RotationCert}
    (hd : cs[i]? = some d) (hlast : cs[j]? = some last)
    (hc : Unforged C w j last.publicKey c.canonical c.signature)
    (hsigned : C.EdValid last.publicKey c.canonical c.signature)
    (hun : Uncompromised C w j d.publicKey) : d.publicKey ∈ w.pubs := by
  rcases Nat.lt_or_eq_of_le hij with hlt | rfl
  · -- it signed the next certificate, whose epoch is not 0
    have hlen := (List.getElem?_eq_some_iff.mp hlast).1
    obtain ⟨m, hm, hep, -⟩ := rotation_signed hlinked h0 hcerts hd
      (List.getElem?_eq_getElem (by omega)) hun
    rcases hw.ledger.signer _ _ hm with hmem | ⟨cert, heq, hzero⟩
    · exact hmem
    · cases heq
      omega
  · -- it signed the checkpoint
    obtain rfl : d = last := Option.some.inj (hd.symm.trans hlast)
    obtain ⟨m, hm, hbytes⟩ := hc hun hsigned
    obtain ⟨c₀, rfl⟩ := Message.checkpoint_of_bytes hbytes
    rcases hw.ledger.signer _ _ hm with hmem | ⟨cert, heq, -⟩
    · exact hmem
    · cases heq

omit hlinked h0 hcerts in
lemma uncompromised_pub {i : Nat} (hij : i ≤ j) {k : Bytes} (hk : w.pubs[i]? = some k) :
    Uncompromised C w j k := by
  refine ⟨hw.ledger.sub k (mem_of_getElem? hk), fun i' hlt hk' => ?_⟩
  have := (List.getElem?_inj (List.getElem?_eq_some_iff.mp hk).1 hw.ledger.nodup).mp
    (hk.trans hk'.symm)
  omega

lemma chain_agrees (hroot : ∀ c, cs[0]? = some c → w.pubs[0]? = some c.publicKey)
    {last : RotationCert} (hlast : cs[j]? = some last)
    (hc : Unforged C w j last.publicKey c.canonical c.signature)
    (hsigned : C.EdValid last.publicKey c.canonical c.signature) {i : Nat} (hij : i ≤ j)
    {d : RotationCert} (hd : cs[i]? = some d) : w.pubs[i]? = some d.publicKey := by
  induction i generalizing d with
  | zero => exact hroot d hd
  | succ i ih =>
    obtain ⟨b, hb, -, -⟩ := hlinked.next hd
    have hkey := ih (by omega) hb
    obtain ⟨m, hm, hep, hpk⟩ := rotation_signed hlinked h0 hcerts hb hd
      (uncompromised_pub hw (by omega) hkey)
    rcases hw.ledger.rotation_next _ _ hm i hep with hnext | hnot
    · rwa [hpk] at hnext
    · -- a key outside the operator's chain signs neither a rotation nor a checkpoint
      rw [hpk] at hnot
      have hun : Uncompromised C w j d.publicKey :=
        ⟨hpk ▸ hw.ledger.rotation_gen _ _ hm, fun i' _ hi' => hnot (mem_of_getElem? hi')⟩
      exact absurd (mem_pubs_of_uncompromised hw hlinked h0 hcerts hij hd hlast hc hsigned hun) hnot

end

lemma signed_of_verify {ch : Chain} {rootPub : Bytes} {c : Checkpoint}
    (h : c.verify C (some ch) rootPub none = .ok ()) :
    ∃ pub, ch.publicKeyAt c.epochIdx = .ok (some pub) ∧ C.EdValid pub c.canonical c.signature := by
  rw [Checkpoint.verify_ok] at h
  split at h
  · obtain ⟨g, -, hnone, -⟩ := h.digest
    cases hnone
  · obtain ⟨ch', pub, qpub, heq, hsigned⟩ := h
    cases heq
    exact ⟨pub, hsigned.key, hsigned.signed⟩

/-- **Forward security.** Take any run of the operator in which all generated keys are distinct, any
chain that verifies under its genesis key and any checkpoint of epoch `j` that verifies with that
chain and no group, whose signatures are no forgeries under keys other than `k_{j+1}, k_{j+2}, …`.
Up to epoch `j` the keys of the chain are the operator's; `k_j` signed the bytes of the checkpoint
as a checkpoint, and no key ever signed them as anything else. -/
theorem forward_security (as : List Action) (w : World) (hrun : w = run (step C) init as)
    (hdistinct : (w.gens C).Nodup) (rootPub : Bytes) (hroot : w.pubs[0]? = some rootPub)
    (ch : Chain) (hch : ch.verifyChain C rootPub = .ok ()) (j : Nat) (c : Checkpoint)
    (hj : c.epochIdx = j) (hc : c.verify C (some ch) rootPub none = .ok ())
    (hcerts : ∀ cert, some cert ∈ ch.certs →
      Unforged C w j cert.signedBy cert.canonical cert.signature)
    (hckpt : ∀ pub, ch.publicKeyAt j = .ok (some pub) →
      Unforged C w j pub c.canonical c.signature) :
    (∀ i ≤ j, ∃ k, w.pubs[i]? = some k ∧ ch.publicKeyAt i = .ok (some k)) ∧
    (∃ k c₀, w.pubs[j]? = some k ∧ (k, .checkpoint c₀) ∈ w.signed ∧ c₀.canonical = c.canonical) ∧
    ∀ k m, (k, m) ∈ w.signed → m.bytes = c.canonical → ∃ c₀, m = .checkpoint c₀ := by
  subst hrun hj
  have hw := run_inv hdistinct
  obtain ⟨genesis, rest, hacc⟩ := Chain.verifyChainWith_ok.mp hch
  obtain ⟨pub, hkey, hsigned⟩ := signed_of_verify hc
  have hat := hacc.publicKeyAt_eq
  have hlast := hkey
  rw [hat, Except.ok.injEq, Option.map_eq_some_iff] at hlast
  obtain ⟨last, hlast, rfl⟩ := hlast
  have h0 : ∀ d, (genesis :: rest)[0]? = some d → d.epoch = 0 := fun d hd => by
    cases hd
    exact hacc.epoch
  have hstart : ∀ d, (genesis :: rest)[0]? = some d →
      (run (step C) init as).pubs[0]? = some d.publicKey := fun d hd => by
    cases hd
    rw [hacc.publicKey]
    exact hroot
  have hcerts' : ∀ cert ∈ genesis :: rest, Unforged C (run (step C) init as) c.epochIdx
      cert.signedBy cert.canonical cert.signature := fun cert hmem =>
    hcerts cert (by rw [hacc.certs]; exact mem_map_of_mem hmem)
  have hagree := fun i hij d hd => chain_agrees hw hacc.linked h0 hcerts' hstart hlast
    (hckpt _ hkey) hsigned (i := i) hij (d := d) hd
  refine ⟨fun i hij => ?_, ?_, fun k m _ hm => Message.checkpoint_of_bytes hm⟩
  · have hlt : i < (genesis :: rest).length :=
      lt_of_le_of_lt hij (List.getElem?_eq_some_iff.mp hlast).1
    have hd := List.getElem?_eq_getElem hlt
    exact ⟨_, hagree i hij _ hd, by rw [hat, hd]; rfl⟩
  · have hk := hagree _ le_rfl last hlast
    obtain ⟨m, hm, hbytes⟩ := hckpt _ hkey (uncompromised_pub hw le_rfl hk) hsigned
    obtain ⟨c₀, rfl⟩ := Message.checkpoint_of_bytes hbytes
    exact ⟨_, c₀, hk, hm, hbytes⟩

def sampleKey₀ : LiveKey := ⟨List.replicate 32 1, none, lit "a"⟩

def sampleKey₁ : LiveKey := ⟨List.replicate 32 2, none, lit "b"⟩

def sampleStatement : Checkpoint where
  origin := lit "log"
  size := 0
  rootHash := []
  headHash := []
  timeNanos := 0
  epochIdx := 0
  keyID := keyIDOf Crypto.sample (List.replicate 32 1)

def sampleRun : List Action :=
  [.openSigner (lit "log") (.ok sampleKey₀) fun _ => .ok sampleKey₀, .resume {}, .resume {},
    .signCheckpoint sampleStatement none, .rotate (.ok sampleKey₁), .resume {}, .resume {},
    .resume {}]

def sampleCerts : List RotationCert :=
  let genesis := genesisCert Crypto.sample 0 sampleKey₀
  [genesis, rotationCert Crypto.sample 0 genesis sampleKey₁]

def sampleChain : Chain where
  origin := lit "log"
  certs := sampleCerts.map fun cert =>
    some { cert with signature := Crypto.sample.edSign sampleKey₀.priv cert.canonical }

def sampleCheckpoint : Checkpoint :=
  { sampleStatement with
    signature := Crypto.sample.edSign sampleKey₀.priv sampleStatement.canonical }

lemma sampleRun_signed : (run (step Crypto.sample) init sampleRun).signed =
    [(sampleKey₀.priv, .rotation (genesisCert Crypto.sample 0 sampleKey₀)),
      (sampleKey₀.priv, .checkpoint sampleStatement),
      (sampleKey₀.priv, .rotation (rotationCert Crypto.sample 0
        (genesisCert Crypto.sample 0 sampleKey₀) sampleKey₁))] := by
  rfl

theorem forward_security_sample :
    (∀ i ≤ 0, ∃ k, (run (step Crypto.sample) init sampleRun).pubs[i]? = some k ∧
      sampleChain.publicKeyAt i = .ok (some k)) ∧
    (∃ k c₀, (run (step Crypto.sample) init sampleRun).pubs[0]? = some k ∧
      (k, .checkpoint c₀) ∈ (run (step Crypto.sample) init sampleRun).signed ∧
      c₀.canonical = sampleCheckpoint.canonical) ∧
    ∀ k m, (k, m) ∈ (run (step Crypto.sample) init sampleRun).signed →
      m.bytes = sampleCheckpoint.canonical → ∃ c₀, m = .checkpoint c₀ := by
  refine forward_security sampleRun _ rfl (by decide +kernel) (List.replicate 32 1) (by rfl)
    sampleChain (by rfl) 0 sampleCheckpoint rfl (by rfl) (fun cert hcert => ?_) fun pub hpub => ?_
  · rw [Unforged, sampleRun_signed]
    simp only [sampleChain, sampleCerts, map_cons, map_nil, mem_cons,
      Option.some.injEq, not_mem_nil, or_false] at hcert
    rcases hcert with rfl | rfl
    · exact fun _ _ => ⟨_, .head _, rfl⟩
    · exact fun _ _ => ⟨_, .tail _ (.tail _ (.head _)), rfl⟩
  · rw [Unforged, sampleRun_signed]
    cases hpub
    exact fun _ _ => ⟨_, .tail _ (.head _), rfl⟩

end Fwdsec

end Stele
