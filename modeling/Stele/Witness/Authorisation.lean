import Stele.Verify.Verifier
import Stele.Witness.Server

/-!
# Who a witness signs for

A witness knows an operator by its root key. A `Cosign` request brings the rest: the checkpoint, the
rotation chain and the threshold group.
-/

namespace Stele.Witness

open Lib

variable (C : Crypto)

/-- The operator's keys vouch for a group: a certificate of a chain that verifies under the root
names it. The certificates up to there are signed by the epoch keys, not by a group. -/
def Vouched (root : Bytes) (chain : Option Chain) (group : Option Group) : Prop :=
  ∃ ch g d, chain = some ch ∧ group = some g ∧ g.digest C = .ok d ∧
    ∃ certs, certs <+: ch.certs ∧ Chain.verifyChain C { ch with certs } root = .ok () ∧
      ∃ cert, some cert ∈ certs ∧ cert.thresholdGroupDigest = hex d

/-- A request shows that the operator with this root key stands behind the checkpoint. -/
inductive Authorised (root : Bytes) (c : Checkpoint) (chain : Option Chain)
    (group : Option Group) : Prop
  | epochKey {ch : Chain} {pub qpub : Bytes} (hchain : chain = some ch)
    (signed : c.ChainSigned C ch root pub qpub)
  | group (vouched : Vouched C root chain group) (signed : c.GroupSigned C group)

def Backed (s : Server) (c : Checkpoint) (chain : Option Chain) (group : Option Group) : Prop :=
  ∃ op, s.operators.lookup c.origin = some op ∧ Authorised C op.rootPublicKey c chain group

/-- The requests that cannot abuse the choice of the group: the witness refuses them on what it has
recorded, or they carry no member signatures, or their group does not accept the checkpoint, or the
operator stands behind them anyway. -/
def GroupHarmless (s : Server) (c : Checkpoint) (chain : Option Chain) (group : Option Group) :
    Prop :=
  s.forks.lookup c.origin ≠ none ∨ s.conflict c ≠ none ∨ c.memberSigs = [] ∨
    ¬ c.GroupSigned C group ∨
    ∀ op, s.operators.lookup c.origin = some op →
      Vouched C op.rootPublicKey chain group ∨
      ∃ ch pub qpub, chain = some ch ∧ c.ChainSigned C ch op.rootPublicKey pub qpub

variable {C} {s : Server} {c : Checkpoint} {chain : Option Chain} {group : Option Group}

lemma authorised_of_single {root : Bytes} (hsingle : c.memberSigs = [])
    (h : c.verify C chain root group = .ok ()) : Authorised C root c chain group := by
  rw [Checkpoint.verify_ok, if_neg (not_not.mpr hsingle)] at h
  obtain ⟨ch, pub, qpub, hchain, hsigned⟩ := h
  exact .epochKey hchain hsigned

lemma backed_of_harmless (hcheck : s.checkCosign C c chain group = .ok ())
    (hconf : s.conflict c = none) (h : GroupHarmless C s c chain group) :
    Backed C s c chain group := by
  obtain ⟨hfork, op, hop, hverify⟩ := Server.checkCosign_ok.mp hcheck
  refine ⟨op, hop, ?_⟩
  by_cases hsingle : c.memberSigs = []
  · exact authorised_of_single hsingle hverify
  · rw [Checkpoint.verify_ok, if_pos hsingle] at hverify
    rcases h with h | h | h | h | h
    · exact absurd hfork h
    · exact absurd hconf h
    · exact absurd h hsingle
    · exact absurd hverify h
    · rcases h op hop with hv | ⟨ch, pub, qpub, hchain, hsigned⟩
      · exact .group hv hverify
      · exact .epochKey hchain hsigned

lemma check_of_not_harmless (h : ¬ GroupHarmless C s c chain group) :
    s.checkCosign C c chain group = .ok () ∧ s.conflict c = none ∧ ¬ Backed C s c chain group := by
  simp only [GroupHarmless, not_or, not_not, ne_eq, not_forall, not_exists, not_and] at h
  obtain ⟨hfork, hconf, hmulti, hsigned, op, hop, hvouched, hchain⟩ := h
  refine ⟨Server.checkCosign_ok.mpr ⟨hfork, op, hop, ?_⟩, hconf, ?_⟩
  · rw [Checkpoint.verify_ok, if_pos hmulti]
    exact hsigned
  · rintro ⟨op', hop', hauth⟩
    rw [hop] at hop'
    cases hop'
    cases hauth with
    | epochKey hch hs => exact hchain _ _ _ hch hs
    | group hv => exact hvouched hv

lemma cosign_clean (hcheck : s.checkCosign C c chain group = .ok ())
    (hconf : s.conflict c = none) (now : Int) (d : Dir) :
    (s.cosign C (.clean now) (some c) chain group d).2.2 = .ok ((s.note c).witnessSig C now c) :=
  Server.cosign_ok.mpr ⟨c, rfl, hcheck, hconf, rfl, rfl, rfl⟩

/-- **When a signature is pinned to the registered operator**, for a direct call and for the
endpoint, which asks for a chain as well. -/
theorem cosign_pinned_iff (C : Crypto) (s : Server) (c : Checkpoint) (chain : Option Chain)
    (group : Option Group) :
    ((∀ r d sig, (s.cosign C r (some c) chain group d).2.2 = .ok sig →
        Backed C s c chain group) ↔ GroupHarmless C s c chain group) ∧
    ((∀ r d status sig,
        (handleCosign C r true (.ok ⟨some c, chain, group⟩) s d).2.2 = .ok (.sig status sig) →
        Backed C s c chain group) ↔ chain = none ∨ GroupHarmless C s c chain group) := by
  have hback {r d sig} (h : GroupHarmless C s c chain group)
      (hsig : (s.cosign C r (some c) chain group d).2.2 = .ok sig) : Backed C s c chain group := by
    obtain ⟨c', hc', hcheck, hconf, -⟩ := Server.cosign_ok.mp hsig
    cases hc'
    exact backed_of_harmless hcheck hconf h
  refine ⟨⟨fun h => ?_, fun h r d sig hsig => hback h hsig⟩, fun h => ?_, ?_⟩
  · by_contra hharm
    obtain ⟨hcheck, hconf, hnot⟩ := check_of_not_harmless hharm
    exact hnot (h (.clean 0) {} _ (cosign_clean hcheck hconf 0 {}))
  · by_contra hharm
    obtain ⟨hchain, hharm⟩ := not_or.mp hharm
    obtain ⟨hcheck, hconf, hnot⟩ := check_of_not_harmless hharm
    have hsig := cosign_clean hcheck hconf 0 {}
    exact hnot (h _ _ 200 _ (handleCosign_sig.mpr ⟨rfl, rfl, nofun, hchain, hsig⟩))
  · rintro h r d status sig hsig
    obtain ⟨-, -, -, hchain, hcosign⟩ := handleCosign_sig.mp hsig
    exact hback (h.resolve_left hchain) hcosign

def callerKey : Bytes := List.replicate 32 9

def callerStatement : Checkpoint where
  origin := lit "log"
  size := 7
  rootHash := List.replicate 32 0
  headHash := []
  timeNanos := 0
  epochIdx := 0
  keyID := []
  thresholdGroupDigest := hex ((guardGroup.digest .sample).toOption.getD [])

def callerCheckpoint : Checkpoint :=
  { callerStatement with
    memberSigs := [some {
      memberID := lit "g"
      publicKey := callerKey
      signature := Crypto.sample.edSign callerKey callerStatement.canonical }] }

def emptyChain : Chain := ⟨[], [], []⟩

def watching : Server where
  id := lit "w"
  priv := List.replicate 32 7
  qPriv := none
  operators := (∅ : Dict Bytes WatchedOperator).insert (lit "log") ⟨lit "log", operatorKey, []⟩
  seen := ∅
  checkpoints := ∅
  peers := ∅
  forks := ∅
  latest := ∅

/-- **A caller who chooses the group gets a signature** for a checkpoint of the operator's log that
none of the operator's keys has signed. -/
theorem cosign_group_chosen :
    (watching.cosign .sample (.clean 0) (some callerCheckpoint) (some emptyChain)
      (some guardGroup) {}).2.2 = .ok (watching.witnessSig .sample 0 callerCheckpoint) ∧
    (handleCosign .sample (.clean 0) true
      (.ok ⟨some callerCheckpoint, some emptyChain, some guardGroup⟩) watching {}).2.2 =
        .ok (.sig 200 (watching.witnessSig .sample 0 callerCheckpoint)) ∧
    ¬ Backed .sample watching callerCheckpoint (some emptyChain) (some guardGroup) := by
  refine ⟨by rfl, by rfl, ?_⟩
  rintro ⟨op, -, hauth⟩
  cases hauth with
  | epochKey hchain hsigned =>
    cases hchain
    have hok := hsigned.chain_ok
    cases hok
  | group hvouched _ =>
    obtain ⟨ch, g, d, hch, -, -, certs, hpre, -, cert, hcert, -⟩ := hvouched
    cases hch
    rw [show certs = [] from List.prefix_nil.mp hpre] at hcert
    cases hcert

end Stele.Witness
