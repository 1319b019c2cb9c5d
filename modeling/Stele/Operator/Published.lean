import Stele.Operator.Invariant
import Stele.Audit.Verdict

/-!
# What an honest operator publishes

The answers of the API of a running operator, in every state of every honest run in which nobody
holds the log's lock.
-/

namespace Stele.Operator

open Lib List

open Keys (Signer KeyStore)
open Api Cmd

variable {C : Crypto} {R : RangeImpl Bytes} {RngHolds : R.Rng → List Bytes → Prop}
  {store : KeyStore} {group : Option Group} {s : State R} {signer : Signer} {p : Core.Proc R}

/-- The operator runs, and nobody holds the log's lock. -/
structure Running (s : State R) (signer : Signer) (p : Core.Proc R) : Prop where
  signer : s.keys.signer = some signer
  proc : s.log.proc = some p
  free : p.mu = none

def State.server (s : State R) (signer : Signer) (p : Core.Proc R) : Server R where
  db := s.log.db
  tree := p.tree
  signer := signer
  thresholdGroup := s.group

lemma Running.serves (hrun : Running s signer p) {es : List Entry}
    (hes : s.log.Upheld C RngHolds es) : (s.server signer p).Serves C RngHolds es :=
  ⟨hes.inv.db, hes.mirrored hrun.proc hrun.free⟩

section
variable (h : Inv C RngHolds store group s) (hrun : Running s signer p)
include h hrun

lemma Inv.good : Keys.Good C group (∃ dir, store = .file dir true) False s.keys.world
    signer.chain :=
  (h.keys.signer signer hrun.signer).good

lemma Inv.chain_eq : (s.server signer p).chain = .ok signer.chain := by
  obtain ⟨genesis, rest, hacc⟩ := (h.good hrun).accepted
  have hnone : none ∉ signer.chain.certs := by
    rw [hacc.certs]
    simp
  obtain ⟨certs, hcerts⟩ := Audit.mapM_deref hnone
  simp [Server.chain, State.server, hcerts]

lemma Inv.pubkey_eq {rootPub : Bytes} (hroot : signer.chain.rootPublicKey = .ok rootPub) :
    (s.server signer p).handlePubKey = .ok ⟨signer.origin, rootPub⟩ := by
  obtain ⟨genesis, rest, hacc⟩ := (h.good hrun).accepted
  obtain ⟨-, horigin, -⟩ := h.signer signer hrun.signer
  have hlast : signer.chain.certs.getLast? =
      some (some ((genesis :: rest).getLast (cons_ne_nil _ _))) := by
    rw [hacc.certs, getLast?_map, getLast?_eq_some_getLast (cons_ne_nil _ _)]
    rfl
  simp only [Server.handlePubKey, h.chain_eq hrun, ok_bind, hroot, Chain.activePublicKey,
    Chain.activeEpoch, hlast, respond_ok, pure_ok]
  rw [show (s.server signer p).signer.origin = signer.origin from rfl, coerce_of_utf8 horigin]

lemma Inv.keychain_eq :
    (s.server signer p).handleKeyChain = .ok (some signer.chain.crossed) ∧
      signer.chain.crossed.certs = signer.chain.certs := by
  refine ⟨?_, (h.good hrun).read⟩
  simp [Server.handleKeyChain, h.chain_eq hrun]

omit hrun in
lemma Inv.thresholdGroup_eq :
    (s.server signer p).handleThresholdGroup = .ok s.group := by
  unfold Server.handleThresholdGroup State.server
  cases hgroup : s.group with
  | none => rfl
  | some g => rw [Option.map_some, (h.mode g hgroup).2.1]

lemma Inv.checkpoint_endorsed {es : List Entry} (hes : s.log.Upheld C RngHolds es)
    {c : Checkpoint} (hc : (s.server signer p).handleCheckpoint = .ok (some c)) :
    Endorsed C group signer c ∧ Core.Commits C es c.size c.rootHash c.headHash := by
  unfold Server.handleCheckpoint at hc
  cases hlatest : Core.latestCheckpoint none none (s.server signer p).db with
  | error =>
    rw [hlatest] at hc
    cases hc
  | ok o =>
    rw [hlatest] at hc
    cases o with
    | none => cases hc
    | some =>
      cases hc
      obtain ⟨n, doc, hget, hdecode⟩ := Core.latestCheckpoint_ok hlatest
      obtain ⟨c₁, hdoc, hsize, hcommits⟩ := hes.recorded n doc hget
      obtain ⟨c₂, hdoc', hendorsed⟩ := (h.kept signer hrun.signer).recorded n doc hget
      -- both decode to the checkpoint that is served
      rw [hdoc, Doc.decode, Checkpoint.unmarshal_marshal, Except.ok.injEq] at hdecode
      have hsame : c₂.crossed = c₁.crossed := by
        rw [hdoc, Option.some.injEq] at hdoc'
        have hread := congrArg Checkpoint.unmarshal hdoc'
        rw [Checkpoint.unmarshal_marshal, Checkpoint.unmarshal_marshal] at hread
        exact (Except.ok.inj hread).symm
      subst hdecode
      refine ⟨?_, ?_⟩
      · rw [← hsame]
        exact hendorsed.crossed.crossed
      · subst hsize
        exact hcommits

omit h hrun in
lemma checkpoint_served {es : List Entry} (hes : s.log.Upheld C RngHolds es) {n : Nat}
    (hn : 0 < n) (hrecorded : (s.log.db.ckpt.get n).isSome = true) :
    ∃ c, (s.server signer p).handleCheckpoint = .ok (some c) ∧ n ≤ c.size := by
  obtain ⟨doc, hget⟩ := Option.isSome_iff_exists.mp hrecorded
  obtain ⟨⟨newest, last⟩, hlast⟩ : ∃ kv, s.log.db.ckpt.toList.getLast? = some kv := by
    cases hl : s.log.db.ckpt.toList.getLast? with
    | some kv => exact ⟨kv, rfl⟩
    | none =>
      rw [getLast?_eq_none_iff] at hl
      rw [OrdMap.get, hl] at hget
      cases hget
  have hle : n ≤ newest := OrdMap.le_of_getLast hget hlast
  obtain ⟨c, rfl, hsize, hcommits⟩ :=
    hes.recorded newest last (OrdMap.get_of_mem (mem_of_getLast? hlast))
  have hbound := hcommits.size_le
  have hdbsize : s.log.db.size = some (.u64 es.length) := by
    have hread := hes.inv.db.size
    unfold Db.readSize at hread
    split at hread
    · rw [Except.ok.injEq] at hread
      omega
    · rename_i m hm
      rw [hm, Except.ok.inj hread]
    · cases hread
  have hlatest := Core.latestCheckpoint_last hlast hdbsize hbound (Nat.lt_of_lt_of_le hn hle)
  rw [Doc.decode, Checkpoint.unmarshal_marshal] at hlatest
  refine ⟨c.crossed.crossed, ?_, ?_⟩
  · unfold Server.handleCheckpoint
    rw [show (s.server signer p).db = s.log.db from rfl, hlatest]
    rfl
  · show n ≤ c.size
    omega

end

/-! ## What passes without a group -/

section
variable {quant clocked : Prop} {w : Keys.World} {rootPub : Bytes}
  (hgood : Keys.Good C none quant clocked w signer.chain)
  (hroot : signer.chain.rootPublicKey = .ok rootPub)
include hgood hroot

lemma published_chain : signer.chain.crossed.verifyChain C rootPub = .ok () := by
  obtain ⟨root, hroot', hver⟩ := (hgood.of_certs hgood.read).verifies
  have hsame : signer.chain.crossed.rootPublicKey = signer.chain.rootPublicKey := by
    rw [Chain.rootPublicKey, Chain.rootPublicKey, hgood.read]
  rw [hsame, hroot, Except.ok.injEq] at hroot'
  subst hroot'
  exact hver

lemma Endorsed.accepted {c : Checkpoint} (h : Endorsed C group signer c)
    (hsingle : c.memberSigs = []) {v : Verifier} (horigin : v.origin = signer.origin)
    (hkey : v.rootPublicKey = rootPub) (hchain : v.chain = some signer.chain.crossed)
    (hmin : v.minWitnesses = 0) : v.checkpoint C c = .ok () := by
  have hsigned := h.signed
  rw [if_pos hsingle] at hsigned
  obtain ⟨root, hvouches⟩ := hsigned
  have hroot' := hvouches.rootPublicKey
  rw [hroot, Except.ok.injEq] at hroot'
  subst hroot'
  have hvouches' : Keys.Vouches C signer.chain.crossed rootPub c :=
    hvouches.append (l := []) (by rw [hgood.read, append_nil])
  have hver := hvouches'.verify (hgood.of_certs hgood.read)
  rw [Checkpoint.verify, if_neg (not_not.mpr hsingle)] at hver
  simp only [Verifier.checkpoint, bind_ok, ensure_ok, checkIf_ok, exists_const]
  refine ⟨h.origin.trans horigin.symm, (), ?_, fun hpos => ?_⟩
  · rw [Checkpoint.verify, if_neg (not_not.mpr hsingle), hchain, hkey]
    exact hver
  · rw [hmin] at hpos
    cases hpos

/-- **The chain and the checkpoint pass the checks of the report**, when the group has signed
neither. -/
theorem Inv.passing {P : ProofImpl Bytes} (hR : R.Lawful (hashChildren C) (emptyRoot C) RngHolds)
    (h : Inv C RngHolds store group s) (hrun : Running s signer p) {es : List Entry}
    (hes : s.log.Upheld C RngHolds es) (hfits : es.length < 2 ^ 63) {c : Checkpoint}
    (hc : (s.server signer p).handleCheckpoint = .ok (some c)) (hsingle : c.memberSigs = [])
    (served : Nat → Option Nat → List Core.Request) :
    Audit.Passing C ((s.server signer p).answers C P served) ⟨signer.origin, rootPub⟩
      signer.chain.crossed c where
  pubkey := h.pubkey_eq hrun hroot
  keychain := (h.keychain_eq hrun).1
  chain := published_chain hgood hroot
  checkpoint := hc
  witnesses := (h.checkpoint_endorsed hrun hes hc).1.witnesses
  accepted := (h.checkpoint_endorsed hrun hes hc).1.accepted hgood hroot hsingle rfl rfl rfl rfl
  size := ⟨es.length, (hrun.serves hes).handleSize_eq hR,
    (h.checkpoint_endorsed hrun hes hc).2.size_le⟩
  fits := Nat.lt_of_le_of_lt (h.checkpoint_endorsed hrun hes hc).2.size_le hfits

end

end Stele.Operator
