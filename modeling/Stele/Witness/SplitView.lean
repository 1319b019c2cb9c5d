import Stele.Witness.Network

/-!
# Gossip detects split views

When a `gossipOne` call has fetched the statement of an honest peer, it compares the peer's roots
with the caller's. If the two have different roots at one size, the origin is flagged when the call
returns, and it stays flagged until `ClearFork` (`gossip_detects_split_view`).
-/

namespace Stele.Witness

open Lib List Function Option

section
variable {ι : Type} {C : Crypto} {origin : Bytes} {w : World} {p : Proc}

lemma Flagged.locked (hutf8 : Utf8 origin) (h : Flagged origin w) (hp : w.proc = some p)
    {body : Server → Dir → Server × Dir}
    (hbody : ((body p.server w.dir).1.forks = p.server.forks ∧
        (body p.server w.dir).2.forks = w.dir.forks) ∨
      ∃ (f : ForkEvidence) (save : Write),
        (body p.server w.dir).1.forks = p.server.forks.insert f.origin f ∧
        (body p.server w.dir).2.forks = save.put w.dir.forks
          (Dict.crossed ForkEvidence.reread (body p.server w.dir).1.forks)) :
    Flagged origin (w.locked p body) := by
  have hmem := h.mem p hp
  have hboth : (((body p.server w.dir).1.forks).lookup origin).isSome ∧
      (((body p.server w.dir).2.forks).lookup origin).isSome := by
    rcases hbody with ⟨hs, hd⟩ | ⟨f, save, hs, hd⟩
    · rw [hs, hd]
      exact ⟨hmem, h.disk⟩
    · have hnew : (((body p.server w.dir).1.forks).lookup origin).isSome := by
        rw [hs]
        exact insert_isSome (.inl hmem)
      exact ⟨hnew, by rw [hd]; exact put_isSome hutf8 h.disk hnew⟩
  refine ⟨hboth.2, fun q hq => ?_⟩
  cases hq
  exact hboth.1

lemma flagged_recordFork (hutf8 : Utf8 origin) {f : Server → ForkEvidence} {save : Write}
    (hf : (f p.server).origin = origin) (hsave : save.err = none) :
    Flagged origin (w.locked p fun s d => s.recordFork (f s) save d) := by
  have hnew : ((p.server.forks.insert (f p.server).origin (f p.server)).lookup origin).isSome :=
    insert_isSome (.inr hf)
  refine ⟨?_, fun q hq => ?_⟩
  · simp only [World.locked, Server.recordFork, Dir.saveForks, Write.put, save.renamed_of_ok hsave,
      ↓reduceIte]
    exact Dict.lookup_crossed_isSome _ hutf8 hnew
  · cases hq
    exact hnew

lemma recordAttestation_forks (peerID : Bytes) (ss : SignedSeen) (now : Int) (wf wa : Write)
    (s : Server) (d : Dir) :
    ((s.recordAttestation peerID ss now wf wa d).1.forks = s.forks ∧
      (s.recordAttestation peerID ss now wf wa d).2.1.forks = d.forks) ∨
    ∃ (f : ForkEvidence) (save : Write),
      (s.recordAttestation peerID ss now wf wa d).1.forks = s.forks.insert f.origin f ∧
      (s.recordAttestation peerID ss now wf wa d).2.1.forks = save.put d.forks
        (Dict.crossed ForkEvidence.reread (s.recordAttestation peerID ss now wf wa d).1.forks) := by
  simp only [Server.recordAttestation]
  cases (s.latest.get2 peerID ss.origin).bind (·.findContradiction ss) with
  | none => exact .inl ⟨rfl, rfl⟩
  | some => exact .inr ⟨_, wf, rfl, rfl⟩

variable {r : CallReads} {world : ι → World} {c c' : Call ι}

lemma Flagged.advance (hutf8 : Utf8 origin) (h : Flagged origin (world c.caller))
    (hadv : Advance C r world c w c') : Flagged origin w := by
  cases hadv with
  | recorded hproc =>
    exact h.locked hutf8 hproc (recordAttestation_forks _ _ _ _ _ _ _)
  | flagged hproc => exact h.locked hutf8 hproc (.inr ⟨_, _, rfl, rfl⟩)
  | _ => exact h

/-- **A call that returns has compared**, and it has flagged the origin when the maps disagree. -/
theorem Advance.detects (hadv : Advance C r world c w c') (hinv : c.Inv C)
    (hutf8 : Utf8 c.op.origin) (hsave : r.forks.err = none) (hbefore : c.stage ≠ .done)
    (hafter : c'.stage = .done) {theirs : Dict Nat Bytes} (htheirs : c'.theirs = some theirs) :
    ∃ ours, c'.ours = some ours ∧ ∀ n ourRoot theirRoot, ours.lookup n = some ourRoot →
      theirs.lookup n = some theirRoot → ourRoot ≠ theirRoot → Flagged c.op.origin w := by
  unfold Call.Inv at hinv
  cases hadv with
  | wait => exact absurd hafter hbefore
  | unfetched hstage =>
    rw [hstage] at hinv
    rw [hinv] at htheirs
    cases htheirs
  | fetched => cases hafter
  | refused hstage href =>
    rw [hstage] at hinv
    exact absurd hinv.1 href
  | recorded => cases hafter
  | agreed hproc hstage hfound =>
    rw [hstage] at hinv
    refine ⟨_, rfl, fun n ourRoot theirRoot hours htheirs' hne => ?_⟩
    rw [get2_rootsOf] at hours
    have hseen := hinv.2.symm.trans htheirs
    cases hseen
    exact absurd (findFork_eq_none hfound hours htheirs') hne
  | forked => cases hafter
  | flagged hproc hstage =>
    rw [hstage] at hinv
    have hours : c.ours ≠ none := hinv (by rw [htheirs]; exact some_ne_none _)
    obtain ⟨ours, hours⟩ := ne_none_iff_exists'.mp hours
    exact ⟨ours, hours, fun _ _ _ _ _ _ => flagged_recordFork hutf8 rfl hsave⟩

variable [DecidableEq ι]

/-- **A flag stays along every run of the network that does not clear it.** -/
theorem Flagged.net {n : Net ι} {i : ι} (hutf8 : Utf8 origin) (h : Flagged origin (n.world i))
    {a : NetAction ι} (ha : ∀ save, a ≠ .act i (.clearFork origin save)) :
    Flagged origin ((n.step C a).world i) := by
  cases a with
  | act j a =>
    have hupdate : Flagged origin
        (Function.update n.world j (Witness.step C (n.world j) a) i) := by
      by_cases hij : i = j
      · subst hij
        rw [update_self]
        refine h.step hutf8 ?_
        rintro save rfl
        exact ha save rfl
      · rw [update_of_ne hij]
        exact h
    cases a <;> exact hupdate
  | call => exact h
  | advance k r =>
    cases hk : n.calls[k]? with
    | none =>
      simp only [Net.step, hk]
      exact h
    | some c =>
      simp only [Net.step, hk]
      by_cases hij : i = c.caller
      · subst hij
        rw [update_self]
        exact h.advance hutf8 (advance_cases C r n.world c)
      · rw [update_of_ne hij]
        exact h

end

/-- **Gossip detects every split view.** When a `gossipOne` call of an honest witness about an
honest peer returns with the peer's statement, it has compared the peer's roots at the time of the
statement (`theirs`) with its own at the time of the comparison (`ours`). If they differ at a size,
the origin is flagged from then on until it is cleared, across restarts, and nothing of it is
cosigned. -/
theorem gossip_detects_split_view {ι : Type} [DecidableEq ι] {C : Crypto} (hC : Keys.Correct C)
    (ident : ι → Identity) {before : List (NetAction ι)} (hbefore : ∀ a ∈ before, a.Honest C ident)
    {k : Nat} {r : CallReads} (hr : r.forks.err = none) {c c' : Call ι}
    (hc : (run (Net.step C) (Net.init ι) before).calls[k]? = some c)
    (hc' : (run (Net.step C) (Net.init ι) (before ++ [.advance k r])).calls[k]? = some c')
    (hrunning : c.stage ≠ .done) (hdone : c'.stage = .done) {theirs : Dict Nat Bytes}
    (htheirs : c'.theirs = some theirs) :
    ∃ ours, c'.ours = some ours ∧
      ∀ size ourRoot theirRoot, ours.lookup size = some ourRoot →
        theirs.lookup size = some theirRoot → ourRoot ≠ theirRoot →
        ∀ after : List (NetAction ι),
          (∀ a ∈ after, ∀ save, a ≠ .act c.caller (.clearFork c.op.origin save)) →
          let w :=
            (run (Net.step C) (Net.init ι) (before ++ [.advance k r] ++ after)).world c.caller
          Flagged c.op.origin w ∧
            ∀ p (cp : Checkpoint) reads chain group sig, w.proc = some p →
              cp.origin = c.op.origin →
              (p.server.cosign C reads (some cp) chain group w.dir).2.2 ≠ .ok sig := by
  simp only [run_append, run_cons, run_nil] at hc' ⊢
  have hinv := net_inv hC hbefore
  have hmem := mem_of_getElem? hc
  have hutf8 := (hinv.peered c hmem).origin
  generalize run (Net.step C) (Net.init ι) before = n at hinv hc hc' hmem ⊢
  have hadv := advance_cases C r n.world c
  have hlt := (List.getElem?_eq_some_iff.mp hc).1
  simp only [Net.step, hc, List.getElem?_set_self hlt, Option.some.injEq] at hc'
  subst hc'
  obtain ⟨ours, hours, hflag⟩ := hadv.detects (hinv.calls c hmem) hutf8 hr hrunning hdone htheirs
  refine ⟨ours, hours, fun size ourRoot theirRoot hour htheir hne after hafter => ?_⟩
  have hnow : Flagged c.op.origin ((n.step C (.advance k r)).world c.caller) := by
    simp only [Net.step, hc, update_self]
    exact hflag size ourRoot theirRoot hour htheir hne
  have hlater : Flagged c.op.origin
      ((run (Net.step C) (n.step C (.advance k r)) after).world c.caller) := by
    refine run_invariant (I := fun n : Net ι => Flagged c.op.origin (n.world c.caller))
      (fun n a ha h => ?_) hnow hafter
    exact h.net hutf8 ha
  refine ⟨hlater, fun p cp reads chain group sig hp horigin => ?_⟩
  exact hlater.not_cosigned hp horigin reads chain group sig

def sampleIdent (isB : Bool) : Identity where
  id := if isB then lit "b" else lit "a"
  priv := ⟨List.replicate Keys.edPrivateKeySize (if isB then 9 else 7), length_replicate⟩

def sampleOperator : WatchedOperator := ⟨lit "log", operatorKey, []⟩

def cosignAt (isB : Bool) (c : Checkpoint) : List (NetAction Bool) :=
  let ident := sampleIdent isB
  [.act isB (.openServer ident.id (.ok (ident.priv.val, ident.qPriv))),
    .act isB (.addOperator (some sampleOperator) .done)] ++
  (cosignActions (.clean 1) (some c) (some soloChain) none).map (.act isB)

def splitView : List (NetAction Bool) :=
  cosignAt false soloCheckpoint ++ cosignAt true forkedCheckpoint ++
  [.call false true ⟨lit "b", lit "http://b", List.replicate 32 9, [], 0⟩ sampleOperator,
    .advance 0 {}, .advance 0 {}, .advance 0 {}]

lemma cosignAt_honest {isB : Bool} {c : Checkpoint} (hc : Utf8 c.origin) :
    ∀ a ∈ cosignAt isB c, a.Honest Keys.paired sampleIdent := by
  intro a ha
  simp only [cosignAt, cosignActions, map_cons, map_nil, mem_append, mem_cons,
    not_mem_nil, or_false] at ha
  rcases ha with (rfl | rfl) | rfl | rfl | rfl | rfl
  · exact ⟨rfl, fun k hk => (Except.ok.inj hk).symm⟩
  · trivial
  · rintro c' ⟨⟩
    exact hc
  · trivial
  · trivial
  · trivial

lemma splitView_honest : ∀ a ∈ splitView, a.Honest Keys.paired sampleIdent := by
  intro a ha
  simp only [splitView, mem_append, mem_cons, not_mem_nil, or_false] at ha
  rcases ha with (ha | ha) | rfl | rfl | rfl | rfl
  · exact cosignAt_honest (by decide) a ha
  · exact cosignAt_honest (by decide) a ha
  · exact ⟨rfl, by decide, by decide, by decide⟩
  · rfl
  · rfl
  · rfl

def Call.returned {ι : Type} (c : Call ι) : Bool :=
  match c.stage with
  | .done => true
  | _ => false

structure Summary where
  caller : Bool
  origin : Bytes
  returned : Bool
  ours : Option Bytes
  theirs : Option Bytes
  deriving DecidableEq

def Call.summary (c : Call Bool) (size : Nat) : Summary :=
  ⟨c.caller, c.op.origin, c.returned, c.ours.bind (·.lookup size), c.theirs.bind (·.lookup size)⟩

theorem gossip_detects_split_view_sample :
    Flagged (lit "log") ((run (Net.step Keys.paired) (Net.init Bool)
      (splitView ++ [.advance 0 {}] ++ [.act false .crash])).world false) := by
  have hcall : (run (Net.step Keys.paired) (Net.init Bool) splitView).calls[0]?.map
      (·.summary 0) = some ⟨false, lit "log", false, some (hex soloCheckpoint.rootHash),
        some (hex forkedCheckpoint.rootHash)⟩ := by
    decide +kernel
  have hcall' : (run (Net.step Keys.paired) (Net.init Bool)
      (splitView ++ [.advance 0 {}])).calls[0]?.map (·.summary 0) =
      some ⟨false, lit "log", true, some (hex soloCheckpoint.rootHash),
        some (hex forkedCheckpoint.rootHash)⟩ := by
    decide +kernel
  obtain ⟨c, hc, hsum⟩ := map_eq_some_iff.mp hcall
  obtain ⟨c', hc', hsum'⟩ := map_eq_some_iff.mp hcall'
  simp only [Call.summary, Summary.mk.injEq] at hsum hsum'
  obtain ⟨hcaller, horigin, hrunning, -⟩ := hsum
  obtain ⟨-, -, hdone, hours, htheirs⟩ := hsum'
  obtain ⟨theirs, htheirs, htheir⟩ := bind_eq_some_iff.mp htheirs
  have hstage : c.stage ≠ .done := by
    intro heq
    simp [Call.returned, heq] at hrunning
  have hstage' : c'.stage = .done := by
    unfold Call.returned at hdone
    split at hdone
    · assumption
    · cases hdone
  obtain ⟨ours, hours', hflag⟩ := gossip_detects_split_view Keys.paired_correct sampleIdent
    splitView_honest rfl hc hc' hstage hstage' htheirs
  rw [hours', bind_some] at hours
  have hresult := hflag 0 _ _ hours htheir (by decide +kernel) [.act false .crash]
    (fun a ha save => by rw [mem_singleton.mp ha]; simp)
  rw [hcaller, horigin] at hresult
  exact hresult.1

end Stele.Witness
