import Stele.Witness.Evidence

/-!
# Fork evidence that stays

There is one slot for each origin, and `Cosign`, `recordAttestationLocked` and `CompareWithPeer`
write it whatever it holds.
-/

namespace Stele.Witness

open Lib List Option AList

def Server.listForks (s : Server) : List ForkEvidence := s.forks.entries.map Sigma.snd

structure ForkEvidence.Shows (f : ForkEvidence) (origin : Bytes) (ours theirs : Checkpoint) :
    Prop where
  origin : f.origin = origin
  ourCheckpoint : f.ourCheckpoint = some ours
  theirCheckpoint : f.theirCheckpoint = some theirs

def ShownIn (forks : Dict Bytes ForkEvidence) (origin : Bytes) (ours theirs : Checkpoint) : Prop :=
  ∃ f, forks.lookup origin = some f ∧ f.Shows origin ours theirs

def World.forks (w : World) : Dict Bytes ForkEvidence :=
  match w.proc with
  | some p => p.server.forks
  | none => w.dir.forks

/-- The origins that an action brings are UTF-8: they come from JSON requests and answers, and from
the watch list. -/
def Utf8Origins : Action → Prop
  | .cosign _ _ c _ _ => ∀ c', c = some c' → Utf8 c'.origin
  | .compareWithPeer origin _ _ => Utf8 origin
  | .gossip _ op reply _ _ _ => Utf8 op.origin ∧ ∀ stmt, reply = .ok stmt → Utf8 stmt.origin
  | _ => True

def Task.origin : Task → Bytes
  | .compare origin _ _ => origin
  | .recordFork origin _ _ => origin

structure World.Utf8Forks (w : World) : Prop where
  disk : w.dir.forks.Utf8Keys
  mem : ∀ p, w.proc = some p → p.server.forks.Utf8Keys
  tasks : ∀ p, w.proc = some p → ∀ t ∈ p.tasks, Utf8 t.origin

/-- What a step has to meet once the two checkpoints are recorded: the fork is not cleared; the
witness does not crash while `forks.json` differs from what it has in memory; no peer contradicts
its last statement about the origin; and a comparison that records a fork of the origin has these
two checkpoints. -/
def Spares (C : Crypto) (origin : Bytes) (ours theirs : Checkpoint) (w : World) : Action → Prop
  | .clearFork o _ => o ≠ origin
  | .crash => ∀ p, w.proc = some p → w.dir.forks = Dict.crossed ForkEvidence.reread p.server.forks
  | .gossip peer _ reply _ _ _ => ∀ p, w.proc = some p → ∀ stmt, reply = .ok stmt →
    Server.acceptsStatement C peer stmt = .ok true → stmt.origin = origin →
    ∀ prev, p.server.latest.get2 peer.id origin = some prev → ¬ prev.Contradicts stmt
  | .resume i _ theirs' _ => ∀ p, w.proc = some p → ∀ size peerID,
    p.tasks[i]? = some (.recordFork origin size peerID) →
      p.server.checkpoints.get2 origin size = some ours ∧ theirs' = some theirs
  | _ => True

section
variable {C : Crypto} {w : World}

/-! ## Origins -/

lemma Utf8Keys.insert_fork {m : Dict Bytes ForkEvidence} (h : m.Utf8Keys) {f : ForkEvidence}
    (hf : Utf8 f.origin) : Dict.Utf8Keys (m.insert f.origin f) := by
  intro k hk
  rcases (mem_insert _).mp hk with rfl | hk
  · exact hf
  · exact h k hk

lemma put_utf8 {save : Write} {disk mem : Dict Bytes ForkEvidence} (hdisk : disk.Utf8Keys)
    (hmem : mem.Utf8Keys) :
    (save.put disk (Dict.crossed ForkEvidence.reread mem)).Utf8Keys := by
  rcases save.put_cases disk (Dict.crossed ForkEvidence.reread mem) with heq | heq
  · rw [heq]
    exact hdisk
  · rw [heq]
    exact hmem.crossed

variable {a : Action}

lemma Raise.utf8 {p : Proc} {f : ForkEvidence} {save : Write} (hwhy : Raise C p a f save)
    (ha : Utf8Origins a) (htasks : ∀ t ∈ p.tasks, Utf8 t.origin) : Utf8 f.origin := by
  cases hwhy with
  | cosign => exact ha _ rfl
  | contradiction => exact ha.2 _ rfl
  | compare free task => exact htasks _ (mem_of_getElem? task)

lemma TaskFrom.utf8 {p : Proc} {t : Task} (h : TaskFrom C p a t) (ha : Utf8Origins a)
    (htasks : ∀ t ∈ p.tasks, Utf8 t.origin) : Utf8 t.origin := by
  cases h with
  | old mem => exact htasks _ mem
  | gossip action =>
    subst action
    exact ha.1
  | call action =>
    subst action
    exact ha
  | found action task =>
    have horigin := htasks _ task
    exact horigin

lemma World.Utf8Forks.step (h : w.Utf8Forks) (ha : Utf8Origins a) :
    (Witness.step C w a).Utf8Forks := by
  cases step_cases C w a with
  | idle heq =>
    rw [heq]
    exact h
  | crash hproc hdir =>
    refine ⟨by rw [hdir]; exact h.disk, ?_, ?_⟩ <;>
    · intro p hp
      rw [hproc] at hp
      cases hp
  | opened id keys s hact hproc hdir hnew =>
    obtain ⟨k, -, rfl⟩ := newServer_ok hnew
    refine ⟨by rw [hdir]; exact h.disk, fun p hp => ?_, fun p hp t ht => ?_⟩
    · rw [hproc] at hp
      cases hp
      exact h.disk
    · rw [hproc] at hp
      cases hp
      cases ht
  | acted p hbefore hproc hdir =>
    have hmem := h.mem p hbefore
    have htasks := h.tasks p hbefore
    have hboth : (p.step C w.dir a).1.server.forks.Utf8Keys ∧
        (p.step C w.dir a).2.1.forks.Utf8Keys := by
      cases step_forks (C := C) (p := p) (d := w.dir) a with
      | same hm hd => exact ⟨by rw [hm]; exact hmem, by rw [hd]; exact h.disk⟩
      | raise f save hwhy hm hd =>
        have hnew := hm ▸ Utf8Keys.insert_fork hmem (hwhy.utf8 ha htasks)
        exact ⟨hnew, by rw [hd]; exact put_utf8 h.disk hnew⟩
      | clear o save hact hm hd =>
        have hnew : (p.step C w.dir a).1.server.forks.Utf8Keys := by
          rw [hm]
          exact fun k hk => hmem k (mem_erase.mp hk).2
        exact ⟨hnew, by rw [hd]; exact put_utf8 h.disk hnew⟩
    refine ⟨by rw [hdir]; exact hboth.2, fun p' hp' => ?_, fun p' hp' t ht => ?_⟩
    · rw [hproc] at hp'
      cases hp'
      exact hboth.1
    · rw [hproc] at hp'
      cases hp'
      exact (step_tasks a t ht).utf8 ha htasks

/-! ## Evidence -/

section
variable {origin : Bytes} {ours theirs : Checkpoint}
  {m : Dict Bytes ForkEvidence} {f : ForkEvidence}

lemma ShownIn.insert_ne (h : ShownIn m origin ours theirs) (hf : f.origin ≠ origin) :
    ShownIn (m.insert f.origin f) origin ours theirs := by
  obtain ⟨g, hg, hshows⟩ := h
  exact ⟨g, by rwa [lookup_insert_ne hf.symm], hshows⟩

lemma ShownIn.insert (hf : f.Shows origin ours theirs) :
    ShownIn (m.insert f.origin f) origin ours theirs :=
  ⟨f, by rw [hf.origin, lookup_insert], hf⟩

lemma ShownIn.listed {s : Server} (h : ShownIn s.forks origin ours theirs) :
    ∃ f ∈ s.listForks, f.Shows origin ours theirs := by
  obtain ⟨f, hf, hshows⟩ := h
  exact ⟨f, mem_map_of_mem (mem_lookup_iff.mp hf), hshows⟩

lemma ShownIn.crossed (h : ShownIn m origin ours theirs) (hutf8 : m.Utf8Keys)
    (hours : rereadCheckpoint ours = ours) (htheirs : rereadCheckpoint theirs = theirs) :
    ShownIn (Dict.crossed ForkEvidence.reread m) origin ours theirs := by
  obtain ⟨f, hf, hshows⟩ := h
  have horigin : Utf8 origin := by
    refine hutf8 origin ?_
    rw [← lookup_isSome, hf]
    rfl
  refine ⟨f.reread, by rw [Dict.lookup_crossed _ hutf8, hf]; rfl, ?_, ?_, ?_⟩
  · rw [ForkEvidence.reread, hshows.origin, coerce_of_utf8 horigin]
  · rw [ForkEvidence.reread, hshows.ourCheckpoint, map_some, hours]
  · rw [ForkEvidence.reread, hshows.theirCheckpoint, map_some, htheirs]

lemma Raise.shows {p : Proc} (hp : w.proc = some p)
    (h : ShownIn p.server.forks origin ours theirs) {a : Action}
    (ha : Spares C origin ours theirs w a) {save : Write} (hwhy : Raise C p a f save)
    (hf : f.origin = origin) : f.Shows origin ours theirs := by
  cases hwhy with
  | cosign free check =>
    -- the origin is flagged, so `Cosign` refuses
    obtain ⟨g, hg, -⟩ := h
    have hnone := (Server.checkCosign_ok.mp check).1
    simp only at hf
    rw [hf, hg] at hnone
    cases hnone
  | contradiction free accepted latest found =>
    simp only at hf
    subst hf
    obtain ⟨r, r', hr, hr', hne⟩ := SignedSeen.findContradiction_some found
    exact absurd ⟨_, r, r', hr, hr', hne⟩ (ha p hp _ rfl accepted rfl _ latest)
  | compare free task =>
    simp only [Server.peerFork] at hf
    subst hf
    obtain ⟨hours, htheirs⟩ := ha p hp _ _ task
    exact ⟨rfl, hours, htheirs⟩

lemma ShownIn.step (hutf8 : w.Utf8Forks) (hours : rereadCheckpoint ours = ours)
    (htheirs : rereadCheckpoint theirs = theirs) (h : ShownIn w.forks origin ours theirs)
    {a : Action} (ha : Spares C origin ours theirs w a) :
    ShownIn (Witness.step C w a).forks origin ours theirs := by
  cases step_cases C w a with
  | idle heq =>
    rw [heq]
    exact h
  | crash hproc hdir hact =>
    subst hact
    rw [World.forks, hproc]
    simp only [hdir]
    cases hbefore : w.proc with
    | none => rwa [World.forks, hbefore] at h
    | some p =>
      rw [World.forks, hbefore] at h
      rw [ha p hbefore]
      exact h.crossed (hutf8.mem p hbefore) hours htheirs
  | opened id keys s hact hproc hdir hnew hbefore =>
    obtain ⟨k, -, rfl⟩ := newServer_ok hnew
    rw [World.forks, hproc]
    rwa [World.forks, hbefore] at h
  | acted p hbefore hproc =>
    have hshown : ShownIn p.server.forks origin ours theirs := by rwa [World.forks, hbefore] at h
    rw [World.forks, hproc]
    simp only
    cases step_forks (C := C) (p := p) (d := w.dir) a with
    | same hm => rwa [hm]
    | raise f save hwhy hm =>
      rw [hm]
      by_cases hf : f.origin = origin
      · exact .insert (hwhy.shows hbefore hshown ha hf)
      · exact hshown.insert_ne hf
    | clear o save hact hm =>
      subst hact
      obtain ⟨g, hg, hshows⟩ := hshown
      exact ⟨g, by rw [hm, lookup_erase_ne (Ne.symm ha)]; exact hg, hshows⟩

/-- **Fork evidence stays until it is cleared.** From the step that records two checkpoints for an
origin on, `ListForks` returns evidence with these two in every state that is reached by steps that
spare it. -/
theorem evidence_retained {d : Dir} (hd : d.forks.Utf8Keys) {as bs : List Action} {a : Action}
    (hutf8 : ∀ x ∈ as ++ a :: bs, Utf8Origins x) {p : Proc}
    (hp : (run (Witness.step C) (init d) as).proc = some p) {f : ForkEvidence} {save : Write}
    (hwhy : Raise C p a f save) (hf : f.Shows origin ours theirs)
    (hours : rereadCheckpoint ours = ours) (htheirs : rereadCheckpoint theirs = theirs)
    (hbs : Along (Witness.step C) (Spares C origin ours theirs)
      (run (Witness.step C) (init d) (as ++ [a])) bs) {p' : Proc}
    (hp' : (run (Witness.step C) (init d) (as ++ a :: bs)).proc = some p') :
    ∃ f' ∈ p'.server.listForks, f'.Shows origin ours theirs := by
  have hinit : (run (Witness.step C) (init d) as).Utf8Forks :=
    run_invariant (fun _ _ ha h => h.step ha) ⟨hd, nofun, nofun⟩
      fun x hx => hutf8 x (mem_append_left _ hx)
  have hstep : run (Witness.step C) (init d) (as ++ [a]) =
      Witness.step C (run (Witness.step C) (init d) as) a := run_append _ _ _ _
  have hrecorded :
      ShownIn (run (Witness.step C) (init d) (as ++ [a])).forks origin ours theirs := by
    have hact : Witness.step C (run (Witness.step C) (init d) as) a =
        (run (Witness.step C) (init d) as).act C a := by cases hwhy <;> rfl
    rw [hstep, hact, World.act, hp]
    simp only [World.forks, hwhy.step_eq.1]
    exact .insert hf
  have hall : run (Witness.step C) (init d) (as ++ a :: bs) =
      run (Witness.step C) (run (Witness.step C) (init d) (as ++ [a])) bs := by
    rw [← run_append, append_assoc, singleton_append]
  have hinv := along_invariant
    (I := fun w : World => w.Utf8Forks ∧ ShownIn w.forks origin ours theirs)
    (fun w x h hx => ⟨h.1.step hx.2, h.2.step h.1 hours htheirs hx.1⟩)
    ⟨hstep ▸ hinit.step (hutf8 a (by simp)), hrecorded⟩
    (hbs.and_all fun x hx => hutf8 x (by simp [hx]))
  rw [← hall, World.forks, hp'] at hinv
  exact hinv.2.listed

end

end

def reopen : List Action := [.crash, .openServer (lit "w") (.ok (List.replicate 32 7, none))]

theorem evidence_retained_sample :
    ∃ p, (run (step .sample) (init {}) (cosignedOnce ++ secondCosign ::
        hear (oneRoot (lit "aa")) :: reopen)).proc = some p ∧
      ∃ f ∈ p.server.listForks, f.Shows (lit "log") soloCheckpoint forkedCheckpoint := by
  obtain ⟨p, existing, hp, hfree, hcheck, hconf⟩ := cosignedOnce_conflict
  have hours : (run (step .sample) (init {}) cosignedOnce).proc.map
      (fun p => p.server.checkpoints.get2 (lit "log") 0) = some (some soloCheckpoint) := by
    decide +kernel
  rw [hp, map_some, Option.some.injEq] at hours
  have hend : (run (step .sample) (init {}) (cosignedOnce ++ secondCosign ::
      hear (oneRoot (lit "aa")) :: reopen)).proc.isSome = true := by decide +kernel
  obtain ⟨p', hp'⟩ := isSome_iff_exists.mp hend
  refine ⟨p', hp', @evidence_retained .sample _ _ _ {} ?_ cosignedOnce
    (hear (oneRoot (lit "aa")) :: reopen) secondCosign ?_ p hp _ _
    (.cosign hfree hcheck hconf) ⟨rfl, hours, rfl⟩ (by decide +kernel)
    (by decide +kernel) ?_ p' hp'⟩
  · exact fun k hk => absurd hk (notMem_empty k)
  · simp only [cosignedOnce, cosignActions, secondCosign, hear, reopen, cons_append,
      nil_append, forall_mem_cons, Utf8Origins, true_and]
    refine ⟨?_, ?_, ?_, fun x hx => by cases hx⟩
    · rintro c ⟨⟩
      decide
    · rintro c ⟨⟩
      decide
    · refine ⟨by decide, ?_⟩
      rintro stmt ⟨⟩
      decide
  · refine ⟨fun q hq stmt _ _ _ prev hprev => ?_, fun q hq => ?_, trivial, trivial⟩
    · have hnone : (run (step .sample) (init {}) (cosignedOnce ++ [secondCosign])).proc.map
          (fun p => (p.server.latest.get2 samplePeer.id (lit "log")).isNone) = some true := by
        decide +kernel
      rw [hq, map_some, Option.some.injEq, isNone_iff_eq_none] at hnone
      cases hprev.symm.trans hnone
    · have hsaved : (run (step .sample) (init {}) (cosignedOnce ++ [secondCosign,
          hear (oneRoot (lit "aa"))])).proc.map (fun p => decide
            ((run (step .sample) (init {}) (cosignedOnce ++ [secondCosign,
              hear (oneRoot (lit "aa"))])).dir.forks.entries =
                (Dict.crossed ForkEvidence.reread p.server.forks).entries)) = some true := by
        decide +kernel
      have hq' : (run (step .sample) (init {}) (cosignedOnce ++ [secondCosign,
          hear (oneRoot (lit "aa"))])).proc = some q := hq
      rw [hq', map_some, Option.some.injEq, decide_eq_true_eq] at hsaved
      exact AList.ext hsaved

/-! ## Evidence that is lost -/

def shownAfter (as : List Action) : Option (List (Option Checkpoint × Option Checkpoint)) :=
  (run (step .sample) (init {}) as).proc.map fun p =>
    p.server.listForks.map fun f => (f.ourCheckpoint, f.theirCheckpoint)

def failedSave : Write := ⟨false, some (.errorf "no space left on device" []), nofun⟩

/-- **Two checkpoints that were recorded are lost**, to a peer that contradicts itself; to a peer
that claims a third root and has no checkpoint to show; and to a crash after a failed save. -/
theorem evidence_replaced :
    let third := (∅ : Dict Nat Bytes).insert 0 (lit "ff")
    let unsaved := Action.cosign 2 failedSave (some forkedCheckpoint) (some soloChain) none
    shownAfter (cosignedOnce ++ [secondCosign]) =
      some [(some soloCheckpoint, some forkedCheckpoint)] ∧
    shownAfter (cosignedOnce ++ [secondCosign, hear (oneRoot (lit "aa")),
      hear (oneRoot (lit "bb"))]) = some [(none, none)] ∧
    shownAfter (cosignedOnce ++ [secondCosign, hear third, .resume 0 4 none .done,
      .resume 0 5 none .done]) = some [(some soloCheckpoint, none)] ∧
    shownAfter (cosignedOnce ++ [unsaved]) = some [(some soloCheckpoint, some forkedCheckpoint)] ∧
    shownAfter (cosignedOnce ++ [unsaved] ++ reopen) = some [] := by
  decide +kernel

end Stele.Witness
