import Stele.Witness.Contradictions

/-!
# Fork evidence

`Cosign` and `CompareWithPeer` record two checkpoints as evidence of a fork. The witness's own
checkpoint comes from a map that is saved after the recorded roots, and the peer's checkpoint is
whatever the peer sends.
-/

namespace Stele.Witness

open Lib List Option AList

def Verified (C : Crypto) (root : Bytes) (c : Checkpoint) : Prop :=
  ∃ chain group, c.verify C chain root group = .ok ()

structure Signed (C : Crypto) (root origin : Bytes) (size : Nat) (c : Checkpoint) : Prop where
  origin : c.origin = origin
  size : c.size = size
  verified : Verified C root c

/-- The evidence holds two checkpoints of its origin and size with different roots, and both verify
for the operator. -/
def ForkEvidence.Proof (C : Crypto) (root : Bytes) (f : ForkEvidence) : Prop :=
  ∃ ours theirs, f.ourCheckpoint = some ours ∧ f.theirCheckpoint = some theirs ∧
    Signed C root f.origin f.size ours ∧ Signed C root f.origin f.size theirs ∧
    ours.rootHash ≠ theirs.rootHash

/-- What a step has to meet, where `key` is the root key that an origin is registered with: a
restart finds the checkpoint of every recorded root, an origin keeps its root key, and a peer that
is asked for its checkpoint sends one of that origin and size with another root that verifies.
Requests are JSON, so their strings are read back as they are. -/
def Candid (C : Crypto) (key : Bytes → Bytes) (w : World) : Action → Prop
  | .openServer _ _ => ∀ o n, w.dir.seen.get2 o n ≠ none → w.dir.checkpoints.get2 o n ≠ none
  | .cosign _ _ c _ _ => ∀ c', c = some c' → Utf8 c'.origin ∧ rereadCheckpoint c' = c'
  | .addOperator op _ => ∀ op', op = some op' → Utf8 op'.origin ∧ op'.rootPublicKey = key op'.origin
  | .resume i _ theirs _ => ∀ p, w.proc = some p →
    ∀ o n q, p.tasks[i]? = some (.recordFork o n q) →
      ∃ c, theirs = some c ∧ Signed C (key o) o n c ∧ p.server.seen.get2 o n ≠ some (hex c.rootHash)
  | _ => True

/-! ## The invariant -/

structure Kept (C : Crypto) (key : Bytes → Bytes) (seen : Seen) (o : Bytes) (n : Nat)
    (c : Checkpoint) : Prop where
  signed : Signed C (key o) o n c
  reread : rereadCheckpoint c = c
  seen : seen.get2 o n = some (hex c.rootHash)

structure Registered (key : Bytes → Bytes) (o : Bytes) (op : WatchedOperator) : Prop where
  origin : op.origin = o
  utf8 : Utf8 o
  rootPublicKey : op.rootPublicKey = key o

/-- A running witness: every recorded root has its checkpoint, and the other way round. -/
structure Proc.Backed (C : Crypto) (key : Bytes → Bytes) (p : Proc) (d : Dir) : Prop where
  keys : p.server.checkpoints.Utf8Keys
  kept : ∀ o n c, p.server.checkpoints.get2 o n = some c → Kept C key p.server.seen o n c
  backed : ∀ o n, p.server.seen.get2 o n ≠ none → p.server.checkpoints.get2 o n ≠ none
  saved : ∀ c, p.cosigning = some (.saveCheckpoints, c) → p.server.seen.Sub d.seen
  tasks : ∀ o n q, .recordFork o n q ∈ p.tasks → p.server.seen.get2 o n ≠ none
  operators : ∀ o op, p.server.operators.lookup o = some op → Registered key o op

structure World.Backed (C : Crypto) (key : Bytes → Bytes) (w : World) : Prop where
  inv : w.Inv
  keys : w.dir.checkpoints.Utf8Keys
  kept : ∀ o n c, w.dir.checkpoints.get2 o n = some c → Kept C key w.dir.seen o n c
  operators : ∀ op ∈ w.dir.operators, Registered key op.origin op
  proc : ∀ p, w.proc = some p → p.Backed C key w.dir

section
variable {C : Crypto} {key : Bytes → Bytes} {w : World} {p : Proc} {d : Dir} {o : Bytes}

lemma Registered.reread {op : WatchedOperator} (h : Registered key o op) :
    Registered key op.reread.origin op.reread := by
  have horigin : op.reread.origin = o := by
    show coerce op.origin = o
    rw [h.origin, coerce_of_utf8 h.utf8]
  rw [horigin]
  exact ⟨horigin, h.utf8, h.rootPublicKey⟩

lemma foldl_operators {ops : List WatchedOperator} {m : Dict Bytes WatchedOperator}
    (hops : ∀ op ∈ ops, Registered key op.origin op)
    (hm : ∀ o op, m.lookup o = some op → Registered key o op) {op : WatchedOperator}
    (h : (ops.foldl (fun m op => m.insert op.origin op) m).lookup o = some op) :
    Registered key o op := by
  induction ops generalizing m with
  | nil => exact hm o op h
  | cons first rest ih =>
    refine ih (fun op hop => hops op (mem_cons_of_mem _ hop)) (fun o' op' hop' => ?_) h
    by_cases heq : o' = first.origin
    · subst heq
      rw [lookup_insert, Option.some.injEq] at hop'
      subst hop'
      exact hops _ mem_cons_self
    · rw [lookup_insert_ne heq] at hop'
      exact hm o' op' hop'

variable {a : Action} {c : Checkpoint}

lemma step_phase (h : (p.step C d a).1.cosigning = some (.saveCheckpoints, c)) :
    (p.cosigning = some (.saveCheckpoints, c) ∧ (p.step C d a).1.server = p.server ∧
      (p.step C d a).2.1 = d) ∨
    ∃ save, p.cosigning = some (.saveSeen, c) ∧ save.err = none ∧
      (p.step C d a).1.server = p.server ∧ (p.step C d a).2.1 = d.saveSeen save p.server := by
  have hacts : Acts C p d a (p.step C d a) := step_acts a
  generalize p.step C d a = out at hacts h ⊢
  cases hacts with
  | idle => exact .inl ⟨h, rfl, rfl⟩
  | note => cases h
  | @saveSeen save c' phase =>
    obtain ⟨herr, rfl⟩ := next_phase h
    exact .inr ⟨save, phase, herr, rfl, rfl⟩
  | saveCheckpoints =>
    obtain ⟨-, heq⟩ := ite_none_right_eq_some.mp h
    cases heq
  | sign => cases h
  | fork free => cases free.symm.trans h
  | addOperator free => cases free.symm.trans h
  | addPeer free => cases free.symm.trans h
  | clearFork free => cases free.symm.trans h
  | heard free => cases free.symm.trans h
  | contradicted free => cases free.symm.trans h
  | record free => cases free.symm.trans h

inductive OperatorsStep (p : Proc) (d : Dir) (a : Action) (p' : Proc) (d' : Dir) : Prop
  | same (mem : p'.server.operators = p.server.operators) (disk : d'.operators = d.operators)
  | added (op : WatchedOperator) (save : Write) (action : a = .addOperator (some op) save)
      (mem : p'.server.operators = p.server.operators.insert op.origin op)
      (disk : d'.operators = save.put d.operators
        (p'.server.operators.entries.map fun e => e.2.reread))

lemma step_operators (a : Action) : OperatorsStep p d a (p.step C d a).1 (p.step C d a).2.1 := by
  have hacts : Acts C p d a (p.step C d a) := step_acts a
  generalize p.step C d a = out at hacts ⊢
  cases hacts with
  | addOperator free added =>
    subst added
    exact .added _ _ rfl rfl rfl
  | _ =>
    subst_vars
    exact .same rfl rfl

lemma operators_step (ha : Candid C key w a) (hp : p.Backed C key d)
    (hd : ∀ op ∈ d.operators, Registered key op.origin op) :
    (∀ o op, (p.step C d a).1.server.operators.lookup o = some op → Registered key o op) ∧
      ∀ op ∈ (p.step C d a).2.1.operators, Registered key op.origin op := by
  cases step_operators (C := C) (p := p) (d := d) a with
  | same hmem hdisk =>
    rw [hmem, hdisk]
    exact ⟨hp.operators, hd⟩
  | added op save hact hmem hdisk =>
    subst hact
    obtain ⟨hutf8, hkey⟩ := ha op rfl
    have hnew : ∀ o op', (p.step C d (.addOperator (some op) save)).1.server.operators.lookup o =
        some op' → Registered key o op' := by
      intro o op' hop'
      rw [hmem] at hop'
      by_cases heq : o = op.origin
      · subst heq
        rw [lookup_insert, Option.some.injEq] at hop'
        subst hop'
        exact ⟨rfl, hutf8, hkey⟩
      · rw [lookup_insert_ne heq] at hop'
        exact hp.operators o op' hop'
    refine ⟨hnew, fun op' hop' => ?_⟩
    rw [hdisk] at hop'
    rcases save.put_cases d.operators
        ((p.step C d (.addOperator (some op) save)).1.server.operators.entries.map
          fun e => e.2.reread) with heq | heq
    · rw [heq] at hop'
      exact hd op' hop'
    · rw [heq] at hop'
      obtain ⟨e, he, rfl⟩ := mem_map.mp hop'
      exact (hnew e.1 e.2 (mem_lookup_iff.mpr he)).reread

lemma Kept.note {s : Server} (hconf : s.conflict c = none)
    (hkept : ∀ o n c', s.checkpoints.get2 o n = some c' → Kept C key s.seen o n c')
    (hsigned : Signed C (key c.origin) c.origin c.size c) (hreread : rereadCheckpoint c = c) :
    ∀ o n c', (s.note c).checkpoints.get2 o n = some c' → Kept C key (s.note c).seen o n c' := by
  intro o n c' hget
  have hsub : s.seen.Sub (s.note c).seen := Dict.sub_put2 (Server.conflict_eq_none.mp hconf)
  rcases Dict.get2_put2_cases hget with ⟨rfl, rfl, rfl⟩ | hold
  · exact ⟨hsigned, hreread, Dict.get2_put2_self _ _ _ _⟩
  · obtain ⟨hs, hr, hseen⟩ := hkept o n c' hold
    exact ⟨hs, hr, hsub hseen⟩

lemma Kept.mono {m m' : Seen} {n : Nat} (h : Kept C key m o n c) (hsub : m.Sub m') :
    Kept C key m' o n c := ⟨h.signed, h.reread, hsub h.seen⟩

lemma sub_ne_none {m m' : Seen} (hsub : m.Sub m') {n : Nat} (h : m.get2 o n ≠ none) :
    m'.get2 o n ≠ none := by
  obtain ⟨r, hr⟩ := ne_none_iff_exists'.mp h
  rw [hsub hr]
  exact some_ne_none r

lemma step_seen_sub (a : Action) : p.server.seen.Sub (p.step C d a).1.server.seen := by
  cases step_seen (C := C) (p := p) (d := d) a with
  | same hseen =>
    rw [hseen]
    exact .refl _
  | note now save c chain group hact hcheck hconf hserver =>
    rw [hserver]
    exact Dict.sub_put2 (Server.conflict_eq_none.mp hconf)
  | saveSeen save hserver =>
    rw [hserver]
    exact .refl _
  | saveCheckpoints save c hphase hserver =>
    rw [hserver]
    exact .refl _

/-- **One action keeps roots and checkpoints together**, in memory and on disk. -/
theorem records_step (ha : Candid C key w a) (hinv : p.Inv d) (hd : d.seen.Utf8Keys)
    (hp : p.Backed C key d) (hkeys : d.checkpoints.Utf8Keys)
    (hkept : ∀ o n c, d.checkpoints.get2 o n = some c → Kept C key d.seen o n c) :
    let p' := (p.step C d a).1
    let d' := (p.step C d a).2.1
    (p'.server.checkpoints.Utf8Keys ∧
      (∀ o n c, p'.server.checkpoints.get2 o n = some c → Kept C key p'.server.seen o n c) ∧
      ∀ o n, p'.server.seen.get2 o n ≠ none → p'.server.checkpoints.get2 o n ≠ none) ∧
    d'.checkpoints.Utf8Keys ∧
      ∀ o n c, d'.checkpoints.get2 o n = some c → Kept C key d'.seen o n c := by
  intro p' d'
  have hmem := And.intro hp.keys (And.intro hp.kept hp.backed)
  cases step_seen (C := C) (p := p) (d := d) a with
  | same hseen hckpt hdisk hdiskCkpt =>
    simp only [p', d', hseen, hckpt, hdisk, hdiskCkpt]
    exact ⟨hmem, hkeys, hkept⟩
  | note now save c chain group hact hcheck hconf hserver hdir =>
    subst hact
    obtain ⟨hutf8, hreread⟩ := ha c rfl
    obtain ⟨-, op, hop, hverify⟩ := Server.checkCosign_ok.mp hcheck
    have hsigned : Signed C (key c.origin) c.origin c.size c := by
      refine ⟨rfl, rfl, chain, group, ?_⟩
      rw [← (hp.operators _ op hop).rootPublicKey]
      exact hverify
    simp only [p', d', hserver, hdir]
    refine ⟨⟨hp.keys.put2 hutf8 _ _, Kept.note hconf hp.kept hsigned hreread, ?_⟩, hkeys, hkept⟩
    intro o n hne
    have hne : (p.server.seen.put2 c.origin c.size (hex c.rootHash)).get2 o n ≠ none := hne
    show (p.server.checkpoints.put2 c.origin c.size c).get2 o n ≠ none
    by_cases heq : o = c.origin ∧ n = c.size
    · obtain ⟨rfl, rfl⟩ := heq
      rw [Dict.get2_put2_self]
      exact some_ne_none c
    · rw [Dict.get2_put2_ne _ _ heq] at hne ⊢
      exact hp.backed o n hne
  | saveSeen save hserver hdir =>
    simp only [p', d', hserver, hdir]
    refine ⟨hmem, hkeys, fun o n c hget => ?_⟩
    exact (hkept o n c hget).mono (saveSeen_between hinv hd save).2.1
  | saveCheckpoints save c hphase hserver hdir =>
    simp only [p', d', hserver, hdir]
    refine ⟨hmem, ?_⟩
    unfold Dir.saveCheckpoints
    rcases save.put_cases d.checkpoints
        (Dict.crossed (Dict.mapValues rereadCheckpoint) p.server.checkpoints) with heq | heq
    · simp only [heq]
      exact ⟨hkeys, hkept⟩
    · simp only [heq]
      refine ⟨hp.keys.crossed, fun o n c' hget => ?_⟩
      rw [Dict.get2_crossed_mapValues _ hp.keys, map_eq_some_iff] at hget
      obtain ⟨c₀, hc₀, rfl⟩ := hget
      have hkept₀ := hp.kept o n c₀ hc₀
      rw [hkept₀.reread]
      exact hkept₀.mono (hp.saved c hphase)

lemma Candid.isUtf8 (ha : Candid C key w a) : a.IsUtf8 := by
  cases a with
  | cosign => exact fun c' hc' => (ha c' hc').1
  | _ => trivial

lemma World.Backed.step (h : w.Backed C key) (ha : Candid C key w a) :
    (Witness.step C w a).Backed C key := by
  have hinv : (Witness.step C w a).Inv := step_inv h.inv ha.isUtf8
  cases step_cases C w a with
  | idle heq =>
    rw [heq]
    exact h
  | crash hproc hdir =>
    refine ⟨hinv, ?_, ?_, ?_, fun p hp => ?_⟩
    · rw [hdir]
      exact h.keys
    · rw [hdir]
      exact h.kept
    · rw [hdir]
      exact h.operators
    · rw [hproc] at hp
      cases hp
  | opened id keys s hact hproc hdir hnew =>
    subst hact
    obtain ⟨k, -, rfl⟩ := newServer_ok hnew
    refine ⟨hinv, ?_, ?_, ?_, fun p hp => ?_⟩
    · rw [hdir]
      exact h.keys
    · rw [hdir]
      exact h.kept
    · rw [hdir]
      exact h.operators
    · rw [hproc] at hp
      cases hp
      refine ⟨h.keys, h.kept, ha, fun c hc => ?_, fun o n q hq => ?_, fun o op hop => ?_⟩
      · cases hc
      · cases hq
      · exact foldl_operators h.operators (fun o op hop => by cases hop) hop
  | acted p hp hproc hdir =>
    have hback := h.proc p hp
    obtain ⟨⟨hkeys, hkept, hbacked⟩, hdkeys, hdkept⟩ :=
      records_step ha (h.inv.proc p hp) h.inv.utf8 hback h.keys h.kept
    obtain ⟨hops, hdops⟩ := operators_step ha hback h.operators
    refine ⟨hinv, ?_, ?_, ?_, fun p' hp' => ?_⟩
    · rw [hdir]
      exact hdkeys
    · rw [hdir]
      exact hdkept
    · rw [hdir]
      exact hdops
    · rw [hproc] at hp'
      cases hp'
      refine ⟨hkeys, hkept, hbacked, fun c hc => ?_, fun o n q hq => ?_, hops⟩
      · rw [hdir]
        rcases step_phase hc with ⟨hsame, hserver, hd⟩ | ⟨save, hphase, herr, hserver, hd⟩
        · rw [hserver, hd]
          exact hback.saved c hsame
        · rw [hserver, hd]
          exact saveSeen_ok (h.inv.proc p hp) herr
      · refine sub_ne_none (step_seen_sub a) ?_
        cases step_tasks (C := C) (d := w.dir) a _ hq with
        | old hmem => exact hback.tasks o n q hmem
        | found hact htask hfound =>
          rw [(findFork_some hfound).1]
          exact some_ne_none _

lemma World.Backed.init : (Witness.init {}).Backed C key where
  inv := init_inv nofun
  keys k hk := by cases hk
  kept o n c hc := by cases hc
  operators op hop := by cases hop
  proc p hp := by cases hp

/-- **What is recorded because two roots disagree is a proof.** -/
theorem World.Backed.proof (h : w.Backed C key) {p : Proc} (hp : w.proc = some p)
    (ha : Candid C key w a) {f : ForkEvidence} {save : Write} (hwhy : Raise C p a f save)
    (hkind : ∀ peer op reply now wf wa, a ≠ .gossip peer op reply now wf wa) :
    f.Proof C (key f.origin) := by
  have hback := h.proc p hp
  -- the witness's own half
  have hours : ∀ o n, p.server.seen.get2 o n ≠ none → ∃ c,
      p.server.checkpoints.get2 o n = some c ∧ Kept C key p.server.seen o n c := by
    intro o n hne
    obtain ⟨c, hc⟩ := ne_none_iff_exists'.mp (hback.backed o n hne)
    exact ⟨c, hc, hback.kept o n c hc⟩
  cases hwhy with
  | contradiction => exact absurd rfl (hkind _ _ _ _ _ _)
  | cosign hfree hcheck hconf =>
    rename_i now c chain group existing
    obtain ⟨hget, hne⟩ := filter_eq_some_iff.mp hconf
    obtain ⟨-, op, hop, hverify⟩ := Server.checkCosign_ok.mp hcheck
    obtain ⟨ours, hours, hkept⟩ := hours c.origin c.size (by rw [hget]; exact some_ne_none _)
    refine ⟨ours, c, hours, rfl, hkept.signed, ⟨rfl, rfl, chain, group, ?_⟩, fun heq => ?_⟩
    · rw [← (hback.operators _ op hop).rootPublicKey]
      exact hverify
    · have hroot := hkept.seen
      rw [hget, Option.some.injEq] at hroot
      rw [hroot, heq] at hne
      simp at hne
  | compare hfree htask =>
    rename_i i now theirs o n q
    obtain ⟨c, rfl, hsigned, hother⟩ := ha p hp o n q htask
    obtain ⟨ours, hours, hkept⟩ := hours o n (hback.tasks o n q (mem_of_getElem? htask))
    refine ⟨ours, c, hours, rfl, hkept.signed, hsigned, fun heq => ?_⟩
    rw [hkept.seen, heq] at hother
    exact hother rfl

end

/-- **Disagreement evidence is proof** in every run of candid steps: when `Cosign` or
`CompareWithPeer` records a fork, it records two checkpoints of the origin and size with different
roots, and both verify under the root key that the origin is registered with. -/
theorem evidence_is_proof (C : Crypto) (key : Bytes → Bytes) {as : List Action} {a : Action}
    (has : Along (step C) (Candid C key) (init {}) (as ++ [a])) {p : Proc}
    (hp : (run (step C) (init {}) as).proc = some p) {f : ForkEvidence} {save : Write}
    (hwhy : Raise C p a f save)
    (hkind : ∀ peer op reply now wf wa, a ≠ .gossip peer op reply now wf wa) :
    f.Proof C (key f.origin) ∧
      ∀ op, p.server.operators.lookup f.origin = some op → op.rootPublicKey = key f.origin := by
  obtain ⟨hbefore, ha, -⟩ := along_append.mp has
  have hinv := along_invariant (I := World.Backed C key) (fun w a h ha => h.step ha) .init hbefore
  exact ⟨hinv.proof hp ha hwhy hkind,
    fun op hop => ((hinv.proc p hp).operators _ op hop).rootPublicKey⟩

def cosignedOnce : List Action :=
  [.openServer (lit "w") (.ok (List.replicate 32 7, none)),
    .addOperator (some ⟨lit "log", operatorKey, []⟩) .done] ++
  cosignActions (.clean 1) (some soloCheckpoint) (some soloChain) none

def secondCosign : Action := .cosign 2 .done (some forkedCheckpoint) (some soloChain) none

def findsConflict (p : Proc) : Bool :=
  p.cosigning.isNone &&
    decide (p.server.checkCosign .sample forkedCheckpoint (some soloChain) none = .ok ()) &&
    (p.server.conflict forkedCheckpoint).isSome

lemma cosignedOnce_conflict : ∃ p existing,
    (run (step .sample) (init {}) cosignedOnce).proc = some p ∧ p.cosigning = none ∧
      p.server.checkCosign .sample forkedCheckpoint (some soloChain) none = .ok () ∧
      p.server.conflict forkedCheckpoint = some existing := by
  have hstate : (run (step .sample) (init {}) cosignedOnce).proc.map findsConflict = some true := by
    decide +kernel
  obtain ⟨p, hp, hfinds⟩ := map_eq_some_iff.mp hstate
  simp only [findsConflict, Bool.and_eq_true, Option.isNone_iff_eq_none, decide_eq_true_eq,
    isSome_iff_exists] at hfinds
  obtain ⟨⟨hfree, hcheck⟩, existing, hconf⟩ := hfinds
  exact ⟨p, existing, hp, hfree, hcheck, hconf⟩

theorem evidence_is_proof_conflict :
    ∃ p f, (run (step .sample) (init {}) cosignedOnce).proc = some p ∧
      Raise .sample p secondCosign f .done ∧ f.theirCheckpoint = some forkedCheckpoint ∧
      f.Proof .sample operatorKey := by
  have has : Along (step .sample) (Candid .sample fun _ => operatorKey) (init {})
      (cosignedOnce ++ [secondCosign]) := by
    simp only [cosignedOnce, cosignActions, secondCosign, cons_append, nil_append, Along]
    refine ⟨fun o n h => ?_, ?_, ?_, trivial, trivial, trivial, ?_, trivial⟩
    · cases h rfl
    · rintro op ⟨⟩
      exact ⟨by decide, rfl⟩
    · rintro c ⟨⟩
      exact ⟨by decide, by decide +kernel⟩
    · rintro c ⟨⟩
      exact ⟨by decide, by decide +kernel⟩
  obtain ⟨p, existing, hp, hfree, hcheck, hconf⟩ := cosignedOnce_conflict
  have hwhy : Raise .sample p secondCosign _ .done := .cosign hfree hcheck hconf
  have hproof := evidence_is_proof .sample (fun _ => operatorKey) has hp hwhy
    (fun _ _ _ _ _ _ heq => by cases heq)
  exact ⟨p, _, hp, hwhy, rfl, hproof.1⟩

def heardLiar : List Action :=
  cosignedOnce ++ [hear ((∅ : Dict Nat Bytes).insert 0 (lit "ff")), .resume 0 4 none .done]

def Task.recording : Task → Bool
  | .recordFork _ _ _ => true
  | .compare _ _ _ => false

def waitsToRecord (p : Proc) : Bool := p.cosigning.isNone && p.tasks[0]?.any Task.recording

/-- The lying peer has no checkpoint to show, and the evidence has only one. -/
theorem evidence_without_checkpoint :
    ∃ p f, (run (step .sample) (init {}) heardLiar).proc = some p ∧
      Raise .sample p (.resume 0 5 none .done) f .done ∧ f.theirCheckpoint = none ∧
      ∀ root, ¬ f.Proof .sample root := by
  have hstate : (run (step .sample) (init {}) heardLiar).proc.map waitsToRecord = some true := by
    decide +kernel
  obtain ⟨p, hp, hwaits⟩ := map_eq_some_iff.mp hstate
  simp only [waitsToRecord, Bool.and_eq_true, Option.isNone_iff_eq_none, Option.any_eq_true]
    at hwaits
  obtain ⟨hfree, t, hget, hrecording⟩ := hwaits
  cases t with
  | compare o seen q => cases hrecording
  | recordFork o n q =>
    have hwhy : Raise .sample p (.resume 0 5 none .done) _ .done := .compare hfree hget
    refine ⟨p, _, hp, hwhy, rfl, ?_⟩
    rintro root ⟨ours, theirs, -, htheirs, -⟩
    cases htheirs

end Stele.Witness
