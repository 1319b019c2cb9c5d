import Stele.Witness.NoDoubleCosign

/-!
# What gossip leaves behind

A fork of an origin is recorded by `Cosign`, by `recordAttestationLocked` and by `CompareWithPeer`,
and it is removed by `ClearFork` only.
-/

namespace Stele.Witness

open Lib List AList

/-! ## The checks on statements -/

namespace SignedSeen

variable {prev next : SignedSeen}

/-- The two statements give different roots at one size. -/
def Contradicts (prev next : SignedSeen) : Prop :=
  ∃ n r r', prev.seen.lookup n = some r ∧ next.seen.lookup n = some r' ∧ r' ≠ r

lemma findContradiction_some {n : Nat} (h : prev.findContradiction next = some n) :
    ∃ r r', prev.seen.lookup n = some r ∧ next.seen.lookup n = some r' ∧ r' ≠ r := by
  obtain ⟨⟨k, r⟩, hfind, rfl⟩ := Option.map_eq_some_iff.mp h
  have hmem : ⟨k, r⟩ ∈ prev.seen.entries := mem_of_find?_eq_some hfind
  have hany := find?_some hfind
  cases hnext : next.seen.lookup k with
  | none => simp [hnext] at hany
  | some r' =>
    rw [hnext] at hany
    exact ⟨r, r', mem_lookup_iff.mpr hmem, rfl, of_decide_eq_true hany⟩

lemma findContradiction_eq_none : prev.findContradiction next = none ↔
    ¬ prev.Contradicts next := by
  constructor
  · rintro h ⟨n, r, r', hr, hr', hne⟩
    have hnone := find?_eq_none.mp (Option.map_eq_none_iff.mp h) ⟨n, r⟩
      (mem_lookup_iff.mp hr)
    exact hnone (by rw [hr']; exact decide_eq_true hne)
  · intro h
    cases hfind : prev.findContradiction next with
    | none => rfl
    | some n =>
      obtain ⟨r, r', hr, hr', hne⟩ := findContradiction_some hfind
      exact absurd ⟨n, r, r', hr, hr', hne⟩ h

end SignedSeen

lemma acceptsStatement_ok {C : Crypto} {peer : Peer} {stmt : SignedSeen} :
    Server.acceptsStatement C peer stmt = .ok true ↔
      stmt.verify C = .ok () ∧ stmt.publicKey = peer.publicKey ∧ stmt.witnessID = peer.id := by
  unfold Server.acceptsStatement
  rcases stmt.verify C with (e | w) | u
  · simp
  · simp
  · simp

variable {s : Server}

lemma findFork_some {origin : Bytes} {peerSeen : Dict Nat Bytes} {found : Nat × Bytes × Bytes}
    (h : s.findFork origin peerSeen = some found) :
    s.seen.get2 origin found.1 = some found.2.1 ∧
      peerSeen.lookup found.1 = some found.2.2 ∧ found.2.1 ≠ found.2.2 := by
  obtain ⟨⟨size, theirRoot⟩, hmem, hfound⟩ := exists_of_findSome?_eq_some h
  simp only at hfound
  cases hours : s.seen.get2 origin size with
  | none => simp [hours] at hfound
  | some =>
    simp only [hours] at hfound
    split at hfound
    · cases hfound
    · cases hfound
      exact ⟨hours, mem_lookup_iff.mpr hmem, ‹_›⟩

lemma findFork_eq_none {origin : Bytes} {peerSeen : Dict Nat Bytes}
    (h : s.findFork origin peerSeen = none) {n : Nat} {r r' : Bytes}
    (hours : s.seen.get2 origin n = some r) (htheirs : peerSeen.lookup n = some r') : r = r' := by
  have hnone := findSome?_eq_none_iff.mp h ⟨n, r'⟩ (mem_lookup_iff.mp htheirs)
  simp only [hours] at hnone
  split at hnone
  · assumption
  · cases hnone

/-! ## Forks that are recorded -/

inductive Raise (C : Crypto) (p : Proc) : Action → ForkEvidence → Write → Prop
  | cosign {now : Int} {w : Write} {c : Checkpoint} {chain : Option Chain} {group : Option Group}
      {existing : Bytes} (free : p.cosigning = none)
      (check : p.server.checkCosign C c chain group = .ok ())
      (conflict : p.server.conflict c = some existing) :
    Raise C p (.cosign now w (some c) chain group)
      { origin := c.origin, size := c.size, detectedAt := now,
        ourCheckpoint := p.server.checkpoints.get2 c.origin c.size, theirCheckpoint := some c } w
  | contradiction {peer : Peer} {op : WatchedOperator} {stmt prev : SignedSeen} {now : Int}
      {wf wa : Write} {size : Nat} (free : p.cosigning = none)
      (accepted : Server.acceptsStatement C peer stmt = .ok true)
      (latest : p.server.latest.get2 peer.id stmt.origin = some prev)
      (found : prev.findContradiction stmt = some size) :
    Raise C p (.gossip peer op (.ok stmt) now wf wa)
      { origin := stmt.origin, size, detectedAt := now, ourCheckpoint := none,
        theirCheckpoint := none, theirPeerID := peer.id } wf
  | compare {i : Nat} {now : Int} {theirs : Option Checkpoint} {w : Write} {origin : Bytes}
      {size : Nat} {peerID : Bytes} (free : p.cosigning = none)
      (task : p.tasks[i]? = some (.recordFork origin size peerID)) :
    Raise C p (.resume i now theirs w) (p.server.peerFork now origin size theirs peerID) w

inductive ForksStep (C : Crypto) (p : Proc) (d : Dir) (a : Action) (p' : Proc) (d' : Dir) : Prop
  | same (mem : p'.server.forks = p.server.forks) (disk : d'.forks = d.forks)
  | raise (f : ForkEvidence) (w : Write) (why : Raise C p a f w)
      (mem : p'.server.forks = p.server.forks.insert f.origin f)
      (disk : d'.forks = w.put d.forks (Dict.crossed ForkEvidence.reread p'.server.forks))
  | clear (origin : Bytes) (w : Write) (action : a = .clearFork origin w)
      (mem : p'.server.forks = p.server.forks.erase origin)
      (disk : d'.forks = w.put d.forks (Dict.crossed ForkEvidence.reread p'.server.forks))

variable {C : Crypto} {p : Proc}

section
variable {d : Dir}

lemma step_forks (a : Action) :
    ForksStep C p d a (p.step C d a).1 (p.step C d a).2.1 := by
  have hacts : Acts C p d a (p.step C d a) := step_acts a
  generalize p.step C d a = out at hacts ⊢
  cases hacts with
  | fork free check conflict recorded =>
    subst recorded
    exact .raise _ _ (.cosign free check conflict) rfl rfl
  | contradicted free accepted latest found recorded kept =>
    subst kept recorded
    exact .raise _ _ (.contradiction free accepted latest found) rfl rfl
  | record free task recorded =>
    subst recorded
    exact .raise _ _ (.compare free task) rfl rfl
  | @clearFork origin w free => exact .clear origin w rfl rfl rfl
  | _ =>
    subst_vars
    exact .same rfl rfl

/-! ## Statements that are kept -/

inductive LatestStep (C : Crypto) (p : Proc) (d : Dir) (a : Action) (p' : Proc) (d' : Dir) : Prop
  | same (mem : p'.server.latest = p.server.latest) (disk : d'.latest = d.latest)
  | heard (peer : Peer) (op : WatchedOperator) (stmt : SignedSeen) (now : Int) (wf wa : Write)
      (action : a = .gossip peer op (.ok stmt) now wf wa) (free : p.cosigning = none)
      (accepted : Server.acceptsStatement C peer stmt = .ok true)
      (mem : p'.server.latest = p.server.latest.put2 peer.id stmt.origin stmt)
      (disk : d'.latest =
        wa.put d.latest (Dict.crossed (Dict.crossed SignedSeen.reread) p'.server.latest))

lemma gossip_recorded {peer : Peer} {op : WatchedOperator} {stmt : SignedSeen} {now : Int}
    {wf wa : Write} (hfree : p.cosigning = none)
    (hacc : Server.acceptsStatement C peer stmt = .ok true) :
    (p.gossip C peer op (.ok stmt) now wf wa d).1.server.latest =
        p.server.latest.put2 peer.id stmt.origin stmt ∧
      (p.gossip C peer op (.ok stmt) now wf wa d).2.1.latest = wa.put d.latest
        (Dict.crossed (Dict.crossed SignedSeen.reread)
          (p.gossip C peer op (.ok stmt) now wf wa d).1.server.latest) := by
  simp only [Proc.gossip, hacc, ↓reduceIte, Proc.locked, hfree, Server.recordAttestation]
  cases (p.server.latest.get2 peer.id stmt.origin).bind (·.findContradiction stmt) with
  | none => exact ⟨rfl, rfl⟩
  | some => exact ⟨rfl, rfl⟩

lemma step_latest (a : Action) :
    LatestStep C p d a (p.step C d a).1 (p.step C d a).2.1 := by
  have hacts : Acts C p d a (p.step C d a) := step_acts a
  generalize p.step C d a = out at hacts ⊢
  cases hacts with
  | heard free accepted consistent kept =>
    subst kept
    exact .heard _ _ _ _ _ _ rfl free accepted rfl rfl
  | contradicted free accepted latest found recorded kept =>
    subst kept recorded
    exact .heard _ _ _ _ _ _ rfl free accepted rfl rfl
  | _ =>
    subst_vars
    exact .same rfl rfl

/-! ## Checkpoints that are recorded -/

inductive SeenStep (C : Crypto) (p : Proc) (d : Dir) (a : Action) (p' : Proc) (d' : Dir) : Prop
  | same (seen : p'.server.seen = p.server.seen)
      (checkpoints : p'.server.checkpoints = p.server.checkpoints) (disk : d'.seen = d.seen)
      (diskCheckpoints : d'.checkpoints = d.checkpoints)
  | note (now : Int) (w : Write) (c : Checkpoint) (chain : Option Chain) (group : Option Group)
      (action : a = .cosign now w (some c) chain group)
      (check : p.server.checkCosign C c chain group = .ok ())
      (conflict : p.server.conflict c = none)
      (server : p'.server = p.server.note c) (dir : d' = d)
  | saveSeen (w : Write) (server : p'.server = p.server) (dir : d' = d.saveSeen w p.server)
  | saveCheckpoints (w : Write) (c : Checkpoint)
      (phase : p.cosigning = some (.saveCheckpoints, c)) (server : p'.server = p.server)
      (dir : d' = d.saveCheckpoints w p.server)

lemma step_seen (a : Action) : SeenStep C p d a (p.step C d a).1 (p.step C d a).2.1 := by
  have hacts : Acts C p d a (p.step C d a) := step_acts a
  generalize p.step C d a = out at hacts ⊢
  cases hacts with
  | note free check conflict => exact .note _ _ _ _ _ rfl check conflict rfl rfl
  | saveSeen => exact .saveSeen _ rfl rfl
  | saveCheckpoints phase => exact .saveCheckpoints _ _ phase rfl rfl
  | _ =>
    subst_vars
    exact .same rfl rfl rfl rfl

/-! ## Tasks -/

inductive TaskFrom (C : Crypto) (p : Proc) (a : Action) : Task → Prop
  | old {t : Task} (mem : t ∈ p.tasks) : TaskFrom C p a t
  | gossip {peer : Peer} {op : WatchedOperator} {stmt : SignedSeen} {now : Int} {wf wa : Write}
      (action : a = .gossip peer op (.ok stmt) now wf wa)
      (accepted : Server.acceptsStatement C peer stmt = .ok true) :
    TaskFrom C p a (.compare op.origin stmt.seen peer.id)
  | call {origin : Bytes} {peerSeen : Dict Nat Bytes} {peer : Peer}
      (action : a = .compareWithPeer origin peerSeen peer) :
    TaskFrom C p a (.compare origin peerSeen peer.id)
  | found {i : Nat} {now : Int} {theirs : Option Checkpoint} {w : Write} {origin : Bytes}
      {peerSeen : Dict Nat Bytes} {peerID : Bytes} {size : Nat} {roots : Bytes × Bytes}
      (action : a = .resume i now theirs w)
      (task : .compare origin peerSeen peerID ∈ p.tasks)
      (found : p.server.findFork origin peerSeen = some (size, roots)) :
    TaskFrom C p a (.recordFork origin size peerID)

lemma locked_tasks {a : Action} {tasks : List Task} {body : Server → Dir → Server × Dir}
    (htasks : ∀ t ∈ tasks, TaskFrom C p a t) :
    ∀ t ∈ (p.locked d tasks body).1.tasks, TaskFrom C p a t := by
  unfold Proc.locked
  split
  · exact fun t ht => .old ht
  · exact htasks

lemma step_tasks (a : Action) : ∀ t ∈ (p.step C d a).1.tasks, TaskFrom C p a t := by
  have hold : ∀ t ∈ p.tasks, TaskFrom C p a t := fun t ht => .old ht
  cases a with
  | cosign =>
    simp only [Proc.step, Proc.cosign]
    split
    · exact hold
    · split <;> exact hold
  | save =>
    simp only [Proc.step, Proc.save]
    split <;> exact hold
  | sign =>
    simp only [Proc.step, Proc.sign]
    split <;> exact hold
  | addOperator => exact locked_tasks hold
  | addPeer => exact locked_tasks hold
  | clearFork => exact locked_tasks hold
  | compareWithPeer =>
    intro t ht
    rcases mem_cons.mp ht with rfl | ht
    · exact .call rfl
    · exact hold t ht
  | gossip peer op reply =>
    simp only [Proc.step, Proc.gossip]
    cases reply with
    | error => exact hold
    | ok =>
      simp only
      split
      · refine locked_tasks fun t ht => ?_
        rcases mem_cons.mp ht with rfl | ht
        · exact .gossip rfl ‹_›
        · exact hold t ht
      · exact hold
  | resume i now theirs w =>
    have herase : ∀ t ∈ p.tasks.eraseIdx i, TaskFrom C p (.resume i now theirs w) t :=
      fun t ht => hold t (mem_of_mem_eraseIdx ht)
    simp only [Proc.step, Proc.resume]
    split
    · exact hold
    · rename_i origin peerSeen peerID htask
      intro t ht
      rcases mem_append.mp ht with ht | ht
      · cases hfound : p.server.findFork origin peerSeen with
        | none =>
          rw [hfound] at ht
          cases ht
        | some =>
          rw [hfound] at ht
          rw [mem_singleton.mp ht]
          exact .found rfl (mem_of_getElem? htask) hfound
      · exact herase t ht
    · exact locked_tasks herase
  | openServer => exact hold
  | crash => exact hold

end

/-! ## The machine -/

/-- What a step of the machine is: nothing, a crash, a restart, or an action of the running
witness. -/
inductive WorldStep (C : Crypto) (w : World) (a : Action) (w' : World) : Prop
  | idle (eq : w' = w)
  | crash (proc : w'.proc = none) (dir : w'.dir = w.dir) (action : a = .crash)
  | opened (id : Bytes) (keys : Except Err (Bytes × Option Bytes)) (s : Server)
      (action : a = .openServer id keys) (proc : w'.proc = some ⟨s, none, []⟩)
      (dir : w'.dir = w.dir) (new : newServer id keys w.dir = .ok s) (before : w.proc = none)
  | acted (p : Proc) (before : w.proc = some p) (proc : w'.proc = some (p.step C w.dir a).1)
      (dir : w'.dir = (p.step C w.dir a).2.1)

lemma newServer_ok {id : Bytes} {keys : Except Err (Bytes × Option Bytes)} {d : Dir}
    (h : newServer id keys d = .ok s) : ∃ k, keys = .ok k ∧ s = {
      id := id, priv := k.1, qPriv := k.2
      operators := d.operators.foldl (fun m op => m.insert op.origin op) ∅
      seen := d.seen, checkpoints := d.checkpoints
      peers := d.peers.foldl (fun m p => m.insert p.id p) ∅
      forks := d.forks, latest := d.latest } := by
  cases keys with
  | error => cases h
  | ok keys =>
    cases h
    exact ⟨keys, rfl, rfl⟩

lemma step_cases (C : Crypto) (w : World) (a : Action) : WorldStep C w a (step C w a) := by
  have hact : WorldStep C w a (w.act C a) := by
    unfold World.act
    cases hproc : w.proc with
    | none => exact .idle rfl
    | some p => exact .acted p hproc rfl rfl
  cases a with
  | openServer id keys =>
    simp only [step, World.openServer]
    split
    · rename_i s hproc hs
      exact .opened id keys s rfl rfl rfl hs hproc
    · exact .idle rfl
  | crash => exact .crash rfl rfl rfl
  | _ => exact hact

lemma step_gossip {C : Crypto} {w : World} {p : Proc} (hp : w.proc = some p) (peer : Peer)
    (op : WatchedOperator) (reply : Except Err SignedSeen) (now : Int) (wf wa : Write) :
    (step C w (.gossip peer op reply now wf wa)).proc =
        some (p.gossip C peer op reply now wf wa w.dir).1 ∧
      (step C w (.gossip peer op reply now wf wa)).dir =
        (p.gossip C peer op reply now wf wa w.dir).2.1 := by
  simp only [step, World.act, hp]
  exact ⟨rfl, rfl⟩

/-! ## Flags -/

structure Flagged (origin : Bytes) (w : World) : Prop where
  disk : (w.dir.forks.lookup origin).isSome
  mem : ∀ p, w.proc = some p → (p.server.forks.lookup origin).isSome

section
variable {origin : Bytes} {w : World} {f : ForkEvidence}

lemma insert_isSome {m : Dict Bytes ForkEvidence}
    (h : (m.lookup origin).isSome ∨ f.origin = origin) :
    ((m.insert f.origin f).lookup origin).isSome := by
  by_cases heq : origin = f.origin
  · subst heq
    rw [lookup_insert]
    rfl
  · rw [lookup_insert_ne heq]
    exact h.resolve_right fun h => heq h.symm

variable {save : Write}

lemma put_isSome (hutf8 : Utf8 origin) {disk mem : Dict Bytes ForkEvidence}
    (hdisk : (disk.lookup origin).isSome) (hmem : (mem.lookup origin).isSome) :
    ((save.put disk (Dict.crossed ForkEvidence.reread mem)).lookup origin).isSome := by
  rcases save.put_cases disk (Dict.crossed ForkEvidence.reread mem) with heq | heq
  · rw [heq]
    exact hdisk
  · rw [heq]
    exact Dict.lookup_crossed_isSome _ hutf8 hmem

variable {a : Action}

lemma Flagged.step (hutf8 : Utf8 origin) (h : Flagged origin w)
    (ha : ∀ save, a ≠ .clearFork origin save) : Flagged origin (step C w a) := by
  cases step_cases C w a with
  | idle heq =>
    rw [heq]
    exact h
  | crash hproc hdir =>
    refine ⟨by rw [hdir]; exact h.disk, fun p hp => ?_⟩
    rw [hproc] at hp
    cases hp
  | opened id keys s hact hproc hdir hnew =>
    refine ⟨by rw [hdir]; exact h.disk, fun p hp => ?_⟩
    rw [hproc] at hp
    cases hp
    obtain ⟨k, -, rfl⟩ := newServer_ok hnew
    exact h.disk
  | acted p hbefore hproc hdir =>
    have hmem := h.mem p hbefore
    have hboth : ((p.step C w.dir a).1.server.forks.lookup origin).isSome ∧
        ((p.step C w.dir a).2.1.forks.lookup origin).isSome := by
      cases step_forks (C := C) (p := p) (d := w.dir) a with
      | same hm hd => exact ⟨by rw [hm]; exact hmem, by rw [hd]; exact h.disk⟩
      | raise f save _ hm hd =>
        have hnew := hm ▸ insert_isSome (f := f) (.inl hmem)
        exact ⟨hnew, by rw [hd]; exact put_isSome hutf8 h.disk hnew⟩
      | clear o save hact hm hd =>
        have hne : origin ≠ o := fun heq => ha save (heq ▸ hact)
        have hnew : ((p.step C w.dir a).1.server.forks.lookup origin).isSome := by
          rw [hm, lookup_erase_ne hne]
          exact hmem
        exact ⟨hnew, by rw [hd]; exact put_isSome hutf8 h.disk hnew⟩
    refine ⟨by rw [hdir]; exact hboth.2, fun p' hp' => ?_⟩
    rw [hproc] at hp'
    cases hp'
    exact hboth.1

lemma Raise.step_eq {d : Dir} (hwhy : Raise C p a f save) :
    (p.step C d a).1.server.forks = p.server.forks.insert f.origin f ∧
      (p.step C d a).2.1.forks =
        save.put d.forks (Dict.crossed ForkEvidence.reread (p.step C d a).1.server.forks) := by
  cases hwhy with
  | cosign free check conflict =>
    simp only [Proc.step, Proc.cosign, free, Server.beginCosign, check, conflict]
    exact ⟨rfl, rfl⟩
  | contradiction free accepted latest found =>
    simp only [Proc.step, Proc.gossip, accepted, ↓reduceIte, Proc.locked, free,
      Server.recordAttestation, latest, Option.bind_some, found]
    exact ⟨rfl, rfl⟩
  | compare free task =>
    simp only [Proc.step, Proc.resume, task, Proc.locked, free]
    exact ⟨rfl, rfl⟩

lemma Raise.flagged (hutf8 : Utf8 origin) (hp : w.proc = some p) (hwhy : Raise C p a f save)
    (hf : f.origin = origin) (hsave : save.err = none) : Flagged origin (Witness.step C w a) := by
  have hact : Witness.step C w a = w.act C a := by cases hwhy <;> rfl
  obtain ⟨hmem, hdisk⟩ := hwhy.step_eq (d := w.dir)
  have hnew : ((p.step C w.dir a).1.server.forks.lookup origin).isSome :=
    hmem ▸ insert_isSome (.inr hf)
  rw [hact, World.act, hp]
  refine ⟨?_, fun p' hp' => ?_⟩
  · show ((p.step C w.dir a).2.1.forks.lookup origin).isSome
    rw [hdisk, Write.put, save.renamed_of_ok hsave, if_pos rfl]
    exact Dict.lookup_crossed_isSome _ hutf8 hnew
  · cases hp'
    exact hnew

lemma Flagged.not_cosigned (h : Flagged origin w) (hp : w.proc = some p) {c : Checkpoint}
    (hc : c.origin = origin) (r : Server.CosignReads) (chain : Option Chain) (group : Option Group)
    (sig : WitnessSig) : (p.server.cosign C r (some c) chain group w.dir).2.2 ≠ .ok sig := by
  intro hok
  obtain ⟨c', hc', hcheck, -⟩ := Server.cosign_ok.mp hok
  cases hc'
  have hnone := (Server.checkCosign_ok.mp hcheck).1
  have hsome := h.mem p hp
  rw [← hc, hnone] at hsome
  cases hsome

end

end Stele.Witness
