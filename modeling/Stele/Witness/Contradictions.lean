import Stele.Witness.Gossip

/-!
# A peer that contradicts itself

`recordAttestationLocked` keeps the latest statement of each peer for each origin and compares a new
one with it. A peer may leave sizes out of a statement, and what it said about them before is then
forgotten.
-/

namespace Stele.Witness

open Lib List Option AList

structure Hearing where
  world : World
  heard : List (Bytes × SignedSeen)

def Hearing.init : Hearing := ⟨Witness.init {}, []⟩

def heardBy (C : Crypto) (w : World) : Action → List (Bytes × SignedSeen)
  | .gossip peer _ (.ok stmt) _ _ _ =>
    match w.proc with
    | some p =>
      if p.cosigning.isNone ∧ Server.acceptsStatement C peer stmt = .ok true then [(peer.id, stmt)]
      else []
    | none => []
  | _ => []

def Hearing.step (C : Crypto) (h : Hearing) (a : Action) : Hearing :=
  ⟨Witness.step C h.world a, h.heard ++ heardBy C h.world a⟩

def SignedSeen.IsUtf8 (s : SignedSeen) : Prop :=
  Utf8 s.witnessID ∧ Utf8 s.origin ∧ ∀ n r, s.seen.lookup n = some r → Utf8 r

/-- What a step has to meet: a statement about the origin is saved, as is the fork it may lead to,
and it leaves out no size of the statement before; the origin is not cleared. -/
def FullStatement (origin : Bytes) (w : World) : Action → Prop
  | .gossip peer _ (.ok stmt) _ wf wa => stmt.IsUtf8 ∧ (stmt.origin = origin →
    wf.err = none ∧ wa.err = none ∧ ∀ p, w.proc = some p →
      ∀ prev, p.server.latest.get2 peer.id origin = some prev →
        ∀ n ∈ prev.seen.keys, n ∈ stmt.seen.keys)
  | .clearFork o _ => o ≠ origin
  | _ => True

instance (s : SignedSeen) : Decidable s.IsUtf8 :=
  decidable_of_iff (Utf8 s.witnessID ∧ Utf8 s.origin ∧ ∀ e ∈ s.seen.entries, Utf8 e.2)
    (and_congr_right fun _ => and_congr_right fun _ =>
      ⟨fun h n r hr => h ⟨n, r⟩ (mem_lookup_iff.mp hr),
        fun h e he => h e.1 e.2 (mem_lookup_iff.mpr he)⟩)

instance (origin : Bytes) (w : World) (a : Action) : Decidable (FullStatement origin w a) := by
  unfold FullStatement
  split <;> infer_instance

/-! ## The invariant -/

def SignedSeen.Covers (later earlier : SignedSeen) : Prop :=
  ∀ n r, earlier.seen.lookup n = some r → later.seen.lookup n = some r

def Remembered (latest : Dict Bytes (Dict Bytes SignedSeen)) (x : Bytes × SignedSeen) : Prop :=
  ∃ stmt, latest.get2 x.1 x.2.origin = some stmt ∧ stmt.Covers x.2

/-- **The invariant**: what was recorded about the origin is covered by what is remembered, in
memory and on disk, or the origin is flagged. -/
structure Hearing.Inv (origin : Bytes) (h : Hearing) : Prop where
  diskKeys : h.world.dir.latest.Utf8Keys2
  memKeys : ∀ p, h.world.proc = some p → p.server.latest.Utf8Keys2
  utf8 : ∀ x ∈ h.heard, x.2.IsUtf8
  heard : ∀ x ∈ h.heard, x.2.origin = origin → Flagged origin h.world ∨
    (Remembered h.world.dir.latest x ∧ ∀ p, h.world.proc = some p → Remembered p.server.latest x)

section
variable {C : Crypto} {origin : Bytes} {h : Hearing}

lemma SignedSeen.Covers.reread {later earlier : SignedSeen} (hcov : later.Covers earlier)
    (hutf8 : earlier.IsUtf8) : later.reread.Covers earlier := by
  intro n r hr
  show (Dict.mapValues coerce later.seen).lookup n = some r
  rw [Dict.lookup_mapValues, hcov n r hr, map_some, coerce_of_utf8 (hutf8.2.2 n r hr)]

lemma SignedSeen.covers_of_full {prev next : SignedSeen}
    (hfull : ∀ n ∈ prev.seen, n ∈ next.seen) (hagree : ¬ prev.Contradicts next) :
    next.Covers prev := by
  intro n r hr
  have hmem : n ∈ prev.seen := lookup_isSome.mp (by rw [hr]; rfl)
  obtain ⟨r', hr'⟩ := isSome_iff_exists.mp (lookup_isSome.mpr (hfull n hmem))
  by_cases heq : r' = r
  · rw [hr', heq]
  · exact absurd ⟨n, r, r', hr, hr', heq⟩ hagree

variable {w : World}

lemma Hearing.Inv.keep (hinv : h.Inv origin)
    (hflag : Utf8 origin → Flagged origin h.world → Flagged origin w)
    (hdisk : w.dir.latest = h.world.dir.latest)
    (hmem : ∀ p, w.proc = some p → p.server.latest = h.world.dir.latest ∨
      ∃ p₀, h.world.proc = some p₀ ∧ p.server.latest = p₀.server.latest) :
    Hearing.Inv origin ⟨w, h.heard⟩ where
  diskKeys := by
    show w.dir.latest.Utf8Keys2
    rw [hdisk]
    exact hinv.diskKeys
  memKeys p hp := by
    rcases hmem p hp with heq | ⟨p₀, hp₀, heq⟩
    · rw [heq]
      exact hinv.diskKeys
    · rw [heq]
      exact hinv.memKeys p₀ hp₀
  utf8 := hinv.utf8
  heard x hx ho := by
    rcases hinv.heard x hx ho with hf | ⟨hrem, hremm⟩
    · exact .inl (hflag (ho ▸ (hinv.utf8 x hx).2.1) hf)
    · refine .inr ⟨?_, fun p hp => ?_⟩
      · show Remembered w.dir.latest x
        rw [hdisk]
        exact hrem
      · rcases hmem p hp with heq | ⟨p₀, hp₀, heq⟩
        · rw [heq]
          exact hrem
        · rw [heq]
          exact hremm p₀ hp₀

variable {x : Bytes × SignedSeen} {stmt : SignedSeen}

lemma Remembered.put2_ne {latest : Dict Bytes (Dict Bytes SignedSeen)}
    (hrem : Remembered latest x) {peerID : Bytes}
    (hne : ¬ (x.1 = peerID ∧ x.2.origin = stmt.origin)) :
    Remembered (latest.put2 peerID stmt.origin stmt) x := by
  obtain ⟨old, hold, hcov⟩ := hrem
  exact ⟨old, by rw [Dict.get2_put2_ne _ _ hne]; exact hold, hcov⟩

lemma Remembered.crossed {latest : Dict Bytes (Dict Bytes SignedSeen)}
    (hrem : Remembered latest x) (hkeys : latest.Utf8Keys2) (hutf8 : x.2.IsUtf8) :
    Remembered (Dict.crossed (Dict.crossed SignedSeen.reread) latest) x := by
  obtain ⟨stmt, hstmt, hcov⟩ := hrem
  exact ⟨stmt.reread, by rw [Dict.get2_crossed2 hkeys, hstmt]; rfl, hcov.reread hutf8⟩

lemma Hearing.Inv.remembered (hinv : h.Inv origin) {p : Proc} (hp : h.world.proc = some p)
    {peer : Peer} {op : WatchedOperator} {now : Int} {wf wa : Write} (hfree : p.cosigning = none)
    (hacc : Server.acceptsStatement C peer stmt = .ok true)
    (ha : FullStatement origin h.world (.gossip peer op (.ok stmt) now wf wa))
    (hx : x ∈ h.heard ++ [(peer.id, stmt)]) (ho : x.2.origin = origin) (hutf8 : Utf8 origin) :
    Flagged origin (Witness.step C h.world (.gossip peer op (.ok stmt) now wf wa)) ∨
      Remembered (p.server.latest.put2 peer.id stmt.origin stmt) x := by
  rcases mem_append.mp hx with hx | hx
  · rcases hinv.heard x hx ho with hf | ⟨-, hremm⟩
    · exact .inl (hf.step hutf8 nofun)
    · by_cases hsame : x.1 = peer.id ∧ x.2.origin = stmt.origin
      · obtain ⟨prev, hprev, hcov⟩ := hremm p hp
        rw [hsame.1, hsame.2] at hprev
        have hstmt : stmt.origin = origin := hsame.2.symm.trans ho
        obtain ⟨hwf, -, hsizes⟩ := ha.2 hstmt
        cases hfound : prev.findContradiction stmt with
        | some =>
          have hraise : Raise C p (.gossip peer op (.ok stmt) now wf wa) _ wf :=
            .contradiction hfree hacc hprev hfound
          exact .inl (hraise.flagged hutf8 hp hstmt hwf)
        | none =>
          have hnext := SignedSeen.covers_of_full (hsizes p hp prev (hstmt ▸ hprev))
            (SignedSeen.findContradiction_eq_none.mp hfound)
          refine .inr ⟨stmt, ?_, fun n r hr => hnext n r (hcov n r hr)⟩
          rw [hsame.1, hsame.2]
          exact Dict.get2_put2_self _ _ _ _
      · exact .inr ((hremm p hp).put2_ne hsame)
  · rw [mem_singleton.mp hx]
    exact .inr ⟨stmt, Dict.get2_put2_self _ _ _ _, fun _ _ hr => hr⟩

lemma Hearing.Inv.record (hinv : h.Inv origin) {p : Proc} (hp : h.world.proc = some p)
    {peer : Peer} {op : WatchedOperator} {now : Int} {wf wa : Write} (hfree : p.cosigning = none)
    (hacc : Server.acceptsStatement C peer stmt = .ok true)
    (ha : FullStatement origin h.world (.gossip peer op (.ok stmt) now wf wa))
    (hw : w = Witness.step C h.world (.gossip peer op (.ok stmt) now wf wa)) {p' : Proc}
    (hproc : w.proc = some p')
    (hmem : p'.server.latest = p.server.latest.put2 peer.id stmt.origin stmt)
    (hdisk : w.dir.latest = wa.put h.world.dir.latest
      (Dict.crossed (Dict.crossed SignedSeen.reread) p'.server.latest)) :
    Hearing.Inv origin ⟨w, h.heard ++ [(peer.id, stmt)]⟩ := by
  obtain ⟨hutf8, hfull⟩ := ha
  have hid : Utf8 peer.id := (acceptsStatement_ok.mp hacc).2.2 ▸ hutf8.1
  have hkeys : p'.server.latest.Utf8Keys2 := by
    rw [hmem]
    exact (hinv.memKeys p hp).put2 hid hutf8.2.1 stmt
  have hall : ∀ x ∈ h.heard ++ [(peer.id, stmt)], x.2.IsUtf8 := by
    intro x hx
    rcases mem_append.mp hx with hx | hx
    · exact hinv.utf8 x hx
    · rw [mem_singleton.mp hx]
      exact hutf8
  have hflag : Utf8 origin → Flagged origin h.world → Flagged origin w := fun ho hf =>
    hw ▸ hf.step ho nofun
  -- what is remembered in memory afterwards
  have hrem : ∀ x ∈ h.heard ++ [(peer.id, stmt)], x.2.origin = origin →
      Flagged origin w ∨ Remembered p'.server.latest x := by
    intro x hx ho
    rw [hmem, hw]
    exact hinv.remembered hp hfree hacc ⟨hutf8, hfull⟩ hx ho (ho ▸ (hall x hx).2.1)
  refine ⟨?_, ?_, hall, ?_⟩
  · show w.dir.latest.Utf8Keys2
    rw [hdisk]
    rcases wa.put_cases h.world.dir.latest
        (Dict.crossed (Dict.crossed SignedSeen.reread) p'.server.latest) with heq | heq
    · rw [heq]
      exact hinv.diskKeys
    · rw [heq]
      exact hkeys.crossed
  · intro q hq
    have hq : w.proc = some q := hq
    rw [hproc] at hq
    cases hq
    exact hkeys
  · intro x hx ho
    rcases hrem x hx ho with hf | hremm
    · exact .inl hf
    · have hcrossed := hremm.crossed hkeys (hall x hx)
      have hmem' : ∀ q, w.proc = some q → Remembered q.server.latest x := by
        intro q hq
        rw [hproc] at hq
        cases hq
        exact hremm
      by_cases hstmt : stmt.origin = origin
      · refine .inr ⟨?_, hmem'⟩
        show Remembered w.dir.latest x
        rw [hdisk, Write.put, wa.renamed_of_ok (hfull hstmt).2.1, if_pos rfl]
        exact hcrossed
      · -- a statement about another origin may be lost
        have hold : x ∈ h.heard := by
          rcases mem_append.mp hx with hx | hx
          · exact hx
          · rw [mem_singleton.mp hx] at ho
            exact absurd ho hstmt
        rcases hinv.heard x hold ho with hf | ⟨hremd, -⟩
        · exact .inl (hflag (ho ▸ (hall x hx).2.1) hf)
        · refine .inr ⟨?_, hmem'⟩
          show Remembered w.dir.latest x
          rw [hdisk]
          rcases wa.put_cases h.world.dir.latest
              (Dict.crossed (Dict.crossed SignedSeen.reread) p'.server.latest) with heq | heq
          · rw [heq]
            exact hremd
          · rw [heq]
            exact hcrossed

def Records (C : Crypto) (w : World) (a : Action) : Prop :=
  ∃ peer op stmt now wf wa p, a = .gossip peer op (.ok stmt) now wf wa ∧ w.proc = some p ∧
    p.cosigning = none ∧ Server.acceptsStatement C peer stmt = .ok true

lemma heardBy_of_not_records {a : Action} (hnone : ¬ Records C w a) : heardBy C w a = [] := by
  unfold heardBy
  split
  · rename_i peer op stmt now wf wa
    split
    · rename_i p hp
      refine if_neg ?_
      rintro ⟨hfree, hacc⟩
      exact hnone ⟨peer, op, stmt, now, wf, wa, p, rfl, hp, isNone_iff_eq_none.mp hfree, hacc⟩
    · rfl
  · rfl

lemma Hearing.Inv.step (hinv : h.Inv origin) {a : Action} (ha : FullStatement origin h.world a) :
    (h.step C a).Inv origin := by
  by_cases hrec : Records C h.world a
  · obtain ⟨peer, op, stmt, now, wf, wa, p, rfl, hp, hfree, hacc⟩ := hrec
    have hone : heardBy C h.world (.gossip peer op (.ok stmt) now wf wa) = [(peer.id, stmt)] := by
      simp only [heardBy, hp, hfree, hacc, isNone_none, and_self, ↓reduceIte]
    rw [Hearing.step, hone]
    obtain ⟨hproc, hdir⟩ := step_gossip (C := C) hp peer op (.ok stmt) now wf wa
    exact hinv.record hp hfree hacc ha rfl hproc (gossip_recorded hfree hacc).1
      (by rw [hdir]; exact (gossip_recorded hfree hacc).2)
  · have hflag : Utf8 origin → Flagged origin h.world →
        Flagged origin (Witness.step C h.world a) := by
      intro ho hf
      refine hf.step ho ?_
      rintro save rfl
      exact ha rfl
    rw [Hearing.step, heardBy_of_not_records hrec, append_nil]
    cases step_cases C h.world a with
    | idle heq =>
      rw [heq]
      exact hinv
    | crash hproc hdir =>
      refine hinv.keep hflag (by rw [hdir]) fun p hp => ?_
      rw [hproc] at hp
      cases hp
    | opened id keys s hact hproc hdir hnew =>
      refine hinv.keep hflag (by rw [hdir]) fun p hp => ?_
      rw [hproc] at hp
      cases hp
      obtain ⟨k, -, rfl⟩ := newServer_ok hnew
      exact .inl rfl
    | acted p hp hproc hdir =>
      cases step_latest (C := C) (p := p) (d := h.world.dir) a with
      | same hmem hdisk =>
        refine hinv.keep hflag (by rw [hdir, hdisk]) fun q hq => ?_
        rw [hproc] at hq
        cases hq
        exact .inr ⟨p, hp, hmem⟩
      | heard peer op stmt now wf wa hact hfree hacc =>
        exact absurd ⟨peer, op, stmt, now, wf, wa, p, hact, hp, hfree, hacc⟩ hrec

lemma Hearing.init_inv : Hearing.init.Inv origin where
  diskKeys := ⟨nofun, nofun⟩
  memKeys p hp := by cases hp
  utf8 x hx := by cases hx
  heard x hx := by cases hx

end

/-- **A peer that contradicts itself is caught while its statements are full**: two statements of
one peer about one origin that give different roots for one size flag the origin, whatever came
between them. -/
theorem contradictions_flagged (C : Crypto) (origin : Bytes) {as : List Action}
    (has : Along (Hearing.step C) (fun h => FullStatement origin h.world) Hearing.init as)
    {peerID : Bytes} {s s' : SignedSeen}
    (hs : (peerID, s) ∈ (run (Hearing.step C) Hearing.init as).heard)
    (hs' : (peerID, s') ∈ (run (Hearing.step C) Hearing.init as).heard)
    (ho : s.origin = origin) (ho' : s'.origin = origin) (hcontra : s.Contradicts s') :
    Flagged origin (run (Hearing.step C) Hearing.init as).world := by
  have hinv := along_invariant (I := Hearing.Inv origin) (fun _ _ hinv ha => hinv.step ha)
    Hearing.init_inv has
  rcases hinv.heard _ hs ho with hf | ⟨⟨stmt, hstmt, hcov⟩, -⟩
  · exact hf
  · rcases hinv.heard _ hs' ho' with hf | ⟨⟨stmt', hstmt', hcov'⟩, -⟩
    · exact hf
    · -- both are covered by the latest statement, so they agree
      have hsame : stmt = stmt' := by
        simp only [ho, ho'] at hstmt hstmt'
        rw [hstmt] at hstmt'
        exact Option.some.inj hstmt'
      subst hsame
      obtain ⟨n, r, r', hr, hr', hne⟩ := hcontra
      have hlatest := hcov n r hr
      rw [hcov' n r' hr'] at hlatest
      exact absurd (Option.some.inj hlatest) hne

def samplePeer : Peer where
  id := lit "b"
  url := lit "http://b"
  publicKey := List.replicate 32 9

def sampleStatement (seen : Dict Nat Bytes) : SignedSeen :=
  let s : SignedSeen := {
    witnessID := samplePeer.id
    publicKey := samplePeer.publicKey
    keyID := lit "k"
    origin := lit "log"
    seen := seen
    issuedAt := 1 }
  { s with signature := Crypto.sample.edSign (List.replicate 32 9) s.canonical }

def hear (seen : Dict Nat Bytes) : Action :=
  .gossip samplePeer ⟨lit "log", operatorKey, []⟩ (.ok (sampleStatement seen)) 1 .done .done

def oneRoot (root : Bytes) : Dict Nat Bytes := (∅ : Dict Nat Bytes).insert 5 root

def hearings (a b c : Dict Nat Bytes) : List Action :=
  let opening := Action.openServer (lit "w") (.ok (List.replicate 32 7, none))
  [opening, hear a, .crash, opening, hear b, hear c]

def sampleHeard (root : String) : Bytes × SignedSeen :=
  (samplePeer.id, sampleStatement (oneRoot (lit root)))

lemma sampleHeard_contradicts :
    (sampleHeard "aa").2.Contradicts (sampleHeard "bb").2 :=
  ⟨5, lit "aa", lit "bb", rfl, rfl, by decide⟩

theorem contradictions_flagged_restart :
    Flagged (lit "log") (run (Hearing.step .sample) Hearing.init
      (hearings (oneRoot (lit "aa")) (oneRoot (lit "bb")) (oneRoot (lit "bb")))).world := by
  have has : Along (Hearing.step .sample) (fun h => FullStatement (lit "log") h.world) Hearing.init
      (hearings (oneRoot (lit "aa")) (oneRoot (lit "bb")) (oneRoot (lit "bb"))) := by
    decide +kernel
  have hheard : (run (Hearing.step .sample) Hearing.init
      (hearings (oneRoot (lit "aa")) (oneRoot (lit "bb")) (oneRoot (lit "bb")))).heard =
      [sampleHeard "aa", sampleHeard "bb", sampleHeard "bb"] := rfl
  have hs : sampleHeard "aa" ∈ (run (Hearing.step .sample) Hearing.init
      (hearings (oneRoot (lit "aa")) (oneRoot (lit "bb")) (oneRoot (lit "bb")))).heard := by
    rw [hheard]
    exact mem_cons_self
  have hs' : sampleHeard "bb" ∈ (run (Hearing.step .sample) Hearing.init
      (hearings (oneRoot (lit "aa")) (oneRoot (lit "bb")) (oneRoot (lit "bb")))).heard := by
    rw [hheard]
    exact mem_cons_of_mem _ mem_cons_self
  exact contradictions_flagged .sample (lit "log") has hs hs' rfl rfl sampleHeard_contradicts

/-- A peer that says `aa`, then nothing, then `bb` about one size is not caught. -/
theorem omitted_size_forgotten :
    let h := run (Hearing.step .sample) Hearing.init
      (hearings (oneRoot (lit "aa")) ∅ (oneRoot (lit "bb")))
    sampleHeard "aa" ∈ h.heard ∧ sampleHeard "bb" ∈ h.heard ∧
      (sampleHeard "aa").2.Contradicts (sampleHeard "bb").2 ∧
      h.world.proc.map (fun p => (p.server.forks.lookup (lit "log")).isSome) = some false ∧
      (h.world.dir.forks.lookup (lit "log")).isSome = false := by
  have hheard : (run (Hearing.step .sample) Hearing.init
      (hearings (oneRoot (lit "aa")) ∅ (oneRoot (lit "bb")))).heard =
      [sampleHeard "aa", (samplePeer.id, sampleStatement ∅), sampleHeard "bb"] := rfl
  refine ⟨?_, ?_, sampleHeard_contradicts, by decide +kernel, by decide +kernel⟩
  · rw [hheard]
    exact mem_cons_self
  · rw [hheard]
    exact mem_of_getElem? (i := 2) rfl

end Stele.Witness
