import Stele.Journals.AdminLog
import Stele.Journals.ReadLog

/-!
# Runs of a journal

A run is a list of openings, calls and stops of the process. A crash in a call is a call that fails,
and a stop.
-/

namespace Stele.Journals

open Lib List

structure State (L : Log) where
  dir : Dir := {}
  proc : Option Journal := none
  acked : List (Event L.Body) := []

inductive Action (L : Log)
  | start (o : Opening)
  | call (now : Int) (io : Io) (args : L.Args)
  | stop

variable (C : Crypto) {L : Log}

def step (s : State L) : Action L → State L
  | .start o =>
    { s with
      dir := (openJournal C L.format o s.dir).1
      proc := (openJournal C L.format o s.dir).2.toOption }
  | .call now io args =>
    match s.proc with
    | none => s
    | some j =>
      let r := L.call C now io args j s.dir.file
      { dir := { s.dir with file := r.file }
        proc := some r.journal
        acked := s.acked ++ r.result.toOption.toList }
  | .stop => { s with proc := none }

structure Holds (evs : List (Event L.Body)) (s : State L) : Prop where
  decoded : s.dir.file.map (Piece.decode L.format) = evs.map .ok
  valid : ∀ e ∈ evs, e.Valid C L.format
  chained : Chained none evs
  intact : s.dir.Intact
  proc : ∀ j, s.proc = some j → j.After (evs.take j.size).getLast?

variable {C}

lemma holds_empty : Holds C [] ({} : State L) where
  decoded := rfl
  valid := by simp
  chained := trivial
  intact := ⟨by simp, by simp⟩
  proc := by simp

lemma Chained.sizeAfter_getLast {B : Type} {evs : List (Event B)} (h : Chained none evs) :
    sizeAfter evs.getLast? = evs.length := by
  cases hlast : evs.getLast? with
  | none => rw [getLast?_eq_none_iff.mp hlast]; rfl
  | some e =>
    have hpos : evs.length ≠ 0 := by
      intro h0
      rw [length_eq_zero_iff.mp h0] at hlast
      cases hlast
    rw [getLast?_eq_getElem?] at hlast
    have := h.index_eq hlast
    show e.index + 1 = evs.length
    omega

lemma reached_of_decoded {B : Type} {F : Format B} {file : List Piece} {evs : List (Event B)}
    (h : file.map (Piece.decode F) = evs.map .ok) : reached file = file := by
  have hopen : ∀ p ∈ file, (!p.isClose) = true := by
    intro p hp
    obtain ⟨e, -, he⟩ := mem_map.mp (h ▸ mem_map_of_mem (f := Piece.decode F) hp)
    cases p with
    | close => cases he
    | _ => rfl
  rw [reached, ← append_nil file, takeWhile_append_of_pos (by simpa using hopen)]
  simp

namespace Holds

variable {evs : List (Event L.Body)} {s : State L}

section

variable (h : Holds C evs s)

include h

lemma length_eq : s.dir.file.length = evs.length := by
  have := congrArg List.length h.decoded
  simpa using this

lemma replays :
    replay C L.format none s.dir.file = .ok evs.getLast? := by
  refine replay_ok.mpr ⟨evs, ?_, h.valid, h.chained, by simp⟩
  rw [reached_of_decoded h.decoded, h.decoded]

lemma reopens {o : Opening} (ho : o.Clean) :
    ∃ j, (openJournal C L.format o s.dir).2 = .ok j ∧ j.size = evs.length ∧
      j.prev = headHash evs.getLast? := by
  obtain ⟨j, hj⟩ := open_succeeds h.intact ho h.replays
  obtain ⟨last, hreplay, hsize, hprev⟩ := open_ok hj
  obtain rfl : evs.getLast? = last := Except.ok.inj (h.replays.symm.trans hreplay)
  exact ⟨j, hj, hsize.trans h.chained.sizeAfter_getLast, hprev⟩

lemma started {o : Opening} {j : Journal} (hj : (step C s (.start o)).proc = some j) :
    j.After evs.getLast? ∧ j.size = evs.length := by
  have hopen : (openJournal C L.format o s.dir).2 = .ok j := by
    cases hres : (openJournal C L.format o s.dir).2 with
    | error => simp [step, hres, Except.toOption] at hj
    | ok j' =>
      have : j' = j := by simpa [step, hres, Except.toOption] using hj
      rw [this]
  obtain ⟨last, hreplay, hsize, hprev⟩ := open_ok hopen
  obtain rfl : evs.getLast? = last := Except.ok.inj (h.replays.symm.trans hreplay)
  exact ⟨⟨hsize, hprev⟩, hsize.trans h.chained.sizeAfter_getLast⟩

lemma start {o : Opening} (ho : o.Uncut) :
    Holds C evs (step C s (.start o)) where
  decoded := by
    show (openJournal C L.format o s.dir).1.file.map _ = _
    rw [openJournal_file]
    exact h.decoded
  valid := h.valid
  chained := h.chained
  intact := openJournal_intact h.intact ho
  proc := by
    intro j hj
    obtain ⟨hafter, hsize⟩ := h.started hj
    rw [hsize, take_length]
    exact hafter

lemma stop : Holds C evs (step C s .stop) :=
  ⟨h.decoded, h.valid, h.chained, h.intact, by simp [step]⟩

end

variable {Fits : L.Args → Prop} (hL : L.Lawful Fits) (hC : Keys.Correct C)
include hL hC

lemma snoc (h : Holds C evs s) {j : Journal} (hj : s.proc = some j)
    (hlevel : j.size = evs.length) (now : Int) {a : L.Args} (ha : Fits a) {b : L.Body}
    (hb : L.body a = .ok b) {l : Line}
    (hl : L.format.marshal (j.seal C L.format now b) = .ok l) {j' : Journal}
    (hj' : j' = j ∨ j' = j.advance (j.seal C L.format now b))
    (acked : List (Event L.Body)) :
    Holds C (evs ++ [j.seal C L.format now b])
      { dir := { s.dir with file := s.dir.file ++ [.doc l] }, proc := some j', acked } where
  decoded := by
    rw [map_append, map_append, h.decoded]
    simp only [map_cons, map_nil, Piece.decode, hL.decodes C j now a b l ha hb hl]
  valid := by
    intro e he
    rcases mem_append.mp he with he | he
    · exact h.valid e he
    · rw [mem_singleton.mp he]
      exact seal_valid hC j now b
  chained := by
    have hafter := h.proc j hj
    rw [hlevel, take_length] at hafter
    rw [chained_append, Option.or_none]
    exact ⟨h.chained, seal_follows hafter now b, trivial⟩
  intact := ⟨h.intact.key, h.intact.quantum⟩
  proc := by
    intro k hk
    obtain rfl : j' = k := Option.some.inj hk
    rcases hj' with rfl | rfl
    · rw [take_append_of_le_length (by omega)]
      exact h.proc j' hj
    · have hsize : (j.advance (j.seal C L.format now b)).size =
          (evs ++ [j.seal C L.format now b]).length := by
        simp [Journal.advance, hlevel]
      rw [hsize, take_length, getLast?_concat]
      exact ⟨rfl, rfl⟩

lemma call (h : Holds C evs s) {j : Journal} (hj : s.proc = some j)
    (hlevel : j.size = evs.length) (now : Int) {io : Io} {a : L.Args} (ha : Fits a)
    (hio : ∀ e, io.write ≠ some (.part, e)) :
    (Holds C evs (step C s (.call now io a)) ∧ (step C s (.call now io a)).acked = s.acked ∧
      (step C s (.call now io a)).proc = some j) ∨
    (¬ io.Clean ∧ (step C s (.call now io a)).acked = s.acked ∧
      ∃ ev, Holds C (evs ++ [ev]) (step C s (.call now io a))) ∨
    ∃ ev, Holds C (evs ++ [ev]) (step C s (.call now io a)) ∧
      (step C s (.call now io a)).acked = s.acked ++ [ev] ∧
      ∃ j', (step C s (.call now io a)).proc = some j' ∧ j'.size = evs.length + 1 := by
  have hstep : step C s (.call now io a) =
      { dir := { s.dir with file := (L.call C now io a j s.dir.file).file }
        proc := some (L.call C now io a j s.dir.file).journal
        acked := s.acked ++ (L.call C now io a j s.dir.file).result.toOption.toList } := by
    simp only [step, hj]
  rcases hL.cases C now io a j s.dir.file with ⟨e, hr⟩ | ⟨b, l, hb, hl, ⟨hdirty, e, hr⟩ | hr⟩
  · rw [hstep, hr]
    refine .inl ⟨⟨h.decoded, h.valid, h.chained, h.intact, fun k hk => h.proc k ?_⟩, by
      simp [Except.toOption], rfl⟩
    rw [hj]
    exact hk
  · rw [hstep, hr]
    have hsnoc := h.snoc hL hC hj hlevel now ha hb hl (.inl rfl) s.acked
    have hnothing : Holds C evs { s with proc := some j } :=
      ⟨h.decoded, h.valid, h.chained, h.intact, fun k hk => h.proc k (hj.trans hk)⟩
    simp only [Except.toOption, Option.toList_none, append_nil]
    match hw : io.write with
    | none => exact .inr (.inl ⟨hdirty, trivial, _, by simpa [Io.written, hw] using hsnoc⟩)
    | some (.whole, _) =>
      exact .inr (.inl ⟨hdirty, trivial, _, by simpa [Io.written, hw] using hsnoc⟩)
    | some (.part, e) => exact absurd hw (hio e)
    | some (.nothing, _) => exact .inl ⟨by simpa [Io.written, hw] using hnothing, trivial, trivial⟩
  · rw [hstep, hr]
    refine .inr (.inr ⟨j.seal C L.format now b,
      h.snoc hL hC hj hlevel now ha hb hl (.inr rfl) _, rfl, _, rfl, ?_⟩)
    simp [Journal.advance, hlevel]

end Holds

inductive Kind
  | admin
  | read
  deriving DecidableEq

def Kind.log : Kind → Log
  | .admin => adminLog
  | .read => readLog

def Kind.Fits : (k : Kind) → k.log.Args → Prop
  | .admin => AdminLog.Args.Fits
  | .read => ReadLog.Body.Fits

lemma Kind.lawful (k : Kind) : k.log.Lawful k.Fits := by
  cases k with
  | admin => exact adminLog_lawful
  | read => exact readLog_lawful

/-! ## Runs without faults -/

def Kind.FaultFree (k : Kind) : Action k.log → Prop
  | .start o => o.Clean
  | .call _ io args => io.Clean ∧ k.Fits args
  | .stop => True

structure Listed (C : Crypto) {L : Log} (s : State L) : Prop where
  holds : Holds C s.acked s
  size : ∀ j, s.proc = some j → j.size = s.acked.length

lemma listed_empty : Listed C ({} : State L) := ⟨holds_empty, by simp⟩

lemma Listed.step {k : Kind} (hC : Keys.Correct C) {s : State k.log} (h : Listed C s)
    {a : Action k.log} (ha : k.FaultFree a) : Listed C (step C s a) := by
  cases a with
  | start =>
    refine ⟨h.holds.start ha.uncut, fun j hj => ?_⟩
    exact (h.holds.started hj).2
  | stop => exact ⟨h.holds.stop, by simp [Journals.step]⟩
  | call now io args =>
    obtain ⟨hio, hargs⟩ := ha
    cases hj : s.proc with
    | none =>
      have hsame : Journals.step C s (.call now io args) = s := by simp only [Journals.step, hj]
      rw [hsame]
      exact h
    | some j =>
      have hpart : ∀ e, io.write ≠ some (.part, e) := by simp [hio.2.1]
      rcases h.holds.call k.lawful hC hj (h.size j hj) now hargs hpart with
        ⟨hholds, hacked, hproc⟩ | ⟨hdirty, -⟩ | ⟨ev, hholds, hacked, j', hj', hsize⟩
      · refine ⟨hacked ▸ hholds, fun j' hj' => ?_⟩
        rw [hacked, ← Option.some.inj (hproc.symm.trans hj')]
        exact h.size j hj
      · exact absurd hio hdirty
      · refine ⟨hacked ▸ hholds, fun k' hk' => ?_⟩
        rw [hacked, length_append, ← Option.some.inj (hj'.symm.trans hk')]
        exact hsize

lemma Kind.range_eq (k : Kind) {j : Journal} {file : List Piece} {evs : List (Event k.log.Body)}
    (hfile : file.map (Piece.decode k.log.format) = evs.map .ok) (hchain : Chained none evs)
    (hsize : j.size = evs.length) {lo hi : Nat} (hlt : lo < hi)
    (hspan : k = .read → hi - lo ≤ 10000) :
    k.log.range j file lo hi = .ok (evs.filter fun e => decide (lo ≤ e.index ∧ e.index < hi)) := by
  cases k with
  | admin => exact AdminLog.range_eq hfile hchain hsize hlt
  | read => exact ReadLog.range_eq hfile hchain hlt (hspan rfl)

/-- **A journal is the list of the events it returned**: in every run without faults, whatever
process has it open and in whichever mode, the file decodes to that list, the list verifies and is
linked, `Open` finds all of it, `Range` returns its parts, and the next call whose details can be
encoded returns an event. -/
theorem journal_is_list (k : Kind) (hC : Keys.Correct C) (as : List (Action k.log))
    (has : ∀ a ∈ as, k.FaultFree a) :
    let s := run (step C) {} as
    s.dir.file.map (Piece.decode k.log.format) = s.acked.map .ok ∧
    (∀ e ∈ s.acked, e.verify C k.log.format = .ok ()) ∧
    Chained none s.acked ∧
    (∀ o : Opening, o.Clean → ∃ j, (openJournal C k.log.format o s.dir).2 = .ok j ∧
      j.size = s.acked.length) ∧
    ∀ j, s.proc = some j → j.size = s.acked.length ∧
      (∀ lo hi, lo < hi → (k = .read → hi - lo ≤ 10000) →
        k.log.range j s.dir.file lo hi =
          .ok (s.acked.filter fun e => decide (lo ≤ e.index ∧ e.index < hi))) ∧
      ∀ now io args b, io.Clean → k.Fits args → k.log.body args = .ok b →
        ∃ ev, (k.log.call C now io args j s.dir.file).result = .ok ev ∧ ev.body = b := by
  intro s
  have h : Listed C s := run_invariant (fun s a ha hs => hs.step hC ha) listed_empty has
  refine ⟨h.holds.decoded, fun e he => Event.verify_ok.mpr (h.holds.valid e he), h.holds.chained,
    fun o ho => ?_, fun j hj => ⟨h.size j hj, fun lo hi hlt hspan => ?_, ?_⟩⟩
  · obtain ⟨j, hopen, hsize, -⟩ := h.holds.reopens ho
    exact ⟨j, hopen, hsize⟩
  · exact k.range_eq h.holds.decoded h.holds.chained (h.size j hj) hlt hspan
  · intro now io args b hio hargs hb
    exact ⟨_, k.lawful.succeeds C j now io args b s.dir.file hargs hio hb, rfl⟩

def sampleOpening (hybrid : Bool) (seed : UInt8) : Opening where
  hybrid
  freshKey := ⟨List.replicate Keys.edPrivateKeySize seed, by simp⟩
  freshQuantum := ⟨List.replicate Keys.quantumPrivateKeySize seed, by simp⟩

lemma sampleOpening_clean (hybrid : Bool) (seed : UInt8) : (sampleOpening hybrid seed).Clean :=
  ⟨rfl, rfl, rfl, rfl⟩

def sampleRead : ReadLog.Body where
  entryIdx := 3
  leafHash := [7]
  operation := lit "get_entry"
  callerIP := lit "10.0.0.1"
  userAgent := lit "curl"

lemma sampleRead_fits : sampleRead.Fits := ⟨by decide, by decide, by decide⟩

def sampleAction : AdminLog.Args where
  action := lit "producer_revoke"
  subject := lit "alice"
  outcome := lit "ok"
  errMsg := []
  details := some (.obj [(lit "reason", .str (lit "<lost key>"))])
  actor := []
  callerIP := []
  userAgent := lit "curl"

lemma sampleAction_fits : sampleAction.Fits where
  action := by decide
  subject := by decide
  outcome := by decide
  errMsg := by decide
  actor := by decide
  callerIP := by decide
  userAgent := by decide
  details := by
    rintro v ⟨⟩
    decide

def sampleRun : List (Action Kind.admin.log) :=
  [.start (sampleOpening false 1), .call 5 {} sampleAction, .stop,
    .start (sampleOpening true 2), .call 6 {} sampleAction]

theorem journal_is_list_sample :
    (run (step Keys.paired) ({} : State Kind.admin.log) sampleRun).acked.length = 2 ∧
    (run (step Keys.paired) ({} : State Kind.admin.log) sampleRun).dir.file.map
        (Piece.decode Kind.admin.log.format) =
      (run (step Keys.paired) ({} : State Kind.admin.log) sampleRun).acked.map .ok := by
  have hclean : ({} : Io).Clean := ⟨rfl, rfl, rfl, rfl⟩
  have hfree : ∀ a ∈ sampleRun, Kind.admin.FaultFree a := by
    intro a ha
    simp only [sampleRun, mem_cons, not_mem_nil, or_false] at ha
    rcases ha with rfl | rfl | rfl | rfl | rfl
    · exact sampleOpening_clean _ _
    · exact ⟨hclean, sampleAction_fits⟩
    · exact trivial
    · exact sampleOpening_clean _ _
    · exact ⟨hclean, sampleAction_fits⟩
  exact ⟨by decide +kernel, (journal_is_list .admin Keys.paired_correct sampleRun hfree).1⟩

end Stele.Journals
