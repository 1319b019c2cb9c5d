import Stele.Journals.Runs

/-!
# Journals and write faults

A process that failed in a call goes on with the size and the link from before it, whatever is in
the file by then. Two faults make a file that cannot be opened: a write that stops inside a
document, and a call that follows one whose document was written although it failed.
-/

namespace Stele.Journals

open Lib

variable {C : Crypto}

/-- No write stops inside a document or a key file, and the process that makes a call has not left
the file behind it with an event that it did not count. -/
def Kind.Calm (k : Kind) (s : State k.log) : Action k.log → Prop
  | .start o => o.Uncut
  | .call _ io args => k.Fits args ∧ (∀ e, io.write ≠ some (.part, e)) ∧
      ∀ j, s.proc = some j → j.size = s.dir.file.length
  | .stop => True

def Kept (C : Crypto) {L : Log} (s : State L) : Prop :=
  ∃ evs, Holds C evs s ∧ s.acked.Sublist evs

lemma Kept.step {k : Kind} (hC : Keys.Correct C) {s : State k.log} (h : Kept C s)
    {a : Action k.log} (ha : k.Calm s a) : Kept C (step C s a) := by
  obtain ⟨evs, hholds, hacked⟩ := h
  cases a with
  | start => exact ⟨evs, hholds.start ha, hacked⟩
  | stop => exact ⟨evs, hholds.stop, hacked⟩
  | call now io args =>
    obtain ⟨hargs, hio, hlevel⟩ := ha
    cases hj : s.proc with
    | none =>
      have hsame : Journals.step C s (.call now io args) = s := by simp only [Journals.step, hj]
      rw [hsame]
      exact ⟨evs, hholds, hacked⟩
    | some j =>
      have hsize : j.size = evs.length := (hlevel j hj).trans hholds.length_eq
      rcases hholds.call k.lawful hC hj hsize now hargs hio with
        ⟨hholds', hsame, -⟩ | ⟨-, hsame, ev, hholds'⟩ | ⟨ev, hholds', hmore, -⟩
      · exact ⟨evs, hholds', hsame ▸ hacked⟩
      · -- the event is in the file, and nobody was told
        refine ⟨evs ++ [ev], hholds', ?_⟩
        rw [hsame]
        exact hacked.trans (List.sublist_append_left evs [ev])
      · refine ⟨evs ++ [ev], hholds', ?_⟩
        rw [hmore]
        exact hacked.append (List.Sublist.refl [ev])

/-- **Journals survive the other faults**: in every run whose steps are calm, the file opens, and
the events it holds are chained, numbered from 0 and contain every returned event in order. -/
theorem journal_survives (k : Kind) (hC : Keys.Correct C) (as : List (Action k.log))
    (has : Along (step C) k.Calm {} as) :
    let s := run (step C) {} as
    ∃ evs : List (Event k.log.Body),
      (reached s.dir.file).map (Piece.decode k.log.format) = evs.map .ok ∧
      s.acked.Sublist evs ∧ Chained none evs ∧
      (∀ (i : Nat) (e : Event k.log.Body), evs[i]? = some e → e.index = i) ∧
      ∀ o : Opening, o.Clean → ∃ j, (openJournal C k.log.format o s.dir).2 = .ok j ∧
        j.size = evs.length := by
  intro s
  obtain ⟨evs, hholds, hacked⟩ : Kept C s := along_invariant (fun s a hs ha => hs.step hC ha)
    ⟨[], holds_empty, List.Sublist.refl _⟩ has
  refine ⟨evs, ?_, hacked, hholds.chained, fun i e he => hholds.chained.index_eq he, ?_⟩
  · rw [reached_of_decoded hholds.decoded, hholds.decoded]
  · intro o ho
    obtain ⟨j, hopen, hsize, -⟩ := hholds.reopens ho
    exact ⟨j, hopen, hsize⟩

def unsynced : Io := { sync := some (errorf "input/output error" []) }

def syncFailure : List (Action Kind.read.log) :=
  [.start (sampleOpening false 1), .call 5 {} sampleRead, .call 6 unsynced sampleRead,
    .start (sampleOpening false 1), .call 7 {} sampleRead]

theorem journal_survives_syncFailure :
    (run (step Keys.paired) ({} : State Kind.read.log) syncFailure).acked.length = 2 ∧
    ∃ evs : List (Event Kind.read.log.Body),
      (reached (run (step Keys.paired) ({} : State Kind.read.log) syncFailure).dir.file).map
        (Piece.decode Kind.read.log.format) = evs.map .ok := by
  have hcalm : Along (step Keys.paired) Kind.read.Calm {} syncFailure := by
    refine ⟨(sampleOpening_clean _ _).uncut, ⟨sampleRead_fits, by simp, ?_⟩,
      ⟨sampleRead_fits, by simp [unsynced], ?_⟩, (sampleOpening_clean _ _).uncut,
      ⟨sampleRead_fits, by simp, ?_⟩, trivial⟩
    all_goals decide +kernel
  obtain ⟨evs, hevs, -⟩ := journal_survives .read Keys.paired_correct syncFailure hcalm
  exact ⟨by decide +kernel, evs, hevs⟩

def torn : Io := { write := some (.part, errorf "no space left on device" []) }

/-- **Faults break a journal**: after a torn write the file does not open. It does not open either
when a call succeeds after one whose `Sync` failed: two events have index 1. -/
theorem faults_break_journal :
    (openJournal Keys.paired Kind.read.log.format (sampleOpening false 1)
      (run (step Keys.paired) ({} : State Kind.read.log)
        [.start (sampleOpening false 1), .call 5 {} sampleRead, .call 6 torn sampleRead]).dir).2 =
      .error ((errorf "invalid character or unexpected EOF" []).wrap "readlog replay: %w" []) ∧
    (openJournal Keys.paired Kind.read.log.format (sampleOpening false 1)
      (run (step Keys.paired) ({} : State Kind.read.log)
        [.start (sampleOpening false 1), .call 5 {} sampleRead, .call 6 unsynced sampleRead,
          .call 7 {} sampleRead]).dir).2 =
      .error (errorf "readlog replay: event index gap %d -> %d" [.nat 1, .nat 1]) ∧
    (openJournal Keys.paired Kind.admin.log.format (sampleOpening false 1)
      (run (step Keys.paired) ({} : State Kind.admin.log)
        [.start (sampleOpening false 1), .call 5 unsynced sampleAction,
          .call 6 {} sampleAction]).dir).2 =
      .error (errorf "adminlog replay: index gap %d -> %d" [.nat 0, .nat 0]) := by
  refine ⟨?_, ?_, ?_⟩ <;> decide +kernel

end Stele.Journals
