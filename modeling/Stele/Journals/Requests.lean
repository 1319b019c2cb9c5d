import Stele.Journals.Runs

/-!
# The journals behind the API (`pkg/api`)

`recordRead` and `recordAdmin` put strings of the request into an event as they are. The signature
is over these octets, but the document has them with every ill-formed UTF-8 sequence replaced.
-/

namespace Stele.Journals

open Lib JsonText List

structure Request where
  commonName : Option Bytes := none
  adminHeader : Bytes := []
  remoteAddr : Bytes := []
  userAgent : Bytes := []

def callerIdentity (r : Request) : Bytes :=
  let cn := Keys.trimSpace (r.commonName.getD [])
  if cn ≠ [] then cn else Keys.trimSpace r.adminHeader

def recordRead (r : Request) (entryIdx : Nat) (leafHash op : Bytes) : ReadLog.Body where
  entryIdx
  leafHash
  operation := op
  callerIP := r.remoteAddr
  userAgent := r.userAgent

def recordAdmin (r : Request) (action subject : Bytes) (details : Option Value)
    (err : Option Bytes) : AdminLog.Args where
  action
  subject
  outcome := if err.isSome then lit "error" else lit "ok"
  errMsg := err.getD []
  details
  actor := callerIdentity r
  callerIP := r.remoteAddr
  userAgent := r.userAgent

structure Server where
  readLog : State Kind.read.log := {}
  adminLog : State Kind.admin.log := {}

inductive Served
  | restart (o o' : Opening)
  | read (now : Int) (r : Request) (entryIdx : Nat) (leafHash op : Bytes)
  | admin (now : Int) (r : Request) (action subject : Bytes) (details : Option Value)
      (err : Option Bytes)

variable (C : Crypto)

def Server.step (s : Server) : Served → Server
  | .restart o o' =>
    { readLog := Journals.step C s.readLog (.start o)
      adminLog := Journals.step C s.adminLog (.start o') }
  | .read now r entryIdx leafHash op =>
    let call := recordRead r entryIdx leafHash op
    { s with readLog := Journals.step C s.readLog (.call now {} call) }
  | .admin now r action subject details err =>
    let call := recordAdmin r action subject details err
    { s with adminLog := Journals.step C s.adminLog (.call now {} call) }

def Served.Fits : Served → Prop
  | .restart o o' => o.Clean ∧ o'.Clean
  | .read _ r entryIdx leafHash op => (recordRead r entryIdx leafHash op).Fits
  | .admin _ r action subject details err => (recordAdmin r action subject details err).Fits

/-- Every document of the journal decodes to an event that verifies, and `Open` finds the size and
the link that the process has. -/
def Sound (k : Kind) (s : State k.log) : Prop :=
  (∀ p ∈ s.dir.file, ∃ e, p.decode k.log.format = .ok e ∧ e.verify C k.log.format = .ok ()) ∧
  ∀ j, s.proc = some j → ∀ o : Opening, o.Clean →
    ∃ j', (openJournal C k.log.format o s.dir).2 = .ok j' ∧ j'.size = j.size ∧ j'.prev = j.prev

variable {C}

lemma Listed.sound {k : Kind} {s : State k.log} (h : Listed C s) : Sound C k s := by
  refine ⟨fun p hp => ?_, fun j hj o ho => ?_⟩
  · obtain ⟨e, he, hdecode⟩ := mem_map.mp
      (h.holds.decoded ▸ mem_map_of_mem (f := Piece.decode k.log.format) hp)
    exact ⟨e, hdecode.symm, Event.verify_ok.mpr (h.holds.valid e he)⟩
  · obtain ⟨j', hopen, hsize, hprev⟩ := h.holds.reopens ho
    have hafter := h.holds.proc j hj
    rw [h.size j hj, take_length] at hafter
    exact ⟨j', hopen, hsize.trans (h.size j hj).symm, hprev.trans hafter.prev.symm⟩

variable (C) in
def Server.BothListed (s : Server) : Prop := Listed C s.readLog ∧ Listed C s.adminLog

lemma Server.BothListed.step (hC : Keys.Correct C) {s : Server} (h : s.BothListed C)
    {a : Served} (ha : a.Fits) : (s.step C a).BothListed C := by
  have hclean : ({} : Io).Clean := ⟨rfl, rfl, rfl, rfl⟩
  cases a with
  | restart o o' => exact ⟨h.1.step hC (a := .start o) ha.1, h.2.step hC (a := .start o') ha.2⟩
  | read now => exact ⟨h.1.step hC (a := .call now {} _) ⟨hclean, ha⟩, h.2⟩
  | admin now =>
    exact ⟨h.1, h.2.step hC (a := .call now {} _) ⟨hclean, ha⟩⟩

/-- **Requests with UTF-8 strings keep the journals sound**, in every run of a server. -/
theorem requests_keep_journals (hC : Keys.Correct C) (as : List Served)
    (has : ∀ a ∈ as, a.Fits) :
    let s := run (Server.step C) {} as
    Sound C .read s.readLog ∧ Sound C .admin s.adminLog := by
  intro s
  have h : s.BothListed C := run_invariant (fun s a ha hs => hs.step hC ha)
    ⟨listed_empty, listed_empty⟩ has
  exact ⟨h.1.sound, h.2.sound⟩

def visit (userAgent : Bytes) : List Served :=
  [.restart (sampleOpening false 1) (sampleOpening false 2),
    .read 5 { userAgent } 3 [7] (lit "get_entry"),
    .admin 6 { adminHeader := lit "bob", userAgent } (lit "producer_revoke") (lit "alice") none
      none]

theorem requests_keep_journals_visit :
    (run (Server.step Keys.paired) {} (visit (lit "curl"))).adminLog.acked.length = 1 ∧
    Sound Keys.paired .read (run (Server.step Keys.paired) {} (visit (lit "curl"))).readLog ∧
    Sound Keys.paired .admin (run (Server.step Keys.paired) {} (visit (lit "curl"))).adminLog := by
  have hfits : ∀ a ∈ visit (lit "curl"), a.Fits := by
    intro a ha
    simp only [visit, mem_cons, not_mem_nil, or_false] at ha
    rcases ha with rfl | rfl | rfl
    · exact ⟨sampleOpening_clean _ _, sampleOpening_clean _ _⟩
    · exact ⟨by decide, by decide, by decide⟩
    · exact ⟨by decide, by decide, by decide, by decide, by decide, by decide, by decide,
        by rintro v ⟨⟩⟩
  exact ⟨by decide +kernel, requests_keep_journals Keys.paired_correct _ hfits⟩

def measuring : Crypto :=
  { Keys.paired with
    sha256 := fun msg => Crypto.fit 32 (be 8 msg.length ++ msg)
    sha256_length := fun _ => Crypto.fit_length 32 _ }

/-- **A request poisons both journals**: with the octet `0xff` as `User-Agent` the calls return an
event, and neither journal opens again. -/
theorem request_poisons_journal :
    let s := run (Server.step measuring) {} (visit [0xFF])
    s.readLog.acked.length = 1 ∧ s.adminLog.acked.length = 1 ∧
    (openJournal measuring Kind.read.log.format (sampleOpening false 1) s.readLog.dir).2 =
      .error ((errorf "read event %d: EventHash mismatch" [.nat 0]).wrap
        "readlog replay: %w" []) ∧
    (openJournal measuring Kind.admin.log.format (sampleOpening false 1) s.adminLog.dir).2 =
      .error ((errorf "admin event %d: EventHash mismatch" [.nat 0]).wrap
        "adminlog replay: %w" []) := by
  refine ⟨?_, ?_, ?_, ?_⟩ <;> decide +kernel

end Stele.Journals
