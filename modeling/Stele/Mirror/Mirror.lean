import Stele.Core.Caches

/-!
# The mirror (`pkg/mirror`)

A mirror copies the log of an upstream into a store of its own. A step of the machine is an answer
of the upstream or a transaction of the store; between two steps the process may crash, and `New`
starts it again. The upstream answers what it likes; its JSON decodes to entries, none of them null.
The counters of `Status` are not part of the model.
-/

namespace Stele

open Lib List

def Envelope.decoded (env : Envelope) : Envelope :=
  { env with
    producerID := coerce env.producerID
    source := coerce env.source
    type := coerce env.type }

/-- The entry as the JSON decoder returns it: ill-formed UTF-8 is replaced. -/
def Entry.decoded (e : Entry) : Entry := { e with envelope := e.envelope.map Envelope.decoded }

lemma Entry.decoded_utf8 (e : Entry) : e.decoded.IsUtf8 := by
  intro env henv
  obtain ⟨env', -, rfl⟩ := Option.map_eq_some_iff.mp henv
  exact ⟨utf8_coerce _, utf8_coerce _, utf8_coerce _⟩

lemma Entry.decoded_of_utf8 {e : Entry} (h : e.IsUtf8) : e.decoded = e := by
  unfold decoded
  cases henv : e.envelope with
  | none => rw [Option.map_none, ← henv]
  | some env =>
    have hutf8 := h env henv
    have hsame : env.decoded = env := by
      unfold Envelope.decoded
      rw [coerce_of_utf8 hutf8.producerID, coerce_of_utf8 hutf8.source, coerce_of_utf8 hutf8.type]
    rw [Option.map_some, hsame, ← henv]

namespace Mirror

structure Config where
  upstream : Bytes
  chunkSize : Nat

def Config.chunk (cfg : Config) : Nat := if cfg.chunkSize = 0 then 256 else cfg.chunkSize

lemma Config.chunk_pos (cfg : Config) : 0 < cfg.chunk := by
  unfold Config.chunk
  split <;> omega

inductive Pc
  | idle
  | fetch (start upstreamSize : Nat)
  | accept (rest : List Entry) (start upstreamSize : Nat)
  deriving DecidableEq

structure Proc where
  prev : Option Entry
  lastSize : Nat
  pc : Pc := .idle

def new (cfg : Config) (sizeFault entryFault : Option Err) (db : Db) : Res Proc := do
  ensure (cfg.upstream ≠ []) (errorf "mirror: Upstream required" [])
  let size ← db.getSize sizeFault
  if size > 0 then
    let prev ← wrapErr "mirror: read tail entry: %w" [] (db.getEntry entryFault (size - 1))
    return { prev := some prev, lastSize := size }
  else return { prev := none, lastSize := size }

def rangeEnd (cfg : Config) (start upstreamSize : Nat) : Nat :=
  let stop := (start + cfg.chunk) % 2 ^ 64
  if stop > upstreamSize then upstreamSize else stop

def nextRound (cfg : Config) (start upstreamSize : Nat) : Pc :=
  let start := (start + cfg.chunk) % 2 ^ 64
  if start < upstreamSize then .fetch start upstreamSize else .idle

def acceptRest (cfg : Config) (rest : List Entry) (start upstreamSize : Nat) : Pc :=
  if rest = [] then nextRound cfg start upstreamSize else .accept rest start upstreamSize

variable (C : Crypto)

def acceptEntry (fault : Option Err) (e : Entry) (db : Db) (m : Proc) : Db × Proc × Res Unit :=
  match (do e.verify C; e.verifyChain m.prev) with
  | .error f => (db, m, .error f)
  | .ok () =>
    match db.appendEntry fault e with
    | (db, .error f) => (db, m, .error f)
    | (db, .ok ()) => (db, { m with prev := some e, lastSize := m.lastSize + 1 }, .ok ())

structure State where
  db : Db := .empty
  proc : Option Proc := none

inductive Action
  | new (sizeFault entryFault : Option Err)
  | sync (answer : Except Err Nat)
  | entries (answer : Except Err (List Entry))
  | accept (fault : Option Err)
  | crash

def procStep (cfg : Config) (db : Db) (m : Proc) : Action → Db × Proc
  | .sync answer =>
    match m.pc, answer with
    | .idle, .ok upstreamSize =>
      if upstreamSize ≤ m.lastSize then (db, m)
      else (db, { m with pc := .fetch m.lastSize upstreamSize })
    | _, _ => (db, m)
  | .entries answer =>
    match m.pc, answer with
    | .fetch _ _, .error _ => (db, { m with pc := .idle })
    | .fetch start upstreamSize, .ok es =>
      (db, { m with pc := acceptRest cfg (es.map Entry.decoded) start upstreamSize })
    | _, _ => (db, m)
  | .accept fault =>
    match m.pc with
    | .accept (e :: rest) start upstreamSize =>
      match acceptEntry C fault e db m with
      | (db, m, .error _) => (db, { m with pc := .idle })
      | (db, m, .ok ()) => (db, { m with pc := acceptRest cfg rest start upstreamSize })
    | _ => (db, m)
  | .new _ _ | .crash => (db, m)

def step (cfg : Config) (s : State) (a : Action) : State :=
  match a with
  | .new sizeFault entryFault => { s with proc := (new cfg sizeFault entryFault s.db).toOption }
  | .crash => { s with proc := none }
  | a =>
    match s.proc with
    | none => s
    | some m => ⟨(procStep C cfg s.db m a).1, some (procStep C cfg s.db m a).2⟩

/-! ## Safety -/

variable {C} {e : Entry} {db : Db} {m : Proc}

lemma acceptEntry_error {fault : Option Err} {db' : Db} {m' : Proc} {f : Fault}
    (h : acceptEntry C fault e db m = (db', m', .error f)) : db' = db ∧ m' = m := by
  unfold acceptEntry at h
  split at h
  · cases h
    exact ⟨rfl, rfl⟩
  · split at h
    · rename_i heq
      cases h
      exact ⟨Db.appendEntry_error heq, rfl⟩
    · cases h

variable {es : List Entry}

/-- What comes after a log has the index and the link that `AppendEntry` asks for. -/
lemma follows_holds (h : db.Holds C es) (he : e.Follows es.getLast?) :
    e.index = es.length ∧ e.prevHash = Db.headOf es := by
  unfold Db.headOf
  cases hlast : es.getLast? with
  | none =>
    rw [hlast] at he
    rw [getLast?_eq_none_iff.mp hlast]
    exact he
  | some =>
    rw [hlast] at he
    have hpos : es.length ≠ 0 := by
      intro h0
      rw [length_eq_zero_iff.mp h0] at hlast
      cases hlast
    rw [getLast?_eq_getElem?] at hlast
    have hindex := h.chained.index_eq hlast
    rw [Entry.nextIndex] at hindex
    refine ⟨?_, he.2⟩
    rw [he.1]
    omega

structure Proc.AtEnd (es : List Entry) (m : Proc) : Prop where
  lastSize : m.lastSize = es.length
  prev : m.prev = es.getLast?

lemma acceptEntry_cases (h : db.Holds C es) (hm : m.AtEnd es) (fault : Option Err)
    (hutf8 : e.IsUtf8) :
    (∃ f, acceptEntry C fault e db m = (db, m, .error f)) ∨
    (e.index = es.length ∧ ∃ db', db'.Holds C (es ++ [e]) ∧ acceptEntry C fault e db m =
      (db', { m with prev := some e, lastSize := m.lastSize + 1 }, .ok ())) := by
  unfold acceptEntry
  split
  · rename_i f _
    exact .inl ⟨f, rfl⟩
  · rename_i hchecks
    simp only [bind_ok, Entry.verify_ok, Entry.verifyChain_ok, exists_const] at hchecks
    obtain ⟨hsound, hfollows⟩ := hchecks
    rw [hm.prev] at hfollows
    obtain ⟨hindex, hprev⟩ := follows_holds h hfollows
    rcases h.appendEntry fault hindex hprev hsound hutf8 with ⟨db', heq, hdb'⟩ | ⟨f, heq⟩
    · rw [heq]
      exact .inr ⟨hindex, db', hdb', rfl⟩
    · rw [heq]
      exact .inl ⟨f, rfl⟩

lemma acceptEntry_next (h : db.Holds C es) (hm : m.AtEnd es) (hsound : e.Sound C)
    (hfollows : e.Follows es.getLast?) (hutf8 : e.IsUtf8) :
    ∃ db', db'.Holds C (es ++ [e]) ∧ acceptEntry C none e db m =
      (db', { m with prev := some e, lastSize := m.lastSize + 1 }, .ok ()) := by
  obtain ⟨hindex, hprev⟩ := follows_holds h hfollows
  obtain ⟨db', htxn, hdb'⟩ := h.appendEntryTxn_ok hindex hprev hsound hutf8
  have hsealed : ¬ (e.entryHash = [] ∨ e.leafHash = []) := by
    have hentry := hsound.entryHash_length
    have hleaf := hsound.leafHash_length
    rintro (hnil | hnil)
    · rw [hnil] at hentry
      cases hentry
    · rw [hnil] at hleaf
      cases hleaf
  refine ⟨db', hdb', ?_⟩
  have hchecks : (do e.verify C; e.verifyChain m.prev) = .ok () := by
    simp only [bind_ok, Entry.verify_ok, Entry.verifyChain_ok, exists_const]
    exact ⟨hsound, hm.prev ▸ hfollows⟩
  simp only [acceptEntry, hchecks, Db.appendEntry, if_neg hsealed, Db.update, htxn]

def Pc.All (P : Entry → Prop) : Pc → Prop
  | .accept rest _ _ => ∀ e ∈ rest, P e
  | _ => True

def Action.Sends (P : Entry → Prop) : Action → Prop
  | .entries (.ok es) => ∀ e ∈ es, P e.decoded
  | _ => True

variable {P : Entry → Prop}

lemma acceptRest_all {cfg : Config} {rest : List Entry} {start upstreamSize : Nat}
    (h : ∀ e ∈ rest, P e) : (acceptRest cfg rest start upstreamSize).All P := by
  unfold acceptRest
  split
  · simp only [nextRound]
    split <;> trivial
  · exact h

structure Safe (C : Crypto) (P : Entry → Prop) (es : List Entry) (s : State) : Prop where
  db : s.db.Holds C es
  proc : ∀ m, s.proc = some m → m.AtEnd es ∧ m.pc.All P

def Grows (P : Entry → Prop) (es es' : List Entry) : Prop :=
  es' = es ∨ ∃ e, P e ∧ e.index = es.length ∧ es' = es ++ [e]

lemma Grows.isPrefix {es' : List Entry} (h : Grows P es es') : es <+: es' := by
  rcases h with rfl | ⟨e, -, -, rfl⟩
  · exact prefix_refl _
  · exact prefix_append es [e]

lemma new_atEnd {cfg : Config} {sizeFault entryFault : Option Err} (h : db.Holds C es)
    (hnew : new cfg sizeFault entryFault db = .ok m) : m.AtEnd es ∧ m.pc = .idle := by
  simp only [new, bind_ok, ensure_ok, exists_const] at hnew
  obtain ⟨-, size, hsize, hnew⟩ := hnew
  have hlength : size = es.length := by
    have hread := h.size
    cases sizeFault with
    | some => cases hsize
    | none =>
      simp only [Db.getSize, Db.view, Db.readSize] at hsize hread
      split at hsize <;> simp_all
  subst hlength
  split at hnew
  · rename_i hpos
    simp only [bind_ok, wrapErr_ok, pure_ok] at hnew
    obtain ⟨prev, hprev, rfl⟩ := hnew
    obtain ⟨e, he⟩ : ∃ e, es[es.length - 1]? = some e := ⟨_, getElem?_eq_getElem (by omega)⟩
    cases entryFault with
    | some => cases hprev
    | none =>
      have hget := Core.getEntry_of_holds h he
      obtain rfl : e = prev := Except.ok.inj (hget.symm.trans hprev)
      exact ⟨⟨rfl, by rw [getLast?_eq_getElem?, he]⟩, rfl⟩
  · rename_i hzero
    simp only [pure_ok] at hnew
    subst hnew
    obtain rfl : es = [] := length_eq_zero_iff.mp (by omega)
    exact ⟨⟨rfl, rfl⟩, rfl⟩

lemma Proc.AtEnd.goto (h : m.AtEnd es) (pc : Pc) :
    ({ m with pc := pc } : Proc).AtEnd es := ⟨h.lastSize, h.prev⟩

lemma Proc.AtEnd.accepted (h : m.AtEnd es) (e : Entry) (pc : Pc) :
    ({ m with prev := some e, lastSize := m.lastSize + 1, pc := pc } : Proc).AtEnd (es ++ [e]) :=
  ⟨by simp [h.lastSize], by simp⟩

section
variable (hP : ∀ e, P e → e.IsUtf8) (cfg : Config)
include hP

lemma procStep_safe {db : Db} {es : List Entry} (h : db.Holds C es) {m : Proc}
    (hm : m.AtEnd es) (hall : m.pc.All P) {a : Action} (ha : a.Sends P) :
    ∃ es', Grows P es es' ∧ (procStep C cfg db m a).1.Holds C es' ∧
      (procStep C cfg db m a).2.AtEnd es' ∧ (procStep C cfg db m a).2.pc.All P := by
  cases a with
  | new => exact ⟨es, .inl rfl, h, hm, hall⟩
  | crash => exact ⟨es, .inl rfl, h, hm, hall⟩
  | sync =>
    simp only [procStep]
    split
    · split
      · exact ⟨es, .inl rfl, h, hm, hall⟩
      · exact ⟨es, .inl rfl, h, hm.goto _, trivial⟩
    · exact ⟨es, .inl rfl, h, hm, hall⟩
  | entries =>
    simp only [procStep]
    split
    · exact ⟨es, .inl rfl, h, hm.goto _, trivial⟩
    · refine ⟨es, .inl rfl, h, hm.goto _, acceptRest_all fun e he => ?_⟩
      obtain ⟨e', he', rfl⟩ := mem_map.mp he
      exact ha e' he'
    · exact ⟨es, .inl rfl, h, hm, hall⟩
  | accept fault =>
    cases hpc : m.pc with
    | accept rest start upstreamSize =>
      cases rest with
      | nil =>
        simp only [procStep, hpc]
        exact ⟨es, .inl rfl, h, hm, hpc ▸ hall⟩
      | cons e rest =>
        rw [hpc] at hall
        have he := hall e mem_cons_self
        have hrest : (acceptRest cfg rest start upstreamSize).All P :=
          acceptRest_all fun x hx => hall x (mem_cons_of_mem _ hx)
        rcases acceptEntry_cases h hm fault (hP e he) with ⟨f, heq⟩ | ⟨hindex, db', hdb', heq⟩
        · refine ⟨es, .inl rfl, ?_⟩
          simp only [procStep, hpc, heq]
          exact ⟨h, hm.goto _, trivial⟩
        · refine ⟨es ++ [e], .inr ⟨e, he, hindex, rfl⟩, ?_⟩
          simp only [procStep, hpc, heq]
          exact ⟨hdb', hm.accepted e _, hrest⟩
    | idle =>
      simp only [procStep, hpc]
      exact ⟨es, .inl rfl, h, hm, hpc ▸ hall⟩
    | fetch =>
      simp only [procStep, hpc]
      exact ⟨es, .inl rfl, h, hm, hpc ▸ hall⟩

lemma step_safe {s : State} {es : List Entry} (h : Safe C P es s) {a : Action}
    (ha : a.Sends P) : ∃ es', Grows P es es' ∧ Safe C P es' (step C cfg s a) := by
  have hproc : ∀ m, s.proc = some m → ∃ es', Grows P es es' ∧
      Safe C P es' ⟨(procStep C cfg s.db m a).1, some (procStep C cfg s.db m a).2⟩ := by
    intro m hm
    obtain ⟨hend, hall⟩ := h.proc m hm
    obtain ⟨es', hgrows, hdb, hend', hall'⟩ := procStep_safe hP cfg h.db hend hall ha
    refine ⟨es', hgrows, hdb, fun m' hm' => ?_⟩
    rw [← Option.some.inj hm']
    exact ⟨hend', hall'⟩
  cases a with
  | new sizeFault entryFault =>
    refine ⟨es, .inl rfl, h.db, fun m hm => ?_⟩
    have hnew : new cfg sizeFault entryFault s.db = .ok m := by
      cases hres : new cfg sizeFault entryFault s.db with
      | error => simp [step, hres, Except.toOption] at hm
      | ok m' =>
        have : m' = m := by simpa [step, hres, Except.toOption] using hm
        rw [this]
    obtain ⟨hend, hidle⟩ := new_atEnd h.db hnew
    refine ⟨hend, ?_⟩
    rw [hidle]
    trivial
  | crash => exact ⟨es, .inl rfl, h.db, by simp [step]⟩
  | _ =>
    cases hm : s.proc with
    | none => exact ⟨es, .inl rfl, by simpa only [step, hm] using h⟩
    | some m => simpa only [step, hm] using hproc m hm

end

lemma Action.sends_utf8 (a : Action) : a.Sends Entry.IsUtf8 := by
  cases a with
  | entries answer =>
    cases answer with
    | error => trivial
    | ok => exact fun e _ => e.decoded_utf8
  | _ => trivial

/-- **Every run is safe, and adds to the log it starts with**, whatever the upstream answers. -/
theorem run_safe (cfg : Config) {s : State} (h : Safe C Entry.IsUtf8 es s) (as : List Action) :
    ∃ es', es <+: es' ∧ Safe C Entry.IsUtf8 es' (run (step C cfg) s as) := by
  induction as generalizing s es with
  | nil => exact ⟨es, prefix_refl es, h⟩
  | cons a as ih =>
    obtain ⟨es', hgrows, h'⟩ := step_safe (fun _ he => he) cfg h a.sends_utf8
    obtain ⟨es'', hpre, h''⟩ := ih h'
    exact ⟨es'', hgrows.isPrefix.trans hpre, h''⟩

lemma empty_safe : Safe C P [] {} := ⟨Db.empty_holds, by simp⟩

end Mirror

end Stele
