import Stele.Api.Server
import Stele.Core.Restart
import Stele.Mirror.Mirror

/-!
# A mirror of an honest operator

The mirror's requests are answered by the handlers of an operator (`Core`), whose calls, crashes and
restarts come between them in any order. A request may be lost.
-/

namespace Stele.Mirror

open Lib List Option Core

variable (C : Crypto) {R : RangeImpl Bytes}

structure World (R : RangeImpl Bytes) where
  operator : Core.State R := Core.init R
  mirror : State := {}

inductive Joint
  | operator (a : Core.Action)
  | new (sizeFault entryFault : Option Err)
  | sync (lost : Option Err)
  | next (lost fault : Option Err)
  | crash

def World.ask {α : Type} (base : Api.Server R) (lost : Option Err)
    (handler : Api.Server R → Except Err α) (w : World R) : Except Err α :=
  match lost, w.operator.proc with
  | some e, _ => .error e
  | none, none => .error (.errorf "connection refused" [])
  | none, some p => handler { base with db := w.operator.db, tree := p.tree }

def World.fetchEntries (base : Api.Server R) (lost : Option Err) (start stop : Nat)
    (w : World R) : Except Err (List Entry) :=
  (w.ask base lost fun s => s.handleEntriesRange start stop).map (List.filterMap id)

def World.due (cfg : Config) (base : Api.Server R) (lost fault : Option Err) (w : World R) :
    Option Action :=
  match w.mirror.proc.map Proc.pc with
  | some (.fetch start upstreamSize) =>
    some (.entries (w.fetchEntries base lost start (rangeEnd cfg start upstreamSize)))
  | some (.accept _ _ _) => some (.accept fault)
  | _ => none

def World.step (opts : Core.Options) (cfg : Config) (base : Api.Server R) (w : World R) :
    Joint → World R
  | .operator a => { w with operator := Core.step C opts w.operator a }
  | .new sizeFault entryFault =>
    { w with mirror := Mirror.step C cfg w.mirror (.new sizeFault entryFault) }
  | .sync lost =>
    let answer := w.ask base lost fun s => s.handleSize C
    { w with mirror := Mirror.step C cfg w.mirror (.sync answer) }
  | .next lost fault =>
    match w.due cfg base lost fault with
    | some a => { w with mirror := Mirror.step C cfg w.mirror a }
    | none => w
  | .crash => { w with mirror := Mirror.step C cfg w.mirror .crash }

def Joint.IsUtf8 : Joint → Prop
  | .operator a => a.IsUtf8
  | _ => True

variable {C} {RngHolds : R.Rng → List Bytes → Prop}

/-! ## The mirror copies -/

structure Copies (C : Crypto) (RngHolds : R.Rng → List Bytes → Prop) (es copy : List Entry)
    (w : World R) : Prop where
  operator : w.operator.Inv C RngHolds es
  mirror : Safe C (· ∈ es) copy w.mirror
  isPrefix : copy <+: es

variable {es : List Entry}

lemma Safe.mono {P Q : Entry → Prop} (hPQ : ∀ e, P e → Q e) {s : State} (h : Safe C P es s) :
    Safe C Q es s := by
  refine ⟨h.db, fun m hm => ?_⟩
  obtain ⟨hend, hall⟩ := h.proc m hm
  refine ⟨hend, ?_⟩
  cases hpc : m.pc with
  | accept =>
    rw [hpc] at hall
    exact fun e he => hPQ e (hall e he)
  | _ => trivial

variable {copy : List Entry}

lemma Copies.grows {copy' : List Entry} {w : World R} (h : Copies C RngHolds es copy w)
    (hgrows : Grows (· ∈ es) copy copy') : copy' <+: es := by
  rcases hgrows with rfl | ⟨e, he, hindex, rfl⟩
  · exact h.isPrefix
  · obtain ⟨i, hi⟩ := mem_iff_getElem?.mp he
    have hplace : e.index = i := by
      rw [h.operator.db.chained.index_eq hi, Entry.nextIndex, Nat.zero_add]
    have hcopy : copy = es.take i := by
      rw [← hplace, hindex]
      exact prefix_iff_eq_take.mp h.isPrefix
    have hnext : es.take i ++ [e] = es.take (i + 1) := by
      rw [take_add_one, hi]
      rfl
    rw [hcopy, hnext]
    exact take_prefix _ _

variable {base : Api.Server R} {w : World R}

section
variable {es copy : List Entry}

lemma fetchEntries_ok (h : w.operator.Inv C RngHolds es) {lost : Option Err} {start stop : Nat}
    {answer : List Entry} (hok : w.fetchEntries base lost start stop = .ok answer) :
    start < 2 ^ 64 ∧ stop < 2 ^ 64 ∧ start < stop ∧ stop - start ≤ 10000 ∧
      answer = (es.drop start).take (stop - start) := by
  unfold World.fetchEntries World.ask at hok
  cases lost with
  | some => cases hok
  | none =>
    cases hproc : w.operator.proc with
    | none => simp [hproc, Except.map] at hok
    | some p =>
      simp only [hproc] at hok
      cases hanswer : Api.Server.handleEntriesRange
          { base with db := w.operator.db, tree := p.tree } start stop with
      | error e => simp [hanswer, Except.map] at hok
      | ok sent =>
        have hholds : ({ base with db := w.operator.db, tree := p.tree } :
            Api.Server R).db.Holds C es := h.db
        obtain ⟨hstart, hstop, hlt, hmax, rfl⟩ :=
          (Api.Server.handleEntriesRange_ok hholds).mp hanswer
        simp only [hanswer, Except.map, Except.ok.injEq, filterMap_map] at hok
        refine ⟨hstart, hstop, hlt, hmax, ?_⟩
        rw [← hok]
        exact filterMap_some

lemma fetchEntries_sends (h : w.operator.Inv C RngHolds es) (lost : Option Err)
    (start stop : Nat) : (Action.entries (w.fetchEntries base lost start stop)).Sends (· ∈ es) := by
  cases hok : w.fetchEntries base lost start stop with
  | error => trivial
  | ok =>
    intro e he
    obtain ⟨-, -, -, -, rfl⟩ := fetchEntries_ok h hok
    have hmem : e ∈ es := mem_of_mem_drop (mem_of_mem_take he)
    rw [Entry.decoded_of_utf8 (h.db.utf8 e hmem)]
    exact hmem

lemma size_le (hR : R.Lawful (hashChildren C) (emptyRoot C) RngHolds)
    (h : w.operator.Inv C RngHolds es) {lost : Option Err} {upstreamSize : Nat}
    (hok : (w.ask base lost fun s => s.handleSize C) = .ok upstreamSize) :
    upstreamSize ≤ es.length := by
  unfold World.ask at hok
  cases lost with
  | some => cases hok
  | none =>
    cases hproc : w.operator.proc with
    | none => simp [hproc] at hok
    | some p =>
      simp only [hproc, Api.Server.handleSize, Api.respond_ok, bind_ok, pure_ok] at hok
      obtain ⟨-, -, rfl⟩ := hok
      obtain ⟨pre, htree, hes⟩ := (h.proc p hproc).tree
      rw [Tree.size_eq hR htree, hes]
      simp

lemma Copies.mirrorStep (h : Copies C RngHolds es copy w) (cfg : Config) {a : Action}
    (ha : a.Sends (· ∈ es)) : ∃ copy', copy <+: copy' ∧
      Copies C RngHolds es copy' { w with mirror := Mirror.step C cfg w.mirror a } := by
  obtain ⟨copy', hgrows, hsafe⟩ := step_safe (fun e he => h.operator.db.utf8 e he) cfg h.mirror ha
  exact ⟨copy', hgrows.isPrefix, h.operator, hsafe, h.grows hgrows⟩

lemma Copies.operatorStep (hR : R.Lawful (hashChildren C) (emptyRoot C) RngHolds)
    (h : Copies C RngHolds es copy w) (opts : Core.Options) {a : Core.Action} (ha : a.IsUtf8) :
    ∃ es', es <+: es' ∧
      Copies C RngHolds es' copy { w with operator := Core.step C opts w.operator a } := by
  obtain ⟨es', hpre, hinv⟩ := Core.step_inv h.operator hR opts ha
  exact ⟨es', hpre, hinv, h.mirror.mono fun e he => hpre.subset he, h.isPrefix.trans hpre⟩

lemma step_copies (hR : R.Lawful (hashChildren C) (emptyRoot C) RngHolds)
    (opts : Core.Options) (cfg : Config) (h : Copies C RngHolds es copy w) {a : Joint}
    (ha : a.IsUtf8) :
    ∃ es' copy', Copies C RngHolds es' copy' (w.step C opts cfg base a) := by
  cases a with
  | operator =>
    obtain ⟨es', -, h'⟩ := h.operatorStep hR opts ha
    exact ⟨es', copy, h'⟩
  | new sizeFault entryFault =>
    obtain ⟨copy', -, h'⟩ := h.mirrorStep cfg (a := .new sizeFault entryFault) trivial
    exact ⟨es, copy', h'⟩
  | sync =>
    obtain ⟨copy', -, h'⟩ := h.mirrorStep cfg (a := .sync _) trivial
    exact ⟨es, copy', h'⟩
  | next lost fault =>
    simp only [World.step]
    cases hdue : w.due cfg base lost fault with
    | none => exact ⟨es, copy, h⟩
    | some a =>
      have hsends : a.Sends (· ∈ es) := by
        unfold World.due at hdue
        split at hdue
        · rw [← Option.some.inj hdue]
          exact fetchEntries_sends h.operator lost _ _
        · rw [← Option.some.inj hdue]
          trivial
        · cases hdue
      obtain ⟨copy', -, h'⟩ := h.mirrorStep cfg hsends
      exact ⟨es, copy', h'⟩
  | crash =>
    obtain ⟨copy', -, h'⟩ := h.mirrorStep cfg (a := .crash) trivial
    exact ⟨es, copy', h'⟩

end

/-- **In every run the mirror has the first entries of the operator.** -/
theorem run_copies (hR : R.Lawful (hashChildren C) (emptyRoot C) RngHolds)
    (opts : Core.Options) (cfg : Config) (base : Api.Server R) {as : List Joint}
    (has : ∀ a ∈ as, a.IsUtf8) :
    ∃ es copy, Copies C RngHolds es copy (run (World.step C opts cfg base) {} as) := by
  refine run_invariant (I := fun w : World R => ∃ es copy, Copies C RngHolds es copy w)
    (fun w a ha hw => ?_) ⟨[], [], Core.init_inv, empty_safe, prefix_refl []⟩ has
  obtain ⟨es, copy, hw⟩ := hw
  exact step_copies hR opts cfg hw ha

/-! ## The mirror catches up -/

def Proc.Syncing (cfg : Config) (es copy : List Entry) (goal : Nat) (m : Proc) : Prop :=
  match m.pc with
  | .idle => goal ≤ copy.length
  | .fetch start upstreamSize => upstreamSize = goal ∧ start = copy.length ∧ start < goal
  | .accept rest start upstreamSize =>
    upstreamSize = goal ∧ start < goal ∧ start + cfg.chunk < 2 ^ 64 ∧ rest ≠ [] ∧
      copy ++ rest <+: es ∧ copy.length + rest.length = min (start + cfg.chunk) goal

def Proc.left (cfg : Config) (m : Proc) : Nat :=
  match m.pc with
  | .idle => 0
  | .fetch start upstreamSize => 2 * (upstreamSize - start)
  | .accept rest start upstreamSize => rest.length + 2 * (upstreamSize - (start + cfg.chunk))

lemma Proc.Syncing.left_pos {cfg : Config} {goal : Nat} {m : Proc}
    (h : m.Syncing cfg es copy goal) (hidle : m.pc ≠ .idle) : 0 < m.left cfg := by
  cases hpc : m.pc with
  | idle => exact absurd hpc hidle
  | fetch =>
    simp only [Proc.Syncing, Proc.left, hpc] at h ⊢
    omega
  | accept =>
    simp only [Proc.Syncing, Proc.left, hpc] at h ⊢
    have := length_pos_iff.mpr h.2.2.2.1
    omega

def World.Goes (cfg : Config) (base : Api.Server R) (w : World R) : Joint → Prop
  | .operator a => a.IsUtf8
  | .next lost fault => fault = none ∧ ∀ start upstreamSize,
      w.mirror.proc.map Proc.pc = some (.fetch start upstreamSize) →
        ∃ answer, w.fetchEntries base lost start (rangeEnd cfg start upstreamSize) = .ok answer
  | _ => False

section
variable {cfg : Config} {es copy : List Entry} {goal : Nat} {m : Proc} {start : Nat}

lemma syncing_nextRound (es : List Entry) (hfits : start + cfg.chunk < 2 ^ 64)
    (hcopy : copy.length = min (start + cfg.chunk) goal) (m : Proc) :
    Proc.Syncing cfg es copy goal { m with pc := nextRound cfg start goal } ∧
      Proc.left cfg { m with pc := nextRound cfg start goal } ≤
        2 * (goal - (start + cfg.chunk)) := by
  unfold nextRound
  rw [Nat.mod_eq_of_lt hfits]
  by_cases hmore : start + cfg.chunk < goal
  · rw [Nat.min_eq_left (by omega)] at hcopy
    simp only [hmore, ↓reduceIte, Proc.Syncing, Proc.left]
    exact ⟨⟨trivial, hcopy.symm, trivial⟩, Nat.le_refl _⟩
  · rw [Nat.min_eq_right (by omega)] at hcopy
    simp only [hmore, ↓reduceIte, Proc.Syncing, Proc.left]
    exact ⟨Nat.le_of_eq hcopy.symm, Nat.zero_le _⟩

variable {lost : Option Err}

lemma syncing_entries (h : Copies C RngHolds es copy w) (hchunk : cfg.chunk ≤ 10000)
    (hgoal : goal ≤ es.length) (hstart : copy.length < goal) {answer : List Entry}
    (hanswer : w.fetchEntries base lost copy.length (rangeEnd cfg copy.length goal) = .ok answer)
    (m : Proc) :
    let pc := acceptRest cfg (answer.map Entry.decoded) copy.length goal
    Proc.Syncing cfg es copy goal { m with pc } ∧
      Proc.left cfg { m with pc } + 1 ≤ 2 * (goal - copy.length) := by
  obtain ⟨hstart64, -, hlt, -, rfl⟩ := fetchEntries_ok h.operator hanswer
  have hpos := cfg.chunk_pos
  -- an end that wrapped around would be below the start
  have hfits : copy.length + cfg.chunk < 2 ^ 64 := by
    simp only [rangeEnd] at hlt
    split at hlt <;> omega
  have hend : rangeEnd cfg copy.length goal = min (copy.length + cfg.chunk) goal := by
    simp only [rangeEnd, Nat.mod_eq_of_lt hfits]
    split <;> omega
  generalize hstop : rangeEnd cfg copy.length goal = stop at *
  generalize hpart : (es.drop copy.length).take (stop - copy.length) = part at *
  have hmem : ∀ e ∈ part, e ∈ es := by
    intro e he
    rw [← hpart] at he
    exact mem_of_mem_drop (mem_of_mem_take he)
  have hdecoded : part.map Entry.decoded = part :=
    (map_congr_left fun e he =>
      Entry.decoded_of_utf8 (h.operator.db.utf8 e (hmem e he))).trans (map_id _)
  have hlength : copy.length + part.length = stop := by
    rw [← hpart, length_take, length_drop]
    omega
  have hne : part ≠ [] := length_pos_iff.mp (by omega)
  have hwithin : copy ++ part <+: es := by
    have hsplit : copy ++ part = es.take (copy.length + (stop - copy.length)) := by
      rw [take_add, hpart, ← prefix_iff_eq_take.mp h.isPrefix]
    rw [hsplit]
    exact take_prefix _ _
  intro pc
  have hpc : pc = .accept part copy.length goal := by
    show acceptRest cfg (part.map Entry.decoded) copy.length goal = _
    rw [hdecoded, acceptRest, if_neg hne]
  rw [hpc]
  simp only [Proc.Syncing, Proc.left]
  exact ⟨⟨trivial, hstart, hfits, hne, hwithin, hlength.trans hend⟩, by omega⟩

variable {rest : List Entry}

lemma accept_next (h : Copies C RngHolds es copy w) (hm : m.AtEnd copy) {e : Entry}
    (hwithin : copy ++ e :: rest <+: es) :
    ∃ db', db'.Holds C (copy ++ [e]) ∧ copy ++ [e] ++ rest <+: es ∧
      acceptEntry C none e w.mirror.db m =
        (db', { m with prev := some e, lastSize := m.lastSize + 1 }, .ok ()) := by
  have hmem : e ∈ es := hwithin.subset (by simp)
  have hfollows : e.Follows copy.getLast? := by
    obtain ⟨later, rfl⟩ := hwithin
    have hchain := h.operator.db.chained
    rw [append_assoc, Entry.chained_append, Entry.lastOr, or_none] at hchain
    exact hchain.2.1
  obtain ⟨db', hdb', haccept⟩ := acceptEntry_next h.mirror.db hm
    (h.operator.db.sound e hmem) hfollows (h.operator.db.utf8 e hmem)
  exact ⟨db', hdb', by simpa using hwithin, haccept⟩

variable {upstreamSize : Nat}

lemma next_fetch (opts : Core.Options) (h : Copies C RngHolds es copy w)
    (hchunk : cfg.chunk ≤ 10000) (hgoal : goal ≤ es.length) (hm : w.mirror.proc = some m)
    (hpc : m.pc = .fetch start upstreamSize) (hs : m.Syncing cfg es copy goal)
    (hgoes : w.Goes cfg base (.next lost none)) :
    ∃ m', Copies C RngHolds es copy (w.step C opts cfg base (.next lost none)) ∧
      (w.step C opts cfg base (.next lost none)).mirror.proc = some m' ∧
      m'.Syncing cfg es copy goal ∧ m'.left cfg + 1 ≤ m.left cfg := by
  simp only [Proc.Syncing, hpc] at hs
  obtain ⟨rfl, rfl, hstart⟩ := hs
  obtain ⟨answer, hanswer⟩ := hgoes.2 copy.length upstreamSize (by rw [hm, map_some, hpc])
  have hstep : w.step C opts cfg base (.next lost none) = { w with mirror :=
      ⟨w.mirror.db, some { m with
        pc := acceptRest cfg (answer.map Entry.decoded) copy.length upstreamSize }⟩ } := by
    simp only [World.step, World.due, hm, map_some, hpc, hanswer, Mirror.step, procStep]
  obtain ⟨hsyncing, hleft⟩ := syncing_entries h hchunk hgoal hstart hanswer m
  have hsends : (Action.entries (w.fetchEntries base lost copy.length
      (rangeEnd cfg copy.length upstreamSize))).Sends (· ∈ es) :=
    fetchEntries_sends h.operator lost _ _
  rw [hanswer] at hsends
  rw [hstep]
  refine ⟨_, ⟨h.operator, ⟨h.mirror.db, ?_⟩, h.isPrefix⟩, rfl, hsyncing, ?_⟩
  · rintro _ ⟨⟩
    refine ⟨(h.mirror.proc m hm).1.goto _, acceptRest_all fun e he => ?_⟩
    obtain ⟨e', he', rfl⟩ := mem_map.mp he
    exact hsends e' he'
  · simp only [Proc.left, hpc] at hleft ⊢
    exact hleft

lemma syncing_acceptRest {e : Entry} (hpc : m.pc = .accept (e :: rest) start upstreamSize)
    (hs : m.Syncing cfg es copy goal) (hwithin : copy ++ [e] ++ rest <+: es) :
    let m' : Proc := { m with
      prev := some e
      lastSize := m.lastSize + 1
      pc := acceptRest cfg rest start upstreamSize }
    m'.Syncing cfg es (copy ++ [e]) goal ∧ m'.left cfg + 1 ≤ m.left cfg := by
  simp only [Proc.Syncing, hpc] at hs
  obtain ⟨rfl, hstart, hfits, -, -, hlength⟩ := hs
  rw [length_cons] at hlength
  intro m'
  by_cases hnil : rest = []
  · subst hnil
    have hcopy : (copy ++ [e]).length = min (start + cfg.chunk) upstreamSize := by
      simpa using hlength
    obtain ⟨hsyncing, hleft⟩ := syncing_nextRound es hfits hcopy
      { m with prev := some e, lastSize := m.lastSize + 1 }
    have hround : m' = { m with
        prev := some e, lastSize := m.lastSize + 1, pc := nextRound cfg start upstreamSize } := by
      simp only [m', acceptRest, if_pos]
    have hbefore : m.left cfg = 1 + 2 * (upstreamSize - (start + cfg.chunk)) := by
      simp [Proc.left, hpc]
    rw [hround]
    refine ⟨hsyncing, ?_⟩
    simp only at hleft
    omega
  · have hround : m' = { m with
        prev := some e, lastSize := m.lastSize + 1, pc := .accept rest start upstreamSize } := by
      simp only [m', acceptRest, if_neg hnil]
    have hcopy : (copy ++ [e]).length + rest.length = min (start + cfg.chunk) upstreamSize := by
      rw [length_append, ← hlength]
      simp only [length_cons, length_nil]
      omega
    rw [hround]
    refine ⟨⟨rfl, hstart, hfits, hnil, hwithin, hcopy⟩, ?_⟩
    simp only [Proc.left, hpc, length_cons]
    omega

lemma next_accept (opts : Core.Options) (h : Copies C RngHolds es copy w)
    (hm : w.mirror.proc = some m) (hpc : m.pc = .accept rest start upstreamSize)
    (hs : m.Syncing cfg es copy goal) :
    ∃ copy' m', Copies C RngHolds es copy' (w.step C opts cfg base (.next lost none)) ∧
      (w.step C opts cfg base (.next lost none)).mirror.proc = some m' ∧
      m'.Syncing cfg es copy' goal ∧ m'.left cfg + 1 ≤ m.left cfg := by
  obtain ⟨hend, hall⟩ := h.mirror.proc m hm
  have hplace := hs
  simp only [Proc.Syncing, hpc] at hplace
  obtain ⟨-, -, -, hne, hwithin, -⟩ := hplace
  obtain ⟨e, rest, rfl⟩ := exists_cons_of_ne_nil hne
  obtain ⟨db', hdb', hwithin', haccept⟩ := accept_next h hend hwithin
  have hstep : w.step C opts cfg base (.next lost none) = { w with mirror := ⟨db', some { m with
      prev := some e
      lastSize := m.lastSize + 1
      pc := acceptRest cfg rest start upstreamSize }⟩ } := by
    simp only [World.step, World.due, hm, map_some, hpc, Mirror.step, procStep, haccept]
  rw [hstep]
  rw [hpc] at hall
  have hrest : ∀ x ∈ rest, x ∈ es := fun x hx => hall x (mem_cons_of_mem _ hx)
  refine ⟨copy ++ [e], _, ⟨h.operator, ⟨hdb', ?_⟩, (prefix_append _ rest).trans hwithin'⟩,
    rfl, syncing_acceptRest hpc hs hwithin'⟩
  rintro _ ⟨⟩
  exact ⟨hend.accepted e _, acceptRest_all hrest⟩

lemma next_syncing (opts : Core.Options) (h : Copies C RngHolds es copy w)
    (hchunk : cfg.chunk ≤ 10000) (hgoal : goal ≤ es.length) (hm : w.mirror.proc = some m)
    (hs : m.Syncing cfg es copy goal) {fault : Option Err}
    (hgoes : w.Goes cfg base (.next lost fault)) :
    ∃ copy' m', Copies C RngHolds es copy' (w.step C opts cfg base (.next lost fault)) ∧
      (w.step C opts cfg base (.next lost fault)).mirror.proc = some m' ∧
      m'.Syncing cfg es copy' goal ∧ (m.pc ≠ .idle → m'.left cfg + 1 ≤ m.left cfg) ∧
      (m.pc = .idle → m'.pc = .idle) := by
  obtain rfl := hgoes.1
  cases hpc : m.pc with
  | idle =>
    have hsame : w.step C opts cfg base (.next lost none) = w := by
      simp only [World.step, World.due, hm, map_some, hpc]
    rw [hsame]
    exact ⟨copy, m, h, hm, hs, fun hne => absurd rfl hne, fun _ => hpc⟩
  | fetch =>
    obtain ⟨m', hcopies, hm', hs', hleft⟩ := next_fetch opts h hchunk hgoal hm hpc hs hgoes
    exact ⟨copy, m', hcopies, hm', hs', fun _ => hleft, nofun⟩
  | accept =>
    obtain ⟨copy', m', hcopies, hm', hs', hleft⟩ := next_accept opts h hm hpc hs
    exact ⟨copy', m', hcopies, hm', hs', fun _ => hleft, nofun⟩

def Joint.isNext : Joint → Bool
  | .next _ _ => true
  | _ => false

/-- **A `syncOnce` whose requests succeed ends, and has the size it read.** -/
theorem run_syncing (hR : R.Lawful (hashChildren C) (emptyRoot C) RngHolds)
    {opts : Core.Options} (hchunk : cfg.chunk ≤ 10000) (h : Copies C RngHolds es copy w)
    (hgoal : goal ≤ es.length) (hm : w.mirror.proc = some m) (hs : m.Syncing cfg es copy goal)
    {as : List Joint} (has : Along (World.step C opts cfg base) (World.Goes cfg base) w as) :
    ∃ es' copy' m', Copies C RngHolds es' copy' (run (World.step C opts cfg base) w as) ∧
      (run (World.step C opts cfg base) w as).mirror.proc = some m' ∧
      m'.Syncing cfg es' copy' goal ∧
      (m'.pc ≠ .idle → m'.left cfg + as.countP Joint.isNext ≤ m.left cfg) := by
  induction as generalizing w es copy m with
  | nil => exact ⟨es, copy, m, h, hm, hs, fun _ => by simp⟩
  | cons a as ih =>
    obtain ⟨ha, has⟩ := has
    cases a with
    | operator =>
      obtain ⟨es', hpre, h'⟩ := h.operatorStep hR opts ha
      have hs' : m.Syncing cfg es' copy goal := by
        cases hpc : m.pc with
        | accept =>
          simp only [Proc.Syncing, hpc] at hs ⊢
          obtain ⟨hup, hstart, hfits, hne, hwithin, hlength⟩ := hs
          exact ⟨hup, hstart, hfits, hne, hwithin.trans hpre, hlength⟩
        | _ => simpa only [Proc.Syncing, hpc] using hs
      obtain ⟨es'', copy', m', hcopies, hm', hs'', hleft⟩ :=
        ih h' (hgoal.trans hpre.length_le) hm hs' has
      exact ⟨es'', copy', m', hcopies, hm', hs'', by simpa [Joint.isNext] using hleft⟩
    | next =>
      obtain ⟨copy', m', h', hm', hs', hdown, hidle⟩ := next_syncing opts h hchunk hgoal hm hs ha
      obtain ⟨es'', copy'', m'', hcopies, hm'', hs'', hleft⟩ := ih h' hgoal hm' hs' has
      refine ⟨es'', copy'', m'', hcopies, hm'', hs'', fun hne => ?_⟩
      have hafter := hleft hne
      have hpos := hs''.left_pos hne
      rw [countP_cons_of_pos (by rfl)]
      by_cases hpc : m.pc = .idle
      · -- a mirror that has ended stays so
        have hzero : m'.left cfg = 0 := by simp [Proc.left, hidle hpc]
        omega
      · have := hdown hpc
        omega
    | new => cases ha
    | sync => cases ha
    | crash => cases ha

end

lemma sync_syncing (opts : Core.Options) (cfg : Config) {base : Api.Server R} {w : World R}
    {goal : Nat} {m : Proc} (h : Copies C RngHolds es copy w) (hm : w.mirror.proc = some m)
    (hidle : m.pc = .idle) (hsize : (w.ask base none fun s => s.handleSize C) = .ok goal) :
    ∃ m', Copies C RngHolds es copy (w.step C opts cfg base (.sync none)) ∧
      (w.step C opts cfg base (.sync none)).mirror.proc = some m' ∧
      m'.Syncing cfg es copy goal ∧ m'.left cfg ≤ 2 * goal := by
  obtain ⟨hend, -⟩ := h.mirror.proc m hm
  by_cases hmore : goal ≤ m.lastSize
  · have hstep : w.step C opts cfg base (.sync none) = w := by
      simp only [World.step, hsize, Mirror.step, procStep, hm, hidle, if_pos hmore]
      rw [← hm]
    rw [hstep]
    refine ⟨m, h, hm, ?_, by simp [Proc.left, hidle]⟩
    simp only [Proc.Syncing, hidle]
    rwa [← hend.lastSize]
  · have hstep : w.step C opts cfg base (.sync none) = { w with mirror :=
        ⟨w.mirror.db, some { m with pc := .fetch m.lastSize goal }⟩ } := by
      simp only [World.step, hsize, Mirror.step, procStep, hm, hidle, if_neg hmore]
    rw [hstep]
    refine ⟨_, ⟨h.operator, ⟨h.mirror.db, ?_⟩, h.isPrefix⟩, rfl,
      ⟨rfl, hend.lastSize, by omega⟩, by simp only [Proc.left]; omega⟩
    rintro _ ⟨⟩
    exact ⟨hend.goto _, trivial⟩

def sampleServer : Api.Server sampleRange where
  db := .empty
  tree := .newBoundedTreeWithStore sampleRange 0 0 .adapter
  signer := {
    origin := []
    dir := []
    chain := ⟨[], [], []⟩
    active := none
    store := .file [] false }
  thresholdGroup := none

def sampleConfig : Config := ⟨lit "http://log", 0⟩

def sampleWorld (as : List Core.Action) : World sampleRange :=
  run (World.step Crypto.sample {} sampleConfig sampleServer) {}
    (as.map .operator ++ [.new none none])

def sampleSync (as : List Core.Action) (n : Nat) : World sampleRange :=
  run (World.step Crypto.sample {} sampleConfig sampleServer)
    ((sampleWorld as).step Crypto.sample {} sampleConfig sampleServer (.sync none))
    (List.replicate n (.next none none))

lemma sampleSync_succ (as : List Core.Action) (n : Nat) : sampleSync as (n + 1) =
    (sampleSync as n).step Crypto.sample {} sampleConfig sampleServer (.next none none) := by
  rw [sampleSync, replicate_succ', run_append]
  rfl

def Proc.fetches (m : Proc) : Bool :=
  match m.pc with
  | .fetch _ _ => true
  | _ => false

lemma Proc.pc_ne_fetch {proc : Option Proc} (h : proc.map Proc.fetches = some false)
    {start upstreamSize : Nat} : proc.map Proc.pc ≠ some (.fetch start upstreamSize) := by
  intro hpc
  obtain ⟨m, rfl, hm⟩ := map_eq_some_iff.mp hpc
  simp [Proc.fetches, hm] at h

lemma sampleSync_goes : Along (World.step Crypto.sample {} sampleConfig sampleServer)
    (World.Goes sampleConfig sampleServer) (sampleSync Core.sampleRun 0)
    (List.replicate 2 (.next none none)) := by
  refine ⟨⟨rfl, fun start upstreamSize hpc => ?_⟩, ⟨rfl, fun start upstreamSize hpc => ?_⟩, trivial⟩
  · have hfetch : (sampleSync Core.sampleRun 0).mirror.proc.map Proc.pc = some (.fetch 0 1) := by
      decide +kernel
    obtain ⟨rfl, rfl⟩ := Pc.fetch.inj (Option.some.inj (hfetch.symm.trans hpc))
    have hok : ((sampleSync Core.sampleRun 0).fetchEntries sampleServer none 0
        (rangeEnd sampleConfig 0 1)).toOption.isSome = true := by
      decide +kernel
    cases hanswer : (sampleSync Core.sampleRun 0).fetchEntries sampleServer none 0
        (rangeEnd sampleConfig 0 1) with
    | error e =>
      rw [hanswer] at hok
      cases hok
    | ok answer => exact ⟨answer, rfl⟩
  · have hwaits : (sampleSync Core.sampleRun 1).mirror.proc.map Proc.fetches = some false := by
      decide +kernel
    rw [← sampleSync_succ, Nat.zero_add] at hpc
    exact absurd hpc (Proc.pc_ne_fetch hwaits)

end Stele.Mirror
