import Stele.Journals.Journal

/-!
# The read log (`pkg/readlog`)
-/

namespace Stele.Journals

open Lib Json

namespace ReadLog

@[ext] structure Body where
  entryIdx : Nat
  leafHash : Bytes
  operation : Bytes
  callerIP : Bytes
  userAgent : Bytes
  deriving DecidableEq

def canonical (b : Body) : Bytes :=
  be 8 b.entryIdx ++ (put b.leafHash ++ (put b.operation ++ (put b.callerIP ++ put b.userAgent)))

structure Body.Sized (b : Body) : Prop where
  entryIdx : b.entryIdx < 2 ^ 64
  leafHash : b.leafHash.length < 2 ^ 32
  operation : b.operation.length < 2 ^ 32
  callerIP : b.callerIP.length < 2 ^ 32
  userAgent : b.userAgent.length < 2 ^ 32

lemma canonical_append_inj {b b' : Body} {x y : Bytes} (hb : b.Sized) (hb' : b'.Sized)
    (h : canonical b ++ x = canonical b' ++ y) : b = b' ∧ x = y := by
  simp only [canonical, List.append_assoc] at h
  obtain ⟨hidx, h⟩ := be_append_inj hb.entryIdx hb'.entryIdx h
  obtain ⟨hleaf, h⟩ := put_append_inj hb.leafHash hb'.leafHash h
  obtain ⟨hop, h⟩ := put_append_inj hb.operation hb'.operation h
  obtain ⟨hip, h⟩ := put_append_inj hb.callerIP hb'.callerIP h
  obtain ⟨hagent, h⟩ := put_append_inj hb.userAgent hb'.userAgent h
  exact ⟨Body.ext hidx hleaf hop hip hagent, h⟩

def marshal (e : Event Body) : Res Line :=
  let obj := obj <|
    fld "index" (.num e.index) ++
    fld "time_ns" (.num e.timeNanos) ++
    fld "prev_hash" (.ofBytes e.prevHash) ++
    fld "entry_idx" (.num e.body.entryIdx) ++
    fld "leaf_hash" (.ofBytes e.body.leafHash) ++
    fld "operation" (.ofStr e.body.operation) ++
    omitEmpty "caller_ip" e.body.callerIP.isEmpty (.ofStr e.body.callerIP) ++
    omitEmpty "user_agent" e.body.userAgent.isEmpty (.ofStr e.body.userAgent) ++
    fld "event_hash" (.ofBytes e.eventHash) ++
    fld "signature" (.ofBytes e.signature) ++
    fld "pub_key" (.ofBytes e.pubKey) ++
    omitEmpty "quantum_pub_key" e.quantumPubKey.isEmpty (.ofBytes e.quantumPubKey) ++
    omitEmpty "quantum_signature" e.quantumSignature.isEmpty (.ofBytes e.quantumSignature)
  .ok { obj }

def unmarshal (l : Line) : Res (Event Body) := do
  return {
    index := ← l.obj.field "index" >>= getNat
    timeNanos := ← l.obj.field "time_ns" >>= getInt
    prevHash := ← l.obj.field "prev_hash" >>= getBytes
    body := {
      entryIdx := ← l.obj.field "entry_idx" >>= getNat
      leafHash := ← l.obj.field "leaf_hash" >>= getBytes
      operation := ← l.obj.field "operation" >>= getStr
      callerIP := ← l.obj.field "caller_ip" >>= getStr
      userAgent := ← l.obj.field "user_agent" >>= getStr }
    eventHash := ← l.obj.field "event_hash" >>= getBytes
    pubKey := ← l.obj.field "pub_key" >>= getBytes
    signature := ← l.obj.field "signature" >>= getBytes
    quantumPubKey := ← l.obj.field "quantum_pub_key" >>= getBytes
    quantumSignature := ← l.obj.field "quantum_signature" >>= getBytes }

def format : Format Body where
  noun := "read"
  pkg := "readlog"
  gap := "readlog replay: event index gap %d -> %d"
  canonical := canonical
  marshal := marshal
  unmarshal := unmarshal

def prepare (C : Crypto) (now : Int) (io : Io) (b : Body) (j : Journal) :
    Res (Event Body × Line) := do
  let ev := j.seal C format now b
  sysCall io.openFile
  let l ← marshal ev
  return (ev, l)

def finish (io : Io) : Res Unit := do
  sysCall (io.write.map Prod.snd)
  sysCall io.sync

def append (C : Crypto) (now : Int) (io : Io) (b : Body) (j : Journal) (file : List Piece) :
    Outcome Body :=
  record (prepare C now io b j) io (finish io) j file

def range (file : List Piece) (lo hi : Nat) : Res (List (Event Body)) := do
  ensure (lo < hi) (errorf "readlog: to <= from" [])
  ensure (hi - lo ≤ 10000) (errorf "readlog: range too large (max 10000)" [])
  readRange id (Piece.decode format) lo hi file

structure Body.Fits (b : Body) : Prop where
  operation : Utf8 b.operation
  callerIP : Utf8 b.callerIP
  userAgent : Utf8 b.userAgent

end ReadLog

def readLog : Log where
  Body := ReadLog.Body
  Args := ReadLog.Body
  format := ReadLog.format
  body := .ok
  call := ReadLog.append
  range _ := ReadLog.range

namespace ReadLog

lemma unmarshal_marshal {e : Event Body} (h : e.body.Fits) :
    ∃ l, marshal e = .ok l ∧ unmarshal l = .ok e := by
  refine ⟨_, rfl, ?_⟩
  simp only [unmarshal, field, lastField_append, lastField_fld,
    lastField_omitEmpty, String.reduceEq, ↓reduceIte, ok_bind, getNat_num,
    getInt_num, getBytes_ofBytes, getBytes_omitted, getStr_ofStr,
    getStr_omitted, coerce_of_utf8 h.operation, coerce_of_utf8 h.callerIP,
    coerce_of_utf8 h.userAgent]
  rfl

lemma prepare_ok {C : Crypto} {now : Int} {io : Io} {b : Body} {j : Journal} {ev : Event Body}
    {l : Line} : prepare C now io b j = .ok (ev, l) ↔
      ev = j.seal C format now b ∧ marshal ev = .ok l ∧ io.openFile = none := by
  simp only [prepare, bind_ok, sysCall_ok, pure_ok, exists_const, Prod.mk.injEq]
  constructor
  · rintro ⟨hopen, l', hl, rfl, rfl⟩
    exact ⟨rfl, hl, hopen⟩
  · rintro ⟨rfl, hl, hopen⟩
    exact ⟨hopen, l, hl, rfl, rfl⟩

lemma finish_ok {io : Io} {u : Unit} :
    finish io = .ok u ↔ io.write = none ∧ io.sync = none := by
  simp [finish]

end ReadLog

lemma readLog_lawful : readLog.Lawful ReadLog.Body.Fits where
  cases C now io a j file := by
    refine record_cases ?_ ?_ ?_
    · intro ev l h
      obtain ⟨hev, hl, -⟩ := ReadLog.prepare_ok.mp h
      exact ⟨a, rfl, hev, hl⟩
    · intro h
      exact (ReadLog.finish_ok.mp h).1
    · rintro ⟨-, hwrite, hsync, -⟩
      exact ReadLog.finish_ok.mpr ⟨hwrite, hsync⟩
  decodes C j now a b l ha hb hl := by
    obtain rfl : a = b := Except.ok.inj hb
    obtain ⟨l', hl', hdecode⟩ := ReadLog.unmarshal_marshal
      (e := j.seal C ReadLog.format now a) ha
    have hsame : l' = l := Except.ok.inj (hl'.symm.trans hl)
    rw [← hsame]
    exact hdecode
  succeeds C j now io a b file ha hio hb := by
    obtain rfl : a = b := Except.ok.inj hb
    obtain ⟨l, hl, -⟩ := ReadLog.unmarshal_marshal (e := j.seal C ReadLog.format now a) ha
    have hprepare : ReadLog.prepare C now io a j = .ok (j.seal C ReadLog.format now a, l) :=
      ReadLog.prepare_ok.mpr ⟨rfl, hl, hio.1⟩
    have hfinish : ReadLog.finish io = .ok () := ReadLog.finish_ok.mpr ⟨hio.2.1, hio.2.2.1⟩
    show (record (ReadLog.prepare C now io a j) io (ReadLog.finish io) j file).result = _
    rw [hprepare, hfinish]
    rfl

namespace ReadLog

lemma range_eq {file : List Piece} {evs : List (Event Body)}
    (hfile : file.map (Piece.decode format) = evs.map .ok) (hchain : Chained none evs)
    {lo hi : Nat} (hlt : lo < hi) (hspan : hi - lo ≤ 10000) :
    range file lo hi = .ok (evs.filter fun e => decide (lo ≤ e.index ∧ e.index < hi)) := by
  rw [range, ensure, if_pos hlt, ok_bind, ensure, if_pos hspan, ok_bind]
  exact readRange_eq (fun ev => rfl) (fun ev => by simp [Piece.decode]) hfile hchain.sorted

end ReadLog

end Stele.Journals
