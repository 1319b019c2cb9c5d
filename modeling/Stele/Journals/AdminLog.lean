import Stele.Journals.Journal

/-!
# The admin log (`pkg/adminlog`)
-/

namespace Stele.Journals

open Lib JsonText Json

namespace AdminLog

@[ext] structure Body where
  action : Bytes
  subject : Bytes
  outcome : Bytes
  err : Bytes
  details : Bytes
  actor : Bytes
  callerIP : Bytes
  userAgent : Bytes
  deriving DecidableEq

structure Args where
  action : Bytes
  subject : Bytes
  outcome : Bytes
  errMsg : Bytes
  details : Option Value
  actor : Bytes
  callerIP : Bytes
  userAgent : Bytes

def canonical (b : Body) : Bytes :=
  put b.action ++ (put b.subject ++ (put b.outcome ++ (put b.err ++ (put b.details ++
    (put b.actor ++ (put b.callerIP ++ put b.userAgent))))))

structure Body.Sized (b : Body) : Prop where
  action : b.action.length < 2 ^ 32
  subject : b.subject.length < 2 ^ 32
  outcome : b.outcome.length < 2 ^ 32
  err : b.err.length < 2 ^ 32
  details : b.details.length < 2 ^ 32
  actor : b.actor.length < 2 ^ 32
  callerIP : b.callerIP.length < 2 ^ 32
  userAgent : b.userAgent.length < 2 ^ 32

lemma canonical_append_inj {b b' : Body} {x y : Bytes} (hb : b.Sized) (hb' : b'.Sized)
    (h : canonical b ++ x = canonical b' ++ y) : b = b' ∧ x = y := by
  simp only [canonical, List.append_assoc] at h
  obtain ⟨haction, h⟩ := put_append_inj hb.action hb'.action h
  obtain ⟨hsubject, h⟩ := put_append_inj hb.subject hb'.subject h
  obtain ⟨houtcome, h⟩ := put_append_inj hb.outcome hb'.outcome h
  obtain ⟨herr, h⟩ := put_append_inj hb.err hb'.err h
  obtain ⟨hdetails, h⟩ := put_append_inj hb.details hb'.details h
  obtain ⟨hactor, h⟩ := put_append_inj hb.actor hb'.actor h
  obtain ⟨hip, h⟩ := put_append_inj hb.callerIP hb'.callerIP h
  obtain ⟨hagent, h⟩ := put_append_inj hb.userAgent hb'.userAgent h
  exact ⟨Body.ext haction hsubject houtcome herr hdetails hactor hip hagent, h⟩

def marshalRaw (raw : Bytes) : Res (Option Bytes) :=
  if raw = [] then .ok none
  else (wrapErr "json: error calling MarshalJSON for type json.RawMessage: %w" []
    (compact raw)).map some

def marshal (e : Event Body) : Res Line := do
  let details ← marshalRaw e.body.details
  let obj := obj <|
    fld "index" (.num e.index) ++
    fld "time_ns" (.num e.timeNanos) ++
    fld "prev_hash" (.ofBytes e.prevHash) ++
    fld "action" (.ofStr e.body.action) ++
    omitEmpty "subject" e.body.subject.isEmpty (.ofStr e.body.subject) ++
    fld "outcome" (.ofStr e.body.outcome) ++
    omitEmpty "err" e.body.err.isEmpty (.ofStr e.body.err) ++
    omitEmpty "actor" e.body.actor.isEmpty (.ofStr e.body.actor) ++
    omitEmpty "caller_ip" e.body.callerIP.isEmpty (.ofStr e.body.callerIP) ++
    omitEmpty "user_agent" e.body.userAgent.isEmpty (.ofStr e.body.userAgent) ++
    fld "event_hash" (.ofBytes e.eventHash) ++
    fld "pub_key" (.ofBytes e.pubKey) ++
    fld "signature" (.ofBytes e.signature) ++
    omitEmpty "quantum_pub_key" e.quantumPubKey.isEmpty (.ofBytes e.quantumPubKey) ++
    omitEmpty "quantum_signature" e.quantumSignature.isEmpty (.ofBytes e.quantumSignature)
  return { obj, details }

def unmarshal (l : Line) : Res (Event Body) := do
  ensure (∀ text, l.details = some text → isFieldValue text = true)
    (errorf "invalid character or exceeded max depth" [])
  return {
    index := ← l.obj.field "index" >>= getNat
    timeNanos := ← l.obj.field "time_ns" >>= getInt
    prevHash := ← l.obj.field "prev_hash" >>= getBytes
    body := {
      action := ← l.obj.field "action" >>= getStr
      subject := ← l.obj.field "subject" >>= getStr
      outcome := ← l.obj.field "outcome" >>= getStr
      err := ← l.obj.field "err" >>= getStr
      details := l.details.getD []
      actor := ← l.obj.field "actor" >>= getStr
      callerIP := ← l.obj.field "caller_ip" >>= getStr
      userAgent := ← l.obj.field "user_agent" >>= getStr }
    eventHash := ← l.obj.field "event_hash" >>= getBytes
    pubKey := ← l.obj.field "pub_key" >>= getBytes
    signature := ← l.obj.field "signature" >>= getBytes
    quantumPubKey := ← l.obj.field "quantum_pub_key" >>= getBytes
    quantumSignature := ← l.obj.field "quantum_signature" >>= getBytes }

def format : Format Body where
  noun := "admin"
  pkg := "adminlog"
  gap := "adminlog replay: index gap %d -> %d"
  canonical := canonical
  marshal := marshal
  unmarshal := unmarshal

def rawDetails : Option Value → Res Bytes
  | none => .ok []
  | some v => wrapErr "adminlog: marshal details: %w" [] (encode v)

def body (a : Args) : Res Body := do
  let raw ← rawDetails a.details
  return {
    action := a.action, subject := a.subject, outcome := a.outcome, err := a.errMsg, details := raw,
    actor := a.actor, callerIP := a.callerIP, userAgent := a.userAgent }

def prepare (C : Crypto) (now : Int) (io : Io) (a : Args) (j : Journal) :
    Res (Event Body × Line) := do
  let b ← body a
  let ev := j.seal C format now b
  let l ← wrapErr "adminlog: marshal event: %w" [] (marshal ev)
  wrapErr "adminlog: open: %w" [] (sysCall io.openFile)
  return (ev, l)

def finish (io : Io) : Res Unit := do
  wrapErr "adminlog: write: %w" [] (sysCall (io.write.map Prod.snd))
  wrapErr "adminlog: fsync: %w" [] (sysCall io.sync)
  wrapErr "adminlog: close: %w" [] (sysCall io.close)

def action (C : Crypto) (now : Int) (io : Io) (a : Args) (j : Journal) (file : List Piece) :
    Outcome Body :=
  record (prepare C now io a j) io (finish io) j file

def rangeEnd (j : Journal) (hi : Nat) : Nat := if hi = 0 ∨ hi > j.size then j.size else hi

def range (j : Journal) (file : List Piece) (lo hi : Nat) : Res (List (Event Body)) :=
  if lo ≥ rangeEnd j hi then .ok []
  else readRange (wrapErr "adminlog range: %w" []) (Piece.decode format) lo (rangeEnd j hi) file

/-- Arguments that a document keeps: the strings are UTF-8, and the details nest less than the
decoder allows inside an object. -/
structure Args.Fits (a : Args) : Prop where
  action : Utf8 a.action
  subject : Utf8 a.subject
  outcome : Utf8 a.outcome
  errMsg : Utf8 a.errMsg
  actor : Utf8 a.actor
  callerIP : Utf8 a.callerIP
  userAgent : Utf8 a.userAgent
  details : ∀ v, a.details = some v → v.depth < maxNestingDepth

end AdminLog

def adminLog : Log where
  Body := AdminLog.Body
  Args := AdminLog.Args
  format := AdminLog.format
  body := AdminLog.body
  call := AdminLog.action
  range := AdminLog.range

namespace AdminLog

lemma rawDetails_emits {details : Option Value} {raw : Bytes} (h : rawDetails details = .ok raw)
    (hdepth : ∀ v, details = some v → v.depth < maxNestingDepth) :
    raw = [] ∨ ∃ depth, Emits raw depth ∧ depth < maxNestingDepth := by
  cases details with
  | none =>
    cases h
    exact .inl rfl
  | some v => exact .inr ⟨v.depth, encode_emits v (wrapErr_ok.mp h), hdepth v rfl⟩

/-- **The second encoding of the details changes nothing.** -/
theorem marshalRaw_eq {raw : Bytes}
    (h : raw = [] ∨ ∃ depth, Emits raw depth ∧ depth < maxNestingDepth) :
    ∃ text : Option Bytes, marshalRaw raw = .ok text ∧ text.getD [] = raw ∧
      ∀ t, text = some t → isFieldValue t = true := by
  rcases h with rfl | ⟨depth, hemits, hdepth⟩
  · exact ⟨none, rfl, rfl, by simp⟩
  · obtain ⟨c, rest, hraw, -⟩ := hemits.head
    refine ⟨some raw, ?_, rfl, ?_⟩
    · rw [marshalRaw, if_neg (by rw [hraw]; simp), hemits.compact_eq (by omega)]
      rfl
    · rintro t ⟨⟩
      exact hemits.isFieldValue hdepth

lemma unmarshal_marshal {e : Event Body} {a : Args} (ha : a.Fits) (hbody : body a = .ok e.body) :
    ∃ l, marshal e = .ok l ∧ unmarshal l = .ok e := by
  simp only [body, bind_ok, pure_ok] at hbody
  obtain ⟨raw, hraw, hb⟩ := hbody
  obtain ⟨text, hmarshal, htext, hvalue⟩ := marshalRaw_eq (rawDetails_emits hraw ha.details)
  obtain ⟨index, timeNanos, prevHash, b, eventHash, pubKey, signature, qPub, qSig⟩ := e
  obtain rfl := hb
  refine ⟨_, by rw [marshal, hmarshal, ok_bind]; rfl, ?_⟩
  have hensure : ensure (∀ t, text = some t → isFieldValue t = true)
      (errorf "invalid character or exceeded max depth" []) = .ok () := ensure_ok.mpr hvalue
  simp only [unmarshal, hensure, field, lastField_append, lastField_fld,
    lastField_omitEmpty, String.reduceEq, ↓reduceIte, ok_bind, getNat_num,
    getInt_num, getBytes_ofBytes, getBytes_omitted, getStr_ofStr,
    getStr_omitted, coerce_of_utf8 ha.action, coerce_of_utf8 ha.subject,
    coerce_of_utf8 ha.outcome, coerce_of_utf8 ha.errMsg, coerce_of_utf8 ha.actor,
    coerce_of_utf8 ha.callerIP, coerce_of_utf8 ha.userAgent, htext]
  rfl

lemma prepare_ok {C : Crypto} {now : Int} {io : Io} {a : Args} {j : Journal} {ev : Event Body}
    {l : Line} : prepare C now io a j = .ok (ev, l) ↔
      ∃ b, body a = .ok b ∧ ev = j.seal C format now b ∧ marshal ev = .ok l ∧
        io.openFile = none := by
  simp only [prepare, bind_ok, wrapErr_ok, sysCall_ok, pure_ok, exists_const, Prod.mk.injEq]
  constructor
  · rintro ⟨b, hb, l', hl, hopen, rfl, rfl⟩
    exact ⟨b, hb, rfl, hl, hopen⟩
  · rintro ⟨b, hb, rfl, hl, hopen⟩
    exact ⟨b, hb, l, hl, hopen, rfl, rfl⟩

lemma finish_ok {io : Io} {u : Unit} :
    finish io = .ok u ↔ io.write = none ∧ io.sync = none ∧ io.close = none := by
  simp [finish]

end AdminLog

lemma adminLog_lawful : adminLog.Lawful AdminLog.Args.Fits where
  cases C now io a j file := by
    refine record_cases ?_ ?_ ?_
    · intro ev l h
      obtain ⟨b, hb, hev, hl, -⟩ := AdminLog.prepare_ok.mp h
      exact ⟨b, hb, hev, hl⟩
    · intro h
      exact (AdminLog.finish_ok.mp h).1
    · rintro ⟨-, hfinish⟩
      exact AdminLog.finish_ok.mpr hfinish
  decodes C j now a b l ha hb hl := by
    obtain ⟨l', hl', hdecode⟩ := AdminLog.unmarshal_marshal
      (e := j.seal C AdminLog.format now b) ha hb
    have hsame : l' = l := Except.ok.inj (hl'.symm.trans hl)
    rw [← hsame]
    exact hdecode
  succeeds C j now io a b file ha hio hb := by
    obtain ⟨l, hl, -⟩ := AdminLog.unmarshal_marshal
      (e := j.seal C AdminLog.format now b) ha hb
    have hprepare : AdminLog.prepare C now io a j = .ok (j.seal C AdminLog.format now b, l) :=
      AdminLog.prepare_ok.mpr ⟨b, hb, rfl, hl, hio.1⟩
    have hfinish : AdminLog.finish io = .ok () := AdminLog.finish_ok.mpr hio.2
    show (record (AdminLog.prepare C now io a j) io (AdminLog.finish io) j file).result = _
    rw [hprepare, hfinish]
    rfl

namespace AdminLog

lemma range_eq {j : Journal} {file : List Piece} {evs : List (Event Body)}
    (hfile : file.map (Piece.decode format) = evs.map .ok) (hchain : Chained none evs)
    (hsize : j.size = evs.length) {lo hi : Nat} (hlt : lo < hi) :
    range j file lo hi = .ok (evs.filter fun e => decide (lo ≤ e.index ∧ e.index < hi)) := by
  have hbound : ∀ e ∈ evs, e.index < j.size := fun e he => hsize ▸ hchain.index_lt he
  -- indices end at the size, so the clipped range has the same events
  have hclip : (evs.filter fun e => decide (lo ≤ e.index ∧ e.index < rangeEnd j hi)) =
      evs.filter fun e => decide (lo ≤ e.index ∧ e.index < hi) := by
    refine List.filter_congr fun e he => ?_
    have := hbound e he
    rw [decide_eq_decide, rangeEnd]
    split <;> omega
  rw [range, ← hclip]
  split
  · rw [eq_comm, Except.ok.injEq, List.filter_eq_nil_iff]
    intro e he
    simp only [decide_eq_true_eq]
    omega
  · exact readRange_eq (fun ev => rfl) (fun ev => by simp [Piece.decode]) hfile hchain.sorted

end AdminLog

end Stele.Journals
