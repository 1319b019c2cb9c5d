import Stele.Lib.Json

/-!
# The text of a JSON document

The scanner of Go's `encoding/json`, one octet at a time, and the compaction that the encoder
applies to text that it did not write itself.
-/

namespace Lib

open List Option

namespace JsonText

/-! ## The scanner -/

inductive Frame
  | objectKey
  | objectValue
  | arrayValue
  deriving DecidableEq

inductive Mode
  | beginValue
  | beginValueOrEmpty
  | beginString
  | beginStringOrEmpty
  | inString
  | inEscape
  | inHex (due : Nat)
  | t
  | tr
  | tru
  | f
  | fa
  | fal
  | fals
  | n
  | nu
  | nul
  | neg
  | zero
  | digits
  | dot
  | frac
  | exp
  | expSign
  | expDigits
  | endValue
  | endTop
  deriving DecidableEq

structure Scanner where
  mode : Mode
  stack : List Frame
  deriving DecidableEq

def maxNestingDepth : Nat := 10000

def isSpace (c : UInt8) : Bool := c = 0x20 || c = 0x09 || c = 0x0A || c = 0x0D

def isDigit (c : UInt8) : Bool := 0x30 ≤ c && c ≤ 0x39

def isHex (c : UInt8) : Bool :=
  isDigit c || (0x61 ≤ c && c ≤ 0x66) || (0x41 ≤ c && c ≤ 0x46)

abbrev Next := Option (Scanner × Bool)

def keep (mode : Mode) (stack : List Frame) : Next := some (⟨mode, stack⟩, true)

def skip (mode : Mode) (stack : List Frame) : Next := some (⟨mode, stack⟩, false)

def push (frame : Frame) (mode : Mode) (stack : List Frame) : Next :=
  if stack.length + 1 ≤ maxNestingDepth then keep mode (frame :: stack) else none

def pop (stack : List Frame) : Next := keep (if stack = [] then .endTop else .endValue) stack

def stepEndValue (stack : List Frame) (c : UInt8) : Next :=
  match stack with
  | [] => if isSpace c then skip .endTop [] else none
  | frame :: rest =>
    if isSpace c then skip .endValue (frame :: rest)
    else
      match frame with
      | .objectKey => if c = 0x3A then keep .beginValue (.objectValue :: rest) else none
      | .objectValue =>
        if c = 0x2C then keep .beginString (.objectKey :: rest)
        else if c = 0x7D then pop rest
        else none
      | .arrayValue =>
        if c = 0x2C then keep .beginValue (.arrayValue :: rest)
        else if c = 0x5D then pop rest
        else none

/-- The first octet of a number, `true`, `false` or `null`. -/
def stepBeginScalar (stack : List Frame) (c : UInt8) : Next :=
  if c = 0x2D then keep .neg stack
  else if c = 0x30 then keep .zero stack
  else if c = 0x74 then keep .t stack
  else if c = 0x66 then keep .f stack
  else if c = 0x6E then keep .n stack
  else if isDigit c then keep .digits stack
  else none

def stepBeginValue (stack : List Frame) (c : UInt8) : Next :=
  if isSpace c then skip .beginValue stack
  else if c = 0x7B then push .objectKey .beginStringOrEmpty stack
  else if c = 0x5B then push .arrayValue .beginValueOrEmpty stack
  else if c = 0x22 then keep .inString stack
  else stepBeginScalar stack c

def stepBeginString (stack : List Frame) (c : UInt8) : Next :=
  if isSpace c then skip .beginString stack
  else if c = 0x22 then keep .inString stack
  else none

def stepEscape (stack : List Frame) (c : UInt8) : Next :=
  if c ∈ [0x62, 0x66, 0x6E, 0x72, 0x74, 0x5C, 0x2F, 0x22] then keep .inString stack
  else if c = 0x75 then keep (.inHex 3) stack
  else none

def stepMode (mode : Mode) (stack : List Frame) (c : UInt8) : Next :=
  match mode with
  | .beginValue => stepBeginValue stack c
  | .beginValueOrEmpty =>
    if isSpace c then skip .beginValueOrEmpty stack
    else if c = 0x5D then stepEndValue stack c
    else stepBeginValue stack c
  | .beginString => stepBeginString stack c
  | .beginStringOrEmpty =>
    if isSpace c then skip .beginStringOrEmpty stack
    else if c = 0x7D then
      match stack with
      | [] => none
      | _ :: rest => stepEndValue (.objectValue :: rest) c
    else stepBeginString stack c
  | .inString =>
    if c = 0x22 then keep .endValue stack
    else if c = 0x5C then keep .inEscape stack
    else if c < 0x20 then none
    else keep .inString stack
  | .inEscape => stepEscape stack c
  | .inHex due =>
    if isHex c then keep (match due with | 0 => .inString | due + 1 => .inHex due) stack else none
  | .t => if c = 0x72 then keep .tr stack else none
  | .tr => if c = 0x75 then keep .tru stack else none
  | .tru => if c = 0x65 then keep .endValue stack else none
  | .f => if c = 0x61 then keep .fa stack else none
  | .fa => if c = 0x6C then keep .fal stack else none
  | .fal => if c = 0x73 then keep .fals stack else none
  | .fals => if c = 0x65 then keep .endValue stack else none
  | .n => if c = 0x75 then keep .nu stack else none
  | .nu => if c = 0x6C then keep .nul stack else none
  | .nul => if c = 0x6C then keep .endValue stack else none
  | .neg =>
    if c = 0x30 then keep .zero stack
    else if isDigit c then keep .digits stack
    else none
  | .digits =>
    if isDigit c then keep .digits stack
    else if c = 0x2E then keep .dot stack
    else if c = 0x65 ∨ c = 0x45 then keep .exp stack
    else stepEndValue stack c
  | .zero =>
    if c = 0x2E then keep .dot stack
    else if c = 0x65 ∨ c = 0x45 then keep .exp stack
    else stepEndValue stack c
  | .dot => if isDigit c then keep .frac stack else none
  | .frac =>
    if isDigit c then keep .frac stack
    else if c = 0x65 ∨ c = 0x45 then keep .exp stack
    else stepEndValue stack c
  | .exp =>
    if c = 0x2B ∨ c = 0x2D then keep .expSign stack
    else if isDigit c then keep .expDigits stack
    else none
  | .expSign => if isDigit c then keep .expDigits stack else none
  | .expDigits => if isDigit c then keep .expDigits stack else stepEndValue stack c
  | .endValue => stepEndValue stack c
  | .endTop => if isSpace c then skip .endTop stack else none

namespace Scanner

def step (s : Scanner) (c : UInt8) : Next := stepMode s.mode s.stack c

def start : Scanner := ⟨.beginValue, []⟩

def eof (s : Scanner) : Bool :=
  s.mode = .endTop ||
    match s.step 0x20 with
    | some (s', _) => s'.mode = .endTop
    | none => false

def deepest (s : Scanner) : Bytes → Nat
  | [] => s.stack.length
  | c :: text =>
    match s.step c with
    | none => s.stack.length
    | some (s', _) => max s.stack.length (s'.deepest text)

def reads (s : Scanner) : Bytes → Option Scanner
  | [] => some s
  | c :: text =>
    match s.step c with
    | some (s', true) => s'.reads text
    | _ => none

end Scanner

/-! ## Compaction -/

/-- An octet that the encoder escapes to keep the text safe inside HTML. -/
def isHtml (c : UInt8) : Bool := c = 0x3C || c = 0x3E || c = 0x26

def lineSep : Bytes → Option UInt8
  | a :: b :: c :: _ =>
    if a = 0xE2 ∧ b = 0x80 ∧ c = 0xA8 then some 0x38
    else if a = 0xE2 ∧ b = 0x80 ∧ c = 0xA9 then some 0x39
    else none
  | _ => none

def uEscape (c : UInt8) : Bytes := lit "\\u00" ++ hex [c]

def sepEscape (d : UInt8) : Bytes := lit "\\u202" ++ [d]

/-- The loop of `appendCompact`. The next `due` octets belong to a separator whose escape is
written. -/
def compactFrom (s : Scanner) (due : Nat) : Bytes → Res Bytes
  | [] => if s.eof then .ok [] else .error (errorf "unexpected end of JSON input" [])
  | c :: text =>
    match s.step c with
    | none => .error (errorf "invalid character %q" [.bytes [c]])
    | some (s', kept) =>
      match due with
      | due + 1 => compactFrom s' due text
      | 0 =>
        if isHtml c then do return uEscape c ++ (← compactFrom s' 0 text)
        else
          match lineSep (c :: text) with
          | some d => do return sepEscape d ++ (← compactFrom s' 2 text)
          | none =>
            if kept then do return c :: (← compactFrom s' 0 text)
            else compactFrom s' 0 text

def compact (text : Bytes) : Res Bytes := compactFrom .start 0 text


/-! ## Texts that compaction leaves alone -/

def plain : Bytes → Bool
  | [] => true
  | c :: text => !isHtml c && (lineSep (c :: text)).isNone && plain text

def isCont (c : UInt8) : Bool := 0x80 ≤ c && c ≤ 0xBF

variable {c : UInt8}

lemma lineSep_of_ne (h : c ≠ 0xE2) (text : Bytes) : lineSep (c :: text) = none := by
  unfold lineSep
  split
  · rename_i a b d rest heq
    cases heq
    simp [h]
  · rfl

variable {a : Bytes}

/-- Nothing is escaped where two texts meet, unless the second starts inside a character. -/
lemma plain_append {b : Bytes} (ha : plain a) (hb : plain b)
    (hhead : ∀ c, b.head? = some c → isCont c = false) : plain (a ++ b) := by
  induction a with
  | nil => exact hb
  | cons c a ih =>
    simp only [plain, Bool.and_eq_true] at ha
    simp only [cons_append, plain, Bool.and_eq_true]
    refine ⟨⟨ha.1.1, ?_⟩, ih ha.2⟩
    have hsep := ha.1.2
    -- a separator that is not in the first text has its second or third octet in the other one
    rcases a with _ | ⟨x, _ | ⟨y, a⟩⟩
    · rcases b with _ | ⟨x, _ | ⟨y, b⟩⟩
      · exact hsep
      · rfl
      · have hx : x ≠ 0x80 := by
          rintro rfl
          exact absurd (hhead _ rfl) (by decide)
        simp [lineSep, hx]
    · rcases b with _ | ⟨y, b⟩
      · exact hsep
      · have hy : y ≠ 0xA8 ∧ y ≠ 0xA9 := by
          constructor
          · rintro rfl
            exact absurd (hhead _ rfl) (by decide)
          · rintro rfl
            exact absurd (hhead _ rfl) (by decide)
        simp [lineSep, hy]
    · exact hsep

namespace Scanner

lemma reads_append (s : Scanner) (a b : Bytes) :
    s.reads (a ++ b) = (s.reads a).bind fun s' => s'.reads b := by
  induction a generalizing s with
  | nil => rfl
  | cons c a ih =>
    rw [cons_append, reads, reads]
    split
    · exact ih _
    · rfl

lemma stack_le_deepest (s : Scanner) (text : Bytes) : s.stack.length ≤ s.deepest text := by
  cases text with
  | nil => exact Nat.le_refl _
  | cons =>
    rw [deepest]
    split
    · exact Nat.le_refl _
    · exact Nat.le_max_left _ _

lemma reads_cons {s s' : Scanner} {c : UInt8} (h : s.step c = some (s', true)) (text : Bytes) :
    s.reads (c :: text) = s'.reads text := by
  rw [reads, h]

end Scanner

variable {s : Scanner} {text : Bytes}

lemma compactFrom_plain {s' : Scanner} (h : s.reads text = some s') (heof : s'.eof = true)
    (hplain : plain text) : compactFrom s 0 text = .ok text := by
  induction text generalizing s with
  | nil =>
    cases h
    rw [compactFrom, if_pos heof]
  | cons c text ih =>
    rw [Scanner.reads] at h
    simp only [plain, Bool.and_eq_true, Bool.not_eq_true', isNone_iff_eq_none] at hplain
    split at h
    · rename_i s'' hstep
      rw [compactFrom, hstep]
      simp only [hplain.1.1, hplain.1.2, ih h hplain.2, ok_bind, Bool.false_eq_true, ↓reduceIte]
      rfl
    · cases h

/-! ## Ends of values -/

def Mode.isEnd : Mode → Bool
  | .endValue | .zero | .digits | .frac | .expDigits => true
  | _ => false

def Ends (mode : Mode) (stack : List Frame) : Prop :=
  mode.isEnd = true ∨ mode = .endTop ∧ stack = []

lemma stepMode_of_isEnd {mode : Mode} (h : mode.isEnd = true) (hdigit : isDigit c = false)
    (hdot : c ≠ 0x2E) (he : c ≠ 0x65) (hE : c ≠ 0x45) (stack : List Frame) :
    stepMode mode stack c = stepEndValue stack c := by
  cases mode with
  | endValue => rfl
  | zero => simp [stepMode, hdot, he, hE]
  | digits => simp [stepMode, hdigit, hdot, he, hE]
  | frac => simp [stepMode, hdigit, he, hE]
  | expDigits => simp [stepMode, hdigit]
  | _ => cases h

lemma Ends.eof {mode : Mode} (h : Ends mode []) : (⟨mode, []⟩ : Scanner).eof = true := by
  rcases h with h | ⟨rfl, -⟩
  · rw [Scanner.eof, Scanner.step, stepMode_of_isEnd h (by decide) (by decide) (by decide)
      (by decide)]
    simp [stepEndValue, isSpace, skip]
  · simp [Scanner.eof]

structure Emits (text : Bytes) (depth : Nat) : Prop where
  plain : plain text = true
  head : ∃ c rest, text = c :: rest ∧ c < 0x80
  reads : ∀ stack : List Frame, stack.length + depth ≤ maxNestingDepth →
    ∃ mode, (⟨.beginValue, stack⟩ : Scanner).reads text = some ⟨mode, stack⟩ ∧ Ends mode stack

lemma Emits.compact_eq {depth : Nat} (h : Emits text depth) (hdepth : depth ≤ maxNestingDepth) :
    compact text = .ok text := by
  obtain ⟨mode, hreads, hends⟩ := h.reads [] (by simpa using hdepth)
  exact compactFrom_plain hreads hends.eof h.plain

/-! ## What compaction returns -/

def Scanner.inside (base : List Frame) (s : Scanner) : Scanner where
  mode := if s.mode = .endTop ∧ base ≠ [] then .endValue else s.mode
  stack := s.stack ++ base

section
variable {base stack : List Frame} {s s' : Scanner} {mode : Mode}

lemma keep_inside (hmode : mode ≠ .endTop) (h : keep mode stack = some (s, true)) :
    keep mode (stack ++ base) = some (s.inside base, true) := by
  cases h
  simp [keep, Scanner.inside, hmode]

lemma pop_inside (h : pop stack = some (s, true)) :
    pop (stack ++ base) = some (s.inside base, true) := by
  cases h
  rcases stack with _ | ⟨frame, stack⟩
  · by_cases hbase : base = []
    · simp [pop, keep, Scanner.inside, hbase]
    · simp [pop, keep, Scanner.inside, hbase]
  · simp [pop, keep, Scanner.inside]

lemma push_inside {frame : Frame} (hmode : mode ≠ .endTop)
    (h : push frame mode stack = some (s, true))
    (hdepth : s.stack.length + base.length ≤ maxNestingDepth) :
    push frame mode (stack ++ base) = some (s.inside base, true) := by
  unfold push at h ⊢
  split at h
  · cases h
    rw [length_cons] at hdepth
    rw [if_pos (by rw [length_append]; omega)]
    simp [keep, Scanner.inside, hmode]
  · cases h

lemma stepEndValue_inside (h : stepEndValue stack c = some (s, true)) :
    stepEndValue (stack ++ base) c = some (s.inside base, true) := by
  unfold stepEndValue at h
  rcases stack with _ | ⟨_ | _ | _, rest⟩ <;> simp only [stepEndValue, cons_append] <;>
    grind [skip, keep_inside, pop_inside]

lemma stepEndValue_keeps (h : stepEndValue stack c = some (s, true)) :
    c = 0x3A ∨ c = 0x2C ∨ c = 0x7D ∨ c = 0x5D := by
  unfold stepEndValue at h
  grind [skip]

lemma stepBeginValue_inside (h : stepBeginValue stack c = some (s, true))
    (hdepth : s.stack.length + base.length ≤ maxNestingDepth) :
    stepBeginValue (stack ++ base) c = some (s.inside base, true) := by
  have hscalar : stepBeginScalar stack c = some (s, true) →
      stepBeginScalar (stack ++ base) c = some (s.inside base, true) := by
    unfold stepBeginScalar
    grind [keep_inside]
  unfold stepBeginValue at h ⊢
  grind [skip, keep_inside, push_inside]

lemma stepMode_inside (h : stepMode mode stack c = some (s, true))
    (hdepth : s.stack.length + base.length ≤ maxNestingDepth) :
    stepMode mode (stack ++ base) c = some (s.inside base, true) := by
  cases mode with
  | beginValue => exact stepBeginValue_inside h hdepth
  | beginValueOrEmpty =>
    simp only [stepMode] at h ⊢
    grind [skip, stepBeginValue_inside, stepEndValue_inside]
  | beginStringOrEmpty =>
    by_cases hclose : c = 0x7D
    · subst hclose
      rcases stack with _ | ⟨frame, stack⟩
      · cases h
      · have hend : stepEndValue (.objectValue :: stack) 0x7D = some (s, true) := h
        exact stepEndValue_inside hend
    · simp only [stepMode, if_neg hclose, stepBeginString] at h ⊢
      grind [skip, keep_inside]
  | _ =>
    simp only [stepMode, stepBeginString, stepEscape] at h ⊢
    grind [skip, keep_inside, push_inside, stepEndValue_inside]

lemma stepEndValue_skips (h : stepEndValue stack c = some (s, false)) :
    isSpace c = true ∧ s = ⟨if stack = [] then .endTop else .endValue, stack⟩ := by
  unfold stepEndValue at h
  grind [skip, keep, pop]

lemma stepMode_skips (h : stepMode mode stack c = some (s, false)) :
    s = ⟨mode, stack⟩ ∧ mode ≠ .endTop ∨
      mode.isEnd = true ∧ s = ⟨if stack = [] then .endTop else .endValue, stack⟩ ∨
      mode = .endTop ∧ s = ⟨.endTop, stack⟩ := by
  have hend : stepEndValue stack c = some (s, false) →
      isSpace c = true ∧ s = ⟨if stack = [] then .endTop else .endValue, stack⟩ :=
    stepEndValue_skips
  have hscalar : stepBeginScalar stack c ≠ some (s, false) := by
    unfold stepBeginScalar
    grind [keep]
  cases mode with
  | beginStringOrEmpty =>
    by_cases hclose : c = 0x7D
    · subst hclose
      rcases stack with _ | ⟨frame, stack⟩
      · cases h
      · have hend : stepEndValue (.objectValue :: stack) 0x7D = some (s, false) := h
        exact absurd (stepEndValue_skips hend).1 (by decide)
    · simp only [stepMode, if_neg hclose, stepBeginString] at h
      grind [skip, keep]
  | beginValueOrEmpty =>
    simp only [stepMode, stepBeginValue] at h
    grind [skip, keep, push]
  | _ =>
    simp only [stepMode, stepBeginValue, stepBeginString, stepEscape] at h
    grind [skip, keep, push, Mode.isEnd]

/-- Octets that are neither ASCII nor white space, and those that HTML reserves, stand in strings
only. -/
lemma stepMode_inString {kept : Bool} (hc : isHtml c = true ∨ 0x80 ≤ c)
    (h : stepMode mode stack c = some (s, kept)) :
    mode = .inString ∧ s = ⟨.inString, stack⟩ ∧ kept = true := by
  have hspace : isSpace c = false := by grind [isSpace, isHtml]
  have hdigit : isDigit c = false := by grind [isDigit, isHtml]
  have hhex : isHex c = false := by grind [isHex, isHtml]
  have hend : ∀ frames, stepEndValue frames c = none := by
    intro frames
    unfold stepEndValue
    grind [isHtml]
  have hscalar : stepBeginScalar stack c = none := by
    unfold stepBeginScalar
    grind [isHtml]
  cases mode with
  | beginStringOrEmpty =>
    simp only [stepMode, stepBeginString, hend] at h
    grind [isHtml]
  | inString =>
    simp only [stepMode] at h
    grind [keep, isHtml]
  | inEscape =>
    simp only [stepMode, stepEscape, mem_cons, not_mem_nil] at h
    grind [isHtml]
  | _ =>
    simp only [stepMode, stepBeginValue, stepBeginString] at h
    grind [isHtml]

lemma stepMode_top {kept : Bool} (h : stepMode mode stack c = some (s, kept))
    (hmode : mode = .endTop → stack = []) (htop : s.mode = .endTop) : s.stack = [] := by
  have hend : ∀ frames, stepEndValue frames c = some (s, kept) → s.stack = [] := by
    intro frames hstep
    unfold stepEndValue at hstep
    grind [skip, keep, pop]
  have hscalar : stepBeginScalar stack c ≠ some (s, kept) := by
    unfold stepBeginScalar
    grind [keep]
  cases mode with
  | beginStringOrEmpty =>
    simp only [stepMode, stepBeginString] at h
    grind [skip, keep]
  | inEscape =>
    simp only [stepMode, stepEscape] at h
    grind [keep]
  | _ =>
    simp only [stepMode, stepBeginValue, stepBeginString] at h
    grind [skip, keep, push]

lemma stepMode_space (h : stepMode mode stack 0x20 = some (s, true)) : s.mode ≠ .endTop := by
  have hspace : isSpace 0x20 = true := rfl
  have hend : stepEndValue stack 0x20 ≠ some (s, true) := by
    unfold stepEndValue
    grind [skip]
  have hdigit : isDigit 0x20 = false := rfl
  have hhex : isHex 0x20 = false := rfl
  cases mode with
  | inEscape =>
    simp only [stepMode, stepEscape] at h
    grind [keep]
  | _ =>
    simp only [stepMode, stepBeginValue, stepBeginString] at h
    grind [skip, keep]

end

lemma Scanner.ends_of_eof (h : s.eof = true) (htop : s.mode = .endTop → s.stack = []) :
    s.stack = [] ∧ Ends s.mode [] := by
  simp only [eof, Bool.or_eq_true, decide_eq_true_eq] at h
  rcases h with h | h
  · exact ⟨htop h, .inr ⟨h, rfl⟩⟩
  · split at h
    · rename_i s' kept hstep
      have h' : s'.mode = .endTop := by simpa using h
      cases kept with
      | true => exact absurd h' (stepMode_space hstep)
      | false =>
        rcases stepMode_skips hstep with ⟨rfl, hne⟩ | ⟨hend, rfl⟩ | ⟨hmode, rfl⟩
        · exact absurd h' hne
        · by_cases hstack : s.stack = []
          · exact ⟨hstack, .inl hend⟩
          · simp [hstack] at h'
        · exact ⟨htop hmode, .inr ⟨hmode, rfl⟩⟩
    · cases h

/-- The scanner of a text, and the scanner that reads the compacted text inside the brackets `base`:
they differ where white space ended a value. -/
structure Agree (base : List Frame) (s s' : Scanner) : Prop where
  stack : s'.stack = s.stack ++ base
  mode : s'.mode = (s.inside base).mode ∨
    (s.mode = .endValue ∨ s.mode = .endTop) ∧ s'.mode.isEnd = true
  top : s.mode = .endTop → s.stack = []

namespace Agree

variable {base : List Frame} {s s' t : Scanner} (h : Agree base s t)
include h

lemma inString (hmode : s.mode = .inString) : t = ⟨.inString, s.stack ++ base⟩ := by
  rcases h.mode with hm | ⟨hm, -⟩
  · have hmode' : t.mode = .inString := by simp [hm, Scanner.inside, hmode]
    rw [← hmode', ← h.stack]
  · rcases hm with hm | hm
    · rw [hm] at hmode
      cases hmode
    · rw [hm] at hmode
      cases hmode

lemma keep (hstep : s.step c = some (s', true))
    (hdepth : s'.stack.length + base.length ≤ maxNestingDepth) :
    t.step c = some (s'.inside base, true) ∧ Agree base s' (s'.inside base) := by
  have hne : s.mode ≠ .endTop := by
    intro htop
    simp only [Scanner.step, htop, stepMode] at hstep
    grind [skip]
  refine ⟨?_, rfl, .inl rfl, fun htop => stepMode_top hstep (fun h' => absurd h' hne) htop⟩
  rw [Scanner.step, h.stack]
  rcases h.mode with hm | ⟨hm, hend⟩
  · have hmode : t.mode = s.mode := by simp [hm, Scanner.inside, hne]
    rw [hmode]
    exact stepMode_inside hstep hdepth
  · have hmode : s.mode = .endValue := hm.resolve_right hne
    rw [Scanner.step, hmode] at hstep
    rw [stepMode_of_isEnd hend]
    · exact stepEndValue_inside hstep
    all_goals
      rcases stepEndValue_keeps hstep with rfl | rfl | rfl | rfl <;> decide

lemma skip (hstep : s.step c = some (s', false)) : Agree base s' t := by
  rcases stepMode_skips hstep with ⟨rfl, -⟩ | ⟨hend, rfl⟩ | ⟨hmode, rfl⟩
  · exact h
  · refine ⟨h.stack, .inr ⟨?_, ?_⟩, ?_⟩
    · by_cases hstack : s.stack = []
      · exact .inr (by simp [hstack])
      · exact .inl (by simp [hstack])
    · rcases h.mode with hm | ⟨-, hm⟩
      · rw [hm, Scanner.inside]
        have hne : s.mode ≠ .endTop := by
          intro htop
          rw [htop] at hend
          cases hend
        simpa [hne] using hend
      · exact hm
    · simp only
      intro hmode
      by_contra hstack
      simp [hstack] at hmode
  · have hs : s = ⟨.endTop, s.stack⟩ := by rw [← hmode]
    rw [← hs]
    exact h

lemma ends (heof : s.eof = true) : t.stack = base ∧ Ends t.mode base := by
  obtain ⟨hstack, hends⟩ := Scanner.ends_of_eof heof h.top
  refine ⟨by rw [h.stack, hstack, nil_append], ?_⟩
  rcases h.mode with hm | ⟨-, hm⟩
  · rw [hm, Scanner.inside]
    rcases hends with hend | ⟨htop, -⟩
    · left
      have hne : s.mode ≠ .endTop := by
        intro htop
        rw [htop] at hend
        cases hend
      simpa [hne] using hend
    · by_cases hbase : base = []
      · exact .inr ⟨by simp [htop, hbase], hbase⟩
      · exact .inl (by simp [htop, hbase, Mode.isEnd])
  · exact .inl hm

end Agree

/-! ### Escapes -/

lemma isHex_hexDigit {d : Nat} (h : d < 16) : isHex (hexDigit d) = true := by
  have hall : ∀ d : Fin 16, isHex (hexDigit d) = true := by decide
  exact hall ⟨d, h⟩

variable {d : UInt8}

lemma reads_escape {a b : UInt8} (ha : isHex a = true) (hb : isHex b = true) (hc : isHex c = true)
    (hd : isHex d = true) (stack : List Frame) :
    (⟨.inString, stack⟩ : Scanner).reads [0x5C, 0x75, a, b, c, d] = some ⟨.inString, stack⟩ := by
  simp [Scanner.reads, Scanner.step, stepMode, stepEscape, keep, ha, hb, hc, hd]

lemma reads_uEscape (c : UInt8) (stack : List Frame) :
    (⟨.inString, stack⟩ : Scanner).reads (uEscape c) = some ⟨.inString, stack⟩ := by
  have hc := c.toNat_lt
  exact reads_escape rfl rfl (isHex_hexDigit (by omega)) (isHex_hexDigit (by omega)) stack

lemma reads_sepEscape (hd : isHex d = true) (stack : List Frame) :
    (⟨.inString, stack⟩ : Scanner).reads (sepEscape d) = some ⟨.inString, stack⟩ :=
  reads_escape rfl rfl rfl hd stack

lemma lineSep_some (h : lineSep text = some d) :
    isHex d = true ∧ ∃ c rest, text = 0xE2 :: 0x80 :: c :: rest ∧ isCont c = true := by
  unfold lineSep at h
  split at h
  · rename_i a b c rest
    split at h
    · rename_i heq
      obtain ⟨rfl, rfl, rfl⟩ := heq
      cases h
      exact ⟨rfl, _, _, rfl, by decide⟩
    · split at h
      · rename_i heq
        obtain ⟨rfl, rfl, rfl⟩ := heq
        cases h
        exact ⟨rfl, _, _, rfl, by decide⟩
      · cases h
  · cases h

variable {out : Bytes}

/-- **The compacted text reads as the text does**, inside any brackets that leave room for it. -/
theorem compactFrom_reads {base : List Frame} {t : Scanner} {due : Nat}
    (hcompact : compactFrom s due text = .ok out) (h : Agree base s t)
    (hdue : due ≠ 0 → s.mode = .inString ∧ ∀ x ∈ text.take due, 0x80 ≤ x)
    (hdepth : s.deepest text + base.length ≤ maxNestingDepth) :
    ∃ mode, t.reads out = some ⟨mode, base⟩ ∧ Ends mode base := by
  induction text generalizing s t due out with
  | nil =>
    rw [compactFrom] at hcompact
    split at hcompact
    · rename_i heof
      cases hcompact
      obtain ⟨hstack, hends⟩ := h.ends heof
      exact ⟨t.mode, by rw [Scanner.reads, ← hstack], hends⟩
    · cases hcompact
  | cons c text ih =>
    rw [compactFrom] at hcompact
    cases hstep : s.step c with
    | none => simp [hstep] at hcompact
    | some x =>
      obtain ⟨s', kept⟩ := x
      rw [Scanner.deepest, hstep] at hdepth
      have hdepth' : s'.deepest text + base.length ≤ maxNestingDepth := by
        simp only at hdepth
        omega
      -- an octet of a string leaves both scanners where they are
      have hstays : ∀ {due' : Nat} {out' : Bytes}, (isHtml c = true ∨ 0x80 ≤ c) →
          compactFrom s' due' text = .ok out' → (∀ x ∈ text.take due', 0x80 ≤ x) →
          t = ⟨.inString, t.stack⟩ ∧ ∃ mode, t.reads out' = some ⟨mode, base⟩ ∧ Ends mode base := by
        intro due' out' hc hrest htake
        obtain ⟨hmode, rfl, -⟩ := stepMode_inString hc hstep
        have ht := h.inString hmode
        have hs : s = ⟨.inString, s.stack⟩ := by rw [← hmode]
        refine ⟨by rw [ht], ih hrest (hs ▸ h) (fun _ => ⟨rfl, htake⟩) hdepth'⟩
      cases due with
      | succ =>
        simp only [hstep] at hcompact
        obtain ⟨-, htake⟩ := hdue (by omega)
        rw [take_succ_cons] at htake
        exact (hstays (.inr (htake c (by simp))) hcompact fun x hx => htake x (by simp [hx])).2
      | zero =>
        simp only [hstep] at hcompact
        split at hcompact
        · rename_i hhtml
          simp only [bind_ok, pure_ok] at hcompact
          obtain ⟨out', hrest, rfl⟩ := hcompact
          obtain ⟨ht, mode, hreads, hends⟩ := hstays (.inl hhtml) hrest (by simp)
          refine ⟨mode, ?_, hends⟩
          rw [Scanner.reads_append, ht, reads_uEscape, bind_some, ← ht]
          exact hreads
        · split at hcompact
          · rename_i d hsep
            obtain ⟨hd, x, rest, heq, hx⟩ := lineSep_some hsep
            cases heq
            simp only [bind_ok, pure_ok] at hcompact
            obtain ⟨out', hrest, rfl⟩ := hcompact
            have hx' : 0x80 ≤ x := by
              simp only [isCont, Bool.and_eq_true, decide_eq_true_eq] at hx
              exact hx.1
            obtain ⟨ht, mode, hreads, hends⟩ := hstays (.inr (by decide)) hrest (by simp [hx'])
            refine ⟨mode, ?_, hends⟩
            rw [Scanner.reads_append, ht, reads_sepEscape hd, bind_some, ← ht]
            exact hreads
          · cases kept with
            | true =>
              simp only [↓reduceIte, bind_ok, pure_ok] at hcompact
              obtain ⟨out', hrest, rfl⟩ := hcompact
              have hfits : s'.stack.length + base.length ≤ maxNestingDepth := by
                have := s'.stack_le_deepest text
                omega
              obtain ⟨hstep', hagree⟩ := h.keep hstep hfits
              obtain ⟨mode, hreads, hends⟩ := ih hrest hagree (fun hne => absurd rfl hne) hdepth'
              exact ⟨mode, by rw [Scanner.reads_cons hstep']; exact hreads, hends⟩
            | false =>
              simp only [Bool.false_eq_true, ↓reduceIte] at hcompact
              exact ih hcompact (h.skip hstep) (fun hne => absurd rfl hne) hdepth'

/-! ### Nothing is left to escape -/

lemma ascii_of_all (h : (a.all fun x => !isHtml x && x != 0xE2) = true) :
    ∀ x ∈ a, isHtml x = false ∧ x ≠ 0xE2 := by
  intro x hx
  have hx := all_eq_true.mp h x hx
  simpa using hx

lemma plain_ascii_append {b : Bytes} (ha : ∀ c ∈ a, isHtml c = false ∧ c ≠ 0xE2)
    (hb : plain b = true) : plain (a ++ b) = true := by
  induction a with
  | nil => exact hb
  | cons c a ih =>
    obtain ⟨hhtml, hne⟩ := ha c (by simp)
    rw [cons_append, plain, hhtml, lineSep_of_ne hne]
    exact ih fun x hx => ha x (by simp [hx])

lemma uEscape_ascii (c : UInt8) : ∀ x ∈ uEscape c, isHtml x = false ∧ x ≠ 0xE2 := by
  have hdigit : ∀ d : Fin 16, isHtml (hexDigit d) = false ∧ hexDigit d ≠ 0xE2 := by decide
  have hc := c.toNat_lt
  intro x hx
  have hx' : x ∈ [0x5C, 0x75, 0x30, 0x30, hexDigit (c.toNat / 16), hexDigit (c.toNat % 16)] := hx
  simp only [mem_cons, not_mem_nil, or_false] at hx'
  rcases hx' with rfl | rfl | rfl | rfl | rfl | rfl
  · decide
  · decide
  · decide
  · decide
  · exact hdigit ⟨_, by omega⟩
  · exact hdigit ⟨_, by omega⟩

lemma sepEscape_ascii (hd : isHex d = true) : ∀ x ∈ sepEscape d, isHtml x = false ∧ x ≠ 0xE2 := by
  intro x hx
  have hx' : x ∈ [0x5C, 0x75, 0x32, 0x30, 0x32, d] := hx
  simp only [mem_cons, not_mem_nil, or_false] at hx'
  rcases hx' with rfl | rfl | rfl | rfl | rfl | rfl
  · decide
  · decide
  · decide
  · decide
  · decide
  · constructor
    · grind [isHex, isDigit, isHtml]
    · grind [isHex, isDigit]

lemma compactFrom_cont {stack : List Frame} {x : UInt8}
    (h : compactFrom ⟨.inString, stack⟩ 0 text = .ok (x :: out)) (hx : isCont x = true) :
    ∃ text', text = x :: text' ∧ compactFrom ⟨.inString, stack⟩ 0 text' = .ok out := by
  have hne : x ≠ 0x5C := by
    rintro rfl
    cases hx
  rw [compactFrom.eq_def] at h
  cases text with
  | nil =>
    have heof : (⟨.inString, stack⟩ : Scanner).eof = false := rfl
    simp [heof] at h
  | cons c text =>
    simp only at h
    cases hstep : (⟨.inString, stack⟩ : Scanner).step c with
    | none => simp [hstep] at h
    | some y =>
      obtain ⟨s, kept⟩ := y
      simp only [hstep] at h
      split at h
      · simp only [bind_ok, pure_ok] at h
        obtain ⟨out', -, heq⟩ := h
        exact absurd (head_eq_of_cons_eq heq).symm hne
      · split at h
        · simp only [bind_ok, pure_ok] at h
          obtain ⟨out', -, heq⟩ := h
          exact absurd (head_eq_of_cons_eq heq).symm hne
        · cases kept with
          | true =>
            simp only [↓reduceIte, bind_ok, pure_ok, List.cons.injEq] at h
            obtain ⟨out', hrest, rfl, rfl⟩ := h
            have hge : 0x80 ≤ c := by
              simp only [isCont, Bool.and_eq_true, decide_eq_true_eq] at hx
              exact hx.1
            obtain ⟨-, rfl, -⟩ := stepMode_inString (.inr hge) hstep
            exact ⟨text, rfl, hrest⟩
          | false =>
            simp only [Scanner.step, stepMode] at hstep
            grind [keep]

lemma compactFrom_out_plain {due : Nat} (h : compactFrom s due text = .ok out) :
    plain out = true := by
  induction text generalizing s due out with
  | nil =>
    rw [compactFrom] at h
    split at h
    · cases h
      rfl
    · cases h
  | cons c text ih =>
    rw [compactFrom] at h
    cases hstep : s.step c with
    | none => simp [hstep] at h
    | some x =>
      obtain ⟨s', kept⟩ := x
      cases due with
      | succ =>
        simp only [hstep] at h
        exact ih h
      | zero =>
        simp only [hstep] at h
        split at h
        · simp only [bind_ok, pure_ok] at h
          obtain ⟨out', hrest, rfl⟩ := h
          exact plain_ascii_append (uEscape_ascii c) (ih hrest)
        · rename_i hhtml
          split at h
          · rename_i d hsep
            simp only [bind_ok, pure_ok] at h
            obtain ⟨out', hrest, rfl⟩ := h
            exact plain_ascii_append (sepEscape_ascii (lineSep_some hsep).1) (ih hrest)
          · rename_i hsep
            cases kept with
            | false =>
              simp only [Bool.false_eq_true, ↓reduceIte] at h
              exact ih h
            | true =>
              simp only [↓reduceIte, bind_ok, pure_ok] at h
              obtain ⟨out', hrest, rfl⟩ := h
              -- the octets of a separator that comes out follow each other in the text
              have hnone : lineSep (c :: out') = none := by
                by_contra hsome
                obtain ⟨d, hd⟩ := ne_none_iff_exists'.mp hsome
                obtain ⟨-, y, rest, heq, hy⟩ := lineSep_some hd
                cases heq
                obtain ⟨-, rfl, -⟩ := stepMode_inString (.inr (by decide)) hstep
                obtain ⟨text₁, rfl, hrest₁⟩ := compactFrom_cont hrest (by decide)
                obtain ⟨text₂, rfl, -⟩ := compactFrom_cont hrest₁ hy
                have hfront : lineSep (0xE2 :: 0x80 :: y :: text₂) =
                    lineSep (0xE2 :: 0x80 :: y :: rest) := rfl
                rw [hfront, hd] at hsep
                cases hsep
              simp only [plain, hnone, ih hrest]
              simpa using hhtml

lemma compactFrom_head {stack : List Frame}
    (h : compactFrom ⟨.beginValue, stack⟩ 0 text = .ok out) :
    ∃ c rest, out = c :: rest ∧ c < 0x80 := by
  induction text generalizing out with
  | nil =>
    have heof : (⟨.beginValue, stack⟩ : Scanner).eof = false := rfl
    simp [compactFrom, heof] at h
  | cons c text ih =>
    rw [compactFrom] at h
    cases hstep : (⟨.beginValue, stack⟩ : Scanner).step c with
    | none => simp [hstep] at h
    | some x =>
      obtain ⟨s, kept⟩ := x
      by_cases hc : isHtml c = true ∨ 0x80 ≤ c
      · cases (stepMode_inString hc hstep).1
      · rw [not_or] at hc
        have hsep : lineSep (c :: text) = none := lineSep_of_ne (by grind) text
        simp only [hstep, hc.1, hsep] at h
        cases kept with
        | true =>
          simp only [Bool.false_eq_true, ↓reduceIte, bind_ok, pure_ok] at h
          obtain ⟨out', -, rfl⟩ := h
          exact ⟨c, out', rfl, by grind⟩
        | false =>
          simp only [Bool.false_eq_true, ↓reduceIte] at h
          rcases stepMode_skips hstep with ⟨rfl, -⟩ | ⟨hend, -⟩ | ⟨htop, -⟩
          · exact ih h
          · cases hend
          · cases htop

/-- **Compaction returns a text that it leaves alone**, as deep as the text it was given. -/
theorem compact_emits (h : compact text = .ok out) :
    Emits out (Scanner.start.deepest text) where
  plain := compactFrom_out_plain h
  head := compactFrom_head h
  reads stack hstack := by
    have hagree : Agree stack Scanner.start ⟨.beginValue, stack⟩ :=
      ⟨rfl, .inl (by simp [Scanner.inside, Scanner.start]), by simp [Scanner.start]⟩
    exact compactFrom_reads h hagree (fun hne => absurd rfl hne) (by omega)

/-! ## A value of an object -/

def Scanner.scan (s : Scanner) : Bytes → Option Scanner
  | [] => some s
  | c :: text =>
    match s.step c with
    | some (s', _) => s'.scan text
    | none => none

def isFieldValue (text : Bytes) : Bool :=
  match (⟨.beginValue, [.objectValue]⟩ : Scanner).scan text with
  | some s => s.mode.isEnd && decide (s.stack = [.objectValue])
  | none => false

lemma Scanner.scan_of_reads {s' : Scanner} (h : s.reads text = some s') :
    s.scan text = some s' := by
  induction text generalizing s with
  | nil => exact h
  | cons c text ih =>
    rw [Scanner.reads] at h
    rw [Scanner.scan]
    split at h
    · rename_i t hstep
      rw [hstep]
      exact ih h
    · cases h

lemma Emits.isFieldValue {depth : Nat} (h : Emits text depth) (hdepth : depth < maxNestingDepth) :
    isFieldValue text = true := by
  obtain ⟨mode, hreads, hends⟩ := h.reads [.objectValue] (by simp; omega)
  have hend : mode.isEnd = true := by
    rcases hends with hend | ⟨-, hnil⟩
    · exact hend
    · cases hnil
  simp [JsonText.isFieldValue, Scanner.scan_of_reads hreads, hend]

end JsonText

end Lib
