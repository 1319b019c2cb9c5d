import Stele.Lib.JsonScanner

/-!
# Encoding values as JSON text

`json.Marshal` of a Go value, as text: a value is a tree of scalars, arrays and objects, with the
text of a `json.Marshaler` anywhere in it, which the encoder compacts.

`encode_emits`: the text of a value is one that compaction leaves alone, so embedding it in another
document as a `json.RawMessage` does not change it.
-/

namespace Lib

open List Option

namespace JsonText

/-! ## Values -/

inductive Whole
  | zero
  | pos (first : Fin 9) (rest : List (Fin 10))

structure Exponent where
  upper : Bool
  sign : Option Bool
  first : Fin 10
  rest : List (Fin 10)

structure Number where
  neg : Bool
  whole : Whole
  frac : Option (Fin 10 × List (Fin 10))
  exp : Option Exponent

inductive Value
  | null
  | bool (b : Bool)
  | num (n : Number)
  | str (s : Bytes)
  | arr (items : List Value)
  | obj (fields : List (Bytes × Value))
  | marshaler (text : Res Bytes)
  /-- A value without an encoding: a channel, a function, `NaN`. -/
  | unsupported (e : Err)

/-! ## The text -/

def digit (d : Fin 10) : UInt8 := UInt8.ofNat (48 + d)

def Whole.text : Whole → Bytes
  | .zero => [0x30]
  | .pos first rest => digit first.succ :: rest.map digit

def fracText : Option (Fin 10 × List (Fin 10)) → Bytes
  | none => []
  | some (first, rest) => 0x2E :: digit first :: rest.map digit

def Exponent.text (e : Exponent) : Bytes :=
  (if e.upper then 0x45 else 0x65) ::
    ((match e.sign with
      | none => []
      | some true => [0x2B]
      | some false => [0x2D]) ++ digit e.first :: e.rest.map digit)

def expText : Option Exponent → Bytes
  | none => []
  | some e => e.text

def Number.text (n : Number) : Bytes :=
  (if n.neg then [0x2D] else []) ++ (n.whole.text ++ (fracText n.frac ++ expText n.exp))

def escapeAscii (c : UInt8) : Bytes :=
  if c = 0x22 ∨ c = 0x5C then [0x5C, c]
  else if c = 0x08 then [0x5C, 0x62]
  else if c = 0x0C then [0x5C, 0x66]
  else if c = 0x0A then [0x5C, 0x6E]
  else if c = 0x0D then [0x5C, 0x72]
  else if c = 0x09 then [0x5C, 0x74]
  else if c < 0x20 ∨ isHtml c then uEscape c
  else [c]

/-- The loop of `appendString`, where `k` more octets of the current rune are due, to be written or
left out. -/
def escapeFrom (written : Bool) (k : Nat) : Bytes → Bytes
  | [] => []
  | a :: rest =>
    match k with
    | k + 1 => (if written then [a] else []) ++ escapeFrom written k rest
    | 0 =>
      if a < 0x80 then escapeAscii a ++ escapeFrom true 0 rest
      else
        match runeLen (a :: rest) with
        | 0 => lit "\\ufffd" ++ escapeFrom true 0 rest
        | n + 1 =>
          match lineSep (a :: rest) with
          | some d => sepEscape d ++ escapeFrom false n rest
          | none => a :: escapeFrom true n rest

def quote (s : Bytes) : Bytes := 0x22 :: (escapeFrom true 0 s ++ [0x22])

mutual

def encode : Value → Res Bytes
  | .null => .ok (lit "null")
  | .bool b => .ok (if b then lit "true" else lit "false")
  | .num n => .ok n.text
  | .str s => .ok (quote s)
  | .arr [] => .ok [0x5B, 0x5D]
  | .arr (v :: vs) => do
    let item ← encode v
    let items ← encodeItems vs
    return 0x5B :: (item ++ items)
  | .obj [] => .ok [0x7B, 0x7D]
  | .obj ((key, v) :: fields) => do
    let item ← encode v
    let items ← encodeFields fields
    return 0x7B :: (quote key ++ 0x3A :: (item ++ items))
  | .marshaler text => do compact (← text)
  | .unsupported e => .error (.err e)

def encodeItems : List Value → Res Bytes
  | [] => .ok [0x5D]
  | v :: vs => do
    let item ← encode v
    let items ← encodeItems vs
    return 0x2C :: (item ++ items)

def encodeFields : List (Bytes × Value) → Res Bytes
  | [] => .ok [0x7D]
  | (key, v) :: fields => do
    let item ← encode v
    let items ← encodeFields fields
    return 0x2C :: (quote key ++ 0x3A :: (item ++ items))

end

mutual

def Value.depth : Value → Nat
  | .arr items => 1 + depthItems items
  | .obj fields => 1 + depthFields fields
  | .marshaler (.ok text) => Scanner.start.deepest text
  | _ => 0

def depthItems : List Value → Nat
  | [] => 0
  | v :: vs => max v.depth (depthItems vs)

def depthFields : List (Bytes × Value) → Nat
  | [] => 0
  | (_, v) :: fields => max v.depth (depthFields fields)

end

/-! ## Scalars -/

lemma isDigit_digit (d : Fin 10) : isDigit (digit d) = true := by
  revert d
  decide

lemma digit_ascii (d : Fin 10) : isHtml (digit d) = false ∧ digit d ≠ 0xE2 := by
  revert d
  decide

variable {mode : Mode} {stack : List Frame}

lemma reads_digits (h : ∀ c, isDigit c = true → stepMode mode stack c = keep mode stack)
    (ds : List (Fin 10)) : (⟨mode, stack⟩ : Scanner).reads (ds.map digit) = some ⟨mode, stack⟩ := by
  induction ds with
  | nil => rfl
  | cons d ds ih =>
    have hstep : (⟨mode, stack⟩ : Scanner).step (digit d) = some (⟨mode, stack⟩, true) :=
      h _ (isDigit_digit d)
    rw [map_cons, Scanner.reads_cons hstep]
    exact ih

section
variable (stack : List Frame) {mode : Mode}

lemma Whole.reads (w : Whole) (h : mode = .beginValue ∨ mode = .neg) :
    ∃ mode', (⟨mode, stack⟩ : Scanner).reads w.text = some ⟨mode', stack⟩ ∧
      (mode' = .zero ∨ mode' = .digits) := by
  cases w with
  | zero =>
    refine ⟨.zero, ?_, .inl rfl⟩
    rcases h with rfl | rfl <;> rfl
  | pos first rest =>
    refine ⟨.digits, ?_, .inr rfl⟩
    have hfirst : (⟨mode, stack⟩ : Scanner).step (digit first.succ) =
        some (⟨.digits, stack⟩, true) := by
      have hother : ∀ d : Fin 9, isSpace (digit d.succ) = false ∧
          digit d.succ ∉ [0x7B, 0x5B, 0x22, 0x2D, 0x30, 0x74, 0x66, 0x6E] := by
        decide
      obtain ⟨hspace, hnot⟩ := hother first
      have hdigit := isDigit_digit first.succ
      simp only [mem_cons, not_mem_nil, or_false, not_or] at hnot
      rcases h with rfl | rfl
      · simp [Scanner.step, stepMode, stepBeginValue, stepBeginScalar, hspace, hnot, hdigit, keep]
      · simp [Scanner.step, stepMode, hnot, hdigit, keep]
    rw [Whole.text, Scanner.reads_cons hfirst]
    exact reads_digits (fun c hc => by simp [stepMode, hc]) rest

lemma fracText_reads (frac : Option (Fin 10 × List (Fin 10)))
    (h : mode = .zero ∨ mode = .digits) :
    ∃ mode', (⟨mode, stack⟩ : Scanner).reads (fracText frac) = some ⟨mode', stack⟩ ∧
      (mode' = .zero ∨ mode' = .digits ∨ mode' = .frac) := by
  cases frac with
  | none => exact ⟨mode, rfl, by tauto⟩
  | some ds =>
    obtain ⟨first, rest⟩ := ds
    refine ⟨.frac, ?_, .inr (.inr rfl)⟩
    have hdot : (⟨mode, stack⟩ : Scanner).step 0x2E = some (⟨.dot, stack⟩, true) := by
      rcases h with rfl | rfl <;> rfl
    have hfirst : (⟨.dot, stack⟩ : Scanner).step (digit first) = some (⟨.frac, stack⟩, true) := by
      simp [Scanner.step, stepMode, isDigit_digit, keep]
    rw [fracText, Scanner.reads_cons hdot, Scanner.reads_cons hfirst]
    exact reads_digits (fun c hc => by simp [stepMode, hc]) rest

lemma Exponent.reads (e : Exponent) (h : mode = .zero ∨ mode = .digits ∨ mode = .frac) :
    (⟨mode, stack⟩ : Scanner).reads e.text = some ⟨.expDigits, stack⟩ := by
  have hexp : (⟨mode, stack⟩ : Scanner).step (if e.upper then 0x45 else 0x65) =
      some (⟨.exp, stack⟩, true) := by
    rcases h with rfl | rfl | rfl <;> cases e.upper <;> rfl
  have hrest : (⟨.expDigits, stack⟩ : Scanner).reads (e.rest.map digit) =
      some ⟨.expDigits, stack⟩ :=
    reads_digits (fun c hc => by simp [stepMode, hc]) e.rest
  have hfirst : (⟨.expSign, stack⟩ : Scanner).step (digit e.first) =
      some (⟨.expDigits, stack⟩, true) := by
    simp [Scanner.step, stepMode, isDigit_digit, keep]
  rw [Exponent.text, Scanner.reads_cons hexp]
  cases e.sign with
  | none =>
    have hunsigned : (⟨.exp, stack⟩ : Scanner).step (digit e.first) =
        some (⟨.expDigits, stack⟩, true) := by
      have hother : ∀ d : Fin 10, digit d ≠ 0x2B ∧ digit d ≠ 0x2D := by decide
      simp [Scanner.step, stepMode, hother e.first, isDigit_digit, keep]
    rw [nil_append, Scanner.reads_cons hunsigned]
    exact hrest
  | some sign =>
    have hsign : ∀ c : UInt8, c = 0x2B ∨ c = 0x2D → (⟨.exp, stack⟩ : Scanner).step c =
        some (⟨.expSign, stack⟩, true) := by
      rintro c (rfl | rfl) <;> rfl
    cases sign with
    | true =>
      rw [singleton_append, Scanner.reads_cons (hsign _ (.inl rfl)), Scanner.reads_cons hfirst]
      exact hrest
    | false =>
      rw [singleton_append, Scanner.reads_cons (hsign _ (.inr rfl)), Scanner.reads_cons hfirst]
      exact hrest

lemma Number.reads (n : Number) :
    ∃ mode, (⟨.beginValue, stack⟩ : Scanner).reads n.text = some ⟨mode, stack⟩ ∧
      mode.isEnd = true := by
  obtain ⟨start, hsign, hstart⟩ : ∃ start, (⟨.beginValue, stack⟩ : Scanner).reads
      (if n.neg then [0x2D] else []) = some ⟨start, stack⟩ ∧
      (start = .beginValue ∨ start = .neg) := by
    cases n.neg with
    | true => exact ⟨.neg, rfl, .inr rfl⟩
    | false => exact ⟨.beginValue, rfl, .inl rfl⟩
  obtain ⟨whole, hwhole, hmode⟩ := n.whole.reads stack hstart
  obtain ⟨last, hfrac, hmode⟩ := fracText_reads stack n.frac hmode
  simp only [Number.text, Scanner.reads_append, hsign, hwhole, hfrac, bind_some]
  cases n.exp with
  | none =>
    refine ⟨last, rfl, ?_⟩
    rcases hmode with rfl | rfl | rfl <;> rfl
  | some e => exact ⟨.expDigits, e.reads stack hmode, rfl⟩

end

lemma digits_ascii (ds : List (Fin 10)) :
    ∀ x ∈ ds.map digit, isHtml x = false ∧ x ≠ 0xE2 := by
  intro x hx
  obtain ⟨d, -, rfl⟩ := mem_map.mp hx
  exact digit_ascii d

lemma Number.text_ascii (n : Number) : ∀ x ∈ n.text, isHtml x = false ∧ x ≠ 0xE2 := by
  have hwhole : ∀ x ∈ n.whole.text, isHtml x = false ∧ x ≠ 0xE2 := by
    cases n.whole with
    | zero => exact ascii_of_all (by decide)
    | pos first rest => exact forall_mem_cons.mpr ⟨digit_ascii _, digits_ascii rest⟩
  have hfrac : ∀ x ∈ fracText n.frac, isHtml x = false ∧ x ≠ 0xE2 := by
    cases n.frac with
    | none => exact ascii_of_all (by decide)
    | some ds =>
      obtain ⟨first, rest⟩ := ds
      exact forall_mem_cons.mpr ⟨by decide, forall_mem_cons.mpr
        ⟨digit_ascii _, digits_ascii rest⟩⟩
  have hexp : ∀ x ∈ expText n.exp, isHtml x = false ∧ x ≠ 0xE2 := by
    cases n.exp with
    | none => exact ascii_of_all (by decide)
    | some e =>
      refine forall_mem_cons.mpr ⟨by cases e.upper <;> decide, ?_⟩
      refine forall_mem_append.mpr ⟨?_, forall_mem_cons.mpr
        ⟨digit_ascii _, digits_ascii e.rest⟩⟩
      rcases e.sign with _ | _ | _ <;> exact ascii_of_all (by decide)
  refine forall_mem_append.mpr ⟨by cases n.neg <;> exact ascii_of_all (by decide), ?_⟩
  exact forall_mem_append.mpr ⟨hwhole, forall_mem_append.mpr ⟨hfrac, hexp⟩⟩

variable {text : Bytes}

lemma plain_of_ascii (h : ∀ x ∈ text, isHtml x = false ∧ x ≠ 0xE2) :
    plain text = true := by
  have := plain_ascii_append h (b := []) rfl
  rwa [append_nil] at this

lemma head_of_reads (h : (⟨.beginValue, stack⟩ : Scanner).reads text = some ⟨mode, stack⟩)
    (hmode : Ends mode stack) :
    ∃ c rest, text = c :: rest ∧ c < 0x80 := by
  cases text with
  | nil =>
    cases h
    rcases hmode with hend | ⟨htop, -⟩
    · cases hend
    · cases htop
  | cons c rest =>
    refine ⟨c, rest, rfl, ?_⟩
    by_contra hc
    rw [Scanner.reads] at h
    split at h
    · rename_i s hstep
      cases (stepMode_inString (.inr (UInt8.not_lt.mp hc)) hstep).1
    · cases h

lemma Emits.scalar (hplain : JsonText.plain text = true) (hreads : ∀ stack : List Frame, ∃ mode,
      (⟨.beginValue, stack⟩ : Scanner).reads text = some ⟨mode, stack⟩ ∧ mode.isEnd = true) :
    Emits text 0 where
  plain := hplain
  head := by
    obtain ⟨mode, hread, hend⟩ := hreads []
    exact head_of_reads hread (.inl hend)
  reads stack _ := by
    obtain ⟨mode, hread, hend⟩ := hreads stack
    exact ⟨mode, hread, .inl hend⟩

lemma Number.emits (n : Number) : Emits n.text 0 := .scalar (plain_of_ascii n.text_ascii) n.reads

/-! ## Strings -/

variable {c : UInt8}

lemma escapeAscii_ascii (hc : c < 0x80) : ∀ x ∈ escapeAscii c, isHtml x = false ∧ x ≠ 0xE2 := by
  unfold escapeAscii
  by_cases hu : c < 0x20 ∨ isHtml c = true
  · have hescape := uEscape_ascii c
    grind [isHtml]
  · grind [isHtml]

lemma reads_escapeAscii (stack : List Frame) :
    (⟨.inString, stack⟩ : Scanner).reads (escapeAscii c) = some ⟨.inString, stack⟩ := by
  have hescape := reads_uEscape c stack
  have hshort : ∀ x, x ∈ [0x62, 0x66, 0x6E, 0x72, 0x74, 0x5C, 0x2F, 0x22] →
      (⟨.inString, stack⟩ : Scanner).reads [0x5C, x] = some ⟨.inString, stack⟩ := by
    intro x hx
    simp only [Scanner.reads, Scanner.step, stepMode, stepEscape, if_pos hx]
    rfl
  have hself : c ≠ 0x22 → c ≠ 0x5C → ¬ c < 0x20 →
      (⟨.inString, stack⟩ : Scanner).reads [c] = some ⟨.inString, stack⟩ := by
    intro hquote hslash hcontrol
    simp [Scanner.reads, Scanner.step, stepMode, hquote, hslash, hcontrol, keep]
  unfold escapeAscii
  split
  · rename_i hc
    rcases hc with rfl | rfl <;> exact hshort _ (by decide)
  · rename_i hc
    rw [not_or] at hc
    repeat' split
    all_goals first
      | exact hshort _ (by decide)
      | exact hescape
      | skip
    rename_i hcontrol
    rw [not_or] at hcontrol
    exact hself hc.1 hc.2 hcontrol.1

variable {a : UInt8}

lemma step_inString_high (ha : 0x80 ≤ a) (stack : List Frame) :
    (⟨.inString, stack⟩ : Scanner).step a = some (⟨.inString, stack⟩, true) := by
  have hquote : a ≠ 0x22 := by grind
  have hslash : a ≠ 0x5C := by grind
  have hcontrol : ¬ a < 0x20 := by grind
  simp [Scanner.step, stepMode, hquote, hslash, hcontrol, keep]

def Due (k : Nat) (s : Bytes) : Prop := ∀ x ∈ s.take k, 0x80 ≤ x ∧ x ≤ 0xBF

variable {k : Nat} {s : Bytes}

lemma Due.cons (h : Due (k + 1) (a :: s)) : (0x80 ≤ a ∧ a ≤ 0xBF) ∧ Due k s := by
  unfold Due at h
  rwa [take_succ_cons, forall_mem_cons] at h

lemma reads_escapeFrom {written : Bool} (h : Due k s) (stack : List Frame) :
    (⟨.inString, stack⟩ : Scanner).reads (escapeFrom written k s) = some ⟨.inString, stack⟩ := by
  induction s generalizing written k with
  | nil => rfl
  | cons a rest ih =>
    cases k with
    | succ =>
      obtain ⟨ha, hrest⟩ := h.cons
      rw [escapeFrom]
      cases written with
      | true =>
        simp only [↓reduceIte, singleton_append]
        rw [Scanner.reads_cons (step_inString_high ha.1 stack)]
        exact ih hrest
      | false =>
        simp only [Bool.false_eq_true, ↓reduceIte, nil_append]
        exact ih hrest
    | zero =>
      have hnone : Due 0 rest := by simp [Due]
      rw [escapeFrom]
      split
      · rw [Scanner.reads_append, reads_escapeAscii, bind_some]
        exact ih hnone
      · rename_i ha
        have ha' : 0x80 ≤ a := UInt8.not_lt.mp ha
        split
        · have hescape : (⟨.inString, stack⟩ : Scanner).reads (lit "\\ufffd") =
              some ⟨.inString, stack⟩ :=
            reads_escape rfl rfl rfl rfl stack
          rw [Scanner.reads_append, hescape, bind_some]
          exact ih hnone
        · rename_i n hrune
          have hdue : Due n rest := (runeLen_rest hrune ha').2.2
          split
          · rename_i d hsep
            rw [Scanner.reads_append, reads_sepEscape (lineSep_some hsep).1, bind_some]
            exact ih hdue
          · rw [Scanner.reads_cons (step_inString_high ha' stack)]
            exact ih hdue

lemma isHtml_high (ha : 0x80 ≤ a) : isHtml a = false := by grind [isHtml]

lemma plain_escapeFrom {written : Bool} (h : Due k s) :
    plain (escapeFrom written k s) = true := by
  induction s generalizing written k with
  | nil => rfl
  | cons a rest ih =>
    cases k with
    | succ =>
      obtain ⟨ha, hrest⟩ := h.cons
      rw [escapeFrom]
      refine plain_ascii_append (fun x hx => ?_) (ih hrest)
      cases written with
      | true =>
        rw [mem_singleton.mp hx]
        exact ⟨isHtml_high ha.1, by grind⟩
      | false => cases hx
    | zero =>
      have hnone : Due 0 rest := by simp [Due]
      rw [escapeFrom]
      split
      · rename_i ha
        exact plain_ascii_append (escapeAscii_ascii ha) (ih hnone)
      · rename_i ha
        have ha' : 0x80 ≤ a := UInt8.not_lt.mp ha
        split
        · exact plain_ascii_append (ascii_of_all (by decide)) (ih hnone)
        · rename_i n hrune
          obtain ⟨hlen, htwo, hdue⟩ := runeLen_rest hrune ha'
          split
          · rename_i d hsep
            exact plain_ascii_append (sepEscape_ascii (lineSep_some hsep).1) (ih hdue)
          · rename_i hsep
            have hstart : lineSep (a :: escapeFrom true n rest) = none := by
              by_cases ha2 : a = 0xE2
              · -- the rune has two more octets, which are written as they are
                subst ha2
                obtain rfl := htwo rfl
                rcases rest with _ | ⟨b, _ | ⟨c, rest⟩⟩
                · simp at hlen
                · simp at hlen
                · exact hsep
              · exact lineSep_of_ne ha2 _
            rw [plain, isHtml_high ha', hstart, ih hdue]
            rfl

lemma reads_quote (h : stepMode mode stack 0x22 = keep .inString stack) (s : Bytes) :
    (⟨mode, stack⟩ : Scanner).reads (quote s) = some ⟨.endValue, stack⟩ := by
  have hopen : (⟨mode, stack⟩ : Scanner).step 0x22 = some (⟨.inString, stack⟩, true) := h
  rw [quote, Scanner.reads_cons hopen, Scanner.reads_append, reads_escapeFrom (by simp [Due]),
    bind_some]
  rfl

lemma plain_quote (s : Bytes) : plain (quote s) = true := by
  have hbody : plain (escapeFrom true 0 s ++ [0x22]) = true :=
    plain_append (plain_escapeFrom (by simp [Due])) rfl (by rintro c ⟨⟩; rfl)
  exact plain_ascii_append (a := [0x22]) (ascii_of_all (by decide)) hbody

lemma quote_emits (s : Bytes) : Emits (quote s) 0 :=
  .scalar (plain_quote s) fun _ => ⟨.endValue, reads_quote rfl s, rfl⟩

/-! ## Arrays and objects -/

lemma isCont_ascii (hc : c < 0x80) : isCont c = false := by grind [isCont]

lemma plain_append_ascii {a b : Bytes} (ha : plain a = true) (hb : plain b = true)
    (hhead : ∃ c rest, b = c :: rest ∧ c < 0x80) : plain (a ++ b) = true := by
  obtain ⟨c, rest, rfl, hc⟩ := hhead
  refine plain_append ha hb ?_
  rintro x ⟨⟩
  exact isCont_ascii hc

structure Closes (frame : Frame) (text : Bytes) (depth : Nat) : Prop where
  plain : plain text = true
  head : ∃ c rest, text = c :: rest ∧ c < 0x80
  reads : ∀ stack : List Frame, stack.length + 1 + depth ≤ maxNestingDepth →
    ∀ mode : Mode, mode.isEnd = true → ∃ mode',
      (⟨mode, frame :: stack⟩ : Scanner).reads text = some ⟨mode', stack⟩ ∧ Ends mode' stack

lemma ends_pop (stack : List Frame) :
    Ends (if stack = [] then .endTop else .endValue) stack := by
  by_cases hstack : stack = []
  · exact .inr ⟨by simp [hstack], hstack⟩
  · exact .inl (by simp [hstack, Mode.isEnd])

lemma Ends.isEnd {frame : Frame} (h : Ends mode (frame :: stack)) : mode.isEnd = true := by
  rcases h with h | ⟨-, h⟩
  · exact h
  · cases h

section
variable {frame : Frame} {item items : Bytes} {depth depth' : Nat} (hitem : Emits item depth)
  (hitems : Closes frame items depth')
include hitem hitems

lemma reads_item {stack : List Frame}
    (hdepth : stack.length + 1 + max depth depth' ≤ maxNestingDepth) :
    ∃ mode, (⟨.beginValue, frame :: stack⟩ : Scanner).reads (item ++ items) =
      some ⟨mode, stack⟩ ∧ Ends mode stack := by
  obtain ⟨mode, hread, hends⟩ := hitem.reads (frame :: stack) (by rw [length_cons]; omega)
  obtain ⟨mode', hread', hends'⟩ := hitems.reads stack (by omega) mode hends.isEnd
  exact ⟨mode', by rw [Scanner.reads_append, hread, bind_some, hread'], hends'⟩

lemma plain_item : plain (item ++ items) = true :=
  plain_append_ascii hitem.plain hitems.plain hitems.head

end

lemma reads_orEmpty {s : Scanner}
    (h : (⟨.beginValue, stack⟩ : Scanner).reads text = some s) (hne : text ≠ []) :
    (⟨.beginValueOrEmpty, stack⟩ : Scanner).reads text = some s := by
  cases text with
  | nil => exact absurd rfl hne
  | cons c =>
    have hstep : stepMode .beginValueOrEmpty stack c = stepMode .beginValue stack c := by
      by_cases hspace : isSpace c = true
      · simp [Scanner.reads, Scanner.step, stepMode, stepBeginValue, hspace, skip] at h
      · by_cases hclose : c = 0x5D
        · subst hclose
          cases h
        · simp [stepMode, hspace, hclose]
    rw [Scanner.reads, Scanner.step, hstep]
    exact h

lemma closes_nil (frame : Frame) (close : UInt8) (hclose : close < 0x80)
    (hhtml : isHtml close = false)
    (hstep : ∀ stack, stepEndValue (frame :: stack) close = pop stack)
    (hdigit : isDigit close = false) (hother : close ∉ [0x2E, 0x65, 0x45]) :
    Closes frame [close] 0 where
  plain := by
    rw [plain, hhtml, lineSep_of_ne (by grind)]
    rfl
  head := ⟨close, [], rfl, hclose⟩
  reads stack _ mode hmode := by
    simp only [mem_cons, not_mem_nil, or_false, not_or] at hother
    refine ⟨_, ?_, ends_pop stack⟩
    have hpop : (⟨mode, frame :: stack⟩ : Scanner).step close = pop stack := by
      rw [Scanner.step, stepMode_of_isEnd hmode hdigit hother.1 hother.2.1 hother.2.2, hstep]
    rw [Scanner.reads, hpop]
    rfl

lemma closes_array : Closes .arrayValue [0x5D] 0 :=
  closes_nil _ _ (by decide) rfl (fun _ => rfl) rfl (by decide)

lemma closes_object : Closes .objectValue [0x7D] 0 :=
  closes_nil _ _ (by decide) rfl (fun _ => rfl) rfl (by decide)

variable {items : Bytes} {depth' : Nat}

lemma Closes.item {item : Bytes} {depth : Nat} (hitem : Emits item depth)
    (hitems : Closes .arrayValue items depth') :
    Closes .arrayValue (0x2C :: (item ++ items)) (max depth depth') where
  plain := plain_ascii_append (a := [0x2C]) (ascii_of_all (by decide)) (plain_item hitem hitems)
  head := ⟨_, _, rfl, by decide⟩
  reads stack hdepth mode hmode := by
    have hcomma : (⟨mode, .arrayValue :: stack⟩ : Scanner).step 0x2C =
        some (⟨.beginValue, .arrayValue :: stack⟩, true) := by
      rw [Scanner.step, stepMode_of_isEnd hmode rfl (by decide) (by decide) (by decide)]
      rfl
    rw [Scanner.reads_cons hcomma]
    exact reads_item hitem hitems hdepth

section
variable {key item items : Bytes} {depth depth' : Nat} (hitem : Emits item depth)
  (hitems : Closes .objectValue items depth')
include hitem hitems

lemma reads_field {mode : Mode} {stack : List Frame}
    (hmode : stepMode mode (.objectKey :: stack) 0x22 = keep .inString (.objectKey :: stack))
    (hdepth : stack.length + 1 + max depth depth' ≤ maxNestingDepth) :
    ∃ mode', (⟨mode, .objectKey :: stack⟩ : Scanner).reads
      (quote key ++ 0x3A :: (item ++ items)) = some ⟨mode', stack⟩ ∧ Ends mode' stack := by
  have hcolon : (⟨.endValue, .objectKey :: stack⟩ : Scanner).step 0x3A =
      some (⟨.beginValue, .objectValue :: stack⟩, true) := rfl
  rw [Scanner.reads_append, reads_quote hmode, bind_some, Scanner.reads_cons hcolon]
  exact reads_item hitem hitems hdepth

lemma plain_field : plain (quote key ++ 0x3A :: (item ++ items)) = true :=
  plain_append_ascii (plain_quote key)
    (plain_ascii_append (a := [0x3A]) (ascii_of_all (by decide)) (plain_item hitem hitems))
    ⟨_, _, rfl, by decide⟩

lemma Closes.field :
    Closes .objectValue (0x2C :: (quote key ++ 0x3A :: (item ++ items))) (max depth depth') where
  plain := plain_ascii_append (a := [0x2C]) (ascii_of_all (by decide)) (plain_field hitem hitems)
  head := ⟨_, _, rfl, by decide⟩
  reads stack hdepth mode hmode := by
    have hcomma : (⟨mode, .objectValue :: stack⟩ : Scanner).step 0x2C =
        some (⟨.beginString, .objectKey :: stack⟩, true) := by
      rw [Scanner.step, stepMode_of_isEnd hmode rfl (by decide) (by decide) (by decide)]
      rfl
    rw [Scanner.reads_cons hcomma]
    exact reads_field hitem hitems rfl hdepth

end

lemma Emits.bracket {bracket : UInt8} {frame : Frame} {text : Bytes} {depth : Nat}
    (hbracket : bracket < 0x80) (hhtml : isHtml bracket = false)
    (hopen : ∀ stack, stepMode .beginValue stack bracket = push frame mode stack)
    (hplain : JsonText.plain text = true)
    (hreads : ∀ stack : List Frame, stack.length + 1 + depth ≤ maxNestingDepth →
      ∃ mode', (⟨mode, frame :: stack⟩ : Scanner).reads text = some ⟨mode', stack⟩ ∧
        Ends mode' stack) :
    Emits (bracket :: text) (1 + depth) where
  plain := by
    refine plain_ascii_append (a := [bracket]) (fun x hx => ?_) hplain
    rw [mem_singleton.mp hx]
    exact ⟨hhtml, by grind⟩
  head := ⟨_, _, rfl, hbracket⟩
  reads stack hdepth := by
    have hstep : (⟨.beginValue, stack⟩ : Scanner).step bracket =
        some (⟨mode, frame :: stack⟩, true) := by
      have hroom : stack.length + 1 ≤ maxNestingDepth := by omega
      rw [Scanner.step, hopen, push, if_pos hroom]
      rfl
    rw [Scanner.reads_cons hstep]
    exact hreads stack (by omega)

lemma Emits.array {item : Bytes} {depth : Nat} (hitem : Emits item depth)
    (hitems : Closes .arrayValue items depth') :
    Emits (0x5B :: (item ++ items)) (1 + max depth depth') := by
  refine .bracket (by decide) rfl (fun _ => rfl) (plain_item hitem hitems) fun stack hdepth => ?_
  obtain ⟨mode, hread, hends⟩ := reads_item hitem hitems hdepth
  obtain ⟨c, rest, rfl, -⟩ := hitem.head
  exact ⟨mode, reads_orEmpty hread (by simp), hends⟩

lemma Emits.object {key item : Bytes} {depth : Nat} (hitem : Emits item depth)
    (hitems : Closes .objectValue items depth') :
    Emits (0x7B :: (quote key ++ 0x3A :: (item ++ items))) (1 + max depth depth') :=
  .bracket (by decide) rfl (fun _ => rfl) (plain_field hitem hitems) fun _ hdepth =>
    reads_field hitem hitems rfl hdepth

lemma emits_emptyArray : Emits [0x5B, 0x5D] (1 + 0) :=
  .bracket (by decide) rfl (fun _ => rfl) rfl fun stack _ => ⟨_, rfl, ends_pop stack⟩

lemma emits_emptyObject : Emits [0x7B, 0x7D] (1 + 0) :=
  .bracket (by decide) rfl (fun _ => rfl) rfl fun stack _ => ⟨_, rfl, ends_pop stack⟩

/-! ## Values -/

mutual

lemma encode_emits : (v : Value) → {text : Bytes} → encode v = .ok text → Emits text v.depth
  | .null, text, h => by
    rw [encode] at h
    cases h
    exact .scalar rfl fun _ => ⟨.endValue, rfl, rfl⟩
  | .bool b, text, h => by
    rw [encode] at h
    cases h
    cases b with
    | true => exact .scalar rfl fun _ => ⟨.endValue, rfl, rfl⟩
    | false => exact .scalar rfl fun _ => ⟨.endValue, rfl, rfl⟩
  | .num n, text, h => by
    rw [encode] at h
    cases h
    exact n.emits
  | .str s, text, h => by
    rw [encode] at h
    cases h
    exact quote_emits s
  | .arr [], text, h => by
    rw [encode] at h
    cases h
    exact emits_emptyArray
  | .arr (v :: vs), text, h => by
    simp only [encode, bind_ok, pure_ok] at h
    obtain ⟨item, hitem, items, hitems, rfl⟩ := h
    exact .array (encode_emits v hitem) (encodeItems_closes vs hitems)
  | .obj [], text, h => by
    rw [encode] at h
    cases h
    exact emits_emptyObject
  | .obj ((key, v) :: fields), text, h => by
    simp only [encode, bind_ok, pure_ok] at h
    obtain ⟨item, hitem, items, hitems, rfl⟩ := h
    exact .object (encode_emits v hitem) (encodeFields_closes fields hitems)
  | .marshaler (.ok src), text, h => by
    simp only [encode, ok_bind] at h
    exact compact_emits h
  | .marshaler (.error f), text, h => by
    rw [encode] at h
    cases h
  | .unsupported e, text, h => by
    rw [encode] at h
    cases h

lemma encodeItems_closes : (vs : List Value) → {text : Bytes} → encodeItems vs = .ok text →
    Closes .arrayValue text (depthItems vs)
  | [], text, h => by
    rw [encodeItems] at h
    cases h
    exact closes_array
  | v :: vs, text, h => by
    simp only [encodeItems, bind_ok, pure_ok] at h
    obtain ⟨item, hitem, items, hitems, rfl⟩ := h
    exact .item (encode_emits v hitem) (encodeItems_closes vs hitems)

lemma encodeFields_closes : (fields : List (Bytes × Value)) → {text : Bytes} →
    encodeFields fields = .ok text → Closes .objectValue text (depthFields fields)
  | [], text, h => by
    rw [encodeFields] at h
    cases h
    exact closes_object
  | (key, v) :: fields, text, h => by
    simp only [encodeFields, bind_ok, pure_ok] at h
    obtain ⟨item, hitem, items, hitems, rfl⟩ := h
    exact .field (encode_emits v hitem) (encodeFields_closes fields hitems)

end

end JsonText

end Lib
