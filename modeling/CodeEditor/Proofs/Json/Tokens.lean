import CodeEditor.Json.Printer
import CodeEditor.Json.Reader
import Mathlib.Data.List.Chain

/-!
# Reading written tokens

Each token is read back from what is written for it. A numeral ends where neither a digit nor a
point nor an exponent follows, so a text keeps its tokens apart as long as no numeral comes right
behind another one.
-/

namespace CodeEditor

/-! ## Numerals -/

/-- Decimal digits, at least one of them. -/
structure IsDigits (digits : List Nat) : Prop where
  ne_nil : digits ≠ []
  lt_ten : ∀ digit ∈ digits, digit < 10

/-- A numeral as the grammar has it, in which a zero does not come before other digits. -/
structure Numeral.WellFormed (numeral : Numeral) : Prop where
  whole : IsDigits numeral.whole
  zero_alone : numeral.whole.head? = some 0 → numeral.whole.length = 1
  fraction : ∀ digits ∈ numeral.fraction, IsDigits digits
  exponent : ∀ part ∈ numeral.exponent, IsDigits part.2

namespace JsonToken

variable {rest : List Char} {written : List Nat}

/-- A text that does not go on with a digit. -/
def AfterDigits (rest : List Char) : Prop := ∀ c ∈ rest.head?, c.isDigit = false

/-- A text that cannot be taken for the rest of a numeral before it. -/
structure AfterNumeral (rest : List Char) : Prop where
  afterDigits : AfterDigits rest
  no_point : ∀ c ∈ rest.head?, c ≠ '.'
  no_exponent : ∀ c ∈ rest.head?, c ≠ 'e' ∧ c ≠ 'E'

theorem isDigit_of_mem_writeDigits (h : IsDigits written) :
    ∀ c ∈ writeDigits written, c.isDigit = true := by
  intro c hc
  obtain ⟨digit, hdigit, rfl⟩ := List.mem_map.mp hc
  rw [Nat.isDigit_digitChar]
  exact decide_eq_true (h.lt_ten digit hdigit)

/-- Written digits begin with a digit. -/
theorem writeDigits_eq_cons (h : IsDigits written) :
    ∃ c more, writeDigits written = c :: more ∧ c.isDigit = true := by
  cases hcases : writeDigits written with
  | nil => exact absurd (List.map_eq_nil_iff.mp hcases) h.ne_nil
  | cons c more =>
    exact ⟨c, more, rfl, isDigit_of_mem_writeDigits h c (hcases ▸ List.mem_cons_self)⟩

theorem digits?_write (h : IsDigits written) (hrest : AfterDigits rest) :
    digits? (writeDigits written ++ rest) = some (written, rest) := by
  have hdigit := isDigit_of_mem_writeDigits h
  have hstop : rest.takeWhile Char.isDigit = [] ∧ rest.dropWhile Char.isDigit = rest := by
    cases rest with
    | nil => exact ⟨rfl, rfl⟩
    | cons c more => simp [hrest c rfl]
  have hvalues : (writeDigits written).map (fun c ↦ c.toNat - '0'.toNat) = written := by
    rw [writeDigits, List.map_map]
    refine (List.map_congr_left fun digit hmem ↦ ?_).trans (List.map_id _)
    exact Nat.toNat_digitChar_sub_48_of_lt_ten (h.lt_ten digit hmem)
  unfold digits? digits
  rw [List.takeWhile_append_of_pos hdigit, List.dropWhile_append_of_pos hdigit, hstop.1, hstop.2,
    List.append_nil, hvalues]
  exact if_neg (by simpa using h.ne_nil)

theorem whole?_write (h : IsDigits written) (hzero : written.head? = some 0 → written.length = 1)
    (hrest : AfterDigits rest) : whole? (writeDigits written ++ rest) = some (written, rest) := by
  unfold whole?
  rw [digits?_write h hrest]
  refine if_neg fun hleading ↦ ?_
  obtain ⟨hhead, hlong⟩ := (Bool.and_eq_true _ _).mp hleading
  have hlength := hzero (of_decide_eq_true hhead)
  exact absurd (of_decide_eq_true hlong) (by omega)

theorem fraction?_of_absent (h : ∀ c ∈ rest.head?, c ≠ '.') :
    fraction? rest = some (none, rest) := by
  unfold fraction?
  split
  · exact absurd rfl (h '.' rfl)
  · rfl

theorem exponent?_of_absent (h : ∀ c ∈ rest.head?, c ≠ 'e' ∧ c ≠ 'E') :
    exponent? rest = some (none, rest) := by
  unfold exponent?
  split
  · exact absurd rfl (h 'e' rfl).1
  · exact absurd rfl (h 'E' rfl).2
  · rfl

theorem sign_write (negative : Bool) (h : IsDigits written) :
    sign ((if negative then ['-'] else []) ++ (writeDigits written ++ rest)) =
      (negative, writeDigits written ++ rest) := by
  cases negative with
  | true => rfl
  | false =>
    obtain ⟨c, more, hwritten, hc⟩ := writeDigits_eq_cons h
    rw [hwritten]
    unfold sign
    simp only [Bool.false_eq_true, if_false, List.nil_append, List.cons_append]
    split
    · rename_i heq
      cases heq
      nomatch hc
    · rename_i heq
      cases heq
      nomatch hc
    · rfl

def writeFraction : Option (List Nat) → List Char
  | some written => '.' :: writeDigits written
  | none => []

def writeExponent : Option (Bool × List Nat) → List Char
  | some (negative, written) => 'e' :: (if negative then ['-'] else []) ++ writeDigits written
  | none => []

theorem writeNumeral_append (negative : Bool) (whole : List Nat) (fraction : Option (List Nat))
    (exponent : Option (Bool × List Nat)) (rest : List Char) :
    writeNumeral ⟨negative, whole, fraction, exponent⟩ ++ rest =
      (if negative then ['-'] else []) ++ (writeDigits whole ++
        (writeFraction fraction ++ (writeExponent exponent ++ rest))) := by
  simp only [writeNumeral, List.append_assoc]
  cases fraction <;> cases exponent <;> rfl

theorem exponent?_write {exponent : Option (Bool × List Nat)}
    (h : ∀ part ∈ exponent, IsDigits part.2) (hrest : AfterNumeral rest) :
    exponent? (writeExponent exponent ++ rest) = some (exponent, rest) := by
  cases exponent with
  | none => exact exponent?_of_absent hrest.no_exponent
  | some part =>
    obtain ⟨negative, written⟩ := part
    simp only [writeExponent, List.cons_append, List.append_assoc, exponent?,
      sign_write _ (h _ rfl), digits?_write (h _ rfl) hrest.afterDigits, Option.map_some]

theorem fraction?_write {fraction : Option (List Nat)} {more : List Char}
    (h : ∀ written ∈ fraction, IsDigits written) (hmore : AfterDigits more)
    (hpoint : ∀ c ∈ more.head?, c ≠ '.') :
    fraction? (writeFraction fraction ++ more) = some (fraction, more) := by
  cases fraction with
  | none => exact fraction?_of_absent hpoint
  | some written =>
    simp only [writeFraction, List.cons_append, fraction?, digits?_write (h _ rfl) hmore,
      Option.map_some]

theorem afterDigits_writeExponent (exponent : Option (Bool × List Nat))
    (hrest : AfterNumeral rest) : AfterDigits (writeExponent exponent ++ rest) ∧
      ∀ c ∈ (writeExponent exponent ++ rest).head?, c ≠ '.' := by
  cases exponent with
  | none => exact ⟨hrest.afterDigits, hrest.no_point⟩
  | some part => exact ⟨by rintro c ⟨⟩; rfl, by rintro c ⟨⟩; decide⟩

theorem afterDigits_writeFraction (fraction : Option (List Nat)) (hrest : AfterDigits rest) :
    AfterDigits (writeFraction fraction ++ rest) := by
  cases fraction with
  | none => exact hrest
  | some written => rintro c ⟨⟩; rfl

/-- A well-formed numeral is read up to where it ends. -/
theorem numeral?_write {numeral : Numeral} (h : numeral.WellFormed) (hrest : AfterNumeral rest) :
    numeral? (writeNumeral numeral ++ rest) = some (numeral, rest) := by
  obtain ⟨negative, whole, fraction, exponent⟩ := numeral
  obtain ⟨hafter, hpoint⟩ := afterDigits_writeExponent exponent hrest
  have hexponent := exponent?_write h.exponent hrest
  have hfraction := fraction?_write h.fraction hafter hpoint
  have hwhole := whole?_write h.whole h.zero_alone (afterDigits_writeFraction fraction hafter)
  rw [writeNumeral_append]
  unfold numeral?
  cases negative with
  | true => simp [hwhole, hfraction, hexponent]
  | false =>
    simp only [Bool.false_eq_true, if_false, List.nil_append]
    split
    · -- Digits do not begin with a sign.
      rename_i heq
      obtain ⟨c, more, hwritten, hc⟩ := writeDigits_eq_cons h.whole
      rw [hwritten] at heq
      cases heq
      nomatch hc
    · simp [hwhole, hfraction, hexponent]

/-! ## Strings -/

theorem hexDigit?_hexDigit {n : Nat} (h : n < 16) : hexDigit? (hexDigit n) = some n := by
  revert h
  revert n
  decide

theorem string?_of_plain (read : List StringUnit) {c : Char} (hquote : c ≠ '"')
    (hbackslash : c ≠ '\\') (hprintable : 0x20 ≤ c.toNat) :
    string? read (c :: rest) = string? (.char c :: read) rest := by
  rw [string?.eq_def read (c :: rest)]
  split
  · rename_i heq
    nomatch heq
  · rename_i heq
    exact absurd (List.cons.inj heq).1 hquote
  · rename_i heq
    exact absurd (List.cons.inj heq).1 hbackslash
  · rename_i heq
    exact absurd (List.cons.inj heq).1 hbackslash
  · rename_i heq
    obtain ⟨rfl, rfl⟩ := List.cons.inj heq
    exact if_neg (by simp [hbackslash, hprintable])

/-- An escaped character is read as that character. -/
theorem string?_escape (read : List StringUnit) (c : Char) (rest : List Char) :
    string? read (escape c ++ rest) = string? (.char c :: read) rest := by
  unfold escape
  split
  · rfl
  · rfl
  · rfl
  · rfl
  · rfl
  · rfl
  · rfl
  · rename_i hquote hbackslash _ _ _ _ _
    split
    · rename_i hcontrol
      have hhigh := hexDigit?_hexDigit (n := c.toNat / 16) (by omega)
      have hlow := hexDigit?_hexDigit (n := c.toNat % 16) (by omega)
      have hcode : hexCode? '0' '0' (hexDigit (c.toNat / 16)) (hexDigit (c.toNat % 16)) =
          some c.toNat := by
        unfold hexCode?
        rw [hhigh, hlow]
        simp [show hexDigit? '0' = some 0 from rfl, Nat.div_add_mod']
      have hunit : StringUnit.ofCode c.toNat = .char c := by
        simp [StringUnit.ofCode, isHighSurrogate, isLowSurrogate, Char.ofNat_toNat]
        omega
      simp only [List.cons_append, List.nil_append, string?, hcode, hunit]
    · rename_i hprintable
      exact string?_of_plain read hquote hbackslash (by omega)

theorem string?_write (read : List StringUnit) (chars : List Char) (rest : List Char) :
    string? read (chars.flatMap escape ++ '"' :: rest) =
      some (read.reverse ++ chars.map .char, rest) := by
  induction chars generalizing read with
  | nil => simp [string?]
  | cons c chars ih =>
    rw [List.flatMap_cons, List.append_assoc, string?_escape, ih, List.reverse_cons,
      List.append_assoc, List.singleton_append, List.map_cons]

theorem joinHalves_chars (chars : List Char) : joinHalves (chars.map .char) = some chars := by
  induction chars with
  | nil => rfl
  | cons c chars ih =>
    rw [List.map_cons, joinHalves, ih]
    rfl

/-! ## Tokens -/

def isNumber : JsonToken → Bool
  | number _ => true
  | _ => false

/-- What the numerals of tokens have to be. -/
def WellFormed : JsonToken → Prop
  | number numeral => numeral.WellFormed
  | _ => True

/-- Neither of two neighbours is taken for a part of the other. -/
def Apart (a b : JsonToken) : Prop := a.isNumber = true → b.isNumber = false

theorem next?_of_numeral {c : Char} (h : c = '-' ∨ c.isDigit = true) (rest : List Char) :
    next? (c :: rest) =
      (numeral? (c :: rest)).map fun (numeral, rest) ↦ (number numeral, rest) := by
  unfold next?
  split
  all_goals first
    | rfl
    | rename_i heq
      obtain ⟨rfl, -⟩ := List.cons.inj heq
      exact absurd h (by decide)

theorem writeNumeral_eq_cons {numeral : Numeral} (h : numeral.WellFormed) :
    ∃ c more, writeNumeral numeral = c :: more ∧ (c = '-' ∨ c.isDigit = true) := by
  obtain ⟨negative, whole, fraction, exponent⟩ := numeral
  obtain ⟨c, more, hwhole, hc⟩ := writeDigits_eq_cons h.whole
  have happend := writeNumeral_append negative whole fraction exponent []
  rw [List.append_nil] at happend
  cases negative with
  | true => exact ⟨'-', _, happend, Or.inl rfl⟩
  | false => exact ⟨c, _, happend.trans (congrArg (· ++ _) hwhole), Or.inr hc⟩

theorem next?_writeText (text : JsonText) (rest : List Char) :
    next? (writeText text ++ rest) = some (string text, rest) := by
  cases text with
  | none =>
    have hwritten : writeText none = ['"', '\\', 'u', 'd', '8', '0', '0', '"'] := by decide
    have hcode : hexCode? 'd' '8' '0' '0' = some 0xd800 := by decide
    have hhalf : joinHalves [.ofCode 0xd800] = none := by decide
    rw [hwritten]
    simp only [List.cons_append, List.nil_append, next?, string?, hcode, List.reverse_singleton,
      Option.map_some, hhalf, Option.map_none]
  | some text =>
    change next? (('"' :: text.toList.flatMap escape ++ ['"']) ++ rest) = _
    simp only [List.cons_append, List.append_assoc, List.nil_append, next?, string?_write,
      List.reverse_nil, Option.map_some, joinHalves_chars, String.ofList_toList]

/-- A token is read from what is written for it, and nothing of what follows is. -/
theorem next?_write {token : JsonToken} (h : token.WellFormed)
    (hrest : token.isNumber = true → AfterNumeral rest) :
    next? (token.write ++ rest) = some (token, rest) := by
  cases token with
  | openBrace => rfl
  | closeBrace => rfl
  | openBracket => rfl
  | closeBracket => rfl
  | colon => rfl
  | comma => rfl
  | null => rfl
  | bool value => cases value <;> rfl
  | number numeral =>
    obtain ⟨c, more, hwritten, hc⟩ := writeNumeral_eq_cons h
    have hnumeral := numeral?_write h (hrest rfl)
    change next? (writeNumeral numeral ++ rest) = _
    rw [hwritten, List.cons_append] at hnumeral ⊢
    rw [next?_of_numeral hc, hnumeral, Option.map_some]
  | string text => exact next?_writeText text rest

/-- A token begins with no white space, and nothing but a numeral can go on another one. -/
theorem write_eq_cons {token : JsonToken} (h : token.WellFormed) :
    ∃ c more, token.write = c :: more ∧ isBlank c = false ∧
      (token.isNumber = false → ∀ rest, AfterNumeral (c :: rest)) := by
  have hother {c : Char} {more : List Char} (hwritten : token.write = c :: more)
      (hc : isBlank c = false ∧ c.isDigit = false ∧ c ≠ '.' ∧ c ≠ 'e' ∧ c ≠ 'E') :
      ∃ c more, token.write = c :: more ∧ isBlank c = false ∧
        (token.isNumber = false → ∀ rest, AfterNumeral (c :: rest)) := by
    obtain ⟨hblank, hdigit, hpoint, hexponent⟩ := hc
    refine ⟨c, more, hwritten, hblank, fun _ rest ↦ ⟨?_, ?_, ?_⟩⟩
    · rintro c ⟨⟩; exact hdigit
    · rintro c ⟨⟩; exact hpoint
    · rintro c ⟨⟩; exact hexponent
  cases token with
  | openBrace => exact hother rfl (by decide)
  | closeBrace => exact hother rfl (by decide)
  | openBracket => exact hother rfl (by decide)
  | closeBracket => exact hother rfl (by decide)
  | colon => exact hother rfl (by decide)
  | comma => exact hother rfl (by decide)
  | null => exact hother rfl (by decide)
  | bool value => cases value with
    | true => exact hother rfl (by decide)
    | false => exact hother rfl (by decide)
  | string text => cases text with
    | none => exact hother rfl (by decide)
    | some text => exact hother rfl (by decide)
  | number numeral =>
    obtain ⟨c, more, hwritten, hc⟩ := writeNumeral_eq_cons h
    refine ⟨c, more, hwritten, ?_, nofun⟩
    obtain rfl | hdigit := hc
    · decide
    · cases hblank : isBlank c with
      | false => rfl
      | true =>
        simp only [isBlank, Bool.or_eq_true, beq_iff_eq] at hblank
        obtain ((rfl | rfl) | rfl) | rfl := hblank <;> nomatch hdigit

/-- What is written behind a token leaves it as it is. -/
theorem afterNumeral_flatMap {token : JsonToken} {tokens : List JsonToken}
    (hwell : ∀ token ∈ tokens, token.WellFormed) (hapart : (token :: tokens).IsChain Apart)
    (h : token.isNumber = true) : AfterNumeral (tokens.flatMap write) := by
  cases tokens with
  | nil => exact ⟨nofun, nofun, nofun⟩
  | cons next tokens =>
    obtain ⟨c, more, hwritten, -, hafter⟩ := write_eq_cons (hwell next List.mem_cons_self)
    rw [List.flatMap_cons, hwritten, List.cons_append]
    exact hafter ((List.isChain_cons_cons.mp hapart).1 h) _

/-- The tokens are read from what is written for them. -/
theorem readAll_write {tokens : List JsonToken} (read : List JsonToken)
    (hwell : ∀ token ∈ tokens, token.WellFormed) (hapart : tokens.IsChain Apart) {fuel : Nat}
    (hfuel : tokens.length < fuel) :
    readAll fuel read (tokens.flatMap write) = some (read.reverse ++ tokens) := by
  induction tokens generalizing read fuel with
  | nil =>
    cases fuel with
    | zero => nomatch hfuel
    | succ fuel => simp [readAll]
  | cons token tokens ih =>
    cases fuel with
    | zero => nomatch hfuel
    | succ fuel =>
      obtain ⟨htoken, htokens⟩ := List.forall_mem_cons.mp hwell
      obtain ⟨c, more, hwritten, hblank, -⟩ := write_eq_cons htoken
      have hnext := next?_write htoken (afterNumeral_flatMap htokens hapart)
      rw [hwritten] at hnext
      unfold readAll
      rw [List.flatMap_cons, hwritten, List.cons_append,
        List.dropWhile_cons_of_neg (by simp [hblank]), ← List.cons_append]
      simp only [List.cons_append] at hnext ⊢
      rw [hnext]
      dsimp only
      rw [ih _ htokens hapart.tail (Nat.lt_of_succ_lt_succ hfuel), List.reverse_cons,
        List.append_assoc, List.singleton_append]

/-- Every token is written with a character at least. -/
theorem length_le_length_flatMap {tokens : List JsonToken}
    (hwell : ∀ token ∈ tokens, token.WellFormed) :
    tokens.length ≤ (tokens.flatMap write).length := by
  induction tokens with
  | nil => exact Nat.le_refl 0
  | cons token tokens ih =>
    obtain ⟨htoken, htokens⟩ := List.forall_mem_cons.mp hwell
    obtain ⟨c, more, hwritten, -⟩ := write_eq_cons htoken
    have := ih htokens
    simp only [List.flatMap_cons, hwritten, List.length_append, List.length_cons]
    omega

end JsonToken

end CodeEditor
