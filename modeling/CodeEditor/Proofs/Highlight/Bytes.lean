import CodeEditor.Proofs.Highlight.Tokens
import CodeEditor.Proofs.Text.Utf8

/-!
# Tokens found in bytes

A text is stored in UTF-8, and a search in the stored text gives the places of its matches in bytes.
`Grammar.storedTokens?` is the tokenizer on stored texts: it searches from byte to byte, and turns
the bytes of each token into characters with a cursor that only goes forward. It neither has to go
back nor comes to stand inside a character, and finds the tokens of `Grammar.tokens`.
-/

namespace CodeEditor

/-! ## Searching in bytes -/

/-- What an engine reports of a match: the same in bytes. -/
def Match.stored (chars : List Char) (found : Match) : Match where
  start := Utf8.offset chars found.start
  stop := Utf8.offset chars found.stop
  captures := found.captures.map fun capture ↦
    ⟨capture.index, Utf8.offset chars capture.start, Utf8.offset chars capture.stop⟩

/-- The leftmost match from a byte on, in bytes. -/
def Pattern.findStored? (chars : List Char) (pattern : Pattern) (from_ : Nat) : Option Match :=
  (pattern.find? chars.toArray (Utf8.index chars from_)).map (Match.stored chars)

/-- Where a search goes on behind a match that it passes over: an empty match takes the character
behind it along. -/
def Match.behindStored? (chars : List Char) (found : Match) : Option Nat :=
  if found.start < found.stop then some found.stop else Utf8.next? chars found.stop

namespace Rule

/-- Follows the matches of the rule's pattern until one gives a token that is not empty. -/
def searchStored (rule : Rule) (chars : List Char) : (fuel from_ : Nat) → Option (Nat × Nat)
  | 0, _ => none
  | fuel + 1, from_ =>
    (rule.pattern.findStored? chars from_).bind fun found ↦
      (rule.taken? found).or ((found.behindStored? chars).bind (rule.searchStored chars fuel))

def findStored? (rule : Rule) (chars : List Char) (from_ : Nat) : Option (Nat × Nat) :=
  rule.searchStored chars (Utf8.size chars + 1 - from_) from_

end Rule

/-- How far bytes have been turned into characters. -/
structure CharCursor where
  byte : Nat := 0
  chars : Nat := 0

/-- Counts the characters up to a byte. It cannot go back, and not end inside a character. -/
def CharCursor.advanceTo? (chars : List Char) (cursor : CharCursor) (byte : Nat) :
    Option CharCursor :=
  if byte < cursor.byte then none
  else if byte = cursor.byte then some cursor
  else do
    let (_, behind) ← Utf8.split? chars cursor.byte
    let (passed, _) ← Utf8.split? behind (byte - cursor.byte)
    return ⟨byte, cursor.chars + passed.length⟩

/-- A token with the bytes that were matched for it. -/
structure StoredToken where
  firstByte : Nat
  endByte : Nat
  token : Token

/-- The characters of a token. -/
def Token.chars (token : Token) (chars : List Char) : List Char :=
  (chars.drop token.start).take (token.stop - token.start)

namespace Grammar

def refreshStored (chars : List Char) (pos : Nat) (slots : List Slot) : List Slot :=
  slots.map fun (rule, next) ↦
    match next with
    | some (start, _) => if start < pos then (rule, rule.findStored? chars pos) else (rule, next)
    | none => (rule, none)

/-- Takes the earliest find again and again. Gives no tokens if the cursor gets stuck or the fuel
does not last. -/
def scanStored? (chars : List Char) :
    (fuel pos : Nat) → CharCursor → List Slot → Option (List StoredToken)
  | 0, _, _, _ => none
  | fuel + 1, pos, cursor, slots =>
    let slots := refreshStored chars pos slots
    match earliest? slots with
    | none => some []
    | some (rule, start, stop) => do
      let first ← cursor.advanceTo? chars start
      let last ← first.advanceTo? chars stop
      let rest ← scanStored? chars fuel stop last slots
      return ⟨start, stop, ⟨first.chars, last.chars, rule.kind⟩⟩ :: rest

/-- The tokens of a text, found in its bytes. -/
def storedTokens? (grammar : Grammar) (text : String) : Option (List StoredToken) :=
  let chars := text.toList
  scanStored? chars (Utf8.size chars + 1) 0 {}
    (grammar.map fun rule ↦ (rule, rule.findStored? chars 0))

end Grammar

/-! ## Searching in bytes is searching in characters -/

variable {chars : List Char} {from_ pos fuel : Nat}

/-- A piece of the text in bytes. -/
def inBytes (chars : List Char) (found : Nat × Nat) : Nat × Nat :=
  (Utf8.offset chars found.1, Utf8.offset chars found.2)

theorem Match.group?_stored (chars : List Char) (found : Match) (index : Nat) :
    (found.stored chars).group? index = (found.group? index).map (inBytes chars) := by
  unfold Match.group?
  split
  · rfl
  · rw [Match.stored, List.find?_map, Option.map_map, Option.map_map]
    rfl

theorem Pattern.findStored?_offset (pattern : Pattern) (h : from_ ≤ chars.length) :
    pattern.findStored? chars (Utf8.offset chars from_) =
      (pattern.find? chars.toArray from_).map (Match.stored chars) := by
  rw [Pattern.findStored?, Utf8.index_offset h]

theorem inBytes_lt_iff {found : Nat × Nat} (h : found.2 ≤ chars.length) :
    (inBytes chars found).1 < (inBytes chars found).2 ↔ found.1 < found.2 :=
  Utf8.offset_lt_offset_iff h

theorem Match.behindStored?_stored {found : Match} (h : found.Within chars.toArray from_) :
    (found.stored chars).behindStored? chars =
      (found.behind? chars.toArray).map (Utf8.offset chars) := by
  have hsize : found.stop ≤ chars.length := h.le_size
  have hlength : chars.toArray.size = chars.length := rfl
  simp only [behindStored?, behind?, stored, Utf8.offset_lt_offset_iff hsize,
    Utf8.next?_offset hsize, hlength]
  split
  · rfl
  · split <;> rfl

theorem Match.Within.taken?_stored {found : Match} (h : found.Within chars.toArray from_)
    (group : Option Nat) :
    (found.stored chars).taken? group = (found.taken? group).map (inBytes chars) := by
  unfold Match.taken?
  rw [Match.group?_stored]
  cases htaken : found.group? (group.getD 0) with
  | none => rfl
  | some taken =>
    obtain ⟨-, -, hstop⟩ := h.group? htaken
    have hsize : taken.2 ≤ chars.length := Nat.le_trans hstop h.le_size
    rw [Option.map_some, Option.filter_some, Option.filter_some]
    simp only [inBytes_lt_iff hsize, decide_eq_true_eq]
    split <;> rfl

namespace Rule

theorem taken?_stored (rule : Rule) {found : Match} (h : found.Within chars.toArray from_) :
    rule.taken? (found.stored chars) = (rule.taken? found).map (inBytes chars) :=
  h.taken?_stored rule.group

theorem searchStored_offset (rule : Rule) (h : from_ ≤ chars.length) :
    rule.searchStored chars fuel (Utf8.offset chars from_) =
      (rule.search chars.toArray fuel from_).map (inBytes chars) := by
  induction fuel generalizing from_ with
  | zero => rfl
  | succ fuel ih =>
    rw [searchStored, search_succ, Pattern.findStored?_offset _ h]
    cases hfound : rule.pattern.find? chars.toArray from_ with
    | none => rfl
    | some found =>
      have hwithin := Pattern.within_find? h hfound
      rw [Option.map_some, Option.bind_some, Option.bind_some, taken?_stored rule hwithin,
        Match.behindStored?_stored hwithin]
      cases rule.taken? found with
      | some taken => rfl
      | none =>
        cases hbehind : found.behind? chars.toArray with
        | none => rfl
        | some pos => exact ih (hwithin.behind? hbehind).2

/-- A rule finds in the bytes what it finds in the characters. -/
theorem findStored?_offset (rule : Rule) (h : from_ ≤ chars.length) :
    rule.findStored? chars (Utf8.offset chars from_) =
      (rule.find? chars.toArray from_).map (inBytes chars) := by
  have hleft := Utf8.length_sub_le chars from_
  have hsize := Utf8.offset_le_size h
  have hfrom : from_ ≤ chars.toArray.size := h
  have hlength : chars.toArray.size = chars.length := rfl
  unfold findStored? find?
  rw [searchStored_offset rule h, if_pos hfrom,
    rule.search_congr hfrom (by omega) (show _ < chars.toArray.size + 1 - from_ by omega)]

end Rule

theorem CharCursor.advanceTo?_offset (chars : List Char) {i j : Nat} (hle : i ≤ j)
    (hj : j ≤ chars.length) :
    advanceTo? chars ⟨Utf8.offset chars i, i⟩ (Utf8.offset chars j) =
      some ⟨Utf8.offset chars j, j⟩ := by
  obtain ⟨k, rfl⟩ := Nat.exists_eq_add_of_le hle
  have hdrop : k ≤ (chars.drop i).length := by
    rw [List.length_drop]
    omega
  unfold advanceTo?
  dsimp only
  rw [if_neg (Nat.not_lt.mpr (Utf8.offset_le_offset hle))]
  split
  · rename_i hsame
    cases k with
    | zero => rfl
    | succ k =>
      have hlt : Utf8.offset chars i < Utf8.offset chars (i + (k + 1)) :=
        Utf8.offset_lt_offset (by omega) hj
      exact absurd hsame (Nat.ne_of_gt hlt)
  · rw [Utf8.split?_offset (by omega), Utf8.offset_add, Nat.add_sub_cancel_left]
    simp only [Option.bind_eq_bind, Option.bind_some, Utf8.split?_offset hdrop, List.length_take,
      Nat.min_eq_left hdrop]
    rfl

namespace Grammar

variable {slots : List Slot}

def Slot.stored (chars : List Char) (slot : Slot) : Slot := (slot.1, slot.2.map (inBytes chars))

/-- A token with the bytes that its characters take. -/
def Token.stored (chars : List Char) (token : Token) : StoredToken :=
  ⟨Utf8.offset chars token.start, Utf8.offset chars token.stop, token⟩

theorem refreshStored_offset (slots : List Slot) (hpos : pos ≤ chars.length) :
    refreshStored chars (Utf8.offset chars pos) (slots.map (Slot.stored chars)) =
      (refresh chars.toArray pos slots).map (Slot.stored chars) := by
  unfold refreshStored refresh
  rw [List.map_map, List.map_map]
  refine List.map_congr_left fun slot _ ↦ ?_
  obtain ⟨rule, next⟩ := slot
  cases next with
  | none => rfl
  | some found =>
    simp only [Function.comp, Slot.stored, Option.map_some, inBytes,
      Utf8.offset_lt_offset_iff hpos, rule.findStored?_offset hpos]
    split <;> rfl

theorem earliest?_stored (h : Ahead chars.toArray 0 slots) :
    earliest? (slots.map (Slot.stored chars)) =
      (earliest? slots).map fun best ↦ (best.1, inBytes chars best.2) := by
  induction slots with
  | nil => rfl
  | cons slot rest ih =>
    obtain ⟨hslot, hrest⟩ := List.forall_mem_cons.mp h
    obtain ⟨rule, next⟩ := slot
    simp only [List.map_cons, Slot.stored, earliest?, ih hrest]
    cases next with
    | none => rfl
    | some found =>
      cases earliest? rest with
      | none => rfl
      | some best =>
        obtain ⟨-, hlt, hstop⟩ := hslot found rfl
        have hstart : found.1 ≤ chars.length := Nat.le_trans (Nat.le_of_lt hlt) hstop
        simp only [Option.map_some, inBytes, Utf8.offset_le_offset_iff hstart]
        split <;> rfl

theorem scanStored?_offset (h : Ahead chars.toArray 0 slots) (hpos : pos ≤ chars.length)
    (hfuel : chars.length - pos < fuel) :
    scanStored? chars fuel (Utf8.offset chars pos) ⟨Utf8.offset chars pos, pos⟩
        (slots.map (Slot.stored chars)) =
      some ((scan chars.toArray fuel pos slots).map (Token.stored chars)) := by
  induction fuel generalizing pos slots with
  | zero => nomatch hfuel
  | succ fuel ih =>
    have hahead := h.refresh pos
    rw [scanStored?, scan]
    rw [refreshStored_offset slots hpos, earliest?_stored hahead.mono]
    cases hearliest : earliest? (refresh chars.toArray pos slots) with
    | none => rfl
    | some best =>
      obtain ⟨rule, start, stop⟩ := best
      obtain ⟨hle, hlt, hsize⟩ := hahead _ (mem_of_earliest? hearliest) _ rfl
      have hstop : stop ≤ chars.length := hsize
      have hfirst := CharCursor.advanceTo?_offset chars hle (by dsimp only at hlt; omega)
      have hlast := CharCursor.advanceTo?_offset chars (Nat.le_of_lt hlt) hstop
      have hrest := ih hahead.mono hstop (by dsimp only at hle hlt; omega)
      simp only [Option.map_some, inBytes, Option.bind_eq_bind, hfirst, hlast, hrest,
        Option.bind_some]
      rfl

/-- The tokens that are found in the bytes are those that are found in the characters. -/
theorem storedTokens?_eq (grammar : Grammar) (text : String) :
    grammar.storedTokens? text = some ((grammar.tokens text).map (Token.stored text.toList)) := by
  have hahead := ahead_initial grammar text.toList.toArray
  have hinitial : (grammar.map fun rule ↦ (rule, rule.findStored? text.toList 0)) =
      (grammar.map fun rule ↦ (rule, rule.find? text.toList.toArray 0)).map
        (Slot.stored text.toList) := by
    rw [List.map_map]
    refine List.map_congr_left fun rule _ ↦ ?_
    exact congrArg (rule, ·) (rule.findStored?_offset (Nat.zero_le _))
  have hlength := Utf8.length_le_size text.toList
  have hscan := scanStored?_offset hahead (Nat.zero_le _)
    (show _ < Utf8.size text.toList + 1 by omega)
  unfold storedTokens? tokens
  dsimp only
  rw [hinitial, scan_congr hahead (show _ < text.toList.toArray.size + 1 by omega)
    (show _ < Utf8.size text.toList + 1 by simpa using by omega)]
  exact hscan

/-- The characters of a token are those whose bytes were matched for it. -/
theorem extract_stored {grammar : Grammar} {text : String} {token : Token}
    (h : token ∈ grammar.tokens text) :
    text.toUTF8.extract (Token.stored text.toList token).firstByte
        (Token.stored text.toList token).endByte =
      (String.ofList (token.chars text.toList)).toUTF8 := by
  obtain ⟨-, hlt, hlength⟩ := (consecutive_tokens grammar text).bounds token h
  exact Utf8.extract_offset text (Nat.le_of_lt hlt) hlength

end Grammar

end CodeEditor
