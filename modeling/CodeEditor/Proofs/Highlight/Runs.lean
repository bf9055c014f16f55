import CodeEditor.Proofs.Highlight.Bytes
import Mathlib.Data.List.Forall2
import Mathlib.Data.List.MinMax

/-!
# The tokenizer comes to an end

The tokenizer is two loops, one inside the other. Following a rule goes on behind each match that
gives no token, and behind the character after it if the match is empty; the outer loop goes on
behind each token. Below, the loops are relations whose derivations are their finite runs, for any
engine that finds the matches. Of the engine nothing is known but that a match lies ahead of where
it was looked for, between characters, and that groups lie inside their match. That is enough for
each loop to have exactly one run, whatever the rules are and whatever the text is, and for the
tokens to lie in the text one behind the other.
-/

namespace CodeEditor

/-! ## The loops -/

/-- A rule for a stored text: what an engine finds from a byte on, and what of it is a token. -/
structure StoredRule where
  find? : (from_ : Nat) → Option Match
  kind : TokenKind
  group : Option Nat

/-- The engine finds matches of the text ahead of where it looks. -/
def StoredRule.Sound (chars : List Char) (rule : StoredRule) : Prop :=
  ∀ from_ ≤ chars.length, ∀ found, rule.find? (Utf8.offset chars from_) = some found →
    ∃ whole : Match, whole.Within chars.toArray from_ ∧ found = whole.stored chars

/-- Following the rule from a byte on ends with what it finds, if it finds anything. -/
inductive StoredRule.Ends (chars : List Char) (rule : StoredRule) :
    (from_ : Nat) → Option (Nat × Nat) → Prop
  | past {from_ : Nat} (hpast : Utf8.size chars < from_) : rule.Ends chars from_ none
  | unmatched {from_ : Nat} (hfrom : from_ ≤ Utf8.size chars) (hfind : rule.find? from_ = none) :
    rule.Ends chars from_ none
  | taken {from_ : Nat} {found : Match} {piece : Nat × Nat} (hfrom : from_ ≤ Utf8.size chars)
    (hfind : rule.find? from_ = some found) (htaken : found.taken? rule.group = some piece) :
    rule.Ends chars from_ (some piece)
  | atEnd {from_ : Nat} {found : Match} (hfrom : from_ ≤ Utf8.size chars)
    (hfind : rule.find? from_ = some found) (htaken : found.taken? rule.group = none)
    (hbehind : found.behindStored? chars = none) : rule.Ends chars from_ none
  | passed {from_ next : Nat} {found : Match} {result : Option (Nat × Nat)}
    (hfrom : from_ ≤ Utf8.size chars) (hfind : rule.find? from_ = some found)
    (htaken : found.taken? rule.group = none) (hbehind : found.behindStored? chars = some next)
    (hrest : rule.Ends chars next result) : rule.Ends chars from_ result

/-- A rule and its next find. -/
abbrev StoredSlot := StoredRule × Option (Nat × Nat)

/-- What lies before the place the tokenizer has come to is found again. -/
inductive StoredSlot.Refreshed (chars : List Char) (pos : Nat) : StoredSlot → StoredSlot → Prop
  | again {rule : StoredRule} {start stop : Nat} {result : Option (Nat × Nat)}
    (hbefore : start < pos) (hends : rule.Ends chars pos result) :
    Refreshed chars pos (rule, some (start, stop)) (rule, result)
  | kept {rule : StoredRule} {start stop : Nat} (hahead : pos ≤ start) :
    Refreshed chars pos (rule, some (start, stop)) (rule, some (start, stop))
  | exhausted {rule : StoredRule} : Refreshed chars pos (rule, none) (rule, none)

/-- The find that starts first; of several with one start, that of the first rule. -/
def StoredSlot.earliest? (slots : List StoredSlot) : Option (StoredRule × Nat × Nat) :=
  (slots.filterMap fun slot ↦ slot.2.map (slot.1, ·)).argmin (·.2.1)

/-- From a place on the tokenizer gives these tokens and ends. There is no run in which the cursor
is asked to go back. -/
inductive TokenizerRun (chars : List Char) :
    (pos : Nat) → CharCursor → List StoredSlot → List StoredToken → Prop
  | done {pos : Nat} {cursor : CharCursor} {slots refreshed : List StoredSlot}
    (hrefreshed : List.Forall₂ (StoredSlot.Refreshed chars pos) slots refreshed)
    (hearliest : StoredSlot.earliest? refreshed = none) : TokenizerRun chars pos cursor slots []
  | token {pos start stop : Nat} {cursor first last : CharCursor} {rule : StoredRule}
    {slots refreshed : List StoredSlot} {rest : List StoredToken}
    (hrefreshed : List.Forall₂ (StoredSlot.Refreshed chars pos) slots refreshed)
    (hearliest : StoredSlot.earliest? refreshed = some (rule, start, stop))
    (hfirst : cursor.advanceTo? chars start = some first)
    (hlast : first.advanceTo? chars stop = some last)
    (hrest : TokenizerRun chars stop last refreshed rest) :
    TokenizerRun chars pos cursor slots
      (⟨start, stop, ⟨first.chars, last.chars, rule.kind⟩⟩ :: rest)

/-- The first find of each rule. -/
def StoredSlot.Initial (chars : List Char) : StoredRule → StoredSlot → Prop :=
  fun rule slot ↦ slot.1 = rule ∧ rule.Ends chars 0 slot.2

/-- The tokenizer gives these tokens of the text. -/
def Tokenizes (chars : List Char) (rules : List StoredRule) (tokens : List StoredToken) : Prop :=
  ∃ slots, List.Forall₂ (StoredSlot.Initial chars) rules slots ∧
    TokenizerRun chars 0 {} slots tokens

/-! ## Nothing is left to choice -/

variable {chars : List Char} {pos : Nat}

theorem StoredRule.Ends.unique {rule : StoredRule} {from_ : Nat} {a b : Option (Nat × Nat)}
    (ha : rule.Ends chars from_ a) (hb : rule.Ends chars from_ b) : a = b := by
  induction ha with
  | past hpast =>
    cases hb with
    | past => rfl
    | _ => omega
  | unmatched hfrom hfind =>
    cases hb with
    | past | unmatched => rfl
    | _ => simp_all
  | taken hfrom hfind htaken =>
    cases hb with
    | past => omega
    | _ => simp_all
  | atEnd hfrom hfind htaken hbehind =>
    cases hb with
    | past | unmatched | atEnd => rfl
    | _ => simp_all
  | passed hfrom hfind htaken hbehind hrest ih =>
    cases hb with
    | past => omega
    | passed hfrom' hfind' htaken' hbehind' hrest' =>
      rw [hfind, Option.some.injEq] at hfind'
      subst hfind'
      rw [hbehind, Option.some.injEq] at hbehind'
      subst hbehind'
      exact ih hrest'
    | _ => simp_all

theorem StoredSlot.rightUnique_refreshed :
    Relator.RightUnique (StoredSlot.Refreshed chars pos) := by
  intro slot a b ha hb
  cases ha with
  | again hbefore hends =>
    cases hb with
    | again _ hends' => rw [hends.unique hends']
    | kept hahead => omega
  | kept hahead =>
    cases hb with
    | again hbefore => omega
    | kept => rfl
  | exhausted =>
    cases hb
    rfl

theorem StoredSlot.eq_of_refreshed {slots a b : List StoredSlot}
    (ha : List.Forall₂ (Refreshed chars pos) slots a)
    (hb : List.Forall₂ (Refreshed chars pos) slots b) : a = b :=
  List.right_unique_forall₂' rightUnique_refreshed ha hb

theorem StoredSlot.rightUnique_initial : Relator.RightUnique (Initial chars) := by
  rintro rule ⟨_, a⟩ ⟨_, b⟩ ⟨rfl, ha⟩ ⟨hrule, hb⟩
  obtain rfl : _ = _ := hrule
  exact congrArg _ (ha.unique hb)

theorem TokenizerRun.unique {cursor : CharCursor} {slots : List StoredSlot}
    {a b : List StoredToken} (ha : TokenizerRun chars pos cursor slots a)
    (hb : TokenizerRun chars pos cursor slots b) : a = b := by
  induction ha generalizing b with
  | done hrefreshed hearliest =>
    cases hb with
    | done => rfl
    | token hrefreshed' hearliest' =>
      rw [StoredSlot.eq_of_refreshed hrefreshed hrefreshed', hearliest'] at hearliest
      nomatch hearliest
  | token hrefreshed hearliest hfirst hlast hrest ih =>
    cases hb with
    | done hrefreshed' hearliest' =>
      rw [StoredSlot.eq_of_refreshed hrefreshed hrefreshed', hearliest'] at hearliest
      nomatch hearliest
    | token hrefreshed' hearliest' hfirst' hlast' hrest' =>
      obtain rfl := StoredSlot.eq_of_refreshed hrefreshed hrefreshed'
      obtain ⟨rfl, rfl, rfl⟩ : _ ∧ _ ∧ _ := by simpa using hearliest.symm.trans hearliest'
      obtain rfl := Option.some.inj (hfirst.symm.trans hfirst')
      obtain rfl := Option.some.inj (hlast.symm.trans hlast')
      rw [ih hrest']

/-! ## Every loop has a run -/

/-- A find, if there is one, is a piece of the text from a place on, and not empty. -/
def LiesAhead (chars : List Char) (pos : Nat) (result : Option (Nat × Nat)) : Prop :=
  ∀ bytes ∈ result, ∃ piece : Nat × Nat, bytes = inBytes chars piece ∧
    pos ≤ piece.1 ∧ piece.1 < piece.2 ∧ piece.2 ≤ chars.length

theorem LiesAhead.mono {before : Nat} {result : Option (Nat × Nat)}
    (h : LiesAhead chars pos result) (hle : before ≤ pos) : LiesAhead chars before result := by
  intro bytes hbytes
  obtain ⟨piece, hpiece, hpos, hinside⟩ := h bytes hbytes
  exact ⟨piece, hpiece, Nat.le_trans hle hpos, hinside⟩

/-- Follows the matches as long as the fuel lasts. -/
def StoredRule.follow (chars : List Char) (rule : StoredRule) :
    (fuel from_ : Nat) → Option (Nat × Nat)
  | 0, _ => none
  | fuel + 1, from_ =>
    (rule.find? from_).bind fun found ↦
      (found.taken? rule.group).or ((found.behindStored? chars).bind (rule.follow chars fuel))

/-- Each match that is passed over moves on by at least a character, so following a rule ends. -/
theorem StoredRule.Sound.ends_follow {rule : StoredRule} (h : rule.Sound chars) {fuel from_ : Nat}
    (hfrom : from_ ≤ chars.length) (hfuel : chars.length - from_ < fuel) :
    rule.Ends chars (Utf8.offset chars from_) (rule.follow chars fuel (Utf8.offset chars from_)) ∧
      LiesAhead chars from_ (rule.follow chars fuel (Utf8.offset chars from_)) := by
  induction fuel generalizing from_ with
  | zero => nomatch hfuel
  | succ fuel ih =>
    have hsize := Utf8.offset_le_size hfrom
    rw [follow]
    cases hfind : rule.find? (Utf8.offset chars from_) with
    | none => exact ⟨.unmatched hsize hfind, nofun⟩
    | some found =>
      obtain ⟨whole, hwithin, rfl⟩ := h from_ hfrom found hfind
      have htaken := hwithin.taken?_stored rule.group
      have hbehind := Match.behindStored?_stored hwithin
      rw [Option.bind_some]
      cases hpiece : whole.taken? rule.group with
      | some piece =>
        rw [hpiece] at htaken
        rw [htaken]
        refine ⟨.taken hsize hfind htaken, ?_⟩
        intro bytes hbytes
        exact ⟨piece, (Option.some.inj hbytes).symm, hwithin.taken? hpiece⟩
      | none =>
        rw [hpiece] at htaken
        rw [htaken, hbehind]
        cases hnext : whole.behind? chars.toArray with
        | none =>
          rw [hnext] at hbehind
          exact ⟨.atEnd hsize hfind htaken hbehind, nofun⟩
        | some next =>
          rw [hnext] at hbehind
          obtain ⟨hlt, hinside⟩ := hwithin.behind? hnext
          have hlength : next ≤ chars.length := hinside
          obtain ⟨hends, hahead⟩ := ih hlength (by omega)
          exact ⟨.passed hsize hfind htaken hbehind hends, hahead.mono (Nat.le_of_lt hlt)⟩

theorem StoredRule.Sound.exists_ends {rule : StoredRule} (h : rule.Sound chars) {from_ : Nat}
    (hfrom : from_ ≤ chars.length) :
    ∃ result, rule.Ends chars (Utf8.offset chars from_) result ∧ LiesAhead chars from_ result :=
  ⟨_, h.ends_follow hfrom (Nat.lt_succ_self _)⟩

theorem exists_forall₂ {α β : Type} {R : α → β → Prop} {P : β → Prop} {xs : List α}
    (h : ∀ x ∈ xs, ∃ y, R x y ∧ P y) : ∃ ys, List.Forall₂ R xs ys ∧ ∀ y ∈ ys, P y := by
  induction xs with
  | nil => exact ⟨[], .nil, nofun⟩
  | cons x rest ih =>
    obtain ⟨hx, hrest⟩ := List.forall_mem_cons.mp h
    obtain ⟨y, hy, hholds⟩ := hx
    obtain ⟨ys, hys, hall⟩ := ih hrest
    exact ⟨y :: ys, .cons hy hys, List.forall_mem_cons.mpr ⟨hholds, hall⟩⟩

/-- The rule is sound, and its next find lies ahead of a place. -/
def StoredSlot.Ready (chars : List Char) (pos : Nat) (slot : StoredSlot) : Prop :=
  slot.1.Sound chars ∧ LiesAhead chars pos slot.2

theorem StoredSlot.Ready.exists_refreshed {slot : StoredSlot} {before : Nat}
    (h : slot.Ready chars before) (hpos : pos ≤ chars.length) :
    ∃ refreshed, slot.Refreshed chars (Utf8.offset chars pos) refreshed ∧
      refreshed.Ready chars pos := by
  obtain ⟨rule, next⟩ := slot
  obtain ⟨hsound, hahead⟩ := h
  cases next with
  | none => exact ⟨_, .exhausted, hsound, nofun⟩
  | some bytes =>
    obtain ⟨piece, rfl, -, hlt, hlength⟩ := hahead _ rfl
    rcases Nat.lt_or_ge piece.1 pos with hbefore | hkept
    · obtain ⟨result, hends, hresult⟩ := hsound.exists_ends hpos
      exact ⟨_, .again (Utf8.offset_lt_offset hbefore hpos) hends, hsound, hresult⟩
    · refine ⟨_, .kept (Utf8.offset_le_offset hkept), hsound, ?_⟩
      intro bytes hbytes
      exact ⟨piece, (Option.some.inj hbytes).symm, hkept, hlt, hlength⟩

theorem StoredSlot.mem_of_earliest? {slots : List StoredSlot} {rule : StoredRule}
    {bytes : Nat × Nat} (h : earliest? slots = some (rule, bytes)) : (rule, some bytes) ∈ slots := by
  obtain ⟨⟨other, next⟩, hmem, hnext⟩ := List.mem_filterMap.mp (List.argmin_mem h)
  obtain ⟨found, rfl, hfound⟩ := Option.map_eq_some_iff.mp hnext
  obtain ⟨rfl, rfl⟩ := Prod.mk.inj hfound
  exact hmem

theorem StoredSlot.earliest?_cons_some (rule : StoredRule) (found : Nat × Nat)
    (rest : List StoredSlot) : earliest? ((rule, some found) :: rest) =
      match earliest? rest with
      | none => some (rule, found)
      | some best => if best.2.1 < found.1 then some best else some (rule, found) := by
  simp only [earliest?, List.filterMap_cons, Option.map_some, List.argmin_cons]
  split
  · rename_i hrest
    rw [hrest]
  · rename_i best hrest
    rw [hrest]

/-- Each token takes a character at least, so the tokenizer ends. -/
theorem exists_tokenizerRun {slots : List StoredSlot} {before : Nat}
    (hready : ∀ slot ∈ slots, slot.Ready chars before) (hpos : pos ≤ chars.length) :
    ∃ tokens, Grammar.Consecutive chars.length pos tokens ∧
      TokenizerRun chars (Utf8.offset chars pos) ⟨Utf8.offset chars pos, pos⟩ slots
        (tokens.map (Grammar.Token.stored chars)) := by
  induction hleft : chars.length - pos using Nat.strong_induction_on
    generalizing pos before slots with
  | h left ih =>
    obtain ⟨refreshed, hrefreshed, hahead⟩ :=
      exists_forall₂ fun slot hslot ↦ (hready slot hslot).exists_refreshed hpos
    cases hearliest : StoredSlot.earliest? refreshed with
    | none => exact ⟨[], trivial, .done hrefreshed hearliest⟩
    | some best =>
      obtain ⟨rule, bytes⟩ := best
      obtain ⟨-, hfound⟩ := hahead _ (StoredSlot.mem_of_earliest? hearliest)
      obtain ⟨⟨start, stop⟩, rfl, hle, hlt, hstop⟩ := hfound _ rfl
      dsimp only at hle hlt hstop
      have hfirst := CharCursor.advanceTo?_offset chars hle (by omega)
      have hlast := CharCursor.advanceTo?_offset chars (Nat.le_of_lt hlt) hstop
      obtain ⟨tokens, hconsecutive, hrest⟩ := ih (chars.length - stop) (by omega) hahead hstop rfl
      exact ⟨⟨start, stop, rule.kind⟩ :: tokens, ⟨hle, hlt, hstop, hconsecutive⟩,
        .token hrefreshed hearliest hfirst hlast hrest⟩

theorem exists_tokenizes {rules : List StoredRule} (hsound : ∀ rule ∈ rules, rule.Sound chars) :
    ∃ tokens, Grammar.Consecutive chars.length 0 tokens ∧
      Tokenizes chars rules (tokens.map (Grammar.Token.stored chars)) := by
  obtain ⟨slots, hslots, hready⟩ : ∃ slots, List.Forall₂ (StoredSlot.Initial chars) rules slots ∧
      ∀ slot ∈ slots, slot.Ready chars 0 := by
    apply exists_forall₂
    intro rule hrule
    obtain ⟨result, hends, hahead⟩ := (hsound rule hrule).exists_ends (Nat.zero_le _)
    exact ⟨(rule, result), ⟨rfl, hends⟩, hsound rule hrule, hahead⟩
  obtain ⟨tokens, hconsecutive, hrun⟩ := exists_tokenizerRun hready (Nat.zero_le _)
  exact ⟨tokens, hconsecutive, slots, hslots, hrun⟩

theorem Tokenizes.unique {rules : List StoredRule} {a b : List StoredToken}
    (ha : Tokenizes chars rules a) (hb : Tokenizes chars rules b) : a = b := by
  obtain ⟨slots, hslots, hrun⟩ := ha
  obtain ⟨slots', hslots', hrun'⟩ := hb
  obtain rfl := List.right_unique_forall₂' StoredSlot.rightUnique_initial hslots hslots'
  exact hrun.unique hrun'

/-! ## The rules of a grammar -/

/-- The rule, with an engine for its pattern. -/
def Rule.stored (chars : List Char) (rule : Rule) : StoredRule :=
  ⟨rule.pattern.findStored? chars, rule.kind, rule.group⟩

theorem Rule.sound_stored (chars : List Char) (rule : Rule) : (rule.stored chars).Sound chars := by
  intro from_ hfrom found hfound
  change rule.pattern.findStored? chars _ = _ at hfound
  rw [Pattern.findStored?_offset rule.pattern hfrom] at hfound
  obtain ⟨whole, hwhole, rfl⟩ := Option.map_eq_some_iff.mp hfound
  exact ⟨whole, Pattern.within_find? hfrom hwhole, rfl⟩

theorem Rule.searchStored_eq_follow (rule : Rule) (fuel from_ : Nat) :
    rule.searchStored chars fuel from_ = (rule.stored chars).follow chars fuel from_ := by
  induction fuel generalizing from_ with
  | zero => rfl
  | succ fuel ih =>
    have hrest : rule.searchStored chars fuel = (rule.stored chars).follow chars fuel := funext ih
    rw [searchStored, hrest]
    rfl

theorem Rule.ends_find? (rule : Rule) {from_ : Nat} (hfrom : from_ ≤ chars.length) :
    (rule.stored chars).Ends chars (Utf8.offset chars from_)
      ((rule.find? chars.toArray from_).map (inBytes chars)) := by
  have hleft := Utf8.length_sub_le chars from_
  have hsize := Utf8.offset_le_size hfrom
  rw [← rule.findStored?_offset hfrom, findStored?, searchStored_eq_follow]
  exact ((rule.sound_stored chars).ends_follow hfrom (by omega)).1

namespace Grammar

/-- A slot of the tokenizer, in bytes. -/
def Slot.inBytes (chars : List Char) (slot : Slot) : StoredSlot :=
  (slot.1.stored chars, slot.2.map (CodeEditor.inBytes chars))

theorem earliest?_inBytes {slots : List Slot} (h : Ahead chars.toArray 0 slots) :
    StoredSlot.earliest? (slots.map (Slot.inBytes chars)) = (earliest? slots).map fun best ↦
      (best.1.stored chars, inBytes chars best.2) := by
  induction slots with
  | nil => rfl
  | cons slot rest ih =>
    obtain ⟨hslot, hrest⟩ := List.forall_mem_cons.mp h
    obtain ⟨rule, next⟩ := slot
    cases next with
    | none => exact ih hrest
    | some found =>
      simp only [List.map_cons, Slot.inBytes, Option.map_some, StoredSlot.earliest?_cons_some,
        ih hrest, earliest?]
      cases earliest? rest with
      | none => rfl
      | some best =>
        obtain ⟨-, hlt, hstop⟩ := hslot found rfl
        have hstart : found.1 ≤ chars.length := Nat.le_trans (Nat.le_of_lt hlt) hstop
        simp only [Option.map_some, inBytes, Utf8.offset_lt_offset_iff hstart]
        by_cases hfirst : found.1 ≤ best.2.1
        · rw [if_pos hfirst, if_neg (Nat.not_lt.mpr hfirst)]
          rfl
        · rw [if_neg hfirst, if_pos (Nat.lt_of_not_le hfirst)]
          rfl

theorem forall₂_refresh {slots : List Slot} (h : Ahead chars.toArray 0 slots)
    (hpos : pos ≤ chars.length) :
    List.Forall₂ (StoredSlot.Refreshed chars (Utf8.offset chars pos))
      (slots.map (Slot.inBytes chars))
      ((refresh chars.toArray pos slots).map (Slot.inBytes chars)) := by
  induction slots with
  | nil => exact .nil
  | cons slot rest ih =>
    obtain ⟨hslot, hrest⟩ := List.forall_mem_cons.mp h
    refine .cons ?_ (ih hrest)
    obtain ⟨rule, next⟩ := slot
    cases next with
    | none => exact .exhausted
    | some found =>
      dsimp only
      split
      · rename_i hbefore
        exact .again (Utf8.offset_lt_offset hbefore hpos) (rule.ends_find? hpos)
      · rename_i hbefore
        exact .kept (Utf8.offset_le_offset (Nat.not_lt.mp hbefore))

theorem tokenizerRun_scan {slots : List Slot} {fuel : Nat} (h : Ahead chars.toArray 0 slots)
    (hpos : pos ≤ chars.length) (hfuel : chars.length - pos < fuel) :
    TokenizerRun chars (Utf8.offset chars pos) ⟨Utf8.offset chars pos, pos⟩
      (slots.map (Slot.inBytes chars))
      ((scan chars.toArray fuel pos slots).map (Token.stored chars)) := by
  induction fuel generalizing pos slots with
  | zero => nomatch hfuel
  | succ fuel ih =>
    have hahead := h.refresh pos
    have hrefreshed := forall₂_refresh h hpos
    have hstored := earliest?_inBytes hahead.mono
    rw [scan]
    cases hearliest : earliest? (refresh chars.toArray pos slots) with
    | none =>
      rw [hearliest] at hstored
      exact .done hrefreshed hstored
    | some best =>
      obtain ⟨rule, start, stop⟩ := best
      rw [hearliest] at hstored
      obtain ⟨hle, hlt, hsize⟩ := hahead _ (mem_of_earliest? hearliest) _ rfl
      dsimp only at hle hlt
      have hstop : stop ≤ chars.length := hsize
      have hleft : chars.length - stop < fuel := by omega
      have hfirst := CharCursor.advanceTo?_offset chars hle (by omega)
      have hlast := CharCursor.advanceTo?_offset chars (Nat.le_of_lt hlt) hstop
      exact .token hrefreshed hstored hfirst hlast (ih hahead.mono hstop hleft)

theorem tokenizes (grammar : Grammar) (text : String) :
    Tokenizes text.toList (grammar.map (Rule.stored text.toList))
      ((grammar.tokens text).map (Token.stored text.toList)) := by
  have hrun := tokenizerRun_scan (ahead_initial grammar text.toList.toArray) (Nat.zero_le _)
    (show text.toList.length - 0 < text.toList.length + 1 by omega)
  refine ⟨_, ?_, hrun⟩
  rw [List.map_map, List.forall₂_map_left_iff, List.forall₂_map_right_iff, List.forall₂_same]
  intro rule _
  exact ⟨rfl, rule.ends_find? (Nat.zero_le _)⟩

/-- Whatever the rules match, following one from any place ends in one way, and so does the
tokenizer: with tokens that are not empty and lie in the text one behind the other. The tokens of a
grammar come about like that. -/
theorem tokenizer_ends (text : String) :
    let chars := text.toList
    (∀ rules : List StoredRule, (∀ rule ∈ rules, rule.Sound chars) →
      (∀ rule ∈ rules, ∀ place ≤ chars.length,
        ∃! result, rule.Ends chars (Utf8.offset chars place) result) ∧
      ∃ tokens, Consecutive chars.length 0 tokens ∧
        ∀ found, Tokenizes chars rules found ↔ found = tokens.map (Token.stored chars)) ∧
    ∀ grammar : Grammar, (∀ rule ∈ grammar, (rule.stored chars).Sound chars) ∧
      Tokenizes chars (grammar.map (Rule.stored chars))
        ((grammar.tokens text).map (Token.stored chars)) := by
  intro chars
  constructor
  · intro rules hsound
    constructor
    · intro rule hrule place hplace
      obtain ⟨result, hends, -⟩ := (hsound rule hrule).exists_ends hplace
      exact ⟨result, hends, fun other hother ↦ hother.unique hends⟩
    · obtain ⟨tokens, hconsecutive, htokenizes⟩ := exists_tokenizes hsound
      refine ⟨tokens, hconsecutive, fun found ↦ ⟨fun hfound ↦ hfound.unique htokenizes, ?_⟩⟩
      rintro rfl
      exact htokenizes
  · intro grammar
    exact ⟨fun rule _ ↦ rule.sound_stored chars, grammar.tokenizes text⟩

end Grammar

end CodeEditor
