import CodeEditor.Highlight.Builtin
import CodeEditor.Proofs.Highlight.Tokens
import CodeEditor.Proofs.Pattern.Leftmost
import Mathlib.Data.List.MinMax
import Mathlib.Data.Prod.Lex

/-!
# The earliest match of the first rule

The tokenizer keeps the next find of each rule until the scan has passed its start. For rules without
a group this is always the find that a new search from the place of the scan would give. So no match
of such a rule is overlooked, each of its tokens is its match, and a grammar of such rules finds what
a scanner finds that searches for all rules again after each token.
-/

namespace CodeEditor

variable {text : Array Char} {from_ pos fuel : Nat} {followed : Rule → Prop}

namespace Rule

variable {rule : Rule} {found : Nat × Nat}

/-! ## Rules without a group -/

/-- The match of the rule's pattern at a place, unless it is empty. -/
def matchAt? (rule : Rule) (text : Array Char) (start : Nat) : Option (Nat × Nat) :=
  ((rule.pattern.matchAt? text start).map fun found ↦ (found.start, found.stop)).filter
    fun found ↦ found.1 < found.2

/-- The first match of the rule's pattern from a place on that is not empty. -/
def firstMatch? (rule : Rule) (text : Array Char) (from_ : Nat) : Option (Nat × Nat) :=
  firstFrom text (rule.matchAt? text) from_

/-- The match of the rule's pattern at a place is what the rule takes. -/
theorem taken?_of_matchAt? (hgroup : rule.group = none) {whole : Match}
    (h : rule.pattern.matchAt? text from_ = some whole) :
    rule.taken? whole = rule.matchAt? text from_ := by
  rw [taken?, Match.taken?, matchAt?, hgroup, h]
  rfl

theorem bounds_matchAt? (hfrom : from_ ≤ text.size) (h : rule.matchAt? text from_ = some found) :
    found.1 = from_ ∧ from_ < found.2 ∧ found.2 ≤ text.size := by
  obtain ⟨hfound, hlt⟩ := Option.filter_eq_some_iff.mp h
  obtain ⟨whole, hwhole, rfl⟩ := Option.map_eq_some_iff.mp hfound
  obtain ⟨hstart, hwithin⟩ := Pattern.within_matchAt? hfrom hwhole
  have hlt := of_decide_eq_true hlt
  dsimp only at hlt ⊢
  exact ⟨hstart, hstart ▸ hlt, hwithin.le_size⟩

/-- The first match is the match at its start, and there is none before it. -/
theorem matchAt?_of_firstMatch? (h : rule.firstMatch? text from_ = some found) :
    rule.matchAt? text found.1 = some found ∧
      ∀ other, from_ ≤ other → other < found.1 → rule.matchAt? text other = none := by
  obtain ⟨place, -, hsize, hfound, hbefore⟩ := firstFrom_eq_some_iff.mp h
  obtain ⟨rfl, -, -⟩ := bounds_matchAt? hsize hfound
  exact ⟨hfound, hbefore⟩

theorem matchAt?_of_no_match (h : rule.pattern.matchAt? text from_ = none) :
    rule.matchAt? text from_ = none := by
  rw [matchAt?, h]
  rfl

/-- A rule without a group finds the first match that is not empty. -/
theorem search_eq_firstMatch? (hgroup : rule.group = none) (hleftmost : rule.pattern.Leftmost text)
    (hfrom : from_ ≤ text.size) (hfuel : text.size - from_ < fuel) :
    rule.search text fuel from_ = rule.firstMatch? text from_ := by
  induction fuel generalizing from_ with
  | zero => nomatch hfuel
  | succ fuel ih =>
    rw [search_succ, hleftmost from_ hfrom, firstMatch?]
    cases hwhole : firstFrom text (rule.pattern.matchAt? text) from_ with
    | none =>
      have hnone := firstFrom_eq_none_iff.mp hwhole
      rw [firstFrom_eq_none_iff.mpr fun place hplace hsize ↦
        matchAt?_of_no_match (hnone place hplace hsize)]
      rfl
    | some whole =>
      obtain ⟨place, hplace, hsize, hmatch, hbefore⟩ := firstFrom_eq_some_iff.mp hwhole
      rw [Option.bind_some, taken?_of_matchAt? hgroup hmatch, firstFrom_skip hplace
        fun other hother hlt ↦ matchAt?_of_no_match (hbefore other hother hlt),
        firstFrom_of_le hsize]
      cases htaken : rule.matchAt? text place with
      | some found => rfl
      | none =>
        -- The match is empty, and the search goes on behind the next character.
        obtain ⟨hstart, hwithin⟩ := Pattern.within_matchAt? hsize hmatch
        have hempty : ¬whole.start < whole.stop := by
          intro hlt
          rw [matchAt?, hmatch, Option.map_some, Option.filter_some,
            if_pos (decide_eq_true hlt)] at htaken
          nomatch htaken
        have hstop : whole.stop = place := by
          have := hwithin.le
          omega
        rw [Option.none_or, Option.none_or, Match.behind?, if_neg hempty, hstop]
        split
        · exact ih (by omega) (by omega)
        · exact (firstFrom_of_gt (by omega)).symm

theorem find?_eq_firstMatch? (hgroup : rule.group = none) (hleftmost : rule.pattern.Leftmost text)
    (hfrom : from_ ≤ text.size) : rule.find? text from_ = rule.firstMatch? text from_ := by
  rw [find?, if_pos hfrom]
  exact search_eq_firstMatch? hgroup hleftmost hfrom (by omega)

end Rule

namespace Grammar

variable {grammar : Grammar} {slots : List Slot}

/-! ## Where tokens come from -/

/-- A token, and the place in the grammar of the rule that it comes from. -/
structure Emission where
  rule : Nat
  token : Token
  deriving DecidableEq, Repr

/-- By the start, and by the place of the rule where the starts are equal. -/
def Emission.key (emission : Emission) : Nat ×ₗ Nat :=
  toLex (emission.token.start, emission.rule)

/-- The next finds as tokens. -/
def candidates (slots : List Slot) : List Emission :=
  slots.zipIdx.filterMap fun ((rule, next), place) ↦
    next.map fun (start, stop) ↦ ⟨place, start, stop, rule.kind⟩

/-- The least of the next finds. -/
def winner? (slots : List Slot) : Option Emission := (candidates slots).argmin Emission.key

/-- The tokens that `scan` finds, and where they come from. -/
def emit (text : Array Char) : (fuel pos : Nat) → List Slot → List Emission
  | 0, _, _ => []
  | fuel + 1, pos, slots =>
    let slots := refresh text pos slots
    match winner? slots with
    | none => []
    | some emission => emission :: emit text fuel emission.token.stop slots

def emissions (grammar : Grammar) (text : String) : List Emission :=
  let chars := text.toList.toArray
  emit chars (chars.size + 1) 0 (grammar.map fun rule ↦ (rule, rule.find? chars 0))

/-- Searches for all rules again after each token, and takes the least of what they find. -/
def naiveScan (grammar : Grammar) (text : Array Char) : (fuel pos : Nat) → List Emission
  | 0, _ => []
  | fuel + 1, pos =>
    match winner? (grammar.map fun rule ↦ (rule, rule.firstMatch? text pos)) with
    | none => []
    | some emission => emission :: naiveScan grammar text fuel emission.token.stop

def naiveTokens (grammar : Grammar) (text : String) : List Token :=
  let chars := text.toList.toArray
  (naiveScan grammar chars (chars.size + 1) 0).map (·.token)

theorem mem_candidates {emission : Emission} : emission ∈ candidates slots ↔
    ∃ rule, slots[emission.rule]? = some (rule, some (emission.token.start, emission.token.stop)) ∧
      emission.token.kind = rule.kind := by
  obtain ⟨place, start, stop, kind⟩ := emission
  rw [candidates, List.mem_filterMap]
  constructor
  · rintro ⟨⟨⟨rule, next⟩, i⟩, hslot, hnext⟩
    obtain ⟨⟨a, b⟩, rfl, hemission⟩ := Option.map_eq_some_iff.mp hnext
    cases hemission
    exact ⟨rule, List.mk_mem_zipIdx_iff_getElem?.mp hslot, rfl⟩
  · rintro ⟨rule, hslot, hkind⟩
    dsimp only at hslot hkind
    subst hkind
    exact ⟨((rule, some (start, stop)), place), List.mk_mem_zipIdx_iff_getElem?.mpr hslot, rfl⟩

theorem next_eq_none_of_earliest? (h : earliest? slots = none) : ∀ slot ∈ slots, slot.2 = none := by
  induction slots with
  | nil => nofun
  | cons slot rest ih =>
    obtain ⟨rule, next⟩ := slot
    unfold earliest? at h
    split at h
    · exact List.forall_mem_cons.mpr ⟨rfl, ih h⟩
    · nomatch h
    · split at h <;> nomatch h

/-- What holds of the next find of the first rule and of those of the others holds of all. -/
theorem forall_next_cons {slot : Slot} {p : Nat → Nat → Prop}
    (hfirst : ∀ rule start stop, slot = (rule, some (start, stop)) → p 0 start)
    (hrest : ∀ (place : Nat) (rule : Rule) (start stop : Nat),
      slots[place]? = some (rule, some (start, stop)) → p (place + 1) start) :
    ∀ (place : Nat) (rule : Rule) (start stop : Nat),
      (slot :: slots)[place]? = some (rule, some (start, stop)) → p place start := by
  intro place rule start stop hslot
  cases place with
  | zero => exact hfirst _ _ _ (Option.some.inj hslot)
  | succ place => exact hrest _ _ _ _ hslot

/-- The earliest find is the first of those that start with it. -/
theorem exists_of_earliest? {rule : Rule} {start stop : Nat}
    (h : earliest? slots = some (rule, start, stop)) :
    ∃ place : Nat, slots[place]? = some (rule, some (start, stop)) ∧
      ∀ (other : Nat) (rule' : Rule) (start' stop' : Nat),
        slots[other]? = some (rule', some (start', stop')) →
        start < start' ∨ start = start' ∧ place ≤ other := by
  induction slots generalizing rule start stop with
  | nil => nomatch h
  | cons slot rest ih =>
    obtain ⟨first, next⟩ := slot
    unfold earliest? at h
    split at h
    · obtain ⟨place, hplace, hleast⟩ := ih h
      refine ⟨place + 1, hplace, forall_next_cons nofun fun other rule' start' stop' hother ↦ ?_⟩
      have := hleast other _ _ _ hother
      omega
    · rename_i hrest
      cases h
      refine ⟨0, rfl, forall_next_cons ?_ fun other rule' start' stop' hother ↦ ?_⟩
      · rintro _ _ _ ⟨⟩
        exact Or.inr ⟨rfl, Nat.le_refl 0⟩
      · nomatch next_eq_none_of_earliest? hrest _ (List.mem_of_getElem? hother)
    · rename_i firstStart firstStop best hbest
      obtain ⟨bestRule, bestStart, bestStop⟩ := best
      obtain ⟨place, hplace, hleast⟩ := ih hbest
      dsimp only at h
      split at h
      · rename_i hle
        cases h
        refine ⟨0, rfl, forall_next_cons ?_ fun other rule' start' stop' hother ↦ ?_⟩
        · rintro _ _ _ ⟨⟩
          exact Or.inr ⟨rfl, Nat.le_refl 0⟩
        · have := hleast other _ _ _ hother
          omega
      · rename_i hgt
        cases h
        refine ⟨place + 1, hplace, forall_next_cons ?_ fun other rule' start' stop' hother ↦ ?_⟩
        · rintro _ _ _ ⟨⟩
          exact Or.inl (Nat.lt_of_not_le hgt)
        · have := hleast other _ _ _ hother
          omega

theorem eq_of_key_eq {a b : Emission} (ha : a ∈ candidates slots) (hb : b ∈ candidates slots)
    (h : a.key = b.key) : a = b := by
  obtain ⟨rule, hslot, hkind⟩ := mem_candidates.mp ha
  obtain ⟨rule', hslot', hkind'⟩ := mem_candidates.mp hb
  obtain ⟨hstart, hrule⟩ := Prod.mk.inj (toLex.injective h)
  obtain ⟨place, start, stop, kind⟩ := a
  obtain ⟨place', start', stop', kind'⟩ := b
  dsimp only at *
  subst hrule hstart
  rw [hslot] at hslot'
  cases hslot'
  rw [hkind, hkind']

theorem winner?_eq_some {emission : Emission} (hmem : emission ∈ candidates slots)
    (hmin : ∀ other ∈ candidates slots, emission.key ≤ other.key) :
    winner? slots = some emission := by
  cases hwinner : winner? slots with
  | none =>
    rw [List.argmin_eq_none.mp hwinner] at hmem
    nomatch hmem
  | some other =>
    have hother : other ∈ candidates slots := List.argmin_mem hwinner
    have hle : other.key ≤ emission.key := List.le_of_mem_argmin hmem hwinner
    exact congrArg some (eq_of_key_eq hother hmem (le_antisymm hle (hmin other hother)))

/-- The least of the finds, by start and place, is the one that the tokenizer takes. -/
theorem token_winner? (slots : List Slot) : (winner? slots).map (·.token) =
    (earliest? slots).map fun (rule, start, stop) ↦ ⟨start, stop, rule.kind⟩ := by
  cases hearliest : earliest? slots with
  | none =>
    have hnone : candidates slots = [] := by
      refine List.eq_nil_iff_forall_not_mem.mpr fun emission hemission ↦ ?_
      obtain ⟨rule, hslot, -⟩ := mem_candidates.mp hemission
      nomatch next_eq_none_of_earliest? hearliest _ (List.mem_of_getElem? hslot)
    rw [winner?, hnone]
    rfl
  | some best =>
    obtain ⟨rule, start, stop⟩ := best
    obtain ⟨place, hplace, hleast⟩ := exists_of_earliest? hearliest
    have hmem : ⟨place, start, stop, rule.kind⟩ ∈ candidates slots :=
      mem_candidates.mpr ⟨rule, hplace, rfl⟩
    have hmin : ∀ other ∈ candidates slots, toLex (start, place) ≤ other.key := by
      intro other hother
      obtain ⟨rule', hslot, -⟩ := mem_candidates.mp hother
      exact Prod.Lex.toLex_le_toLex.mpr (hleast _ _ _ _ hslot)
    rw [winner?_eq_some hmem hmin]
    rfl

theorem map_token_emit (text : Array Char) (fuel pos : Nat) (slots : List Slot) :
    (emit text fuel pos slots).map (·.token) = scan text fuel pos slots := by
  induction fuel generalizing pos slots with
  | zero => rfl
  | succ fuel ih =>
    have htoken := token_winner? (refresh text pos slots)
    unfold emit scan
    dsimp only
    cases hwinner : winner? (refresh text pos slots) with
    | none =>
      rw [hwinner, Option.map_none, eq_comm, Option.map_eq_none_iff] at htoken
      rw [htoken]
      rfl
    | some emission =>
      rw [hwinner, Option.map_some, eq_comm, Option.map_eq_some_iff] at htoken
      obtain ⟨⟨rule, start, stop⟩, hearliest, htoken⟩ := htoken
      rw [hearliest]
      dsimp only
      rw [List.map_cons, ← htoken, ih]

/-! ## What is kept of each rule -/

/-- The scan has come to a place. Some of the rules without a group are followed: what is kept of
them is their first match from some place that was passed. -/
structure Scanning (grammar : Grammar) (text : Array Char) (followed : Rule → Prop) (pos : Nat)
    (slots : List Slot) : Prop where
  rules : slots.map (·.1) = grammar
  whole : ∀ rule ∈ grammar, followed rule → rule.group = none
  ahead : Ahead text 0 slots
  le_size : pos ≤ text.size
  found : ∀ slot ∈ slots, ∀ next ∈ slot.2, ∃ from_ ≤ text.size, slot.1.find? text from_ = some next
  kept : ∀ slot ∈ slots, followed slot.1 → ∃ from_ ≤ pos, slot.2 = slot.1.firstMatch? text from_

/-- The patterns of the rules without a group are found at their leftmost matches. -/
def Leftmost (grammar : Grammar) (text : Array Char) : Prop :=
  ∀ rule ∈ grammar, rule.group = none → rule.pattern.Leftmost text

/-- The patterns of the rules that are followed are found at their leftmost matches. -/
def LeftmostOf (grammar : Grammar) (text : Array Char) (followed : Rule → Prop) : Prop :=
  ∀ rule ∈ grammar, followed rule → rule.pattern.Leftmost text

instance (grammar : Grammar) (text : Array Char) : Decidable (grammar.Leftmost text) :=
  inferInstanceAs (Decidable (∀ rule ∈ grammar, rule.group = none → rule.pattern.Leftmost text))

theorem scanning_of_followed (hwhole : ∀ rule ∈ grammar, followed rule → rule.group = none)
    (hleftmost : grammar.LeftmostOf text followed) :
    Scanning grammar text followed 0 (grammar.map fun rule ↦ (rule, rule.find? text 0)) where
  rules := by
    rw [List.map_map]
    exact List.map_id _
  whole := hwhole
  ahead := ahead_initial grammar text
  le_size := Nat.zero_le _
  found := by
    intro slot hslot next hnext
    obtain ⟨rule, -, rfl⟩ := List.mem_map.mp hslot
    exact ⟨0, Nat.zero_le _, hnext⟩
  kept := by
    intro slot hslot hfollowed
    obtain ⟨rule, hrule, rfl⟩ := List.mem_map.mp hslot
    exact ⟨0, Nat.le_refl 0, Rule.find?_eq_firstMatch? (hwhole rule hrule hfollowed)
      (hleftmost rule hrule hfollowed) (Nat.zero_le _)⟩

/-- All rules without a group can be followed if all of them are found at their leftmost matches. -/
theorem scanning_initial (h : grammar.Leftmost text) :
    Scanning grammar text (fun rule ↦ rule.group = none) 0
      (grammar.map fun rule ↦ (rule, rule.find? text 0)) :=
  scanning_of_followed (fun _ _ hgroup ↦ hgroup) h

theorem rules_refresh (text : Array Char) (pos : Nat) (slots : List Slot) :
    (refresh text pos slots).map (·.1) = slots.map (·.1) := by
  rw [refresh, List.map_map]
  refine List.map_congr_left fun slot _ ↦ ?_
  obtain ⟨rule, next⟩ := slot
  cases next with
  | none => rfl
  | some found =>
    dsimp only [Function.comp]
    split <;> rfl

/-- What is kept of a rule that is followed is never out of date: it is the first match from the
place of the scan. -/
theorem Scanning.next_eq (h : Scanning grammar text followed pos slots)
    (hleftmost : grammar.LeftmostOf text followed) :
    ∀ slot ∈ refresh text pos slots, followed slot.1 → slot.2 = slot.1.firstMatch? text pos := by
  intro slot hslot hfollowed
  obtain ⟨⟨rule, next⟩, hmem, rfl⟩ := List.mem_map.mp hslot
  have hrule : rule ∈ grammar := h.rules ▸ List.mem_map_of_mem hmem
  cases next with
  | none =>
    obtain ⟨from_, hfrom, hnext⟩ := h.kept _ hmem hfollowed
    have hnone := firstFrom_eq_none_iff.mp hnext.symm
    exact (firstFrom_eq_none_iff.mpr fun place hplace ↦
      hnone place (Nat.le_trans hfrom hplace)).symm
  | some found =>
    obtain ⟨start, stop⟩ := found
    dsimp only at hfollowed ⊢
    split at hfollowed
    · rename_i hpassed
      rw [if_pos hpassed]
      exact Rule.find?_eq_firstMatch? (h.whole rule hrule hfollowed)
        (hleftmost rule hrule hfollowed) h.le_size
    · rename_i hahead
      rw [if_neg hahead]
      obtain ⟨from_, hfrom, hnext⟩ := h.kept _ hmem hfollowed
      dsimp only at hnext
      obtain ⟨-, hbefore⟩ := Rule.matchAt?_of_firstMatch? hnext.symm
      rw [hnext]
      exact firstFrom_skip hfrom fun other hother hlt ↦ hbefore other hother (by dsimp only; omega)

theorem Scanning.found_refresh (h : Scanning grammar text followed pos slots) :
    ∀ slot ∈ refresh text pos slots, ∀ next ∈ slot.2,
      ∃ from_ ≤ text.size, slot.1.find? text from_ = some next := by
  intro slot hslot next hnext
  obtain ⟨⟨rule, kept⟩, hmem, rfl⟩ := List.mem_map.mp hslot
  cases kept with
  | none => nomatch hnext
  | some kept =>
    dsimp only at hnext ⊢
    split at hnext
    · rename_i hpassed
      rw [if_pos hpassed]
      exact ⟨pos, h.le_size, hnext⟩
    · rename_i hahead
      rw [if_neg hahead]
      exact h.found _ hmem next hnext

section Step

variable {emission : Emission}

/-- What the scan takes is not empty and lies ahead. -/
theorem Scanning.bounds (h : Scanning grammar text followed pos slots)
    (hwinner : winner? (refresh text pos slots) = some emission) :
    pos ≤ emission.token.start ∧ emission.token.start < emission.token.stop ∧
      emission.token.stop ≤ text.size := by
  obtain ⟨rule, hslot, -⟩ := mem_candidates.mp (List.argmin_mem hwinner)
  exact h.ahead.refresh pos _ (List.mem_of_getElem? hslot) _ rfl

theorem Scanning.step (h : Scanning grammar text followed pos slots)
    (hleftmost : grammar.LeftmostOf text followed)
    (hwinner : winner? (refresh text pos slots) = some emission) :
    Scanning grammar text followed emission.token.stop (refresh text pos slots) := by
  obtain ⟨hstart, hlt, hsize⟩ := h.bounds hwinner
  exact {
    rules := (rules_refresh text pos slots).trans h.rules
    whole := h.whole
    ahead := (h.ahead.refresh pos).mono
    le_size := hsize
    found := h.found_refresh
    kept := fun slot hslot hfollowed ↦
      ⟨pos, by omega, h.next_eq hleftmost slot hslot hfollowed⟩ }

theorem Scanning.rule_eq (h : Scanning grammar text followed pos slots) {place : Nat} {slot : Slot}
    (hslot : (refresh text pos slots)[place]? = some slot) : grammar[place]? = some slot.1 := by
  rw [← h.rules, ← rules_refresh text pos slots, List.getElem?_map, hslot]
  rfl

/-- A token comes from a rule of its kind. From a rule that is followed it is the match. -/
theorem Scanning.origin (h : Scanning grammar text followed pos slots)
    (hleftmost : grammar.LeftmostOf text followed)
    (hwinner : winner? (refresh text pos slots) = some emission) :
    ∃ rule, grammar[emission.rule]? = some rule ∧ emission.token.kind = rule.kind ∧
      (followed rule → rule.matchAt? text emission.token.start =
        some (emission.token.start, emission.token.stop)) := by
  obtain ⟨rule, hslot, hkind⟩ := mem_candidates.mp (List.argmin_mem hwinner)
  refine ⟨rule, h.rule_eq hslot, hkind, fun hfollowed ↦ ?_⟩
  have hnext := h.next_eq hleftmost _ (List.mem_of_getElem? hslot) hfollowed
  exact (Rule.matchAt?_of_firstMatch? hnext.symm).1

/-- A token was found by a rule of its kind. -/
theorem Scanning.source (h : Scanning grammar text followed pos slots)
    (hwinner : winner? (refresh text pos slots) = some emission) :
    ∃ rule, grammar[emission.rule]? = some rule ∧ emission.token.kind = rule.kind ∧
      ∃ from_ ≤ text.size,
        rule.find? text from_ = some (emission.token.start, emission.token.stop) := by
  obtain ⟨rule, hslot, hkind⟩ := mem_candidates.mp (List.argmin_mem hwinner)
  exact ⟨rule, h.rule_eq hslot, hkind, h.found_refresh _ (List.mem_of_getElem? hslot) _ rfl⟩

/-- No match of a rule that is followed is overlooked: what is taken starts there or before, and
where it starts there, it comes from that rule or one that stands before it. -/
theorem Scanning.exists_winner (h : Scanning grammar text followed pos slots)
    (hleftmost : grammar.LeftmostOf text followed) {place offset : Nat} {rule : Rule}
    {found : Nat × Nat} (hrule : grammar[place]? = some rule) (hfollowed : followed rule)
    (hpos : pos ≤ offset) (hsize : offset ≤ text.size)
    (hfound : rule.matchAt? text offset = some found) :
    ∃ emission, winner? (refresh text pos slots) = some emission ∧
      emission.token.start ≤ offset ∧ (emission.token.start = offset → emission.rule ≤ place ∧
        (emission.rule = place → (emission.token.start, emission.token.stop) = found)) := by
  rw [← h.rules, ← rules_refresh text pos slots, List.getElem?_map, Option.map_eq_some_iff] at hrule
  obtain ⟨⟨rule, next⟩, hslot, rfl⟩ := hrule
  have hnext := h.next_eq hleftmost _ (List.mem_of_getElem? hslot) hfollowed
  dsimp only at hnext hfound
  cases hfirst : rule.firstMatch? text pos with
  | none =>
    rw [firstFrom_eq_none_iff.mp hfirst offset hpos hsize] at hfound
    nomatch hfound
  | some first =>
    obtain ⟨hat, hbefore⟩ := Rule.matchAt?_of_firstMatch? hfirst
    have hle : first.1 ≤ offset := by
      refine Nat.le_of_not_lt fun hlt ↦ ?_
      rw [hbefore offset hpos hlt] at hfound
      nomatch hfound
    rw [hnext, hfirst] at hslot
    have hmem : ⟨place, first.1, first.2, rule.kind⟩ ∈ candidates (refresh text pos slots) :=
      mem_candidates.mpr ⟨rule, hslot, rfl⟩
    cases hwinner : winner? (refresh text pos slots) with
    | none =>
      rw [List.argmin_eq_none.mp hwinner] at hmem
      nomatch hmem
    | some emission =>
      have hkey := Prod.Lex.toLex_le_toLex.mp (List.le_of_mem_argmin hmem hwinner)
      dsimp only at hkey
      refine ⟨emission, rfl, by omega, fun hoffset ↦ ⟨by omega, fun hplace ↦ ?_⟩⟩
      obtain ⟨other, hother, -⟩ := mem_candidates.mp (List.argmin_mem hwinner)
      rw [hplace, hslot] at hother
      cases hother
      rw [← hoffset] at hfound
      exact Option.some.inj (hat.symm.trans hfound)

end Step

/-! ## Whole scans -/

/-- What holds of each token that the scan takes holds of all tokens, and they lie ahead. -/
theorem forall_mem_emit (h : Scanning grammar text followed pos slots)
    (hleftmost : grammar.LeftmostOf text followed) {p : Emission → Prop}
    (hp : ∀ {pos slots emission}, Scanning grammar text followed pos slots →
      winner? (refresh text pos slots) = some emission → p emission) :
    ∀ emission ∈ emit text fuel pos slots, pos ≤ emission.token.start ∧ p emission := by
  induction fuel generalizing pos slots with
  | zero => nofun
  | succ fuel ih =>
    unfold emit
    dsimp only
    cases hwinner : winner? (refresh text pos slots) with
    | none => nofun
    | some first =>
      obtain ⟨hpos, hlt, -⟩ := h.bounds hwinner
      refine List.forall_mem_cons.mpr ⟨⟨hpos, hp h hwinner⟩, fun emission hmem ↦ ?_⟩
      obtain ⟨hstart, hholds⟩ := ih (h.step hleftmost hwinner) emission hmem
      exact ⟨by omega, hholds⟩

theorem origin_of_mem_emit (h : Scanning grammar text followed pos slots)
    (hleftmost : grammar.LeftmostOf text followed) :
    ∀ emission ∈ emit text fuel pos slots,
      pos ≤ emission.token.start ∧
      ∃ rule, grammar[emission.rule]? = some rule ∧ emission.token.kind = rule.kind ∧
        (followed rule → rule.matchAt? text emission.token.start =
          some (emission.token.start, emission.token.stop)) :=
  forall_mem_emit h hleftmost fun h hwinner ↦ h.origin hleftmost hwinner

theorem exists_emit_of_match (h : Scanning grammar text followed pos slots)
    (hleftmost : grammar.LeftmostOf text followed) (hfuel : text.size - pos < fuel)
    {place offset : Nat} {rule : Rule} {found : Nat × Nat} (hrule : grammar[place]? = some rule)
    (hfollowed : followed rule) (hpos : pos ≤ offset) (hsize : offset ≤ text.size)
    (hfound : rule.matchAt? text offset = some found) :
    (∃ emission ∈ emit text fuel pos slots, emission.token.contains offset = true) ∧
      ∀ emission ∈ emit text fuel pos slots, emission.token.start = offset →
        emission.rule ≤ place ∧
          (emission.rule = place → (emission.token.start, emission.token.stop) = found) := by
  induction fuel generalizing pos slots with
  | zero => nomatch hfuel
  | succ fuel ih =>
    obtain ⟨first, hwinner, hle, hfirst⟩ :=
      h.exists_winner hleftmost hrule hfollowed hpos hsize hfound
    obtain ⟨hstart, hlt, hstop⟩ := h.bounds hwinner
    have hstep := h.step hleftmost hwinner
    unfold emit
    dsimp only
    rw [hwinner]
    rcases Nat.lt_or_ge offset first.token.stop with hinside | hbehind
    · refine ⟨⟨first, List.mem_cons_self, Token.contains_iff.mpr ⟨hle, hinside⟩⟩, ?_⟩
      refine List.forall_mem_cons.mpr ⟨hfirst, fun emission hmem hoffset ↦ ?_⟩
      have hahead := (origin_of_mem_emit hstep hleftmost emission hmem).1
      omega
    · obtain ⟨⟨emission, hmem, hcontains⟩, hothers⟩ := ih hstep (by omega) hbehind
      exact ⟨⟨emission, List.mem_cons_of_mem _ hmem, hcontains⟩,
        List.forall_mem_cons.mpr ⟨hfirst, hothers⟩⟩

/-- If all rules are followed, searching again for all of them after each token makes no
difference. -/
theorem emit_eq_naiveScan (h : Scanning grammar text followed pos slots)
    (hleftmost : grammar.LeftmostOf text followed) (hall : ∀ rule ∈ grammar, followed rule) :
    emit text fuel pos slots = naiveScan grammar text fuel pos := by
  induction fuel generalizing pos slots with
  | zero => rfl
  | succ fuel ih =>
    have hslots : refresh text pos slots =
        grammar.map fun rule ↦ (rule, rule.firstMatch? text pos) := by
      rw [← h.rules, ← rules_refresh text pos slots, List.map_map]
      refine (List.map_id _).symm.trans (List.map_congr_left fun slot hslot ↦ ?_)
      have hrule : slot.1 ∈ grammar := by
        rw [← h.rules, ← rules_refresh text pos slots]
        exact List.mem_map_of_mem hslot
      exact Prod.ext rfl (h.next_eq hleftmost slot hslot (hall _ hrule))
    unfold emit naiveScan
    dsimp only
    rw [← hslots]
    cases hwinner : winner? (refresh text pos slots) with
    | none => rfl
    | some emission => exact congrArg (emission :: ·) (ih (h.step hleftmost hwinner))

theorem map_token_emissions (grammar : Grammar) (text : String) :
    (grammar.emissions text).map (·.token) = grammar.tokens text :=
  map_token_emit _ _ _ _

/-- Every token was found by a rule of its kind. -/
theorem exists_rule_of_mem_emissions {text : String} {emission : Emission}
    (h : emission ∈ grammar.emissions text) :
    ∃ rule, grammar[emission.rule]? = some rule ∧ emission.token.kind = rule.kind ∧
      ∃ from_ ≤ text.toList.length, rule.find? text.toList.toArray from_ =
        some (emission.token.start, emission.token.stop) := by
  have hinitial : Scanning grammar text.toList.toArray (fun _ ↦ False) 0
      (grammar.map fun rule ↦ (rule, rule.find? text.toList.toArray 0)) :=
    scanning_of_followed nofun nofun
  exact (forall_mem_emit hinitial nofun (fun h hwinner ↦ h.source hwinner) emission h).2

/-- Where a rule that can be followed has a match, a token begins that comes from that rule or one
that stands before it, unless a token from before reaches over that place. -/
theorem exists_emission_of_match {text : String} {place offset : Nat} {rule : Rule}
    {found : Nat × Nat} (hrule : grammar[place]? = some rule) (hgroup : rule.group = none)
    (hleftmost : rule.pattern.Leftmost text.toList.toArray) (hsize : offset ≤ text.toList.length)
    (hfound : rule.matchAt? text.toList.toArray offset = some found)
    (hearlier : ∀ token ∈ grammar.tokens text, token.start < offset →
      token.contains offset = false) :
    ∃ emission ∈ grammar.emissions text, emission.token.start = offset ∧ emission.rule ≤ place ∧
      (emission.rule = place → (emission.token.start, emission.token.stop) = found) := by
  have hfollowed : grammar.LeftmostOf text.toList.toArray (· = rule) := by
    rintro other - rfl
    exact hleftmost
  have hinitial : Scanning grammar text.toList.toArray (· = rule) 0
      (grammar.map fun rule ↦ (rule, rule.find? text.toList.toArray 0)) := by
    apply scanning_of_followed _ hfollowed
    rintro other - rfl
    exact hgroup
  obtain ⟨⟨emission, hemission, hcontains⟩, hstarts⟩ := exists_emit_of_match hinitial hfollowed
    (Nat.lt_succ_self _) hrule rfl (Nat.zero_le _) hsize hfound
  have htoken : emission.token ∈ grammar.tokens text := by
    rw [← map_token_emissions]
    exact List.mem_map_of_mem hemission
  have hstart : emission.token.start = offset := by
    have hle := (Token.contains_iff.mp hcontains).1
    refine Nat.le_antisymm hle (Nat.le_of_not_lt fun hlt ↦ ?_)
    rw [hearlier _ htoken hlt] at hcontains
    nomatch hcontains
  exact ⟨emission, hemission, hstart, hstarts emission hemission hstart⟩

/-- Where a rule without a group has a match that is not empty, the text is in a token; if the token
starts there, it comes from that rule or one that stands before it, and from that rule it is that
match. Each token of a rule without a group is the match of the rule. So the tokens of a grammar
without groups are those of a scanner that searches for all rules again after each token, and takes
the one that starts first, of several with one start that of the first rule. -/
theorem tokens_earliest_match (grammar : Grammar) (text : String)
    (hleftmost : grammar.Leftmost text.toList.toArray) :
    (grammar.emissions text).map (·.token) = grammar.tokens text ∧
    (∀ (place : Nat) (rule : Rule) (offset : Nat) (found : Nat × Nat),
      grammar[place]? = some rule → rule.group = none → offset ≤ text.toList.length →
      rule.matchAt? text.toList.toArray offset = some found →
      (∃ token ∈ grammar.tokens text, token.contains offset = true) ∧
        ∀ emission ∈ grammar.emissions text, emission.token.start = offset →
          emission.rule ≤ place ∧
            (emission.rule = place → (emission.token.start, emission.token.stop) = found)) ∧
    (∀ emission ∈ grammar.emissions text, ∃ rule, grammar[emission.rule]? = some rule ∧
      emission.token.kind = rule.kind ∧
      (rule.group = none → rule.matchAt? text.toList.toArray emission.token.start =
        some (emission.token.start, emission.token.stop))) ∧
    ((∀ rule ∈ grammar, rule.group = none) → grammar.tokens text = grammar.naiveTokens text) := by
  have hinitial := scanning_initial hleftmost
  have hmap : (grammar.emissions text).map (·.token) = grammar.tokens text := map_token_emit _ _ _ _
  refine ⟨hmap, fun place rule offset found hrule hgroup hsize hfound ↦ ?_,
    fun emission hmem ↦ (origin_of_mem_emit hinitial hleftmost emission hmem).2, fun hgroups ↦ ?_⟩
  · obtain ⟨⟨emission, hmem, hcontains⟩, hstarts⟩ := exists_emit_of_match hinitial hleftmost
      (Nat.lt_succ_self _) hrule hgroup (Nat.zero_le _) hsize hfound
    refine ⟨⟨emission.token, ?_, hcontains⟩, hstarts⟩
    rw [← hmap]
    exact List.mem_map_of_mem hmem
  · rw [← hmap]
    exact congrArg (List.map _) (emit_eq_naiveScan hinitial hleftmost hgroups)

/-- Two slashes inside of quotes match the rule for comments, but the quoted text starts before
them. -/
theorem tokens_earliest_match_quoted_slashes :
    let text := "g(\"//\")"
    swift.Leftmost text.toList.toArray ∧
      (swift[1]?.bind fun rule ↦ rule.matchAt? text.toList.toArray 3) = some (3, 7) ∧
      (∃ token ∈ swift.tokens text, token.contains 3 = true) ∧
      (swift.emissions text).map (·.rule) = [8, 3] ∧
      swift.tokens text = [⟨0, 1, .function⟩, ⟨2, 6, .string⟩] := by
  intro text
  have hleftmost : swift.Leftmost text.toList.toArray := by decide +kernel
  have hfound : (swift[1]?.bind fun rule ↦ rule.matchAt? text.toList.toArray 3) = some (3, 7) := by
    decide +kernel
  obtain ⟨rule, hrule, hmatch⟩ := Option.bind_eq_some_iff.mp hfound
  have hgroup : rule.group = none := by
    have : (swift[1]?.map (·.group)) = some none := by decide +kernel
    rw [hrule] at this
    exact Option.some.inj this
  obtain ⟨-, hinside, -⟩ := tokens_earliest_match swift text hleftmost
  exact ⟨hleftmost, hfound, (hinside 1 rule 3 _ hrule hgroup (by decide +kernel) hmatch).1,
    by decide +kernel, by decide +kernel⟩

end Grammar

end CodeEditor
