import CodeEditor.Highlight.Grammar
import CodeEditor.Proofs.Pattern.Bounds

/-!
# Where tokens lie

A rule finds pieces of the text that are not empty and lie ahead of where it looked from. So the
tokens of a text are not empty, follow one another without overlapping, and end within the text.
Each of them takes a character, and the fuel of the tokenizer is never used up.
-/

namespace CodeEditor

def Token.contains (token : Token) (offset : Nat) : Bool :=
  token.start ≤ offset && offset < token.stop

theorem Token.contains_iff {token : Token} {offset : Nat} :
    token.contains offset = true ↔ token.start ≤ offset ∧ offset < token.stop := by
  rw [Token.contains, Bool.and_eq_true, decide_eq_true_eq, decide_eq_true_eq]

variable {text : Array Char} {from_ pos fuel : Nat}

/-- Where a search goes on behind a match that it passes over. -/
def Match.behind? (text : Array Char) (found : Match) : Option Nat :=
  if found.start < found.stop then some found.stop
  else if found.stop < text.size then some (found.stop + 1) else none

theorem Match.Within.behind? {found : Match} (h : found.Within text from_)
    (hpos : found.behind? text = some pos) : from_ < pos ∧ pos ≤ text.size := by
  obtain ⟨hfrom, hle, hsize, -⟩ := h
  unfold Match.behind? at hpos
  split at hpos
  · cases hpos
    omega
  · split at hpos
    · cases hpos
      omega
    · nomatch hpos

/-- What is taken of a match, if that is not empty: the whole match, or one of its groups. -/
def Match.taken? (found : Match) (group : Option Nat) : Option (Nat × Nat) :=
  (found.group? (group.getD 0)).filter fun taken ↦ taken.1 < taken.2

theorem Match.Within.taken? {found : Match} (h : found.Within text from_) {group : Option Nat}
    {taken : Nat × Nat} (htaken : found.taken? group = some taken) :
    from_ ≤ taken.1 ∧ taken.1 < taken.2 ∧ taken.2 ≤ text.size := by
  obtain ⟨hgroup, hlt⟩ := Option.filter_eq_some_iff.mp htaken
  obtain ⟨hstart, -, hstop⟩ := h.group? hgroup
  exact ⟨Nat.le_trans h.from_le hstart, of_decide_eq_true hlt, Nat.le_trans hstop h.le_size⟩

namespace Rule

variable {rule : Rule} {found : Nat × Nat}

/-- What a rule takes of a match, if that is not empty. -/
def taken? (rule : Rule) (found : Match) : Option (Nat × Nat) :=
  found.taken? rule.group

theorem search_succ (rule : Rule) (text : Array Char) (fuel from_ : Nat) :
    rule.search text (fuel + 1) from_ = (rule.pattern.find? text from_).bind fun found ↦
      (rule.taken? found).or ((found.behind? text).bind (rule.search text fuel)) := by
  rw [search]
  cases rule.pattern.find? text from_ with
  | none => rfl
  | some found =>
    dsimp only
    rw [Option.bind_some, taken?, Match.taken?]
    cases found.group? (rule.group.getD 0) with
    | none => rfl
    | some taken =>
      by_cases hlt : taken.1 < taken.2
      · rw [Option.filter_some, if_pos (decide_eq_true hlt)]
        exact if_pos hlt
      · rw [Option.filter_some, if_neg (mt of_decide_eq_true hlt)]
        exact if_neg hlt

theorem bounds_taken? {whole : Match} (h : whole.Within text from_)
    (hfound : rule.taken? whole = some found) :
    from_ ≤ found.1 ∧ found.1 < found.2 ∧ found.2 ≤ text.size :=
  h.taken? hfound

theorem bounds_search (hfrom : from_ ≤ text.size)
    (h : rule.search text fuel from_ = some found) :
    from_ ≤ found.1 ∧ found.1 < found.2 ∧ found.2 ≤ text.size := by
  induction fuel generalizing from_ with
  | zero => nomatch h
  | succ fuel ih =>
    rw [search_succ] at h
    obtain ⟨whole, hwhole, h⟩ := Option.bind_eq_some_iff.mp h
    have hwithin := Pattern.within_find? hfrom hwhole
    obtain htaken | ⟨-, hrest⟩ := Option.or_eq_some_iff.mp h
    · exact bounds_taken? hwithin htaken
    · obtain ⟨pos, hpos, hrest⟩ := Option.bind_eq_some_iff.mp hrest
      obtain ⟨hlt, hsize⟩ := hwithin.behind? hpos
      obtain ⟨hstart, hbounds⟩ := ih hsize hrest
      exact ⟨by omega, hbounds⟩

/-- More fuel than there are characters left makes no difference to a search. -/
theorem search_congr (rule : Rule) {fuel' : Nat} (hfrom : from_ ≤ text.size)
    (hfuel : text.size - from_ < fuel) (hfuel' : text.size - from_ < fuel') :
    rule.search text fuel from_ = rule.search text fuel' from_ := by
  induction fuel generalizing fuel' from_ with
  | zero => nomatch hfuel
  | succ fuel ih =>
    cases fuel' with
    | zero => nomatch hfuel'
    | succ fuel' =>
      rw [search_succ, search_succ]
      cases hwhole : rule.pattern.find? text from_ with
      | none => rfl
      | some whole =>
        have hwithin := Pattern.within_find? hfrom hwhole
        rw [Option.bind_some, Option.bind_some]
        cases hbehind : whole.behind? text with
        | none => rfl
        | some pos =>
          obtain ⟨hlt, hsize⟩ := hwithin.behind? hbehind
          rw [Option.bind_some, Option.bind_some,
            ih hsize (by omega) (show text.size - pos < fuel' by omega)]

theorem bounds_find? (h : rule.find? text from_ = some found) :
    from_ ≤ found.1 ∧ found.1 < found.2 ∧ found.2 ≤ text.size := by
  unfold find? at h
  split at h
  · rename_i hfrom
    exact bounds_search hfrom h
  · nomatch h

end Rule

namespace Grammar

variable {slots : List Slot}

/-- The next finds are pieces of the text from a place on. -/
def Ahead (text : Array Char) (pos : Nat) (slots : List Slot) : Prop :=
  ∀ slot ∈ slots, ∀ found ∈ slot.2, pos ≤ found.1 ∧ found.1 < found.2 ∧ found.2 ≤ text.size

theorem ahead_initial (grammar : Grammar) (text : Array Char) :
    Ahead text 0 (grammar.map fun rule ↦ (rule, rule.find? text 0)) := by
  intro slot hslot found hfound
  obtain ⟨rule, -, rfl⟩ := List.mem_map.mp hslot
  exact Rule.bounds_find? hfound

theorem Ahead.refresh (h : Ahead text 0 slots) (pos : Nat) :
    Ahead text pos (refresh text pos slots) := by
  intro slot hslot found hfound
  obtain ⟨⟨rule, next⟩, hnext, rfl⟩ := List.mem_map.mp hslot
  cases next with
  | none => nomatch hfound
  | some next =>
    dsimp only at hfound
    split at hfound
    · exact Rule.bounds_find? hfound
    · cases hfound
      obtain ⟨-, hbounds⟩ := h _ hnext _ rfl
      exact ⟨by omega, hbounds⟩

theorem Ahead.mono (h : Ahead text pos slots) : Ahead text 0 slots := by
  intro slot hslot found hfound
  obtain ⟨-, hbounds⟩ := h slot hslot found hfound
  exact ⟨Nat.zero_le _, hbounds⟩

theorem mem_of_earliest? {rule : Rule} {start stop : Nat}
    (h : earliest? slots = some (rule, start, stop)) : (rule, some (start, stop)) ∈ slots := by
  induction slots with
  | nil => nomatch h
  | cons slot rest ih =>
    obtain ⟨first, next⟩ := slot
    unfold earliest? at h
    split at h
    · exact List.mem_cons_of_mem _ (ih h)
    · cases h
      exact List.mem_cons_self
    · rename_i hbest
      split at h
      · cases h
        exact List.mem_cons_self
      · cases h
        exact List.mem_cons_of_mem _ (ih hbest)

/-- None of the tokens is empty, and each begins where the one before ends or behind that. -/
def Consecutive (size : Nat) : (pos : Nat) → List Token → Prop
  | _, [] => True
  | pos, token :: rest =>
    pos ≤ token.start ∧ token.start < token.stop ∧ token.stop ≤ size ∧
      Consecutive size token.stop rest

section

variable {size offset : Nat} {tokens : List Token}

theorem Consecutive.bounds (h : Consecutive size pos tokens) :
    ∀ token ∈ tokens, pos ≤ token.start ∧ token.start < token.stop ∧ token.stop ≤ size := by
  induction tokens generalizing pos with
  | nil => nofun
  | cons first rest ih =>
    obtain ⟨hpos, hlt, hsize, hrest⟩ := h
    intro token htoken
    obtain rfl | htoken := List.mem_cons.mp htoken
    · exact ⟨hpos, hlt, hsize⟩
    · obtain ⟨hstart, hbounds⟩ := ih hrest token htoken
      exact ⟨by omega, hbounds⟩

/-- At most one token contains an offset. -/
theorem Consecutive.find?_eq_some (h : Consecutive size pos tokens) {token : Token}
    (htoken : token ∈ tokens) (hoffset : token.contains offset = true) :
    tokens.find? (·.contains offset) = some token := by
  induction tokens generalizing pos with
  | nil => nomatch htoken
  | cons first rest ih =>
    obtain ⟨hpos, hlt, hsize, hrest⟩ := h
    obtain rfl | htoken := List.mem_cons.mp htoken
    · exact List.find?_cons_of_pos hoffset
    · obtain ⟨hstart, -⟩ := hrest.bounds token htoken
      have hbefore : first.contains offset = false := by
        rw [Token.contains_iff] at hoffset
        rw [← Bool.not_eq_true, Token.contains_iff]
        omega
      rw [List.find?_cons, hbefore]
      exact ih hrest htoken

end

theorem consecutive_scan (h : Ahead text 0 slots) :
    Consecutive text.size pos (scan text fuel pos slots) := by
  induction fuel generalizing pos slots with
  | zero => trivial
  | succ fuel ih =>
    have hahead := h.refresh pos
    unfold scan
    dsimp only
    split
    · trivial
    · rename_i rule start stop hearliest
      obtain ⟨hpos, hlt, hsize⟩ := hahead _ (mem_of_earliest? hearliest) _ rfl
      exact ⟨hpos, hlt, hsize, ih hahead.mono⟩

/-- More fuel than there are characters left makes no difference to the tokens. -/
theorem scan_congr {fuel' : Nat} (h : Ahead text 0 slots) (hfuel : text.size - pos < fuel)
    (hfuel' : text.size - pos < fuel') : scan text fuel pos slots = scan text fuel' pos slots := by
  induction fuel generalizing fuel' pos slots with
  | zero => nomatch hfuel
  | succ fuel ih =>
    cases fuel' with
    | zero => nomatch hfuel'
    | succ fuel' =>
      have hahead := h.refresh pos
      unfold scan
      dsimp only
      split
      · rfl
      · rename_i rule start stop hearliest
        obtain ⟨hpos, hlt, hsize⟩ := hahead _ (mem_of_earliest? hearliest) _ rfl
        rw [ih hahead.mono (by omega) (show text.size - stop < fuel' by omega)]

theorem consecutive_tokens (grammar : Grammar) (text : String) :
    Consecutive text.toList.length 0 (grammar.tokens text) :=
  consecutive_scan (ahead_initial grammar text.toList.toArray)

end Grammar

end CodeEditor
