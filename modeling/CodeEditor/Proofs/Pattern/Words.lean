import CodeEditor.Highlight.Builtin
import CodeEditor.Proofs.Pattern.Leftmost

/-!
# Patterns of words

A pattern without marks tries nothing in vain that it would have to remember: its preferred way from
a place depends on the text and the place alone, so it is found where it first matches. Such are the
patterns of keywords, which take the first of their words that stands between two word boundaries.
As the words consist of word characters, what stands there is a maximal run of them; so at most one
word of the list can be meant, even if other words are prefixes of it. Patterns that begin with a
mark instead find nothing where a word begins.
-/

namespace CodeEditor

variable {text : Array Char} {start stop pos : Nat} {cursor : Cursor}

/-! ## Patterns without marks -/

/-- An exploration that notes nothing. -/
def Outcome.ofOption (tried : Tried) : Option Cursor → Outcome
  | some reached => found reached
  | none => failed tried

namespace Pattern

/-- Whether no choice carries a mark and nothing is repeated. -/
def unmarked : Pattern → Bool
  | empty | one _ | check _ => true
  | seq first second => first.unmarked && second.unmarked
  | either mark preferred other => mark.isNone && preferred.unmarked && other.unmarked
  | group _ body => body.unmarked
  | more .. | copies .. | upTo .. => false

/-- The preferred way through a pattern without marks that is accepted by what follows. -/
def way? (text : Array Char) : Pattern → Cursor → (Cursor → Option Cursor) → Option Cursor
  | empty, cursor, next => next cursor
  | one accepted, cursor, next =>
    if text[cursor.pos]?.any accepted.contains then next cursor.advance else none
  | check assertion, cursor, next =>
    if assertion.holds text cursor.pos then next cursor else none
  | seq first second, cursor, next =>
    first.way? text cursor fun reached ↦ second.way? text reached next
  | either _ preferred other, cursor, next =>
    (preferred.way? text cursor next).or (other.way? text cursor next)
  | group index body, cursor, next =>
    body.way? text cursor fun reached ↦ next (reached.close index cursor.pos)
  | more .., _, _ | copies .., _, _ | upTo .., _, _ => none

theorem run_of_unmarked {pattern : Pattern} (h : pattern.unmarked = true) {shift : Nat}
    {tried : Tried} {next : Continuation} {accepts : Cursor → Option Cursor}
    (hnext : ∀ reached tried, next reached tried = .ofOption tried (accepts reached)) :
    pattern.run text shift cursor tried next =
      .ofOption tried (pattern.way? text cursor accepts) := by
  induction pattern generalizing cursor tried next accepts with
  | empty => exact hnext cursor tried
  | one accepted =>
    rw [run, way?]
    cases text[cursor.pos]? with
    | none => rfl
    | some c =>
      dsimp only [Option.any_some]
      split
      · exact hnext _ _
      · rfl
  | check assertion =>
    rw [run, way?]
    split
    · exact hnext _ _
    · rfl
  | seq first second ihFirst ihSecond =>
    rw [unmarked, Bool.and_eq_true] at h
    exact ihFirst h.1 fun reached tried ↦ ihSecond h.2 hnext
  | either mark preferred other ihPreferred ihOther =>
    cases mark with
    | some mark => nomatch h
    | none =>
      simp only [unmarked, Option.isNone_none, Bool.true_and, Bool.and_eq_true] at h
      rw [run, way?]
      simp only [Option.map_none, Outcome.choose, Outcome.firstOf, ihPreferred h.1 hnext,
        ihOther h.2 hnext]
      cases preferred.way? text cursor accepts <;> rfl
  | group index body ih => exact ih h fun reached tried ↦ hnext _ _
  | more => nomatch h
  | copies => nomatch h
  | upTo => nomatch h

/-- The preferred way from a place, up to the end of the pattern. -/
theorem runFrom_of_unmarked {pattern : Pattern} (h : pattern.unmarked = true) (start : Nat)
    (tried : Tried) : pattern.runFrom text start tried =
      .ofOption tried (pattern.way? text ⟨start, []⟩ some) :=
  run_of_unmarked h fun _ _ ↦ rfl

theorem matchAt?_of_unmarked {pattern : Pattern} (h : pattern.unmarked = true) (start : Nat) :
    pattern.matchAt? text start = (pattern.way? text ⟨start, []⟩ some).map fun reached ↦
      ⟨start, reached.pos, reached.captures⟩ := by
  rw [matchAt?, runFrom_of_unmarked h]
  cases pattern.way? text ⟨start, []⟩ some <;> rfl

/-- What was tried from earlier places makes no difference. -/
theorem findWithin_of_unmarked {pattern : Pattern} (h : pattern.unmarked = true)
    (places start : Nat) (tried : Tried) : pattern.findWithin text places start tried =
      (List.range' start places).findSome? (pattern.matchAt? text) := by
  induction places generalizing start tried with
  | zero => rfl
  | succ places ih =>
    rw [findWithin, List.range'_succ, List.findSome?_cons, runFrom_of_unmarked h,
      matchAt?_of_unmarked h]
    cases pattern.way? text ⟨start, []⟩ some with
    | some reached => rfl
    | none => exact ih _ _

theorem leftmost_of_unmarked {pattern : Pattern} (h : pattern.unmarked = true) :
    pattern.Leftmost text :=
  fun _ _ ↦ findWithin_of_unmarked h _ _ _

/-! ## One of several words -/

/-- The characters one after the other. -/
def literal : List Char → Pattern
  | [] => empty
  | [c] => one (.single c)
  | c :: rest => seq (one (.single c)) (literal rest)

/-- The first of the words that fits. -/
def firstOfWords : List (List Char) → Pattern
  | [] => one .nothing
  | [word] => literal word
  | word :: rest => either none (literal word) (firstOfWords rest)

theorem unmarked_literal (word : List Char) : (literal word).unmarked = true := by
  induction word with
  | nil => rfl
  | cons c rest ih =>
    cases rest with
    | nil => rfl
    | cons d rest => exact ih

theorem unmarked_firstOfWords (words : List (List Char)) :
    (firstOfWords words).unmarked = true := by
  induction words with
  | nil => rfl
  | cons word rest ih =>
    cases rest with
    | nil => exact unmarked_literal word
    | cons another rest =>
      rw [firstOfWords, unmarked, unmarked_literal, ih]
      · rfl
      · nofun

/-- The characters stand in the text from a place on. -/
def spelledAt (text : Array Char) : List Char → (pos : Nat) → Bool
  | [], _ => true
  | c :: rest, pos => text[pos]? == some c && spelledAt text rest (pos + 1)

theorem way?_single (c : Char) (cursor : Cursor) (next : Cursor → Option Cursor) :
    (one (.single c)).way? text cursor next =
      if text[cursor.pos]? == some c then next cursor.advance else none := by
  rw [way?]
  cases text[cursor.pos]? with
  | none => rfl
  | some d =>
    rw [Option.any_some, CharClass.contains_single]
    by_cases hsame : c = d
    · simp [hsame]
    · simp [hsame, Ne.symm hsame]

theorem way?_literal (word : List Char) (cursor : Cursor) (next : Cursor → Option Cursor) :
    (literal word).way? text cursor next =
      if spelledAt text word cursor.pos then next { cursor with pos := cursor.pos + word.length }
      else none := by
  induction word generalizing cursor with
  | nil => rfl
  | cons c rest ih =>
    cases rest with
    | nil =>
      rw [literal, way?_single]
      simp [spelledAt, Cursor.advance]
    | cons d rest =>
      have hlength : cursor.pos + (c :: d :: rest).length =
          cursor.advance.pos + (d :: rest).length := by
        simp only [List.length_cons, Cursor.advance]
        omega
      have hspelled : spelledAt text (c :: d :: rest) cursor.pos =
          (text[cursor.pos]? == some c && spelledAt text (d :: rest) cursor.advance.pos) := rfl
      rw [literal, way?, way?_single, ih, hlength, hspelled]
      · cases text[cursor.pos]? == some c <;> rfl
      · nofun

theorem way?_firstOfWords (words : List (List Char)) (cursor : Cursor)
    (next : Cursor → Option Cursor) :
    (firstOfWords words).way? text cursor next =
      words.findSome? fun word ↦ (literal word).way? text cursor next := by
  induction words with
  | nil =>
    rw [firstOfWords, way?]
    cases text[cursor.pos]? <;> rfl
  | cons word rest ih =>
    rw [List.findSome?_cons]
    cases rest with
    | nil =>
      rw [firstOfWords]
      cases (literal word).way? text cursor next <;> rfl
    | cons another rest =>
      rw [firstOfWords, way?, ih]
      · cases (literal word).way? text cursor next <;> rfl
      · nofun

end Pattern

/-! ## Keywords -/

namespace Expression

theorem markedParts_char (marking : Bool) (word : List Char) (next : Nat) :
    markedParts marking (word.map char) next = (Pattern.literal word, next) := by
  induction word with
  | nil => rfl
  | cons c rest ih =>
    cases rest with
    | nil => rfl
    | cons d rest =>
      have hfirst : (char c).marked marking next = (.one (.single c), next) := rfl
      have hchoice : (marking || (char c).hasChoice) = marking := Bool.or_false marking
      rw [List.map_cons] at ih ⊢
      rw [List.map_cons, markedParts, hfirst, hchoice]
      · dsimp only
        rw [ih]
        rfl
      · nofun

theorem markedBranches_literal (words : List String) (next : Nat) :
    markedBranches false (words.map literal) next =
      (Pattern.firstOfWords (words.map String.toList), next) := by
  induction words with
  | nil => rfl
  | cons word rest ih =>
    have hword : (literal word).marked false next = (Pattern.literal word.toList, next) :=
      markedParts_char false word.toList next
    cases rest with
    | nil => exact hword
    | cons another rest =>
      rw [List.map_cons] at ih ⊢
      rw [List.map_cons, markedBranches, markFrom]
      · simp only [hword, ih, Bool.false_eq_true, if_false]
        rfl
      · nofun

end Expression

/-- The pattern of keywords: the first of the words that fits, between word boundaries. -/
theorem toPattern_keywords (words : List String) : (Grammar.keywords words).toPattern =
    .seq (.check .wordBoundary)
      (.seq (.firstOfWords (words.map String.toList)) (.check .wordBoundary)) := by
  have hbranches := Expression.markedBranches_literal words 0
  simp only [Grammar.keywords, Grammar.wholeWord, Grammar.wordBoundary, Expression.toPattern,
    Expression.marked, Expression.markedParts, Expression.hasChoice, Bool.or_false, hbranches]

/-! ## Maximal runs of word characters -/

/-- The characters from one place up to another are word characters, and next to them are none. -/
structure WordRun (text : Array Char) (start stop : Nat) : Prop where
  lt : start < stop
  word : ∀ place, start ≤ place → place < stop → Assertion.isWordAt text place = true
  before : Assertion.isWordBefore text start = false
  behind : Assertion.isWordAt text stop = false

namespace WordRun

theorem le_of_behind {other : Nat} (h : WordRun text start stop)
    (hbehind : Assertion.isWordAt text other = false) (hlt : start < other) : stop ≤ other := by
  refine Nat.le_of_not_lt fun hinside ↦ ?_
  rw [h.word other (Nat.le_of_lt hlt) hinside] at hbehind
  nomatch hbehind

theorem le_size (h : WordRun text start stop) : stop ≤ text.size := by
  have hlt := h.lt
  have hlast := h.word (stop - 1) (by omega) (by omega)
  refine Nat.le_of_not_lt fun hgt ↦ ?_
  rw [Assertion.isWordAt, Array.getElem?_eq_none (by omega)] at hlast
  nomatch hlast

/-- At most one run begins at a place. -/
theorem unique {other : Nat} (h : WordRun text start stop) (hother : WordRun text start other) :
    stop = other :=
  Nat.le_antisymm (h.le_of_behind hother.behind hother.lt) (hother.le_of_behind h.behind h.lt)

theorem boundary_start (h : WordRun text start stop) :
    Assertion.wordBoundary.holds text start = true := by
  rw [Assertion.holds, h.before, h.word start (Nat.le_refl _) h.lt]
  rfl

/-- A place behind a word character. -/
theorem isWordBefore_of_word (hlt : start < stop)
    (hword : ∀ place, start ≤ place → place < stop → Assertion.isWordAt text place = true) :
    Assertion.isWordBefore text stop = true := by
  rw [Assertion.isWordBefore, hword (stop - 1) (by omega) (by omega)]
  simpa using Nat.ne_of_gt (Nat.zero_lt_of_lt hlt)

theorem boundary_stop (h : WordRun text start stop) :
    Assertion.wordBoundary.holds text stop = true := by
  rw [Assertion.holds, isWordBefore_of_word h.lt h.word, h.behind]
  rfl

/-- Word characters between two word boundaries are a maximal run. -/
theorem of_boundaries (hlt : start < stop)
    (hword : ∀ place, start ≤ place → place < stop → Assertion.isWordAt text place = true)
    (hstart : Assertion.wordBoundary.holds text start = true)
    (hstop : Assertion.wordBoundary.holds text stop = true) : WordRun text start stop := by
  rw [Assertion.holds, hword start (Nat.le_refl _) hlt] at hstart
  rw [Assertion.holds, isWordBefore_of_word hlt hword] at hstop
  exact ⟨hlt, hword, by simpa using hstart, by simpa using hstop⟩

end WordRun

namespace Pattern

theorem spelledAt_iff {word : List Char} :
    spelledAt text word pos = true ↔ word <+: text.toList.drop pos := by
  induction word generalizing pos with
  | nil => simp [spelledAt]
  | cons c rest ih =>
    rw [spelledAt, Bool.and_eq_true, beq_iff_eq, ih, ← Array.getElem?_toList]
    rcases Nat.lt_or_ge pos text.toList.length with hinside | hend
    · rw [List.drop_eq_getElem_cons hinside, List.cons_prefix_cons,
        List.getElem?_eq_getElem hinside, Option.some.injEq, eq_comm]
    · rw [List.drop_eq_nil_of_le hend, List.getElem?_eq_none hend]
      simp

theorem take_of_spelledAt {word : List Char} (h : spelledAt text word pos = true) :
    (text.toList.drop pos).take word.length = word :=
  (List.prefix_iff_eq_take.mp (spelledAt_iff.mp h)).symm

theorem isWordAt_of_spelledAt {word : List Char} (h : spelledAt text word start = true)
    (hword : ∀ c ∈ word, Unicode.isWord c = true) {place : Nat} (hstart : start ≤ place)
    (hplace : place < start + word.length) : Assertion.isWordAt text place = true := by
  obtain ⟨index, rfl⟩ := Nat.exists_eq_add_of_le hstart
  have hindex : index < word.length := by omega
  have hchar : text[start + index]? = some word[index] := by
    have htake : ((text.toList.drop start).take word.length)[index]? = word[index]? := by
      rw [take_of_spelledAt h]
    rw [List.getElem?_take_of_lt hindex, List.getElem?_drop, List.getElem?_eq_getElem hindex,
      Array.getElem?_toList] at htake
    exact htake
  rw [Assertion.isWordAt, hchar, Option.any_some]
  exact hword _ (List.getElem_mem hindex)

end Pattern

/-- The characters from a place up to another, as a text of their own. -/
def pieceOf (text : Array Char) (start stop : Nat) : String :=
  String.ofList ((text.toList.drop start).take (stop - start))

/-- The words consist of word characters, and none of them is empty. -/
def AreWords (words : List String) : Prop :=
  ∀ word ∈ words, word.toList ≠ [] ∧ word.toList.all Unicode.isWord = true

instance (words : List String) : Decidable (AreWords words) :=
  inferInstanceAs (Decidable (∀ word ∈ words, word.toList ≠ [] ∧
    word.toList.all Unicode.isWord = true))

theorem unmarked_keywords (words : List String) :
    (Grammar.keywords words).toPattern.unmarked = true := by
  rw [toPattern_keywords]
  simp [Pattern.unmarked, Pattern.unmarked_firstOfWords]

theorem way?_keywords (words : List String) (start : Nat) :
    (Grammar.keywords words).toPattern.way? text ⟨start, []⟩ some =
      if Assertion.wordBoundary.holds text start then
        words.findSome? fun word ↦
          if Pattern.spelledAt text word.toList start then
            if Assertion.wordBoundary.holds text (start + word.toList.length) then
              some ⟨start + word.toList.length, []⟩
            else none
          else none
      else none := by
  simp only [toPattern_keywords, Pattern.way?, Pattern.way?_firstOfWords, Pattern.way?_literal,
    List.findSome?_map, Function.comp_def]

/-- What the pattern of keywords takes is a maximal run of word characters, one of the words. -/
theorem wordRun_of_way? {words : List String} (hwords : AreWords words) {reached : Cursor}
    (h : (Grammar.keywords words).toPattern.way? text ⟨start, []⟩ some = some reached) :
    WordRun text start reached.pos ∧ reached.captures = [] ∧
      pieceOf text start reached.pos ∈ words := by
  rw [way?_keywords, Option.ite_none_right_eq_some] at h
  obtain ⟨hstart, h⟩ := h
  obtain ⟨word, hmem, h⟩ := List.exists_of_findSome?_eq_some h
  simp only [Option.ite_none_right_eq_some] at h
  obtain ⟨hspelled, hstop, h⟩ := h
  obtain rfl := Option.some.inj h
  obtain ⟨hne, hchars⟩ := hwords word hmem
  have hlt : start < start + word.toList.length :=
    Nat.lt_add_of_pos_right (List.length_pos_iff.mpr hne)
  refine ⟨?_, rfl, ?_⟩
  · apply WordRun.of_boundaries hlt _ hstart hstop
    intro place hfrom hplace
    exact Pattern.isWordAt_of_spelledAt hspelled (List.all_eq_true.mp hchars) hfrom hplace
  · rw [pieceOf, Nat.add_sub_cancel_left, Pattern.take_of_spelledAt hspelled,
      String.ofList_toList]
    exact hmem

/-- The pattern of keywords takes the maximal runs of word characters that are among the words. -/
theorem way?_keywords_eq_some_iff {words : List String} (hwords : AreWords words)
    {reached : Cursor} :
    (Grammar.keywords words).toPattern.way? text ⟨start, []⟩ some = some reached ↔
      WordRun text start reached.pos ∧ reached.captures = [] ∧
        pieceOf text start reached.pos ∈ words := by
  constructor
  · exact wordRun_of_way? hwords
  · rintro ⟨hrun, hcaptures, hmem⟩
    have hlt := hrun.lt
    have hsize : reached.pos ≤ text.toList.length := hrun.le_size
    have hstop : start +
        ((text.toList.drop start).take (reached.pos - start)).length = reached.pos := by
      rw [List.length_take, List.length_drop]
      omega
    have htaken : ((Grammar.keywords words).toPattern.way? text ⟨start, []⟩ some).isSome := by
      rw [way?_keywords, if_pos hrun.boundary_start, List.findSome?_isSome_iff]
      refine ⟨_, hmem, ?_⟩
      rw [pieceOf, String.toList_ofList, if_pos (Pattern.spelledAt_iff.mpr (List.take_prefix _ _)), hstop,
        if_pos hrun.boundary_stop]
      rfl
    obtain ⟨other, hother⟩ := Option.isSome_iff_exists.mp htaken
    -- another word of the list might be taken here, were it not for the boundaries
    obtain ⟨hrun', hcaptures', -⟩ := wordRun_of_way? hwords hother
    obtain ⟨stop, captures⟩ := other
    obtain rfl : stop = reached.pos := hrun'.unique hrun
    obtain rfl : captures = reached.captures := hcaptures'.trans hcaptures.symm
    exact hother

/-! ## How matches begin -/

namespace Pattern

/-- Whether every match begins with one of the characters. -/
def opensWith (marks : List Char) : Pattern → Bool
  | one (.range first last) => first == last && marks.contains first
  | seq first _ => first.opensWith marks
  | either _ preferred other => preferred.opensWith marks && other.opensWith marks
  | more _ _ body => body.opensWith marks
  | group _ body => body.opensWith marks
  | _ => false

theorem exists_mem_of_opensWith {marks : List Char} {pattern : Pattern}
    (h : pattern.opensWith marks = true) {shift : Nat} {tried : Tried} {next : Continuation}
    {last : Cursor} (hfound : pattern.run text shift cursor tried next = .found last) :
    ∃ c ∈ marks, text[cursor.pos]? = some c := by
  induction pattern generalizing cursor tried next with
  | one accepted =>
    cases accepted with
    | range first last =>
      rw [opensWith, Bool.and_eq_true, beq_iff_eq, List.contains_iff_mem] at h
      obtain ⟨rfl, hmem⟩ := h
      rw [run] at hfound
      cases hchar : text[cursor.pos]? with
      | none =>
        simp [hchar] at hfound
      | some c =>
        rw [hchar] at hfound
        dsimp only at hfound
        split at hfound
        · rename_i haccepted
          rw [← CharClass.single, CharClass.contains_single, decide_eq_true_eq] at haccepted
          exact ⟨first, hmem, congrArg some haccepted.symm⟩
        · cases hfound
    | _ => simp [opensWith] at h
  | seq first second ihFirst => exact ihFirst h hfound
  | either mark preferred other ihPreferred ihOther =>
    rw [opensWith, Bool.and_eq_true] at h
    rw [run] at hfound
    obtain ⟨tried, hfound | hfound⟩ := Outcome.choose_eq_found hfound
    · exact ihPreferred h.1 hfound
    · exact ihOther h.2 hfound
  | more mark greedy body ih => exact ih h hfound
  | group index body ih => exact ih h hfound
  | empty => simp [opensWith] at h
  | check => simp [opensWith] at h
  | copies => simp [opensWith] at h
  | upTo => simp [opensWith] at h

theorem exists_runFrom_of_findWithin {pattern : Pattern} {places start : Nat} {tried : Tried}
    {whole : Match} (h : pattern.findWithin text places start tried = some whole) :
    ∃ tried, pattern.runFrom text whole.start tried = .found ⟨whole.stop, whole.captures⟩ := by
  induction places generalizing start tried with
  | zero => nomatch h
  | succ places ih =>
    rw [findWithin] at h
    split at h
    · rename_i reached hreached
      obtain rfl := Option.some.inj h
      exact ⟨tried, hreached⟩
    · exact ih h

/-- What is found somewhere was run into there. -/
theorem exists_runFrom_of_find? {pattern : Pattern} {from_ : Nat} {whole : Match}
    (h : pattern.find? text from_ = some whole) :
    ∃ tried, pattern.runFrom text whole.start tried = .found ⟨whole.stop, whole.captures⟩ :=
  exists_runFrom_of_findWithin h

end Pattern

end CodeEditor
