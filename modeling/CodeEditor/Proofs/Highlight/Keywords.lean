import CodeEditor.Proofs.Highlight.Scanner
import CodeEditor.Proofs.Pattern.Words

/-!
# Keywords are whole words

In a grammar with a rule for keywords, the rules before that rule begin with a mark such as a quote,
a slash or an at sign, so that none of them takes a token where a word begins. The rule for keywords
is followed through the scan: no word of the list is overlooked unless an earlier token reaches over
its beginning, and what the rule takes is always a maximal run of word characters. The words of the
list may be prefixes of each other, and the rules behind it may find what they like.
-/

namespace CodeEditor

variable {text : Array Char} {from_ fuel : Nat} {found : Nat × Nat}

namespace Rule

/-- A token of a rule without a group is the match that an exploration from its start comes to. -/
theorem exists_runFrom_of_search {rule : Rule} (hgroup : rule.group = none)
    (h : rule.search text fuel from_ = some found) :
    ∃ tried captures, rule.pattern.runFrom text found.1 tried = .found ⟨found.2, captures⟩ := by
  induction fuel generalizing from_ with
  | zero => nomatch h
  | succ fuel ih =>
    rw [search_succ] at h
    obtain ⟨whole, hwhole, h⟩ := Option.bind_eq_some_iff.mp h
    obtain htaken | ⟨-, hrest⟩ := Option.or_eq_some_iff.mp h
    · rw [taken?, Match.taken?, hgroup] at htaken
      obtain rfl := Option.some.inj (Option.filter_eq_some_iff.mp htaken).1
      obtain ⟨tried, hreached⟩ := Pattern.exists_runFrom_of_find? hwhole
      exact ⟨tried, whole.captures, hreached⟩
    · obtain ⟨next, -, hrest⟩ := Option.bind_eq_some_iff.mp hrest
      exact ih hrest

theorem exists_runFrom_of_find? {rule : Rule} (hgroup : rule.group = none)
    (h : rule.find? text from_ = some found) :
    ∃ tried captures, rule.pattern.runFrom text found.1 tried = .found ⟨found.2, captures⟩ := by
  unfold find? at h
  split at h
  · exact exists_runFrom_of_search hgroup h
  · nomatch h

/-! ## Rules that open with a mark -/

/-- The characters with which the rules before the rule for keywords begin. -/
def marks : List Char := ['/', '"', '\'', '#', '@', '$']

/-- A rule that may stand before the rule for keywords. -/
structure OpensWithMark (rule : Rule) : Prop where
  kind_ne : rule.kind ≠ .keyword
  group_eq : rule.group = none
  opens : rule.pattern.opensWith marks = true

instance (rule : Rule) : Decidable rule.OpensWithMark :=
  decidable_of_iff (rule.kind ≠ .keyword ∧ rule.group = none ∧
      rule.pattern.opensWith marks = true)
    ⟨fun ⟨hkind, hgroup, hopens⟩ ↦ ⟨hkind, hgroup, hopens⟩,
      fun ⟨hkind, hgroup, hopens⟩ ↦ ⟨hkind, hgroup, hopens⟩⟩

theorem not_isWord_of_mem_marks {c : Char} (h : c ∈ marks) : Unicode.isWord c = false := by
  have hnone : marks.any Unicode.isWord = false := by decide
  simpa using List.any_eq_false.mp hnone c h

/-- Such a rule finds nothing where a word begins. -/
theorem OpensWithMark.not_isWordAt {rule : Rule} (h : rule.OpensWithMark)
    (hfound : rule.find? text from_ = some found) :
    Assertion.isWordAt text found.1 = false := by
  obtain ⟨tried, captures, hreached⟩ := exists_runFrom_of_find? h.group_eq hfound
  obtain ⟨c, hmem, hchar⟩ := Pattern.exists_mem_of_opensWith h.opens hreached
  rw [Assertion.isWordAt, hchar, Option.any_some, not_isWord_of_mem_marks hmem]

end Rule

namespace Grammar

/-- The rule for keywords. -/
def keywordRule (words : List String) : Rule := whole .keyword (keywords words)

/-- What the rule for keywords finds are whole words of its list. -/
theorem wordRun_of_find? {words : List String} (hwords : AreWords words)
    (h : (keywordRule words).find? text from_ = some found) :
    WordRun text found.1 found.2 ∧ pieceOf text found.1 found.2 ∈ words := by
  obtain ⟨tried, captures, hreached⟩ := Rule.exists_runFrom_of_find? rfl h
  change (keywords words).toPattern.runFrom text found.1 tried = _ at hreached
  rw [Pattern.runFrom_of_unmarked (unmarked_keywords words)] at hreached
  cases hway : (keywords words).toPattern.way? text ⟨found.1, []⟩ some with
  | none =>
    rw [hway] at hreached
    nomatch hreached
  | some reached =>
    rw [hway] at hreached
    obtain ⟨hrun, -, hmem⟩ := (way?_keywords_eq_some_iff hwords).mp hway
    obtain rfl : reached = ⟨found.2, captures⟩ := Outcome.found.inj hreached
    exact ⟨hrun, hmem⟩

/-- Where a whole word of the list stands, the rule for keywords matches it. -/
theorem matchAt?_of_wordRun {words : List String} (hwords : AreWords words) {start stop : Nat}
    (hrun : WordRun text start stop) (hmem : pieceOf text start stop ∈ words) :
    (keywordRule words).matchAt? text start = some (start, stop) := by
  have hway : (keywords words).toPattern.way? text ⟨start, []⟩ some = some ⟨stop, []⟩ :=
    (way?_keywords_eq_some_iff hwords).mpr ⟨hrun, rfl, hmem⟩
  have hmatch : (keywordRule words).pattern.matchAt? text start = some ⟨start, stop, []⟩ := by
    change (keywords words).toPattern.matchAt? text start = _
    rw [Pattern.matchAt?_of_unmarked (unmarked_keywords words), hway]
    rfl
  rw [Rule.matchAt?, hmatch]
  simpa using hrun.lt

/-! ## Tokens for keywords -/

/-- The tokens for keywords are the whole words of the list into whose beginning no token from
before reaches. -/
def KeywordsAreWords (grammar : Grammar) (words : List String) (text : String) : Prop :=
  let chars := text.toList.toArray
  ∀ start stop,
    (⟨start, stop, .keyword⟩ ∈ grammar.tokens text →
      WordRun chars start stop ∧ pieceOf chars start stop ∈ words) ∧
    (WordRun chars start stop → pieceOf chars start stop ∈ words →
      (∀ token ∈ grammar.tokens text, token.start < start → token.contains start = false) →
      ⟨start, stop, .keyword⟩ ∈ grammar.tokens text)

section

variable {front behind : List Rule} {words : List String}

theorem getElem?_keywordRule :
    (front ++ keywordRule words :: behind)[front.length]? = some (keywordRule words) := by
  simp

/-- Only the rule for keywords has their kind. -/
theorem eq_keywordRule (hfront : ∀ rule ∈ front, rule.OpensWithMark)
    (hbehind : ∀ rule ∈ behind, rule.kind ≠ .keyword) {rule : Rule}
    (hrule : rule ∈ front ++ keywordRule words :: behind) (hkind : rule.kind = .keyword) :
    rule = keywordRule words := by
  rcases List.mem_append.mp hrule with hbefore | hrest
  · exact absurd hkind (hfront rule hbefore).kind_ne
  · rcases List.mem_cons.mp hrest with hsame | hafter
    · exact hsame
    · exact absurd hkind (hbehind rule hafter)

/-- In a grammar with one rule for keywords, before which only such rules stand as begin with a
mark, the tokens for keywords are whole words. -/
theorem keywordsAreWords_of_rules (front behind : List Rule) (hwords : AreWords words)
    (hfront : ∀ rule ∈ front, rule.OpensWithMark)
    (hbehind : ∀ rule ∈ behind, rule.kind ≠ .keyword) (text : String) :
    KeywordsAreWords (front ++ keywordRule words :: behind) words text := by
  intro start stop
  constructor
  · intro htoken
    rw [← map_token_emissions] at htoken
    obtain ⟨emission, hmem, hemission⟩ := List.mem_map.mp htoken
    obtain ⟨rule, hrule, hkind, from_, -, hfound⟩ := exists_rule_of_mem_emissions hmem
    rw [hemission] at hkind hfound
    obtain rfl := eq_keywordRule hfront hbehind (List.mem_of_getElem? hrule) hkind.symm
    exact wordRun_of_find? hwords hfound
  · intro hrun hmem hearlier
    have hsize : start ≤ text.toList.length :=
      Nat.le_trans (Nat.le_of_lt hrun.lt) hrun.le_size
    obtain ⟨emission, hemission, hstart, hle, hsame⟩ :=
      exists_emission_of_match getElem?_keywordRule rfl
        (Pattern.leftmost_of_unmarked (unmarked_keywords words)) hsize
        (matchAt?_of_wordRun hwords hrun hmem) hearlier
    obtain ⟨rule, hrule, hkind, from_, -, hfound⟩ := exists_rule_of_mem_emissions hemission
    rcases Nat.lt_or_eq_of_le hle with hbefore | hplace
    · -- a rule that stands before the rule for keywords would begin with a mark here
      rw [List.getElem?_append_left hbefore] at hrule
      have hmark := (hfront rule (List.mem_of_getElem? hrule)).not_isWordAt hfound
      rw [hstart, hrun.word start (Nat.le_refl _) hrun.lt] at hmark
      nomatch hmark
    · rw [hplace, getElem?_keywordRule] at hrule
      obtain rfl := Option.some.inj hrule
      have htoken : emission.token = ⟨start, stop, .keyword⟩ := by
        obtain ⟨_, _, _, _⟩ := emission
        cases hsame hplace
        exact congrArg _ hkind
      rw [← map_token_emissions, ← htoken]
      exact List.mem_map_of_mem hemission

end

/-- In the grammars of Swift, Python and the shell, the tokens for keywords are the maximal runs of
word characters that are in the list of the language and whose beginning no token from before
reaches over. -/
theorem keywords_are_words (text : String) :
    KeywordsAreWords swift swiftKeywords text ∧ KeywordsAreWords python pythonKeywords text ∧
      KeywordsAreWords bash bashKeywords text := by
  refine ⟨?_, ?_, ?_⟩
  · exact keywordsAreWords_of_rules (swift.take 5) (swift.drop 6) (by decide +kernel)
      (by decide +kernel) (by decide +kernel) text
  · exact keywordsAreWords_of_rules (python.take 4) (python.drop 5) (by decide +kernel)
      (by decide +kernel) (by decide +kernel) text
  · exact keywordsAreWords_of_rules (bash.take 3) (bash.drop 4) (by decide +kernel)
      (by decide +kernel) (by decide +kernel) text

example : swift.tokens "init/*in*/in" =
    [⟨0, 4, .keyword⟩, ⟨4, 10, .comment⟩, ⟨10, 12, .keyword⟩] := by
  decide +kernel

end Grammar

end CodeEditor
