import CodeEditor.Highlight.Registry
import CodeEditor.Proofs.Highlight.Bytes
import CodeEditor.Proofs.Style.Canonical

/-!
# Highlighting by tokens

A registry fails on a request exactly if it does not know the theme. Otherwise each character has
the style of the token it lies in, or that of plain text, and the tokens are those that are found in
the bytes of the text.
-/

namespace CodeEditor

/-! ## Styles of tokens -/

namespace StyledText

open Grammar (Consecutive)

variable {length offset : Nat} {tokens : List Token}

theorem styleAt?_uniform (style : Style) (h : offset < length) :
    (uniform length style).styleAt? offset = some style := by
  unfold uniform
  rw [if_neg (Nat.ne_of_gt (Nat.zero_lt_of_lt h)), styleAt?_cons]
  exact if_pos (Span.contains_iff.mpr ⟨Nat.zero_le offset, h⟩)

/-- The span of a token. -/
def spanOf (theme : Theme) (token : Token) : Span :=
  ⟨token.start, token.stop, theme.styleFor token.kind⟩

/-- The token that contains an offset gives its style. -/
theorem styleAt?_ofTokens (theme : Theme) (h : Consecutive length 0 tokens)
    (hoffset : offset < length) :
    (ofTokens length tokens theme).styleAt? offset =
      some (((tokens.find? (·.contains offset)).map fun token ↦
        theme.styleFor token.kind).getD theme.plain) := by
  change (normalized (tokens.map (spanOf theme)) length theme.plain).styleAt? offset = _
  cases hfound : tokens.find? (·.contains offset) with
  | none =>
    refine styleAt?_of_outside (fun span hspan ↦ ?_) theme.plain hoffset
    obtain ⟨token, htoken, rfl⟩ := List.mem_map.mp hspan
    have houtside := List.find?_eq_none.mp hfound token htoken
    exact Bool.eq_false_iff.mpr houtside
  | some token =>
    have hcontains := List.find?_some hfound
    have hspan : spanOf theme token ∈ tokens.map (spanOf theme) :=
      List.mem_map_of_mem (List.mem_of_find?_eq_some hfound)
    obtain ⟨place, first, hfirst⟩ :=
      Span.exists_leads hspan (show (spanOf theme token).contains offset = true from hcontains)
    obtain ⟨other, hother, rfl⟩ := List.mem_map.mp hfirst.mem
    -- The tokens follow one another, so the first that contains the offset is the only one.
    have hsame := h.find?_eq_some hother hfirst.contains
    rw [hfound] at hsame
    rw [styleAt?_of_leads hfirst theme.plain hoffset, Option.some.inj hsame]
    rfl

end StyledText

namespace Registry

open Grammar (Consecutive)

/-- The tokens of a text by the grammar of its language, if there is one. -/
def tokens (registry : Registry) (request : HighlightRequest) : List Token :=
  ((registry.grammar? request.language).map (·.tokens request.text)).getD []

theorem theme?_eq_none_iff (registry : Registry) (id : String) :
    registry.theme? id = none ↔ id ∉ registry.themeIds := by
  simp [theme?, themeIds, List.find?_eq_none]

theorem highlight_eq_error_iff (registry : Registry) (request : HighlightRequest) :
    (∃ error, registry.highlight request = .error error) ↔
      request.themeId ∉ registry.themeIds := by
  rw [← theme?_eq_none_iff]
  unfold highlight
  split
  · rename_i hnone
    exact ⟨fun _ ↦ hnone, fun _ ↦ ⟨_, rfl⟩⟩
  · rename_i theme hsome
    rw [hsome]
    constructor
    · rintro ⟨error, herror⟩
      dsimp only at herror
      split at herror <;> nomatch herror
    · nofun

theorem consecutive_tokens (registry : Registry) (request : HighlightRequest) :
    Consecutive request.text.toList.length 0 (registry.tokens request) := by
  unfold tokens
  cases registry.grammar? request.language with
  | none => trivial
  | some grammar => exact grammar.consecutive_tokens request.text

/-- With a theme that is known, every character gets a style. -/
theorem exists_highlight_eq_ok (registry : Registry) (request : HighlightRequest) {theme : Theme}
    (h : registry.theme? request.themeId = some theme) :
    ∃ styled, registry.highlight request = .ok styled ∧
      styled.length = request.text.toList.length ∧ Tiles 0 styled.length styled.spans ∧
      ∀ offset < styled.length, styled.styleAt? offset =
        some ((((registry.tokens request).find? (·.contains offset)).map fun token ↦
          theme.styleFor token.kind).getD theme.plain) := by
  unfold highlight tokens
  rw [h]
  dsimp only
  cases registry.grammar? request.language with
  | none =>
    exact ⟨_, rfl, rfl, (StyledText.canonical_uniform _ _).tiles,
      fun offset hoffset ↦ StyledText.styleAt?_uniform theme.plain hoffset⟩
  | some grammar =>
    exact ⟨_, rfl, rfl, (StyledText.canonical_normalized _ _ _).tiles,
      fun offset hoffset ↦ StyledText.styleAt?_ofTokens theme
        (grammar.consecutive_tokens request.text) hoffset⟩

/-- A registry fails exactly on themes that it does not know. Otherwise its styles cover the text,
and each character has the style of the token it lies in, or is plain outside of the tokens. These
follow one another, and are found in the bytes that encode their characters. -/
theorem highlight_by_tokens (registry : Registry) (request : HighlightRequest) :
    ((∃ error, registry.highlight request = .error error) ↔
      request.themeId ∉ registry.themeIds) ∧
    (∀ theme, registry.theme? request.themeId = some theme →
      ∃ styled, registry.highlight request = .ok styled ∧
        styled.length = request.text.toList.length ∧ Tiles 0 styled.length styled.spans ∧
        ∀ offset < styled.length,
          (∀ token ∈ registry.tokens request, token.contains offset = true →
            styled.styleAt? offset = some (theme.styleFor token.kind)) ∧
          ((∀ token ∈ registry.tokens request, token.contains offset = false) →
            styled.styleAt? offset = some theme.plain)) ∧
    Consecutive request.text.toList.length 0 (registry.tokens request) ∧
    ∀ grammar, registry.grammar? request.language = some grammar →
      ∃ found, grammar.storedTokens? request.text = some found ∧
        found.map (·.token) = registry.tokens request ∧
        ∀ stored ∈ found, request.text.toUTF8.extract stored.firstByte stored.endByte =
          (String.ofList (stored.token.chars request.text.toList)).toUTF8 := by
  have hconsecutive := registry.consecutive_tokens request
  refine ⟨registry.highlight_eq_error_iff request, fun theme htheme ↦ ?_, hconsecutive,
    fun grammar hgrammar ↦ ?_⟩
  · obtain ⟨styled, hstyled, hlength, htiles, hstyle⟩ :=
      registry.exists_highlight_eq_ok request htheme
    refine ⟨styled, hstyled, hlength, htiles, fun offset hoffset ↦ ⟨?_, ?_⟩⟩
    · intro token htoken hcontains
      rw [hstyle offset hoffset, hconsecutive.find?_eq_some htoken hcontains]
      rfl
    · intro houtside
      rw [hstyle offset hoffset, List.find?_eq_none.mpr (by simpa using houtside)]
      rfl
  · have htokens : registry.tokens request = grammar.tokens request.text := by
      unfold tokens
      rw [hgrammar]
      rfl
    refine ⟨_, grammar.storedTokens?_eq request.text, ?_, fun stored hstored ↦ ?_⟩
    · rw [htokens, List.map_map]
      exact List.map_id _
    · obtain ⟨token, htoken, rfl⟩ := List.mem_map.mp hstored
      exact Grammar.extract_stored htoken

/-- Of a text with a quoted umlaut, the quotes and what they enclose are the token, and have the
colour of strings. -/
theorem highlight_by_tokens_umlaut :
    let request : HighlightRequest := ⟨"x \"ü\"", .python, "light"⟩
    ∃ (styled : StyledText) (grammar : Grammar) (found : List StoredToken),
      builtin.highlight request = .ok styled ∧
      styled.styleAt? 1 = some (.fg (.rgb 0x1f 0x1f 0x24)) ∧
      styled.styleAt? 3 = some (.fg (.rgb 0xc4 0x1a 0x16)) ∧
      grammar.storedTokens? request.text = some found ∧
      found.map (·.token) = [⟨2, 5, .string⟩] ∧
      ∀ stored ∈ found, request.text.toUTF8.extract stored.firstByte stored.endByte =
        "\"ü\"".toUTF8 := by
  intro request
  have htokens : builtin.tokens request = [⟨2, 5, .string⟩] := by decide +kernel
  obtain ⟨grammar, hgrammar⟩ : ∃ grammar, builtin.grammar? request.language = some grammar :=
    Option.isSome_iff_exists.mp (by decide +kernel)
  obtain ⟨-, hstyles, -, hstored⟩ := highlight_by_tokens builtin request
  obtain ⟨styled, hstyled, hlength, -, hstyle⟩ := hstyles .light (by decide +kernel)
  obtain ⟨found, hsearch, hfound, hbytes⟩ := hstored grammar hgrammar
  have hsize : styled.length = 5 := hlength.trans (by decide +kernel)
  rw [htokens] at hstyle hfound
  have hplain := (hstyle 1 (by omega)).2 (by decide)
  have hquoted := (hstyle 3 (by omega)).1 ⟨2, 5, .string⟩ List.mem_cons_self (by decide)
  have hred : Theme.light.styleFor .string = .fg (.rgb 0xc4 0x1a 0x16) := by decide
  rw [hred] at hquoted
  refine ⟨styled, grammar, found, hstyled, hplain, hquoted, hsearch, hfound, fun stored hmem ↦ ?_⟩
  have htoken : stored.token = ⟨2, 5, .string⟩ :=
    List.mem_singleton.mp (hfound ▸ List.mem_map_of_mem hmem)
  rw [hbytes stored hmem, htoken]
  decide +kernel

end Registry

end CodeEditor
