import CodeEditor.Proofs.Json.Decode
import CodeEditor.Proofs.Json.Values
import CodeEditor.Style.Encoding

/-!
# Reading written themes

Colours, styles and themes are decoded from their encodings, which hold only numerals that can be
written. So a theme is read from its text, whatever its name, its styles and its tokens are.
-/

namespace CodeEditor

open JsonValue (WellFormed)

/-! ## Colours -/

namespace Color

theorem ofJson?_toJson (color : Color) : ofJson? color.toJson = some color := by
  let channel (value : UInt8) : JsonValue := .number (.ofNat value.toNat)
  have hfields : color.toJson.fields? ["r", "g", "b", "a"] =
      some [some (channel color.r), some (channel color.g), some (channel color.b),
        some (channel color.a)] :=
    JsonValue.fields?_record [("r", channel color.r), ("g", channel color.g),
      ("b", channel color.b), ("a", channel color.a)] (by simp)
  have hchannel (value : UInt8) :
      JsonValue.required? JsonValue.byte? (some (channel value)) = some value :=
    JsonValue.byte?_ofNat value
  unfold ofJson?
  rw [hfields]
  simp only [Option.bind_eq_bind, Option.bind_some, hchannel]
  rfl

theorem wellFormed_toJson (color : Color) : WellFormed color.toJson := by
  have hchannel (value : UInt8) : WellFormed (.number (.ofNat value.toNat)) :=
    JsonValue.wellFormed_number (Numeral.wellFormed_ofNat _)
  exact JsonValue.wellFormed_object (by simp [hchannel])

theorem toJson_ne_null (color : Color) : color.toJson ≠ .null := nofun

end Color

/-! ## Styles -/

namespace Style

theorem ofJson?_toJson (style : Style) : ofJson? style.toJson = some style := by
  let color := JsonValue.ofOption Color.toJson
  let name (underline : UnderlineStyle) : JsonValue := .text underline.name
  let line := JsonValue.ofOption name
  have hfields : style.toJson.fields?
      ["foreground", "background", "bold", "italic", "underline", "underline_color"] =
        some [some (color style.foreground), some (color style.background),
          some (.bool style.bold), some (.bool style.italic), some (line style.underline),
          some (color style.underlineColor)] :=
    JsonValue.fields?_record [("foreground", color style.foreground),
      ("background", color style.background), ("bold", .bool style.bold),
      ("italic", .bool style.italic), ("underline", line style.underline),
      ("underline_color", color style.underlineColor)] (by simp)
  have hcolor (value : Option Color) :
      JsonValue.optional? Color.ofJson? (color value) = some value :=
    JsonValue.optional?_ofOption Color.ofJson?_toJson Color.toJson_ne_null value
  have hname (underline : UnderlineStyle) :
      (name underline).name? UnderlineStyle.ofName? = some underline :=
    UnderlineStyle.ofName?_name underline
  have hline (value : Option UnderlineStyle) :
      JsonValue.optional? (JsonValue.name? UnderlineStyle.ofName?) (line value) = some value :=
    JsonValue.optional?_ofOption hname (fun _ ↦ nofun) value
  unfold ofJson?
  dsimp only
  rw [hfields]
  simp only [Option.bind_eq_bind, Option.bind_some, JsonValue.withDefault?, hcolor, hline,
    JsonValue.bool?]
  rfl

theorem wellFormed_toJson (style : Style) : WellFormed style.toJson := by
  have hcolor (value : Option Color) : WellFormed (JsonValue.ofOption Color.toJson value) := by
    cases value with
    | none => exact JsonValue.wellFormed_null
    | some color => exact color.wellFormed_toJson
  have hline (value : Option UnderlineStyle) :
      WellFormed (JsonValue.ofOption (fun underline ↦ .text underline.name) value) := by
    cases value with
    | none => exact JsonValue.wellFormed_null
    | some underline => exact JsonValue.wellFormed_text _
  exact JsonValue.wellFormed_object (by simp [hcolor, hline, JsonValue.wellFormed_bool])

end Style

/-! ## Themes -/

namespace Theme

/-- The written form of the style of a kind of token. -/
def entryToJson (entry : TokenKind × Style) : JsonValue :=
  .array [.text entry.1.name, entry.2.toJson]

theorem pair?_entryToJson (entry : TokenKind × Style) :
    JsonValue.pair? (JsonValue.name? TokenKind.ofName?) Style.ofJson? (entryToJson entry) =
      some entry := by
  have hkind : JsonValue.name? TokenKind.ofName? (.text entry.1.name) = some entry.1 :=
    TokenKind.ofName?_name entry.1
  simp only [JsonValue.pair?, entryToJson, hkind, Style.ofJson?_toJson, Option.bind_eq_bind,
    Option.bind_some]
  rfl

theorem ofJson?_toJson (theme : Theme) : ofJson? theme.toJson = some theme := by
  have hfields : theme.toJson.fields?
      ["id", "plain", "tokens", "lint_error", "lint_warning", "flash_background"] =
        some [some (.text theme.id), some theme.plain.toJson,
          some (.array (theme.tokens.map entryToJson)), some theme.lintError.toJson,
          some theme.lintWarning.toJson, some theme.flashBackground.toJson] :=
    JsonValue.fields?_record [("id", .text theme.id), ("plain", theme.plain.toJson),
      ("tokens", .array (theme.tokens.map entryToJson)), ("lint_error", theme.lintError.toJson),
      ("lint_warning", theme.lintWarning.toJson),
      ("flash_background", theme.flashBackground.toJson)] (by simp)
  have hid : (JsonValue.text theme.id).text? = some theme.id := rfl
  have hentries := JsonValue.list?_map pair?_entryToJson theme.tokens
  unfold ofJson?
  dsimp only
  rw [hfields]
  simp only [Option.bind_eq_bind, Option.bind_some, JsonValue.required?, hid, hentries,
    Style.ofJson?_toJson, Color.ofJson?_toJson]
  rfl

theorem wellFormed_toJson (theme : Theme) : WellFormed theme.toJson := by
  have hentry (entry : TokenKind × Style) : WellFormed (entryToJson entry) :=
    JsonValue.wellFormed_array (by simp [JsonValue.wellFormed_text, Style.wellFormed_toJson])
  have hentries : WellFormed (.array (theme.tokens.map entryToJson)) := by
    refine JsonValue.wellFormed_array fun item hitem ↦ ?_
    obtain ⟨entry, -, rfl⟩ := List.mem_map.mp hitem
    exact hentry entry
  refine JsonValue.wellFormed_object ?_
  simp only [List.forall_mem_cons]
  exact ⟨JsonValue.wellFormed_text theme.id, theme.plain.wellFormed_toJson, hentries,
    theme.lintError.wellFormed_toJson, theme.lintWarning.wellFormed_toJson,
    theme.flashBackground.wellFormed_toJson, nofun⟩

/-- A theme is read from its text. -/
theorem read?_write (theme : Theme) : read? theme.write = some theme := by
  unfold read? write
  rw [JsonValue.read?_write_of_wellFormed theme.wellFormed_toJson, Option.bind_some, ofJson?_toJson]

end Theme

end CodeEditor
