import CodeEditor.Proofs.Decoration.Layers
import CodeEditor.Proofs.Decoration.Render

/-!
# Painting decorations over a text

Between two neighbouring boundaries neither the style of the text nor the set of decorations that
cover it changes. So what is drawn at an offset is the style of the text there with exactly the
decorations painted over it that cover the offset, layer by layer and in each layer in order. The
colour and weight of the text show through.
-/

namespace CodeEditor

/-- The offset lies in the range of the decoration. -/
def Decoration.covers (decoration : Decoration) (offset : Nat) : Bool :=
  decoration.start ≤ offset && offset < decoration.stop

theorem Decoration.covers_iff {decoration : Decoration} {offset : Nat} :
    decoration.covers offset ↔ decoration.start ≤ offset ∧ offset < decoration.stop := by
  unfold covers
  rw [Bool.and_eq_true, decide_eq_true_eq, decide_eq_true_eq]

/-- Paints decorations over a style, the first one first. -/
def Style.paint (theme : Theme) (base : Style) (decorations : List Decoration) : Style :=
  decorations.foldl (fun style decoration ↦ style.overlay theme decoration.kind) base

theorem Style.paint_text (theme : Theme) (base : Style) (decorations : List Decoration) :
    (base.paint theme decorations).foreground = base.foreground ∧
      (base.paint theme decorations).bold = base.bold ∧
      (base.paint theme decorations).italic = base.italic := by
  induction decorations generalizing base with
  | nil => exact ⟨rfl, rfl, rfl⟩
  | cons decoration rest ih =>
    obtain ⟨hforeground, hbold, hitalic⟩ := base.overlay_text theme decoration.kind
    obtain ⟨hforeground', hbold', hitalic'⟩ := ih (base.overlay theme decoration.kind)
    exact ⟨hforeground'.trans hforeground, hbold'.trans hbold, hitalic'.trans hitalic⟩

namespace Render

/-- What is drawn, as a styled text. -/
def drawing (styled : StyledText) (layers : Layers) (theme : Theme) : StyledText :=
  ⟨compose styled layers theme, styled.length⟩

variable {styled : StyledText} {decorations : List Decoration} {start stop offset : Nat}

/-! ## Between two boundaries -/

/-- No boundary lies strictly between these offsets. -/
def Uncut (styled : StyledText) (decorations : List Decoration) (start stop : Nat) : Prop :=
  ∀ offset ∈ boundaries styled decorations, offset ≤ start ∨ stop ≤ offset

theorem styleAt?_of_uncut (h : styled.Canonical) (huncut : Uncut styled decorations start stop)
    (hstart : start ≤ offset) (hoffset : offset < stop) (hstop : stop ≤ styled.length) :
    styled.styleAt? offset = styled.styleAt? start := by
  obtain ⟨span, hspan⟩ := h.tiles.find?_contains (Nat.zero_le start) (by omega)
  have hmem := List.mem_of_find?_eq_some hspan
  have hcontains := List.find?_some hspan
  have hbehind := huncut span.stop (mem_boundaries_of_span hmem).2
  have hoffsetIn : span.contains offset = true := by
    simp only [Span.contains, Bool.and_eq_true, decide_eq_true_eq] at hcontains ⊢
    omega
  rw [StyledText.styleAt?, StyledText.styleAt?, hspan, h.tiles.find?_of_mem hmem hoffsetIn]

theorem covers_iff_of_uncut {decoration : Decoration} (hdecoration : decoration ∈ decorations)
    (huncut : Uncut styled decorations start stop) (hstart : start ≤ offset)
    (hoffset : offset < stop) (hstop : stop ≤ styled.length) :
    (decoration.start ≤ start && stop ≤ decoration.stop) = decoration.covers offset := by
  have hcut : ∀ edge, edge = decoration.start ∨ edge = decoration.stop → edge ≤ styled.length →
      edge ≤ start ∨ stop ≤ edge := fun edge hedge hle ↦
    huncut edge (mem_boundaries_of_decoration hdecoration hedge hle)
  have hfirst := hcut decoration.start (Or.inl rfl)
  have hlast := hcut decoration.stop (Or.inr rfl)
  rw [Bool.eq_iff_iff, Decoration.covers_iff, Bool.and_eq_true, decide_eq_true_eq,
    decide_eq_true_eq]
  omega

/-- A piece has the style of the text with what covers it painted over, at each of its offsets. -/
theorem styleAt?_pieces (h : styled.Canonical) (theme : Theme) {first : Nat} {rest : List Nat}
    (hincreasing : (first :: rest).Pairwise (· < ·))
    (hle : ∀ offset ∈ first :: rest, offset ≤ styled.length)
    (hall : ∀ offset ∈ boundaries styled decorations, offset ≤ first ∨ offset ∈ rest)
    (hfirst : first ≤ offset) (hlast : offset < (first :: rest).getLast (List.cons_ne_nil _ _))
    (length : Nat) :
    StyledText.styleAt? ⟨pieces styled decorations theme (first :: rest), length⟩ offset =
      (styled.styleAt? offset).map
        (·.paint theme (decorations.filter (·.covers offset))) := by
  induction rest generalizing first with
  | nil => exact absurd hlast (Nat.not_lt.mpr hfirst)
  | cons next rest ih =>
    obtain ⟨hlt, hrest⟩ := List.pairwise_cons.mp hincreasing
    have hnext := hlt next List.mem_cons_self
    have hnextLe := hle next (List.mem_cons_of_mem _ List.mem_cons_self)
    obtain ⟨base, hbase, hpiece⟩ :=
      piece?_eq_some h decorations theme (show first < styled.length by omega) next
    rw [pieces_cons hpiece, StyledText.styleAt?_cons]
    -- The boundaries behind the piece begin with its end, so none lies inside.
    have huncut : Uncut styled decorations first next := by
      intro edge hedge
      refine (hall edge hedge).imp_right fun hmem ↦ ?_
      rcases List.mem_cons.mp hmem with rfl | hmem
      · exact Nat.le_refl _
      · exact Nat.le_of_lt ((List.pairwise_cons.mp hrest).1 edge hmem)
    split
    · rename_i hcontains
      simp only [Span.contains, Bool.and_eq_true, decide_eq_true_eq] at hcontains
      rw [styleAt?_of_uncut h huncut hfirst hcontains.2 hnextLe, hbase]
      have hcovers : ∀ decoration ∈ decorations,
          (decoration.start ≤ first && next ≤ decoration.stop) = decoration.covers offset :=
        fun decoration hdecoration ↦
          covers_iff_of_uncut hdecoration huncut hfirst hcontains.2 hnextLe
      rw [List.filter_congr hcovers]
      rfl
    · rename_i hcontains
      simp only [Span.contains, Bool.and_eq_true, decide_eq_true_eq] at hcontains
      refine ih hrest (fun edge hedge ↦ hle edge (List.mem_cons_of_mem _ hedge)) ?_ (by omega) hlast
      intro edge hedge
      rcases hall edge hedge with hbefore | hmem
      · exact Or.inl (by omega)
      · exact (List.mem_cons.mp hmem).imp_left Nat.le_of_eq

/-! ## What is drawn -/

/-- Decorations without characters cover nothing. -/
theorem filter_covers_isPoint (decorations : List Decoration) (offset : Nat) :
    (decorations.filter (!·.isPoint)).filter (·.covers offset) =
      decorations.filter (·.covers offset) := by
  rw [List.filter_filter]
  refine List.filter_congr fun decoration _ ↦ ?_
  rw [Bool.and_eq_left_iff_imp]
  intro hcovers
  have hrange := Decoration.covers_iff.mp hcovers
  simp only [Decoration.isPoint, Bool.not_eq_true', decide_eq_false_iff_not]
  omega

theorem drawing_canonical (h : styled.Canonical) (layers : Layers) (theme : Theme) :
    (drawing styled layers theme).Canonical := by
  refine ⟨compose_tiles h layers theme, ?_⟩
  change Reduced (compose styled layers theme)
  obtain ⟨-, heq⟩ | heq := compose_cases styled layers theme
  · rw [heq]
    exact h.reduced
  · rw [heq]
    exact Span.foldr_join_reduced (pieces_boundaries_tile h _ theme)

theorem styleAt?_drawing (h : styled.Canonical) (layers : Layers) (theme : Theme)
    (hoffset : offset < styled.length) :
    (drawing styled layers theme).styleAt? offset =
      (styled.styleAt? offset).map
        (·.paint theme (layers.decorations.filter (·.covers offset))) := by
  unfold drawing
  rw [← filter_covers_isPoint]
  obtain ⟨hnone, heq⟩ | heq := compose_cases styled layers theme
  · rw [heq, hnone]
    exact Option.map_id'.symm
  · rw [heq]
    generalize layers.decorations.filter (!·.isPoint) = decorations
    rw [StyledText.styleAt?_foldr_join (pieces_boundaries_tile h decorations theme)]
    obtain ⟨-, hzero⟩ | ⟨rest, hcons, hlast⟩ := boundaries_cases h decorations
    · omega
    · have hincreasing := boundaries_increasing styled decorations
      have hle : ∀ edge ∈ boundaries styled decorations, edge ≤ styled.length :=
        fun edge ↦ le_of_mem_boundaries h
      have hall : ∀ edge ∈ boundaries styled decorations, edge ≤ 0 ∨ edge ∈ rest := by
        intro edge hedge
        rw [hcons] at hedge
        exact (List.mem_cons.mp hedge).imp_left Nat.le_of_eq
      rw [hcons] at hincreasing hle ⊢
      exact styleAt?_pieces h theme hincreasing hle hall (Nat.zero_le _) (hlast.symm ▸ hoffset) _

/-- The drawing is canonical, and at each offset it is the style of the text with exactly the
decorations painted over it that cover the offset, by ascending layers. -/
theorem drawing_paints {styled : StyledText} (hstyled : styled.Built) {layers : Layers}
    (hlayers : layers.Built) (theme : Theme) :
    Tiles 0 styled.length (compose styled layers theme) ∧
    Reduced (compose styled layers theme) ∧
    layers.ids.Pairwise (· < ·) ∧ (∀ id, layers.layer id ≠ [] → id ∈ layers.ids) ∧
    ∀ offset < styled.length, ∃ base style,
      styled.styleAt? offset = some base ∧
      (drawing styled layers theme).styleAt? offset = some style ∧
      style = base.paint theme
        ((layers.ids.flatMap layers.layer).filter fun decoration ↦
          decoration.start ≤ offset && offset < decoration.stop) ∧
      style.foreground = base.foreground ∧ style.bold = base.bold ∧
      style.italic = base.italic := by
  have hcanonical := hstyled.canonical
  refine ⟨compose_tiles hcanonical layers theme, (drawing_canonical hcanonical layers theme).reduced,
    hlayers.ascending, fun id ↦ Layers.mem_ids_of_layer_ne_nil, fun offset hoffset ↦ ?_⟩
  obtain ⟨base, hbase⟩ := hcanonical.styleAt?_eq_some hoffset
  have hstyle := styleAt?_drawing hcanonical layers theme hoffset
  rw [hbase, hlayers.ascending.decorations_eq] at hstyle
  exact ⟨base, _, hbase, hstyle, rfl, base.paint_text theme _⟩

/-- A flash shows over an underline that reaches past the text, and a flash with its ends out of
order does not show. -/
theorem drawing_paints_flash_over_underline :
    let layers :=
      (Layers.empty.replace Layers.flash [.flash 0 3, .flash 2 1]).replace Layers.lint
        [.underline 1 9 .warning none]
    Tiles 0 3 (compose (.uniform 3 Theme.dark.plain) layers .dark) ∧
    (drawing (.uniform 3 Theme.dark.plain) layers .dark).styleAt? 1 =
      some { Theme.dark.plain with
        background := some Theme.dark.flashBackground
        underline := some .squiggle
        underlineColor := some Theme.dark.lintWarning } := by
  intro layers
  have hflash : Layers.empty.replace Layers.flash [.flash 0 3, .flash 2 1] =
      ⟨[(Layers.flash, [.flash 0 3, .flash 2 1])]⟩ :=
    congrArg (fun sorted ↦ Layers.mk [(Layers.flash, sorted)])
      (List.mergeSort_of_pairwise (by decide))
  have heq : layers = ⟨[(Layers.lint, [.underline 1 9 .warning none]),
      (Layers.flash, [.flash 0 3, .flash 2 1])]⟩ := by
    change (Layers.empty.replace Layers.flash _).replace Layers.lint _ = _
    rw [hflash]
    exact congrArg (fun sorted ↦ Layers.mk [(Layers.lint, sorted), _]) (List.mergeSort_singleton _)
  have hlayers : layers.Built := (Layers.Built.empty.replace _ _).replace _ _
  obtain ⟨htiles, -, -, -, hpaints⟩ := drawing_paints (.uniform 3 Theme.dark.plain) hlayers .dark
  obtain ⟨base, style, hbase, hstyle, hpaint, -⟩ := hpaints 1 (by decide)
  obtain rfl : Theme.dark.plain = base := Option.some.inj hbase
  refine ⟨htiles, hstyle.trans (congrArg some ?_)⟩
  rw [hpaint, heq]
  rfl

end Render

end CodeEditor
