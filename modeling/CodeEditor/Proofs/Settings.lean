import CodeEditor.Proofs.Layout.Extent
import CodeEditor.Settings

/-!
# Usable settings

What is loaded can be used: each value that cannot is repaired, and no other is changed. So repaired
settings are left as they are when they are repaired again. A font size that is in its range stays
there however it is adjusted.
-/

namespace CodeEditor

/-! ## The font size -/

namespace Display

variable {display : Display} {size : Float32}

def SizeInRange (size : Float32) : Prop := minFontSize ≤ size ∧ size ≤ maxFontSize

instance (size : Float32) : Decidable (SizeInRange size) := inferInstanceAs (Decidable (_ ∧ _))

theorem clampFontSize_inRange (size : Float32) : SizeInRange (clampFontSize size) := by
  unfold clampFontSize
  split
  · exact (by decide +kernel : SizeInRange 14)
  · rename_i hdefined
    exact Extent.clamp_within (by decide +kernel) (Bool.not_eq_true _ ▸ hdefined)

theorem clampFontSize_of_inRange (h : SizeInRange size) : clampFontSize size = size := by
  obtain ⟨-, hdefined⟩ := Extent.defined_of_le h.1
  unfold clampFontSize
  rw [hdefined, if_neg Bool.false_ne_true]
  exact Extent.clamp_of_within h.1 h.2

theorem SizeInRange.pos (h : SizeInRange size) : 0 < size :=
  Extent.lt_of_lt_of_le (by decide +kernel : (0 : Float32) < minFontSize) h.1

theorem adjustFontSize_inRange (h : SizeInRange display.fontSize) (delta : Float32) :
    SizeInRange (display.adjustFontSize delta).1.fontSize := by
  unfold adjustFontSize
  split
  · exact clampFontSize_inRange _
  · exact h

/-- An adjustment tells whether the font size changed. -/
theorem adjustFontSize_changed_iff (display : Display) (delta : Float32) :
    (display.adjustFontSize delta).2 = true ↔
      (display.adjustFontSize delta).1.fontSize ≠ display.fontSize := by
  unfold adjustFontSize
  split
  · have hpositive := (clampFontSize_inRange (display.fontSize + delta)).pos
    change (!(clampFontSize (display.fontSize + delta) == display.fontSize)) = true ↔ _
    rw [Bool.not_eq_true', ← Bool.not_eq_true, Extent.beq_iff_eq_of_pos hpositive]
  · exact iff_of_false Bool.false_ne_true (not_not_intro rfl)

/-- The display after its font size is adjusted by each amount in turn. -/
def adjusted (display : Display) (deltas : List Float32) : Display :=
  deltas.foldl (fun display delta ↦ (display.adjustFontSize delta).1) display

theorem adjusted_concat (display : Display) (deltas : List Float32) (delta : Float32) :
    display.adjusted (deltas ++ [delta]) = ((display.adjusted deltas).adjustFontSize delta).1 := by
  unfold adjusted
  rw [List.foldl_append]
  rfl

theorem adjusted_inRange (h : SizeInRange display.fontSize) (deltas : List Float32) :
    SizeInRange (display.adjusted deltas).fontSize := by
  induction deltas generalizing display with
  | nil => exact h
  | cons delta deltas ih => exact ih (adjustFontSize_inRange h delta)

end Display

namespace Settings

open Display

variable {settings : Settings}

/-! ## Repairs -/

def IsPositive (x : Float32) : Prop := x.isFinite = true ∧ 0 < x

instance (x : Float32) : Decidable (IsPositive x) := inferInstanceAs (Decidable (_ ∧ _))

theorem positiveOr_isPositive {replacement : Float32} (h : IsPositive replacement) (x : Float32) :
    IsPositive (positiveOr replacement x) := by
  unfold positiveOr
  split
  · rename_i hx
    rwa [Bool.and_eq_true, decide_eq_true_iff] at hx
  · exact h

theorem positiveOr_of_isPositive {x : Float32} (h : IsPositive x) (replacement : Float32) :
    positiveOr replacement x = x :=
  if_pos (Bool.and_eq_true_iff.mpr ⟨h.1, decide_eq_true h.2⟩)

/-- Every value of the settings can be used. -/
structure Usable (settings : Settings) : Prop where
  fontSize : SizeInRange settings.display.fontSize
  fontSizeStep : IsPositive settings.fontSizeStep
  lineHeightFactor : IsPositive settings.layout.lineHeightFactor
  undoLimit : 1 ≤ settings.undoLimit
  tabWidth : 1 ≤ settings.layout.tabWidth

theorem usable_default : Usable {} where
  fontSize := by decide +kernel
  fontSizeStep := by decide +kernel
  lineHeightFactor := by decide +kernel
  undoLimit := by decide
  tabWidth := by decide

/-- A value is replaced by a default only, so that the repaired settings can be used as the defaults
can. -/
theorem usable_normalized (settings : Settings) : settings.normalized.Usable where
  fontSize := clampFontSize_inRange _
  fontSizeStep := positiveOr_isPositive usable_default.fontSizeStep _
  lineHeightFactor := positiveOr_isPositive usable_default.lineHeightFactor _
  undoLimit := Nat.le_max_right _ _
  tabWidth := Nat.le_max_right _ _

/-- Every value that can be used is kept, and so is every other that any value is allowed for. -/
structure Keeps (given loaded : Settings) : Prop where
  debounceMs : loaded.debounceMs = given.debounceMs
  flashMs : loaded.flashMs = given.flashMs
  themeId : loaded.display.themeId = given.display.themeId
  wrapWidth : loaded.layout.wrapWidth = given.layout.wrapWidth
  fontSize : SizeInRange given.display.fontSize → loaded.display.fontSize = given.display.fontSize
  fontSizeStep : IsPositive given.fontSizeStep → loaded.fontSizeStep = given.fontSizeStep
  lineHeightFactor : IsPositive given.layout.lineHeightFactor →
    loaded.layout.lineHeightFactor = given.layout.lineHeightFactor
  undoLimit : 1 ≤ given.undoLimit → loaded.undoLimit = given.undoLimit
  tabWidth : 1 ≤ given.layout.tabWidth → loaded.layout.tabWidth = given.layout.tabWidth

theorem keeps_normalized (settings : Settings) : Keeps settings settings.normalized where
  debounceMs := rfl
  flashMs := rfl
  themeId := rfl
  wrapWidth := rfl
  fontSize := clampFontSize_of_inRange
  fontSizeStep h := positiveOr_of_isPositive h _
  lineHeightFactor h := positiveOr_of_isPositive h _
  undoLimit := Nat.max_eq_left
  tabWidth := Nat.max_eq_left

/-- Settings of which every value is kept are the same. -/
theorem Keeps.eq_of_usable {given loaded : Settings} (h : Keeps given loaded)
    (husable : given.Usable) : loaded = given := by
  obtain ⟨debounceMs, flashMs, fontSizeStep, undoLimit, ⟨fontSize, themeId⟩,
    ⟨lineHeightFactor, wrapWidth, tabWidth⟩⟩ := loaded
  obtain rfl := h.debounceMs
  obtain rfl := h.flashMs
  obtain rfl := h.themeId
  obtain rfl := h.wrapWidth
  obtain rfl := h.fontSize husable.fontSize
  obtain rfl := h.fontSizeStep husable.fontSizeStep
  obtain rfl := h.lineHeightFactor husable.lineHeightFactor
  obtain rfl := h.undoLimit husable.undoLimit
  obtain rfl := h.tabWidth husable.tabWidth
  rfl

theorem normalized_eq_self_iff : settings.normalized = settings ↔ settings.Usable :=
  ⟨fun h ↦ h ▸ usable_normalized settings, (keeps_normalized settings).eq_of_usable⟩

/-! ## Loading -/

/-- What loading makes of the settings that are given. -/
structure Repairs (given loaded : Settings) : Prop where
  usable : loaded.Usable
  keeps : Keeps given loaded
  fixed : loaded.normalized = loaded
  /-- After any adjustments the font size is in its range, and the next one tells whether it
  changes. -/
  adjusted : ∀ deltas, SizeInRange (loaded.display.adjusted deltas).fontSize ∧
    ∀ delta, ((loaded.display.adjusted deltas).adjustFontSize delta).2 = true ↔
      (loaded.display.adjusted (deltas ++ [delta])).fontSize ≠
        (loaded.display.adjusted deltas).fontSize

theorem repairs_normalized (settings : Settings) : Repairs settings settings.normalized where
  usable := usable_normalized settings
  keeps := keeps_normalized settings
  fixed := normalized_eq_self_iff.mpr (usable_normalized settings)
  adjusted deltas := by
    have hrange := adjusted_inRange (usable_normalized settings).fontSize deltas
    refine ⟨hrange, fun delta ↦ ?_⟩
    rw [adjusted_concat]
    exact adjustFontSize_changed_iff _ delta

end Settings

end CodeEditor
