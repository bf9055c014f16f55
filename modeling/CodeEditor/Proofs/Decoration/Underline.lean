import CodeEditor.Proofs.Decoration.Painting
import Mathlib.Order.Compare

/-!
# Underlines of lint messages

The underlines of lint messages are the same in whatever order the messages come, one for each
message whose line exists. They are sorted so that of the underlines on one line the worst comes
last and is the one that shows: drawn over a text, each line has the colour of the worst severity
on it over all of its content. Lines without messages and newlines stay as they are.
-/

namespace CodeEditor

/-! ## The order of decorations -/

theorem DecorationKind.eq_of_rank_eq {a b : DecorationKind} (h : a.rank = b.rank) : a = b := by
  rcases a with (_ | _) | _ <;> rcases b with (_ | _) | _ <;> first | rfl | nomatch h

namespace Decoration

instance : Std.TransCmp order :=
  inferInstanceAs (Std.TransCmp (compareLex (compareOn start) (compareLex (compareOn stop)
    (compareLex (compareOn (·.kind.rank)) (compareOn tooltip)))))

instance : Std.LawfulEqCmp order where
  eq_of_compare {a b} h := by
    simp only [order, Ordering.then_eq_eq, Std.LawfulEqCmp.compare_eq_iff_eq] at h
    obtain ⟨hstart, hstop, hrank, htooltip⟩ := h
    have hkind := DecorationKind.eq_of_rank_eq hrank
    cases a
    cases b
    subst hstart hstop hkind htooltip
    rfl

theorem order_antisymm {a b : Decoration} (hab : (a.order b).isLE) (hba : (b.order a).isLE) :
    a = b :=
  Std.LawfulEqCmp.compare_eq_iff_eq.mp (Std.OrientedCmp.isLE_antisymm hab hba)

theorem order_total (a b : Decoration) : (a.order b).isLE || (b.order a).isLE := by
  have hswap : b.order a = (a.order b).swap := Std.OrientedCmp.eq_swap
  rw [hswap]
  cases a.order b <;> rfl

/-- The order by range, kind and tooltip refines the one in which a layer is kept. -/
theorem precedes_of_order {a b : Decoration} (h : (a.order b).isLE) : a.precedes b := by
  simp only [order, Ordering.isLE_then_iff_or, Nat.compare_eq_lt, Nat.compare_eq_eq] at h
  simp only [precedes, Bool.or_eq_true, Bool.and_eq_true, decide_eq_true_eq, beq_iff_eq]
  omega

/-- Of two decorations with one range, the one behind the other does not rank below it. -/
theorem rank_le_of_order {a b : Decoration} (h : (a.order b).isLE) (hstart : a.start = b.start)
    (hstop : a.stop = b.stop) : a.kind.rank ≤ b.kind.rank := by
  simp only [order, Ordering.isLE_then_iff_or, Nat.compare_eq_lt, Nat.compare_eq_eq] at h
  omega

end Decoration

namespace Lint

variable {lines : LineIndex} {messages : List LintMessage} {message : LintMessage}
  {decoration : Decoration}

/-! ## One underline for each message -/

/-- The decoration underlines the line of the message. -/
def Underlines (lines : LineIndex) (message : LintMessage) (decoration : Decoration) : Prop :=
  ∃ line range, message.line = line + 1 ∧ lines.range? line = some range ∧
    decoration = .underline range.start range.stop message.severity (some message.text)

theorem underline?_eq_some_iff :
    underline? lines message = some decoration ↔ Underlines lines message decoration := by
  unfold underline? Underlines
  constructor
  · intro h
    split at h
    · nomatch h
    · obtain ⟨range, hrange, hdecoration⟩ := Option.map_eq_some_iff.mp h
      exact ⟨message.line - 1, range, by omega, hrange, hdecoration.symm⟩
  · rintro ⟨line, range, hline, hrange, rfl⟩
    rw [if_neg (by omega), hline, Nat.add_sub_cancel, hrange]
    rfl

theorem underline?_eq_none_iff :
    underline? lines message = none ↔ ¬(1 ≤ message.line ∧ message.line ≤ lines.count) := by
  rw [Option.eq_none_iff_forall_ne_some]
  simp only [ne_eq, underline?_eq_some_iff]
  constructor
  · rintro h ⟨hpos, hle⟩
    obtain ⟨range, hrange⟩ :=
      LineIndex.range?_eq_some (show message.line - 1 < lines.count by omega)
    exact h _ ⟨message.line - 1, range, by omega, hrange, rfl⟩
  · rintro h decoration ⟨line, range, hline, hrange, -⟩
    obtain ⟨start, hstart, -⟩ := Option.map_eq_some_iff.mp hrange
    obtain ⟨hlt, -⟩ := Array.getElem?_eq_some_iff.mp hstart
    have hcount : line < lines.count := hlt
    omega

theorem underlines_filterMap (lines : LineIndex) (messages : List LintMessage) :
    List.Forall₂ (Underlines lines)
      (messages.filter fun message ↦ 1 ≤ message.line ∧ message.line ≤ lines.count)
      (messages.filterMap (underline? lines)) := by
  induction messages with
  | nil => exact List.Forall₂.nil
  | cons message rest ih =>
    cases hunderline : underline? lines message with
    | none =>
      have hout := underline?_eq_none_iff.mp hunderline
      rw [List.filter_cons_of_neg (by simpa using hout), List.filterMap_cons_none hunderline]
      exact ih
    | some decoration =>
      have hin : 1 ≤ message.line ∧ message.line ≤ lines.count := by
        by_contra hout
        rw [underline?_eq_none_iff.mpr hout] at hunderline
        nomatch hunderline
      rw [List.filter_cons_of_pos (by simpa using hin), List.filterMap_cons_some hunderline]
      exact List.Forall₂.cons (underline?_eq_some_iff.mp hunderline) ih

/-! ## Their order -/

theorem mem_decorations :
    decoration ∈ decorations lines messages ↔
      ∃ message ∈ messages, Underlines lines message decoration := by
  unfold decorations
  simp only [List.mem_mergeSort, List.mem_filterMap, underline?_eq_some_iff]

theorem pairwise_decorations (lines : LineIndex) (messages : List LintMessage) :
    (decorations lines messages).Pairwise fun a b ↦ (a.order b).isLE :=
  List.pairwise_mergeSort (fun _ _ _ ↦ Std.TransCmp.isLE_trans) Decoration.order_total _

/-- The order of the messages does not matter. -/
theorem decorations_perm {other : List LintMessage} (h : messages.Perm other) :
    decorations lines messages = decorations lines other := by
  refine List.Perm.eq_of_pairwise (fun _ _ _ _ ↦ Decoration.order_antisymm)
    (pairwise_decorations lines messages) (pairwise_decorations lines other) ?_
  calc (decorations lines messages).Perm (messages.filterMap (underline? lines)) :=
        List.mergeSort_perm _ _
    _ |>.Perm (other.filterMap (underline? lines)) := h.filterMap _
    _ |>.Perm (decorations lines other) := (List.mergeSort_perm _ _).symm

/-- A layer keeps the underlines in the order they have. -/
theorem mergeSort_decorations (lines : LineIndex) (messages : List LintMessage) :
    (decorations lines messages).mergeSort Decoration.precedes = decorations lines messages :=
  List.mergeSort_of_pairwise
    ((pairwise_decorations lines messages).imp Decoration.precedes_of_order)

/-! ## The worst severity on a line -/

theorem mem_messagesOn {line : Nat} :
    message ∈ messagesOn messages line ↔ message ∈ messages ∧ message.line = line := by
  unfold messagesOn
  rw [List.mem_filter, beq_iff_eq]

theorem severityOn_eq_none {line : Nat} (h : ∀ message ∈ messages, message.line ≠ line) :
    severityOn messages line = none := by
  have hnone : messagesOn messages line = [] :=
    List.eq_nil_iff_forall_not_mem.mpr fun message hmessage ↦
      h message (mem_messagesOn.mp hmessage).1 (mem_messagesOn.mp hmessage).2
  unfold severityOn
  rw [hnone]
  rfl

/-- A severity on the line that no other one there ranks above is the one shown. -/
theorem severityOn_eq_some {line : Nat} (hmessage : message ∈ messages)
    (hline : message.line = line)
    (hworst : ∀ other ∈ messages, other.line = line →
      (DecorationKind.underline other.severity).rank ≤
        (DecorationKind.underline message.severity).rank) :
    severityOn messages line = some message.severity := by
  have hmem : message.severity ∈ (messagesOn messages line).map (·.severity) :=
    List.mem_map_of_mem (mem_messagesOn.mpr ⟨hmessage, hline⟩)
  unfold severityOn
  simp only [List.contains_iff_mem]
  cases hseverity : message.severity with
  | error =>
    rw [hseverity] at hmem
    rw [if_pos hmem]
  | warning =>
    have hnoError : LintSeverity.error ∉ (messagesOn messages line).map (·.severity) := by
      intro herror
      obtain ⟨other, hother, hotherError⟩ := List.mem_map.mp herror
      obtain ⟨hotherMem, hotherLine⟩ := mem_messagesOn.mp hother
      have hrank := hworst other hotherMem hotherLine
      rw [hotherError, hseverity] at hrank
      exact absurd hrank (by decide)
    rw [hseverity] at hmem
    rw [if_neg hnoError, if_pos hmem]

/-! ## What covers an offset -/

/-- On the content of a line lie the underlines of its own messages and no others. -/
theorem mem_covering (h : lines.Ordered) (messages : List LintMessage) {line offset : Nat}
    {range : LineRange} (hrange : lines.range? line = some range)
    (hoffset : range.start ≤ offset ∧ offset < range.stop) (decoration : Decoration) :
    decoration ∈ (decorations lines messages).filter (·.covers offset) ↔
      ∃ message ∈ messages, message.line = line + 1 ∧
        decoration = .underline range.start range.stop message.severity (some message.text) := by
  rw [List.mem_filter, mem_decorations]
  constructor
  · rintro ⟨⟨message, hmessage, other, otherRange, hline, hother, rfl⟩, hcovers⟩
    obtain rfl := h.line_unique hrange hother hoffset (Decoration.covers_iff.mp hcovers)
    obtain rfl := Option.some.inj (hrange.symm.trans hother)
    exact ⟨message, hmessage, hline, rfl⟩
  · rintro ⟨message, hmessage, hline, rfl⟩
    exact ⟨⟨message, hmessage, line, range, hline, hrange, rfl⟩, Decoration.covers_iff.mpr hoffset⟩

/-- The last of the underlines on the content of a line has the worst severity on the line. -/
theorem severityOn_of_covering (h : lines.Ordered) {line offset : Nat} {range : LineRange}
    (hrange : lines.range? line = some range)
    (hoffset : range.start ≤ offset ∧ offset < range.stop) {earlier : List Decoration}
    {last : Decoration}
    (hcovering : (decorations lines messages).filter (·.covers offset) = earlier ++ [last]) :
    ∃ severity, last.kind = .underline severity ∧
      severityOn messages (line + 1) = some severity := by
  have hmem := mem_covering h messages hrange hoffset
  have hpairwise := (pairwise_decorations lines messages).filter (·.covers offset)
  rw [hcovering] at hmem hpairwise
  obtain ⟨message, hmessage, hline, rfl⟩ :=
    (hmem last).mp (List.mem_append_right _ List.mem_cons_self)
  refine ⟨message.severity, rfl, severityOn_eq_some hmessage hline fun other hother hotherLine ↦ ?_⟩
  -- These underlines all have the range of the line, so they are sorted by severity.
  rcases List.mem_append.mp ((hmem _).mpr ⟨other, hother, hotherLine, rfl⟩) with hin | hlast
  · have horder := (List.pairwise_append.mp hpairwise).2.2 _ hin _ List.mem_cons_self
    exact Decoration.rank_le_of_order horder rfl rfl
  · rw [← DecorationKind.underline.inj (congrArg Decoration.kind (List.mem_singleton.mp hlast))]

theorem covering_newline {chars : List Char} {offset : Nat} (h : chars[offset]? = some '\n') :
    (decorations (.ofChars chars) messages).filter (·.covers offset) = [] := by
  refine List.filter_eq_nil_iff.mpr fun decoration hdecoration hcovers ↦ ?_
  obtain ⟨message, -, line, range, -, hrange, rfl⟩ := mem_decorations.mp hdecoration
  exact LineIndex.not_content_of_newline h hrange (Decoration.covers_iff.mp hcovers)

end Lint

/-! ## What shows -/

/-- The style with a squiggle in the theme's colour for errors or for warnings, if there are any. -/
def Style.marked (theme : Theme) (style : Style) : Option LintSeverity → Style
  | some .error =>
    { style with underline := some .squiggle, underlineColor := some theme.lintError }
  | some .warning =>
    { style with underline := some .squiggle, underlineColor := some theme.lintWarning }
  | none => style

theorem Style.overlay_underline (theme : Theme) (base : Style) (severity : LintSeverity) :
    base.overlay theme (.underline severity) = base.marked theme (some severity) := by
  cases severity <;> rfl

/-- Of two underlines the second one shows. -/
theorem Style.marked_marked (theme : Theme) (base : Style) (first second : LintSeverity) :
    (base.marked theme (some first)).marked theme (some second) =
      base.marked theme (some second) := by
  cases first <;> cases second <;> rfl

/-- An underline hides the underlines painted before it. -/
theorem Style.marked_paint (theme : Theme) (base : Style) (severity : LintSeverity)
    {decorations : List Decoration}
    (h : ∀ decoration ∈ decorations, ∃ severity, decoration.kind = .underline severity) :
    (base.paint theme decorations).marked theme (some severity) =
      base.marked theme (some severity) := by
  induction decorations generalizing base with
  | nil => rfl
  | cons decoration rest ih =>
    obtain ⟨other, hother⟩ := h decoration List.mem_cons_self
    change ((base.overlay theme decoration.kind).paint theme rest).marked theme _ = _
    rw [ih _ fun decoration hdecoration ↦ h decoration (List.mem_cons_of_mem _ hdecoration), hother,
      Style.overlay_underline, Style.marked_marked]

namespace Lint

variable {lines : LineIndex}

/-- On the content of a line shows the worst severity on the line. -/
theorem paint_covering (h : lines.Ordered) (messages : List LintMessage) {line offset : Nat}
    {range : LineRange} (hrange : lines.range? line = some range)
    (hoffset : range.start ≤ offset ∧ offset < range.stop) (theme : Theme) (base : Style) :
    base.paint theme ((decorations lines messages).filter (·.covers offset)) =
      base.marked theme (severityOn messages (line + 1)) := by
  have hmem := mem_covering h messages hrange hoffset
  rcases List.eq_nil_or_concat' ((decorations lines messages).filter (·.covers offset)) with
    hnil | ⟨earlier, last, hcovering⟩
  · rw [hnil] at hmem ⊢
    have hnone : ∀ message ∈ messages, message.line ≠ line + 1 := fun message hmessage hline ↦
      (nomatch (hmem _).mpr ⟨message, hmessage, hline, rfl⟩)
    rw [severityOn_eq_none hnone]
    rfl
  · obtain ⟨severity, hlast, hseverity⟩ := severityOn_of_covering h hrange hoffset hcovering
    rw [hcovering] at hmem ⊢
    have hearlier : ∀ decoration ∈ earlier, ∃ severity, decoration.kind = .underline severity := by
      intro decoration hdecoration
      obtain ⟨other, -, -, rfl⟩ := (hmem decoration).mp (List.mem_append_left _ hdecoration)
      exact ⟨other.severity, rfl⟩
    calc base.paint theme (earlier ++ [last])
        = (base.paint theme earlier).overlay theme last.kind := List.foldl_append
      _ = (base.paint theme earlier).marked theme (some severity) := by
        rw [hlast, Style.overlay_underline]
      _ = base.marked theme (some severity) := Style.marked_paint theme base severity hearlier
      _ = base.marked theme (severityOn messages (line + 1)) := by rw [hseverity]

/-- Without other layers, the underlines are all that is drawn over the text. -/
theorem decorations_replace {layers : Layers} (hlayers : layers.Built)
    (honly : ∀ id, id ≠ Layers.lint → layers.layer id = []) (lines : LineIndex)
    (messages : List LintMessage) :
    (layers.replace Layers.lint (decorations lines messages)).decorations =
      decorations lines messages := by
  have honly' : ∀ id, id ≠ Layers.lint →
      (layers.replace Layers.lint (decorations lines messages)).layer id = [] := by
    intro id hid
    rw [Layers.layer_replace, if_neg hid]
    exact honly id hid
  rw [(hlayers.replace _ _).ascending.decorations_of_only honly', Layers.layer_replace,
    if_pos rfl, mergeSort_decorations]

theorem styleAt?_drawing {styled : StyledText} (h : styled.Canonical) {layers : Layers}
    (hlayers : layers.Built) (honly : ∀ id, id ≠ Layers.lint → layers.layer id = [])
    (lines : LineIndex) (messages : List LintMessage) (theme : Theme) (offset : Nat)
    (hoffset : offset < styled.length) :
    ∃ base, styled.styleAt? offset = some base ∧
      (Render.drawing styled (layers.replace Layers.lint (decorations lines messages))
        theme).styleAt? offset =
          some (base.paint theme ((decorations lines messages).filter (·.covers offset))) := by
  obtain ⟨base, hbase⟩ := h.styleAt?_eq_some hoffset
  refine ⟨base, hbase, ?_⟩
  rw [Render.styleAt?_drawing h _ theme hoffset, hbase, decorations_replace hlayers honly]
  rfl

/-- With the underlines of messages drawn over a text, the content of each line shows the worst
severity on the line, if there is one, and newlines keep their style. The underlines do not depend
on the order of the messages, and there is one for each message whose line exists. -/
theorem underlines_agree (text : String) {styled : StyledText} (hstyled : styled.Built)
    (hlength : styled.length = text.length) {layers : Layers} (hlayers : layers.Built)
    (honly : ∀ id, id ≠ Layers.lint → layers.layer id = []) (messages : List LintMessage)
    (theme : Theme) :
    let lines := LineIndex.ofText text
    let drawn := Render.drawing styled
      (layers.replace Layers.lint (decorations lines messages)) theme
    (∀ line < lines.count, ∃ range, lines.range? line = some range ∧
      ∀ offset, range.start ≤ offset → offset < range.stop → ∃ base,
        styled.styleAt? offset = some base ∧
        drawn.styleAt? offset = some (base.marked theme (severityOn messages (line + 1)))) ∧
    (∀ offset, text.toList[offset]? = some '\n' → ∃ base,
      styled.styleAt? offset = some base ∧ drawn.styleAt? offset = some base) ∧
    ∀ index : LineIndex,
      (∀ other, messages.Perm other → decorations index messages = decorations index other) ∧
      ∃ underlines, (decorations index messages).Perm underlines ∧
        List.Forall₂ (Underlines index)
          (messages.filter fun message ↦ 1 ≤ message.line ∧ message.line ≤ index.count)
          underlines := by
  intro lines drawn
  have hcanonical := hstyled.canonical
  have hordered : lines.Ordered := LineIndex.ordered_ofChars text.toList
  have hlines : lines.length = styled.length := by
    rw [hlength, ← String.length_toList]
    exact LineIndex.length_ofChars _
  have hdrawn := styleAt?_drawing hcanonical hlayers honly lines messages theme
  refine ⟨fun line hline ↦ ?_, fun offset hnewline ↦ ?_, fun index ↦ ⟨fun other ↦
    decorations_perm, _, List.mergeSort_perm _ _, underlines_filterMap index messages⟩⟩
  · obtain ⟨range, hrange⟩ := LineIndex.range?_eq_some hline
    refine ⟨range, hrange, fun offset hstart hstop ↦ ?_⟩
    have hle := (hordered.range_le hrange).2
    obtain ⟨base, hbase, hpaint⟩ := hdrawn offset (by omega)
    rw [paint_covering hordered messages hrange ⟨hstart, hstop⟩] at hpaint
    exact ⟨base, hbase, hpaint⟩
  · obtain ⟨hlt, -⟩ := List.getElem?_eq_some_iff.mp hnewline
    rw [String.length_toList, ← hlength] at hlt
    obtain ⟨base, hbase, hpaint⟩ := hdrawn offset hlt
    rw [show (decorations lines messages).filter (·.covers offset) = [] from
      covering_newline hnewline] at hpaint
    exact ⟨base, hbase, hpaint⟩

/-- Two messages on the first line, an error and a warning, a warning on the second line, and two
messages outside the text. -/
theorem underlines_agree_worst_of_two :
    let messages : List LintMessage :=
      [⟨9, "behind", .error⟩, ⟨1, "unused", .warning⟩, ⟨1, "unknown", .error⟩,
        ⟨2, "shadowed", .warning⟩, ⟨0, "before", .error⟩]
    let lines := LineIndex.ofText "ab\nc"
    let plain : Style := .fg (.rgb 0x1f 0x1f 0x24)
    let red : Color := .rgb 0xff 0x3b 0x30
    let orange : Color := .rgb 0xff 0x95 0x00
    let drawn := Render.drawing (.uniform 4 plain)
      (Layers.empty.replace Layers.lint (decorations lines messages)) .light
    lines.range? 0 = some ⟨0, 2⟩ ∧ lines.range? 1 = some ⟨3, 4⟩ ∧
    drawn.styleAt? 1 = some { plain with underline := some .squiggle, underlineColor := some red } ∧
    drawn.styleAt? 2 = some plain ∧
    drawn.styleAt? 3 =
      some { plain with underline := some .squiggle, underlineColor := some orange } := by
  intro messages lines plain red orange drawn
  obtain ⟨hcontent, hnewlines, -⟩ := underlines_agree "ab\nc" (.uniform 4 plain) (by decide) .empty
    (fun _ _ ↦ rfl) messages .light
  have hfirst : lines.range? 0 = some ⟨0, 2⟩ := by decide +kernel
  have hsecond : lines.range? 1 = some ⟨3, 4⟩ := by decide +kernel
  obtain ⟨range, hrange, hmarked⟩ := hcontent 0 (by decide +kernel)
  obtain rfl := Option.some.inj (hfirst.symm.trans hrange)
  obtain ⟨base, hbase, hone⟩ := hmarked 1 (by decide) (by decide)
  obtain rfl : plain = base := Option.some.inj hbase
  obtain ⟨base, hbase, htwo⟩ := hnewlines 2 (by decide +kernel)
  obtain rfl : plain = base := Option.some.inj hbase
  obtain ⟨range, hrange, hmarked⟩ := hcontent 1 (by decide +kernel)
  obtain rfl := Option.some.inj (hsecond.symm.trans hrange)
  obtain ⟨base, hbase, hthree⟩ := hmarked 3 (by decide) (by decide)
  obtain rfl : plain = base := Option.some.inj hbase
  exact ⟨hfirst, hsecond, hone, htwo, hthree⟩

end Lint

end CodeEditor
