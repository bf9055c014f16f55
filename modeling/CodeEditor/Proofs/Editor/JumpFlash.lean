import CodeEditor.Proofs.Editor.Faultless

/-!
# The flash of a jump target

A jump lets its line flash until a deadline. Whether a line flashes, and until when, is kept apart
from the decoration that shows it, which edits shift or drop and loads clear. Still there is such a
decoration only while a line flashes, it is gone once the deadline of the last jump has passed, and
what is told of the end of a flash follows what was told of its beginning.
-/

namespace CodeEditor

/-- The beginning or the end of a flash. -/
inductive FlashNotice where
  | started (line : Nat)
  | finished (line : Nat)
  deriving DecidableEq, Repr

/-- What a notice tells of a flash. -/
def Notice.flash? : Notice → Option FlashNotice
  | event (.jumpStarted line) => some (.started line)
  | event (.jumpFinished line) => some (.finished line)
  | _ => none

/-- When an operation jumps to a line, if it does. -/
def Operation.jumpTime? : Operation → Option Nat
  | jump _ now => some now
  | click _ now => some now
  | _ => none

/-! ## The layer -/

namespace Layers

/-- Neither the number of flashes grows nor does anything else come into their layer. -/
def Wanes (before after : Layers) : Prop :=
  ∀ entry ∈ after.entries, entry.1 = flash → ∃ old ∈ before.entries, old.1 = flash ∧
    entry.2.length ≤ old.2.length ∧ ∀ decoration ∈ entry.2, ∃ other ∈ old.2,
      decoration.kind = other.kind

theorem wanes_of_subset {before after : Layers} (h : after.entries ⊆ before.entries) :
    Wanes before after := fun entry hentry hid ↦
  ⟨entry, h hentry, hid, Nat.le_refl _, fun decoration hdecoration ↦ ⟨decoration, hdecoration, rfl⟩⟩

theorem wanes_self (layers : Layers) : Wanes layers layers :=
  wanes_of_subset (List.Subset.refl _)

theorem wanes_clear (layers : Layers) (id : Nat) : Wanes layers (layers.clear id) :=
  wanes_of_subset (List.filter_subset_self _)

theorem Wanes.trans {before between after : Layers} (h : Wanes before between)
    (hafter : Wanes between after) : Wanes before after := by
  intro entry hentry hid
  obtain ⟨middle, hmiddle, hmiddleId, hlength, hkinds⟩ := hafter entry hentry hid
  obtain ⟨old, hold, holdId, hlengthOld, hkindsOld⟩ := h middle hmiddle hmiddleId
  refine ⟨old, hold, holdId, Nat.le_trans hlength hlengthOld, fun decoration hdecoration ↦ ?_⟩
  obtain ⟨other, hother, hkind⟩ := hkinds decoration hdecoration
  obtain ⟨first, hfirst, hkindOld⟩ := hkindsOld other hother
  exact ⟨first, hfirst, hkind.trans hkindOld⟩

theorem wanes_replace {id : Nat} (hid : id ≠ flash) (layers : Layers)
    (decorations : List Decoration) : Wanes layers (layers.replace id decorations) := by
  unfold Layers.replace
  split
  · exact wanes_clear layers id
  · intro entry hentry hflash
    obtain rfl | hentry := mem_insert hentry
    · exact absurd hflash hid
    · exact wanes_self layers entry hentry hflash

theorem wanes_carry (layers : Layers) (edit : Edit) : Wanes layers (layers.carry edit) := by
  intro entry hentry hid
  obtain ⟨old, hold, rfl⟩ := List.mem_map.mp (List.mem_filter.mp hentry).1
  refine ⟨old, hold, hid, List.length_filterMap_le _ _, fun decoration hdecoration ↦ ?_⟩
  obtain ⟨before, hbefore, hcarried⟩ := List.mem_filterMap.mp hdecoration
  exact ⟨before, hbefore, (Decoration.same_of_carry? hcarried).1⟩

/-- At most one decoration flashes, and nothing else is in its layer. -/
def FlashesOnce (layers : Layers) : Prop :=
  ∀ entry ∈ layers.entries, entry.1 = flash →
    entry.2.length ≤ 1 ∧ ∀ decoration ∈ entry.2, decoration.kind = .flash

/-- Nothing flashes. -/
def Dark (layers : Layers) : Prop := ∀ entry ∈ layers.entries, entry.1 ≠ flash

theorem FlashesOnce.wanes {before after : Layers} (h : before.FlashesOnce)
    (hwanes : Wanes before after) : after.FlashesOnce := by
  intro entry hentry hid
  obtain ⟨old, hold, holdId, hlength, hkinds⟩ := hwanes entry hentry hid
  obtain ⟨honce, hflashes⟩ := h old hold holdId
  refine ⟨Nat.le_trans hlength honce, fun decoration hdecoration ↦ ?_⟩
  obtain ⟨other, hother, hkind⟩ := hkinds decoration hdecoration
  rw [hkind, hflashes other hother]

theorem Dark.wanes {before after : Layers} (h : before.Dark) (hwanes : Wanes before after) :
    after.Dark := by
  intro entry hentry hid
  obtain ⟨old, hold, holdId, -⟩ := hwanes entry hentry hid
  exact h old hold holdId

theorem dark_clear (layers : Layers) : (layers.clear flash).Dark := by
  intro entry hentry hid
  simpa [hid] using (List.mem_filter.mp hentry).2

theorem FlashesOnce.replace {layers : Layers} (h : layers.FlashesOnce) (start stop : Nat) :
    (layers.replace flash [.flash start stop]).FlashesOnce := by
  intro entry hentry hid
  obtain rfl | hentry := mem_insert hentry
  · simp [Decoration.flash]
  · exact h entry hentry hid

theorem FlashesOnce.layer {layers : Layers} (h : layers.FlashesOnce) :
    (layers.layer flash).length ≤ 1 ∧
      ∀ decoration ∈ layers.layer flash, decoration.kind = .flash := by
  obtain hnil | hmem := layer_eq_nil_or_mem layers flash
  · rw [hnil]
    exact ⟨Nat.zero_le 1, nofun⟩
  · exact h _ hmem rfl

theorem Dark.layer {layers : Layers} (h : layers.Dark) : layers.layer flash = [] :=
  (layer_eq_nil_or_mem layers flash).resolve_right fun hmem ↦ h _ hmem rfl

end Layers

namespace Editor

variable {base : Layout} {editor next : Editor} {events : List Event} {now : Nat}

/-! ## Operations that leave a flash alone -/

/-- Whether a line flashes stays as it is, no flash comes into view, and nothing is told of it. -/
structure LeavesFlash (editor next : Editor) (notices : List Notice) : Prop where
  flash : next.flash = editor.flash
  wanes : Layers.Wanes editor.decorations next.decorations
  untold : notices.filterMap Notice.flash? = []

theorem leavesFlash_self (editor : Editor) : LeavesFlash editor editor [] :=
  ⟨rfl, Layers.wanes_self _, rfl⟩

theorem LeavesFlash.trans {middle : Editor} {first second : List Notice}
    (h : LeavesFlash editor middle first) (hnext : LeavesFlash middle next second) :
    LeavesFlash editor next (first ++ second) where
  flash := hnext.flash.trans h.flash
  wanes := h.wanes.trans hnext.wanes
  untold := by rw [List.filterMap_append, h.untold, hnext.untold, List.append_nil]

theorem leavesFlash_setScrollY (editor : Editor) (scrollY : Extent) :
    LeavesFlash editor (editor.setScrollY scrollY).1
      ((editor.setScrollY scrollY).2.map .event) := by
  unfold Editor.setScrollY
  dsimp only
  split
  · exact leavesFlash_self editor
  · exact ⟨rfl, Layers.wanes_self _, rfl⟩

theorem leavesFlash_scrollToLine (editor : Editor) (line : Nat) :
    LeavesFlash editor (editor.scrollToLine line).1
      ((editor.scrollToLine line).2.map .event) := by
  unfold Editor.scrollToLine
  split
  · exact leavesFlash_self editor
  · split
    · exact leavesFlash_setScrollY editor _
    · split
      · exact leavesFlash_setScrollY editor _
      · exact leavesFlash_self editor

theorem leavesFlash_setViewportHeight (editor : Editor) (height : Extent) :
    LeavesFlash editor (editor.setViewportHeight height).1
      ((editor.setViewportHeight height).2.map .event) := by
  obtain ⟨hflash, hwanes, huntold⟩ := leavesFlash_setScrollY
    { editor with viewport := { editor.viewport with height := Extent.max height 0 } }
    editor.viewport.scrollY
  refine ⟨hflash, hwanes, ?_⟩
  unfold Editor.setViewportHeight
  rw [List.map_append, List.filterMap_append, huntold]
  rfl

theorem leavesFlash_relayout (h : editor.relayout = .ok next) : LeavesFlash editor next [] := by
  obtain ⟨layout, -, rfl⟩ := relayout_eq_ok.mp h
  exact ⟨rfl, Layers.wanes_self _, rfl⟩

theorem leavesFlash_adjustFont {delta : Float32} {changed : Bool}
    (h : editor.adjustFont delta = .ok (next, events, changed)) :
    LeavesFlash editor next (events.map .event) := by
  unfold Editor.adjustFont at h
  split at h
  · cases h
    exact leavesFlash_self editor
  · obtain ⟨laid, hlaid, h⟩ := Fault.bind_eq_ok.mp h
    cases h
    obtain ⟨hflash, hwanes, huntold⟩ := (leavesFlash_relayout hlaid).trans
      (leavesFlash_setScrollY laid laid.viewport.scrollY)
    refine ⟨hflash, hwanes, ?_⟩
    rw [List.map_append, List.filterMap_append]
    exact (List.append_nil _).trans huntold

theorem leavesFlash_setTheme (editor : Editor) (id : String) (now : Nat) :
    LeavesFlash editor (editor.setTheme id now).1 ((editor.setTheme id now).2.map .event) := by
  unfold Editor.setTheme
  split
  · exact leavesFlash_self editor
  · exact ⟨rfl, Layers.wanes_self _, rfl⟩

theorem leavesFlash_setLanguage (editor : Editor) (language : Language) (now : Nat) :
    LeavesFlash editor (editor.setLanguage language now).1
      ((editor.setLanguage language now).2.map .event) := by
  unfold Editor.setLanguage
  split
  · exact leavesFlash_self editor
  · exact ⟨rfl, Layers.wanes_self _, rfl⟩

theorem leavesFlash_setSelections (editor : Editor) (selections : SelectionSet) :
    LeavesFlash editor (editor.setSelections selections).1
      ((editor.setSelections selections).2.map .event) := by
  unfold Editor.setSelections
  dsimp only
  split
  · exact leavesFlash_self editor
  · exact ⟨rfl, Layers.wanes_self _, rfl⟩

theorem leavesFlash_lint (editor : Editor) (messages : List LintMessage) :
    LeavesFlash editor (editor.lint messages).1 ((editor.lint messages).2.map .event) := by
  unfold Editor.lint
  dsimp only
  split
  · exact ⟨rfl, Layers.wanes_self _, rfl⟩
  · exact ⟨rfl, Layers.wanes_replace (by decide) _ _, rfl⟩

theorem leavesFlash_lintFor (editor : Editor) (revision : Nat) (messages : List LintMessage) :
    LeavesFlash editor (editor.lintFor revision messages).1
      ((editor.lintFor revision messages).2.1.map .event) := by
  unfold Editor.lintFor
  split
  · exact leavesFlash_lint editor messages
  · exact leavesFlash_self editor

theorem leavesFlash_complete (editor : Editor) (generation : Generation) (styled : StyledText) :
    LeavesFlash editor (editor.complete generation styled).1
      ((editor.complete generation styled).2.1.map .event) := by
  cases hcompletion : (editor.schedule.complete generation).2 with
  | stale =>
    rw [complete_of_stale hcompletion]
    exact ⟨rfl, Layers.wanes_self _, rfl⟩
  | current =>
    rw [complete_of_current hcompletion]
    exact ⟨rfl, Layers.wanes_replace (by decide) _ _, rfl⟩

theorem leavesFlash_runHighlight (editor : Editor) (now : Nat) :
    LeavesFlash editor (editor.runHighlight now).1 (editor.runHighlight now).2 := by
  unfold Editor.runHighlight
  split
  · rename_i polled job hpoll
    have hpolled : polled = (editor.poll now).1 := (congrArg Prod.fst hpoll).symm
    obtain ⟨hflash, hwanes, huntold⟩ := leavesFlash_complete polled job.generation
      (polled.highlighter.highlightOrPlain job.request)
    rw [hpolled] at hflash hwanes huntold ⊢
    exact ⟨hflash, hwanes, huntold⟩
  · rename_i polled hpoll
    rw [← congrArg Prod.fst hpoll]
    exact ⟨rfl, Layers.wanes_self _, rfl⟩

theorem leavesFlash_setText {text : String} {language : Language}
    (h : editor.setText text language now = .ok (next, events)) :
    LeavesFlash editor next (events.map .event) := by
  obtain ⟨document, -, rfl, rfl⟩ | ⟨document, edit, layout, -, -, rfl, rfl⟩ := setText_eq_ok h
  · exact ⟨rfl, Layers.wanes_clear _ _, rfl⟩
  · exact ⟨rfl, (Layers.wanes_clear _ _).trans (Layers.wanes_clear _ _), rfl⟩

theorem leavesFlash_follow {document : Document} {history : History} {edit : Edit}
    {selections : Option SelectionSet}
    (h : follow { editor with document, history } edit selections now = .ok (next, events)) :
    LeavesFlash editor next (events.map .event) := by
  obtain ⟨styled, layout, -, -, rfl, rfl⟩ := follow_eq_ok h
  exact ⟨rfl, Layers.wanes_carry _ _, rfl⟩

theorem leavesFlash_edit {text : String} {selections : Option SelectionSet} {changed : Bool}
    (h : editor.edit text selections now = .ok (next, events, changed)) :
    LeavesFlash editor next (events.map .event) := by
  obtain ⟨-, -, rfl, rfl⟩ | ⟨-, document, edit, -, hfollow⟩ := edit_eq_ok h
  · cases selections with
    | none => exact leavesFlash_self editor
    | some selections =>
      exact ⟨rfl, Layers.wanes_self _, (leavesFlash_setSelections editor selections).untold⟩
  · exact leavesFlash_follow hfollow

theorem leavesFlash_restore {snapshot : Snapshot} {history : History}
    (h : restore { editor with history } snapshot now = .ok (next, events)) :
    LeavesFlash editor next (events.map .event) := by
  obtain ⟨-, rfl, rfl⟩ | ⟨document, edit, -, hfollow⟩ := restore_eq_ok h
  · exact ⟨rfl, Layers.wanes_self _, (leavesFlash_setSelections _ snapshot.selections).untold⟩
  · exact leavesFlash_follow hfollow

theorem leavesFlash_undo {done : Bool} (h : editor.undo now = .ok (next, events, done)) :
    LeavesFlash editor next (events.map .event) := by
  obtain ⟨-, -, rfl, rfl⟩ | ⟨-, snapshot, history, -, hrestore⟩ := undo_eq_ok h
  · exact leavesFlash_self _
  · exact leavesFlash_restore hrestore

theorem leavesFlash_redo {done : Bool} (h : editor.redo now = .ok (next, events, done)) :
    LeavesFlash editor next (events.map .event) := by
  obtain ⟨-, -, rfl, rfl⟩ | ⟨-, snapshot, history, -, hrestore⟩ := redo_eq_ok h
  · exact leavesFlash_self _
  · exact leavesFlash_restore hrestore

theorem leavesFlash_useLayout {layout : Layout} (h : editor.useLayout layout = .ok next) :
    LeavesFlash editor next [] := by
  obtain ⟨hflash, hwanes, huntold⟩ := leavesFlash_relayout h
  exact ⟨hflash, hwanes, huntold⟩

/-! ## All operations -/

/-- What an operation does to the flash of a jump target. -/
inductive FlashEffect (editor : Editor) : Operation → Reply → Prop
  | leave {operation : Operation} {reply : Reply} (hjump : operation.jumpTime? = none)
    (hleaves : LeavesFlash editor reply.editor reply.notices) : FlashEffect editor operation reply
  | start {operation : Operation} {reply : Reply} {line now : Nat} {range : LineRange}
    (hjump : operation.jumpTime? = some now)
    (hflash : reply.editor.flash =
      { editor.flash with current := some ⟨line, now + editor.flash.duration⟩ })
    (hdecorations : reply.editor.decorations =
      editor.decorations.replace Layers.flash [.flash range.start range.stop])
    (htold : reply.notices.filterMap Notice.flash? = [.started line]) :
    FlashEffect editor operation reply
  | finish {operation : Operation} {reply : Reply} {flashing : Flashing}
    (hjump : operation.jumpTime? = none) (hcurrent : editor.flash.current = some flashing)
    (hflash : reply.editor.flash = { editor.flash with current := none })
    (hwanes : Layers.Wanes (editor.decorations.clear Layers.flash) reply.editor.decorations)
    (htold : reply.notices.filterMap Notice.flash? = [.finished flashing.line]) :
    FlashEffect editor operation reply

theorem flashEffect_jump {operation : Operation} (hjump : operation.jumpTime? = some now)
    {line : Nat} {result : Editor × List Event × Nat}
    (h : editor.jump line now = .ok result) :
    FlashEffect editor operation (.ofAnswer .line result) := by
  unfold Editor.jump at h
  obtain ⟨⟨flash, range⟩, hstart, h⟩ := Fault.bind_eq_ok.mp h
  obtain ⟨found, -, hstart⟩ := Fault.bind_eq_ok.mp hstart
  have hline : max 1 (min (max 1 (min line editor.document.lines.count))
      editor.document.lines.count) = max 1 (min line editor.document.lines.count) := by omega
  rw [hline] at hstart
  cases hstart
  let jumped : Editor := { editor with
    flash := { editor.flash with
      current := some ⟨max 1 (min line editor.document.lines.count),
        now + editor.flash.duration⟩ }
    selections := .single (.between range.start range.stop)
    decorations := editor.decorations.replace Layers.flash [.flash range.start range.stop] }
  let target := max 1 (min line editor.document.lines.count) - 1
  obtain ⟨viewport, hviewport⟩ := scrollToLine_eq jumped target
  have huntold := (leavesFlash_scrollToLine jumped target).untold
  cases h
  refine .start hjump (congrArg Editor.flash hviewport) (congrArg Editor.decorations hviewport) ?_
  unfold Reply.ofAnswer
  rw [List.map_append, List.filterMap_append]
  exact congrArg (· ++ [FlashNotice.started _]) huntold

/-- A flash ends at the first passing of time behind its deadline. -/
theorem expireFlash_cases (editor : Editor) (now : Nat) :
    (∃ flashing, editor.flash.current = some flashing ∧ flashing.deadline ≤ now ∧
      editor.expireFlash now =
        ({ editor with
          flash := { editor.flash with current := none }
          decorations := editor.decorations.clear Layers.flash },
        [.decorationsChanged Layers.flash, .jumpFinished flashing.line])) ∨
    ((∀ flashing ∈ editor.flash.current, now < flashing.deadline) ∧
      editor.expireFlash now = (editor, [])) := by
  unfold Editor.expireFlash Flash.expire
  cases hcurrent : editor.flash.current with
  | none => exact Or.inr ⟨nofun, rfl⟩
  | some flashing =>
    dsimp only
    by_cases hdue : flashing.deadline ≤ now
    · rw [if_pos hdue]
      exact Or.inl ⟨flashing, rfl, hdue, rfl⟩
    · rw [if_neg hdue]
      refine Or.inr ⟨fun other hother ↦ ?_, rfl⟩
      rw [← Option.mem_some_iff.mp hother]
      exact Nat.lt_of_not_le hdue

theorem flashEffect_tick (editor : Editor) (now : Nat) :
    FlashEffect editor (.tick now) ⟨(editor.tick now).1, (editor.tick now).2, .nothing⟩ := by
  have hleaves := leavesFlash_runHighlight (editor.expireFlash now).1 now
  have htold : (editor.tick now).2 = (editor.expireFlash now).2.map .event ++
      ((editor.expireFlash now).1.runHighlight now).2 := rfl
  obtain ⟨flashing, hcurrent, -, hexpired⟩ | ⟨-, hexpired⟩ := expireFlash_cases editor now
  · have hcleared : (editor.expireFlash now).1.decorations =
        editor.decorations.clear Layers.flash := congrArg (·.1.decorations) hexpired
    have hwanes := hleaves.wanes
    rw [hcleared] at hwanes
    refine .finish rfl hcurrent (hleaves.flash.trans (congrArg (·.1.flash) hexpired)) hwanes ?_
    dsimp only
    rw [htold, List.filterMap_append, hleaves.untold, hexpired]
    rfl
  · have hbefore : LeavesFlash editor (editor.expireFlash now).1
        ((editor.expireFlash now).2.map .event) := by
      rw [hexpired]
      exact leavesFlash_self editor
    exact .leave rfl (hbefore.trans hleaves)

theorem flashEffect_perform {operation : Operation} {reply : Reply}
    (hreply : editor.perform operation = .ok reply) : FlashEffect editor operation reply := by
  cases operation with
  | setText text language now =>
    obtain ⟨result, hresult, rfl⟩ := Fault.map_eq_ok.mp hreply
    exact .leave rfl (leavesFlash_setText hresult)
  | edit text now =>
    obtain ⟨result, hresult, rfl⟩ := Fault.map_eq_ok.mp hreply
    exact .leave rfl (leavesFlash_edit hresult)
  | editSelecting text selections now =>
    obtain ⟨result, hresult, rfl⟩ := Fault.map_eq_ok.mp hreply
    exact .leave rfl (leavesFlash_edit hresult)
  | undo now =>
    obtain ⟨result, hresult, rfl⟩ := Fault.map_eq_ok.mp hreply
    exact .leave rfl (leavesFlash_undo hresult)
  | redo now =>
    obtain ⟨result, hresult, rfl⟩ := Fault.map_eq_ok.mp hreply
    exact .leave rfl (leavesFlash_redo hresult)
  | poll now =>
    obtain rfl := Except.ok.inj hreply
    exact .leave rfl ⟨rfl, Layers.wanes_self _, rfl⟩
  | complete generation styled =>
    obtain rfl := Except.ok.inj hreply
    exact .leave rfl (leavesFlash_complete editor generation styled)
  | tick now =>
    obtain rfl := Except.ok.inj hreply
    exact flashEffect_tick editor now
  | lint messages =>
    obtain rfl := Except.ok.inj hreply
    exact .leave rfl (leavesFlash_lint editor messages)
  | lintFor revision messages =>
    obtain rfl := Except.ok.inj hreply
    exact .leave rfl (leavesFlash_lintFor editor revision messages)
  | increaseFont =>
    obtain ⟨result, hresult, rfl⟩ := Fault.map_eq_ok.mp hreply
    exact .leave rfl (leavesFlash_adjustFont hresult)
  | decreaseFont =>
    obtain ⟨result, hresult, rfl⟩ := Fault.map_eq_ok.mp hreply
    exact .leave rfl (leavesFlash_adjustFont hresult)
  | adjustFont delta =>
    obtain ⟨result, hresult, rfl⟩ := Fault.map_eq_ok.mp hreply
    exact .leave rfl (leavesFlash_adjustFont hresult)
  | setTheme id now =>
    obtain rfl := Except.ok.inj hreply
    exact .leave rfl (leavesFlash_setTheme editor id now)
  | setLanguage language now =>
    obtain rfl := Except.ok.inj hreply
    exact .leave rfl (leavesFlash_setLanguage editor language now)
  | jump line now =>
    obtain ⟨result, hresult, rfl⟩ := Fault.map_eq_ok.mp hreply
    exact flashEffect_jump rfl hresult
  | click y now =>
    obtain ⟨result, hresult, rfl⟩ := Fault.map_eq_ok.mp hreply
    exact flashEffect_jump rfl hresult
  | select selections =>
    obtain rfl := Except.ok.inj hreply
    exact .leave rfl (leavesFlash_setSelections editor selections)
  | setViewportHeight height =>
    obtain rfl := Except.ok.inj hreply
    exact .leave rfl (leavesFlash_setViewportHeight editor height)
  | scroll y =>
    obtain rfl := Except.ok.inj hreply
    exact .leave rfl (leavesFlash_setScrollY editor y)
  | useLayout layout =>
    obtain ⟨result, hresult, rfl⟩ := Fault.map_eq_ok.mp hreply
    exact .leave rfl (leavesFlash_useLayout hresult)

/-! ## Runs -/

/-- Every end of a flash is told right behind its beginning. -/
def Paired (told : List FlashNotice) : Prop :=
  ∀ before line after, told = before ++ .finished line :: after →
    ∃ earlier, before = earlier ++ [.started line]

theorem paired_nil : Paired [] := fun _ _ _ h ↦ absurd h.symm (by simp)

/-- Where the last notice is an end, its beginning has to be the last one before. -/
theorem Paired.concat {told : List FlashNotice} (h : Paired told) {notice : FlashNotice}
    (hlast : ∀ line, notice = .finished line → told.getLast? = some (.started line)) :
    Paired (told ++ [notice]) := by
  intro before line after hsplit
  obtain rfl | ⟨rest, last, rfl⟩ := List.eq_nil_or_concat after
  · obtain ⟨rfl, hnotice⟩ := List.append_inj' hsplit rfl
    obtain ⟨earlier, hearlier⟩ := List.getLast?_eq_some_iff.mp (hlast line (by simpa using hnotice))
    exact ⟨earlier, hearlier⟩
  · have hconcat : told ++ [notice] = (before ++ .finished line :: rest) ++ [last] := by
      simpa using hsplit
    exact h before line rest (List.append_inj' hconcat rfl).1

/-- Whether a line flashes and what shows it agree; a flash that goes on belongs to the last jump,
whose beginning was told last. -/
structure Flashed (times : List Nat) (told : List FlashNotice) (editor : Editor) : Prop where
  once : editor.decorations.FlashesOnce
  dark : editor.flash.current = none → editor.decorations.Dark
  last : ∀ flashing ∈ editor.flash.current,
    times.getLast?.map (· + editor.flash.duration) = some flashing.deadline ∧
      told.getLast? = some (.started flashing.line)
  paired : Paired told

theorem flashed_create {settings : Settings} {highlighter : Highlighter}
    (h : create settings highlighter = .ok editor) :
    Flashed [] [] editor ∧ editor.flash.duration = settings.flashMs := by
  obtain ⟨layout, -, rfl⟩ := relayout_eq_ok.mp h
  exact ⟨⟨nofun, fun _ ↦ nofun, nofun, paired_nil⟩, rfl⟩

variable {times : List Nat} {told : List FlashNotice}

theorem Flashed.effect (h : Flashed times told editor) {operation : Operation} {reply : Reply}
    (heffect : FlashEffect editor operation reply) :
    Flashed (times ++ operation.jumpTime?.toList)
      (told ++ reply.notices.filterMap Notice.flash?) reply.editor ∧
    reply.editor.flash.duration = editor.flash.duration := by
  cases heffect with
  | leave hjump hleaves =>
    rw [hjump, hleaves.untold, Option.toList_none, List.append_nil, List.append_nil, hleaves.flash]
    refine ⟨⟨h.once.wanes hleaves.wanes, ?_, ?_, h.paired⟩, rfl⟩
    · rw [hleaves.flash]
      exact fun hcurrent ↦ (h.dark hcurrent).wanes hleaves.wanes
    · rw [hleaves.flash]
      exact h.last
  | start hjump hflash hdecorations htold =>
    rw [hjump, htold, hflash]
    refine ⟨⟨?_, ?_, ?_, h.paired.concat nofun⟩, rfl⟩
    · rw [hdecorations]
      exact h.once.replace _ _
    · rw [hflash]
      exact nofun
    · rw [hflash]
      intro flashing hflashing
      obtain rfl := Option.mem_some_iff.mp hflashing
      simp
  | @finish flashing hjump hcurrent hflash hwanes htold =>
    rw [hjump, htold, hflash, Option.toList_none, List.append_nil]
    refine ⟨⟨?_, ?_, ?_, h.paired.concat ?_⟩, rfl⟩
    · exact (h.once.wanes (Layers.wanes_clear _ _)).wanes hwanes
    · exact fun _ ↦ (Layers.dark_clear _).wanes hwanes
    · rw [hflash]
      exact nofun
    · intro line hline
      obtain rfl := FlashNotice.finished.inj hline
      exact (h.last flashing hcurrent).2

/-- What was told of flashes, in order. -/
def flashNotices (log : List (List Notice × Answer)) : List FlashNotice :=
  (log.flatMap Prod.fst).filterMap Notice.flash?

theorem Flashed.run {operations : List Operation} {log : List (List Notice × Answer)}
    (h : Flashed times told editor) (hrun : editor.run operations = .ok (next, log)) :
    Flashed (times ++ operations.filterMap Operation.jumpTime?) (told ++ flashNotices log) next ∧
      next.flash.duration = editor.flash.duration := by
  induction operations generalizing editor times told log with
  | nil =>
    cases hrun
    exact ⟨by simpa [flashNotices] using h, rfl⟩
  | cons operation rest ih =>
    obtain ⟨reply, hreply, hrun⟩ := Fault.bind_eq_ok.mp hrun
    obtain ⟨⟨reached, more⟩, hrest, hrun⟩ := Fault.bind_eq_ok.mp hrun
    cases hrun
    obtain ⟨hstep, hduration⟩ := h.effect (flashEffect_perform hreply)
    obtain ⟨hreached, hkept⟩ := ih hstep hrest
    refine ⟨?_, hkept.trans hduration⟩
    have htimes : (operation :: rest).filterMap Operation.jumpTime? =
        operation.jumpTime?.toList ++ rest.filterMap Operation.jumpTime? := by
      cases hjump : operation.jumpTime? <;> simp [hjump]
    rw [htimes, ← List.append_assoc]
    simpa [flashNotices, List.append_assoc] using hreached

/-- Once the deadline of the last jump has passed, the passing of time leaves nothing flashing. -/
theorem Flashed.expireFlash (h : Flashed times told editor) {now : Nat}
    (hover : ∀ time ∈ times.getLast?, time + editor.flash.duration ≤ now) :
    (editor.expireFlash now).1.flash.current = none ∧
      (editor.expireFlash now).1.decorations.Dark := by
  obtain ⟨flashing, -, -, hexpired⟩ | ⟨hlater, hexpired⟩ := expireFlash_cases editor now
  · rw [hexpired]
    exact ⟨rfl, Layers.dark_clear _⟩
  · rw [hexpired]
    have hcurrent : editor.flash.current = none := by
      rw [Option.eq_none_iff_forall_not_mem]
      intro flashing hflashing
      obtain ⟨time, htime, hdeadline⟩ := Option.map_eq_some_iff.mp (h.last flashing hflashing).1
      have hearly := hlater flashing hflashing
      have hlate := hover time htime
      omega
    exact ⟨hcurrent, h.dark hcurrent⟩

/-- There is at most one flash to be seen, and only while a line flashes. Once the time of the last
jump is over by as long as a flash lasts, the passing of time ends it. The end of a flash is told
right behind its beginning and for its line, so it is told at most once, and never for a jump that
another one has replaced. -/
theorem session_flash {settings : Settings} {highlighter : Highlighter}
    {operations : List Operation} {log : List (List Notice × Answer)}
    (h : session settings highlighter operations = .ok (editor, log)) :
    (editor.flash.current = none → editor.decorations.layer Layers.flash = []) ∧
    (editor.decorations.layer Layers.flash).length ≤ 1 ∧
    (∀ decoration ∈ editor.decorations.layer Layers.flash, decoration.kind = .flash) ∧
    (∀ now, (∀ time ∈ (operations.filterMap Operation.jumpTime?).getLast?,
        time + settings.flashMs ≤ now) →
      (editor.tick now).1.flash.current = none ∧
        (editor.tick now).1.decorations.layer Layers.flash = []) ∧
    ∀ before line after, flashNotices log = before ++ .finished line :: after →
      ∃ earlier, before = earlier ++ [.started line] := by
  obtain ⟨initial, hcreate, hrun⟩ := Fault.bind_eq_ok.mp h
  obtain ⟨hinitial, hduration⟩ := flashed_create hcreate
  obtain ⟨hflashed, hkept⟩ := hinitial.run hrun
  obtain ⟨honce, hkinds⟩ := hflashed.once.layer
  refine ⟨fun hcurrent ↦ (hflashed.dark hcurrent).layer, honce, hkinds, fun now hover ↦ ?_,
    hflashed.paired⟩
  rw [← hduration, ← hkept] at hover
  obtain ⟨hcurrent, hdark⟩ := hflashed.expireFlash hover
  have hleaves := leavesFlash_runHighlight (editor.expireFlash now).1 now
  exact ⟨(congrArg Flash.current hleaves.flash).trans hcurrent, (hdark.wanes hleaves.wanes).layer⟩

/-- Of two jumps with an edit between them, only the second one is told to be over. -/
theorem session_flash_replaced_jump :
    let operations : List Operation :=
      [.setText "a\nb\nc\n" .plain 0, .jump 2 0, .edit "a\nbb\nc\n" 100, .jump 3 200, .tick 600]
    ∃ editor log, session {} .plain operations = .ok (editor, log) ∧
      editor.decorations.layer Layers.flash = [.flash 5 6] ∧
      flashNotices log = [.started 2, .started 3] ∧
      (editor.tick 700).1.decorations.layer Layers.flash = [] := by
  intro operations
  have hresult : (session {} .plain operations).toOption.map
      (fun result ↦ (result.1.decorations.layer Layers.flash, flashNotices result.2)) =
        some ([.flash 5 6], [.started 2, .started 3]) := by decide +kernel
  obtain ⟨⟨editor, log⟩, hsession, hvalues⟩ := Fault.exists_of_toOption hresult
  obtain ⟨hlayer, htold⟩ := Prod.mk.inj hvalues
  obtain ⟨-, -, -, hover, -⟩ := session_flash hsession
  exact ⟨editor, log, hsession, hlayer, htold, (hover 700 (by decide)).2⟩

end Editor

end CodeEditor
