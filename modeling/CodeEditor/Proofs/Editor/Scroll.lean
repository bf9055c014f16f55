import CodeEditor.Proofs.Editor.Faultless
import CodeEditor.Proofs.Layout.Extent

/-!
# The scroll position

Scrolling, the viewport's height and the font size keep the scroll position inside the content, and
so does a jump. Changing the text or the layout does not look at it: the position stays where it
is, and lies outside if the content has become too short. So the scroll position is inside the
content throughout a session exactly if no such change leaves too little of it.
-/

namespace CodeEditor

/-- Where an operation asks to scroll to. -/
def Operation.scrollY? : Operation → Option Extent
  | scroll y => some y
  | _ => none

/-- The operations that change what is laid out, or by which layout. -/
def Operation.reflows : Operation → Bool
  | setText _ _ _ => true
  | edit _ _ => true
  | editSelecting _ _ _ => true
  | undo _ => true
  | redo _ => true
  | useLayout _ => true
  | _ => false

namespace Editor

variable {editor next : Editor} {events : List Event} {now : Nat}

/-! ## Inside the content -/

/-- The scroll position is one that can be scrolled to. -/
structure InContent (editor : Editor) : Prop where
  nonneg : 0 ≤ editor.viewport.scrollY
  le_max : editor.viewport.scrollY ≤ editor.maxScroll

theorem zero_le_maxScroll (editor : Editor) : 0 ≤ editor.maxScroll := Extent.zero_le_max _

theorem InContent.of_same (h : InContent editor) (hviewport : next.viewport = editor.viewport)
    (hlayout : next.layout = editor.layout) : InContent next := by
  have hmax : next.maxScroll = editor.maxScroll := by
    unfold maxScroll
    rw [hviewport, hlayout]
  constructor
  · rw [hviewport]
    exact h.nonneg
  · rw [hviewport, hmax]
    exact h.le_max

/-- Scrolling to where the viewport is changes nothing exactly if that is inside the content. -/
theorem setScrollY_eq_self_iff (h : 0 ≤ editor.viewport.scrollY) :
    editor.setScrollY editor.viewport.scrollY = (editor, []) ↔ InContent editor := by
  have hclamp := Extent.clamp_beq_iff editor.zero_le_maxScroll (Extent.defined_of_le h).2
  unfold setScrollY
  dsimp only
  split
  · rename_i hsame
    have hwithin := hclamp.mp hsame
    exact ⟨fun _ ↦ ⟨hwithin.1, hwithin.2⟩, fun _ ↦ rfl⟩
  · rename_i hmoved
    constructor
    · intro heq
      nomatch (Prod.mk.inj heq).2
    · intro hinside
      exact absurd (hclamp.mpr ⟨hinside.nonneg, hinside.le_max⟩) hmoved

/-- Wherever it is asked to scroll to, the viewport is inside the content afterwards. -/
theorem inContent_setScrollY (editor : Editor) {scrollY : Extent} (h : scrollY.isNaN = false) :
    InContent (editor.setScrollY scrollY).1 := by
  have hwithin := Extent.clamp_within editor.zero_le_maxScroll h
  unfold setScrollY
  dsimp only
  split
  · rename_i hsame
    exact ⟨Extent.le_of_le_of_beq hwithin.1 hsame, Extent.le_of_beq_of_le hsame hwithin.2⟩
  · exact ⟨hwithin.1, hwithin.2⟩

/-! ## All operations -/

/-- What an operation does to the scroll position. -/
inductive ScrollEffect (editor : Editor) (operation : Operation) (next : Editor) : Prop
  | keep (hreflows : operation.reflows = false) (hviewport : next.viewport = editor.viewport)
    (hlayout : next.layout = editor.layout)
  | clamp (hreflows : operation.reflows = false) (hinside : InContent next)
  | reflow (hreflows : operation.reflows = true) (hviewport : next.viewport = editor.viewport)

theorem scrollToLine_cases (editor : Editor) (line : Nat) :
    (editor.scrollToLine line).1 = editor ∨ InContent (editor.scrollToLine line).1 := by
  unfold scrollToLine
  split
  · exact Or.inl rfl
  · rename_i rect hrect
    split
    · rename_i habove
      exact Or.inr (inContent_setScrollY editor (Extent.defined_of_lt habove).1)
    · split
      · -- The bottom of the line compares, so its top is defined, and that bounds where to scroll.
        rename_i hbelow
        have htop : rect.y.isNaN = false :=
          Extent.defined_of_add (Extent.defined_of_lt hbelow).2
        exact Or.inr (inContent_setScrollY editor (Extent.defined_min _ htop))
      · exact Or.inl rfl

theorem scrollEffect_jump {operation : Operation} (hreflows : operation.reflows = false)
    {line reached : Nat} (h : editor.jump line now = .ok (next, events, reached)) :
    ScrollEffect editor operation next := by
  unfold Editor.jump at h
  obtain ⟨⟨flash, range⟩, -, h⟩ := Fault.bind_eq_ok.mp h
  let jumped : Editor := { editor with
    flash
    selections := .single (.between range.start range.stop)
    decorations := editor.decorations.replace Layers.flash [.flash range.start range.stop] }
  let target := max 1 (min line editor.document.lines.count) - 1
  have hnext : next = (jumped.scrollToLine target).1 := congrArg Prod.fst (Except.ok.inj h).symm
  rw [hnext]
  obtain hstays | hinside := scrollToLine_cases jumped target
  · rw [hstays]
    exact .keep hreflows rfl rfl
  · exact .clamp hreflows hinside

theorem scrollEffect_adjustFont {operation : Operation} (hreflows : operation.reflows = false)
    (hnonneg : 0 ≤ editor.viewport.scrollY) {delta : Float32} {changed : Bool}
    (h : editor.adjustFont delta = .ok (next, events, changed)) :
    ScrollEffect editor operation next := by
  unfold Editor.adjustFont at h
  split at h
  · cases h
    exact .keep hreflows rfl rfl
  · obtain ⟨laid, hlaid, h⟩ := Fault.bind_eq_ok.mp h
    have hnext : next = (laid.setScrollY laid.viewport.scrollY).1 :=
      congrArg Prod.fst (Except.ok.inj h).symm
    obtain ⟨layout, -, rfl⟩ := relayout_eq_ok.mp hlaid
    rw [hnext]
    exact .clamp hreflows (inContent_setScrollY _ (Extent.defined_of_le hnonneg).2)

theorem viewport_follow {document : Document} {history : History} {edit : Edit}
    {selections : Option SelectionSet}
    (h : follow { editor with document, history } edit selections now = .ok (next, events)) :
    next.viewport = editor.viewport := by
  obtain ⟨styled, layout, -, -, rfl, -⟩ := follow_eq_ok h
  rfl

theorem viewport_setText {text : String} {language : Language}
    (h : editor.setText text language now = .ok (next, events)) :
    next.viewport = editor.viewport := by
  obtain ⟨document, -, rfl, -⟩ | ⟨document, edit, layout, -, -, rfl, -⟩ := setText_eq_ok h
  · rfl
  · rfl

theorem viewport_edit {text : String} {selections : Option SelectionSet} {changed : Bool}
    (h : editor.edit text selections now = .ok (next, events, changed)) :
    next.viewport = editor.viewport := by
  obtain ⟨-, -, rfl, -⟩ | ⟨-, document, edit, -, hfollow⟩ := edit_eq_ok h
  · rfl
  · exact viewport_follow hfollow

theorem viewport_restore {snapshot : Snapshot} {history : History}
    (h : restore { editor with history } snapshot now = .ok (next, events)) :
    next.viewport = editor.viewport := by
  obtain ⟨-, rfl, -⟩ | ⟨document, edit, -, hfollow⟩ := restore_eq_ok h
  · rfl
  · exact viewport_follow hfollow

theorem viewport_undo {done : Bool} (h : editor.undo now = .ok (next, events, done)) :
    next.viewport = editor.viewport := by
  obtain ⟨-, -, rfl, -⟩ | ⟨-, snapshot, history, -, hrestore⟩ := undo_eq_ok h
  · rfl
  · exact viewport_restore hrestore

theorem viewport_redo {done : Bool} (h : editor.redo now = .ok (next, events, done)) :
    next.viewport = editor.viewport := by
  obtain ⟨-, -, rfl, -⟩ | ⟨-, snapshot, history, -, hrestore⟩ := redo_eq_ok h
  · rfl
  · exact viewport_restore hrestore

theorem viewport_complete (editor : Editor) (generation : Generation) (styled : StyledText) :
    (editor.complete generation styled).1.viewport = editor.viewport ∧
      (editor.complete generation styled).1.layout = editor.layout := by
  obtain ⟨-, -, selections, decorations, hcomplete⟩ | ⟨-, hcomplete⟩ :=
    complete_cases editor generation styled
  · rw [hcomplete]
    exact ⟨rfl, rfl⟩
  · rw [hcomplete]
    exact ⟨rfl, rfl⟩

theorem viewport_tick (editor : Editor) (now : Nat) :
    (editor.tick now).1.viewport = editor.viewport ∧
      (editor.tick now).1.layout = editor.layout := by
  have hexpired : (editor.expireFlash now).1.viewport = editor.viewport ∧
      (editor.expireFlash now).1.layout = editor.layout := by
    unfold Editor.expireFlash
    split <;> exact ⟨rfl, rfl⟩
  change ((editor.expireFlash now).1.runHighlight now).1.viewport = editor.viewport ∧
    ((editor.expireFlash now).1.runHighlight now).1.layout = editor.layout
  rw [← hexpired.1, ← hexpired.2]
  generalize (editor.expireFlash now).1 = expired
  unfold Editor.runHighlight
  split
  · rename_i polled job hpoll
    obtain rfl : (expired.poll now).1 = polled := congrArg Prod.fst hpoll
    exact viewport_complete (expired.poll now).1 job.generation _
  · rename_i polled hpoll
    obtain rfl : (expired.poll now).1 = polled := congrArg Prod.fst hpoll
    exact ⟨rfl, rfl⟩

theorem viewport_lint (editor : Editor) (messages : List LintMessage) :
    (editor.lint messages).1.viewport = editor.viewport ∧
      (editor.lint messages).1.layout = editor.layout := by
  obtain ⟨decorations, hlint⟩ := lint_eq editor messages
  rw [hlint]
  exact ⟨rfl, rfl⟩

theorem scrollEffect_perform (hnonneg : 0 ≤ editor.viewport.scrollY) {operation : Operation}
    (hdefined : ∀ y ∈ operation.scrollY?, y.isNaN = false) {reply : Reply}
    (hreply : editor.perform operation = .ok reply) :
    ScrollEffect editor operation reply.editor := by
  cases operation with
  | setText text language now =>
    obtain ⟨result, hresult, rfl⟩ := Fault.map_eq_ok.mp hreply
    exact .reflow rfl (viewport_setText hresult)
  | edit text now =>
    obtain ⟨result, hresult, rfl⟩ := Fault.map_eq_ok.mp hreply
    exact .reflow rfl (viewport_edit hresult)
  | editSelecting text selections now =>
    obtain ⟨result, hresult, rfl⟩ := Fault.map_eq_ok.mp hreply
    exact .reflow rfl (viewport_edit hresult)
  | undo now =>
    obtain ⟨result, hresult, rfl⟩ := Fault.map_eq_ok.mp hreply
    exact .reflow rfl (viewport_undo hresult)
  | redo now =>
    obtain ⟨result, hresult, rfl⟩ := Fault.map_eq_ok.mp hreply
    exact .reflow rfl (viewport_redo hresult)
  | poll now =>
    obtain rfl := Except.ok.inj hreply
    exact .keep rfl rfl rfl
  | complete generation styled =>
    obtain rfl := Except.ok.inj hreply
    obtain ⟨hviewport, hlayout⟩ := viewport_complete editor generation styled
    exact .keep rfl hviewport hlayout
  | tick now =>
    obtain rfl := Except.ok.inj hreply
    obtain ⟨hviewport, hlayout⟩ := viewport_tick editor now
    exact .keep rfl hviewport hlayout
  | lint messages =>
    obtain rfl := Except.ok.inj hreply
    obtain ⟨hviewport, hlayout⟩ := viewport_lint editor messages
    exact .keep rfl hviewport hlayout
  | lintFor revision messages =>
    obtain rfl := Except.ok.inj hreply
    unfold Editor.lintFor
    split
    · obtain ⟨hviewport, hlayout⟩ := viewport_lint editor messages
      exact .keep rfl hviewport hlayout
    · exact .keep rfl rfl rfl
  | increaseFont =>
    obtain ⟨result, hresult, rfl⟩ := Fault.map_eq_ok.mp hreply
    exact scrollEffect_adjustFont rfl hnonneg hresult
  | decreaseFont =>
    obtain ⟨result, hresult, rfl⟩ := Fault.map_eq_ok.mp hreply
    exact scrollEffect_adjustFont rfl hnonneg hresult
  | adjustFont delta =>
    obtain ⟨result, hresult, rfl⟩ := Fault.map_eq_ok.mp hreply
    exact scrollEffect_adjustFont rfl hnonneg hresult
  | setTheme id now =>
    obtain rfl := Except.ok.inj hreply
    unfold Editor.setTheme
    split <;> exact .keep rfl rfl rfl
  | setLanguage language now =>
    obtain rfl := Except.ok.inj hreply
    unfold Editor.setLanguage
    split <;> exact .keep rfl rfl rfl
  | jump line now =>
    obtain ⟨result, hresult, rfl⟩ := Fault.map_eq_ok.mp hreply
    exact scrollEffect_jump rfl hresult
  | click y now =>
    obtain ⟨result, hresult, rfl⟩ := Fault.map_eq_ok.mp hreply
    exact scrollEffect_jump rfl hresult
  | select selections =>
    obtain rfl := Except.ok.inj hreply
    have hnext := setSelections_eq editor selections
    exact .keep rfl (congrArg (·.viewport) hnext) (congrArg (·.layout) hnext)
  | setViewportHeight height =>
    obtain rfl := Except.ok.inj hreply
    exact .clamp rfl (inContent_setScrollY _ (Extent.defined_of_le hnonneg).2)
  | scroll y =>
    obtain rfl := Except.ok.inj hreply
    exact .clamp rfl (inContent_setScrollY editor (hdefined y rfl))
  | useLayout layout =>
    obtain ⟨result, hresult, rfl⟩ := Fault.map_eq_ok.mp hreply
    obtain ⟨laid, -, rfl⟩ := relayout_eq_ok.mp hresult
    exact .reflow rfl rfl

/-! ## Runs -/

theorem run_concat_eq_ok {operations : List Operation} {operation : Operation} :
    (∃ log, editor.run (operations ++ [operation]) = .ok (next, log)) ↔
      ∃ reached told reply, editor.run operations = .ok (reached, told) ∧
        reached.perform operation = .ok reply ∧ reply.editor = next := by
  induction operations generalizing editor with
  | nil =>
    constructor
    · rintro ⟨log, h⟩
      obtain ⟨reply, hreply, h⟩ := Fault.bind_eq_ok.mp h
      cases h
      exact ⟨editor, [], reply, rfl, hreply, rfl⟩
    · rintro ⟨reached, told, reply, hreached, hreply, rfl⟩
      cases hreached
      exact ⟨_, Fault.bind_eq_ok.mpr ⟨reply, hreply, rfl⟩⟩
  | cons first rest ih =>
    constructor
    · rintro ⟨log, h⟩
      obtain ⟨reply, hreply, h⟩ := Fault.bind_eq_ok.mp h
      obtain ⟨⟨middle, more⟩, hrest, h⟩ := Fault.bind_eq_ok.mp h
      cases h
      obtain ⟨reached, told, last, hreached, hlast, hnext⟩ := ih.mp ⟨more, hrest⟩
      refine ⟨reached, (reply.notices, reply.answer) :: told, last, ?_, hlast, hnext⟩
      exact Fault.bind_eq_ok.mpr ⟨reply, hreply, Fault.bind_eq_ok.mpr ⟨_, hreached, rfl⟩⟩
    · rintro ⟨reached, told, last, hreached, hlast, hnext⟩
      obtain ⟨reply, hreply, h⟩ := Fault.bind_eq_ok.mp hreached
      obtain ⟨⟨middle, more⟩, hrest, h⟩ := Fault.bind_eq_ok.mp h
      cases h
      obtain ⟨log, hrun⟩ := ih.mpr ⟨_, more, last, hrest, hlast, hnext⟩
      exact ⟨_, Fault.bind_eq_ok.mpr ⟨reply, hreply, Fault.bind_eq_ok.mpr ⟨_, hrun, rfl⟩⟩⟩

section

variable {settings : Settings} {highlighter : Highlighter} {operations : List Operation}
  {log : List (List Notice × Answer)}

theorem session_concat_eq_ok {operation : Operation} :
    (∃ log, session settings highlighter (operations ++ [operation]) = .ok (next, log)) ↔
      ∃ reached told reply, session settings highlighter operations = .ok (reached, told) ∧
        reached.perform operation = .ok reply ∧ reply.editor = next := by
  constructor
  · rintro ⟨log, h⟩
    obtain ⟨initial, hinitial, hrun⟩ := Fault.bind_eq_ok.mp h
    obtain ⟨reached, told, reply, hreached, hlast⟩ := run_concat_eq_ok.mp ⟨log, hrun⟩
    exact ⟨reached, told, reply, Fault.bind_eq_ok.mpr ⟨initial, hinitial, hreached⟩, hlast⟩
  · rintro ⟨reached, told, reply, h, hlast⟩
    obtain ⟨initial, hinitial, hrun⟩ := Fault.bind_eq_ok.mp h
    obtain ⟨log, hrun⟩ := run_concat_eq_ok.mpr ⟨reached, told, reply, hrun, hlast⟩
    exact ⟨log, Fault.bind_eq_ok.mpr ⟨initial, hinitial, hrun⟩⟩

theorem session_nil (h : session settings highlighter [] = .ok (editor, log)) :
    create settings highlighter = .ok editor := by
  obtain ⟨initial, hinitial, hrun⟩ := Fault.bind_eq_ok.mp h
  cases hrun
  exact hinitial

theorem inContent_create (h : create settings highlighter = .ok editor) : InContent editor := by
  obtain ⟨layout, -, rfl⟩ := relayout_eq_ok.mp h
  exact ⟨Extent.le_self (by decide +kernel), zero_le_maxScroll _⟩

/-- The scroll position never becomes negative or undefined. -/
theorem zero_le_scrollY (hdefined : ∀ operation ∈ operations, ∀ y ∈ operation.scrollY?,
      y.isNaN = false) (h : session settings highlighter operations = .ok (editor, log)) :
    0 ≤ editor.viewport.scrollY := by
  induction operations using List.reverseRecOn generalizing editor log with
  | nil => exact (inContent_create (session_nil h)).nonneg
  | append_singleton before operation ih =>
    obtain ⟨hbefore, hlast⟩ := List.forall_mem_append.mp hdefined
    obtain ⟨reached, told, reply, hreached, hreply, rfl⟩ := session_concat_eq_ok.mp ⟨log, h⟩
    have hnonneg := ih hbefore hreached
    cases scrollEffect_perform hnonneg (hlast operation List.mem_cons_self) hreply with
    | keep hreflows hviewport hlayout => rwa [hviewport]
    | clamp hreflows hinside => exact hinside.nonneg
    | reflow hreflows hviewport => rwa [hviewport]

/-- The scroll position is inside the content, and scrolling to it changes nothing, throughout a
session exactly if it still is after every operation that changes the text or the layout. -/
theorem session_inContent_iff (settings : Settings) (highlighter : Highlighter)
    (operations : List Operation)
    (hdefined : ∀ operation ∈ operations, ∀ y ∈ operation.scrollY?, y.isNaN = false) :
    (∀ before after reached told, operations = before ++ after →
      session settings highlighter before = .ok (reached, told) →
      InContent reached ∧ reached.setScrollY reached.viewport.scrollY = (reached, [])) ↔
    ∀ before operation after reached told reply, operations = before ++ operation :: after →
      operation.reflows = true → session settings highlighter before = .ok (reached, told) →
      reached.perform operation = .ok reply →
      reached.viewport.scrollY ≤ reply.editor.maxScroll := by
  constructor
  · intro hinside before operation after reached told reply hsplit hreflows hsession hreply
    obtain ⟨more, hnext⟩ :=
      session_concat_eq_ok.mpr ⟨reached, told, reply, hsession, hreply, rfl⟩
    have hfits := (hinside (before ++ [operation]) after reply.editor more (by simpa) hnext).1
    rw [hsplit] at hdefined
    obtain ⟨hbefore, hrest⟩ := List.forall_mem_append.mp hdefined
    have hnonneg := zero_le_scrollY hbefore hsession
    cases scrollEffect_perform hnonneg (hrest operation List.mem_cons_self) hreply with
    | keep hkeeps => rw [hreflows] at hkeeps; nomatch hkeeps
    | clamp hclamps => rw [hreflows] at hclamps; nomatch hclamps
    | reflow _ hviewport => exact hviewport ▸ hfits.le_max
  · intro hfits before after reached told hsplit hsession
    have hprefix : ∀ operation ∈ before, ∀ y ∈ operation.scrollY?, y.isNaN = false := by
      intro operation hoperation
      exact hdefined operation (hsplit ▸ List.mem_append_left after hoperation)
    rw [setScrollY_eq_self_iff (zero_le_scrollY hprefix hsession), and_self]
    induction before using List.reverseRecOn generalizing after reached told with
    | nil => exact inContent_create (session_nil hsession)
    | append_singleton before operation ih =>
      obtain ⟨hbefore, hlast⟩ := List.forall_mem_append.mp hprefix
      obtain ⟨middle, earlier, reply, hmiddle, hreply, rfl⟩ :=
        session_concat_eq_ok.mp ⟨told, hsession⟩
      rw [List.append_assoc, List.singleton_append] at hsplit
      have hinside := ih _ _ _ hsplit hmiddle hbefore
      cases scrollEffect_perform hinside.nonneg (hlast operation List.mem_cons_self) hreply with
      | keep hreflows hviewport hlayout => exact hinside.of_same hviewport hlayout
      | clamp hreflows hnext => exact hnext
      | reflow hreflows hviewport =>
        have hle := hfits before operation after middle earlier reply hsplit hreflows hmiddle hreply
        exact ⟨hviewport ▸ hinside.nonneg, hviewport ▸ hle⟩

/-- The scroll position is past the maximal one after an edit that leaves one line of four. -/
theorem session_scroll_past_short_edit :
    ∃ editor log,
      session {} .plain [.setText "a\nb\nc\nd" .plain 0, .setViewportHeight 20, .scroll 50,
        .edit "a" 1] = .ok (editor, log) ∧
      editor.viewport.scrollY = 50 ∧ editor.maxScroll = 0 := by
  have hresult : (session {} .plain [.setText "a\nb\nc\nd" .plain 0, .setViewportHeight 20,
      .scroll 50, .edit "a" 1]).toOption.map
        (fun result ↦ (result.1.viewport.scrollY, result.1.maxScroll)) = some (50, 0) := by
    decide +kernel
  obtain ⟨⟨editor, log⟩, hsession, hvalues⟩ := Fault.exists_of_toOption hresult
  obtain ⟨hscroll, hmax⟩ := Prod.mk.inj hvalues
  exact ⟨editor, log, hsession, hscroll, hmax⟩

/-- The same edit shows that the scroll position does not stay inside the content. -/
theorem session_not_inContent_short_edit :
    let operations : List Operation := [.setText "a\nb\nc\nd" .plain 0, .setViewportHeight 20,
      .scroll 50, .edit "a" 1]
    ¬∀ before after reached told, operations = before ++ after →
      session {} .plain before = .ok (reached, told) →
      InContent reached ∧ reached.setScrollY reached.viewport.scrollY = (reached, []) := by
  intro operations hinside
  have hdefined : ∀ operation ∈ operations, ∀ y ∈ operation.scrollY?, y.isNaN = false := by
    decide +kernel
  have hfits := (session_inContent_iff {} .plain operations hdefined).mp hinside
  have hresult : (session {} .plain (operations.take 3)).toOption.map (fun result ↦
      (result.1.perform (.edit "a" 1)).toOption.map (fun reply ↦
        decide (result.1.viewport.scrollY ≤ reply.editor.maxScroll))) = some (some false) := by
    decide +kernel
  obtain ⟨⟨reached, told⟩, hsession, hresult⟩ := Fault.exists_of_toOption hresult
  obtain ⟨reply, hreply, hpast⟩ := Fault.exists_of_toOption hresult
  exact of_decide_eq_false hpast
    (hfits (operations.take 3) (.edit "a" 1) [] _ _ _ rfl rfl hsession hreply)

end

end Editor

end CodeEditor
