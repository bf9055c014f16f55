import CodeEditor.Language
import Mathlib.Data.List.TakeWhile

/-!
# The language of a path

A path is split at its last dot, and only then is it asked whether a slash stands behind that dot.
So a directory matters in one case only: a name that is nothing but a dot and an extension tells the
language of the extension if a directory stands in front of it, and no language otherwise.
-/

namespace CodeEditor.Language

/-! ## The last dot -/

theorem splitLastDot_of_not_mem {path : List Char} (h : '.' ∉ path) : splitLastDot path = none := by
  induction path with
  | nil => rfl
  | cons c rest ih =>
    obtain ⟨hc, hrest⟩ := List.ne_and_not_mem_of_not_mem_cons h
    rw [splitLastDot, ih hrest]
    exact if_neg hc.symm

theorem splitLastDot_append (stem : List Char) {extension : List Char} (h : '.' ∉ extension) :
    splitLastDot (stem ++ '.' :: extension) = some (stem, extension) := by
  induction stem with
  | nil =>
    rw [List.nil_append, splitLastDot, splitLastDot_of_not_mem h]
    exact if_pos rfl
  | cons c rest ih => rw [List.cons_append, splitLastDot, ih]

/-- A path has no dot, or stands around its last one. -/
theorem exists_lastDot (path : List Char) :
    '.' ∉ path ∨ ∃ stem extension, path = stem ++ '.' :: extension ∧ '.' ∉ extension := by
  induction path with
  | nil => exact Or.inl List.not_mem_nil
  | cons c rest ih =>
    obtain hrest | ⟨stem, extension, rfl, hextension⟩ := ih
    · by_cases hc : c = '.'
      · exact Or.inr ⟨[], rest, by rw [hc, List.nil_append], hrest⟩
      · exact Or.inl (List.not_mem_cons_of_ne_of_not_mem (Ne.symm hc) hrest)
    · exact Or.inr ⟨c :: stem, extension, rfl, hextension⟩

theorem dropWhile_of_not_mem {extension : List Char} (h : '.' ∉ extension) :
    extension.dropWhile (· == '.') = extension := by
  rw [List.dropWhile_eq_self_iff]
  intro hlength hfirst
  exact h (eq_of_beq hfirst ▸ List.getElem_mem hlength)

/-! ## Extensions -/

theorem ofExtension_of_mem {language : Language} {extension : String}
    (h : lowercase (extension.toList.dropWhile (· == '.')) ∈ language.extensions) :
    ofExtension extension = language := by
  unfold ofExtension
  generalize lowercase (extension.toList.dropWhile (· == '.')) = wanted at h
  have hall : ∀ language ∈ all, ∀ wanted ∈ language.extensions,
      (all.find? (·.extensions.contains wanted)).getD fallback = language := by
    decide
  exact hall language (by cases language <;> decide) wanted h

/-- A language is told only by an extension of its own. -/
theorem mem_extensions_of_ne_plain {extension : String} (h : ofExtension extension ≠ plain) :
    lowercase (extension.toList.dropWhile (· == '.')) ∈ (ofExtension extension).extensions := by
  unfold ofExtension at h ⊢
  generalize lowercase (extension.toList.dropWhile (· == '.')) = wanted at h ⊢
  dsimp only at h ⊢
  cases hfind : all.find? (·.extensions.contains wanted) with
  | none =>
    rw [hfind] at h
    exact absurd rfl h
  | some language =>
    have hmem := List.find?_some (p := fun candidate : Language ↦
      candidate.extensions.contains wanted) hfind
    exact List.contains_iff_mem.mp hmem

/-- The name is a dot and an extension of the language, in letters of any case. -/
def DotFile (language : Language) (name : String) : Prop :=
  ∃ extension, name = "." ++ extension ∧ lowercase extension.toList ∈ language.extensions

/-- An extension has neither dots nor slashes. -/
theorem not_mem_of_lowercase_mem {language : Language} {extension : List Char}
    (h : lowercase extension ∈ language.extensions) : '.' ∉ extension ∧ '/' ∉ extension := by
  have hall : ∀ language ∈ all, ∀ wanted ∈ language.extensions,
      '.' ∉ wanted.toList ∧ '/' ∉ wanted.toList := by
    decide
  have hwanted := hall language (by cases language <;> decide) _ h
  rw [lowercase, String.toList_ofList] at hwanted
  exact ⟨fun hdot ↦ hwanted.1 (List.mem_map.mpr ⟨'.', hdot, by decide⟩),
    fun hslash ↦ hwanted.2 (List.mem_map.mpr ⟨'/', hslash, by decide⟩)⟩

/-! ## Directories -/

theorem ofPath_of_not_mem {path : String} (h : '.' ∉ path.toList) : ofPath path = plain := by
  rw [ofPath, splitLastDot_of_not_mem h]
  rfl

theorem ofPath_of_lastDot {path : String} {stem extension : List Char}
    (hpath : path.toList = stem ++ '.' :: extension) (hdot : '.' ∉ extension) :
    ofPath path =
      if stem ≠ [] ∧ '/' ∉ extension then ofExtension (String.ofList extension) else plain := by
  rw [ofPath, hpath, splitLastDot_append stem hdot]
  change (if _ then _ else _) = _
  congr 1
  simp

theorem toList_directory (directory name : String) :
    (directory ++ "/" ++ name).toList = directory.toList ++ '/' :: name.toList := by
  rw [String.toList_append, String.toList_append, List.append_assoc]
  rfl

/-- Behind a directory the extension of a name always counts. -/
theorem ofPath_directory_of_lastDot {name : String} {stem extension : List Char}
    (hname : name.toList = stem ++ '.' :: extension) (hdot : '.' ∉ extension)
    (hslash : '/' ∉ extension) (directory : String) :
    ofPath (directory ++ "/" ++ name) = ofExtension (String.ofList extension) := by
  have hpath : (directory ++ "/" ++ name).toList =
      (directory.toList ++ '/' :: stem) ++ '.' :: extension := by
    rw [toList_directory, hname, List.append_assoc, List.cons_append]
  rw [ofPath_of_lastDot hpath hdot, if_pos]
  exact ⟨List.append_ne_nil_of_right_ne_nil _ (List.cons_ne_nil _ _), hslash⟩

/-- A name without a dot tells nothing, whatever dots its directory has. -/
theorem ofPath_directory_of_not_mem {name : String} (hname : '.' ∉ name.toList)
    (directory : String) : ofPath (directory ++ "/" ++ name) = plain := by
  have hrest : '.' ∉ '/' :: name.toList :=
    List.not_mem_cons_of_ne_of_not_mem (by decide) hname
  obtain hnone | ⟨stem, extension, hdirectory, hdot⟩ := exists_lastDot directory.toList
  · apply ofPath_of_not_mem
    rw [toList_directory, List.mem_append]
    exact not_or.mpr ⟨hnone, hrest⟩
  · have hpath : (directory ++ "/" ++ name).toList =
        stem ++ '.' :: (extension ++ '/' :: name.toList) := by
      rw [toList_directory, hdirectory, List.append_assoc, List.cons_append]
    have hdot : '.' ∉ extension ++ '/' :: name.toList := by
      rw [List.mem_append]
      exact not_or.mpr ⟨hdot, hrest⟩
    rw [ofPath_of_lastDot hpath hdot, if_neg]
    rintro ⟨-, hslash⟩
    exact hslash (List.mem_append_right _ List.mem_cons_self)

/-- A dot file tells its language behind a directory only. -/
theorem DotFile.ofPath_eq {language : Language} {name : String} (h : language.DotFile name)
    (directory : String) :
    ofPath (directory ++ "/" ++ name) = language ∧ ofPath name = plain := by
  obtain ⟨extension, rfl, hmem⟩ := h
  obtain ⟨hdot, hslash⟩ := not_mem_of_lowercase_mem hmem
  have hname : ("." ++ extension).toList = [] ++ '.' :: extension.toList := by
    rw [String.toList_append]
    rfl
  have hdrop := dropWhile_of_not_mem hdot
  constructor
  · rw [ofPath_directory_of_lastDot hname hdot hslash, String.ofList_toList]
    apply ofExtension_of_mem
    rwa [hdrop]
  · rw [ofPath_of_lastDot hname hdot, if_neg fun h ↦ h.1 rfl]

/-- A name tells the same behind every directory, and without one unless it is a dot file. -/
theorem exists_told {name : String} (hname : '/' ∉ name.toList) :
    ∃ told, (∀ directory, ofPath (directory ++ "/" ++ name) = told) ∧
      (ofPath name = told ∨ DotFile told name) := by
  obtain hnone | ⟨stem, extension, hsplit, hdot⟩ := exists_lastDot name.toList
  · exact ⟨plain, ofPath_directory_of_not_mem hnone, Or.inl (ofPath_of_not_mem hnone)⟩
  have hslash : '/' ∉ extension := fun h ↦ hname <| by
    rw [hsplit]
    exact List.mem_append_right _ (List.mem_cons_of_mem _ h)
  refine ⟨_, ofPath_directory_of_lastDot hsplit hdot hslash, ?_⟩
  rw [ofPath_of_lastDot hsplit hdot]
  cases stem with
  | nil =>
    rw [if_neg fun h ↦ h.1 rfl]
    by_cases hplain : ofExtension (String.ofList extension) = plain
    · exact Or.inl hplain.symm
    · have hmem := mem_extensions_of_ne_plain hplain
      rw [String.toList_ofList, dropWhile_of_not_mem hdot] at hmem
      refine Or.inr ⟨String.ofList extension, ?_, by rwa [String.toList_ofList]⟩
      apply String.toList_injective
      rw [hsplit, String.toList_append, String.toList_ofList (l := extension)]
      rfl
  | cons c rest => exact Or.inl (if_pos ⟨List.cons_ne_nil c rest, hslash⟩)

/-- Which directory a name stands in makes no difference, and neither does whether it stands in one,
unless the name is a dot and an extension: then a directory makes it tell a language. -/
theorem ofPath_directory {name : String} (hname : '/' ∉ name.toList) (directory : String) :
    (∀ other, ofPath (directory ++ "/" ++ name) = ofPath (other ++ "/" ++ name)) ∧
    (ofPath (directory ++ "/" ++ name) = ofPath name ↔
      ∀ language, DotFile language name → language = plain) ∧
    ∀ language, DotFile language name →
      ofPath (directory ++ "/" ++ name) = language ∧ ofPath name = plain := by
  obtain ⟨told, htold, hname⟩ := exists_told hname
  refine ⟨fun other ↦ (htold directory).trans (htold other).symm, ⟨?_, ?_⟩,
    fun language hfile ↦ hfile.ofPath_eq directory⟩
  · intro hsame language hfile
    obtain ⟨hlanguage, hplain⟩ := hfile.ofPath_eq directory
    rw [← hlanguage, hsame, hplain]
  · intro hplain
    rw [htold directory]
    rcases hname with hsame | hfile
    · exact hsame.symm
    · rw [hplain told hfile, (hfile.ofPath_eq directory).2]

/-- A directory with a dot, and a name that is a dot and an extension. -/
theorem ofPath_directory_dot_file :
    '/' ∉ ".Zsh".toList ∧ DotFile bash ".Zsh" ∧
      (∀ other, ofPath ("conf.d" ++ "/" ++ ".Zsh") = ofPath (other ++ "/" ++ ".Zsh")) ∧
      ofPath ("conf.d" ++ "/" ++ ".Zsh") = bash ∧ ofPath ".Zsh" = plain := by
  have hname : '/' ∉ ".Zsh".toList := by decide
  have hfile : DotFile bash ".Zsh" := ⟨"Zsh", by decide, by decide⟩
  obtain ⟨hother, -, htells⟩ := ofPath_directory hname "conf.d"
  exact ⟨hname, hfile, hother, htells bash hfile⟩

/-- A dot file tells a language in a directory and none by itself. -/
theorem dot_file_told_in_directory :
    '/' ∉ ".py".toList ∧ ofPath ("d" ++ "/" ++ ".py") = python ∧ ofPath ".py" = plain := by
  decide

end CodeEditor.Language
