import CodeEditor.Fault

/-!
# Computations that can stop

A computation in `Except Fault` is opened by two equivalences: a bind gives a result exactly when
its two halves do. For a computation over a list there are two laws, one for a result that is
there and one for a result that has to be there; both name it by a total function. A list that gives
a result gives one for each element, and it stops with no other fault than its elements do. Checked
sums and differences are the unchecked ones, where they are given.
-/

namespace CodeEditor

namespace Fault

variable {α β : Type}

theorem bind_eq_ok {x : Except Fault α} {f : α → Except Fault β} {b : β} :
    x >>= f = .ok b ↔ ∃ a, x = .ok a ∧ f a = .ok b := by
  cases x with
  | error fault => exact ⟨fun h ↦ (nomatch h), fun ⟨_, h, _⟩ ↦ (nomatch h)⟩
  | ok a => exact ⟨fun h ↦ ⟨a, rfl, h⟩, fun ⟨_, rfl, h⟩ ↦ h⟩

theorem map_eq_ok {f : α → β} {x : Except Fault α} {b : β} :
    f <$> x = .ok b ↔ ∃ a, x = .ok a ∧ f a = b := by
  cases x with
  | error fault => exact ⟨fun h ↦ (nomatch h), fun ⟨_, h, _⟩ ↦ (nomatch h)⟩
  | ok a => exact ⟨fun h ↦ ⟨a, rfl, Except.ok.inj h⟩, fun ⟨_, rfl, h⟩ ↦ congrArg _ h⟩

theorem map_eq_error {f : α → β} {x : Except Fault α} {fault : Fault} :
    f <$> x = .error fault ↔ x = .error fault := by
  cases x with
  | error other =>
    change Except.error other = .error fault ↔ _
    rw [Except.error.injEq, Except.error.injEq]
  | ok a => exact ⟨fun h ↦ (nomatch h), fun h ↦ (nomatch h)⟩

/-- A bind whose halves give results gives one. -/
theorem exists_bind_eq_ok {x : Except Fault α} {f : α → Except Fault β} {a : α} (hx : x = .ok a)
    (hf : ∃ b, f a = .ok b) : ∃ b, x >>= f = .ok b := by
  obtain ⟨b, hb⟩ := hf
  exact ⟨b, bind_eq_ok.mpr ⟨a, hx, hb⟩⟩

theorem exists_map_eq_ok {f : α → β} {x : Except Fault α} (h : ∃ a, x = .ok a) :
    ∃ b, f <$> x = .ok b := by
  obtain ⟨a, ha⟩ := h
  exact ⟨f a, map_eq_ok.mpr ⟨a, ha, rfl⟩⟩

/-- What evaluation finds out about a result. -/
theorem exists_of_toOption {f : α → β} {x : Except Fault α} {b : β}
    (h : x.toOption.map f = some b) : ∃ a, x = .ok a ∧ f a = b := by
  cases x with
  | error fault => nomatch h
  | ok a => exact ⟨a, rfl, Option.some.inj h⟩

/-- If no element can give anything but `g`, neither can the list. -/
theorem eq_map_of_mapM_eq_ok {f : α → Except Fault β} {g : α → β}
    (h : ∀ x y, f x = .ok y → y = g x) {xs : List α} {ys : List β} (hys : xs.mapM f = .ok ys) :
    ys = xs.map g := by
  induction xs generalizing ys with
  | nil => exact (Except.ok.inj hys).symm
  | cons x rest ih =>
    rw [List.mapM_cons] at hys
    obtain ⟨y, hy, hys⟩ := bind_eq_ok.mp hys
    obtain ⟨more, hmore, hys⟩ := bind_eq_ok.mp hys
    rw [← Except.ok.inj hys, h x y hy, ih hmore, List.map_cons]

theorem exists_of_mapM_eq_ok {f : α → Except Fault β} {xs : List α} {ys : List β}
    (hys : xs.mapM f = .ok ys) : ∀ x ∈ xs, ∃ y, f x = .ok y := by
  induction xs generalizing ys with
  | nil => nofun
  | cons x rest ih =>
    rw [List.mapM_cons] at hys
    obtain ⟨y, hy, hys⟩ := bind_eq_ok.mp hys
    obtain ⟨more, hmore, -⟩ := bind_eq_ok.mp hys
    exact List.forall_mem_cons.mpr ⟨⟨y, hy⟩, ih hmore⟩

/-- Halves that can stop with one fault only make a bind that can stop with no other. -/
theorem bind_cases {x : Except Fault α} {f : α → Except Fault β} {fault : Fault}
    (hx : x = .error fault ∨ ∃ a, x = .ok a)
    (hf : ∀ a, f a = .error fault ∨ ∃ b, f a = .ok b) :
    x >>= f = .error fault ∨ ∃ b, x >>= f = .ok b := by
  obtain rfl | ⟨a, rfl⟩ := hx
  · exact Or.inl rfl
  · exact hf a

theorem mapM_cases {f : α → Except Fault β} {fault : Fault}
    (h : ∀ x, f x = .error fault ∨ ∃ y, f x = .ok y) (xs : List α) :
    xs.mapM f = .error fault ∨ ∃ ys, xs.mapM f = .ok ys := by
  induction xs with
  | nil => exact Or.inr ⟨[], rfl⟩
  | cons x rest ih =>
    rw [List.mapM_cons]
    exact bind_cases (h x) fun y ↦ bind_cases ih fun ys ↦ Or.inr ⟨y :: ys, rfl⟩

theorem foldlM_cases {f : β → α → Except Fault β} {fault : Fault}
    (h : ∀ y x, f y x = .error fault ∨ ∃ z, f y x = .ok z) (xs : List α) (y : β) :
    xs.foldlM f y = .error fault ∨ ∃ z, xs.foldlM f y = .ok z := by
  induction xs generalizing y with
  | nil => exact Or.inr ⟨y, rfl⟩
  | cons x rest ih =>
    rw [List.foldlM_cons]
    exact bind_cases (h y x) fun z ↦ ih z

theorem mapM_eq_ok {f : α → Except Fault β} {g : α → β} {xs : List α}
    (h : ∀ x ∈ xs, f x = .ok (g x)) : xs.mapM f = .ok (xs.map g) := by
  induction xs with
  | nil => rfl
  | cons x rest ih =>
    rw [List.mapM_cons, h x List.mem_cons_self, ih fun y hy ↦ h y (List.mem_cons_of_mem x hy)]
    rfl

end Fault

namespace Offset

variable {a b n : Nat}

theorem eq_of_add_eq_ok (h : add a b = .ok n) : n = a + b := by
  unfold add at h
  split at h
  · exact (Except.ok.inj h).symm
  · nomatch h

theorem lt_bound_of_add_eq_ok (h : add a b = .ok n) : n < bound := by
  unfold add at h
  split at h
  · rename_i hlt
    rwa [← Except.ok.inj h]
  · nomatch h

theorem eq_of_sub_eq_ok (h : sub a b = .ok n) : n = a - b := by
  unfold sub at h
  split at h
  · exact (Except.ok.inj h).symm
  · nomatch h

theorem add_cases (a b : Nat) : add a b = .error .overflow ∨ ∃ n, add a b = .ok n := by
  unfold add
  split
  · exact Or.inr ⟨a + b, rfl⟩
  · exact Or.inl rfl

end Offset

end CodeEditor
