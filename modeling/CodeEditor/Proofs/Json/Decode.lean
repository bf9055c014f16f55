import CodeEditor.Json.Decode
import CodeEditor.Proofs.Json.Tokens

/-!
# Decoding encoded values

The numeral of a number that fits a word has that number as its value, and a record that is written
as an object of its fields gives the values of its fields back.
-/

namespace CodeEditor

/-! ## Numerals of natural numbers -/

namespace Numeral

theorem whole_ofNat_of_lt {n : Nat} (h : n < 10) : (ofNat n).whole = [n] := by
  unfold ofNat
  rw [Nat.toDigits_of_lt_base h, List.map_singleton]
  exact congrArg ([·]) (Nat.toNat_digitChar_sub_48_of_lt_ten h)

theorem whole_ofNat_of_le {n : Nat} (h : 10 ≤ n) :
    (ofNat n).whole = (ofNat (n / 10)).whole ++ [n % 10] := by
  unfold ofNat
  rw [Nat.toDigits_of_base_le (by decide) h, List.map_append, List.map_singleton]
  exact congrArg (_ ++ [·]) (Nat.toNat_digitChar_sub_48_of_lt_ten (Nat.mod_lt n (by decide)))

theorem isDigits_ofNat (n : Nat) : IsDigits (ofNat n).whole := by
  induction n using Nat.strongRecOn with
  | ind n ih =>
    obtain hlt | hle := Nat.lt_or_ge n 10
    · rw [whole_ofNat_of_lt hlt]
      exact ⟨nofun, List.forall_mem_singleton.mpr hlt⟩
    · rw [whole_ofNat_of_le hle]
      have hupper := ih (n / 10) (by omega)
      refine ⟨List.append_ne_nil_of_right_ne_nil _ nofun, List.forall_mem_append.mpr ?_⟩
      exact ⟨hupper.lt_ten, List.forall_mem_singleton.mpr (Nat.mod_lt n (by decide))⟩

/-- Only zero begins with a zero. -/
theorem eq_zero_of_head?_ofNat {n : Nat} (h : (ofNat n).whole.head? = some 0) : n = 0 := by
  induction n using Nat.strongRecOn with
  | ind n ih =>
    obtain hlt | hle := Nat.lt_or_ge n 10
    · rw [whole_ofNat_of_lt hlt] at h
      exact Option.some.inj h
    · rw [whole_ofNat_of_le hle, List.head?_append_of_ne_nil _ (isDigits_ofNat _).ne_nil] at h
      have := ih (n / 10) (by omega) h
      omega

theorem wellFormed_ofNat (n : Nat) : (ofNat n).WellFormed := by
  refine ⟨isDigits_ofNat n, fun hzero ↦ ?_, nofun, nofun⟩
  rw [eq_zero_of_head?_ofNat hzero, whole_ofNat_of_lt (by decide), List.length_singleton]

theorem appendDigits_append {value reached : Nat} {digits : List Nat}
    (h : appendDigits value digits = (reached, [])) (more : List Nat) :
    appendDigits value (digits ++ more) = appendDigits reached more := by
  induction digits generalizing value with
  | nil =>
    cases h
    rfl
  | cons digit digits ih =>
    unfold appendDigits at h
    rw [List.cons_append, appendDigits]
    split at h
    · rename_i hfits
      rw [if_pos hfits]
      exact ih h
    · nomatch h

theorem appendDigits_ofNat {n : Nat} (h : n < wordBound) :
    appendDigits 0 (ofNat n).whole = (n, []) := by
  induction n using Nat.strongRecOn with
  | ind n ih =>
    obtain hlt | hle := Nat.lt_or_ge n 10
    · rw [whole_ofNat_of_lt hlt, appendDigits, Nat.zero_mul, Nat.zero_add, if_pos h, appendDigits]
    · have hupper := ih (n / 10) (by omega) (by omega)
      rw [whole_ofNat_of_le hle, appendDigits_append hupper, appendDigits, Nat.div_add_mod',
        if_pos h, appendDigits]

/-- A number is read from its numeral if it fits a word and stays below the bound. -/
theorem natBelow?_ofNat {n bound : Nat} (hword : n < wordBound) (hbound : n < bound) :
    (ofNat n).natBelow? bound = some n := by
  have hmagnitude : (ofNat n).magnitude? = some n := by
    unfold magnitude?
    rw [appendDigits_ofNat hword]
    rfl
  unfold natBelow?
  rw [hmagnitude, Option.filter_some, if_pos (decide_eq_true hbound)]
  rfl

end Numeral

/-! ## Values -/

namespace JsonValue

theorem byte?_ofNat (value : UInt8) : (number (.ofNat value.toNat)).byte? = some value := by
  have hbyte : value.toNat < 256 := value.toNat_lt
  have hword : value.toNat < Numeral.wordBound := Nat.lt_trans hbyte (by decide)
  change ((Numeral.ofNat value.toNat).natBelow? 256).map UInt8.ofNat = some value
  rw [Numeral.natBelow?_ofNat hword hbyte, Option.map_some, UInt8.ofNat_toNat]

theorem optional?_ofOption {decode : JsonValue → Option α} {encode : α → JsonValue}
    (hdecode : ∀ value, decode (encode value) = some value)
    (hencode : ∀ value, encode value ≠ null) (value : Option α) :
    optional? decode (ofOption encode value) = some value := by
  cases value with
  | none => rfl
  | some value =>
    unfold ofOption optional?
    split
    · rename_i hnull
      exact absurd hnull (hencode value)
    · rw [hdecode]
      rfl

theorem mapM_map_eq_some {encode : α → β} {decode : β → Option γ} {result : α → γ} {xs : List α}
    (h : ∀ x ∈ xs, decode (encode x) = some (result x)) :
    (xs.map encode).mapM decode = some (xs.map result) := by
  induction xs with
  | nil => rfl
  | cons x xs ih =>
    obtain ⟨hx, hxs⟩ := List.forall_mem_cons.mp h
    rw [List.map_cons, List.mapM_cons, hx, ih hxs]
    rfl

theorem list?_map {decode : JsonValue → Option α} {encode : α → JsonValue}
    (h : ∀ value, decode (encode value) = some value) (values : List α) :
    list? decode (array (values.map encode)) = some values := by
  have hvalues := mapM_map_eq_some fun value (_ : value ∈ values) ↦ h value
  rwa [List.map_id'] at hvalues

/-- A record as an object of its fields. -/
def record (fields : List (String × JsonValue)) : JsonValue :=
  object (fields.map fun field ↦ (some field.1, field.2))

section

variable {fields : List (String × JsonValue)} {field : String × JsonValue}

theorem filter_eq_singleton (hnames : (fields.map Prod.fst).Nodup) (hfield : field ∈ fields) :
    (fields.filter fun other ↦ other.1 == field.1) = [field] := by
  induction fields with
  | nil => nomatch hfield
  | cons first fields ih =>
    obtain ⟨hfirst, hrest⟩ := List.nodup_cons.mp hnames
    obtain rfl | hmem := List.mem_cons.mp hfield
    · have hothers : (fields.filter fun other ↦ other.1 == field.1) = [] := by
        rw [List.filter_eq_nil_iff]
        intro other hother hsame
        exact hfirst (eq_of_beq hsame ▸ List.mem_map_of_mem hother)
      rw [List.filter_cons_of_pos (by simp), hothers]
    · have hdistinct : first.1 ≠ field.1 := fun hsame ↦ hfirst (hsame ▸ List.mem_map_of_mem hmem)
      rw [List.filter_cons_of_neg (by simpa using hdistinct)]
      exact ih hrest hmem

/-- A record gives the values of its fields back. -/
theorem fields?_record (fields : List (String × JsonValue))
    (hnames : (fields.map Prod.fst).Nodup) :
    (record fields).fields? (fields.map Prod.fst) = some (fields.map (some ·.2)) := by
  have hmember : ∀ field ∈ fields,
      member? (fields.map fun field ↦ (some field.1, field.2)) field.1 = some (some field.2) := by
    intro field hfield
    have hfilter : (fields.map fun field ↦ (some field.1, field.2)).filter
        (·.1 == some field.1) = [(some field.1, field.2)] := by
      rw [List.filter_map]
      exact congrArg (List.map _) (filter_eq_singleton hnames hfield)
    unfold member?
    rw [hfilter]
  unfold record fields?
  dsimp only
  rw [if_pos (by simp)]
  exact mapM_map_eq_some hmember

end

end JsonValue

end CodeEditor
