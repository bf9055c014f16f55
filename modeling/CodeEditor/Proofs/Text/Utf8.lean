/-!
# Places in a stored text

A text is stored in UTF-8, where a character takes up to four bytes. Each place between two
characters is a place in the bytes, and cutting the bytes at such a place cuts the text there.
-/

namespace CodeEditor

namespace Utf8

/-- How many bytes the characters take. -/
def size : List Char → Nat
  | [] => 0
  | c :: chars => c.utf8Size + size chars

/-- The byte at which a character begins. -/
def offset (chars : List Char) (index : Nat) : Nat := size (chars.take index)

/-- How many characters begin before a byte. -/
def index : List Char → (byte : Nat) → Nat
  | [], _ => 0
  | _, 0 => 0
  | c :: chars, byte + 1 => index chars (byte + 1 - c.utf8Size) + 1

/-- The characters of the first so many bytes and those behind them, if there are so many bytes and
they do not end inside a character. -/
def split? : List Char → (bytes : Nat) → Option (List Char × List Char)
  | chars, 0 => some ([], chars)
  | [], _ + 1 => none
  | c :: chars, bytes + 1 =>
    if c.utf8Size ≤ bytes + 1 then
      (split? chars (bytes + 1 - c.utf8Size)).map fun (before, behind) ↦ (c :: before, behind)
    else none

/-- The end of the character that begins at a byte. -/
def next? (chars : List Char) (byte : Nat) : Option Nat := do
  let (_, behind) ← split? chars byte
  let c ← behind.head?
  return byte + c.utf8Size

variable {chars : List Char} {i j : Nat}

theorem size_append (before behind : List Char) :
    size (before ++ behind) = size before + size behind := by
  induction before with
  | nil => rw [List.nil_append, size, Nat.zero_add]
  | cons c before ih => rw [List.cons_append, size, size, ih, Nat.add_assoc]

theorem length_le_size (chars : List Char) : chars.length ≤ size chars := by
  induction chars with
  | nil => exact Nat.le_refl 0
  | cons c chars ih =>
    have := c.utf8Size_pos
    rw [size, List.length_cons]
    omega

@[simp]
theorem offset_zero (chars : List Char) : offset chars 0 = 0 := rfl

theorem offset_cons_succ (c : Char) (chars : List Char) (i : Nat) :
    offset (c :: chars) (i + 1) = c.utf8Size + offset chars i := by
  rw [offset, List.take_succ_cons, size, offset]

theorem offset_add (chars : List Char) (i k : Nat) :
    offset chars (i + k) = offset chars i + offset (chars.drop i) k := by
  rw [offset, List.take_add, size_append, offset, offset]

theorem offset_length (chars : List Char) : offset chars chars.length = size chars := by
  rw [offset, List.take_length]

theorem offset_lt_offset (hlt : i < j) (hj : j ≤ chars.length) :
    offset chars i < offset chars j := by
  obtain ⟨k, rfl⟩ := Nat.exists_eq_add_of_lt hlt
  have hlength : ((chars.drop i).take (k + 1)).length = k + 1 := by
    rw [List.length_take, List.length_drop]
    omega
  have hsize : k + 1 ≤ offset (chars.drop i) (k + 1) :=
    Nat.le_trans (Nat.le_of_eq hlength.symm) (length_le_size _)
  rw [Nat.add_assoc, offset_add]
  omega

theorem offset_le_offset (hle : i ≤ j) : offset chars i ≤ offset chars j := by
  obtain ⟨k, rfl⟩ := Nat.exists_eq_add_of_le hle
  rw [offset_add]
  exact Nat.le_add_right _ _

theorem offset_le_size (h : i ≤ chars.length) : offset chars i ≤ size chars := by
  rw [← offset_length]
  exact offset_le_offset h

theorem offset_lt_offset_iff (hj : j ≤ chars.length) :
    offset chars i < offset chars j ↔ i < j := by
  constructor
  · intro hlt
    refine Nat.lt_of_not_le fun hle ↦ ?_
    exact Nat.not_lt.mpr (offset_le_offset hle) hlt
  · intro hlt
    exact offset_lt_offset hlt hj

theorem offset_le_offset_iff (hi : i ≤ chars.length) : offset chars i ≤ offset chars j ↔ i ≤ j := by
  rw [← Nat.not_lt, offset_lt_offset_iff hi, Nat.not_lt]

/-- There are at least as many bytes left as there are characters left. -/
theorem length_sub_le (chars : List Char) (i : Nat) :
    chars.length - i ≤ size chars - offset chars i := by
  have hsplit := size_append (chars.take i) (chars.drop i)
  have hbehind := length_le_size (chars.drop i)
  rw [List.take_append_drop] at hsplit
  rw [List.length_drop] at hbehind
  rw [offset]
  omega

theorem index_cons_add (c : Char) (chars : List Char) (bytes : Nat) :
    index (c :: chars) (c.utf8Size + bytes) = index chars bytes + 1 := by
  obtain ⟨before, hbefore⟩ := Nat.exists_eq_add_of_lt c.utf8Size_pos
  have hbytes : c.utf8Size + bytes = before + bytes + 1 := by omega
  rw [hbytes, index]
  congr 2
  omega

theorem split?_cons_add (c : Char) (chars : List Char) (bytes : Nat) :
    split? (c :: chars) (c.utf8Size + bytes) =
      (split? chars bytes).map fun (before, behind) ↦ (c :: before, behind) := by
  obtain ⟨before, hbefore⟩ := Nat.exists_eq_add_of_lt c.utf8Size_pos
  have hbytes : c.utf8Size + bytes = before + bytes + 1 := by omega
  rw [hbytes, split?, if_pos (by omega)]
  congr 2
  omega

/-- As many characters begin before the place of a character as come before it. -/
theorem index_offset (h : i ≤ chars.length) : index chars (offset chars i) = i := by
  induction chars generalizing i with
  | nil =>
    rw [Nat.le_zero.mp h]
    rfl
  | cons c chars ih =>
    cases i with
    | zero => rfl
    | succ i => rw [offset_cons_succ, index_cons_add, ih (Nat.le_of_succ_le_succ h)]

theorem split?_offset (h : i ≤ chars.length) :
    split? chars (offset chars i) = some (chars.take i, chars.drop i) := by
  induction chars generalizing i with
  | nil =>
    rw [Nat.le_zero.mp h]
    rfl
  | cons c chars ih =>
    cases i with
    | zero => rfl
    | succ i =>
      rw [offset_cons_succ, split?_cons_add, ih (Nat.le_of_succ_le_succ h)]
      rfl

theorem next?_offset (h : i ≤ chars.length) :
    next? chars (offset chars i) =
      if i < chars.length then some (offset chars (i + 1)) else none := by
  unfold next?
  rw [split?_offset h]
  dsimp only [Option.bind_eq_bind, Option.bind_some]
  rw [List.head?_drop]
  split
  · rename_i hlt
    have hnext : offset (chars.drop i) 1 = chars[i].utf8Size := by
      rw [List.drop_eq_getElem_cons hlt, offset_cons_succ, offset_zero, Nat.add_zero]
    rw [List.getElem?_eq_getElem hlt, offset_add, hnext]
    rfl
  · rename_i hend
    rw [List.getElem?_eq_none (Nat.not_lt.mp hend)]
    rfl

/-- The encoding of characters has the size that was counted. -/
theorem size_utf8Encode (chars : List Char) : chars.utf8Encode.size = size chars := by
  induction chars with
  | nil => rfl
  | cons c chars ih =>
    have hfirst : [c].utf8Encode.size = c.utf8Size := by
      rw [List.utf8Encode_singleton, List.size_toByteArray, String.length_utf8EncodeChar]
    rw [List.utf8Encode_cons, ByteArray.size_append, hfirst, ih, size]

/-- The bytes between the places of two characters encode the characters between them. -/
theorem extract_offset (text : String) (hle : i ≤ j) (hj : j ≤ text.toList.length) :
    text.toUTF8.extract (offset text.toList i) (offset text.toList j) =
      (String.ofList ((text.toList.drop i).take (j - i))).toUTF8 := by
  obtain ⟨k, rfl⟩ := Nat.exists_eq_add_of_le hle
  have hsplit : text.toList = text.toList.take i ++
      ((text.toList.drop i).take k ++ text.toList.drop (i + k)) := by
    rw [← List.drop_drop, List.take_append_drop, List.take_append_drop]
  have hbytes : text.toUTF8 = (text.toList.take i).utf8Encode ++
      (((text.toList.drop i).take k).utf8Encode ++ (text.toList.drop (i + k)).utf8Encode) := by
    calc text.toUTF8 = (String.ofList text.toList).toUTF8 := by rw [String.ofList_toList]
      _ = text.toList.utf8Encode := String.toByteArray_ofList
      _ = _ := by rw [← List.utf8Encode_append, ← List.utf8Encode_append, ← hsplit]
  have hstart : offset text.toList i = (text.toList.take i).utf8Encode.size + 0 :=
    (size_utf8Encode _).symm
  have hstop : offset text.toList (i + k) = (text.toList.take i).utf8Encode.size +
      ((text.toList.drop i).take k).utf8Encode.size := by
    rw [offset_add, size_utf8Encode, size_utf8Encode, offset, offset]
  rw [hbytes, Nat.add_sub_cancel_left, hstart, hstop, ByteArray.extract_append_size_add,
    ByteArray.extract_append_eq_left rfl]
  exact String.toByteArray_ofList.symm

end Utf8

end CodeEditor
