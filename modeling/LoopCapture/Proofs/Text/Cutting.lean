import LoopCapture.Text.Measure

/-!
# Cutting a text

Bytes tell where a text is cut, and each character has at least one of them and at least one UTF-16
unit. So a cut is known by its offset, and a piece of a text by the offsets of its ends.
-/

namespace LoopCapture.Text

theorem dropBytes?_byteSize (before after : List Char) :
    dropBytes? (byteSize before) (before ++ after) = some after := by
  induction before with
  | nil => simp [byteSize, dropBytes?]
  | cons c cs ih =>
    obtain ⟨n, size⟩ := Nat.exists_eq_add_one_of_ne_zero (Nat.ne_of_gt c.utf8Size_pos)
    have total : byteSize (c :: cs) = n + byteSize cs + 1 := by rw [byteSize, size]; omega
    rw [total, List.cons_append, dropBytes?, if_pos (by omega)]
    simpa [size, Nat.add_right_comm] using ih

theorem takeBytes?_byteSize (token after : List Char) :
    takeBytes? (byteSize token) (token ++ after) = some token := by
  induction token with
  | nil => simp [byteSize, takeBytes?]
  | cons c cs ih =>
    obtain ⟨n, size⟩ := Nat.exists_eq_add_one_of_ne_zero (Nat.ne_of_gt c.utf8Size_pos)
    have total : byteSize (c :: cs) = n + byteSize cs + 1 := by rw [byteSize, size]; omega
    rw [total, List.cons_append, takeBytes?, if_pos (by omega)]
    have rest : n + byteSize cs + 1 - c.utf8Size = byteSize cs := by omega
    rw [rest, ih, Option.map_some]

theorem byteSize_of_takeBytes? {n : Nat} {cs token : List Char}
    (is : takeBytes? n cs = some token) : byteSize token = n := by
  fun_induction takeBytes? n cs generalizing token with
  | case1 => rw [← Option.some.inj is, byteSize]
  | case2 => cases is
  | case3 n c cs fits ih =>
    obtain ⟨rest, taken, rfl⟩ := Option.map_eq_some_iff.mp is
    rw [byteSize, ih taken, Nat.add_sub_cancel' fits]
  | case4 => cases is

theorem stop_of_slice? {start stop : Offset} {text token : List Char}
    (is : slice? start stop text = some token) : stop = start + byteSize token := by
  unfold slice? at is
  split at is
  · obtain ⟨rest, -, taken⟩ := Option.bind_eq_some_iff.mp is
    rw [byteSize_of_takeBytes? taken, Nat.add_sub_cancel' ‹_›]
  · cases is

/-- A piece of a text is what stands between the offsets of its ends. -/
theorem slice?_byteSize (before token after : List Char) :
    slice? (byteSize before) (byteSize before + byteSize token) (before ++ token ++ after) =
      some token := by
  rw [slice?, if_pos (Nat.le_add_right _ _), List.append_assoc, dropBytes?_byteSize,
    Option.bind_some, Nat.add_sub_cancel_left, takeBytes?_byteSize]

theorem length_le_byteSize (cs : List Char) : cs.length ≤ byteSize cs := by
  induction cs with
  | nil => exact Nat.le_refl 0
  | cons c cs ih =>
    have := c.utf8Size_pos
    simp only [List.length_cons, byteSize]
    omega

theorem byteSize_pos {cs : List Char} (some : cs ≠ []) : 0 < byteSize cs :=
  Nat.lt_of_lt_of_le (List.length_pos_iff.mpr some) (length_le_byteSize cs)

/-- Of two cuts of a text, the longer front has more bytes. -/
theorem byteSize_lt_iff_length_lt {a b text : List Char} (front : a <+: text)
    (front' : b <+: text) :
    byteSize a < byteSize b ↔ a.length < b.length := by
  obtain ⟨more, rfl⟩ | ⟨more, rfl⟩ := List.prefix_or_prefix_of_prefix front front'
  · by_cases none : more = []
    · simp [none]
    · simp [byteSize_append, byteSize_pos none, List.length_pos_iff.mpr none]
  · simp only [byteSize_append, List.length_append]
    omega

/-- A cut is known by its offset. -/
theorem eq_of_byteSize_eq {a b text : List Char} (front : a <+: text) (front' : b <+: text)
    (same : byteSize a = byteSize b) : a = b := by
  have less := byteSize_lt_iff_length_lt front front'
  have more := byteSize_lt_iff_length_lt front' front
  exact (List.prefix_of_prefix_length_le front front' (by omega)).eq_of_length (by omega)

theorem unitCount_pos (c : Char) : 0 < unitCount c := by
  unfold unitCount
  split <;> decide

theorem utf16Size_append (a b : List Char) : utf16Size (a ++ b) = utf16Size a + utf16Size b := by
  induction a with
  | nil => simp [utf16Size]
  | cons c cs ih => simp [utf16Size, ih, Nat.add_assoc]

theorem length_le_utf16Size (cs : List Char) : cs.length ≤ utf16Size cs := by
  induction cs with
  | nil => exact Nat.le_refl 0
  | cons c cs ih =>
    have := unitCount_pos c
    simp only [List.length_cons, utf16Size]
    omega

theorem utf16Size_pos {cs : List Char} (some : cs ≠ []) : 0 < utf16Size cs :=
  Nat.lt_of_lt_of_le (List.length_pos_iff.mpr some) (length_le_utf16Size cs)

theorem unitCount_le_utf8Size (c : Char) : unitCount c ≤ c.utf8Size := by
  have pos := c.utf8Size_pos
  unfold unitCount
  split
  · exact pos
  · have several : c.utf8Size ≠ 1 := by
      intro single
      have ascii := Char.utf8Size_eq_one_iff.mp single
      have below : (127 : UInt32) < 0x10000 := by decide
      exact absurd (UInt32.lt_of_le_of_lt ascii below) ‹_›
    omega

theorem utf16Size_le_byteSize (cs : List Char) : utf16Size cs ≤ byteSize cs := by
  induction cs with
  | nil => exact Nat.le_refl 0
  | cons c cs ih => exact Nat.add_le_add (unitCount_le_utf8Size c) ih

/-- A text is as wide as it is long when none of its characters takes two units. -/
theorem utf16Size_eq_length_iff {cs : List Char} :
    utf16Size cs = cs.length ↔ ∀ c ∈ cs, unitCount c = 1 := by
  induction cs with
  | nil => simp [utf16Size]
  | cons c cs ih =>
    have := unitCount_pos c
    have := length_le_utf16Size cs
    rw [List.forall_mem_cons, ← ih, utf16Size, List.length_cons]
    omega

end LoopCapture.Text
