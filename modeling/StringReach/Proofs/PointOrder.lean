import Mathlib.Data.Char
import Mathlib.Data.List.Lex
import StringReach.Program.Point

/-!
# The order of points

Points are ordered by the bytes of the method, then by the statement, then by the slot, with no slot
first (`Point.Before`). Names are compared character by character, and in UTF-8 this is the order of
the bytes (`Text.compare_eq_lt_iff`), so the comparison of points is that order
(`Point.compare_eq_lt_iff`).
-/

namespace StringReach

namespace Text

/-- The bytes of a text in UTF-8. -/
def bytes (text : String) : List UInt8 :=
  text.toByteArray.data.toList

/-- The bytes of a text are those of its characters, one after the other. -/
theorem bytes_eq (text : String) : bytes text = text.toList.flatMap String.utf8EncodeChar := by
  rw [bytes, ← String.utf8Encode_toList, List.utf8Encode, List.data_toByteArray]

/-- Bytes are compared by the first one, and by the rest when the first ones are the same. -/
theorem byte_cons_lt {a b : Nat} {rest rest' : List UInt8} (hle : a ≤ b) (hb : b < 256)
    (hrest : a = b → rest < rest') : UInt8.ofNat a :: rest < UInt8.ofNat b :: rest' := by
  rw [List.cons_lt_cons_iff, UInt8.lt_iff_toNat_lt, ← UInt8.toNat_inj, UInt8.toNat_ofNat',
    UInt8.toNat_ofNat', Nat.mod_eq_of_lt (Nat.lt_of_le_of_lt hle hb), Nat.mod_eq_of_lt hb]
  rcases Nat.lt_or_eq_of_le hle with hlt | heq
  · exact .inl hlt
  · exact .inr ⟨heq, hrest heq⟩

/-- A smaller first byte decides. -/
theorem byte_cons_lt_of_lt {a b : Nat} {rest rest' : List UInt8} (hlt : a < b) (hb : b < 256) :
    UInt8.ofNat a :: rest < UInt8.ofNat b :: rest' :=
  byte_cons_lt hlt.le hb fun heq => absurd heq hlt.ne

/-- A smaller character has smaller bytes, whatever comes after them. -/
theorem encode_lt {c d : Char} (hlt : c < d) (rest rest' : List UInt8) :
    String.utf8EncodeChar c ++ rest < String.utf8EncodeChar d ++ rest' := by
  have hval : c.val.toNat < d.val.toNat := hlt
  have hmax : d.val.toNat < 0x110000 := by
    have hvalid := d.valid
    simp only [UInt32.isValidChar, Nat.isValidChar] at hvalid
    omega
  simp only [String.utf8EncodeChar]
  generalize c.val.toNat = v at hval
  generalize d.val.toNat = w at hval hmax
  split_ifs <;> simp only [List.cons_append, List.nil_append]
  -- The larger character does not have fewer bytes. If it has more, the first byte decides, and so
  -- it does if there is only one.
  all_goals try first | omega | exact byte_cons_lt_of_lt (by omega) (by omega)
  · refine byte_cons_lt (by omega) (by omega) fun hfirst => ?_
    exact byte_cons_lt_of_lt (by omega) (by omega)
  · refine byte_cons_lt (by omega) (by omega) fun hfirst => ?_
    refine byte_cons_lt (by omega) (by omega) fun hsecond => ?_
    exact byte_cons_lt_of_lt (by omega) (by omega)
  · refine byte_cons_lt (by omega) (by omega) fun hfirst => ?_
    refine byte_cons_lt (by omega) (by omega) fun hsecond => ?_
    refine byte_cons_lt (by omega) (by omega) fun hthird => ?_
    exact byte_cons_lt_of_lt (by omega) (by omega)

/-- A character has at least one byte. -/
theorem nil_lt_encode (c : Char) (rest : List UInt8) :
    [] < String.utf8EncodeChar c ++ rest := by
  have hlength := c.utf8Size_pos
  rw [← String.length_utf8EncodeChar] at hlength
  obtain ⟨byte, others, hbytes⟩ := List.exists_cons_of_length_pos hlength
  rw [hbytes]
  exact List.nil_lt_cons byte _

/-- Smaller text has smaller bytes. -/
theorem flat_map_encode_lt {left right : List Char} (hlt : left < right) :
    left.flatMap String.utf8EncodeChar < right.flatMap String.utf8EncodeChar := by
  induction hlt with
  | nil => exact nil_lt_encode _ _
  | rel hchar => exact encode_lt hchar _ _
  | cons _ ih => exact List.append_left_lt ih

/-- Texts are compared by their bytes. -/
theorem compare_eq_lt_iff {a b : String} : compare a b = .lt ↔ bytes a < bytes b := by
  have hcompare : compare a b = .lt ↔ a < b := compareOfLessAndEq_eq_lt
  rw [hcompare, String.lt_iff, bytes_eq, bytes_eq]
  constructor
  · exact flat_map_encode_lt
  · intro hbytes
    rcases lt_trichotomy a.toList b.toList with hlt | heq | hgt
    · exact hlt
    · rw [heq] at hbytes
      exact absurd hbytes (List.lt_irrefl _)
    · exact absurd hbytes (List.lt_asymm (flat_map_encode_lt hgt))

end Text

namespace Point

/-- A slot comes before another one: no slot comes first, and names are compared by their bytes. -/
def SlotBefore : Option String → Option String → Prop
  | none, some _ => True
  | some a, some b => Text.bytes a < Text.bytes b
  | _, none => False

/-- A point comes before another one: by the bytes of the method, then by the statement, then by the
slot. -/
inductive Before (a b : Point) : Prop where
  | method : Text.bytes a.method < Text.bytes b.method → Before a b
  | statement : a.method = b.method → a.statement < b.statement → Before a b
  | slot : a.method = b.method → a.statement = b.statement → SlotBefore a.slot b.slot → Before a b

/-- Slots are compared in their order. -/
theorem compare_slot_eq_lt_iff {a b : Option String} : compare a b = .lt ↔ SlotBefore a b := by
  cases a with
  | none => cases b <;> simp [compare, SlotBefore]
  | some a =>
      cases b with
      | none => simp [compare, SlotBefore]
      | some b => exact Text.compare_eq_lt_iff

/-- Points are compared in their order. -/
theorem compare_eq_lt_iff {a b : Point} : compare a b = .lt ↔ a.Before b := by
  have hcompare : compare a b = .lt ↔ compare a.method b.method = .lt ∨
      compare a.method b.method = .eq ∧ (compare a.statement b.statement = .lt ∨
        compare a.statement b.statement = .eq ∧ compare a.slot b.slot = .lt) := by
    show compareLex (compareOn method) (compareLex (compareOn statement) (compareOn slot)) a b = .lt
      ↔ _
    simp only [compareLex, compareOn, Ordering.then_eq_lt]
  rw [hcompare, Text.compare_eq_lt_iff, compare_slot_eq_lt_iff, Nat.compare_eq_lt,
    Nat.compare_eq_eq, Std.compare_eq_iff_eq]
  constructor
  · rintro (hmethod | ⟨hmethod, hstatement | ⟨hstatement, hslot⟩⟩)
    · exact .method hmethod
    · exact .statement hmethod hstatement
    · exact .slot hmethod hstatement hslot
  · rintro (hmethod | ⟨hmethod, hstatement⟩ | ⟨hmethod, hstatement, hslot⟩)
    · exact .inl hmethod
    · exact .inr ⟨hmethod, .inl hstatement⟩
    · exact .inr ⟨hmethod, .inr ⟨hstatement, hslot⟩⟩

end Point

end StringReach
