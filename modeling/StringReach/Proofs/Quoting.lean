import Mathlib.Data.List.Basic
import Mathlib.Logic.Basic
import StringReach.Text.Quoted

/-!
# Quoted text shows where it ends

What is written for a character is never the beginning of what is written for another one
(`quoted_char_append_inj`), and it never begins with the quote that ends a quoted text. A quoted
text can therefore be followed by anything: its end, and with it the text, can be told from the
characters alone (`quoted_append_inj`).
-/

namespace StringReach.Text

/-- The characters with a short escape, and what follows the backslash there. -/
def shortEscapes : List (Char × Char) :=
  [('\x00', '0'), ('\t', 't'), ('\n', 'n'), ('\r', 'r'), ('"', '"'), ('\\', '\\')]

variable {c d : Char} {rest rest' : List Char}

/-- A character is written by a short escape, by its code point, or as it is. -/
theorem quoted_char_cases (c : Char) :
    (∃ escape, (c, escape) ∈ shortEscapes ∧ quotedChar c = ['\\', escape]) ∨
    quotedChar c = '\\' :: 'u' :: '\x7b' :: (Nat.toDigits 16 c.toNat ++ ['\x7d']) ∨
    c ≠ '"' ∧ c ≠ '\\' ∧ quotedChar c = [c] := by
  unfold quotedChar
  split_ifs with hnul htab hline hreturn hquote hslash hhidden
  · exact .inl ⟨'0', by simp [shortEscapes, hnul], rfl⟩
  · exact .inl ⟨'t', by simp [shortEscapes, htab], rfl⟩
  · exact .inl ⟨'n', by simp [shortEscapes, hline], rfl⟩
  · exact .inl ⟨'r', by simp [shortEscapes, hreturn], rfl⟩
  · exact .inl ⟨'"', by simp [shortEscapes, hquote], rfl⟩
  · exact .inl ⟨'\\', by simp [shortEscapes, hslash], rfl⟩
  · exact .inr (.inl rfl)
  · exact .inr (.inr ⟨hquote, hslash, rfl⟩)

/-- The digits of a code point do not contain the brace after them. -/
theorem brace_not_mem_to_digits (n : Nat) : '\x7d' ∉ Nat.toDigits 16 n := by
  induction n using Nat.strongRecOn with
  | ind n ih =>
      rw [Nat.toDigits_eq_if (by decide)]
      split_ifs with hlt
      · simp
      · have hinit := ih (n / 16) (by omega)
        simp [hinit]

/-- The digits of a number determine it. -/
theorem to_digits_inj {m n : Nat} (heq : Nat.toDigits 16 m = Nat.toDigits 16 n) : m = n := by
  have hdigit : ∀ i < 16, ∀ j < 16, Nat.digitChar i = Nat.digitChar j → i = j := by decide
  have hlength : ∀ k, 1 < (Nat.toDigits 16 k).length ↔ ¬ k < 16 := by
    intro k
    have := Nat.length_toDigits_le_iff (b := 16) (n := k) (k := 1) (by decide) (by decide)
    omega
  induction m using Nat.strongRecOn generalizing n with
  | ind m ih =>
      have hsize : m < 16 ↔ n < 16 := not_iff_not.mp (by rw [← hlength, ← hlength, heq])
      by_cases hm : m < 16
      · rw [Nat.toDigits_of_lt_base hm, Nat.toDigits_of_lt_base (hsize.mp hm)] at heq
        exact hdigit m hm n (hsize.mp hm) (List.singleton_inj.mp heq)
      · have hn : ¬ n < 16 := fun hn => hm (hsize.mpr hn)
        rw [Nat.toDigits_of_base_le (by decide) (Nat.not_lt.mp hm),
          Nat.toDigits_of_base_le (by decide) (Nat.not_lt.mp hn)] at heq
        obtain ⟨hinit, hlast⟩ := List.append_inj' heq rfl
        have hmod := hdigit _ (Nat.mod_lt m (by decide)) _ (Nat.mod_lt n (by decide))
          (List.singleton_inj.mp hlast)
        have hdiv := ih (m / 16) (by omega) hinit
        omega

/-- A text without a character ends where the character follows it. -/
theorem append_cons_inj {a b : List Char} (ha : c ∉ a) (hb : c ∉ b)
    (heq : a ++ c :: rest = b ++ c :: rest') : a = b ∧ rest = rest' := by
  induction a generalizing b with
  | nil =>
      cases b with
      | nil => exact ⟨rfl, (List.cons.inj heq).2⟩
      | cons e b =>
          obtain ⟨rfl, -⟩ := List.cons.inj heq
          exact absurd List.mem_cons_self hb
  | cons e a ih =>
      cases b with
      | nil =>
          obtain ⟨rfl, -⟩ := List.cons.inj heq
          exact absurd List.mem_cons_self ha
      | cons f b =>
          obtain ⟨rfl, htail⟩ := List.cons.inj heq
          obtain ⟨rfl, hrest⟩ := ih (fun h => ha (.tail e h)) (fun h => hb (.tail e h)) htail
          exact ⟨rfl, hrest⟩

/-- What is written for a character shows where it ends, and determines the character. -/
theorem quoted_char_append_inj (heq : quotedChar c ++ rest = quotedChar d ++ rest') :
    c = d ∧ rest = rest' := by
  -- No short escape looks like a code point, and no two of them look the same.
  have hcode : ∀ p ∈ shortEscapes, p.2 ≠ 'u' := by decide
  have hshort : ∀ p ∈ shortEscapes, ∀ q ∈ shortEscapes, p.2 = q.2 → p.1 = q.1 := by decide
  rcases quoted_char_cases c with ⟨e, he, hc⟩ | hc | ⟨_, hslash, hc⟩ <;>
    rcases quoted_char_cases d with ⟨f, hf, hd⟩ | hd | ⟨_, hslash', hd⟩ <;>
    rw [hc, hd] at heq <;>
    simp only [List.cons_append, List.nil_append, List.append_assoc, List.cons.injEq] at heq
  · exact ⟨hshort _ he _ hf heq.2.1, heq.2.2⟩
  · exact absurd heq.2.1 (hcode _ he)
  · exact absurd heq.1.symm hslash'
  · exact absurd heq.2.1.symm (hcode _ hf)
  · obtain ⟨hdigits, hrest⟩ := append_cons_inj (brace_not_mem_to_digits _)
      (brace_not_mem_to_digits _) heq.2.2.2
    exact ⟨Char.toNat_inj.mp (to_digits_inj hdigits), hrest⟩
  · exact absurd heq.1.symm hslash'
  · exact absurd heq.1 hslash
  · exact absurd heq.1 hslash
  · exact heq

/-- What is written for a character is not taken for the quote at the end. -/
theorem quoted_char_head (c : Char) : ∃ d tail, quotedChar c = d :: tail ∧ d ≠ '"' := by
  rcases quoted_char_cases c with ⟨e, _, hc⟩ | hc | ⟨hquote, _, hc⟩
  · exact ⟨'\\', [e], hc, by decide⟩
  · exact ⟨'\\', _, hc, by decide⟩
  · exact ⟨c, [], hc, hquote⟩

/-- The characters of a quoted text up to the quote at the end show where they end. -/
theorem flat_map_quoted_char_inj {text text' : List Char}
    (heq : text.flatMap quotedChar ++ '"' :: rest = text'.flatMap quotedChar ++ '"' :: rest') :
    text = text' ∧ rest = rest' := by
  induction text generalizing text' with
  | nil =>
      cases text' with
      | nil => exact ⟨rfl, (List.cons.inj heq).2⟩
      | cons d text' =>
          obtain ⟨e, tail, hd, hquote⟩ := quoted_char_head d
          rw [List.flatMap_cons, hd] at heq
          exact absurd (List.cons.inj heq).1.symm hquote
  | cons c text ih =>
      cases text' with
      | nil =>
          obtain ⟨e, tail, hc, hquote⟩ := quoted_char_head c
          rw [List.flatMap_cons, hc] at heq
          exact absurd (List.cons.inj heq).1 hquote
      | cons d text' =>
          rw [List.flatMap_cons, List.flatMap_cons, List.append_assoc, List.append_assoc] at heq
          obtain ⟨rfl, htail⟩ := quoted_char_append_inj heq
          obtain ⟨rfl, hrest⟩ := ih htail
          exact ⟨rfl, hrest⟩

/-- A quoted text shows where it ends, and determines the text. -/
theorem quoted_append_inj {text text' : String}
    (heq : (quoted text).toList ++ rest = (quoted text').toList ++ rest') :
    text = text' ∧ rest = rest' := by
  simp only [quoted, String.toList_ofList, List.cons_append, List.append_assoc, List.nil_append,
    List.cons.injEq, true_and] at heq
  obtain ⟨htext, hrest⟩ := flat_map_quoted_char_inj heq
  exact ⟨String.toList_inj.mp htext, hrest⟩

end StringReach.Text
