import Chip8.Text.Hex
import Chip8.Text.Integer

/-!
# Chip8.Proofs.Numeral

Numbers that were written in hexadecimal, read back. Every digit that is written is read as its value, so
the digits of a number are read as the number, with zeros in front of them or not
(`readMarked_hexChars`); in particular no two numbers are written alike (`hex_injective`).
-/

namespace Chip8
namespace Text

theorem digitValue_hexDigit {d : Nat} (h : d < 16) : digitValue (hexDigit d) = some d := by
  have hall : ∀ d : Fin 16, digitValue (hexDigit d.val) = some d.val := by decide
  exact hall ⟨d, h⟩

/-- No digit is an underscore, which a reader would pass over. -/
theorem hexDigit_ne_underscore {d : Nat} (h : d < 16) : hexDigit d ≠ '_' := by
  have hall : ∀ d : Fin 16, hexDigit d.val ≠ '_' := by decide
  exact hall ⟨d, h⟩

theorem hexChars_ofNat (width n : Nat) : hexChars width n = zeroPad width (hexDigits n) := rfl

theorem toList_append_hex (s : String) (width n : Nat) :
    (s ++ hex width n).toList = s.toList ++ hexChars width n := by
  rw [String.toList_append, hex, String.toList_ofList]

theorem mem_hexDigits {n : Nat} {c : Char} (h : c ∈ hexDigits n) : ∃ d < 16, c = hexDigit d := by
  induction n using hexDigits.induct with
  | case1 n hn =>
    rw [hexDigits, if_pos hn, List.mem_singleton] at h
    exact ⟨n, hn, h⟩
  | case2 n hn ih =>
    rw [hexDigits, if_neg hn, List.mem_append, List.mem_singleton] at h
    obtain h | h := h
    · exact ih h
    · exact ⟨n % 16, Nat.mod_lt _ (by decide), h⟩

theorem mem_hexChars {width n : Nat} {c : Char} (h : c ∈ hexChars width n) :
    ∃ d < 16, c = hexDigit d := by
  rw [hexChars_ofNat, zeroPad, List.mem_append, List.mem_replicate] at h
  obtain ⟨-, rfl⟩ | h := h
  · exact ⟨0, by decide, rfl⟩
  · exact mem_hexDigits h

theorem hexDigits_ne_nil (n : Nat) : hexDigits n ≠ [] := by
  rw [hexDigits]
  split <;> simp

theorem hexChars_ne_nil (width n : Nat) : hexChars width n ≠ [] := by
  rw [hexChars_ofNat, zeroPad]
  simp [hexDigits_ne_nil]

theorem length_hexByte (b : UInt8) : (hexByte b).length = 2 := by
  have hb := b.toNat_lt
  have hdigits : (hexDigits b.toNat).length ≤ 2 := by
    rw [hexDigits]
    split
    · simp
    · rw [hexDigits, if_pos (by omega)]
      simp
  rw [hexByte, hex, String.length_ofList, hexChars_ofNat, length_zeroPad]
  omega

/-! ## Reading back -/

theorem readDigits_hexDigit {base d : Nat} (h : d < 16) (hb : d < base) (acc : Nat)
    (rest : List Char) :
    readDigits base acc (hexDigit d :: rest) = readDigits base (acc * base + d) rest := by
  have hne := hexDigit_ne_underscore h
  rw [readDigits.eq_3 _ _ _ _ fun _ _ hc _ => hne hc, readDigits.digit, digitValue_hexDigit h]
  simp only [if_pos hb]

theorem readDigits_hexDigits (n : Nat) (rest : List Char) :
    readDigits 16 0 (hexDigits n ++ rest) = readDigits 16 n rest := by
  induction n using hexDigits.induct generalizing rest with
  | case1 n hn =>
    rw [hexDigits, if_pos hn, List.singleton_append, readDigits_hexDigit hn hn, Nat.zero_mul,
      Nat.zero_add]
  | case2 n hn ih =>
    have hdigit : n % 16 < 16 := Nat.mod_lt _ (by decide)
    have hsum : n / 16 * 16 + n % 16 = n := by omega
    rw [hexDigits, if_neg hn, List.append_assoc, ih, List.singleton_append,
      readDigits_hexDigit hdigit hdigit, hsum]

theorem readDigits_zeros (k : Nat) (rest : List Char) :
    readDigits 16 0 (List.replicate k '0' ++ rest) = readDigits 16 0 rest := by
  induction k with
  | zero => rfl
  | succ k ih =>
    rw [List.replicate_succ, List.cons_append]
    exact (readDigits_hexDigit (d := 0) (by decide) (by decide) 0 _).trans ih

/-- **A number is read back from its hexadecimal digits**, whatever their width. -/
theorem readMarked_hexChars (width n : Nat) : readMarked 16 (hexChars width n) = some n := by
  have hne : ¬(hexChars width n).isEmpty = true := by
    rw [List.isEmpty_iff]
    exact hexChars_ne_nil width n
  have hend : readDigits 16 n [] = some n := readDigits.eq_1 16 n
  rw [readMarked, if_neg hne, hexChars_ofNat, zeroPad, readDigits_zeros,
    ← List.append_nil (hexDigits n), readDigits_hexDigits, hend]

theorem hex_injective {width m n : Nat} (h : hex width m = hex width n) : m = n := by
  have hchars : hexChars width m = hexChars width n := String.ofList_injective h
  have hread := congrArg (readMarked 16) hchars
  rw [readMarked_hexChars, readMarked_hexChars] at hread
  exact Option.some.inj hread

/-! ## Small decimal numbers -/

theorem readDigits_decimal {n : Nat} (h : n < 16) : readDigits 10 0 (toString n).toList = some n := by
  obtain hn | hn := Nat.lt_or_ge n 10
  · have hall : ∀ n : Fin 10, (toString n.val).toList = [hexDigit n.val] := by decide
    have hone : (toString n).toList = [hexDigit n] := hall ⟨n, hn⟩
    rw [hone, readDigits_hexDigit h hn, readDigits.eq_1, Nat.zero_mul, Nat.zero_add]
  · have hall : ∀ d : Fin 6, (toString (10 + d.val)).toList = [hexDigit 1, hexDigit d.val] := by
      decide
    obtain ⟨d, rfl⟩ := Nat.exists_eq_add_of_le hn
    have htwo : (toString (10 + d)).toList = [hexDigit 1, hexDigit d] := hall ⟨d, by omega⟩
    rw [htwo, readDigits_hexDigit (by decide) (by decide), readDigits_hexDigit (by omega) (by omega),
      readDigits.eq_1]

/-- No zero stands in front, and no underscore. -/
theorem readUnmarked_decimal {n : Nat} (h : n < 16) : readUnmarked (toString n).toList = some n := by
  have hall : ∀ n : Fin 16, ((toString n.val).toList.filter (· ≠ '_')).length ≤ 2 ∧
      (toString n.val).toList.head? ≠ some '_' ∧ (toString n.val).toList.isEmpty = false ∧
      ¬((toString n.val).toList.head?.bind decimalValue = some 0 ∧ n.val ≠ 0) := by decide
  obtain ⟨hlen, hhead, hne, hzero⟩ := hall ⟨n, h⟩
  have hmax : ((toString n).toList.filter (· ≠ '_')).length ≤ maxDecimalDigits :=
    Nat.le_trans hlen (by decide)
  rw [readUnmarked, readDecimal, if_pos hmax, readPlain, if_neg hhead, readMarked, hne,
    readDigits_decimal h]
  exact if_neg hzero

end Text
end Chip8
