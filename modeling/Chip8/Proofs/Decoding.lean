import Chip8.Instruction

/-!
# Chip8.Proofs.Decoding

Words and their forms. The first nibble of a word is settled by its form (`Form.family_of_ofWord`), and so are
the other nibbles that are no operands: a form that has a word gives those nibbles back.
-/

namespace Chip8

namespace Form

variable {f : Form} {w k : Nat}

/-- The first nibble of the words of a form. -/
def family : Form → Nat
  | sys | cls | ret => 0x0
  | jp => 0x1
  | call => 0x2
  | seByte => 0x3
  | sneByte => 0x4
  | seReg => 0x5
  | ldByte => 0x6
  | addByte => 0x7
  | ldReg | or | and | xor | addReg | sub | shr | subn | shl => 0x8
  | sneReg => 0x9
  | ldI => 0xA
  | jpV0 => 0xB
  | rnd => 0xC
  | drw => 0xD
  | skp | sknp => 0xE
  | ldVxDt | ldVxK | ldDtVx | ldStVx | addIVx | ldFVx | ldBVx | ldMemVx | ldVxMem => 0xF

theorem family_of_ofArithmetic (h : ofArithmetic k = some f) : f.family = 0x8 := by
  simp only [ofArithmetic] at h
  split at h <;> cases h <;> rfl

theorem ofKeyTest_eq_some (h : ofKeyTest k = some f) : k = 0x9E ∧ f = skp ∨ k = 0xA1 ∧ f = sknp := by
  simp only [ofKeyTest] at h
  split at h <;> cases h
  · exact .inl ⟨rfl, rfl⟩
  · exact .inr ⟨rfl, rfl⟩

theorem family_of_ofKeyTest (h : ofKeyTest k = some f) : f.family = 0xE := by
  rcases ofKeyTest_eq_some h with ⟨-, rfl⟩ | ⟨-, rfl⟩
  · rfl
  · rfl

theorem family_of_ofTransfer (h : ofTransfer k = some f) : f.family = 0xF := by
  simp only [ofTransfer] at h
  split at h <;> cases h <;> rfl

theorem family_of_ofWord (h : ofWord? w = some f) : w / 0x1000 = f.family := by
  simp only [ofWord?] at h
  split at h
  case h_1 hw =>
    cases h
    split
    · exact hw
    · split <;> exact hw
  case h_6 | h_10 =>
    split at h <;> cases h
    assumption
  case h_9 hw => rw [hw, family_of_ofArithmetic h]
  case h_15 hw => rw [hw, family_of_ofKeyTest h]
  case h_16 hw => rw [hw, family_of_ofTransfer h]
  case h_17 => cases h
  all_goals
    cases h
    assumption

/-- The words of family E, by their low byte. -/
theorem low_of_keyTest (h : ofWord? w = some f) (hf : f.family = 0xE) :
    w % 0x100 = 0x9E ∧ f = skp ∨ w % 0x100 = 0xA1 ∧ f = sknp := by
  have hw := family_of_ofWord h
  rw [hf] at hw
  simp only [ofWord?, hw] at h
  exact ofKeyTest_eq_some h

theorem ofWord?_eq_ret_iff : ofWord? w = some ret ↔ w = 0x00EE := by
  constructor
  · intro h
    have hw : w / 0x1000 = 0x0 := family_of_ofWord h
    simp only [ofWord?, hw] at h
    split at h
    · cases h
    · split at h
      · assumption
      · cases h
  · rintro rfl
    rfl

theorem ofWord?_eq_call_iff : ofWord? w = some call ↔ w / 0x1000 = 0x2 := by
  constructor
  · intro h
    exact family_of_ofWord h
  · intro h
    simp only [ofWord?, h]

theorem ofWord?_eq_drw (h : w / 0x1000 = 0xD) : ofWord? w = some drw := by
  simp only [ofWord?, h]

theorem ofWord?_eq_ldVxK_iff : ofWord? w = some ldVxK ↔ w / 0x1000 = 0xF ∧ w % 0x100 = 0x0A := by
  constructor
  · intro h
    have hw : w / 0x1000 = 0xF := family_of_ofWord h
    refine ⟨hw, ?_⟩
    simp only [ofWord?, hw, ofTransfer] at h
    split at h <;> simp_all
  · rintro ⟨hw, hk⟩
    simp only [ofWord?, hw, hk, ofTransfer]

theorem ofWord?_transfer (hw : w / 0x1000 = 0xF) (hk : w % 0x100 = k) : ofWord? w = ofTransfer k := by
  simp only [ofWord?, hw, hk]

end Form

namespace Instruction

variable {w : Nat} {ins : Instruction}

theorem form_of_ofWord (h : ofWord? w = some ins) : Form.ofWord? w = some ins.form := by
  simp only [ofWord?, Option.map_eq_some_iff] at h
  obtain ⟨form, hf, rfl⟩ := h
  exact hf

theorem opcode_of_ofWord (h : ofWord? w = some ins) : ins.opcode = w := by
  simp only [ofWord?, Option.map_eq_some_iff] at h
  obtain ⟨form, -, rfl⟩ := h
  rfl

theorem ofWord_of_form {form : Form} (h : Form.ofWord? w = some form) :
    ofWord? w = some ⟨form, w⟩ := by
  rw [ofWord?, h, Option.map_some]

theorem x_of_word {form : Form} {x : Fin 16} (h : w / 0x100 % 0x10 = x) :
    (⟨form, w⟩ : Instruction).x = x :=
  Fin.ext h

theorem y_of_word {form : Form} {y : Fin 16} (h : w / 0x10 % 0x10 = y) :
    (⟨form, w⟩ : Instruction).y = y :=
  Fin.ext h

theorem eq_of_ldVxK (h : ofWord? w = some ins) (hf : ins.form = .ldVxK) :
    ins = ⟨.ldVxK, 0xF00A + 0x100 * ins.x⟩ := by
  have hform := form_of_ofWord h
  have hw := opcode_of_ofWord h
  rw [hf, Form.ofWord?_eq_ldVxK_iff] at hform
  obtain ⟨form, opcode⟩ := ins
  cases hf
  cases hw
  simp only [x, mk.injEq, true_and] at hform ⊢
  omega

end Instruction

end Chip8
