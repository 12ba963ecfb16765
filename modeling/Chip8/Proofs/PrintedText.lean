import Chip8.CommandLine.Outcome
import Chip8.Proofs.Numeral
import Chip8.Proofs.Views
import Mathlib.Data.List.TakeWhile

/-!
# Chip8.Proofs.PrintedText

Texts as commands print them: line by line, without control sequences.

* `plainFrom_append_break` : no sequence reaches over a line break, so that lines are made plain one by one
  (`plain_lines`).
* `Visible`                : text without control characters. It has neither sequences nor line breaks in it,
  so printed lines fall apart into what they were (`textLines_lines`). Numbers and bytes are written so.
-/

namespace Chip8
namespace Text

open CommandLine Screen

variable {s t : String} {cs ds ps : List Char} {c : Char}

/-! ## Control sequences -/

theorem controlLength_of_ne (h : c ≠ '\x1b') (cs : List Char) : controlLength (c :: cs) = 0 := by
  unfold controlLength
  split
  · rename_i heq
    exact absurd (List.cons.inj heq).1 h
  · rfl

theorem controlLength_of_stop (hp : ∀ d ∈ ps, isParameter d = true) (hc : isParameter c = false)
    (cs : List Char) :
    controlLength ('\x1b' :: '[' :: (ps ++ c :: cs)) = if c.isAlpha then ps.length + 3 else 0 := by
  have hdrop : (ps ++ c :: cs).dropWhile isParameter = c :: cs := by
    rw [List.dropWhile_append_of_pos hp, List.dropWhile_cons_of_neg (by simp [hc])]
  have htake : (ps ++ c :: cs).takeWhile isParameter = ps := by
    rw [List.takeWhile_append_of_pos hp, List.takeWhile_cons_of_neg (by simp [hc]), List.append_nil]
  simp only [controlLength, hdrop, htake]

theorem controlLength_of_parameters (hp : ∀ d ∈ ps, isParameter d = true) :
    controlLength ('\x1b' :: '[' :: ps) = 0 := by
  have hdrop : ps.dropWhile isParameter = [] := List.dropWhile_eq_nil_iff.mpr hp
  simp only [controlLength, hdrop]

theorem parameters_or_stop (cs : List Char) : (∀ d ∈ cs, isParameter d = true) ∨
    ∃ ps c rest, cs = ps ++ c :: rest ∧ (∀ d ∈ ps, isParameter d = true) ∧ isParameter c = false := by
  induction cs with
  | nil => exact .inl (by simp)
  | cons d cs ih =>
    by_cases hd : isParameter d = true
    · rcases ih with hall | ⟨ps, c, rest, rfl, hp, hc⟩
      · exact .inl (List.forall_mem_cons.mpr ⟨hd, hall⟩)
      · exact .inr ⟨d :: ps, c, rest, rfl, List.forall_mem_cons.mpr ⟨hd, hp⟩, hc⟩
    · exact .inr ⟨[], d, cs, rfl, by simp, Bool.eq_false_iff.mpr hd⟩

theorem controlLength_eq_zero_or (cs : List Char) : controlLength cs = 0 ∨
    ∃ rest, cs = '\x1b' :: '[' :: rest := by
  unfold controlLength
  split
  · exact .inr ⟨_, rfl⟩
  · exact .inl rfl

theorem controlLength_le (cs : List Char) : controlLength cs ≤ cs.length := by
  rcases controlLength_eq_zero_or cs with h | ⟨rest, rfl⟩
  · omega
  · rcases parameters_or_stop rest with hp | ⟨ps, c, rest, rfl, hp, hc⟩
    · rw [controlLength_of_parameters hp]
      exact Nat.zero_le _
    · rw [controlLength_of_stop hp hc]
      simp only [List.length_cons, List.length_append]
      split <;> omega

/-- A line break is neither within a sequence nor the end of one. -/
theorem controlLength_append_break (cs ds : List Char) :
    controlLength (cs ++ '\n' :: ds) = controlLength cs := by
  by_cases h : ∃ rest, cs = '\x1b' :: '[' :: rest
  · obtain ⟨rest, rfl⟩ := h
    rcases parameters_or_stop rest with hp | ⟨ps, c, rest, rfl, hp, hc⟩
    · rw [controlLength_of_parameters hp]
      exact controlLength_of_stop (c := '\n') hp rfl ds
    · have hstop := controlLength_of_stop hp hc (rest ++ '\n' :: ds)
      rw [controlLength_of_stop hp hc, ← hstop]
      simp only [List.cons_append, List.append_assoc]
  · have hcs : controlLength cs = 0 := (controlLength_eq_zero_or cs).resolve_right h
    rw [hcs]
    refine (controlLength_eq_zero_or _).resolve_right ?_
    rintro ⟨rest, heq⟩
    cases cs with
    | nil => exact absurd (List.cons.inj heq).1 (by decide)
    | cons c cs =>
      obtain ⟨hc, htail⟩ := List.cons.inj heq
      cases cs with
      | nil => exact absurd (List.cons.inj htail).1 (by decide)
      | cons d cs =>
        obtain ⟨hd, -⟩ := List.cons.inj htail
        exact h ⟨cs, by rw [hc, hd]⟩

theorem plainFrom_of_control {n : Nat} (h : controlLength (c :: cs) = n + 1) :
    plainFrom 0 (c :: cs) = plainFrom n cs := by
  rw [plainFrom, h]

theorem plainFrom_of_text (h : controlLength (c :: cs) = 0) :
    plainFrom 0 (c :: cs) = c :: plainFrom 0 cs := by
  rw [plainFrom, h]

/-- What is left out in front of a line break ends in front of it. -/
theorem plainFrom_append_break (cs ds : List Char) {skip : Nat} (h : skip ≤ cs.length) :
    plainFrom skip (cs ++ '\n' :: ds) = plainFrom skip cs ++ '\n' :: plainFrom 0 ds := by
  induction cs generalizing skip with
  | nil =>
    obtain rfl : skip = 0 := Nat.le_zero.mp h
    exact plainFrom_of_text (controlLength_of_ne (by decide) ds)
  | cons c cs ih =>
    cases skip with
    | succ skip => exact ih (Nat.le_of_succ_le_succ h)
    | zero =>
      have hsame : controlLength (c :: (cs ++ '\n' :: ds)) = controlLength (c :: cs) :=
        controlLength_append_break (c :: cs) ds
      cases hc : controlLength (c :: cs) with
      | zero =>
        rw [hc] at hsame
        rw [List.cons_append, plainFrom_of_text hsame, plainFrom_of_text hc, ih (Nat.zero_le _),
          List.cons_append]
      | succ n =>
        have hn := controlLength_le (c :: cs)
        rw [hc, List.length_cons] at hn
        rw [hc] at hsame
        rw [List.cons_append, plainFrom_of_control hsame, plainFrom_of_control hc,
          ih (Nat.le_of_succ_le_succ hn)]

theorem plainFrom_append (h : '\x1b' ∉ cs) (ds : List Char) :
    plainFrom 0 (cs ++ ds) = cs ++ plainFrom 0 ds := by
  induction cs with
  | nil => rfl
  | cons c cs ih =>
    obtain ⟨hc, hcs⟩ := List.ne_and_not_mem_of_not_mem_cons h
    rw [List.cons_append, plainFrom_of_text (controlLength_of_ne hc.symm _), ih hcs, List.cons_append]

theorem plain_append (h : '\x1b' ∉ s.toList) (t : String) : plain (s ++ t) = s ++ plain t := by
  rw [← String.toList_inj, plain, String.toList_ofList, String.toList_append, plainFrom_append h,
    String.toList_append, plain, String.toList_ofList]

theorem plain_of_no_escape (h : '\x1b' ∉ s.toList) : plain s = s := by
  have happend := plain_append h ""
  rwa [String.append_empty, show plain "" = "" from rfl, String.append_empty] at happend

/-! ## Lines -/

theorem toList_line (s : String) : (Outcome.line s).toList = s.toList ++ ['\n'] := by
  rw [Outcome.line, String.toList_append]
  rfl

theorem lines_cons (s : String) (ss : List String) :
    Outcome.lines (s :: ss) = Outcome.line s ++ Outcome.lines ss := by
  rw [Outcome.lines, List.map_cons, String.join_cons, Outcome.lines]

theorem plain_line_append (s t : String) :
    plain (Outcome.line s ++ t) = Outcome.line (plain s) ++ plain t := by
  rw [← String.toList_inj, plain, String.toList_ofList, String.toList_append, toList_line,
    List.append_assoc, List.singleton_append, plainFrom_append_break _ _ (Nat.zero_le _),
    String.toList_append, toList_line, plain, String.toList_ofList, plain, String.toList_ofList,
    List.append_assoc, List.singleton_append]

theorem plain_lines (ss : List String) : plain (Outcome.lines ss) = Outcome.lines (ss.map plain) := by
  induction ss with
  | nil => rfl
  | cons s ss ih => rw [lines_cons, plain_line_append, ih, List.map_cons, lines_cons]

/-- A text behind a line, the line cut where it has breaks of its own. -/
theorem textLines_line_append (s t : String) :
    textLines (Outcome.line s ++ t) = textLines s ++ textLines t := by
  rw [textLines, String.toList_append, toList_line, List.append_assoc, List.singleton_append]
  exact List.splitOn_append_cons_self s.toList t.toList

/-! ## Visible text -/

def Visible (s : String) : Prop :=
  ∀ c ∈ s.toList, ' ' ≤ c

instance (s : String) : Decidable (Visible s) :=
  List.decidableBAll (fun c => ' ' ≤ c) s.toList

namespace Visible

theorem no_escape (h : Visible s) : '\x1b' ∉ s.toList :=
  fun hmem => absurd (h _ hmem) (by decide)

theorem no_break (h : Visible s) : '\n' ∉ s.toList :=
  fun hmem => absurd (h _ hmem) (by decide)

theorem append (hs : Visible s) (ht : Visible t) : Visible (s ++ t) := by
  intro c hc
  rw [String.toList_append, List.mem_append] at hc
  exact hc.elim (hs c) (ht c)

theorem intercalate {ss : List String} (hs : Visible s) (h : ∀ t ∈ ss, Visible t) :
    Visible (s.intercalate ss) := by
  induction ss with
  | nil => intro c hc; cases hc
  | cons t ss ih =>
    have ih := ih fun u hu => h u (List.mem_cons_of_mem t hu)
    have ht := h t List.mem_cons_self
    cases ss with
    | nil => rwa [String.intercalate_singleton]
    | cons u ss =>
      rw [String.intercalate_cons_cons]
      exact (ht.append hs).append ih

theorem padRight (h : Visible s) (width : Nat) : Visible (padRight width s) := by
  refine h.append fun c hc => ?_
  rw [String.toList_ofList] at hc
  obtain rfl := List.eq_of_mem_replicate hc
  exact Char.le_refl ' '

theorem hex (width : Nat) (n : Int) : Visible (hex width n) := by
  have hdigit (m : Nat) : ∀ c ∈ hexDigits m, ' ' ≤ c := by
    intro c hc
    obtain ⟨d, hd, rfl⟩ := mem_hexDigits hc
    have hall : ∀ d : Fin 16, ' ' ≤ hexDigit d.val := by decide
    exact hall ⟨d, hd⟩
  have hpad (width m : Nat) : ∀ c ∈ zeroPad width (hexDigits m), ' ' ≤ c := by
    intro c hc
    rcases List.mem_append.mp hc with hc | hc
    · obtain rfl := List.eq_of_mem_replicate hc
      decide
    · exact hdigit m c hc
  intro c hc
  rw [Text.hex, String.toList_ofList] at hc
  cases n with
  | ofNat n => exact hpad width n c hc
  | negSucc n =>
    rcases List.mem_cons.mp hc with rfl | hc
    · decide
    · exact hpad (width - 1) (n + 1) c hc

theorem hexBytes (bs : List UInt8) : Visible (hexBytes bs) := by
  refine intercalate (by decide) fun t ht => ?_
  obtain ⟨b, -, rfl⟩ := List.mem_map.mp ht
  exact hex 2 _

theorem nat (n : Nat) : Visible (toString n) := by
  intro c hc
  rw [Nat.toString_eq_repr, Nat.toList_repr] at hc
  have hdigit := Nat.isDigit_of_mem_toDigits (by decide) (by decide) hc
  simp only [Char.isDigit, Bool.and_eq_true, decide_eq_true_eq] at hdigit
  exact UInt32.le_trans (by decide) hdigit.1

theorem int (n : Int) : Visible (toString n) := by
  cases n with
  | ofNat n => exact nat n
  | negSucc n => exact append (by decide) (nat (n + 1))

end Visible

theorem plain_of_visible (h : Visible s) : plain s = s :=
  plain_of_no_escape h.no_escape

theorem textLines_of_visible (h : Visible s) : textLines s = [s.toList] :=
  List.splitOn_eq_singleton h.no_break

theorem textLines_lines {ss : List String} (h : ∀ s ∈ ss, Visible s) :
    textLines (Outcome.lines ss) = ss.map String.toList ++ [[]] := by
  induction ss with
  | nil => rfl
  | cons s ss ih =>
    obtain ⟨hs, hss⟩ := List.forall_mem_cons.mp h
    rw [lines_cons, textLines_line_append, textLines_of_visible hs, ih hss]
    rfl

end Text
end Chip8
