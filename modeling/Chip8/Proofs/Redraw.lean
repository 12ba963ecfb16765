import Chip8.Proofs.Deeds
import Chip8.Proofs.Footprint

/-!
# Chip8.Proofs.Redraw

The flag that tells a renderer to draw again. Every instruction that can switch a pixel raises it, and of
all deeds only a reset and the taking of a frame lower it. A draw without rows raises no flag, and
switches no pixel.

`screen_shown`: while the flag is down, the screen is the one that was there after the last of these
deeds, or at the start.
-/

namespace Chip8

theorem Machine.screen_of_turns {m m' : Machine} {r r' : RandomSource} {a : Option Instruction}
    (ht : m.Turns r a m' r') (h : m'.drawn = false) : m.drawn = false ∧ m'.screen = m.screen := by
  cases ht with
  | waitsOn => exact ⟨h, rfl⟩
  | takes => exact ⟨h, rfl⟩
  | @carries ins _ _ _ _ hco =>
    have hrest := (rest_of_carryOut hco).1
    have hdrawn : m'.drawn = (m.obey ins).drawn := congrArg (·.2.1) hrest
    have hscreen : m'.screen = (m.obey ins).screen := congrArg (·.1) hrest
    rw [hdrawn, obey_drawn, Bool.or_eq_false_iff] at h
    exact ⟨h.1, by rw [hscreen, obey_screen h.2]⟩

namespace Engine

variable {e : Engine}

theorem screen_of_accept (h : e.machine.WellFormed) (i : Input)
    (hd : (e.accept i).machine.drawn = false) :
    e.machine.drawn = false ∧ (e.accept i).machine.screen = e.machine.screen := by
  obtain ⟨a, ht⟩ | ⟨delay, sound, keypad, he⟩ := accept_cases h i
  · exact Machine.screen_of_turns ht hd
  · rw [he] at hd ⊢
    exact ⟨hd, rfl⟩

theorem screen_of_drive (h : e.machine.WellFormed) (inputs : List Input)
    (hd : (e.drive inputs).machine.drawn = false) :
    e.machine.drawn = false ∧ (e.drive inputs).machine.screen = e.machine.screen := by
  induction inputs generalizing e with
  | nil => exact ⟨hd, rfl⟩
  | cons i inputs ih =>
    obtain ⟨hnext, hrest⟩ := ih (wellFormed_accept h i) hd
    obtain ⟨hfirst, hscreen⟩ := screen_of_accept h i hnext
    exact ⟨hfirst, hrest.trans hscreen⟩

end Engine

namespace Session

variable {s : Session} {d : Deed}

/-- A deed after which a renderer knows the screen. -/
def Deed.shows : Deed → Bool
  | .operation .reset | .operation .takeFrame => true
  | _ => false

/-- The deeds up to the last one that shows the screen. -/
def untilShown (deeds : List Deed) : List Deed :=
  (deeds.reverse.dropWhile fun d => !d.shows).reverse

/-- The screen that a renderer knows after some deeds. -/
def shown (s : Session) (deeds : List Deed) : Screen :=
  (s.undergoAll (untilShown deeds)).machine.screen

/-- A deed that does not show the screen leaves it as it is, or raises the flag. -/
theorem screen_of_undergo (h : s.machine.WellFormed) (hshows : d.shows = false)
    (hd : (s.undergo d).machine.drawn = false) :
    s.machine.drawn = false ∧ (s.undergo d).machine.screen = s.machine.screen := by
  have hc := changes_undergo s d
  have hmachine : (s.undergo d).machine = (s.undergo d).engine.core.1 := rfl
  rw [hmachine] at hd ⊢
  generalize (s.undergo d).engine.core = c at hc hd ⊢
  cases hc with
  | drives => exact Engine.screen_of_drive h _ hd
  | loads _ hl =>
    simp only [Machine.load] at hl
    split at hl <;> cases hl
    exact ⟨hd, rfl⟩
  | pokes => exact ⟨hd, rfl⟩
  | takesFrame | resets => cases hshows

theorem screen_of_undergoAll (h : s.machine.WellFormed) {deeds : List Deed}
    (hshows : ∀ d ∈ deeds, d.shows = false) (hd : (s.undergoAll deeds).machine.drawn = false) :
    s.machine.drawn = false ∧ (s.undergoAll deeds).machine.screen = s.machine.screen := by
  induction deeds generalizing s with
  | nil => exact ⟨hd, rfl⟩
  | cons d deeds ih =>
    have hw : (s.undergo d).machine.WellFormed := wellFormed_changes h (changes_undergo s d)
    obtain ⟨hnext, hrest⟩ := ih hw (fun d hd => hshows d (List.mem_cons_of_mem _ hd)) hd
    obtain ⟨hfirst, hscreen⟩ := screen_of_undergo h (hshows d List.mem_cons_self) hnext
    exact ⟨hfirst, hrest.trans hscreen⟩

theorem untilShown_append (deeds : List Deed) :
    ∃ others, untilShown deeds ++ others = deeds ∧ ∀ d ∈ others, d.shows = false := by
  refine ⟨(deeds.reverse.takeWhile fun d => !d.shows).reverse, ?_, ?_⟩
  · rw [untilShown, ← List.reverse_append, List.takeWhile_append_dropWhile, List.reverse_reverse]
  · intro d hd
    have hall := List.all_eq_true.mp List.all_takeWhile d (List.mem_reverse.mp hd)
    simpa using hall

/-- **No change of the screen is missed.** -/
theorem screen_shown (random : RandomSource) (trace : Bool) (deeds : List Deed)
    (h : ((start random trace).undergoAll deeds).machine.drawn = false) :
    ((start random trace).undergoAll deeds).machine.screen = (start random trace).shown deeds := by
  obtain ⟨others, hdeeds, hshows⟩ := untilShown_append deeds
  have hw := wellFormed_undergoAll (wellFormed_start random trace) (untilShown deeds)
  have hsplit : (start random trace).undergoAll deeds =
      ((start random trace).undergoAll (untilShown deeds)).undergoAll others := by
    rw [← undergoAll_append, hdeeds]
  rw [hsplit] at h ⊢
  exact (screen_of_undergoAll hw hshows h).2

/-- Draws a glyph that a renderer takes, then no rows, then comes to a word that is no instruction. -/
def glyphThenFault : List Deed :=
  [.operation (.load [0xD0, 0x05, 0xD0, 0x00, 0xFF, 0xFF]), .operation .step,
    .operation .takeFrame, .operation (.run 10)]

/-- The run ended in a fault behind the draw without rows. The glyph is still there, and shown. -/
theorem glyphThenFault_shown :
    ((start (.ofBytes #[]) false).undergoAll glyphThenFault).machine.drawn = false ∧
      ((start (.ofBytes #[]) false).undergoAll glyphThenFault).machine.screen =
        (start (.ofBytes #[]) false).shown glyphThenFault ∧
      ((start (.ofBytes #[]) false).shown glyphThenFault).lit 0 0 = true ∧
      ((start (.ofBytes #[]) false).undergoAll glyphThenFault).machine.pc = 0x204 ∧
      ((start (.ofBytes #[]) false).undergoAll glyphThenFault).engine.completes = false := by
  have hdrawn : ((start (.ofBytes #[]) false).undergoAll glyphThenFault).machine.drawn = false := by
    decide +kernel
  exact ⟨hdrawn, screen_shown _ _ _ hdrawn, by decide +kernel, by decide +kernel, by decide +kernel⟩

end Session
end Chip8
