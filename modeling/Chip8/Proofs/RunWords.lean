import Chip8.CommandLine.Run
import Chip8.Proofs.CommandWords

/-!
# Chip8.Proofs.RunWords

What the words of a run without a window ask for.

* `Agrees` : an option has the value that the words give it, in whatever order they come.
* `Asks`   : words that ask for a run, with its options and the file that they lead to.

`asks_iff`: these are the words that are taken up as a run, and no others.
-/

namespace Chip8
namespace CommandLine
namespace Run

variable {files : Files} {args : List String} {job : Job} {ws : Words Flag} {o o' : Options} {flag : Flag}

/-- An option has the value that the words give it; without words for it there is a default. -/
def Agrees (files : Files) (ws : Words Flag) (o : Options) : Flag → Prop
  | .cycles => ws.integer? .cycles "--cycles" (some 0) = .ok o.cycles
  | .frames => ws.integer? .frames "--frames" (some 0) = .ok o.frames
  | .seed => ws.integer? .seed "--seed" none = .ok o.seed
  | .key => ws.values .key = o.keys
  | .screenshot => (ws.value? .screenshot).mapM (writableFile files "--screenshot") = .ok o.screenshot
  | .scale => (ws.integer? .scale "--scale" (some 1)).map (·.getD 8) = .ok o.scale
  | .trace => ws.has .trace = o.trace
  | .verbose => ws.has .verbose = o.verbose
  | .version | .help => True

theorem agrees_default (h : ws.value? flag = none) : Agrees files ws {} flag := by
  cases flag with
  | cycles => simp only [Agrees, Words.integer?, h]
  | frames => simp only [Agrees, Words.integer?, h]
  | seed => simp only [Agrees, Words.integer?, h]
  | key => exact List.getLast?_eq_none_iff.mp h
  | screenshot =>
    simp only [Agrees, h]
    rfl
  | scale =>
    simp only [Agrees, Words.integer?, h]
    rfl
  | trace => simp only [Agrees, Words.has, h, Option.isSome_none]
  | verbose => simp only [Agrees, Words.has, h, Option.isSome_none]
  | version => trivial
  | help => trivial

/-- The words leave no choice. -/
theorem eq_of_agrees (h : ∀ flag, Agrees files ws o flag) (h' : ∀ flag, Agrees files ws o' flag) : o = o' := by
  have ok {α : Type} {x : Except UsageError α} {a b : α} (ha : x = .ok a) (hb : x = .ok b) : a = b :=
    Except.ok.inj (ha.symm.trans hb)
  obtain ⟨cycles, frames, seed, keys, screenshot, scale, trace, verbose⟩ := o
  obtain ⟨cycles', frames', seed', keys', screenshot', scale', trace', verbose'⟩ := o'
  obtain rfl : cycles = cycles' := ok (h .cycles) (h' .cycles)
  obtain rfl : frames = frames' := ok (h .frames) (h' .frames)
  obtain rfl : seed = seed' := ok (h .seed) (h' .seed)
  obtain rfl : keys = keys' := (h .key).symm.trans (h' .key)
  obtain rfl : screenshot = screenshot' := ok (h .screenshot) (h' .screenshot)
  obtain rfl : scale = scale' := ok (h .scale) (h' .scale)
  obtain rfl : trace = trace' := (h .trace).symm.trans (h' .trace)
  obtain rfl : verbose = verbose' := (h .verbose).symm.trans (h' .verbose)
  rfl

/-! ## Options in their order -/

theorem kept_of_takeOption (h : takeOption files ws o flag = .ok o') {other : Flag} (hne : other ≠ flag)
    (hother : Agrees files ws o other) : Agrees files ws o' other := by
  cases flag with
  | cycles | frames | seed | screenshot | scale =>
    obtain ⟨value, -, hput⟩ := ok_of_bind h
    cases hput
    cases other <;> first | exact hother | exact absurd rfl hne
  | key | trace | verbose =>
    cases h
    cases other <;> first | exact hother | exact absurd rfl hne
  | version | help =>
    cases h
    exact hother

theorem agrees_of_takeOption (hgiven : ws.value? flag ≠ none) (h : takeOption files ws o flag = .ok o') :
    Agrees files ws o' flag := by
  have hhas : ws.has flag = true := Option.isSome_iff_ne_none.mpr hgiven
  cases flag with
  | cycles | frames | seed | screenshot =>
    obtain ⟨value, hvalue, hput⟩ := ok_of_bind h
    cases hput
    exact hvalue
  | scale =>
    obtain ⟨n, hn, hput⟩ := ok_of_bind h
    cases hput
    -- it has been given, so the scale before is no longer asked for
    have hsome : n ≠ none := by
      rintro rfl
      exact hgiven (Words.value?_of_integer?_none hn)
    obtain ⟨scale, rfl⟩ := Option.ne_none_iff_exists'.mp hsome
    rw [Agrees, hn]
    rfl
  | key =>
    cases h
    rfl
  | trace | verbose =>
    cases h
    exact hhas
  | version | help => trivial

theorem agrees_of_takeOptions (h : ws.takeOptions (takeOption files ws) {} = .ok o) (flag : Flag) :
    Agrees files ws o flag := by
  have hstep : ∀ g ∈ ws.given, ∀ a b, takeOption files ws a g.1 = .ok b →
      Agrees files ws a flag ∨ g.1 = flag → Agrees files ws b flag := by
    intro g hg a b hb hflag
    have hgiven : ws.value? g.1 ≠ none := Words.value?_ne_none ⟨g, hg, rfl⟩
    by_cases heq : flag = g.1
    · rw [heq]
      exact agrees_of_takeOption hgiven hb
    · exact kept_of_takeOption hb heq (hflag.resolve_right (Ne.symm heq))
  refine Words.holds_of_takeOptions (P := fun o => Agrees files ws o flag) hstep h ?_
  by_cases hnone : ws.value? flag = none
  · exact .inl (agrees_default hnone)
  · exact .inr (Words.mem_given_of_value? hnone)

/-- Where there is a value for each option, all can be taken up. -/
theorem takeOption_of_agrees (h : ∀ flag, Agrees files ws o' flag) (o : Options) (flag : Flag) :
    ∃ next, takeOption files ws o flag = .ok next := by
  have hbind {α : Type} {x : Except UsageError α} {a : α} (hx : x = .ok a) (f : α → Options) :
      ∃ next, (x >>= fun a => Except.ok (f a)) = .ok next := by
    rw [hx]
    exact ⟨_, rfl⟩
  cases flag with
  | cycles => exact hbind (h .cycles) _
  | frames => exact hbind (h .frames) _
  | seed => exact hbind (h .seed) _
  | screenshot => exact hbind (h .screenshot) _
  | scale =>
    have hscale := h .scale
    cases hn : ws.integer? .scale "--scale" (some 1) with
    | error e =>
      rw [Agrees, hn] at hscale
      cases hscale
    | ok n => exact hbind hn _
  | key | trace | verbose | version | help => exact ⟨_, rfl⟩

theorem takeOptions_of_agrees (h : ∀ flag, Agrees files ws o flag) :
    ws.takeOptions (takeOption files ws) {} = .ok o := by
  obtain ⟨o', ho'⟩ := Words.takeOptions_total (takeOption_of_agrees h) ws.given {}
  obtain rfl := eq_of_agrees (agrees_of_takeOptions ho') h
  exact ho'

/-! ## The words of a run -/

/-- Words that ask for a run: none for the version or for help, a value for each option, and one argument
that leads to a file. -/
def Asks (files : Files) (args : List String) (job : Job) : Prop :=
  ∃ ws word, Words.read spellings args = .ok ws ∧ ws.first? [.version, .help] = none ∧
    (∀ flag, Agrees files ws job.toOptions flag) ∧ ws.arguments = [word] ∧
    word.contains '\x00' = false ∧ files word = .file job.data ∧ job.path = Path.normal word

theorem asks_iff : Asks files args job ↔ readRequest files args = .ok (.work job) := by
  constructor
  · rintro ⟨ws, word, hread, hfirst, hagrees, hargs, hnull, hfile, hpath⟩
    have hexists : existingFile files "ROM_FILE" word = .ok job.data :=
      existingFile_eq_ok.mpr ⟨hnull, hfile⟩
    simp only [readRequest, hread, bind, Except.bind, hfirst, takeOptions_of_agrees hagrees,
      Words.onlyArgument, hargs, hexists, ← hpath]
    rfl
  · intro h
    obtain ⟨ws, hread, h⟩ := ok_of_bind h
    cases hfirst : ws.first? [.version, .help] with
    | some flag =>
      rw [hfirst] at h
      cases flag <;> cases h
    | none =>
      rw [hfirst] at h
      obtain ⟨o, hoptions, h⟩ := ok_of_bind h
      obtain ⟨word, hargs, h⟩ := Words.onlyArgument_eq_ok h
      obtain ⟨data, hfile, h⟩ := ok_of_bind h
      cases h
      obtain ⟨hnull, hfile⟩ := existingFile_eq_ok.mp hfile
      exact ⟨ws, word, hread, hfirst, agrees_of_takeOptions hoptions, hargs, hnull, hfile, rfl⟩

end Run
end CommandLine
end Chip8
