import Chip8.Proofs.HeldKeys
import Chip8.Proofs.PlainEnds
import Chip8.Proofs.RunWords

/-!
# Chip8.Proofs.Headless

A run without a window, from the words of the command line to the exit code.

* `Shows`    : a text of 32 lines for a screen, and a status line with the program counter and the address
  register.
* `plainly`  : the cycles or frames that a run asks for, with no debugger and no session around them.
* `Reports`  : how a run is answered. Troubles come before a run, the first of them counts, and each has an
  exit code of its own; otherwise the answer tells of the machine that plain cycles or frames leave.

Main statement: `headless_reports`.
-/

namespace Chip8
namespace CommandLine
namespace Run

open Engine (Ends)
open Screen (textLines)
open Text (Visible)

variable {files : Files} {env : Environment} {args : List String} {job : Job} {s : Session}

/-! ## What is reported -/

/-- A seed in the environment that is no integer. An empty one is none at all. -/
def BadSeed (env : Environment) : Prop :=
  ∃ text, env.seed = some text ∧ text ≠ "" ∧ Text.readInteger .marked text = none

def plainly (job : Job) (e : Engine) : Ends :=
  match job.cycles with
  | some n => e.plainCycles n.toNat
  | none => e.plainFrames false (job.frames.getD 60).toNat

def Shows (stdout : String) (m : Machine) : Prop :=
  ∃ rows said, ∃ cycles : Nat, textLines stdout =
      rows ++ [("Stopped: " ++ said ++ " (pc=$" ++ Text.hex 3 m.pc ++ ", i=$" ++ Text.hex 3 m.i ++
        ", cycles=" ++ toString cycles ++ ")").toList, []] ∧
    Tabulates 64 32 (fun x y => (m.screen.pixel? x y).map fun lit => if lit then '#' else '.') rows

inductive Reports (env : Environment) (job : Job) (o : Outcome) : Prop where
  | badSeed : BadSeed env → o.exit = 2 → o.stdout = "" → Reports env job o
  | tooLarge : ¬BadSeed env → 3584 < job.data.length → o.exit = 1 → o.stdout = "" → Reports env job o
  | unknownKey {name : String} : ¬BadSeed env → job.data.length ≤ 3584 → name ∈ job.keys →
      (∀ k, ¬(Key.host name).Denotes k) → o.exit = 2 → o.stdout = "" → Reports env job o
  /-- A new machine that holds the named keys. The seed of the command line comes before that of the
  environment. -/
  | ran {given : Option Int} {m : Machine} {pad : Keypad} {ends : Ends} :
      Settings.readSeed env.seed = .ok given → job.data.length ≤ 3584 →
      (∀ name ∈ job.keys, ∃ k, (Key.host name).Denotes k) →
      Machine.fresh.load job.data = .ok m →
      (∀ k : Fin 16, pad[k] = true ↔ ∃ name ∈ job.keys, (Key.host name).Denotes k) →
      ends = plainly job { machine := { m with keypad := pad }
                           random := .ofSeed ((job.seed.or given).getD env.spare)
                           trace := false
                           notes := #[] } →
      Shows o.stdout ends.engine.machine → o.exit = (if ends.isFailed then 1 else 0) → Reports env job o

/-! ## Before the run -/

theorem readSeed_cases (env : Environment) :
    (BadSeed env ∧ ∃ e, Settings.readSeed env.seed = .error e) ∨
      ¬BadSeed env ∧ ∃ given, Settings.readSeed env.seed = .ok given := by
  unfold BadSeed
  cases hseed : env.seed with
  | none => exact .inr ⟨by simp, none, rfl⟩
  | some text =>
    by_cases hempty : text = ""
    · subst hempty
      exact .inr ⟨by simp, none, rfl⟩
    · have hne : ¬text.isEmpty = true := by simpa using hempty
      simp only [Settings.readSeed, if_neg hne]
      cases hread : Text.readInteger .marked text with
      | none => exact .inl ⟨⟨text, rfl, hempty, hread⟩, _, rfl⟩
      | some n =>
        refine .inr ⟨?_, some n, rfl⟩
        rintro ⟨other, heq, -, hnone⟩
        cases heq
        rw [hread] at hnone
        cases hnone

theorem load_cases (program : List UInt8) :
    (program.length ≤ 3584 ∧ ∃ memory, Machine.fresh.load program = .ok { Machine.fresh with memory }) ∨
      3584 < program.length ∧ ∃ e, Machine.fresh.load program = .error e := by
  have hcapacity : Memory.programCapacity = 3584 := rfl
  simp only [Machine.load, hcapacity]
  by_cases hfits : program.length ≤ 3584
  · rw [if_pos hfits]
    exact .inl ⟨hfits, _, rfl⟩
  · rw [if_neg hfits]
    exact .inr ⟨Nat.lt_of_not_le hfits, _, rfl⟩

/-- A new session with a program: its machine differs from a new one in the memory, and nothing is set in its
debugger. -/
structure Prepared (env : Environment) (job : Job) (given : Option Int) (m : Machine) (s : Session) : Prop where
  fits : job.data.length ≤ 3584
  load : Machine.fresh.load job.data = .ok m
  fresh : ∃ memory, m = { Machine.fresh with memory }
  machine : s.machine = m
  random : s.engine.random = .ofSeed ((job.seed.or given).getD env.spare)
  debugger : s.debugger = Debugger.fresh

theorem prepare_of_badSeed {e : SeedError} (h : Settings.readSeed env.seed = .error e) :
    prepare env job = .error (.ofSeedError e) := by
  unfold prepare Settings.ofEnvironment
  rw [h]
  rfl

theorem prepare_of_seed (job : Job) {given : Option Int} (h : Settings.readSeed env.seed = .ok given) :
    (∃ m s, prepare env job = .ok s ∧ Prepared env job given m s) ∨
      3584 < job.data.length ∧ ∃ e, prepare env job = .error (.ofLoadError e) := by
  have hprepare : prepare env job = ((Session.ofSettings
      { seed := job.seed.or given, trace := job.trace || Settings.readTrace env.trace } env.spare).load
        job.data).mapError Trouble.ofLoadError >>= fun s => .ok (s.note (.fileLoaded (Path.name job.path))) := by
    unfold prepare Settings.ofEnvironment
    rw [h]
    rfl
  have hmachine (settings : Settings) : (Session.ofSettings settings env.spare).machine = Machine.fresh := rfl
  rw [hprepare]
  unfold Session.load
  rw [hmachine]
  obtain ⟨hfits, memory, hload⟩ | ⟨hlarge, e, hload⟩ := load_cases job.data
  · rw [hload]
    exact .inl ⟨_, _, rfl, hfits, hload, ⟨memory, rfl⟩, rfl, rfl, rfl⟩
  · rw [hload]
    exact .inr ⟨hlarge, e, rfl⟩

/-! ## Keys -/

theorem holdKeys_of_known (names : List String) (h : ∀ name ∈ names, ∃ k, (Key.host name).Denotes k) :
    ∃ pad, holdKeys s names = .ok (s.withKeypad pad) ∧
      ∀ k : Fin 16, pad[k] = true ↔
        s.machine.keypad[k] = true ∨ ∃ name ∈ names, (Key.host name).Denotes k := by
  induction names generalizing s with
  | nil => exact ⟨s.machine.keypad, rfl, by simp⟩
  | cons name names ih =>
    obtain ⟨⟨j, hj⟩, hnames⟩ := List.forall_mem_cons.mp h
    obtain ⟨pad, hpad, hheld⟩ := ih (s := s.withKeypad (s.machine.keypad.hold j true)) hnames
    refine ⟨pad, ?_, ?_⟩
    · simp only [holdKeys, Machine.holdKey, Key.denotes_iff.mp hj]
      exact hpad
    · intro k
      rw [hheld]
      show (s.machine.keypad.hold j true)[k] = true ∨ _ ↔ _
      rw [Keypad.get_hold, List.exists_mem_cons_iff, Key.denotes_iff_eq hj]
      by_cases hjk : j = k <;> simp [hjk]

theorem holdKeys_of_unknown (names : List String) (h : ∃ name ∈ names, ∀ k, ¬(Key.host name).Denotes k) :
    ∃ e, holdKeys s names = .error (.ofKeyError e) := by
  induction names generalizing s with
  | nil => simp at h
  | cons name names ih =>
    cases hname : (Key.host name).resolve with
    | error e => exact ⟨e, by simp only [holdKeys, Machine.holdKey, hname]⟩
    | ok j =>
      obtain ⟨other, hother, hnone⟩ := h
      rcases List.mem_cons.mp hother with rfl | hother
      · exact absurd (Key.denotes_iff.mpr hname) (hnone j)
      · obtain ⟨e, he⟩ := ih (s := s.change fun _ => s.machine.hold j true) ⟨other, hother, hnone⟩
        exact ⟨e, by simp only [holdKeys, Machine.holdKey, hname, he]⟩

/-! ## What is printed -/

theorem visible_plainLines (screen : Screen) : ∀ line ∈ screen.plainLines, Visible line := by
  intro line hline c hc
  have hmem : line.toList ∈ (screen.lines '#'.toString '.'.toString).map String.toList :=
    List.mem_map_of_mem hline
  rw [Screen.map_toList_lines] at hmem
  obtain ⟨row, -, hrow⟩ := List.mem_map.mp hmem
  rw [← hrow] at hc
  obtain ⟨lit, -, rfl⟩ := List.mem_map.mp hc
  cases lit <;> decide

theorem visible_statusLine {event : Event} (h : Visible event.text) (s : Session) :
    Visible (statusLine event s) := by
  have hfront : Visible ("Stopped: " ++ event.text ++ " (pc=$" ++ Text.hex 3 s.machine.pc) :=
    .append (.append (.append (by decide) h) (by decide)) (.hex 3 _)
  have hback : Visible ("Stopped: " ++ event.text ++ " (pc=$" ++ Text.hex 3 s.machine.pc ++ ", i=$" ++
      Text.hex 3 s.machine.i) := .append (.append hfront (by decide)) (.hex 3 _)
  exact .append (.append (.append hback (by decide)) (.nat _)) (by decide)

theorem shows_report {event : Event} {m : Machine} (h : Visible event.text) (hm : s.machine = m) :
    Shows (Outcome.allSaid (s.machine.screen.plainLines ++ [statusLine event s])) m := by
  subst hm
  have hvisible : ∀ line ∈ s.machine.screen.plainLines ++ [statusLine event s], Visible line := by
    intro line hline
    rcases List.mem_append.mp hline with hline | hline
    · exact visible_plainLines _ line hline
    · rw [List.mem_singleton.mp hline]
      exact visible_statusLine h s
  -- there is no control sequence to leave out
  have hsaid : Outcome.allSaid (s.machine.screen.plainLines ++ [statusLine event s]) =
      Outcome.lines (s.machine.screen.plainLines ++ [statusLine event s]) := by
    unfold Outcome.allSaid Outcome.lines Outcome.said
    rw [List.map_congr_left fun line hline => ?_]
    rw [Text.plain_of_visible (hvisible line hline)]
  refine ⟨s.machine.screen.plainLines.map String.toList, event.text, s.cycles, ?_, ?_⟩
  · rw [hsaid, Text.textLines_lines hvisible, List.map_append, List.append_assoc]
    rfl
  · have hrows := s.machine.screen.tabulates_rows.map fun lit => if lit then '#' else '.'
    rw [← Screen.map_toList_lines] at hrows
    exact hrows

/-! ## The run -/

theorem drive_endsLike (h : s.debugger.Idle) (hw : s.machine.WellFormed) (ha : s.machine.isAwaiting = false)
    (job : Job) : Session.EndsLike (plainly job s.engine) (drive job s) := by
  unfold plainly drive
  cases job.cycles with
  | some n => exact Session.run_endsLike h hw ha n
  | none => exact Session.runFrames_endsLike h hw _ false

theorem plainly_congr {e f : Engine} (h : e.core = f.core) (job : Job) :
    Engine.SameEnds (plainly job e) (plainly job f) := by
  unfold plainly
  cases job.cycles with
  | some n => exact Engine.plainCycles_congr h _
  | none => exact Engine.plainFrames_congr h _ _

theorem Prepared.released {given : Option Int} {m : Machine} (h : Prepared env job given m s) (k : Fin 16) :
    s.takeNotes.2.machine.keypad[k] = false := by
  obtain ⟨memory, hm⟩ := h.fresh
  rw [← h.machine] at hm
  have hkeypad : s.takeNotes.2.machine.keypad = Keypad.released := congrArg Machine.keypad hm
  rw [hkeypad, Keypad.get_released]

/-- With a program in place and keys held, the answer tells of plain cycles or frames of the clean machine. -/
theorem drive_of_prepared {given : Option Int} {m : Machine} (h : Prepared env job given m s) (pad : Keypad) :
    ∃ event s' ends, drive job (s.takeNotes.2.withKeypad pad) = .ok event s' ∧
      ends = plainly job { machine := { m with keypad := pad }
                           random := .ofSeed ((job.seed.or given).getD env.spare)
                           trace := false
                           notes := #[] } ∧
      s'.machine = ends.engine.machine ∧ event.isError = ends.isFailed ∧ Visible event.text := by
  obtain ⟨-, hload, ⟨memory, hm⟩, rfl, hrandom, hdebugger⟩ := h
  have hidle : (s.takeNotes.2.withKeypad pad).debugger.Idle := by
    show s.debugger.Idle
    rw [hdebugger]
    exact ⟨⟨rfl, List.forall_mem_nil _⟩, rfl⟩
  have hw : (s.takeNotes.2.withKeypad pad).machine.WellFormed :=
    (Machine.wellFormed_fresh.load hload).setKeypad pad
  have ha : (s.takeNotes.2.withKeypad pad).machine.isAwaiting = false := by
    show s.machine.isAwaiting = false
    rw [hm]
    rfl
  obtain ⟨event, s', hdrive, hmachine, herror, hvisible⟩ := drive_endsLike hidle hw ha job
  -- the engine of the session has tracing and notes of its own, and neither decides how it ends
  have hcore : (s.takeNotes.2.withKeypad pad).engine.core = Engine.core
      { machine := { s.machine with keypad := pad }
        random := .ofSeed ((job.seed.or given).getD env.spare)
        trace := false
        notes := #[] } := Engine.core_eq_iff.mpr ⟨rfl, hrandom⟩
  have hsame := plainly_congr hcore job
  exact ⟨event, s', _, hdrive, rfl, hmachine.trans hsame.machine, herror.trans hsame.isFailed, hvisible⟩

/-! ## The answer -/

section Work

variable {t : Trouble} {s' s'' : Session} {event : Event}

theorem not_both (hone : job.cycles = none ∨ job.frames = none) :
    ¬(job.cycles.isSome && job.frames.isSome) = true := by
  rcases hone with hone | hone <;> simp [hone]

theorem work_of_trouble (hone : job.cycles = none ∨ job.frames = none) (h : prepare env job = .error t) :
    work files env job = failed {} t := by
  unfold work
  rw [if_neg (not_both hone), h]

theorem work_of_unknown (files : Files) (hone : job.cycles = none ∨ job.frames = none) (h : prepare env job = .ok s)
    (hhold : holdKeys s.takeNotes.2 job.keys = .error t) :
    ∃ stderr, work files env job = failed { stderr } t := by
  refine ⟨noteLines job s.takeNotes.1, ?_⟩
  unfold work
  rw [if_neg (not_both hone), h]
  simp only [hhold]

theorem work_of_run (files : Files) (hone : job.cycles = none ∨ job.frames = none) (hshot : job.screenshot = none)
    (h : prepare env job = .ok s) (hhold : holdKeys s.takeNotes.2 job.keys = .ok s')
    (hdrive : drive job s' = .ok event s'') :
    ∃ stderr, work files env job =
      { exit := if event.isError then 1 else 0
        stdout := Outcome.allSaid (s''.machine.screen.plainLines ++ [statusLine event s''])
        stderr } := by
  unfold work
  rw [if_neg (not_both hone), h]
  simp only [hhold, hdrive, report, takePicture, hshot]
  exact ⟨_, rfl⟩

end Work

theorem work_reports (hshot : job.screenshot = none) (hone : job.cycles = none ∨ job.frames = none) :
    Reports env job (work files env job) := by
  obtain ⟨hbad, e, hseed⟩ | ⟨hgood, given, hseed⟩ := readSeed_cases env
  · rw [work_of_trouble hone (prepare_of_badSeed hseed)]
    exact .badSeed hbad rfl rfl
  obtain ⟨m, s, hprepare, hprepared⟩ | ⟨hlarge, e, hprepare⟩ := prepare_of_seed job hseed
  · by_cases hknown : ∀ name ∈ job.keys, ∃ k, (Key.host name).Denotes k
    · obtain ⟨pad, hhold, hheld⟩ := holdKeys_of_known (s := s.takeNotes.2) job.keys hknown
      obtain ⟨event, s', ends, hdrive, hends, hmachine, herror, hvisible⟩ := drive_of_prepared hprepared pad
      obtain ⟨stderr, hwork⟩ := work_of_run files hone hshot hprepare hhold hdrive
      have hnamed (k : Fin 16) : pad[k] = true ↔ ∃ name ∈ job.keys, (Key.host name).Denotes k := by
        rw [hheld, hprepared.released]
        simp
      have hshows := shows_report hvisible hmachine
      rw [hwork, herror]
      exact .ran hseed hprepared.fits hknown hprepared.load hnamed hends hshows rfl
    · obtain ⟨name, hname, hnone⟩ : ∃ name ∈ job.keys, ∀ k, ¬(Key.host name).Denotes k := by
        simpa using hknown
      obtain ⟨e, hhold⟩ := holdKeys_of_unknown (s := s.takeNotes.2) job.keys ⟨name, hname, hnone⟩
      obtain ⟨stderr, hwork⟩ := work_of_unknown files hone hprepare hhold
      rw [hwork]
      exact .unknownKey hgood hprepared.fits hname hnone rfl rfl
  · rw [work_of_trouble hone hprepare]
    exact .tooLarge hgood hlarge rfl rfl

/-- **What a run without a window reports.** Whatever the program, the keys, the seed and the budget are, the
answer shows the machine that plain cycles or frames leave behind, and its exit code is 1 exactly if one of
them failed. A bad seed in the environment, a program without room and a key that nobody knows are found in
this order, and then there is nothing to show. -/
theorem headless_reports (h : Asks files args job) (hshot : job.screenshot = none)
    (hone : job.cycles = none ∨ job.frames = none) (env : Environment) :
    ∃ o, answer files env args = .done o ∧ Reports env job o := by
  refine ⟨work files env job, ?_, work_reports hshot hone⟩
  rw [answer, asks_iff.mp h]

section Call

/-- Unless key 0 is held, this fails at once; otherwise it draws the digit 1 and fails then. -/
def failingJob : Job where
  path := "t.ch8"
  data := [0xE0, 0x9E, 0xFF, 0xFF, 0xA0, 0x05, 0xD0, 0x05, 0xFF, 0xFF]
  cycles := some 9
  keys := ["x"]

def failingFiles : Files := fun path =>
  if path = "t.ch8" then .file failingJob.data else .missing

def failingArgs : List String :=
  ["-k", "x", "--cycles", "9", "t.ch8"]

theorem asks_failingFiles : Asks failingFiles failingArgs failingJob := by
  have hnull : "t.ch8".contains '\x00' = false := by simp
  have hpath : Path.normal "t.ch8" = "t.ch8" := Path.normal_of_not_mem (by decide) (by decide) (by decide)
  refine ⟨{ given := [(.key, "x"), (.cycles, "9")], arguments := ["t.ch8"] }, "t.ch8", rfl, rfl, ?_, rfl,
    hnull, rfl, hpath.symm⟩
  have hdigits : Text.readDigits 10 0 (toString 9).toList = some 9 := Text.readDigits_decimal (by decide)
  have hnine : Text.readInteger .decimal "9" = some 9 := by
    show (Text.readDigits 10 0 (toString 9).toList).map (fun n => (n : Int)) = some 9
    rw [hdigits]
    rfl
  intro flag
  cases flag with
  | cycles =>
    have hvalue : ({ given := [(.key, "x"), (.cycles, "9")], arguments := ["t.ch8"] } : Words Flag).value?
        .cycles = some "9" := rfl
    simp only [Agrees, Words.integer?, hvalue, hnine]
    rfl
  | version | help => trivial
  | frames | seed | key | screenshot | scale | trace | verbose => rfl

def failingStart : Engine where
  machine := { Machine.fresh with
    memory := Machine.fresh.memory.store Memory.programStart failingJob.data
    keypad := Keypad.released.hold 0 true }
  random := .ofSeed 7
  trace := false
  notes := #[]

/-- The digit one in the corner of a dark screen. -/
def digitLines : List (List Char) :=
  [['.', '.', '#', '.'], ['.', '#', '#', '.'], ['.', '.', '#', '.'], ['.', '.', '#', '.'],
    ['.', '#', '#', '#']].map (· ++ List.replicate 60 '.') ++ List.replicate 27 (List.replicate 64 '.')

theorem lines_failingStart :
    (plainly failingJob failingStart).engine.machine.screen.rows.map
      (·.map fun lit => if lit then '#' else '.') = digitLines := by
  have hpixels : (plainly failingJob failingStart).engine.machine.screen.pixels.toList =
      digitLines.flatten.map (decide <| · = '#') := by decide +kernel
  rw [Screen.rows_eq_layOut, hpixels]
  decide +kernel

theorem shown_failingStart {stdout : String}
    (h : Shows stdout (plainly failingJob failingStart).engine.machine) :
    ∃ said, ∃ cycles : Nat, textLines stdout = digitLines ++
      [("Stopped: " ++ said ++ " (pc=$208, i=$005, cycles=" ++ toString cycles ++ ")").toList, []] := by
  obtain ⟨rows, said, cycles, hlines, hrows⟩ := h
  have hpc : Text.hex 3 (plainly failingJob failingStart).engine.machine.pc = "208" := by decide +kernel
  have hi : Text.hex 3 (plainly failingJob failingStart).engine.machine.i = "005" := by decide +kernel
  have htable := (plainly failingJob failingStart).engine.machine.screen.tabulates_rows.map
    fun lit => if lit then '#' else '.'
  rw [lines_failingStart] at htable
  rw [hrows.unique htable, hpc, hi] at hlines
  refine ⟨said, cycles, hlines.trans ?_⟩
  simp

theorem denotes_x : (Key.host "x").Denotes 0 :=
  Key.denotes_iff.mpr (by decide +kernel)

theorem keypad_failingJob {pad : Keypad}
    (h : ∀ k : Fin 16, pad[k] = true ↔ ∃ name ∈ failingJob.keys, (Key.host name).Denotes k) :
    pad = Keypad.released.hold 0 true := by
  refine Vector.ext fun i hi => ?_
  have hheld := h ⟨i, hi⟩
  rw [failingJob, List.exists_mem_cons_iff, Key.denotes_iff_eq denotes_x] at hheld
  rw [Bool.eq_iff_iff]
  show pad[(⟨i, hi⟩ : Fin 16)] = true ↔ (Keypad.released.hold 0 true)[(⟨i, hi⟩ : Fin 16)] = true
  rw [hheld, Keypad.get_hold, Keypad.get_released]
  simp

theorem load_failingJob : Machine.fresh.load failingJob.data = .ok { Machine.fresh with
    memory := Machine.fresh.memory.store Memory.programStart failingJob.data } :=
  if_pos (by decide)

theorem failingJob_reported :
    Asks failingFiles failingArgs failingJob ∧ failingJob.screenshot = none ∧
      (failingJob.cycles = none ∨ failingJob.frames = none) ∧
      ∃ o, answer failingFiles ⟨none, none, 7⟩ failingArgs = .done o ∧
        Reports ⟨none, none, 7⟩ failingJob o ∧ o.exit = 1 ∧ ∃ said, ∃ cycles : Nat, textLines o.stdout =
          digitLines ++ [("Stopped: " ++ said ++ " (pc=$208, i=$005, cycles=" ++ toString cycles ++ ")").toList, []] := by
  obtain ⟨o, hanswer, hreports⟩ := headless_reports asks_failingFiles rfl (.inr rfl) ⟨none, none, 7⟩
  refine ⟨asks_failingFiles, rfl, .inr rfl, o, hanswer, hreports, ?_⟩
  cases hreports with
  | badSeed hbad =>
    obtain ⟨text, htext, -⟩ := hbad
    cases htext
  | tooLarge _ hlarge => exact absurd hlarge (by decide)
  | unknownKey _ _ hname hnone =>
    rw [List.mem_singleton.mp hname] at hnone
    exact absurd denotes_x (hnone 0)
  | @ran given m pad ends hseed _ _ hload hpad hends hshows hexit =>
    obtain rfl : none = given := Except.ok.inj hseed
    obtain rfl := Except.ok.inj (load_failingJob.symm.trans hload)
    obtain rfl := keypad_failingJob hpad
    have hstart : ends = plainly failingJob failingStart := hends
    have hfailed : (plainly failingJob failingStart).isFailed = true := by decide +kernel
    rw [hstart] at hshows
    rw [hstart, hfailed, if_pos rfl] at hexit
    exact ⟨hexit, shown_failingStart hshows⟩

end Call

end Run
end CommandLine
end Chip8
