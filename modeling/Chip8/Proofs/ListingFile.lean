import Chip8.Proofs.CommandWords
import Chip8.Proofs.ListingText

/-!
# Chip8.Proofs.ListingFile

A listing in print and in a file, from the words of the command line on.

* `Delivers`                : what becomes of a listing that is wanted in print or in a file.
* `Asks`                    : words that ask for a listing, the options and the file that they name.
* `readRequest_output_cons` : a file to write to, named in front of words that name none.

Main statement: `listing_tells_file`.
-/

namespace Chip8
namespace CommandLine
namespace Disassemble

open Columns (ReadAs)

variable {files : Files} {args : List String} {job : Job} {b : Int} {data : List UInt8}

/-! ## In print and in a file -/

inductive Delivers (files : Files) (name body : String) : Option String → Outcome → Prop where
  | printed (stderr : String) : Delivers files name body none
      { stdout := titled (Text.plain name) body, stderr }
  | written {path : String} (stderr : String) : files.refusal? path = none →
      Delivers files name body (some path) { stderr, written := [(path, .text (titled name body))] }
  | refused {path : String} {e : FileError} (stderr : String) : files.refusal? path = some e →
      Delivers files name body (some path) { exit := 1, stderr }

theorem work_delivers (files : Files) (hdata : job.data ≠ []) (hb : baseAddress job.address = .ok b) :
    Delivers files (Path.name job.path) (Outcome.lines (bodyLines job b)) job.output (work files job) := by
  have hne : ¬job.data.isEmpty = true := by simpa using hdata
  unfold work
  simp only [hb, document_eq, plain_titled]
  rw [if_neg hne]
  cases job.output with
  | none => exact .printed _
  | some path =>
    simp only []
    cases hr : files.refusal? path with
    | some e => exact .refused _ hr
    | none => exact .written _ hr

theorem baseAddress_nonneg {text : String} (h : baseAddress text = .ok b) : 0 ≤ b := by
  unfold baseAddress at h
  split at h
  · cases h
  · split at h
    · rename_i hin
      obtain rfl := Except.ok.inj h
      exact hin.1
    · cases h

/-! ## A file named in front of the other words -/

variable {ws : Words Flag} {flag : Flag} {o o' : Options} {p path : String}

theorem takeOption_ahead (h : flag ≠ .output) (o : Options) (output : Option String) :
    takeOption files (ws.ahead (.output, p)) { o with output } flag =
      (takeOption files ws o flag).map ({ · with output }) := by
  cases flag with
  | output => exact absurd rfl h
  | address =>
    simp only [takeOption, Words.value?_ahead (g := (Flag.output, p)) h]
    rfl
  | count =>
    simp only [takeOption, Words.integer?_ahead (g := (Flag.output, p)) h]
    cases ws.integer? .count "--count" none <;> rfl
  | hexDump => rfl
  | verbose => rfl
  | version => rfl
  | help => rfl

theorem takeOptions_ahead {given : List (Flag × String)} (h : ∀ g ∈ given, g.1 ≠ .output)
    (o : Options) (output : Option String) :
    given.foldlM (fun a g => takeOption files (ws.ahead (.output, p)) a g.1) { o with output } =
      (given.foldlM (fun a g => takeOption files ws a g.1) o).map ({ · with output }) := by
  induction given generalizing o with
  | nil => rfl
  | cons g given ih =>
    obtain ⟨hg, hgiven⟩ := List.forall_mem_cons.mp h
    rw [List.foldlM_cons, List.foldlM_cons, takeOption_ahead hg]
    cases takeOption files ws o g.1 with
    | error e => rfl
    | ok o' => exact ih hgiven o'

/-- A file that was named stays named. -/
theorem output_of_takeOption (hv : ws.value? .output ≠ none) (h : takeOption files ws o flag = .ok o')
    (hnamed : o.output ≠ none ∨ flag = .output) : o'.output ≠ none := by
  cases flag with
  | output =>
    obtain ⟨word, hword⟩ := Option.ne_none_iff_exists'.mp hv
    simp only [takeOption, hword] at h
    cases hw : writableFile files "--output" word with
    | error e =>
      simp only [Option.mapM_some, hw] at h
      cases h
    | ok path =>
      simp only [Option.mapM_some, hw] at h
      cases h
      simp
  | count =>
    obtain ⟨n, -, hput⟩ := ok_of_bind h
    cases hput
    exact hnamed.resolve_right (by simp)
  | address | hexDump | verbose | version | help =>
    cases h
    exact hnamed.resolve_right (by simp)

structure Asks (files : Files) (ws : Words Flag) (o : Options) (word : String) (data : List UInt8) : Prop where
  first : ws.first? [.version, .help] = none
  options : ws.takeOptions (takeOption files ws) {} = .ok o
  arguments : ws.arguments = [word]
  file : existingFile files "INPUT_FILE" word = .ok data

theorem readRequest_of_asks {word : String} (hread : Words.read spellings args = .ok ws)
    (h : Asks files ws o word data) :
    readRequest files args = .ok (.work { o with path := Path.normal word, data }) := by
  simp only [readRequest, hread, bind, Except.bind, h.first, h.options, Words.onlyArgument, h.arguments, h.file]
  rfl

theorem asks_of_readRequest (h : readRequest files args = .ok (.work job)) :
    ∃ ws o word data, Words.read spellings args = .ok ws ∧ Asks files ws o word data ∧
      job = { o with path := Path.normal word, data } := by
  obtain ⟨ws, hread, h⟩ := ok_of_bind h
  cases hfirst : ws.first? [.version, .help] with
  | some flag =>
    rw [hfirst] at h
    cases flag <;> cases h
  | none =>
    rw [hfirst] at h
    obtain ⟨o, hoptions, h⟩ := ok_of_bind h
    obtain ⟨word, hargs, h⟩ := Words.onlyArgument_eq_ok h
    obtain ⟨data, hfile, h⟩ := ok_of_bind h
    cases h
    exact ⟨ws, o, word, data, hread, ⟨hfirst, hoptions, hargs, hfile⟩, rfl⟩

theorem readRequest_output_cons (h : readRequest files args = .ok (.work job)) (hnone : job.output = none)
    (hp : writableFile files "--output" p = .ok path) :
    readRequest files ("-o" :: p :: args) = .ok (.work { job with output := some path }) := by
  obtain ⟨ws, o, word, data, hread, hasks, rfl⟩ := asks_of_readRequest h
  have hlookup : Words.lookup spellings (String.ofList ['-', 'o']) = .ok ⟨"-o", .output, true⟩ := rfl
  have hcons : Words.read spellings ("-o" :: p :: args) = .ok (ws.ahead (.output, p)) := by
    have hcons := Words.read_option_cons (by decide) hlookup rfl p args
    rw [hread] at hcons
    exact hcons
  have hno : ∀ g ∈ ws.given, g.1 ≠ .output := by
    intro g hg hout
    have hv := Words.value?_ne_none ⟨g, hg, hout⟩
    exact Words.holds_of_takeOptions (fun _ _ _ _ => output_of_takeOption hv) hasks.options
      (.inr ⟨g, hg, hout⟩) hnone
  have hvalue : (ws.ahead (.output, p)).value? .output = some p := Words.value?_ahead_self hno p
  have hfirst : takeOption files (ws.ahead (.output, p)) {} .output = .ok { output := some path } := by
    simp only [takeOption, hvalue, Option.mapM_some, hp]
    rfl
  refine readRequest_of_asks (o := { o with output := some path }) hcons
    ⟨hasks.first, ?_, hasks.arguments, hasks.file⟩
  have hrest := @takeOptions_ahead files ws p _ hno {} (some path)
  rw [show ws.given.foldlM (fun a g => takeOption files ws a g.1) {} = .ok o from hasks.options] at hrest
  show List.foldlM (fun a (g : Flag × String) => takeOption files (ws.ahead (.output, p)) a g.1) {}
    ((.output, p) :: ws.given) = _
  rw [List.foldlM_cons, hfirst]
  exact hrest

/-! ## The file in the text -/

theorem answer_delivers (h : readRequest files args = .ok (.work job)) (hdata : job.data ≠ [])
    (hb : baseAddress job.address = .ok b) :
    ∃ outcome, answer files args = .done outcome ∧
      Delivers files (Path.name job.path) (Outcome.lines (bodyLines job b)) job.output outcome := by
  refine ⟨work files job, ?_, work_delivers files hdata hb⟩
  rw [answer, h]

/-- The argument that is read leads to the bytes of the listing. -/
theorem file_of_readRequest (h : readRequest files args = .ok (.work job)) :
    ∃ word, files word = .file job.data ∧ job.path = Path.normal word := by
  obtain ⟨ws, o, word, data, -, hasks, rfl⟩ := asks_of_readRequest h
  exact ⟨word, (existingFile_eq_ok.mp hasks.file).2, rfl⟩

/-- **The text of a listing determines the file.** Where there are bytes and an address that the machine has,
the columns of the instruction lines are the bytes that were asked for and the columns of a dump are the file,
whatever the title. This text is written to a file that is named, and otherwise printed, with the control
sequences left out of the title. To name a file in front of the other words changes nothing else. -/
theorem listing_tells_file (h : readRequest files args = .ok (.work job)) (hdata : job.data ≠ [])
    (hb : baseAddress job.address = .ok b) :
    (∃ word, files word = .file job.data ∧ job.path = Path.normal word) ∧
    ∃ body, (∀ name, Tells (titled name body) b job.data job.count job.hexDump) ∧
      (∃ outcome, answer files args = .done outcome ∧
        Delivers files (Path.name job.path) body job.output outcome) ∧
      (job.output = none → ∀ p path, writableFile files "--output" p = .ok path →
        ∃ outcome, answer files ("-o" :: p :: args) = .done outcome ∧
          Delivers files (Path.name job.path) body (some path) outcome) := by
  refine ⟨file_of_readRequest h, Outcome.lines (bodyLines job b),
    fun name => tells_titled name job (baseAddress_nonneg hb), answer_delivers h hdata hb, ?_⟩
  intro hnone p path hp
  exact answer_delivers (readRequest_output_cons h hnone hp) hdata hb

section Escape

/-- A directory with one file, whose name makes a terminal write in bold. -/
def boldFiles : Files := fun path =>
  if path = "\x1b[1mt.ch8" then .file [0x00, 0xE0, 0x12, 0x00, 0xA2]
  else if path = "." then .directory
  else .missing

def boldJob : Job where
  path := "\x1b[1mt.ch8"
  data := [0x00, 0xE0, 0x12, 0x00, 0xA2]

theorem readRequest_boldFiles : readRequest boldFiles ["\x1b[1mt.ch8"] = .ok (.work boldJob) := by
  have hpath : Path.normal "\x1b[1mt.ch8" = "\x1b[1mt.ch8" :=
    Path.normal_of_not_mem (by decide) (by decide) (by decide)
  have hfile : existingFile boldFiles "INPUT_FILE" "\x1b[1mt.ch8" = .ok boldJob.data := by
    have hnull : "\x1b[1mt.ch8".contains '\x00' = false := by simp
    rw [existingFile, entry, hnull]
    rfl
  have hasks : Asks boldFiles { arguments := ["\x1b[1mt.ch8"] } {} "\x1b[1mt.ch8" boldJob.data :=
    ⟨rfl, rfl, rfl, hfile⟩
  have hwords : Words.read spellings ["\x1b[1mt.ch8"] = .ok { arguments := ["\x1b[1mt.ch8"] } := rfl
  have hread := readRequest_of_asks hwords hasks
  rw [hpath] at hread
  exact hread

theorem baseAddress_boldJob : baseAddress boldJob.address = .ok 0x200 := by
  have hchars : Text.hexChars 3 (0x200 : Nat) = ['2', '0', '0'] := by decide +kernel
  have hdigits : Text.readMarked 16 ['2', '0', '0'] = some 0x200 := by
    rw [← hchars, Text.readMarked_hexChars]
  have hread : Text.readInteger .hexadecimal "0x200" = (Text.readMarked 16 ['2', '0', '0']).map fun n => (n : Int) := rfl
  have haddress : readAddress "0x200" = some 0x200 := by
    show Text.readInteger .hexadecimal "0x200" = some 0x200
    rw [hread, hdigits]
    rfl
  show baseAddress "0x200" = .ok 0x200
  rw [baseAddress, haddress]
  rfl

theorem writableFile_boldFiles : writableFile boldFiles "--output" "o.lst" = .ok "o.lst" := by
  have hnull : "o.lst".contains '\x00' = false := by simp
  have hpath : Path.normal "o.lst" = "o.lst" := Path.normal_of_not_mem (by decide) (by decide) (by decide)
  rw [writableFile, entry, hnull]
  show Except.ok (Path.normal "o.lst") = _
  rw [hpath]

theorem refusal?_boldFiles : boldFiles.refusal? "o.lst" = none := by
  have hparent : Path.parent "o.lst" = "." := Path.parent_of_not_mem (by decide) (by decide) (by decide)
  have hmissing : boldFiles "o.lst" = .missing := rfl
  rw [Files.refusal?, hmissing, hparent]
  rfl

/-- Two bytes and an odd one follow an address that nobody gave. -/
theorem boldJob_told :
    readRequest boldFiles ["\x1b[1mt.ch8"] = .ok (.work boldJob) ∧ boldJob.data ≠ [] ∧
      baseAddress boldJob.address = .ok 0x200 ∧
      writableFile boldFiles "--output" "o.lst" = .ok "o.lst" ∧
      ∃ body outcome, answer boldFiles ["-o", "o.lst", "\x1b[1mt.ch8"] = .done outcome ∧
        outcome.written = [("o.lst", .text (titled "\x1b[1mt.ch8" body))] ∧
        ReadAs (codeLines (titled "\x1b[1mt.ch8" body)) 0x200 2 [0x00, 0xE0, 0x12, 0x00, 0xA2] := by
  have hdata : boldJob.data ≠ [] := List.cons_ne_nil _ _
  have hname : Path.name boldJob.path = "\x1b[1mt.ch8" :=
    Path.name_of_not_mem (by decide) (by decide) (by decide)
  obtain ⟨-, body, htells, -, hfile⟩ :=
    listing_tells_file readRequest_boldFiles hdata baseAddress_boldJob
  obtain ⟨outcome, hanswer, hdelivers⟩ := hfile rfl "o.lst" "o.lst" writableFile_boldFiles
  refine ⟨readRequest_boldFiles, hdata, baseAddress_boldJob, writableFile_boldFiles, body, outcome, hanswer,
    ?_, (htells _).code⟩
  rw [hname] at hdelivers
  cases hdelivers with
  | written => rfl
  | refused _ h =>
    rw [refusal?_boldFiles] at h
    cases h

/-- The name of a listed file is written as it is and printed otherwise. -/
theorem bold_written_not_printed :
    ∃ printed written text, answer boldFiles ["\x1b[1mt.ch8"] = .done printed ∧
      answer boldFiles ["-o", "o.lst", "\x1b[1mt.ch8"] = .done written ∧
      written.written = [("o.lst", .text text)] ∧ printed.stdout ≠ text := by
  have hdata : boldJob.data ≠ [] := List.cons_ne_nil _ _
  have hname : Path.name boldJob.path = "\x1b[1mt.ch8" :=
    Path.name_of_not_mem (by decide) (by decide) (by decide)
  have hcons := readRequest_output_cons readRequest_boldFiles rfl writableFile_boldFiles
  obtain ⟨printed, hprinted, hprint⟩ := answer_delivers readRequest_boldFiles hdata baseAddress_boldJob
  obtain ⟨written, hwritten, hwrite⟩ := answer_delivers hcons hdata baseAddress_boldJob
  rw [hname] at hprint
  cases hprint
  cases hwrite with
  | refused _ h =>
    rw [refusal?_boldFiles] at h
    cases h
  | written =>
    refine ⟨_, _, _, hprinted, hwritten, rfl, fun heq => ?_⟩
    have hsame : Text.plain "\x1b[1mt.ch8" = Path.name boldJob.path := titled_injective heq
    rw [hname] at hsame
    exact absurd hsame (by decide)

end Escape

end Disassemble
end CommandLine
end Chip8
