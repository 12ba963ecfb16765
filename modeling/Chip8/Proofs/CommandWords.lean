import Chip8.CommandLine.Outcome
import Mathlib.Data.String.Basic

/-!
# Chip8.Proofs.CommandWords

Words of a command line. A path of one part is its own name, and an option with a value in front of other
words is read as the first that was given, whatever the other words are (`Words.read_option_cons`).
-/

namespace Chip8

/-! ## Paths of one part -/

namespace Path

open String (utf8Len)

variable {s : String}

theorem splitOnAux_of_not_mem (l r : List Char) (h : '/' ∉ r) :
    String.splitOnAux (String.ofList (l ++ r)) "/" 0 ⟨utf8Len l⟩ 0 [] = [String.ofList (l ++ r)] := by
  -- on what stands behind the position; no part has begun before it
  induction r generalizing l with
  | nil =>
    have hall := String.extract_of_valid [] l []
    simp only [List.nil_append, List.append_nil, String.utf8Len_nil, Nat.zero_add] at hall
    rw [String.splitOnAux]
    simp only [List.append_nil, String.atEnd_iff, String.rawEndPos_ofList, String.Pos.Raw.le_refl, if_true]
    exact congrArg (fun s => [s]) hall
  | cons c r ih =>
    obtain ⟨hc, hr⟩ := List.ne_and_not_mem_of_not_mem_cons h
    have hsep : String.Pos.Raw.get "/" 0 = '/' := by decide
    have hbefore : ¬String.Pos.Raw.atEnd (String.ofList (l ++ c :: r)) ⟨utf8Len l⟩ = true := by
      have hsize := c.utf8Size_pos
      simp only [String.atEnd_iff, String.rawEndPos_ofList, String.utf8Len_append, String.utf8Len_cons,
        String.Pos.Raw.mk_le_mk]
      omega
    have hnext := String.next_of_valid l c r
    have hlen : utf8Len (l ++ [c]) = utf8Len l + c.utf8Size := by
      rw [String.utf8Len_append, String.utf8Len_cons, String.utf8Len_nil, Nat.zero_add]
    have hrest := ih (l ++ [c]) hr
    rw [List.append_assoc, List.singleton_append, hlen, ← hnext] at hrest
    rw [String.splitOnAux, if_neg hbefore, String.get_of_valid, hsep, if_neg (by simpa using hc.symm)]
    exact hrest

theorem splitOn_of_not_mem (h : '/' ∉ s.toList) : s.splitOn "/" = [s] := by
  have hsplit := splitOnAux_of_not_mem [] s.toList h
  rw [List.nil_append, String.ofList_toList] at hsplit
  rw [String.splitOn, if_neg (by decide)]
  exact hsplit

theorem parts_of_not_mem (h : '/' ∉ s.toList) (hne : s ≠ "") (hdot : s ≠ ".") : parts s = [s] := by
  rw [parts, splitOn_of_not_mem h]
  exact List.filter_cons_of_pos (decide_eq_true ⟨hne, hdot⟩)

theorem root_of_not_mem (h : '/' ∉ s.toList) : root s = "" := by
  unfold root
  split
  all_goals first
    | rfl
    | rename_i heq; rw [heq] at h; simp at h

theorem normal_of_not_mem (h : '/' ∉ s.toList) (hne : s ≠ "") (hdot : s ≠ ".") : normal s = s := by
  rw [normal, parts_of_not_mem h hne hdot, root_of_not_mem h, String.intercalate_singleton,
    String.empty_append]
  exact if_neg (by simpa using hne)

theorem name_of_not_mem (h : '/' ∉ s.toList) (hne : s ≠ "") (hdot : s ≠ ".") : name s = s := by
  rw [name, parts_of_not_mem h hne hdot]
  rfl

/-- What has one part lies in the current directory. -/
theorem parent_of_not_mem (h : '/' ∉ s.toList) (hne : s ≠ "") (hdot : s ≠ ".") : parent s = "." := by
  have hnone : parts "" = [] := by
    rw [parts, splitOn_of_not_mem (by decide)]
    rfl
  rw [parent, parts_of_not_mem h hne hdot, root_of_not_mem h, List.dropLast_singleton]
  show normal "" = "."
  rw [normal, hnone]
  rfl

end Path

/-! ## Options -/

namespace CommandLine

theorem ok_of_bind {ε α β : Type} {x : Except ε α} {f : α → Except ε β} {b : β} (h : x >>= f = .ok b) :
    ∃ a, x = .ok a ∧ f a = .ok b := by
  cases x with
  | error e => cases h
  | ok a => exact ⟨a, rfl, h⟩

/-- A path leads to a file if it can be a path and there is one. -/
theorem existingFile_eq_ok {files : Files} {name path : String} {data : List UInt8} :
    existingFile files name path = .ok data ↔ path.contains '\x00' = false ∧ files path = .file data := by
  unfold existingFile entry
  cases hnull : path.contains '\x00' with
  | true => simp [bind, Except.bind]
  | false =>
    simp only [Bool.false_eq_true, if_false, bind, Except.bind, true_and]
    cases hfile : files path <;> simp [pure, Except.pure, throw, throwThe, MonadExceptOf.throw]

namespace Words

variable {ι : Type} {table : List (Spelling ι)} {g : ι × String}

/-- Words that are read, with an option that was given before all others. -/
def ahead (g : ι × String) (ws : Words ι) : Words ι :=
  { ws with given := g :: ws.given }

/-- Words that are being read, with an option that was given before all others. -/
def behind (g : ι × String) (ws : Words ι) : Words ι :=
  { ws with given := ws.given ++ [g] }

theorem readShort_behind (cs : List Char) (ws : Words ι) :
    readShort table (ws.behind g) cs = (readShort table ws cs).map (behind g) := by
  induction cs generalizing ws with
  | nil => rfl
  | cons c cs ih =>
    unfold readShort
    cases lookup table (String.ofList ['-', c]) with
    | error e => rfl
    | ok s =>
      simp only [bind, Except.bind]
      by_cases hv : s.takesValue = true
      · rw [if_pos hv, if_pos hv]
        by_cases hcs : cs.isEmpty = true
        · rw [if_pos hcs, if_pos hcs]
          rfl
        · rw [if_neg hcs, if_neg hcs]
          rfl
      · rw [if_neg hv, if_neg hv]
        exact ih (ws.give s.option "")

theorem readLong_behind (word : List Char) (ws : Words ι) :
    readLong table (ws.behind g) word = (readLong table ws word).map (behind g) := by
  unfold readLong
  cases lookup table (String.ofList (word.takeWhile (· ≠ '='))) with
  | error e => rfl
  | ok s =>
    simp only [bind, Except.bind]
    cases word.dropWhile (· ≠ '=') <;> cases s.takesValue <;> rfl

theorem readWord_behind (word : String) (ws : Words ι) :
    readWord table (ws.behind g) word = (readWord table ws word).map (behind g) := by
  have hpending : (ws.behind g).pending = ws.pending := rfl
  have hended : (ws.behind g).ended = ws.ended := rfl
  unfold readWord
  rw [hpending, hended]
  cases ws.pending with
  | some s => rfl
  | none =>
    simp only []
    split
    · rfl
    · split
      · rfl
      · exact readLong_behind _ ws
      · exact readShort_behind _ ws
      · rfl

theorem foldlM_readWord_behind (words : List String) (ws : Words ι) :
    words.foldlM (readWord table) (ws.behind g) = (words.foldlM (readWord table) ws).map (behind g) := by
  induction words generalizing ws with
  | nil => rfl
  | cons word words ih =>
    rw [List.foldlM_cons, List.foldlM_cons, readWord_behind]
    cases readWord table ws word with
    | error e => rfl
    | ok ws' => exact ih ws'

theorem readWord_short {c : Char} (hc : c ≠ '-') :
    readWord table {} (String.ofList ['-', c]) = readShort table {} [c] := by
  unfold readWord
  simp only [String.toList_ofList, Bool.false_eq_true, if_false]
  split
  · rename_i heq
    exact absurd (List.cons.inj (List.cons.inj heq).2).1 hc
  · rename_i heq
    exact absurd (List.cons.inj (List.cons.inj heq).2).1 hc
  · rename_i heq
    cases heq
    rfl
  · rename_i hnot
    exact absurd rfl (hnot c [])

/-- The words behind an option and its value are read as they are alone. -/
theorem read_option_cons {s : Spelling ι} {c : Char} (hc : c ≠ '-')
    (h : lookup table (String.ofList ['-', c]) = .ok s) (hv : s.takesValue = true) (value : String)
    (words : List String) :
    read table (String.ofList ['-', c] :: value :: words) =
      (read table words).map (ahead (s.option, value)) := by
  have hoption : readWord table {} (String.ofList ['-', c]) = .ok { pending := some s } := by
    rw [readWord_short hc]
    unfold readShort
    rw [h]
    simp only [bind, Except.bind]
    rw [if_pos hv]
    rfl
  have hvalue : readWord table { pending := some s } value = .ok (({} : Words ι).behind (s.option, value)) :=
    rfl
  have hwords : (String.ofList ['-', c] :: value :: words).foldlM (readWord table) {} =
      (words.foldlM (readWord table) {}).map (behind (s.option, value)) := by
    rw [List.foldlM_cons, hoption, ← foldlM_readWord_behind]
    rfl
  unfold read
  rw [hwords]
  cases words.foldlM (readWord table) {} with
  | error e => rfl
  | ok ws =>
    simp only [bind, Except.bind, Except.map]
    have hpending : (ws.behind (s.option, value)).pending = ws.pending := rfl
    rw [hpending]
    cases ws.pending with
    | some s' => rfl
    | none =>
      have hgiven : (ws.behind (s.option, value)).given.reverse = (s.option, value) :: ws.given.reverse :=
        List.reverse_concat
      simp only [hgiven]
      rfl

theorem onlyArgument_eq_ok {α : Type} {ws : Words ι} {name : String} {look : String → Except UsageError α}
    {a : α} (h : ws.onlyArgument name look = .ok a) : ∃ word, ws.arguments = [word] ∧ look word = .ok a := by
  unfold onlyArgument at h
  split at h
  · cases h
  · rename_i word hargs
    exact ⟨word, hargs, h⟩
  · obtain ⟨-, -, h⟩ := ok_of_bind h
    cases h

/-- What one option establishes and no other undoes holds once all options are taken up. -/
theorem holds_of_takeOptions {α : Type} {take : α → ι → Except UsageError α} {given : List (ι × String)}
    {P : α → Prop} {option : ι} {a b : α}
    (hstep : ∀ g ∈ given, ∀ a b, take a g.1 = .ok b → P a ∨ g.1 = option → P b)
    (h : given.foldlM (fun a g => take a g.1) a = .ok b) (hoption : P a ∨ ∃ g ∈ given, g.1 = option) : P b := by
  induction given generalizing a with
  | nil =>
    cases h
    exact hoption.resolve_right (by simp)
  | cons g given ih =>
    obtain ⟨hg, hrest⟩ := List.forall_mem_cons.mp hstep
    rw [List.foldlM_cons] at h
    obtain ⟨next, hnext, h⟩ := ok_of_bind h
    refine ih hrest h ?_
    rcases hoption with ha | ⟨g', hg', heq⟩
    · exact .inl (hg _ _ hnext (.inl ha))
    · rcases List.mem_cons.mp hg' with rfl | hg'
      · exact .inl (hg _ _ hnext (.inr heq))
      · exact .inr ⟨g', hg', heq⟩

theorem takeOptions_total {α : Type} {take : α → ι → Except UsageError α}
    (htake : ∀ a option, ∃ b, take a option = .ok b) (given : List (ι × String)) (a : α) :
    ∃ b, given.foldlM (fun a g => take a g.1) a = .ok b := by
  induction given generalizing a with
  | nil => exact ⟨a, rfl⟩
  | cons g given ih =>
    obtain ⟨next, hnext⟩ := htake a g.1
    rw [List.foldlM_cons, hnext]
    exact ih next

section Values

variable [DecidableEq ι] {ws : Words ι} {option : ι}

theorem value?_ahead (h : option ≠ g.1) : (ws.ahead g).value? option = ws.value? option :=
  congrArg List.getLast? (List.filterMap_cons_none (if_neg h.symm))

theorem integer?_ahead (h : option ≠ g.1) (name : String) (least : Option Int) :
    (ws.ahead g).integer? option name least = ws.integer? option name least := by
  unfold integer?
  rw [value?_ahead h]

theorem value?_ne_none (h : ∃ g ∈ ws.given, g.1 = option) : ws.value? option ≠ none := by
  obtain ⟨⟨o, value⟩, hg, rfl⟩ := h
  have hmem : value ∈ ws.values o := List.mem_filterMap.mpr ⟨(o, value), hg, if_pos rfl⟩
  rw [value?, Ne, List.getLast?_eq_none_iff]
  exact List.ne_nil_of_mem hmem

theorem mem_given_of_value? (h : ws.value? option ≠ none) : ∃ g ∈ ws.given, g.1 = option := by
  rw [value?, Ne, List.getLast?_eq_none_iff] at h
  obtain ⟨value, hvalue⟩ := List.exists_mem_of_ne_nil _ h
  obtain ⟨⟨o, text⟩, hg, hif⟩ := List.mem_filterMap.mp hvalue
  exact ⟨(o, text), hg, (Option.ite_none_right_eq_some.mp hif).1⟩

theorem value?_of_integer?_none {name : String} {least : Option Int}
    (h : ws.integer? option name least = .ok none) : ws.value? option = none := by
  unfold integer? at h
  cases hv : ws.value? option with
  | none => rfl
  | some value =>
    simp only [hv] at h
    split at h
    · cases h
    · split at h
      · split at h <;> cases h
      · cases h

/-- An option that was given before all others counts if it is the only one. -/
theorem value?_ahead_self (h : ∀ g ∈ ws.given, g.1 ≠ option) (value : String) :
    (ws.ahead (option, value)).value? option = some value := by
  have hnil : ws.values option = [] := List.filterMap_eq_nil_iff.mpr fun g hg => if_neg (h g hg)
  have hvalues : (ws.ahead (option, value)).values option = value :: ws.values option :=
    List.filterMap_cons_some (if_pos rfl)
  rw [value?, hvalues, hnil]
  rfl

end Values

end Words
end CommandLine
end Chip8
