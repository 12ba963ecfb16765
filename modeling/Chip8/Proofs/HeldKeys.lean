import Chip8.Proofs.Deeds
import Chip8.Proofs.Views
import Chip8.Text.Upper

/-!
# Chip8.Proofs.HeldKeys

The keypad as a set of held keys. A key has a number and a name: a host key lies where a key of the keypad
lies, and every text that is this host key in upper case names it.

* `Key.Denotes`         : what a number or a text means as a key. `denotes_iff` has it of `Key.resolve`.
* `Session.LastPressed` : the last call that concerned a key was a press.
* `held_undergo`        : what one call does to one latch. `held_undergoAll` is the run, by induction.

Main statement: `keyboard_holds_lastPressed`.
-/

namespace Chip8

/-! ## Upper case -/

namespace Text

variable {n m : Nat} {c d : Char} {s : String}

theorem upperOf?_of_lt (h : n < 128) :
    upperOf? n = if 0x61 ≤ n ∧ n ≤ 0x7a then some (0x41 + (n - 0x61)) else none := by
  have hruns : upperRuns = (0x61, 0x7a, 1, 0x41) :: upperRuns.tail := rfl
  have htail : ∀ run ∈ upperRuns.tail, 128 ≤ run.1 := by decide +kernel
  have hnone : upperRuns.tail.findSome? (inRun? n) = none := by
    rw [List.findSome?_eq_none_iff]
    intro run hrun
    have hfirst := htail run hrun
    exact if_neg (by omega)
  have hrun : inRun? n (0x61, 0x7a, 1, 0x41) =
      if 0x61 ≤ n ∧ n ≤ 0x7a then some (0x41 + (n - 0x61)) else none := by
    simp only [inRun?, Nat.mod_one, and_true]
  rw [upperOf?, hruns, List.findSome?_cons, hrun, hnone]
  split <;> rename_i hif
  · exact hif.symm
  · exact hif.symm

/-- Beyond ASCII two letters have a capital in it. -/
theorem upperOf?_cases (h : upperOf? n = some m) (hn : 128 ≤ n) :
    128 ≤ m ∨ n = 0x131 ∧ m = 0x49 ∨ n = 0x17f ∧ m = 0x53 := by
  have hall : ∀ run ∈ upperRuns, run.2.1 < 128 ∨ 128 ≤ run.2.2.2 ∨
      run.1 = run.2.1 ∧ (run.1 = 0x131 ∧ run.2.2.2 = 0x49 ∨ run.1 = 0x17f ∧ run.2.2.2 = 0x53) := by
    decide +kernel
  obtain ⟨⟨first, last, step, capital⟩, hrun, hm⟩ := List.exists_of_findSome?_eq_some h
  have hcase := hall _ hrun
  simp only [inRun?] at hcase hm
  split at hm
  · cases hm
    omega
  · cases hm

theorem lookup_upperSpellings {ns : List Nat} (h : upperSpellings.lookup n = some ns) :
    128 ≤ n ∧ 2 ≤ ns.length := by
  have hall : ∀ p ∈ upperSpellings, 128 ≤ p.1 ∧ 2 ≤ p.2.length := by decide +kernel
  obtain ⟨before, after, heq, -⟩ := List.lookup_eq_some_iff.mp h
  have hmem : (n, ns) ∈ upperSpellings := by rw [heq]; simp
  exact hall _ hmem

theorem upperChar_of_ascii (h : c.toNat < 128) : upperChar c = [c.toUpper] := by
  have hcapital : ∀ n < 128, (Char.ofNat n).toUpper =
      Char.ofNat (if 0x61 ≤ n ∧ n ≤ 0x7a then 0x41 + (n - 0x61) else n) := by decide
  have hnone : upperSpellings.lookup c.toNat = none := by
    cases hl : upperSpellings.lookup c.toNat with
    | none => rfl
    | some ns =>
      have := lookup_upperSpellings hl
      omega
  have hc := hcapital c.toNat h
  rw [Char.ofNat_toNat] at hc
  rw [upperChar, hnone, upperOf?_of_lt h, hc]
  by_cases hn : 0x61 ≤ c.toNat ∧ c.toNat ≤ 0x7a
  · rw [if_pos hn, if_pos hn]
  · rw [if_neg hn, if_neg hn, Char.ofNat_toNat]

theorem upperChar_ne_nil (c : Char) : upperChar c ≠ [] := by
  unfold upperChar
  cases hl : upperSpellings.lookup c.toNat with
  | none => cases upperOf? c.toNat <;> simp
  | some ns =>
    have hlen := (lookup_upperSpellings hl).2
    cases ns with
    | nil => cases hlen
    | cons n ns => simp

/-- What is an ASCII character in upper case: ASCII, and two letters more. -/
theorem upperChar_eq_ascii (h : upperChar c = [d]) (hd : d.toNat < 128) (hzero : d.toNat ≠ 0) :
    c.toNat < 128 ∨ c = 'ı' ∧ d = 'I' ∨ c = 'ſ' ∧ d = 'S' := by
  by_cases hc : c.toNat < 128
  · exact .inl hc
  refine .inr ?_
  unfold upperChar at h
  cases hl : upperSpellings.lookup c.toNat with
  | some ns =>
    have hlen := (lookup_upperSpellings hl).2
    rw [hl] at h
    have hone := congrArg List.length h
    rw [List.length_map, List.length_singleton] at hone
    omega
  | none =>
    cases hup : upperOf? c.toNat with
    | none =>
      rw [hl, hup] at h
      obtain rfl : c = d := (List.cons.inj h).1
      exact absurd hd hc
    | some n =>
      rw [hl, hup] at h
      obtain rfl : Char.ofNat n = d := (List.cons.inj h).1
      have hvalid : n.isValidChar := by
        by_contra hv
        refine hzero ?_
        rw [Char.ofNat, dif_neg hv]
        rfl
      have hn : (Char.ofNat n).toNat = n := by
        rw [Char.ofNat, dif_pos hvalid]
        rfl
      rcases upperOf?_cases hup (by omega) with hcap | ⟨hcode, rfl⟩ | ⟨hcode, rfl⟩
      · omega
      · refine .inl ⟨?_, rfl⟩
        rw [← Char.ofNat_toNat c, hcode]
      · refine .inr ⟨?_, rfl⟩
        rw [← Char.ofNat_toNat c, hcode]

theorem upper_eq_singleton_iff : upper s = String.singleton d ↔ ∃ c, s.toList = [c] ∧ upperChar c = [d] := by
  rw [← String.toList_inj, upper, String.toList_ofList, String.toList_singleton]
  constructor
  · intro h
    cases hs : s.toList with
    | nil =>
      rw [hs] at h
      cases h
    | cons c cs =>
      rw [hs, List.flatMap_cons, List.append_eq_singleton_iff] at h
      rcases h with ⟨hc, -⟩ | ⟨hc, hrest⟩
      · exact absurd hc (upperChar_ne_nil c)
      · cases cs with
        | nil => exact ⟨c, rfl, hc⟩
        | cons c' cs =>
          rw [List.flatMap_eq_nil_iff] at hrest
          exact absurd (hrest c' List.mem_cons_self) (upperChar_ne_nil c')
  · rintro ⟨c, hs, hc⟩
    rw [hs, List.flatMap_singleton, hc]

end Text

/-! ## What a key is called -/

namespace Key

variable {key : Key} {k : Fin 16} {c d : Char}

def hostRows : List (List Char) :=
  [['1', '2', '3', '4'], ['Q', 'W', 'E', 'R'], ['A', 'S', 'D', 'F'], ['Z', 'X', 'C', 'V']]

def padRows : List (List (Fin 16)) :=
  [[0x1, 0x2, 0x3, 0xC], [0x4, 0x5, 0x6, 0xD], [0x7, 0x8, 0x9, 0xE], [0xA, 0x0, 0xB, 0xF]]

/-- The host key `c` lies where the key `k` lies. -/
def LiesOn (c : Char) (k : Fin 16) : Prop :=
  ∃ x y, place? hostRows x y = some c ∧ place? padRows x y = some k

/-- What a key is called: its number, or a text that is its host key in upper case. -/
inductive Denotes : Key → Fin 16 → Prop where
  | number (k : Fin 16) : Denotes (.number k.val) k
  | host {name : String} {c : Char} {k : Fin 16} : Text.upper name = String.singleton c →
      LiesOn c k → Denotes (.host name) k

/-- How a key is refused that is none. -/
def refusal : Key → KeyError
  | number n => .outOfRange n
  | host name => .unknown name

theorem liesOn_iff : LiesOn c k ↔ (c, k) ∈ hostKeys := by
  constructor
  · rintro ⟨x, y, hc, hk⟩
    have hall : ∀ row ∈ hostRows.zip padRows, ∀ p ∈ row.1.zip row.2, p ∈ hostKeys := by decide
    simp only [place?, Option.bind_eq_some_iff] at hc hk
    obtain ⟨hostRow, hhost, hc⟩ := hc
    obtain ⟨padRow, hpad, hk⟩ := hk
    have hrow : (hostRow, padRow) ∈ hostRows.zip padRows :=
      List.mem_of_getElem? (List.getElem?_zip_eq_some.mpr ⟨hhost, hpad⟩)
    exact hall _ hrow (c, k) (List.mem_of_getElem? (List.getElem?_zip_eq_some.mpr ⟨hc, hk⟩))
  · intro h
    have hall : ∀ p ∈ hostKeys, ∃ x < 4, ∃ y < 4,
        place? hostRows x y = some p.1 ∧ place? padRows x y = some p.2 := by decide
    obtain ⟨x, -, y, -, hc, hk⟩ := hall (c, k) h
    exact ⟨x, y, hc, hk⟩

/-- No host key lies twice. -/
theorem lookup_hostKeys_iff : hostKeys.lookup c = some k ↔ (c, k) ∈ hostKeys := by
  constructor
  · intro h
    obtain ⟨before, after, heq, -⟩ := List.lookup_eq_some_iff.mp h
    rw [heq]
    simp
  · intro h
    have hall : ∀ p ∈ hostKeys, hostKeys.lookup p.1 = some p.2 := by decide
    exact hall (c, k) h

theorem upperChar_eq_iff (h : LiesOn d k) : Text.upperChar c = [d] ↔ capital c = d := by
  have hall : ∀ p ∈ hostKeys, p.1.toNat < 128 ∧ p.1.toNat ≠ 0 ∧ p.1 ≠ 'I' := by decide
  obtain ⟨hd, hzero, hI⟩ := hall (d, k) (liesOn_iff.mp h)
  dsimp only at hd hzero hI
  constructor
  · intro hup
    rcases Text.upperChar_eq_ascii hup hd hzero with hc | ⟨rfl, rfl⟩ | ⟨rfl, rfl⟩
    · rw [Text.upperChar_of_ascii hc] at hup
      have hne : c ≠ 'ſ' := by
        rintro rfl
        exact absurd hc (by decide)
      rw [capital, if_neg hne]
      exact (List.cons.inj hup).1
    · exact absurd rfl hI
    · rfl
  · intro hcap
    unfold capital at hcap
    split at hcap
    · rename_i hc
      subst hc hcap
      decide +kernel
    · -- only an ASCII letter has another capital here
      have hc : c.toNat < 128 := by
        unfold Char.toUpper at hcap
        split at hcap
        · rename_i hin
          have hz := UInt32.le_iff_toNat_le.mp hin.2
          have : 'z'.val.toNat = 122 := rfl
          show c.val.toNat < 128
          omega
        · rw [hcap]
          exact hd
      rw [Text.upperChar_of_ascii hc, hcap]

theorem denotes_iff : key.Denotes k ↔ key.resolve = .ok k := by
  cases key with
  | number n =>
    constructor
    · intro h
      cases h
      have hk : 0 ≤ (k.val : Int) ∧ (k.val : Int) < 16 := by omega
      rw [resolve, dif_pos hk]
      rfl
    · intro h
      rw [resolve] at h
      split at h
      · rename_i hn
        obtain rfl := Except.ok.inj h
        have hnum := Denotes.number ⟨n.toNat, by omega⟩
        rwa [show ((⟨n.toNat, by omega⟩ : Fin 16).val : Int) = n from Int.toNat_of_nonneg hn.1] at hnum
      · cases h
  | host name =>
    have hname : (∃ d, Text.upper name = String.singleton d ∧ LiesOn d k) ↔ ofHost? name = some k := by
      unfold ofHost?
      simp only [Text.upper_eq_singleton_iff]
      constructor
      · rintro ⟨d, ⟨c, hs, hc⟩, hd⟩
        rw [upperChar_eq_iff hd] at hc
        rw [hs]
        show hostKeys.lookup (capital c) = some k
        rw [hc, lookup_hostKeys_iff, ← liesOn_iff]
        exact hd
      · intro h
        split at h
        · rename_i c hs
          have hd : LiesOn (capital c) k := liesOn_iff.mpr (lookup_hostKeys_iff.mp h)
          exact ⟨capital c, ⟨c, hs, (upperChar_eq_iff hd).mpr rfl⟩, hd⟩
        · cases h
    constructor
    · intro h
      cases h with
      | host hup hd =>
        have := hname.mp ⟨_, hup, hd⟩
        simp only [resolve, this]
    · intro h
      simp only [resolve] at h
      split at h
      · rename_i k' hk
        obtain rfl := Except.ok.inj h
        obtain ⟨d, hup, hd⟩ := hname.mpr hk
        exact .host hup hd
      · cases h

theorem denotes_unique {j : Fin 16} (h : key.Denotes j) (h' : key.Denotes k) : j = k := by
  rw [denotes_iff] at h h'
  rw [h] at h'
  exact Except.ok.inj h'

theorem denotes_iff_eq {j : Fin 16} (h : key.Denotes j) : key.Denotes k ↔ j = k := by
  constructor
  · exact denotes_unique h
  · rintro rfl
    exact h

theorem host_denotes_iff (hc : c ∈ hostRows.flatten) :
    (Key.host (String.singleton c)).Denotes k ↔ (c, k) ∈ hostKeys := by
  have hall : (hostRows.flatten.all fun c => capital c = c) = true := by decide
  have hcap : capital c = c := of_decide_eq_true (List.all_eq_true.mp hall c hc)
  rw [← liesOn_iff]
  constructor
  · intro h
    cases h with
    | @host _ d _ hup hd =>
      obtain ⟨c', hs, hc'⟩ := Text.upper_eq_singleton_iff.mp hup
      rw [String.toList_singleton] at hs
      cases hs
      rw [upperChar_eq_iff hd, hcap] at hc'
      rwa [hc']
  · intro h
    refine .host (Text.upper_eq_singleton_iff.mpr ⟨c, String.toList_singleton c, ?_⟩) h
    rw [upperChar_eq_iff h, hcap]

/-- Each host key lies on one key, and each key under one host key. -/
theorem hostKeys_bijective :
    (∀ c ∈ hostRows.flatten, ∃ k, (c, k) ∈ hostKeys) ∧
    ∀ k, ∃ c ∈ hostRows.flatten, (c, k) ∈ hostKeys ∧ ∀ c' ∈ hostRows.flatten, (c', k) ∈ hostKeys → c' = c := by
  have hrows : hostRows.flatten = hostKeys.map Prod.fst := rfl
  have honce : (hostKeys.map Prod.snd).Nodup := by decide
  have hall : ∀ k, k ∈ hostKeys.map Prod.snd := by decide
  constructor
  · intro c hc
    rw [hrows] at hc
    obtain ⟨⟨c, k⟩, hk, rfl⟩ := List.mem_map.mp hc
    exact ⟨k, hk⟩
  · intro k
    obtain ⟨⟨c, k⟩, hk, rfl⟩ := List.mem_map.mp (hall k)
    refine ⟨c, hrows ▸ List.mem_map_of_mem hk, hk, ?_⟩
    intro c' _ hk'
    exact congrArg Prod.fst (List.inj_on_of_nodup_map honce hk' hk rfl)

theorem resolve_of_not_denotes (h : ¬∃ k, key.Denotes k) : key.resolve = .error key.refusal := by
  simp only [denotes_iff] at h
  cases key with
  | number n =>
    simp only [resolve] at h ⊢
    split
    · rename_i hn
      rw [dif_pos hn] at h
      exact absurd ⟨_, rfl⟩ h
    · rfl
  | host name =>
    simp only [resolve] at h ⊢
    split
    · rename_i k hk
      rw [hk] at h
      exact absurd ⟨_, rfl⟩ h
    · rfl

end Key

/-! ## Latches -/

namespace Keypad

variable {pad : Keypad} {k : Fin 16}

theorem mem_held : k ∈ pad.held ↔ pad[k] = true := by
  simp [held]

theorem ascending_held (pad : Keypad) : pad.held.Pairwise (· < ·) :=
  (List.pairwise_lt_finRange 16).filter _

theorem get_hold (pad : Keypad) (j k : Fin 16) (held : Bool) :
    (pad.hold j held)[k] = if j = k then held else pad[k] := by
  simp only [getElem_val, hold, Vector.getElem_set, Fin.ext_iff]

theorem get_released (k : Fin 16) : released[k] = false := by
  rw [getElem_val, released, Vector.getElem_replicate]

end Keypad

namespace Session

variable {s : Session} {key : Key} {k : Fin 16}

/-- What a keyboard may be told. -/
inductive KeyCall where
  | down (key : Key)
  | up (key : Key)
  | releaseAll

namespace KeyCall

def deed : KeyCall → Deed
  | down key => .operation (.holdKey key true)
  | up key => .operation (.holdKey key false)
  | releaseAll => .releaseAll

def Concerns : KeyCall → Fin 16 → Prop
  | down key, k | up key, k => key.Denotes k
  | releaseAll, _ => True

def Presses : KeyCall → Fin 16 → Prop
  | down key, k => key.Denotes k
  | up _, _ | releaseAll, _ => False

end KeyCall

def LastPressed (calls : List KeyCall) (k : Fin 16) : Prop :=
  ∃ before c after, calls = before ++ c :: after ∧ c.Presses k ∧ ∀ c' ∈ after, ¬c'.Concerns k

theorem not_lastPressed_nil (k : Fin 16) : ¬LastPressed [] k := by
  rintro ⟨before, c, after, h, -⟩
  simp at h

theorem lastPressed_concat (calls : List KeyCall) (c : KeyCall) (k : Fin 16) :
    LastPressed (calls ++ [c]) k ↔ c.Presses k ∨ ¬c.Concerns k ∧ LastPressed calls k := by
  constructor
  · rintro ⟨before, c', after, h, hpress, hafter⟩
    -- the press is the last call, or the last call comes behind it
    rcases List.eq_nil_or_concat after with rfl | ⟨after, c'', rfl⟩
    · obtain ⟨-, hc⟩ := List.append_inj' h rfl
      cases hc
      exact .inl hpress
    · rw [List.concat_eq_append, ← List.cons_append, ← List.append_assoc] at h
      obtain ⟨rfl, hc⟩ := List.append_inj' h rfl
      cases hc
      refine .inr ⟨hafter _ (by simp), before, c', after, rfl, hpress, ?_⟩
      intro d hd
      exact hafter d (by simp [hd])
  · rintro (hpress | ⟨hnot, before, c', after, rfl, hpress, hafter⟩)
    · exact ⟨calls, c, [], rfl, hpress, by simp⟩
    · refine ⟨before, c', after ++ [c], by simp, hpress, ?_⟩
      intro d hd
      rcases List.mem_append.mp hd with hd | hd
      · exact hafter d hd
      · rwa [List.mem_singleton.mp hd]

def withKeypad (s : Session) (keypad : Keypad) : Session :=
  s.change ({ · with keypad })

/-- How a call on a key is answered, and what it leaves. -/
structure TakesKey (s : Session) (key : Key) (k : Fin 16) : Prop where
  reply : ∀ held, s.reply (.operation (.holdKey key held)) = .held (.ok ())
  hold : ∀ held, s.undergo (.operation (.holdKey key held)) =
    s.withKeypad (s.machine.keypad.hold k held)
  isHeld : s.machine.isHeld key = .ok s.machine.keypad[k]

/-- A key that is none is refused, and nothing changes. -/
structure RefusesKey (s : Session) (key : Key) : Prop where
  reply : ∀ held, s.reply (.operation (.holdKey key held)) = .held (.error key.refusal)
  hold : ∀ held, s.undergo (.operation (.holdKey key held)) = s
  isHeld : s.machine.isHeld key = .error key.refusal

theorem takesKey (s : Session) (h : key.Denotes k) : s.TakesKey key k := by
  have hkey := Key.denotes_iff.mp h
  constructor
  · intro held
    simp only [reply, Machine.holdKey, hkey]
    rfl
  · intro held
    simp only [undergo, apply, Machine.holdKey, hkey]
    rfl
  · simp only [Machine.isHeld, hkey]

theorem refusesKey (s : Session) (h : ¬∃ k, key.Denotes k) : s.RefusesKey key := by
  have hkey := Key.resolve_of_not_denotes h
  constructor
  · intro held
    simp only [reply, Machine.holdKey, hkey]
    rfl
  · intro held
    simp only [undergo, apply, Machine.holdKey, hkey]
  · simp only [Machine.isHeld, hkey]

/-! ## One call after another -/

/-- A key is called by no other's number or name: to hold one is to touch one latch. -/
theorem held_holdKey (s : Session) (key : Key) (held : Bool) (k : Fin 16) :
    (s.undergo (.operation (.holdKey key held))).machine.keypad[k] = true ↔
      key.Denotes k ∧ held = true ∨ ¬key.Denotes k ∧ s.machine.keypad[k] = true := by
  by_cases hkey : ∃ j, key.Denotes j
  · obtain ⟨j, hj⟩ := hkey
    rw [(takesKey s hj).hold]
    show (s.machine.keypad.hold j held)[k] = true ↔ _
    rw [Keypad.get_hold, Key.denotes_iff_eq hj]
    by_cases hjk : j = k <;> simp [hjk]
  · have hk : ¬key.Denotes k := fun h => hkey ⟨k, h⟩
    rw [(refusesKey s hkey).hold]
    simp [hk]

theorem held_undergo (s : Session) (c : KeyCall) (k : Fin 16) :
    (s.undergo c.deed).machine.keypad[k] = true ↔
      c.Presses k ∨ ¬c.Concerns k ∧ s.machine.keypad[k] = true := by
  cases c with
  | down key =>
    rw [KeyCall.deed, held_holdKey, and_iff_left rfl]
    rfl
  | up key =>
    rw [KeyCall.deed, held_holdKey]
    simp only [Bool.false_eq_true, and_false, false_or]
    rw [KeyCall.Presses, KeyCall.Concerns, false_or]
  | releaseAll =>
    have hpad : (s.undergo .releaseAll).machine.keypad = Keypad.released := rfl
    simp only [KeyCall.deed, hpad, Keypad.get_released, KeyCall.Presses, KeyCall.Concerns]
    simp

theorem held_undergoAll (h : ∀ k : Fin 16, s.machine.keypad[k] = false) (calls : List KeyCall)
    (k : Fin 16) :
    (s.undergoAll (calls.map KeyCall.deed)).machine.keypad[k] = true ↔ LastPressed calls k := by
  induction calls using List.reverseRecOn with
  | nil =>
    have hk := h k
    simp only [List.map_nil, undergoAll, List.foldl_nil, hk]
    simp [not_lastPressed_nil]
  | append_singleton calls c ih =>
    rw [List.map_append, undergoAll_append, lastPressed_concat, ← ih]
    exact held_undergo _ c k

/-- A call changes nothing but the latches. -/
theorem undergo_eq_withKeypad (s : Session) (c : KeyCall) : ∃ pad, s.undergo c.deed = s.withKeypad pad := by
  have hhold (key : Key) (held : Bool) :
      ∃ pad, s.undergo (.operation (.holdKey key held)) = s.withKeypad pad := by
    by_cases hkey : ∃ k, key.Denotes k
    · obtain ⟨k, hk⟩ := hkey
      exact ⟨_, (takesKey s hk).hold held⟩
    · exact ⟨s.machine.keypad, (refusesKey s hkey).hold held⟩
  cases c with
  | down key => exact hhold key true
  | up key => exact hhold key false
  | releaseAll => exact ⟨Keypad.released, rfl⟩

theorem undergoAll_eq_withKeypad (s : Session) (calls : List KeyCall) :
    ∃ pad, s.undergoAll (calls.map KeyCall.deed) = s.withKeypad pad := by
  induction calls generalizing s with
  | nil => exact ⟨s.machine.keypad, rfl⟩
  | cons c calls ih =>
    obtain ⟨pad, hc⟩ := undergo_eq_withKeypad s c
    obtain ⟨pad', hcalls⟩ := ih (s.undergo c.deed)
    refine ⟨pad', ?_⟩
    show (s.undergo c.deed).undergoAll (calls.map KeyCall.deed) = s.withKeypad pad'
    rw [hcalls, hc]
    rfl

/-- What a machine shows of its held keys, by number or by name. -/
structure ShowsHeld (m : Machine) (held : Fin 16 → Prop) : Prop where
  ascending : m.keypad.held.Pairwise (· < ·)
  mem_held : ∀ k, k ∈ m.keypad.held ↔ held k
  isHeld : ∀ (key : Key) (k : Fin 16), key.Denotes k →
    ∃ b, m.isHeld key = .ok b ∧ (b = true ↔ held k)

/-- **The keypad is the set of the keys that were pressed last.** From a machine with no key held, after any
calls on any keys, numbers and names show those whose last call was a press, and nothing but latches has
changed. A key that is none is refused. Every key has one host key, and there are no other host keys. -/
theorem keyboard_holds_lastPressed :
    (∀ s : Session, (∀ k : Fin 16, s.machine.keypad[k] = false) → ∀ calls : List KeyCall,
      ShowsHeld (s.undergoAll (calls.map KeyCall.deed)).machine (LastPressed calls) ∧
      ∃ pad, s.undergoAll (calls.map KeyCall.deed) = s.withKeypad pad) ∧
    (∀ (s : Session) (key : Key),
      (∃ k, key.Denotes k ∧ s.TakesKey key k) ∨ (∀ k, ¬key.Denotes k) ∧ s.RefusesKey key) ∧
    Key.hostRows.flatten.length = 16 ∧
    (∀ c ∈ Key.hostRows.flatten, ∃! k, (Key.host (String.singleton c)).Denotes k) ∧
    ∀ k : Fin 16, ∃! c, c ∈ Key.hostRows.flatten ∧ (Key.host (String.singleton c)).Denotes k := by
  obtain ⟨hreach, hcover⟩ := Key.hostKeys_bijective
  refine ⟨?_, ?_, rfl, ?_, ?_⟩
  · intro s h calls
    have hheld := held_undergoAll h calls
    refine ⟨⟨Keypad.ascending_held _, ?_, ?_⟩, undergoAll_eq_withKeypad s calls⟩
    · intro k
      rw [Keypad.mem_held]
      exact hheld k
    · intro key k hkey
      exact ⟨_, (takesKey _ hkey).isHeld, hheld k⟩
  · intro s key
    by_cases hkey : ∃ k, key.Denotes k
    · obtain ⟨k, hk⟩ := hkey
      exact .inl ⟨k, hk, s.takesKey hk⟩
    · exact .inr ⟨not_exists.mp hkey, s.refusesKey hkey⟩
  · intro c hc
    obtain ⟨k, hk⟩ := hreach c hc
    have hdenotes := (Key.host_denotes_iff hc).mpr hk
    exact ⟨k, hdenotes, fun j hj => Key.denotes_unique hj hdenotes⟩
  · intro k
    obtain ⟨c, hc, hk, hunique⟩ := hcover k
    refine ⟨c, ⟨hc, (Key.host_denotes_iff hc).mpr hk⟩, ?_⟩
    rintro c' ⟨hc', hk'⟩
    exact hunique c' hc' ((Key.host_denotes_iff hc').mp hk')

/-- The keys 5, 0 and 8 held by name, once under the long s, key 5 let go by number, and a key that is none. -/
def mixedCalls : List KeyCall :=
  [.down (.host "w"), .down (.host "X"), .down (.host "ſ"), .up (.number 5), .down (.number 16)]

theorem mixedCalls_shown :
    (∀ k : Fin 16, (start (.ofBytes #[]) false).machine.keypad[k] = false) ∧
      ShowsHeld ((start (.ofBytes #[]) false).undergoAll (mixedCalls.map KeyCall.deed)).machine
        (LastPressed mixedCalls) ∧
      ((start (.ofBytes #[]) false).undergoAll (mixedCalls.map KeyCall.deed)).machine.keypad.held =
        [0, 8] := by
  have hfree : ∀ k : Fin 16, (start (.ofBytes #[]) false).machine.keypad[k] = false := by decide
  obtain ⟨hshown, -⟩ := keyboard_holds_lastPressed
  exact ⟨hfree, (hshown _ hfree mixedCalls).1, by decide +kernel⟩

end Session
end Chip8
