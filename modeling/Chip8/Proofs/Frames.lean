import Chip8.Proofs.Run

/-!
# Chip8.Proofs.Frames

Frames one after another. `Session.frameStarts` are the sessions in which the frames of a call begin;
each but the first is what the frame before it left, after a timer tick. A frame after which no other
begins ends the call with its own event.
-/

namespace Chip8
namespace Session

variable {s s' t t' : Session} {stop : Bool} {n i : Nat} {event : Event}

/-- Whether the frames go on after a frame with this event. -/
def goesOn (stop : Bool) (event : Event) : Bool :=
  event.reason = .maxCycles || event.reason = .keyWait && !stop

def frameStarts (stop : Bool) : Nat → Session → List Session
  | 0, _ => []
  | n + 1, s =>
    s :: match run Settings.cyclesPerTick .debugger s with
      | .ok event s' => if goesOn stop event then frameStarts stop n s'.tick else []
      | .error _ _ => []

theorem runFramesLeft_succ (stop : Bool) (total : Int) (n : Nat) (s : Session) :
    runFramesLeft .debugger stop total (n + 1) s =
      match run Settings.cyclesPerTick .debugger s with
      | .ok event s' =>
        if goesOn stop event then runFramesLeft .debugger stop total n s'.tick else .ok event s'
      | .error d s' => .error d s' := by
  rw [runFramesLeft]
  simp only [bind, EStateM.bind]
  cases run Settings.cyclesPerTick .debugger s with
  | ok event s' =>
    simp only [goesOn, Bool.or_eq_true, Bool.and_eq_true, decide_eq_true_eq]
    split <;> rfl
  | error d s' => rfl

theorem lt_of_frameStarts (h : (frameStarts stop n s)[i]? = some t) : i < n := by
  induction n generalizing s i with
  | zero => cases h
  | succ n ih =>
    cases i with
    | zero => exact Nat.succ_pos n
    | succ i =>
      rw [frameStarts, List.getElem?_cons_succ] at h
      split at h
      · split at h
        · have := ih h
          omega
        · cases h
      · cases h

theorem frameStarts_succ (h : (frameStarts stop n s)[i + 1]? = some t') :
    ∃ t event s', (frameStarts stop n s)[i]? = some t ∧
      run Settings.cyclesPerTick .debugger t = .ok event s' ∧ goesOn stop event = true ∧
      t' = s'.tick := by
  induction n generalizing s i with
  | zero => cases h
  | succ n ih =>
    rw [frameStarts, List.getElem?_cons_succ] at h
    split at h
    · rename_i event s' hrun
      split at h
      · rename_i hgo
        cases i with
        | zero =>
          cases n with
          | zero => cases h
          | succ n =>
            cases h
            exact ⟨s, event, s', rfl, hrun, hgo, rfl⟩
        | succ i =>
          obtain ⟨t, event', s'', ht, hrest⟩ := ih h
          refine ⟨t, event', s'', ?_, hrest⟩
          simp only [frameStarts, hrun, hgo, if_true, List.getElem?_cons_succ]
          exact ht
      · cases h
    · cases h

/-- Where a frame ends after which they go on the next one begins, if there is one. -/
theorem frameStarts_next (h : (frameStarts stop n s)[i]? = some t)
    (hrun : run Settings.cyclesPerTick .debugger t = .ok event s')
    (hgo : goesOn stop event = true) (hi : i + 1 < n) :
    (frameStarts stop n s)[i + 1]? = some s'.tick := by
  induction n generalizing s i with
  | zero => cases h
  | succ n ih =>
    cases i with
    | zero =>
      cases h
      obtain ⟨n, rfl⟩ := Nat.exists_eq_succ_of_ne_zero (by omega : n ≠ 0)
      simp only [frameStarts, hrun, hgo, if_true, List.getElem?_cons_succ, List.getElem?_cons_zero]
    | succ i =>
      rw [frameStarts, List.getElem?_cons_succ] at h ⊢
      split at h
      · split at h
        · rename_i hgo'
          rw [if_pos hgo']
          exact ih h (by omega)
        · cases h
      · cases h

/-- A frame after which they do not go on ends the call. -/
theorem runFramesLeft_of_frame (h : (frameStarts stop n s)[i]? = some t)
    (hrun : run Settings.cyclesPerTick .debugger t = .ok event s')
    (hgo : goesOn stop event = false) (total : Int) :
    runFramesLeft .debugger stop total n s = .ok event s' := by
  induction n generalizing s i with
  | zero => cases h
  | succ n ih =>
    rw [runFramesLeft_succ]
    cases i with
    | zero =>
      cases h
      simp only [hrun, hgo, Bool.false_eq_true, if_false]
    | succ i =>
      rw [frameStarts, List.getElem?_cons_succ] at h
      split at h
      · split at h
        · rename_i hgo'
          simp only [hgo', if_true]
          exact ih h
        · cases h
      · cases h

/-- A run after which the frames go on has only cleared the last event of the debugger. -/
theorem RunEnds.eq_of_goesOn {budget : Int} {k : Nat} (hend : s.RunEnds budget k event s')
    (hgo : goesOn stop event = true) :
    s' = ⟨s.engine.after k, s.debugger.clearLast, s.record, s.cycles + k⟩ := by
  cases hend with
  | spent => rfl
  | waits => rfl
  | stopped _ _ _ hs =>
    obtain hr | hr | hr := Debugger.reason_of_stop? hs <;> simp [goesOn, hr] at hgo
  | fails => cases hgo

theorem frameStarts_wellFormed (h : s.machine.WellFormed)
    (ht : (frameStarts stop n s)[i]? = some t) :
    t.machine.WellFormed ∧ t.debugger.clearLast = s.debugger.clearLast := by
  -- on the index of the frame: each begins with what the one before it left
  induction i generalizing t with
  | zero =>
    cases n with
    | zero => cases ht
    | succ n =>
      cases ht
      exact ⟨h, rfl⟩
  | succ i ih =>
    obtain ⟨u, event, s', hu, hrun, hgo, rfl⟩ := frameStarts_succ ht
    obtain ⟨hw, hd⟩ := ih hu
    obtain ⟨k, event', s'', hrun', -, hend, -⟩ := run_ends hw Settings.cyclesPerTick
    rw [hrun'] at hrun
    cases hrun
    obtain rfl := hend.eq_of_goesOn hgo
    exact ⟨(Engine.wellFormed_after hw k).tick, hd⟩

end Session
end Chip8
