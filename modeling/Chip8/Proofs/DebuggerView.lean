import Chip8.Proofs.ConditionText
import Chip8.Proofs.Deeds
import Chip8.Proofs.RunEvent
import Mathlib.Data.Finmap
import Mathlib.Order.Bounds.Basic

/-!
# Chip8.Proofs.DebuggerView

A debugger as its users see it: a set of addresses, a finite map from ids to conditions, a pending request
and the last event.

* `DebuggerView.Step`   : what an operation answers and makes of a view. It leaves no choice
  (`step_unique`), for texts either spell a condition or are to blame.
* `Debugger.Simulates`  : a debugger stands for a view. Its ascending list is the set, and its row of
  conditions, with holes anywhere, is the map.
* `simulates_step`      : every operation takes a debugger and its view along.

`debugger_behaves_as_view`: after any operations, whatever the machines they meet, a new debugger has
answered as the empty view does and shows what has become of it.
-/

namespace Chip8

structure DebuggerView where
  breakpoints : Finset (BitVec 12)
  /-- The conditions by their ids. -/
  conditions : Finmap fun _ : Nat => Condition
  requested : Bool
  last : Option Event

namespace DebuggerView

open Session (Reply)

variable {v v' v'' : DebuggerView} {m : Machine} {op : Debugger.Operation} {r r' : Reply}

def empty : DebuggerView :=
  ⟨∅, ∅, false, none⟩

/-- The conditions but that with the id `id`, if there is one. -/
def without (v : DebuggerView) : Int → Finmap fun _ : Nat => Condition
  | .ofNat id => v.conditions.erase id
  | .negSucc _ => v.conditions

def BreaksAt (v : DebuggerView) (pc : Int) : Prop :=
  ∃ a ∈ v.breakpoints, (a.toNat : Int) = pc

/-- The condition with the id `id` holds. -/
def HoldsAt (v : DebuggerView) (m : Machine) (id : Nat) : Prop :=
  ∃ c, v.conditions.lookup id = some c ∧ c.holds m = true

def Stops (v : DebuggerView) (m : Machine) (pc : Int) : Prop :=
  v.requested = true ∨ v.BreaksAt pc ∨ ∃ id, v.HoldsAt m id

inductive Step (m : Machine) (v : DebuggerView) :
    Debugger.Operation → Reply → DebuggerView → Prop where
  | addBreakpoint (a : Int) : Step m v (.addBreakpoint a) .done
      { v with breakpoints := insert (BitVec.ofInt 12 a) v.breakpoints }
  | removeBreakpoint (a : Int) : Step m v (.removeBreakpoint a) .done
      { v with breakpoints := v.breakpoints.erase (BitVec.ofInt 12 a) }
  | clearBreakpoints : Step m v .clearBreakpoints .done { v with breakpoints := ∅ }
  | addCondition {id : Nat} (c : Condition) : IsLeast {n | n ∉ v.conditions} id →
      Step m v (.addCondition c) (.condition (.ok id))
        { v with conditions := v.conditions.insert id c }
  | watch {register relation : String} {value : Int} {description : String} {id : Nat}
      {c : Condition} : c.Spells register relation value description →
      IsLeast {n | n ∉ v.conditions} id →
      Step m v (.watch register relation value description) (.condition (.ok id))
        { v with conditions := v.conditions.insert id c }
  | watchInvalid {register relation : String} {value : Int} {description : String}
      {x : ConditionError} : x.Blames register relation →
      Step m v (.watch register relation value description) (.condition (.error x)) v
  | removeCondition (id : Int) :
      Step m v (.removeCondition id) .done { v with conditions := v.without id }
  | clearConditions : Step m v .clearConditions .done { v with conditions := ∅ }
  | request : Step m v .request .done { v with requested := true }
  | clearRequest : Step m v .clearRequest .done { v with requested := false }
  | clearLast : Step m v .clearLast .done { v with last := none }
  | clearAll : Step m v .clearAll .done empty
  | interrupts {pc : Int} : v.requested = true →
      Step m v (.check pc) (.goesOn false)
        { v with requested := false, last := some (Debugger.interrupted pc) }
  | breaks {pc : Int} : v.requested = false → v.BreaksAt pc →
      Step m v (.check pc) (.goesOn false) { v with last := some (Debugger.atBreakpoint pc) }
  | meets {pc : Int} {id : Nat} {c : Condition} : v.requested = false → ¬v.BreaksAt pc →
      IsLeast {n | v.HoldsAt m n} id → v.conditions.lookup id = some c →
      Step m v (.check pc) (.goesOn false) { v with last := some (Debugger.onCondition pc c) }
  | passes {pc : Int} : ¬v.Stops m pc → Step m v (.check pc) (.goesOn true) v

inductive Run : DebuggerView → List (Machine × Debugger.Operation) → List Reply → DebuggerView →
    Prop where
  | nil (v : DebuggerView) : Run v [] [] v
  | cons {v v' v'' : DebuggerView} {m : Machine} {op : Debugger.Operation} {r : Reply}
      {ops : List (Machine × Debugger.Operation)} {rs : List Reply} :
      v.Step m op r v' → Run v' ops rs v'' → Run v ((m, op) :: ops) (r :: rs) v''

theorem lookup_without (v : DebuggerView) (id : Int) (n : Nat) :
    (v.without id).lookup n = if (n : Int) = id then none else v.conditions.lookup n := by
  cases id with
  | ofNat id =>
    have hid : (n : Int) = Int.ofNat id ↔ n = id := Int.ofNat_inj
    by_cases h : n = id
    · rw [if_pos (hid.mpr h), without, h, Finmap.lookup_erase]
    · rw [if_neg (mt hid.mp h), without, Finmap.lookup_erase_ne h]
  | negSucc id => rw [if_neg (by omega), without]

theorem goesOn_of_step {pc : Int} {b : Bool} (h : v.Step m (.check pc) (.goesOn b) v') :
    b = false ↔ v.Stops m pc := by
  cases h with
  | interrupts hr => exact iff_of_true rfl (.inl hr)
  | breaks _ hb => exact iff_of_true rfl (.inr (.inl hb))
  | meets _ _ hid => exact iff_of_true rfl (.inr (.inr ⟨_, hid.1⟩))
  | passes hs => exact iff_of_false Bool.noConfusion hs

theorem check_unique {pc : Int} (h : v.Step m (.check pc) r v') (h' : v.Step m (.check pc) r' v'') :
    r' = r ∧ v'' = v' := by
  cases h with
  | interrupts hr =>
    cases h' with
    | interrupts => exact ⟨rfl, rfl⟩
    | breaks hr' | meets hr' => simp [hr] at hr'
    | passes hs => exact absurd (.inl hr) hs
  | breaks hr hb =>
    cases h' with
    | interrupts hr' => simp [hr] at hr'
    | breaks => exact ⟨rfl, rfl⟩
    | meets _ hb' => exact absurd hb hb'
    | passes hs => exact absurd (.inr (.inl hb)) hs
  | meets hr hb hid hc =>
    cases h' with
    | interrupts hr' => simp [hr] at hr'
    | breaks _ hb' => exact absurd hb' hb
    | meets _ _ hid' hc' =>
      rw [hid'.unique hid, hc] at hc'
      cases hc'
      exact ⟨rfl, rfl⟩
    | passes hs => exact absurd (.inr (.inr ⟨_, hid.1⟩)) hs
  | passes hs =>
    cases h' with
    | interrupts hr => exact absurd (.inl hr) hs
    | breaks _ hb => exact absurd (.inr (.inl hb)) hs
    | meets _ _ hid => exact absurd (.inr (.inr ⟨_, hid.1⟩)) hs
    | passes => exact ⟨rfl, rfl⟩

/-- A view leaves an operation no choice. -/
theorem step_unique (h : v.Step m op r v') (h' : v.Step m op r' v'') : r' = r ∧ v'' = v' := by
  cases h with
  | addCondition c hid =>
    cases h' with
    | addCondition _ hid' =>
      rw [hid'.unique hid]
      exact ⟨rfl, rfl⟩
  | watch hc hid =>
    cases h' with
    | watch hc' hid' =>
      rw [hc'.unique hc, hid'.unique hid]
      exact ⟨rfl, rfl⟩
    | watchInvalid hx => exact absurd hx hc.not_blames
  | watchInvalid hx =>
    cases h' with
    | watch hc => exact absurd hx hc.not_blames
    | watchInvalid hx' =>
      rw [hx'.unique hx]
      exact ⟨rfl, rfl⟩
  | interrupts hr => exact check_unique (.interrupts hr) h'
  | breaks hr hb => exact check_unique (.breaks hr hb) h'
  | meets hr hb hid hc => exact check_unique (.meets hr hb hid hc) h'
  | passes hs => exact check_unique (.passes hs) h'
  | _ =>
    cases h'
    exact ⟨rfl, rfl⟩

theorem run_unique {ops : List (Machine × Debugger.Operation)} {rs rs' : List Reply}
    (h : v.Run ops rs v') (h' : v.Run ops rs' v'') : rs' = rs ∧ v'' = v' := by
  induction h generalizing rs' v'' with
  | nil =>
    cases h'
    exact ⟨rfl, rfl⟩
  | cons hstep _ ih =>
    cases h' with
    | cons hstep' hrun' =>
      obtain ⟨rfl, rfl⟩ := step_unique hstep hstep'
      obtain ⟨rfl, rfl⟩ := ih hrun'
      exact ⟨rfl, rfl⟩

end DebuggerView

namespace Debugger

variable {d : Debugger} {v : DebuggerView} {m : Machine}

/-! ## The ascending list -/

theorem mem_insert {a n : Nat} {l : List Nat} : n ∈ insert a l ↔ n = a ∨ n ∈ l := by
  induction l with
  | nil => rw [insert, List.mem_singleton, or_iff_left List.not_mem_nil]
  | cons b bs ih =>
    rw [insert]
    split
    · rw [List.mem_cons]
    · split
      · rename_i _ hab
        rw [hab, List.mem_cons, ← or_assoc, or_self]
      · rw [List.mem_cons, List.mem_cons, ih, or_left_comm]

theorem ascending_insert {l : List Nat} (h : l.Pairwise (· < ·)) (a : Nat) :
    (insert a l).Pairwise (· < ·) := by
  induction l with
  | nil => exact List.pairwise_singleton _ a
  | cons b bs ih =>
    obtain ⟨hb, hbs⟩ := List.pairwise_cons.mp h
    rw [insert]
    split
    · rename_i hab
      refine List.pairwise_cons.mpr ⟨fun n hn => ?_, h⟩
      obtain rfl | hn := List.mem_cons.mp hn
      · exact hab
      · exact hab.trans (hb n hn)
    · split
      · exact h
      · refine List.pairwise_cons.mpr ⟨fun n hn => ?_, ih hbs⟩
        obtain rfl | hn := mem_insert.mp hn
        · omega
        · exact hb n hn

theorem toNat_address (a : Int) : (BitVec.ofInt 12 a).toNat = Memory.wrap a :=
  BitVec.toNat_ofInt a

/-! ## The row of conditions -/

/-- The number of the place is the least that no condition has. -/
theorem isLeast_place (c : Condition) (l : List (Option Condition)) :
    IsLeast {n | l[n]?.join = none} (place c l).2 := by
  induction l with
  | nil => exact ⟨rfl, fun n _ => Nat.zero_le n⟩
  | cons b l ih =>
    cases b with
    | none => exact ⟨rfl, fun n _ => Nat.zero_le n⟩
    | some b =>
      refine ⟨ih.1, fun n hn => ?_⟩
      cases n with
      | zero => cases hn
      | succ n => exact Nat.succ_le_succ (ih.2 hn)

theorem join_place (c : Condition) (l : List (Option Condition)) (n : Nat) :
    (place c l).1[n]?.join = if n = (place c l).2 then some c else l[n]?.join := by
  induction l generalizing n with
  | nil => cases n <;> rfl
  | cons b l ih =>
    cases b with
    | none => cases n <;> rfl
    | some b =>
      cases n with
      | zero => rfl
      | succ n =>
        have hn : n + 1 = (place c (some b :: l)).2 ↔ n = (place c l).2 := Nat.succ_inj
        simp only [hn]
        exact ih n

theorem join_addCondition (d : Debugger) (c : Condition) (n : Nat) :
    (d.addCondition c).2.conditions[n]?.join =
      if n = (d.addCondition c).1 then some c else d.conditions[n]?.join :=
  join_place c d.conditions n

theorem join_removeCondition (d : Debugger) (id : Int) (n : Nat) :
    (d.removeCondition id).conditions[n]?.join =
      if (n : Int) = id then none else d.conditions[n]?.join := by
  rw [removeCondition]
  by_cases h : 0 ≤ id
  · have hid : (n : Int) = id ↔ id.toNat = n := by omega
    simp only [if_pos h, hid, List.getElem?_set]
    split
    · split <;> rfl
    · rfl
  · rw [if_neg h, if_neg (by omega)]

/-- What a place of the row gives to the list, together with its number. -/
theorem eq_of_listed {x : Option Condition × Nat} {y : Nat × Condition}
    (h : x.1.map (fun c => (x.2, c)) = some y) : x = (some y.2, y.1) := by
  obtain ⟨c, hc, rfl⟩ := Option.map_eq_some_iff.mp h
  exact Prod.ext hc rfl

theorem mem_listConditions {id : Nat} {c : Condition} :
    (id, c) ∈ d.listConditions ↔ d.conditions[id]?.join = some c := by
  rw [listConditions, List.mem_filterMap, Option.join_eq_some_iff, ← List.mk_mem_zipIdx_iff_getElem?]
  constructor
  · rintro ⟨x, hx, hlisted⟩
    rw [← eq_of_listed hlisted]
    exact hx
  · intro hx
    exact ⟨_, hx, rfl⟩

theorem ascending_listConditions (d : Debugger) :
    (d.listConditions.map Prod.fst).Pairwise (· < ·) := by
  have hplaces : d.conditions.zipIdx.Pairwise fun x y => x.2 < y.2 := by
    rw [← List.pairwise_map, List.zipIdx_map_snd]
    exact List.pairwise_lt_range' 1
  rw [List.pairwise_map]
  refine hplaces.filterMap _ fun x x' hlt y hy y' hy' => ?_
  rw [eq_of_listed hy, eq_of_listed hy'] at hlt
  exact hlt

/-! ## Debuggers and their views -/

structure Simulates (d : Debugger) (v : DebuggerView) : Prop where
  ascending : d.breakpoints.Pairwise (· < ·)
  breakpoint : ∀ n, n ∈ d.breakpoints ↔ ∃ a ∈ v.breakpoints, a.toNat = n
  condition : ∀ id, d.conditions[id]?.join = v.conditions.lookup id
  requested : d.requested = v.requested
  last : d.last = v.last

theorem simulates_fresh : fresh.Simulates .empty where
  ascending := .nil
  breakpoint n := by simp [fresh, DebuggerView.empty]
  condition id := rfl
  requested := rfl
  last := rfl

namespace Simulates

/-- Debuggers and views that differ in one field only. -/
theorem setBreakpoints (h : d.Simulates v) {l : List Nat} {set : Finset (BitVec 12)}
    (hl : l.Pairwise (· < ·)) (hmem : ∀ n, n ∈ l ↔ ∃ a ∈ set, a.toNat = n) :
    { d with breakpoints := l }.Simulates { v with breakpoints := set } :=
  { h with ascending := hl, breakpoint := hmem }

theorem setConditions (h : d.Simulates v) {cs : List (Option Condition)}
    {map : Finmap fun _ : Nat => Condition} (hcs : ∀ id, cs[id]?.join = map.lookup id) :
    { d with conditions := cs }.Simulates { v with conditions := map } :=
  { h with condition := hcs }

theorem setRequested (h : d.Simulates v) (b : Bool) :
    { d with requested := b }.Simulates { v with requested := b } :=
  { h with requested := rfl }

theorem setLast (h : d.Simulates v) (event : Option Event) :
    { d with last := event }.Simulates { v with last := event } :=
  { h with last := rfl }

theorem addBreakpoint (h : d.Simulates v) (a : Int) : (d.addBreakpoint a).Simulates
    { v with breakpoints := Insert.insert (BitVec.ofInt 12 a) v.breakpoints } := by
  refine h.setBreakpoints (ascending_insert h.ascending _) fun n => ?_
  rw [Finset.exists_mem_insert, ← h.breakpoint, toNat_address, eq_comm]
  exact mem_insert

theorem removeBreakpoint (h : d.Simulates v) (a : Int) : (d.removeBreakpoint a).Simulates
    { v with breakpoints := v.breakpoints.erase (BitVec.ofInt 12 a) } := by
  refine h.setBreakpoints (h.ascending.filter _) fun n => ?_
  simp only [List.mem_filter, h.breakpoint, decide_eq_true_eq, Finset.mem_erase]
  constructor
  · rintro ⟨⟨b, hb, rfl⟩, hne⟩
    refine ⟨b, ⟨?_, hb⟩, rfl⟩
    rintro rfl
    exact hne (toNat_address a)
  · rintro ⟨b, ⟨hne, hb⟩, rfl⟩
    -- two addresses of one number are one address
    refine ⟨⟨b, hb, rfl⟩, fun heq => hne (BitVec.eq_of_toNat_eq ?_)⟩
    rw [toNat_address, heq]

theorem clearBreakpoints (h : d.Simulates v) :
    d.clearBreakpoints.Simulates { v with breakpoints := ∅ } :=
  h.setBreakpoints .nil fun n => by simp

theorem isLeast_id (h : d.Simulates v) (c : Condition) :
    IsLeast {n | n ∉ v.conditions} (d.addCondition c).1 := by
  have hfree : {n | n ∉ v.conditions} = {n | d.conditions[n]?.join = none} := by
    ext n
    rw [Set.mem_ofPred_eq, Set.mem_ofPred_eq, h.condition, Finmap.lookup_eq_none]
  rw [hfree]
  exact isLeast_place c d.conditions

theorem addCondition (h : d.Simulates v) (c : Condition) : (d.addCondition c).2.Simulates
    { v with conditions := v.conditions.insert (d.addCondition c).1 c } := by
  refine h.setConditions fun n => (join_addCondition d c n).trans ?_
  rw [h.condition]
  by_cases hn : n = (d.addCondition c).1
  · rw [if_pos hn, hn, Finmap.lookup_insert]
  · rw [if_neg hn, Finmap.lookup_insert_of_ne _ hn]

theorem removeCondition (h : d.Simulates v) (id : Int) :
    (d.removeCondition id).Simulates { v with conditions := v.without id } := by
  have hcs n : (d.removeCondition id).conditions[n]?.join = (v.without id).lookup n := by
    rw [join_removeCondition, h.condition, DebuggerView.lookup_without]
  have hd : d.removeCondition id = { d with conditions := (d.removeCondition id).conditions } := by
    rw [Debugger.removeCondition]
    split <;> rfl
  rw [hd]
  exact h.setConditions hcs

theorem breaksAt_iff (h : d.Simulates v) (pc : Int) :
    (d.breakpoints.any fun a => (a : Int) = pc) = true ↔ v.BreaksAt pc := by
  simp only [List.any_eq_true, decide_eq_true_eq, h.breakpoint, DebuggerView.BreaksAt]
  constructor
  · rintro ⟨n, ⟨a, ha, rfl⟩, hpc⟩
    exact ⟨a, ha, hpc⟩
  · rintro ⟨a, ha, hpc⟩
    exact ⟨_, ⟨a, ha, rfl⟩, hpc⟩

theorem holdsAt_iff (h : d.Simulates v) {id : Nat} :
    v.HoldsAt m id ↔ ∃ c, d.conditions[id]? = some (some c) ∧ c.holds m = true := by
  simp only [DebuggerView.HoldsAt, ← h.condition, Option.join_eq_some_iff]

theorem isLeast_of_lowestHolding (h : d.Simulates v) {id : Nat} {c : Condition}
    (hid : d.LowestHolding m id c) :
    IsLeast {n | v.HoldsAt m n} id ∧ v.conditions.lookup id = some c := by
  refine ⟨⟨h.holdsAt_iff.mpr ⟨c, hid.at_id, hid.holds⟩, fun n hn => ?_⟩, ?_⟩
  · obtain ⟨b, hb, hholds⟩ := h.holdsAt_iff.mp hn
    refine Nat.le_of_not_lt fun hlt => ?_
    rw [hid.lowest n hlt b hb] at hholds
    cases hholds
  · rw [← h.condition, hid.at_id, Option.join_some]

theorem check (h : d.Simulates v) (m : Machine) (pc : Int) :
    ∃ v', v.Step m (.check pc) (.goesOn (d.check m pc).1) v' ∧ (d.check m pc).2.Simulates v' := by
  rw [Debugger.check]
  split
  · rename_i hr
    exact ⟨_, .interrupts (h.requested ▸ hr), (h.setRequested false).setLast _⟩
  · rename_i hr
    have hr : v.requested = false := by rw [← h.requested]; simpa using hr
    split
    · rename_i hb
      exact ⟨_, .breaks hr ((h.breaksAt_iff pc).mp hb), h.setLast _⟩
    · rename_i hb
      have hb := mt (h.breaksAt_iff pc).mpr hb
      cases hc : d.firstHolding? m with
      | some c =>
        obtain ⟨id, hid⟩ := lowestHolding_of_firstHolding? hc
        obtain ⟨hleast, hlookup⟩ := h.isLeast_of_lowestHolding hid
        exact ⟨_, .meets hr hb hleast hlookup, h.setLast _⟩
      | none =>
        refine ⟨v, .passes ?_, h⟩
        -- no reason to stop is left, and conditions are the last of them
        rintro (hr' | hb' | ⟨id, hid⟩)
        · rw [hr] at hr'
          cases hr'
        · exact hb hb'
        · obtain ⟨c, hc', hholds⟩ := h.holdsAt_iff.mp hid
          rw [firstHolding?_eq_none_iff.mp hc c (List.mem_of_getElem? hc')] at hholds
          cases hholds

end Simulates

/-- **Every operation takes a debugger and its view along**, and the view allows what it answers. -/
theorem simulates_step (h : d.Simulates v) (m : Machine) (op : Operation) :
    ∃ v', v.Step m op (Session.debugReply m d op) v' ∧ (op.apply m d).Simulates v' := by
  cases op with
  | addBreakpoint a => exact ⟨_, .addBreakpoint a, h.addBreakpoint a⟩
  | removeBreakpoint a => exact ⟨_, .removeBreakpoint a, h.removeBreakpoint a⟩
  | clearBreakpoints => exact ⟨_, .clearBreakpoints, h.clearBreakpoints⟩
  | addCondition c => exact ⟨_, .addCondition c (h.isLeast_id c), h.addCondition c⟩
  | watch register relation value description =>
    simp only [Session.debugReply, Operation.apply, Debugger.watch]
    cases hc : Condition.ofText register relation value description with
    | ok c => exact ⟨_, .watch (Condition.ofText_eq_ok_iff.mp hc) (h.isLeast_id c), h.addCondition c⟩
    | error x => exact ⟨_, .watchInvalid (Condition.ofText_eq_error_iff.mp hc), h⟩
  | removeCondition id => exact ⟨_, .removeCondition id, h.removeCondition id⟩
  | clearConditions => exact ⟨_, .clearConditions, h.setConditions fun _ => rfl⟩
  | request => exact ⟨_, .request, h.setRequested true⟩
  | clearRequest => exact ⟨_, .clearRequest, h.setRequested false⟩
  | clearLast => exact ⟨_, .clearLast, h.setLast none⟩
  | clearAll => exact ⟨_, .clearAll, simulates_fresh⟩
  | check pc => exact h.check m pc

/-! ## One operation after another -/

def playAll (d : Debugger) (ops : List (Machine × Operation)) : Debugger :=
  ops.foldl (fun d x => x.2.apply x.1 d) d

def replies (d : Debugger) : List (Machine × Operation) → List Session.Reply
  | [] => []
  | (m, op) :: ops => Session.debugReply m d op :: replies (op.apply m d) ops

theorem simulates_playAll (h : d.Simulates v) (ops : List (Machine × Operation)) :
    ∃ v', v.Run ops (d.replies ops) v' ∧ (d.playAll ops).Simulates v' := by
  induction ops generalizing d v with
  | nil => exact ⟨v, .nil v, h⟩
  | cons x ops ih =>
    obtain ⟨v', hstep, h'⟩ := simulates_step h x.1 x.2
    obtain ⟨v'', hrun, h''⟩ := ih h'
    exact ⟨v'', .cons hstep hrun, h''⟩

/-- What a debugger shows is what a view holds, in strictly ascending order, and it stops where the view
does. -/
structure Shows (d : Debugger) (v : DebuggerView) : Prop where
  breakpoints_ascending : d.breakpoints.Pairwise (· < ·)
  mem_breakpoints : ∀ n, n ∈ d.breakpoints ↔ ∃ a ∈ v.breakpoints, a.toNat = n
  hasBreakpoint : ∀ a, d.hasBreakpoint a = true ↔ BitVec.ofInt 12 a ∈ v.breakpoints
  conditions_ascending : (d.listConditions.map Prod.fst).Pairwise (· < ·)
  mem_conditions : ∀ id c, (id, c) ∈ d.listConditions ↔ v.conditions.lookup id = some c
  requested : d.requested = v.requested
  last : d.last = v.last
  stops : ∀ m pc, (d.check m pc).1 = false ↔ v.Stops m pc

theorem Simulates.shows (h : d.Simulates v) : d.Shows v where
  breakpoints_ascending := h.ascending
  mem_breakpoints := h.breakpoint
  hasBreakpoint a := by
    rw [Debugger.hasBreakpoint, List.contains_iff_mem, h.breakpoint]
    constructor
    · rintro ⟨b, hb, heq⟩
      rw [← toNat_address] at heq
      rw [← BitVec.eq_of_toNat_eq heq]
      exact hb
    · intro ha
      exact ⟨_, ha, toNat_address a⟩
  conditions_ascending := ascending_listConditions d
  mem_conditions id c := by rw [mem_listConditions, h.condition]
  requested := h.requested
  last := h.last
  stops m pc := by
    obtain ⟨v', hstep, -⟩ := h.check m pc
    exact DebuggerView.goesOn_of_step hstep

/-- **A debugger behaves as its view.** After any operations, each under any machine, a new debugger shows
what has become of the empty view, and has answered what the view prescribes: no other answers and no
other view come of these operations. -/
theorem debugger_behaves_as_view (ops : List (Machine × Operation)) :
    ∃ v, (fresh.playAll ops).Shows v ∧
      ∀ rs v', DebuggerView.empty.Run ops rs v' ↔ rs = fresh.replies ops ∧ v' = v := by
  obtain ⟨v, hrun, h⟩ := simulates_playAll simulates_fresh ops
  refine ⟨v, h.shows, fun rs v' => ⟨fun hrun' => DebuggerView.run_unique hrun hrun', ?_⟩⟩
  rintro ⟨rfl, rfl⟩
  exact hrun

/-- A hole is taken before the row grows, and ids that no condition has are let pass. -/
example (m : Machine) (c : Condition) :
    (fresh.playAll [(m, .addCondition c), (m, .addCondition c), (m, .removeCondition 0),
      (m, .removeCondition (-1)), (m, .removeCondition 7), (m, .addCondition c)]).listConditions =
      [(0, c), (1, c)] :=
  rfl

end Debugger
end Chip8
