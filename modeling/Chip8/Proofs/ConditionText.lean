import Chip8.Condition
import Mathlib.Data.List.Nodup

/-!
# Chip8.Proofs.ConditionText

The texts of a condition. A register is named in either case, an operator by its symbol alone, and a condition
without a description is described by its texts as they were given.

* `Condition.Spells`      : what texts say of a condition.
* `ConditionError.Blames` : what is wrong with texts that say nothing. The register is looked at first.

Texts spell one condition or have one fault (`spells_or_blames`), and `ofText_eq_ok_iff` and
`ofText_eq_error_iff` say that they are read so.
-/

namespace Chip8

/-! ## Tables of names -/

section Table

variable {α : Type} {all : List α} {name : α → String} {s : String} {a : α}

theorem find?_name_eq_some_iff (hname : (all.map name).Nodup) (ha : a ∈ all) :
    all.find? (fun b => name b = s) = some a ↔ name a = s := by
  constructor
  · intro h
    simpa using List.find?_some h
  · rintro rfl
    obtain ⟨before, after, rfl⟩ := List.append_of_mem ha
    rw [List.map_append, List.map_cons, List.nodup_append] at hname
    have hbefore : ∀ b ∈ before, name b ≠ name a :=
      fun b hb => hname.2.2 _ (List.mem_map_of_mem hb) _ List.mem_cons_self
    exact List.find?_eq_some_iff_append.mpr ⟨by simp, before, after, rfl, by simpa using hbefore⟩

theorem find?_name_eq_none_iff : all.find? (fun b => name b = s) = none ↔ s ∉ all.map name := by
  simp

end Table

namespace Register

variable {s : String} {r : Register}

def names : List String :=
  ["v0", "v1", "v2", "v3", "v4", "v5", "v6", "v7", "v8", "v9", "va", "vb", "vc", "vd", "ve", "vf",
    "i", "pc", "sp", "delay_timer", "sound_timer"]

theorem perm_names : (all.map name).Perm names := by
  decide +kernel

theorem mem_all (r : Register) : r ∈ all := by
  cases r with
  | v k => exact List.mem_append_right _ (List.mem_map_of_mem (List.mem_finRange k))
  | i | pc | sp | delay | sound => decide

theorem ofName?_eq_some_iff : ofName? s = some r ↔ r.name = s.toLower :=
  find?_name_eq_some_iff (perm_names.nodup_iff.mpr (by decide)) r.mem_all

theorem ofName?_eq_none_iff : ofName? s = none ↔ s.toLower ∉ names := by
  rw [← perm_names.mem_iff]
  exact find?_name_eq_none_iff

end Register

namespace Relation

variable {s : String} {r : Relation}

def symbols : List String :=
  ["==", "!=", "<", "<=", ">", ">=", "&"]

theorem perm_symbols : (all.map symbol).Perm symbols := by
  decide

theorem ofSymbol?_eq_some_iff : ofSymbol? s = some r ↔ r.symbol = s :=
  find?_name_eq_some_iff (perm_symbols.nodup_iff.mpr (by decide)) (by cases r <;> decide)

theorem ofSymbol?_eq_none_iff : ofSymbol? s = none ↔ s ∉ symbols := by
  rw [← perm_symbols.mem_iff]
  exact find?_name_eq_none_iff

end Relation

structure Condition.Spells (c : Condition) (register relation : String) (value : Int) (description : String) :
    Prop where
  name_eq : c.register.name = register.toLower
  symbol_eq : c.relation.symbol = relation
  value_eq : c.value = value
  description_eq : c.description =
    if description = "" then register ++ " " ++ relation ++ " " ++ toString value else description

inductive ConditionError.Blames (name symbol : String) : ConditionError → Prop where
  | register : name.toLower ∉ Register.names → Blames name symbol (.register name)
  | relation : name.toLower ∈ Register.names → symbol ∉ Relation.symbols →
      Blames name symbol (.relation symbol)

theorem ConditionError.Blames.unique {name symbol : String} {x x' : ConditionError} (h : x.Blames name symbol)
    (h' : x'.Blames name symbol) : x = x' := by
  cases h with
  | register hr =>
    cases h' with
    | register => rfl
    | relation hr' => exact absurd hr' hr
  | relation hr =>
    cases h' with
    | register hr' => exact absurd hr hr'
    | relation => rfl

namespace Condition

variable {register relation description : String} {value : Int} {c : Condition} {x : ConditionError}

/-! ## Texts leave no choice -/

theorem spells_or_blames (register relation : String) (value : Int) (description : String) :
    (∃ c : Condition, c.Spells register relation value description) ∨
      ∃ x : ConditionError, x.Blames register relation := by
  by_cases hr : register.toLower ∈ Register.names
  · by_cases hrel : relation ∈ Relation.symbols
    · obtain ⟨r, -, hname⟩ := List.mem_map.mp (Register.perm_names.mem_iff.mpr hr)
      obtain ⟨rel, -, hsymbol⟩ := List.mem_map.mp (Relation.perm_symbols.mem_iff.mpr hrel)
      exact .inl ⟨⟨r, rel, value, _⟩, hname, hsymbol, rfl, rfl⟩
    · exact .inr ⟨_, .relation hr hrel⟩
  · exact .inr ⟨_, .register hr⟩

theorem Spells.ofText_eq (h : c.Spells register relation value description) :
    ofText register relation value description = .ok c := by
  obtain ⟨hr, hrel, hvalue, hdescription⟩ := h
  unfold ofText
  rw [Register.ofName?_eq_some_iff.mpr hr, Relation.ofSymbol?_eq_some_iff.mpr hrel]
  obtain ⟨r, rel, v, d⟩ := c
  simp only at hvalue hdescription
  subst hvalue hdescription
  simp

theorem ofText_eq_of_blames (h : x.Blames register relation) :
    ofText register relation value description = .error x := by
  unfold ofText
  cases h with
  | register hr => rw [Register.ofName?_eq_none_iff.mpr hr]
  | relation hr hrel =>
    obtain ⟨r, -, hname⟩ := List.mem_map.mp (Register.perm_names.mem_iff.mpr hr)
    rw [Register.ofName?_eq_some_iff.mpr hname, Relation.ofSymbol?_eq_none_iff.mpr hrel]

theorem Spells.unique {c' : Condition} (h : c.Spells register relation value description)
    (h' : c'.Spells register relation value description) : c = c' :=
  Except.ok.inj (h.ofText_eq.symm.trans h'.ofText_eq)

theorem Spells.not_blames (h : c.Spells register relation value description) : ¬x.Blames register relation := by
  intro hx
  have hboth := h.ofText_eq.symm.trans (ofText_eq_of_blames hx)
  cases hboth

/-! ## Reading them -/

theorem ofText_eq_ok_iff :
    ofText register relation value description = .ok c ↔ c.Spells register relation value description := by
  constructor
  · intro h
    obtain ⟨c', hc'⟩ | ⟨x, hx⟩ := spells_or_blames register relation value description
    · obtain rfl : c' = c := Except.ok.inj (hc'.ofText_eq.symm.trans h)
      exact hc'
    · rw [ofText_eq_of_blames hx] at h
      cases h
  · exact Spells.ofText_eq

theorem ofText_eq_error_iff :
    ofText register relation value description = .error x ↔ x.Blames register relation := by
  constructor
  · intro h
    obtain ⟨c, hc⟩ | ⟨x', hx'⟩ := spells_or_blames register relation value description
    · rw [hc.ofText_eq] at h
      cases h
    · obtain rfl : x' = x := Except.error.inj ((ofText_eq_of_blames hx').symm.trans h)
      exact hx'
  · exact ofText_eq_of_blames

end Condition

end Chip8
