import Catchb.Lib.Keyed
import Catchb.Lib.Text

/-! A database's tables by their names. -/

namespace Catchb.Lib
variable {α : Type*}

/-- `made` tells a table from another one that had its name before. -/
structure NamedTable (α : Type*) where
  name : Text
  made : Nat
  rows : List α

/-- Two tables do not have names that differ in case alone. -/
def NamedTable.key (t : NamedTable α) : Text := lower t.name

structure Catalog (α : Type*) where
  tables : List (NamedTable α)
  made : Nat
  older : ∀ t ∈ tables, t.made < made
  distinct : (tables.map NamedTable.key).Nodup

namespace Catalog

def empty : Catalog α := ⟨[], 0, nofun, List.nodup_nil⟩

def names (c : Catalog α) : List Text := c.tables.map NamedTable.name

/-- The table that a statement reaches by the name. -/
def find (c : Catalog α) (name : Text) : Option (NamedTable α) :=
  Keyed.get NamedTable.key (lower name) c.tables

/-- The rows of the table that has exactly the name. -/
def content (c : Catalog α) (name : Text) : List α :=
  ((Keyed.get NamedTable.name name c.tables).map NamedTable.rows).getD []

def create (c : Catalog α) (name : Text) : Catalog α :=
  if h : c.find name = none then
    { tables := c.tables ++ [⟨name, c.made, []⟩]
      made := c.made + 1
      older := by
        intro t ht
        rcases List.mem_append.mp ht with ht | ht
        · exact Nat.lt_succ_of_lt (c.older t ht)
        · rw [List.mem_singleton.mp ht]
          exact Nat.lt_succ_self _
      distinct := by
        have hnew : Keyed.get NamedTable.key
            (NamedTable.key (⟨name, c.made, []⟩ : NamedTable α)) c.tables = none := h
        exact Keyed.nodup_append_singleton c.distinct hnew }
  else c

def drop (c : Catalog α) (name : Text) : Catalog α where
  tables := Keyed.discard NamedTable.key (lower name) c.tables
  made := c.made
  older := fun t ht => c.older t (Keyed.mem_of_mem_discard ht)
  distinct := Keyed.nodup_discard c.distinct

variable {c : Catalog α} {name name' : Text}

theorem find_of_mem_names (h : name ∈ c.names) : ∃ t, c.find name = some t := by
  obtain ⟨t, ht, rfl⟩ := List.mem_map.mp h
  have hkey : lower t.name ∈ c.tables.map NamedTable.key := List.mem_map.mpr ⟨t, ht, rfl⟩
  exact Option.isSome_iff_exists.mp (Keyed.get_isSome_iff_mem.mpr hkey)

theorem not_mem_names_of_find (h : c.find name = none) : name ∉ c.names := by
  intro hmem
  obtain ⟨t, ht⟩ := find_of_mem_names hmem
  rw [h] at ht
  cases ht

theorem find_congr (h : lower name = lower name') : c.find name = c.find name' := by
  simp only [find, h]

theorem create_of_none (h : c.find name = none) :
    (c.create name).tables = c.tables ++ [⟨name, c.made, []⟩] := by
  simp only [create, h, ↓reduceDIte]

theorem create_of_some {t : NamedTable α} (h : c.find name = some t) : c.create name = c := by
  simp only [create, h, reduceCtorEq, ↓reduceDIte]

/-- A new table is an empty one that was not there before. -/
theorem find_create_new (h : c.find name = none) :
    (c.create name).find name = some ⟨name, c.made, []⟩ := by
  have hnone : Keyed.get NamedTable.key (lower name) c.tables = none := h
  have hkey : NamedTable.key (⟨name, c.made, []⟩ : NamedTable α) = lower name := rfl
  rw [find, create_of_none h, Keyed.get_append_singleton, if_pos ⟨hnone, hkey⟩]

/-- Creating a table changes what no name holds. -/
theorem content_create (c : Catalog α) (name name' : Text) :
    (c.create name).content name' = c.content name' := by
  cases h : c.find name with
  | some t => rw [create_of_some h]
  | none =>
    simp only [content, create_of_none h, Keyed.get_append_singleton]
    split
    · rename_i hnew
      simp [hnew.1]
    · rfl

theorem names_create (c : Catalog α) (name : Text) :
    (c.create name).names = if c.find name = none then c.names ++ [name] else c.names := by
  cases h : c.find name with
  | none => simp [names, create_of_none h]
  | some t => simp [names, create_of_some h]

theorem find_drop_same (c : Catalog α) (name : Text) : (c.drop name).find name = none :=
  Keyed.get_discard_same c.distinct

/-- A table of another name is kept. -/
theorem mem_names_drop (h : lower name ≠ lower name') :
    name ∈ (c.drop name').names ↔ name ∈ c.names := by
  constructor
  · intro hmem
    obtain ⟨t, ht, rfl⟩ := List.mem_map.mp hmem
    exact List.mem_map.mpr ⟨t, Keyed.mem_of_mem_discard ht, rfl⟩
  · intro hmem
    obtain ⟨t, ht, rfl⟩ := List.mem_map.mp hmem
    exact List.mem_map.mpr ⟨t, Keyed.mem_discard_of_ne h ht, rfl⟩

end Catalog
end Catchb.Lib
