import Mathlib.Algebra.Group.Int.Defs
import Mathlib.Algebra.Group.Nat.Defs
import Mathlib.Data.List.AList

/-!
# TOML documents

The values a TOML text denotes, and the typed reads a derived deserializer makes
of them.  Parsing text is left to the users of this file, as a function from
texts to tables.
-/

namespace Konstantin
namespace Toml

inductive Value where
  | string (s : String)
  | integer (i : Int)
  | float (text : String)
  | boolean (b : Bool)
  | datetime (text : String)
  | array (items : List Value)
  | table (entries : List (String × Value))

abbrev Table := List (String × Value)

/-- A TOML parser: the table a text denotes, when it denotes one. -/
abbrev Parser := String → Option Table

def Table.get (t : Table) (key : String) : Option Value := t.lookup key

/-- `Map::insert` of an ordered map, whose entries are listed by their keys. -/
def Table.insert : Table → String → Value → Table
  | [], key, v => [(key, v)]
  | (k, w) :: t, key, v =>
    if key = k then (key, v) :: t
    else if key < k then (key, v) :: (k, w) :: t
    else (k, w) :: Table.insert t key v

theorem Table.get_cons (k' : String) (w : Value) (t : Table) (k : String) :
    Table.get ((k', w) :: t) k = if k = k' then some w else t.get k := by
  by_cases hk : k = k'
  · subst hk
    simp [Table.get]
  · have hne : (k == k') = false := beq_eq_false_iff_ne.mpr hk
    rw [Table.get, List.lookup_cons, hne, if_neg hk]
    rfl

theorem Table.get_insert (t : Table) (key : String) (v : Value) (k : String) :
    (t.insert key v).get k = if k = key then some v else t.get k := by
  induction t with
  | nil => exact Table.get_cons key v [] k
  | cons e t ih =>
    obtain ⟨k', w⟩ := e
    rw [Table.insert, Table.get_cons]
    split
    · rename_i hkey
      rw [Table.get_cons, ← hkey]
      split <;> rfl
    · rename_i hkey
      split
      · rw [Table.get_cons, Table.get_cons]
      · rw [Table.get_cons, ih]
        by_cases hk : k = key
        · rw [if_pos hk, if_pos hk, if_neg (hk ▸ hkey)]
        · rw [if_neg hk, if_neg hk]

theorem Table.mem_insert {t : Table} {key : String} {v : Value} {e : String × Value}
    (h : e ∈ t.insert key v) : e = (key, v) ∨ e ∈ t := by
  induction t with
  | nil => exact Or.inl (List.mem_singleton.mp h)
  | cons e' t ih =>
    rw [Table.insert] at h
    split at h
    · rcases List.mem_cons.mp h with hnew | hold
      · exact Or.inl hnew
      · exact Or.inr (List.mem_cons_of_mem _ hold)
    · split at h
      · exact List.mem_cons.mp h
      · rcases List.mem_cons.mp h with hhead | hrest
        · exact Or.inr (hhead ▸ List.mem_cons_self)
        · rcases ih hrest with hnew | hold
          · exact Or.inl hnew
          · exact Or.inr (List.mem_cons_of_mem _ hold)

/-- A key read with `#[serde(default = ..)]`: absent means the default, and a
value of the wrong type is an error. -/
def Table.getOr {α : Type} (t : Table) (key : String) (default : α) (read : Value → Option α) :
    Option α :=
  match t.get key with
  | none => some default
  | some v => read v

theorem Table.getOr_congr {α : Type} {t t' : Table} {key : String} (h : t.get key = t'.get key)
    (default : α) (read : Value → Option α) :
    t.getOr key default read = t'.getOr key default read := by
  rw [Table.getOr, Table.getOr, h]

def Table.require {α : Type} (t : Table) (key : String) (read : Value → Option α) : Option α :=
  (t.get key).bind read

namespace Value

def asString : Value → Option String
  | .string s => some s
  | _ => none

def asU32 : Value → Option UInt32
  | .integer i => if 0 ≤ i ∧ i < 2 ^ 32 then some (UInt32.ofNat i.toNat) else none
  | _ => none

def asArray {α : Type} (read : Value → Option α) : Value → Option (List α)
  | .array items => items.mapM read
  | _ => none

def asTable : Value → Option Table
  | .table entries => some entries
  | _ => none

/-- A fieldless variant, by its name in the text or as the only key of a table
that holds an empty table or an empty array. -/
def asVariant {α : Type} (variant : String → Option α) : Value → Option α
  | .string s => variant s
  | .table [(name, .table [])] => variant name
  | .table [(name, .array [])] => variant name
  | _ => none

/-- A record of one field, in a table under its key or as the first item of an array. -/
def asRecord {α : Type} (key : String) (read : Value → Option α) : Value → Option α
  | .table entries => Table.require entries key read
  | .array (item :: _) => read item
  | _ => none

def asMap {α : Type} (read : Value → Option α) : Value → Option (AList fun _ : String => α)
  | .table entries =>
    (entries.mapM fun e => (read e.2).map fun a => (⟨e.1, a⟩ : Sigma fun _ : String => α)).map
      List.toAList
  | _ => none

def asInteger : Value → Option Int
  | .integer i => some i
  | _ => none

def items : Value → Option (List Value)
  | .array items => some items
  | _ => none

/-- A map is read when all its values are. -/
theorem asMap_isSome {α : Type} {read : Value → Option α} {t : Table}
    (h : ∀ e ∈ t, (read e.2).isSome = true) : ∃ m, asMap read (.table t) = some m := by
  have hentries : ∃ es, t.mapM (fun e => (read e.2).map fun a =>
      (⟨e.1, a⟩ : Sigma fun _ : String => α)) = some es := by
    induction t with
    | nil => exact ⟨[], rfl⟩
    | cons e t ih =>
      obtain ⟨a, ha⟩ := Option.isSome_iff_exists.mp (h e List.mem_cons_self)
      obtain ⟨es, hes⟩ := ih fun e' he' => h e' (List.mem_cons_of_mem e he')
      refine ⟨⟨e.1, a⟩ :: es, ?_⟩
      rw [List.mapM_cons, ha, Option.map_some, hes]
      rfl
  obtain ⟨es, hes⟩ := hentries
  exact ⟨es.toAList, by rw [asMap, hes, Option.map_some]⟩

/-- What a map that was read has under a key. -/
theorem lookup_asMap {α : Type} {read : Value → Option α} {t : Table}
    {m : AList fun _ : String => α} (h : asMap read (.table t) = some m) (k : String) :
    (t.get k = none ∧ m.lookup k = none) ∨
      ∃ v a, t.get k = some v ∧ read v = some a ∧ m.lookup k = some a := by
  obtain ⟨es, hes, rfl⟩ := Option.map_eq_some_iff.mp h
  rw [AList.lookup_to_alist]
  clear h
  induction t generalizing es with
  | nil =>
    cases hes
    exact Or.inl ⟨rfl, rfl⟩
  | cons e t ih =>
    rw [List.mapM_cons] at hes
    obtain ⟨entry, hentry, hrest⟩ := Option.bind_eq_some_iff.mp hes
    obtain ⟨es', hes', hcons⟩ := Option.bind_eq_some_iff.mp hrest
    cases hcons
    obtain ⟨a, ha, rfl⟩ := Option.map_eq_some_iff.mp hentry
    have hget := Table.get_cons e.1 e.2 t k
    by_cases hk : k = e.1
    · subst hk
      rw [if_pos rfl] at hget
      exact Or.inr ⟨e.2, a, hget, ha, List.dlookup_cons_eq ..⟩
    · rw [if_neg hk] at hget
      rw [List.dlookup_cons_ne _ _ hk, hget]
      exact ih es' hes'

end Value

end Toml
end Konstantin
