import Mathlib.Algebra.Group.Int.Defs
import Mathlib.Algebra.Group.Nat.Defs

/-!
# JSON documents

The values a JSON text denotes, and the reads a derived deserializer makes of
them.  The members of an object are listed as they stand in the text, with
repeated names.  A record is read from an object by the names of its fields, or
from an array by their order.
-/

namespace Konstantin
namespace Json

inductive Value where
  | null
  | boolean (b : Bool)
  | unsigned (n : Nat)
  | number (text : String)
  | string (s : String)
  | array (items : List Value)
  | object (members : List (String × Value))

/-- A JSON printer and parser. -/
structure Codec where
  print : Value → String
  parse : String → Option Value

/-- The value is read back from its text, and the text has no NUL in it. -/
def Codec.Faithful (codec : Codec) (v : Value) : Prop :=
  codec.parse (codec.print v) = some v ∧ '\x00' ∉ (codec.print v).toList

/-- The member of a name, when there is exactly one. -/
def member (members : List (String × Value)) (name : String) : Option Value :=
  match members.filter fun m => m.1 == name with
  | [m] => some m.2
  | _ => none

/-- The member of a name that may be left out. -/
def memberOr (members : List (String × Value)) (name : String) (default : Value) : Option Value :=
  match members.filter fun m => m.1 == name with
  | [] => some default
  | [m] => some m.2
  | _ => none

namespace Value

def asString : Value → Option String
  | .string s => some s
  | _ => none

def asBool : Value → Option Bool
  | .boolean b => some b
  | _ => none

def asU64 : Value → Option UInt64
  | .unsigned n => if n < 2 ^ 64 then some (UInt64.ofNat n) else none
  | _ => none

/-- The fields of a record.  Members of other names are ignored. -/
def record (names : List String) : Value → Option (List Value)
  | .object members => names.mapM (member members)
  | .array items => if items.length = names.length then some items else none
  | _ => none

def asArray {α : Type} (item : Value → Option α) : Value → Option (List α)
  | .array items => items.mapM item
  | _ => none

/-- The fields of a record whose last one may be left out. -/
def recordDefault (names : List String) (last : String) : Value → Value → Option (List Value)
  | .object members, default => do
    let fields ← names.mapM (member members)
    match members.filter fun m => m.1 == last with
    | [] => return fields ++ [default]
    | [m] => return fields ++ [m.2]
    | _ => none
  | .array items, default =>
    if items.length = names.length + 1 then some items
    else if items.length = names.length then some (items ++ [default])
    else none
  | _, _ => none

/-- The variant of an internally tagged enum, and the value its fields are read
from. -/
def tagged (tag : String) : Value → Option (String × Value)
  | .object members => ((member members tag).bind asString).map fun kind =>
      (kind, .object (members.filter fun m => m.1 != tag))
  | .array (.string kind :: items) => some (kind, .array items)
  | _ => none

/-- How a variant of an internally tagged enum is written. -/
def variant (tag kind : String) (members : List (String × Value)) : Value :=
  .object ((tag, .string kind) :: members)

end Value

theorem asU64_unsigned (n : UInt64) : (Value.unsigned n.toNat).asU64 = some n := by
  rw [Value.asU64, if_pos n.toNat_lt, UInt64.ofNat_toNat]

/-! ## Objects that are read alike -/

/-- The members of these names are the same and in the same order; there may be other
members anywhere. -/
def Agree (names : List String) (ms ms' : List (String × Value)) : Prop :=
  ∀ name ∈ names, (ms.filter fun m => m.1 == name) = ms'.filter fun m => m.1 == name

section

variable {names : List String} {ms ms' : List (String × Value)}

theorem Agree.mono {some : List String} (h : Agree names ms ms') (hsub : some ⊆ names) :
    Agree some ms ms' := fun name hname => h name (hsub hname)

/-- A member of another name does not matter. -/
theorem agree_insert (before after : List (String × Value)) {m : String × Value}
    (hm : m.1 ∉ names) : Agree names (before ++ after) (before ++ m :: after) := by
  intro name hname
  have hne : (m.1 == name) = false := beq_eq_false_iff_ne.mpr fun heq => hm (heq ▸ hname)
  rw [List.filter_append, List.filter_append, List.filter_cons_of_neg (by simp [hne])]

/-- Members of two names may stand in either order. -/
theorem agree_swap (before after : List (String × Value)) {m n : String × Value}
    (hne : m.1 ≠ n.1) : Agree names (before ++ m :: n :: after) (before ++ n :: m :: after) := by
  intro name _
  simp only [List.filter_append, List.filter_cons]
  by_cases hm : m.1 = name
  · have hn : ¬ n.1 = name := fun heq => hne (hm.trans heq.symm)
    simp [hm, hn]
  · simp [hm]

/-- Without the tag the rest still agrees. -/
theorem Agree.without (h : Agree names ms ms') (tag : String) :
    Agree names (ms.filter fun m => m.1 != tag) (ms'.filter fun m => m.1 != tag) := by
  intro name hname
  have hcomm : ∀ l : List (String × Value), ((l.filter fun m => m.1 != tag).filter fun m =>
      m.1 == name) = (l.filter fun m => m.1 == name).filter fun m => m.1 != tag := by
    intro l
    rw [List.filter_filter, List.filter_filter]
    exact List.filter_congr fun m _ => Bool.and_comm _ _
  rw [hcomm, h name hname, hcomm]

theorem member_agree (h : Agree names ms ms') {name : String} (hname : name ∈ names) :
    member ms name = member ms' name := by
  rw [member, h name hname, member]

theorem memberOr_agree (h : Agree names ms ms') {name : String} (hname : name ∈ names)
    (default : Value) : memberOr ms name default = memberOr ms' name default := by
  rw [memberOr, h name hname, memberOr]

theorem mapM_member_agree (h : Agree names ms ms') :
    names.mapM (member ms) = names.mapM (member ms') := by
  induction names with
  | nil => rfl
  | cons name names ih =>
    rw [List.mapM_cons, List.mapM_cons, member_agree h List.mem_cons_self,
      ih (h.mono (List.subset_cons_self name names))]

namespace Value

theorem record_agree (h : Agree names ms ms') :
    record names (.object ms) = record names (.object ms') := mapM_member_agree h

theorem recordDefault_agree {last : String} (h : Agree (names ++ [last]) ms ms')
    (default : Value) :
    recordDefault names last (.object ms) default =
      recordDefault names last (.object ms') default := by
  have hnames : names ⊆ names ++ [last] := List.subset_append_left names [last]
  rw [recordDefault, recordDefault, mapM_member_agree (h.mono hnames),
    h last (List.mem_append_right names (List.mem_singleton_self last))]

/-- The variant is the same, and its fields agree. -/
theorem tagged_agree {tag : String} (h : Agree names ms ms') (htag : tag ∈ names) :
    tagged tag (.object ms) = tagged tag (.object ms') ∨
      ∃ kind, tagged tag (.object ms) = some (kind, .object (ms.filter fun m => m.1 != tag)) ∧
        tagged tag (.object ms') = some (kind, .object (ms'.filter fun m => m.1 != tag)) := by
  unfold tagged
  dsimp only
  rw [member_agree h htag]
  cases (member ms' tag).bind asString with
  | none => exact Or.inl rfl
  | some kind => exact Or.inr ⟨kind, rfl, rfl⟩

end Value

end

end Json
end Konstantin
