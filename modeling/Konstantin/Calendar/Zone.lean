import Mathlib.Algebra.Group.Int.Defs
import Mathlib.Algebra.Group.Nat.Defs
import Mathlib.Data.List.Basic

/-!
# Time zones

A zone gives every instant an offset; the offset is constant between finitely
many transitions.  Instants and local times are counted in nanoseconds, and a
date is a number of days, so that the midnight of the date `d` is the local time
`d * day`.

Clocks show a local time at no instant (when they are put forward over it), at one,
or at several (when they are put back over it).  Which instants the crate `chrono`
tells for a local time is another matter: its resolution is a parameter here, and
need not name the earlier instant first, nor an instant at which the clocks show
that time.
-/

namespace Konstantin
namespace Calendar

/-- The length of a day without a transition. -/
def day : Int := 86400 * 10 ^ 9

/-- The offset before the first transition, and the transitions in order: the
instant of each and the offset from there on. -/
structure Zone where
  initial : Int
  transitions : List (Int × Int)
  sorted : transitions.Pairwise fun a b => a.1 < b.1

inductive LocalResult where
  | none
  | single (t : Int)
  | ambiguous (first second : Int)
  deriving DecidableEq

/-- The instant that is named first. -/
def LocalResult.first : LocalResult → Option Int
  | none => Option.none
  | single t => some t
  | ambiguous t _ => some t

/-- The zone of a machine, with `TimeZone::from_local_datetime`. -/
structure Local where
  zone : Zone
  fromLocalDatetime : Int → LocalResult

namespace Zone

def fixed (offset : Int) : Zone where
  initial := offset
  transitions := []
  sorted := List.Pairwise.nil

def offsets (z : Zone) : List Int := z.initial :: z.transitions.map Prod.snd

def offsetAt (z : Zone) (t : Int) : Int :=
  match (z.transitions.filter fun tr => tr.1 ≤ t).getLast? with
  | some tr => tr.2
  | none => z.initial

def toLocal (z : Zone) (t : Int) : Int := t + z.offsetAt t

/-- `DateTime::date_naive`. -/
def localDate (z : Zone) (t : Int) : Int := z.toLocal t / day

def instants (z : Zone) (l : Int) : List Int :=
  (z.offsets.map (l - ·)).filter fun t => z.toLocal t = l

def firstInstant (z : Zone) (l : Int) : Option Int := (z.instants l).min?

theorem offsetAt_mem_offsets (z : Zone) (t : Int) : z.offsetAt t ∈ z.offsets := by
  unfold offsetAt
  split
  · rename_i tr h
    have hmem := List.mem_of_mem_filter (List.mem_of_getLast? h)
    exact List.mem_cons_of_mem _ (List.mem_map_of_mem hmem)
  · exact List.mem_cons_self

theorem offsetAt_fixed (offset t : Int) : (fixed offset).offsetAt t = offset := rfl

theorem mem_instants {z : Zone} {l t : Int} : t ∈ z.instants l ↔ z.toLocal t = l := by
  rw [instants, List.mem_filter, decide_eq_true_eq, and_iff_right_iff_imp]
  intro h
  refine List.mem_map.mpr ⟨z.offsetAt t, z.offsetAt_mem_offsets t, ?_⟩
  rw [← h, toLocal]
  omega

theorem firstInstant_eq_some {z : Zone} {l t : Int} :
    z.firstInstant l = some t ↔ z.toLocal t = l ∧ ∀ s, z.toLocal s = l → t ≤ s := by
  have hmin : z.firstInstant l = some t ↔ t ∈ z.instants l ∧ ∀ s ∈ z.instants l, t ≤ s :=
    List.min?_eq_some_iff
  rw [hmin, mem_instants]
  exact and_congr_right fun _ => forall_congr' fun s => by rw [mem_instants]

theorem localDate_fixed (offset t : Int) : (fixed offset).localDate t = (t + offset) / day := rfl

end Zone

namespace Local

/-- A zone without transitions. -/
def fixed (offset : Int) : Local where
  zone := .fixed offset
  fromLocalDatetime l := .single (l - offset)

/-- A search through the transitions, given the offset before the first of them: the
first that the local time is not behind decides.  Where it puts the clocks back, the
later instant is named first. -/
def search (l : Int) : Int → List (Int × Int) → LocalResult
  | before, [] => .single (l - before)
  | before, (t, after) :: rest =>
    if max (t + before) (t + after) < l then search l after rest
    else if t + after ≤ l then
      if after < before then .ambiguous (l - after) (l - before) else .single (l - after)
    else if l ≤ t + before then .single (l - before)
    else .none

def ofZone (z : Zone) : Local where
  zone := z
  fromLocalDatetime l := search l z.initial z.transitions

end Local

end Calendar
end Konstantin
