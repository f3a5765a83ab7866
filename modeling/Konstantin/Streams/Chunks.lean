import Mathlib.Data.List.Basic

/-!
# Reading exactly so many items from a stream in chunks

A stream hands out its items in chunks, each of them at least one item long.  A
read asks for a number of items and goes on over as many chunks as it needs; a
chunk that is longer is cut.  `readExact_bytes` says that the cutting does not
show in the result.
-/

namespace Konstantin
namespace Streams

/-- One answer of the stream; an empty answer would be its end. -/
structure Chunk (β : Type) where
  items : List β
  nonempty : items ≠ []

abbrev Chunks (β : Type) : Type := List (Chunk β)

namespace Chunks

variable {β : Type}

def bytes (cs : Chunks β) : List β := (cs.map Chunk.items).flatten

/-- One chunk for each item. -/
def ofBytes (bs : List β) : Chunks β := bs.map fun b => ⟨[b], List.cons_ne_nil b []⟩

/-- The rest of a chunk of which the first `n` items were taken. -/
def rest (c : Chunk β) (n : Nat) (h : n < c.items.length) : Chunk β where
  items := c.items.drop n
  nonempty := by
    rw [ne_eq, List.drop_eq_nil_iff]
    omega

/-- `read_exact`: the first `n` items and what is left, or `none` when the stream
ends before them.  The items that were taken by then are gone. -/
def readExact : Nat → Chunks β → Option (List β) × Chunks β
  | 0, cs => (some [], cs)
  | _ + 1, [] => (none, [])
  | n + 1, c :: cs =>
    if h : n + 1 < c.items.length then (some (c.items.take (n + 1)), rest c (n + 1) h :: cs)
    else
      let r := readExact (n + 1 - c.items.length) cs
      (r.1.map (c.items ++ ·), r.2)

theorem bytes_cons (c : Chunk β) (cs : Chunks β) : bytes (c :: cs) = c.items ++ bytes cs := rfl

theorem bytes_ofBytes (bs : List β) : (ofBytes bs).bytes = bs := by
  induction bs with
  | nil => rfl
  | cons b bs ih =>
    show [b] ++ (ofBytes bs).bytes = b :: bs
    rw [ih]
    rfl

theorem eq_nil_of_bytes {cs : Chunks β} (h : cs.bytes = []) : cs = [] := by
  cases cs with
  | nil => rfl
  | cons c cs =>
    rw [bytes_cons, List.append_eq_nil_iff] at h
    exact absurd h.1 c.nonempty

/-- A read that the stream can fill takes the first `n` items. -/
theorem readExact_bytes {n : Nat} {cs : Chunks β} (h : n ≤ cs.bytes.length) :
    (readExact n cs).1 = some (cs.bytes.take n) ∧ (readExact n cs).2.bytes = cs.bytes.drop n := by
  induction cs generalizing n with
  | nil =>
    have hn : n = 0 := Nat.le_zero.mp h
    subst hn
    exact ⟨rfl, rfl⟩
  | cons c cs ih =>
    cases n with
    | zero => exact ⟨rfl, rfl⟩
    | succ n =>
      rw [readExact, bytes_cons]
      rw [bytes_cons, List.length_append] at h
      by_cases hlt : n + 1 < c.items.length
      · rw [dif_pos hlt, List.take_append_of_le_length (Nat.le_of_lt hlt),
          List.drop_append_of_le_length (Nat.le_of_lt hlt)]
        exact ⟨rfl, rfl⟩
      · obtain ⟨htake, hdrop⟩ := ih (n := n + 1 - c.items.length) (by omega)
        rw [dif_neg hlt, List.take_append, List.drop_append,
          List.take_of_length_le (by omega), List.drop_eq_nil_of_le (by omega)]
        simp only [htake, hdrop, Option.map_some, List.nil_append]
        exact ⟨trivial, trivial⟩

/-- A read that the stream cannot fill takes everything. -/
theorem readExact_short {n : Nat} {cs : Chunks β} (h : cs.bytes.length < n) :
    readExact n cs = (none, []) := by
  induction cs generalizing n with
  | nil =>
    cases n with
    | zero => cases h
    | succ n => rfl
  | cons c cs ih =>
    cases n with
    | zero => cases h
    | succ n =>
      rw [bytes_cons, List.length_append] at h
      rw [readExact, dif_neg (by omega), ih (by omega)]
      rfl

/-- What was read and what is left make up the stream. -/
theorem readExact_eq_some {n : Nat} {cs rest : Chunks β} {got : List β}
    (h : readExact n cs = (some got, rest)) : got.length = n ∧ cs.bytes = got ++ rest.bytes := by
  by_cases hlong : n ≤ cs.bytes.length
  · obtain ⟨htake, hdrop⟩ := readExact_bytes hlong
    rw [h] at htake hdrop
    cases htake
    refine ⟨by rw [List.length_take]; omega, ?_⟩
    rw [hdrop, List.take_append_drop]
  · rw [readExact_short (Nat.lt_of_not_le hlong)] at h
    cases h

/-- A stream that goes on for `got` and then `tail` is read that way. -/
theorem readExact_append {cs : Chunks β} {got tail : List β} (h : cs.bytes = got ++ tail) :
    ∃ rest, readExact got.length cs = (some got, rest) ∧ rest.bytes = tail := by
  have hlong : got.length ≤ cs.bytes.length := by
    rw [h, List.length_append]
    omega
  obtain ⟨htake, hdrop⟩ := readExact_bytes hlong
  rw [h, List.take_left' rfl] at htake
  rw [h, List.drop_left' rfl] at hdrop
  exact ⟨(readExact got.length cs).2, Prod.ext htake rfl, hdrop⟩

end Chunks

/-! ## A stream that is cut off -/

/-- How many of the pieces lie wholly in the first `cut` items, and how many items of
the next piece do. -/
def cutAt {β : Type} : List (List β) → Nat → Nat × Nat
  | [], _ => (0, 0)
  | piece :: pieces, cut =>
    if piece.length ≤ cut then
      let r := cutAt pieces (cut - piece.length)
      (r.1 + 1, r.2)
    else (0, cut)

theorem cutAt_whole {β : Type} {piece : List β} {cut : Nat} (h : piece.length ≤ cut)
    (pieces : List (List β)) :
    cutAt (piece :: pieces) cut =
      ((cutAt pieces (cut - piece.length)).1 + 1, (cutAt pieces (cut - piece.length)).2) := by
  rw [cutAt, if_pos h]

theorem cutAt_inside {β : Type} {piece : List β} {cut : Nat} (h : cut < piece.length)
    (pieces : List (List β)) : cutAt (piece :: pieces) cut = (0, cut) := by
  rw [cutAt, if_neg (Nat.not_le.mpr h)]

theorem cutAt_le {β : Type} (pieces : List (List β)) (cut : Nat) :
    (cutAt pieces cut).1 ≤ pieces.length := by
  induction pieces generalizing cut with
  | nil => exact Nat.le_refl 0
  | cons piece pieces ih =>
    rw [cutAt, List.length_cons]
    split
    · exact Nat.succ_le_succ (ih _)
    · exact Nat.zero_le _

/-! ## The same read, as a task that waits

The task keeps what it has read so far, and takes what is at hand each time it is
polled. -/

/-- `none` when the task waits for more. -/
def fill {β : Type} (n : Nat) (got avail : List β) : Option (List β) × List β :=
  if n ≤ got.length + avail.length then
    (some (got ++ avail.take (n - got.length)), avail.drop (n - got.length))
  else (none, [])

theorem fill_enough {β : Type} {n : Nat} {got avail read rest : List β} (hgot : got.length ≤ n)
    (hread : read.length = n) (h : got ++ avail = read ++ rest) :
    fill n got avail = (some read, rest) := by
  have hlong : n ≤ got.length + avail.length := by
    rw [← List.length_append, h, List.length_append]
    omega
  have htake : got ++ avail.take (n - got.length) = read := by
    have hfirst : (got ++ avail).take n = read := by
      rw [h, List.take_left' hread]
    rw [List.take_append, List.take_of_length_le hgot] at hfirst
    exact hfirst
  have hdrop : avail.drop (n - got.length) = rest := by
    have hsecond : (got ++ avail).drop n = rest := by
      rw [h, List.drop_left' hread]
    rw [List.drop_append, List.drop_eq_nil_of_le hgot, List.nil_append] at hsecond
    exact hsecond
  rw [fill, if_pos hlong, htake, hdrop]

theorem fill_short {β : Type} {n : Nat} {got avail : List β}
    (h : got.length + avail.length < n) : fill n got avail = (none, []) :=
  if_neg (by omega)

/-- A read of a whole stream is a task polled once with everything at hand. -/
theorem readExact_fill {β : Type} (n : Nat) (cs : Chunks β) :
    (Chunks.readExact n cs).1 = (fill n [] cs.bytes).1 ∧
      (Chunks.readExact n cs).2.bytes = (fill n [] cs.bytes).2 := by
  by_cases h : n ≤ cs.bytes.length
  · obtain ⟨htake, hdrop⟩ := Chunks.readExact_bytes h
    have hread : (cs.bytes.take n).length = n := by
      rw [List.length_take]
      omega
    have hsplit : [] ++ cs.bytes = cs.bytes.take n ++ cs.bytes.drop n := by
      rw [List.nil_append, List.take_append_drop]
    rw [htake, hdrop, fill_enough (Nat.zero_le n) hread hsplit]
    exact ⟨rfl, rfl⟩
  · rw [Chunks.readExact_short (Nat.lt_of_not_le h), fill_short (by rw [List.length_nil]; omega)]
    exact ⟨rfl, rfl⟩

end Streams
end Konstantin
