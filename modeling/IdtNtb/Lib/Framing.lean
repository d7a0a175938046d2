import Mathlib.Data.List.Basic

/-! Blocks of a fixed size from a stream that arrives in chunks. A buffer keeps
what has arrived of the current block, and the block is handled when it is
complete. -/
namespace IdtNtb.Framing
variable {α S ε : Type}

def feed (size : Nat) (handle : S → List α → Except ε S) (st : List α × S) (chunk : List α) :
    Except ε (List α × S) :=
  if (st.1 ++ chunk).length < size then .ok (st.1 ++ chunk, st.2)
  else (handle st.2 (st.1 ++ chunk)).map fun s => ([], s)

/-- No chunk is longer than what the buffer, with `n` elements now, has left. -/
def Fits (size : Nat) : Nat → List (List α) → Prop
  | _, [] => True
  | n, chunk :: chunks =>
      n + chunk.length ≤ size ∧ Fits size (if n + chunk.length < size then n + chunk.length
        else 0) chunks

instance fits_decidable (size : Nat) : ∀ n (chunks : List (List α)), Decidable (Fits size n chunks)
  | _, [] => .isTrue trivial
  | n, chunk :: chunks =>
      have := fits_decidable size (if n + chunk.length < size then n + chunk.length else 0) chunks
      inferInstanceAs (Decidable (_ ∧ _))

def blocks (size : Nat) (stream : List α) : List (List α) :=
  (List.range (stream.length / size)).map fun i => (stream.drop (size * i)).take size

def remainder (size : Nat) (stream : List α) : List α :=
  stream.drop (size * (stream.length / size))

variable {size : Nat} {handle : S → List α → Except ε S} {buffer rest chunk stream more : List α}
  {chunks bs : List (List α)}

theorem feed_short (short : (buffer ++ chunk).length < size) (s : S) :
    feed size handle (buffer, s) chunk = .ok (buffer ++ chunk, s) :=
  if_pos short

theorem feed_full (full : size ≤ (buffer ++ chunk).length) (s : S) :
    feed size handle (buffer, s) chunk = (handle s (buffer ++ chunk)).map fun s => ([], s) :=
  if_neg (Nat.not_lt.mpr full)

theorem Fits.front {chunks more : List (List α)} (fits : Fits size n (chunks ++ more)) :
    Fits size n chunks := by
  induction chunks generalizing n with
  | nil => trivial
  | cons chunk chunks ih => exact ⟨fits.1, ih fits.2⟩

/-- However a stream of blocks is cut into chunks that fit, the blocks are handled
in order, and what is left stays in the buffer. -/
theorem feed_blocks (start : buffer.length < size) (fits : Fits size buffer.length chunks)
    (whole : buffer ++ chunks.flatten = bs.flatten ++ rest) (sizes : ∀ b ∈ bs, b.length = size)
    (short : rest.length < size) (s : S) :
    chunks.foldlM (feed size handle) (buffer, s) = (bs.foldlM handle s).map fun t => (rest, t) := by
  induction chunks generalizing buffer bs s with
  | nil =>
    rw [List.flatten_nil, List.append_nil] at whole
    cases bs with
    | nil =>
      obtain rfl : buffer = rest := whole
      rfl
    | cons block bs =>
      have length := congrArg List.length whole
      rw [List.flatten_cons, List.length_append, List.length_append, sizes block List.mem_cons_self]
        at length
      omega
  | cons chunk chunks ih =>
    obtain ⟨fit, later⟩ := fits
    rw [List.flatten_cons, ← List.append_assoc] at whole
    rw [List.foldlM_cons]
    by_cases more : (buffer ++ chunk).length < size
    · rw [feed_short more]
      rw [← List.length_append, if_pos more] at later
      exact ih more later whole sizes s
    · rw [← List.length_append] at fit later
      rw [if_neg more] at later
      have full : (buffer ++ chunk).length = size := by omega
      cases bs with
      | nil =>
        have length := congrArg List.length whole
        rw [List.flatten_nil, List.nil_append, List.length_append] at length
        omega
      | cons block bs =>
        have complete := sizes block List.mem_cons_self
        rw [List.flatten_cons, List.append_assoc block] at whole
        obtain ⟨rfl, remaining⟩ := List.append_inj whole (full.trans complete.symm)
        rw [feed_full (Nat.le_of_eq full.symm), List.foldlM_cons]
        have empty : ([] : List α).length < size := Nat.lt_of_le_of_lt (Nat.zero_le _) start
        cases handle s (buffer ++ chunk) with
        | error fault => rfl
        | ok t =>
          exact ih empty later remaining (fun b member => sizes b (List.mem_cons_of_mem _ member)) t

theorem block_inside (complete : i < stream.length / size) :
    size * i + size ≤ stream.length := by
  rw [← Nat.mul_succ]
  exact Nat.le_trans (Nat.mul_le_mul_left size complete) (Nat.mul_div_le ..)

theorem blocks_length (stream : List α) : ∀ b ∈ blocks size stream, b.length = size := by
  intro b member
  obtain ⟨i, inside, rfl⟩ := List.mem_map.mp member
  have whole := block_inside (List.mem_range.mp inside)
  rw [List.length_take, List.length_drop]
  omega

theorem blocks_flatten (size : Nat) (stream : List α) :
    (blocks size stream).flatten ++ remainder size stream = stream := by
  -- The first `n` blocks are the first `size * n` elements.
  have front : ∀ n, ((List.range n).map fun i => (stream.drop (size * i)).take size).flatten =
      stream.take (size * n) := by
    intro n
    induction n with
    | zero => simp
    | succ n ih =>
      rw [List.range_succ, List.map_append, List.flatten_append, ih, Nat.mul_succ, List.take_add]
      simp
  rw [blocks, front, remainder, List.take_append_drop]

theorem remainder_short (positive : 0 < size) (stream : List α) :
    (remainder size stream).length < size := by
  have division := Nat.div_add_mod stream.length size
  have short := Nat.mod_lt stream.length positive
  rw [remainder, List.length_drop]
  omega

/-- The blocks of a longer stream begin with those of its front. -/
theorem blocks_begin (size : Nat) (stream more : List α) :
    blocks size stream <+: blocks size (stream ++ more) := by
  have fewer : stream.length / size ≤ (stream ++ more).length / size := by
    rw [List.length_append]
    exact Nat.div_le_div_right (Nat.le_add_right ..)
  obtain ⟨k, total⟩ := Nat.exists_eq_add_of_le fewer
  have same : blocks size stream = (List.range (stream.length / size)).map fun i =>
      ((stream ++ more).drop (size * i)).take size := by
    refine List.map_congr_left ?_
    intro i inside
    have whole := block_inside (List.mem_range.mp inside)
    rw [List.drop_append_of_le_length (by omega), List.take_append_of_le_length]
    rw [List.length_drop]
    omega
  rw [same, blocks, total, List.range_add, List.map_append]
  exact List.prefix_append _ _

/-- A stream in chunks that fit is handled block by block. -/
theorem feed_stream (positive : 0 < size) (fits : Fits size 0 chunks) (s : S) :
    chunks.foldlM (feed size handle) ([], s) =
      ((blocks size chunks.flatten).foldlM handle s).map fun t =>
        (remainder size chunks.flatten, t) :=
  feed_blocks positive fits (blocks_flatten size chunks.flatten).symm (blocks_length _)
    (remainder_short positive _) s

end IdtNtb.Framing
