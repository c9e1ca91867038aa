import Mathlib.Data.List.Basic

/-!
# Buffered reading

A reader hands out its source buffer by buffer. What is read up to a stop, or up
to a limit, does not depend on how the source is cut into buffers.
-/

namespace Ezer.Lib

section

variable {α : Type*} [DecidableEq α] {stop : α}

/-- The items up to the first stop, the stop included. -/
def upTo (stop : α) : List α → List α
  | [] => []
  | a :: rest => if a = stop then [a] else a :: upTo stop rest

theorem upTo_append_of_not_mem {items : List α} (h : stop ∉ items) (rest : List α) :
    upTo stop (items ++ rest) = items ++ upTo stop rest := by
  induction items with
  | nil => rfl
  | cons a items ih =>
    obtain ⟨hne, hitems⟩ := List.ne_and_not_mem_of_not_mem_cons h
    rw [List.cons_append, upTo, if_neg (Ne.symm hne), ih hitems, List.cons_append]

theorem upTo_append_of_mem {items : List α} (h : stop ∈ items) (rest : List α) :
    upTo stop (items ++ rest) = upTo stop items := by
  induction items with
  | nil => simp at h
  | cons a items ih =>
    by_cases ha : a = stop
    · simp [upTo, ha]
    · have hitems : stop ∈ items := by simpa [Ne.symm ha] using h
      simp [upTo, ha, ih hitems]

theorem upTo_of_not_mem {items : List α} (h : stop ∉ items) : upTo stop items = items := by
  simpa [upTo] using upTo_append_of_not_mem h []

theorem upTo_append_stop {items : List α} (h : stop ∉ items) (rest : List α) :
    upTo stop (items ++ stop :: rest) = items ++ [stop] := by
  rw [upTo_append_of_not_mem h]
  simp [upTo]

theorem upTo_isPrefix (stop : α) (items : List α) : upTo stop items <+: items := by
  induction items with
  | nil => exact List.prefix_refl []
  | cons a items ih =>
    rw [upTo]
    split
    · exact ⟨items, rfl⟩
    · exact List.prefix_cons_inj a |>.mpr ih

/-- A source is a first line and what stands behind its stop, or a single line. -/
theorem exists_first_line (stop : α) (source : List α) :
    stop ∉ source ∨ ∃ line rest, stop ∉ line ∧ source = line ++ stop :: rest := by
  by_cases h : stop ∈ source
  · obtain ⟨line, rest, rfl, hline⟩ := List.eq_append_cons_of_mem h
    exact Or.inr ⟨line, rest, hline, rfl⟩
  · exact Or.inl h

end

/-- A reader: the buffers it hands out. An empty one would be the end of the source. -/
structure BufReader (α : Type*) where
  buffers : List (List α)
  nonempty : [] ∉ buffers

namespace BufReader

variable {α : Type*}

/-- What a reader has not handed out yet. -/
def rest (reader : BufReader α) : List α := reader.buffers.flatten

/-- A reader that hands out a source at once. -/
def ofSource (source : List α) : BufReader α where
  buffers := if source = [] then [] else [source]
  nonempty := by
    split
    · simp
    · rename_i h
      simpa using Ne.symm h

@[simp] theorem rest_ofSource (source : List α) : (ofSource source).rest = source := by
  rw [rest, ofSource]
  split
  · rename_i h
    simp [h]
  · simp

/-- Take some items off the first buffer. -/
def consume (amount : ℕ) : List (List α) → List (List α)
  | [] => []
  | buffer :: buffers =>
    if amount < buffer.length then buffer.drop amount :: buffers else buffers

theorem nil_not_mem_consume {buffers : List (List α)} (h : [] ∉ buffers) (amount : ℕ) :
    [] ∉ consume amount buffers := by
  cases buffers with
  | nil => exact h
  | cons buffer buffers =>
    rw [consume]
    split
    · rename_i hlt
      rw [List.mem_cons, not_or] at h ⊢
      refine ⟨fun hnil => ?_, h.2⟩
      have hlength := congrArg List.length hnil
      rw [List.length_nil, List.length_drop] at hlength
      omega
    · exact fun hmem => h (List.mem_cons_of_mem buffer hmem)

theorem flatten_consume {used buffer : List α} (h : used <+: buffer) (buffers : List (List α)) :
    used ++ (consume used.length (buffer :: buffers)).flatten = (buffer :: buffers).flatten := by
  obtain ⟨more, rfl⟩ := h
  rw [consume]
  split
  · simp
  · rename_i hge
    have hmore : more = [] := by
      rw [← List.length_eq_zero_iff]
      rw [List.length_append] at hge
      omega
    simp [hmore]

section

variable [DecidableEq α] (stop : α)

/-- Read up to a stop from buffers, at most so many items. -/
def readBuffers : ℕ → List (List α) → List α × List (List α)
  | _, [] => ([], [])
  | limit, buffer :: buffers =>
    let available := buffer.take limit
    if stop ∈ available then
      let used := upTo stop available
      (used, consume used.length (buffer :: buffers))
    else if limit < buffer.length then (available, consume available.length (buffer :: buffers))
    else
      let (more, buffers) := readBuffers (limit - buffer.length) buffers
      (buffer ++ more, buffers)

theorem nil_not_mem_readBuffers {buffers : List (List α)} (h : [] ∉ buffers) (limit : ℕ) :
    [] ∉ (readBuffers stop limit buffers).2 := by
  induction buffers generalizing limit with
  | nil => exact h
  | cons buffer buffers ih =>
    rw [readBuffers]
    split
    · exact nil_not_mem_consume h _
    · split
      · exact nil_not_mem_consume h _
      · exact ih (fun hmem => h (List.mem_cons_of_mem buffer hmem)) _

/-- Read up to a stop, at most so many items. -/
def readUntil (reader : BufReader α) (limit : ℕ) : List α × BufReader α :=
  ((readBuffers stop limit reader.buffers).1,
    ⟨(readBuffers stop limit reader.buffers).2, nil_not_mem_readBuffers stop reader.nonempty limit⟩)

theorem readBuffers_spec (limit : ℕ) (buffers : List (List α)) :
    (readBuffers stop limit buffers).1 = upTo stop (buffers.flatten.take limit) ∧
      (readBuffers stop limit buffers).1 ++ (readBuffers stop limit buffers).2.flatten =
        buffers.flatten := by
  induction buffers generalizing limit with
  | nil => simp [readBuffers, upTo]
  | cons buffer buffers ih =>
    rw [readBuffers, List.flatten_cons, List.take_append]
    split
    case isTrue hmem =>
      have hused := (upTo_isPrefix stop (buffer.take limit)).trans
        (List.take_prefix limit buffer)
      exact ⟨(upTo_append_of_mem hmem _).symm, flatten_consume hused buffers⟩
    case isFalse hmem =>
      rw [upTo_append_of_not_mem hmem]
      split
      case isTrue hlt =>
        refine ⟨?_, flatten_consume (List.take_prefix limit buffer) buffers⟩
        rw [Nat.sub_eq_zero_of_le (Nat.le_of_lt hlt), List.take_zero, upTo, List.append_nil]
      case isFalse hle =>
        obtain ⟨hread, hrest⟩ := ih (limit - buffer.length)
        rw [List.take_of_length_le (Nat.not_lt.mp hle)]
        refine ⟨congrArg (buffer ++ ·) hread, ?_⟩
        rw [List.append_assoc, hrest]

/-- What is read does not depend on the buffers. -/
theorem readUntil_fst (reader : BufReader α) (limit : ℕ) :
    (reader.readUntil stop limit).1 = upTo stop (reader.rest.take limit) :=
  (readBuffers_spec stop limit reader.buffers).1

theorem readUntil_append_rest (reader : BufReader α) (limit : ℕ) :
    (reader.readUntil stop limit).1 ++ (reader.readUntil stop limit).2.rest = reader.rest :=
  (readBuffers_spec stop limit reader.buffers).2

variable {stop} {reader : BufReader α} {line tail : List α} {limit : ℕ}

/-- What is read, and what is left then. -/
theorem exists_readUntil {used more : List α}
    (hused : upTo stop (reader.rest.take limit) = used) (hmore : reader.rest = used ++ more) :
    ∃ next : BufReader α, next.rest = more ∧ reader.readUntil stop limit = (used, next) := by
  have hread := (readUntil_fst stop reader limit).trans hused
  refine ⟨(reader.readUntil stop limit).2, ?_, Prod.ext hread rfl⟩
  have happend := readUntil_append_rest stop reader limit
  rw [hread, hmore] at happend
  exact List.append_cancel_left happend

/-- A line within the limit is read with its stop. -/
theorem readUntil_line {more : List α} (hline : stop ∉ line)
    (hrest : reader.rest = line ++ stop :: more) (hlimit : line.length < limit) :
    ∃ next : BufReader α, next.rest = more ∧
      reader.readUntil stop limit = (line ++ [stop], next) := by
  apply exists_readUntil
  · obtain ⟨rest, rfl⟩ := Nat.exists_eq_add_of_lt hlimit
    rw [hrest, Nat.add_assoc, List.take_length_add_append, List.take_succ_cons,
      upTo_append_stop hline]
  · rw [hrest, ← List.append_cons]

/-- Of a longer line, or one without a stop, as much is read as the limit says. -/
theorem readUntil_part (hline : stop ∉ line) (hrest : reader.rest = line ++ tail)
    (hlimit : limit ≤ line.length ∨ tail = []) :
    ∃ next : BufReader α, next.rest = line.drop limit ++ tail ∧
      reader.readUntil stop limit = (line.take limit, next) := by
  have htake : (line ++ tail).take limit = line.take limit := by
    rcases hlimit with hlimit | rfl
    · exact List.take_append_of_le_length hlimit
    · rw [List.append_nil]
  apply exists_readUntil
  · rw [hrest, htake, upTo_of_not_mem fun hmem => hline (List.mem_of_mem_take hmem)]
  · rw [hrest, ← List.append_assoc, List.take_append_drop]

end

end BufReader

end Ezer.Lib
