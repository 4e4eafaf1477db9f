import Mathlib.Logic.Function.Basic

/-!
# Buffered streams

Several streams write to one sink, each through a buffer of its own. A buffer is a queue: it
hands its items on in the order in which it took them. When a stream is written to, some items
leave its buffer for the sink; how many may depend on everything that was written before
(`Draining`), so that buffers of all sizes and habits are covered. A flush empties a buffer.

The log records the writes in their order, each with what the buffers held before it. The sink
has received the items in the order of the log, but for the buffer of one stream, when no write
found something in the buffer of another stream (`InOrder`). Flushing keeps this, and so does
writing while the other buffers are empty (`InOrder.flush`, `InOrder.append`).
-/

set_option autoImplicit false

namespace Determinant.Foundations

variable {ι β : Type} [DecidableEq ι]

/-- A write to a stream, with what the buffers held before it. -/
structure StreamWrite (ι β : Type) where
  stream : ι
  items : List β
  before : ι → List β

/-- How many items leave the buffer at a write, from the log that ends with it. -/
abbrev Draining (ι β : Type) := List (StreamWrite ι β) → Nat

/-- Streams with buffers over one sink, and the log of all writes to them. -/
@[ext]
structure Streams (ι β : Type) where
  sink : List β := []
  buffer : ι → List β := fun _ => []
  log : List (StreamWrite ι β) := []

namespace Streams

variable (draining : Draining ι β)

/-- Write to a stream. -/
def append (i : ι) (items : List β) (t : Streams ι β) : Streams ι β :=
  let log := t.log ++ [⟨i, items, t.buffer⟩]
  let held := t.buffer i ++ items
  let k := draining log
  { sink := t.sink ++ held.take k, buffer := Function.update t.buffer i (held.drop k), log }

/-- Empty the buffer of a stream. -/
def flush (i : ι) (t : Streams ι β) : Streams ι β :=
  { t with sink := t.sink ++ t.buffer i, buffer := Function.update t.buffer i [] }

/-- Everything that was written to a stream. -/
def written (t : Streams ι β) (i : ι) : List β :=
  (t.log.filter (·.stream = i)).flatMap StreamWrite.items

/-- Everything that was written, in its order. -/
def output (t : Streams ι β) : List β := t.log.flatMap StreamWrite.items

/-- The buffers of all other streams are empty. -/
def Alone (t : Streams ι β) (i : ι) : Prop := ∀ j, j ≠ i → t.buffer j = []

/-- No write found anything in the buffer of another stream, and but for the buffer of one
stream the sink has received everything in order. -/
structure InOrder (t : Streams ι β) : Prop where
  alone : ∀ w ∈ t.log, ∀ j, j ≠ w.stream → w.before j = []
  received : ∃ i, t.Alone i ∧ t.sink ++ t.buffer i = t.log.flatMap StreamWrite.items

variable {t : Streams ι β} {draining : Draining ι β}

/-! ## What was written -/

@[simp] theorem written_flush (i j : ι) : (t.flush i).written j = t.written j := rfl

theorem written_append_same (i : ι) (items : List β) :
    (t.append draining i items).written i = t.written i ++ items := by
  simp [written, append]

theorem written_append_other {i j : ι} (other : i ≠ j) (items : List β) :
    (t.append draining i items).written j = t.written j := by
  simp [written, append, other]

@[simp] theorem output_flush (i : ι) : (t.flush i).output = t.output := rfl

@[simp] theorem output_append (i : ι) (items : List β) :
    (t.append draining i items).output = t.output ++ items := by
  simp [output, append]

/-! ## Order -/

@[simp] theorem flush_buffer_same (i : ι) : (t.flush i).buffer i = [] := Function.update_self ..

theorem flush_buffer_other {i j : ι} (other : j ≠ i) : (t.flush i).buffer j = t.buffer j :=
  Function.update_of_ne other ..

/-- A flush leaves an empty buffer empty. -/
theorem flush_buffer_empty {i j : ι} (empty : t.buffer j = []) : (t.flush i).buffer j = [] := by
  by_cases same : j = i
  · rw [same, flush_buffer_same]
  · rw [flush_buffer_other same, empty]

/-- After a flush of all other streams, a stream is alone. -/
theorem alone_flush {i j : ι} (others : ∀ k, k ≠ j → k = i) : (t.flush i).Alone j :=
  fun k other => by rw [others k other, flush_buffer_same]

theorem Alone.flush {i : ι} (alone : t.Alone i) (j : ι) : (t.flush j).Alone i :=
  fun k other => flush_buffer_empty (alone k other)

theorem Alone.append {i : ι} (alone : t.Alone i) (items : List β) :
    (t.append draining i items).Alone i := fun j other => by
  rw [← alone j other]
  exact Function.update_of_ne other ..

omit [DecidableEq ι] in
theorem inOrder_new [Inhabited ι] : (({} : Streams ι β)).InOrder :=
  ⟨fun _ listed => absurd listed (List.not_mem_nil), default, fun _ _ => rfl, rfl⟩

theorem InOrder.flush (ordered : t.InOrder) (i : ι) : (t.flush i).InOrder := by
  obtain ⟨alone, last, others, received⟩ := ordered
  refine ⟨alone, last, others.flush i, ?_⟩
  by_cases same : last = i
  · subst same
    rw [flush_buffer_same, List.append_nil]
    exact received
  · -- The buffer that is flushed is empty already.
    have empty : t.buffer i = [] := others i (Ne.symm same)
    rw [flush_buffer_other same]
    simpa [Streams.flush, empty] using received

/-- **Writing while the other buffers are empty keeps the order.** -/
theorem InOrder.append (ordered : t.InOrder) {i : ι} (alone : t.Alone i) (items : List β) :
    (t.append draining i items).InOrder := by
  obtain ⟨earlier, last, others, received⟩ := ordered
  have sofar : t.sink ++ t.buffer i = t.log.flatMap StreamWrite.items := by
    rw [← received]
    by_cases same : last = i
    · rw [same]
    · rw [alone last same, others i (Ne.symm same)]
  refine ⟨?_, i, alone.append items, ?_⟩
  · intro w listed j other
    rcases List.mem_append.1 listed with old | new
    · exact earlier w old j other
    · cases List.mem_singleton.1 new
      exact alone j other
  · simp only [Streams.append, Function.update_self, List.append_assoc, List.take_append_drop,
      List.flatMap_append, ← sofar]
    simp

omit [DecidableEq ι] in
/-- **When all buffers are empty the sink has received everything in order.** -/
theorem InOrder.sink_eq (ordered : t.InOrder) (empty : ∀ i, t.buffer i = []) :
    t.sink = t.log.flatMap StreamWrite.items := by
  obtain ⟨_, last, _, received⟩ := ordered
  rwa [empty last, List.append_nil] at received

end Streams

end Determinant.Foundations
