import Mathlib.Data.List.Basic

/-! Messages of one size over a stream, which moves in pieces of any length. -/
namespace Framing
open List

/-- `rest` is what the sender has left of its message, and `got` what the receiver has of its own. -/
structure Pipe (α : Type*) where
  rest : List α := []
  stream : List α := []
  got : List α := []
  sent : List (List α) := []
  received : List (List α) := []

namespace Pipe
variable {α : Type*} (p : Pipe α)

def start (message : List α) : Pipe α := { p with rest := message, sent := p.sent ++ [message] }

def send (n : Nat) : Pipe α := { p with rest := p.rest.drop n, stream := p.stream ++ p.rest.take n }

/-- Not more is taken than belongs to the message, which is returned when it is complete. -/
def recv (size n : Nat) : Pipe α × Option (List α) :=
  let k := min n (size - p.got.length)
  let got := p.got ++ p.stream.take k
  if got.length = size then
    ({ p with stream := p.stream.drop k, got := [], received := p.received ++ [got] }, some got)
  else ({ p with stream := p.stream.drop k, got }, none)

structure Whole (size : Nat) (p : Pipe α) : Prop where
  stream : p.sent.flatten = p.received.flatten ++ (p.got ++ (p.stream ++ p.rest))
  sent : ∀ m ∈ p.sent, m.length = size
  received : ∀ m ∈ p.received, m.length = size

variable {p} {size : Nat}

theorem recv_frame (size n : Nat) : (p.recv size n).1.rest = p.rest ∧ (p.recv size n).1.sent = p.sent ∧
    (p.recv size n).1.received = p.received ++ (p.recv size n).2.toList := by
  rw [recv]
  split
  · exact ⟨rfl, rfl, rfl⟩
  · exact ⟨rfl, rfl, (append_nil _).symm⟩

namespace Whole
variable (h : p.Whole size)
include h

theorem start (done : p.rest = []) {message : List α} (whole : message.length = size) :
    (p.start message).Whole size := by
  refine ⟨?_, ?_, h.received⟩
  · simp [Pipe.start, h.stream, done]
  · simpa [Pipe.start, or_imp, forall_and, whole] using h.sent

theorem send (n : Nat) : (p.send n).Whole size := by
  refine ⟨?_, h.sent, h.received⟩
  simp [Pipe.send, h.stream]

theorem recv (n : Nat) : (p.recv size n).1.Whole size := by
  have split (k : Nat) : p.stream.take k ++ (p.stream.drop k ++ p.rest) = p.stream ++ p.rest := by
    rw [← append_assoc, take_append_drop]
  rw [Pipe.recv]
  split_ifs with complete
  · refine ⟨?_, h.sent, ?_⟩
    · simp only [h.stream, flatten_append, flatten_singleton, append_assoc, nil_append, split]
    · simpa only [forall_mem_append, forall_mem_singleton] using ⟨h.received, complete⟩
  · refine ⟨?_, h.sent, h.received⟩
    simp only [h.stream, append_assoc, split]

end Whole

theorem prefix_of_flatten (positive : 0 < size) {xs ys : List (List α)} (hx : ∀ x ∈ xs, x.length = size)
    (hy : ∀ y ∈ ys, y.length = size) (part : xs.flatten <+: ys.flatten) : xs <+: ys := by
  induction xs generalizing ys with
  | nil => exact nil_prefix
  | cons x xs ih =>
    rw [forall_mem_cons] at hx
    cases ys with
    | nil =>
      have empty := prefix_nil.mp part
      rw [flatten_cons, append_eq_nil_iff] at empty
      rw [empty.1] at hx
      exact absurd hx.1 (Nat.ne_of_lt positive)
    | cons y ys =>
      rw [forall_mem_cons] at hy
      obtain ⟨more, same⟩ := part
      rw [flatten_cons, flatten_cons, append_assoc] at same
      obtain ⟨rfl, later⟩ := append_inj same (hx.1.trans hy.1.symm)
      exact (prefix_cons_inj x).mpr (ih hx.2 hy.2 ⟨more, later⟩)

theorem Whole.received_prefix (h : p.Whole size) (positive : 0 < size) : p.received <+: p.sent :=
  prefix_of_flatten positive h.received h.sent ⟨_, h.stream.symm⟩

end Pipe
end Framing
