import RakshaQuant.Brokers.Simulated.State
import RakshaQuant.Domain.Events

/-! The durable writes of a book, in the order they happen. The event log and
the broker's record store are separate logs, each write atomic on its own; one
journal of both fixes how they interleave, so that a crash leaves a prefix. -/

namespace RakshaQuant

inductive Write
  | event (payload : EventPayload)
  | rows (rows : List Row)

/-- The event log: the events of a journal in order. -/
def events (journal : List Write) : List EventPayload :=
  journal.filterMap fun
    | .event p => some p
    | .rows _ => none

/-- The record store's writes, in order. -/
def saved (journal : List Write) : List Row :=
  journal.flatMap fun
    | .event _ => []
    | .rows r => r

@[simp] theorem events_nil : events [] = [] := rfl

@[simp] theorem events_append (l r : List Write) : events (l ++ r) = events l ++ events r :=
  List.filterMap_append

@[simp] theorem events_event (p : EventPayload) : events [.event p] = [p] := rfl

@[simp] theorem events_rows (r : List Row) : events [.rows r] = [] := rfl

@[simp] theorem events_map {α : Type} (l : List α) (f : α → EventPayload) :
    events (l.map (.event ∘ f)) = l.map f := by
  induction l with
  | nil => rfl
  | cons a rest ih => exact congrArg (f a :: ·) ih

@[simp] theorem saved_nil : saved [] = [] := rfl

@[simp] theorem saved_append (l r : List Write) : saved (l ++ r) = saved l ++ saved r :=
  List.flatMap_append

@[simp] theorem saved_event (p : EventPayload) : saved [.event p] = [] := rfl

@[simp] theorem saved_map {α : Type} (l : List α) (f : α → EventPayload) :
    saved (l.map (.event ∘ f)) = [] := by
  induction l with
  | nil => rfl
  | cons a rest ih => exact ih

@[simp] theorem saved_rows (r : List Row) : saved [.rows r] = r := by
  simp [saved]

end RakshaQuant
