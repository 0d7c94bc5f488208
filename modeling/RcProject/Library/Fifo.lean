import Mathlib.Data.List.Basic

namespace rc_project.fifo

/-- A FIFO list as its history: all that entered it, in order, and how many have left. -/
structure Fifo (β : Type) where
  entered : List β
  left : Nat
  left_le : left ≤ entered.length

namespace Fifo

variable {β : Type}

def empty : Fifo β where
  entered := []
  left := 0
  left_le := Nat.le_refl _

variable (queue : Fifo β)

def items : List β := queue.entered.drop queue.left

/-- What has left, in order. -/
def gone : List β := queue.entered.take queue.left

theorem left_le_append (item : β) : queue.left ≤ (queue.entered ++ [item]).length := by
  rw [List.length_append]
  exact Nat.le_add_right_of_le queue.left_le

def push (item : β) : Fifo β where
  entered := queue.entered ++ [item]
  left := queue.left
  left_le := queue.left_le_append item

/-- The oldest item leaves, if there is one. -/
def pop : Fifo β where
  entered := queue.entered
  left := min (queue.left + 1) queue.entered.length
  left_le := Nat.min_le_right _ _

theorem gone_append_items : queue.gone ++ queue.items = queue.entered :=
  List.take_append_drop queue.left queue.entered

@[simp] theorem items_empty : (empty : Fifo β).items = [] := rfl

@[simp] theorem gone_empty : (empty : Fifo β).gone = [] := rfl

@[simp] theorem entered_push (item : β) : (queue.push item).entered = queue.entered ++ [item] := rfl

@[simp] theorem entered_pop : queue.pop.entered = queue.entered := rfl

@[simp] theorem items_push (item : β) : (queue.push item).items = queue.items ++ [item] :=
  List.drop_append_of_le_length queue.left_le

@[simp] theorem gone_push (item : β) : (queue.push item).gone = queue.gone :=
  List.take_append_of_le_length queue.left_le

@[simp] theorem items_pop : queue.pop.items = queue.items.tail := by
  simp only [items, pop, List.tail_drop]
  obtain hlt | hge := Nat.lt_or_ge queue.left queue.entered.length
  · rw [Nat.min_eq_left hlt]
  · rw [Nat.min_eq_right (by omega), List.drop_length, List.drop_eq_nil_of_le (by omega)]

/-- What leaves is what was the oldest item. -/
@[simp] theorem gone_pop : queue.pop.gone = queue.gone ++ queue.items.head?.toList := by
  simp only [gone, items, pop, List.head?_drop, ← List.take_add_one]
  obtain hlt | hge := Nat.lt_or_ge queue.left queue.entered.length
  · rw [Nat.min_eq_left hlt]
  · rw [Nat.min_eq_right (by omega), List.take_length, List.take_of_length_le (by omega)]

end Fifo

end rc_project.fifo
