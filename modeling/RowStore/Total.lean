/-!
# Totals

The sum of one number for each item of a list.
-/

namespace RowStore

def total {α : Type} (f : α → Nat) (items : List α) : Nat :=
  items.foldr (fun a sum => f a + sum) 0

section

variable {α : Type} (f : α → Nat)

@[simp] theorem total_nil : total f [] = 0 := rfl

@[simp] theorem total_cons (a : α) (items : List α) :
    total f (a :: items) = f a + total f items := rfl

@[simp] theorem total_append (xs ys : List α) :
    total f (xs ++ ys) = total f xs + total f ys := by
  induction xs with
  | nil => simp
  | cons a xs ih => simp [ih, Nat.add_assoc]

variable {f}

theorem le_total_of_mem {a : α} {items : List α} (h : a ∈ items) : f a ≤ total f items := by
  induction items with
  | nil => cases h
  | cons b items ih =>
    rw [total_cons]
    rcases List.mem_cons.1 h with rfl | h
    · exact Nat.le_add_right _ _
    · exact Nat.le_add_left_of_le (ih h)

end

end RowStore
