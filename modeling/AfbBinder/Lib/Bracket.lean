/-!
# Bracketed traces

The trace of what is done to one resource: opening and closing it alternate, and it is
used only while it is open.
-/

namespace AfbBinder.Lib

inductive Mark where
  | opens
  | closes
  | uses
deriving DecidableEq, Repr

/-- From a resource that is open or not, the marks come in a right order. -/
def Bracketed : Bool → List Mark → Prop
  | _, [] => True
  | opened, .opens :: rest => opened = false ∧ Bracketed true rest
  | opened, .closes :: rest => opened = true ∧ Bracketed false rest
  | opened, .uses :: rest => opened = true ∧ Bracketed opened rest

/-- Whether the resource is open at the end. -/
def openAfter : Bool → List Mark → Bool
  | opened, [] => opened
  | _, .opens :: rest => openAfter true rest
  | _, .closes :: rest => openAfter false rest
  | opened, .uses :: rest => openAfter opened rest

variable {opened : Bool} {l r : List Mark}

theorem openAfter_append : openAfter opened (l ++ r) = openAfter (openAfter opened l) r := by
  induction l generalizing opened with
  | nil => rfl
  | cons mark l ih =>
      cases mark with
      | opens => exact ih
      | closes => exact ih
      | uses => exact ih

theorem bracketed_append :
    Bracketed opened (l ++ r) ↔ Bracketed opened l ∧ Bracketed (openAfter opened l) r := by
  induction l generalizing opened with
  | nil => simp [Bracketed, openAfter]
  | cons mark l ih =>
      cases mark with
      | opens => simp only [List.cons_append, Bracketed, openAfter, ih, and_assoc]
      | closes => simp only [List.cons_append, Bracketed, openAfter, ih, and_assoc]
      | uses => simp only [List.cons_append, Bracketed, openAfter, ih, and_assoc]

end AfbBinder.Lib
