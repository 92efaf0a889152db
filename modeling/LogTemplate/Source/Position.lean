namespace LogTemplate

structure Position where
  line : Nat
  column : Nat
  deriving DecidableEq, Repr

namespace Position

/-- The order of reading: by line, then by column. -/
protected def lt (p q : Position) : Prop :=
  p.line < q.line ∨ (p.line = q.line ∧ p.column < q.column)

instance : LT Position := ⟨Position.lt⟩

theorem lt_iff {p q : Position} :
    p < q ↔ p.line < q.line ∨ (p.line = q.line ∧ p.column < q.column) := Iff.rfl

instance (p q : Position) : Decidable (p < q) :=
  inferInstanceAs (Decidable (p.line < q.line ∨ (p.line = q.line ∧ p.column < q.column)))

end Position

/-- The text from one position up to another, the second not included. -/
structure Span where
  start : Position
  stop : Position
  deriving DecidableEq, Repr

/-- Each of the two spans starts before the other one stops. -/
def Span.overlaps (a b : Span) : Bool :=
  a.start < b.stop && b.start < a.stop

end LogTemplate
