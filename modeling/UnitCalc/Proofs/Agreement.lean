import UnitCalc.Proofs.Outcomes

/-!
# Proofs: agreement of two computations

Two runs that are told apart only by something that the first one may lack take the same steps until
the first run fails for want of it. `AgreesUnless` says this of their outcomes, and it is kept by the
ways in which computations are put together.
-/

namespace UnitCalc

variable {ε α β : Type} {p : ε → Prop} {x y : Except ε α}

/-- How the second computation agrees with the first, unless this one fails with an error for which
`p` holds. -/
inductive AgreesUnless (p : ε → Prop) (x y : Except ε α) : Prop where
  /-- The first computation fails with such an error; nothing is said of the second. -/
  | failed {e : ε} (he : p e) (hx : x = .error e)
  /-- They have the same outcome. -/
  | same (h : y = x)

namespace AgreesUnless

theorem refl (x : Except ε α) : AgreesUnless p x x := .same rfl

/-- A first computation that fails with none of these errors decides the outcome of the second. -/
theorem eq (h : AgreesUnless p x y) (hx : ∀ e, p e → x ≠ .error e) : y = x := by
  cases h with
  | failed he herror => exact absurd herror (hx _ he)
  | same heq => exact heq

theorem map {f : α → β} (h : AgreesUnless p x y) : AgreesUnless p (x.map f) (y.map f) := by
  cases h with
  | failed he herror =>
    rw [herror]
    exact .failed he rfl
  | same heq =>
    rw [heq]
    exact refl _

theorem bind {f g : α → Except ε β} (h : AgreesUnless p x y)
    (hfg : ∀ a, AgreesUnless p (f a) (g a)) : AgreesUnless p (x >>= f) (y >>= g) := by
  cases h with
  | failed he herror =>
    rw [herror]
    exact .failed he rfl
  | same heq =>
    rw [heq]
    cases x with
    | error e => exact refl _
    | ok a => exact hfg a

end AgreesUnless

end UnitCalc
