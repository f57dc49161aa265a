import Flowchart.Scalar

/-!
# Real roots of quadratics and cubics

The crossings of a line with a parabola or a cubic curve are the roots of a polynomial of degree
two or three. Both solvers are in closed form; coefficients below `rootTolerance` count as zero, so
that an almost degenerate polynomial is solved as the one of lower degree.
-/

namespace Flowchart

variable {ω : Type} [Scalar ω]

/-- Magnitudes below this are rounding noise. -/
def rootTolerance : ω := 1e-9

/-- Real roots of `a t² + b t + c`, a double root once. The two roots are obtained from the sum
that does not cancel, the second one as the quotient of `c` by it. -/
def quadraticRoots (a b c : ω) : List ω :=
  if Scalar.abs a < rootTolerance then
    if Scalar.abs b < rootTolerance then [] else [-c / b]
  else
    let disc := b * b - 4.0 * a * c
    if disc < -rootTolerance then []
    else if Scalar.abs disc ≤ rootTolerance then [-b / (2.0 * a)]
    else
      let q := -0.5 * (b + Scalar.withSignOf (Scalar.sqrt disc) b)
      let first := q / a
      if rootTolerance < Scalar.abs q then [first, c / q] else [first, -b / a - q / a]

/-- Real roots of `a t³ + b t² + c t + d`: one real root by radicals, three by the cosine of a
third of an angle. The polynomial is first shifted by a third of its quadratic coefficient, which
leaves `s³ + p s + q`. -/
def cubicRoots [Trigonometry ω] (a b c d : ω) : List ω :=
  if Scalar.abs a < rootTolerance then quadraticRoots b c d
  else
    let b := b / a
    let c := c / a
    let d := d / a
    let shift := b / 3.0
    let p := c - b * b / 3.0
    let q := 2.0 * b * b * b / 27.0 - b * c / 3.0 + d
    let halfQ := q / 2.0
    let thirdP := p / 3.0
    let disc := halfQ * halfQ + thirdP * thirdP * thirdP
    if rootTolerance < disc then
      let root := Scalar.sqrt disc
      [Trigonometry.cbrt (-q / 2.0 + root) + Trigonometry.cbrt (-q / 2.0 - root) - shift]
    else if Scalar.abs disc ≤ rootTolerance then
      if Scalar.abs q ≤ rootTolerance then [-shift]
      else
        let u := Trigonometry.cbrt (-q / 2.0)
        [2.0 * u - shift, -u - shift]
    else
      let r := Scalar.sqrt (-p / 3.0)
      let angle := Trigonometry.arccos (Scalar.clamp (-q / (2.0 * r * r * r)) (-1.0) 1.0)
      [0, 1, 2].map fun k =>
        2.0 * r * Trigonometry.cos ((angle + 2.0 * Trigonometry.pi * Scalar.ofNat k) / 3.0) - shift

end Flowchart
