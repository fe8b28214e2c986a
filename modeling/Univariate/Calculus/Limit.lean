import Univariate.Scalar

namespace Univariate.Calculus

inductive Side where
  | left | right
  deriving DecidableEq, Repr

section
variable {K : Type} [Zero K] [One K] [NatCast K] [Add K] [Sub K] [Mul K] [Div K] [Neg K] [BEq K]
  [LT K] [DecidableLT K] [LE K] [DecidableLE K] [Elementary K] [Extended K]

open Extended

def Side.near (side : Side) (point : K) (scale : Nat) : K :=
  let h := 1 / (scale : K)
  match side with
  | .left => point - h
  | .right => point + h

/-- The limit that two values suggest, the second taken nearer to the point. Large and growing
values stand for an infinity. -/
def trend (previous last : K) : K :=
  if isInfinite last then last
  else if ((1000000 : Nat) : K) < Elementary.abs last ∧
      Elementary.abs previous < Elementary.abs last then
    if last < 0 then -infinity else infinity
  else last

def approach (f : K → K) (point : K) (side : Side) : K :=
  trend (f (side.near point 1000000)) (f (side.near point 10000000))

/-- The common value of two one-sided limits. Infinite ones have to be equal, finite ones only
near each other, and then it is their mean. -/
def agreement (left right : K) : K :=
  if isInfinite left || isInfinite right then (if left == right then left else undefined)
  else
    let mean := 1 / (2 : Nat) * (left + right)
    if Elementary.abs (left - right) ≤
        1 / ((1000000 : Nat) : K) * (1 + Elementary.abs mean) then mean
    else undefined

def limit (f : K → K) (point : K) : K :=
  let direct := f point
  if isFinite direct then direct
  else agreement (approach f point .left) (approach f point .right)

def oneSidedLimit (f : K → K) (point : K) (side : Side) : K :=
  let direct := f point
  if isFinite direct then direct else approach f point side

end

end Univariate.Calculus
