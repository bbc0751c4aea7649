import LatticeObservables.Sampling.Chain

/-!
# A Synthetic Sampler

A sampler without physics, which draws one random word per sweep. The word decides whether
the step counts as accepted or as fully rejected, and on demand the samples as well;
otherwise every sample is a quarter for each hop of the measured operator. It can be told to
fail at a given step. It exercises everything that is built on samplers with results that
are known in advance.
-/

namespace LatticeObservables

/-- The settings of the **synthetic sampler**. -/
structure Synthetic where
  random : Bool
  failAtStep : Option Nat

namespace Synthetic

/-- The state of the synthetic sampler. -/
structure State where
  stream : RandomStream
  steps : Nat
  accepted : Nat
  fullyRejected : Nat

/-- The sample that a random word gives to the plan at a position: the real part grows with
the position and the imaginary part does not. -/
def randomSample (word : UInt64) (position : Nat) : Complex Float where
  re := (position + 1).toUInt64.toFloat * ((word >>> 40).toFloat / 16777216.0)
  im := ((word &&& 255).toFloat - 128.0) / 16.0

/-- The sample that counts the hops of an operator. -/
def hopSample (o : BasicOperator) : Complex Float :=
  ⟨0.25 * o.hops.length.toUInt64.toFloat, 0.0⟩

/-- One sweep. -/
def sweep {W : Type} (settings : Synthetic) (s : State) :
    Except String (State × (Nat → BasicPlan W → Complex Float)) :=
  if settings.failAtStep = some s.steps then
    .error ("walk stuck at step " ++ toString s.steps)
  else
    let (word, stream) := s.stream.next
    let isAccepted := word &&& 1 = 1
    let isFullyRejected := ¬isAccepted ∧ word &&& 6 = 0
    let next : State := {
      stream := stream
      steps := s.steps + 1
      accepted := if isAccepted then s.accepted + 1 else s.accepted
      fullyRejected := if isFullyRejected then s.fullyRejected + 1 else s.fullyRejected }
    .ok (next, fun position plan =>
      if settings.random then randomSample word position else hopSample plan.operator)

/-- The synthetic sampler. -/
def sampler {W : Type} (settings : Synthetic) : Sampler W State Float where
  sweep := settings.sweep
  start request := ⟨request.stream, 0, 0, 0⟩
  stepsCompleted := State.steps
  stepsAccepted := State.accepted
  stepsFullyRejected := State.fullyRejected

end Synthetic

end LatticeObservables
