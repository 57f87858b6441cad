/-
TensorProgram/Config.lean

How a session computes gradients, where its random numbers come from and how
it trains.  Two switches choose how gradients are written: a value with several
consumers needs its gradient to be a sum, and a batch of several images needs
the filter gradient to read each of them.
-/
import TensorProgram.Tensor.Update

namespace TensorProgram

/-- How transposition, concatenation, local response normalization and
arithmetic write the gradient of an input.  All other instructions add to it. -/
inductive GradientPolicy where
  /-- They replace it. -/
  | replace
  /-- They add to it as well. -/
  | accumulate
deriving DecidableEq

/-- How a gradient and a contribution to it combine under a policy. -/
def GradientPolicy.combine {α : Type} [Add α] : GradientPolicy → α → α → α
  | .replace => overwrite
  | .accumulate => TensorProgram.accumulate

/-- Which image of the batch the filter gradient of a convolution reads. -/
inductive FilterGradSource where
  /-- Always the first. -/
  | firstBatch
  /-- The one whose output gradient is being propagated. -/
  | currentBatch
deriving DecidableEq

/-- The image of the batch to read while image `n` is being propagated. -/
def FilterGradSource.image : FilterGradSource → Nat → Nat
  | .firstBatch, _ => 0
  | .currentBatch, n => n

/-- The parameters of the training step. -/
structure TrainingConfig (α : Type) where
  /-- The step width. -/
  learningRate : α
  /-- The share of the previous step that is repeated. -/
  momentum : α
  /-- The pull of every weight towards zero by a constant. -/
  l1Decay : α
  /-- The pull of every weight towards zero in proportion to it. -/
  l2Decay : α
  /-- Gradients are summed over a batch; the step divides them by this. -/
  batchSize : Nat

/-- The parameters of a session. -/
structure Config (α : Type) where
  /-- How gradients are written. -/
  gradientPolicy : GradientPolicy
  /-- Which image filter gradients read. -/
  filterGradSource : FilterGradSource
  /-- The seed of the random words. -/
  seed : UInt64
  /-- The parameters of the training step. -/
  training : TrainingConfig α

/-- One hundredth as step width, neither momentum nor decay, one row a batch. -/
def TrainingConfig.default {α : Type} [Scalar α] : TrainingConfig α where
  learningRate := Scalar.ofNat 1 / Scalar.ofNat 100
  momentum := 0
  l1Decay := 0
  l2Decay := 0
  batchSize := 1

/-- Gradients are replaced, filter gradients read the first image, the seed is
zero and training is the default one. -/
def Config.default {α : Type} [Scalar α] : Config α where
  gradientPolicy := .replace
  filterGradSource := .firstBatch
  seed := 0
  training := .default

end TensorProgram
