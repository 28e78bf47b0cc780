import Abridge.Binary64

/-!
Decisions whether to record at all: always, never, at random, or as long as tokens are left in a
bucket. A bucket starts full, each positive decision takes one token out, and tokens come back with
the time that passes between two decisions.
-/
namespace Abridge

/-- `rate` tokens come back per second, and there is room for `burst`. Tokens are counted in parts,
and the last decision lies `since` seconds back. -/
structure Bucket where
  rate : Binary64
  burst : Nat
  tokens : Binary64
  since : Binary64

namespace Bucket

def standardRate : Binary64 := ⟨0x4024000000000000⟩

def full (rate : Binary64) (burst : Nat) : Bucket :=
  ⟨rate, burst, Binary64.ofNat burst, Binary64.zero⟩

/-- A full bucket. Without a positive rate or without room, the standard one, which holds one token,
is taken instead. -/
def new (rate : Binary64) (burst : Nat) : Bucket :=
  if rate.isPositive && 0 < burst then full rate burst else full standardRate 1

/-- The tokens that come back. At an infinite rate they have no number as long as no time passes. -/
def accrued (b : Bucket) : Binary64 :=
  if b.rate.isInfinite then if b.since.isZero then Binary64.nan else Binary64.infinity
  else b.since.times b.rate

/-- The tokens at hand for a decision, as far as there is room for them. -/
def ready (b : Bucket) : Binary64 := (b.tokens.plus b.accrued).least (Binary64.ofNat b.burst)

/-- Takes a token, if there is a whole one. -/
def take (b : Bucket) : Bool × Bucket :=
  let left := { b with tokens := b.ready, since := Binary64.zero }
  if b.ready.belowPositive (Binary64.ofNat 1) then (false, left)
  else (true, { left with tokens := b.ready.minus (Binary64.ofNat 1) })

end Bucket

/-- Each decision is positive with this probability. -/
structure Sampler where
  ratio : Binary64

namespace Sampler

def standardRatio : Binary64 := ⟨0x3fb999999999999a⟩

def new (ratio : Binary64) : Sampler := ⟨if ratio.isPositive then ratio else standardRatio⟩

/-- The decision for a number drawn from zero up to, and not including, one. -/
def allows (s : Sampler) (draw : Binary64) : Bool := draw.belowPositive s.ratio

end Sampler

inductive SamplingPolicy where
  | always
  | never
  | sampled (sampler : Sampler)
  | limited (bucket : Bucket)

/-- One decision, for the number drawn if it is needed, and the policy after it. -/
def SamplingPolicy.allow (draw : Binary64) : SamplingPolicy → Bool × SamplingPolicy
  | .always => (true, .always)
  | .never => (false, .never)
  | .sampled s => (s.allows draw, .sampled s)
  | .limited b => let (allowed, left) := b.take; (allowed, .limited left)

/-- The policy so many seconds after its last decision. -/
def SamplingPolicy.after (seconds : Binary64) : SamplingPolicy → SamplingPolicy
  | .limited b => .limited { b with since := seconds }
  | p => p

/-- So many decisions in a row, with no time between them. -/
def SamplingPolicy.decisions (draw : Binary64) : Nat → SamplingPolicy → List Bool
  | 0, _ => []
  | n + 1, p => (p.allow draw).1 :: decisions draw n (p.allow draw).2

end Abridge
