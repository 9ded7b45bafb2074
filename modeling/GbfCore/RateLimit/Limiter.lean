import GbfCore.Lib.Int64
import GbfCore.Lib.Threads

/-!
# The token bucket (ratelimit.go)

A `Limiter` hands out tokens: `WaitN` takes them from a bucket, a goroutine refills the bucket
ten times a second, and `SetRate` and `Stop` change the limiter while both are at work. The
fields but the rate are only touched under the mutex, so a critical section is one step; the
rate is loaded before it, in a step of its own. `int64` arithmetic wraps around.

Thread 0 is the refill loop, which runs as soon as there is a ticker: it is started once, by
`NewLimiter` or by the first `SetRate` with a positive rate. The other threads are callers.
A load in the middle of the critical section of `SetRate` sees what a load behind it sees.

The `Tally` counts what has happened. No step looks at it.
-/

namespace GbfCore

open Threads

/-- `Limiter`. -/
structure Limiter where
  bytesPerSecond : Int
  bucket : Int
  /-- in tenths of a token -/
  fracAccum : Int
  maxBucket : Int
  /-- There is a ticker, and with it a channel to stop the refill loop. -/
  ticker : Bool
  stopped : Bool
deriving DecidableEq

/-- `Limiter{}` -/
def Limiter.zero : Limiter := ⟨0, 0, 0, 0, false, false⟩

/-- `NewLimiter`. -/
def newLimiter (bytesPerSecond : Int) : Limiter :=
  if bytesPerSecond ≤ 0 then .zero
  else
    { Limiter.zero with
      bytesPerSecond := bytesPerSecond
      bucket := bytesPerSecond
      maxBucket := wrap64 (bytesPerSecond * 2)
      ticker := true }

namespace Limiter

variable (l : Limiter)

/-- The bucket and the tenths after a tick, before the bucket is cut to its size. -/
def filled (rate : Int) : Int × Int :=
  let bucket := wrap64 (l.bucket + rate.tdiv 10)
  let fracAccum := wrap64 (l.fracAccum + rate.tmod 10)
  if 10 ≤ fracAccum then (wrap64 (bucket + fracAccum.tdiv 10), fracAccum.tmod 10)
  else (bucket, fracAccum)

/-- The critical section of `refill`, with the rate that was loaded. -/
def refill (rate : Int) : Limiter :=
  { l with
    bucket := if l.maxBucket < (l.filled rate).1 then l.maxBucket else (l.filled rate).1
    fracAccum := (l.filled rate).2 }

/-- The tokens `WaitN` takes when it needs `n`. -/
def available (n : Int) : Int :=
  if 0 < l.bucket then if n < l.bucket then n else l.bucket else 0

/-- The critical section of `WaitN`. -/
def take (n : Int) : Limiter :=
  if 0 < l.bucket then { l with bucket := wrap64 (l.bucket - l.available n) } else l

/-- `SetRate`. -/
def setRate (bytesPerSecond : Int) : Limiter :=
  if l.stopped then l
  else if 0 < bytesPerSecond then
    let maxBucket := wrap64 (bytesPerSecond * 2)
    { l with
      bytesPerSecond := bytesPerSecond
      maxBucket := maxBucket
      bucket :=
        -- without a ticker the limiter starts with a full bucket
        if l.ticker then if maxBucket < l.bucket then maxBucket else l.bucket else bytesPerSecond
      ticker := true }
  else { l with bytesPerSecond := bytesPerSecond }

/-- `Stop`. -/
def stop : Limiter := { l with stopped := true }

end Limiter

/-! ## The threads -/

/-- The refill loop. -/
inductive RefillPc where
  /-- in the `select` -/
  | waiting
  | ticked
  /-- a positive rate was loaded -/
  | loaded (rate : Int)
  | exited

/-- A call of `WaitN` for `n` tokens, of which it still needs `left`. -/
inductive WaitPc where
  /-- no call -/
  | idle
  /-- at the top of the loop -/
  | top (n left : Int)
  /-- a positive rate was loaded -/
  | loaded (n left : Int)
  /-- in one of the two `select`s -/
  | pause (n left : Int)

inductive LimiterPc where
  | refill (pc : RefillPc)
  | caller (pc : WaitPc)

inductive LimiterEvent where
  /-- the ticker ticks; after a `Stop` a tick may be pending -/
  | tick
  /-- `stopCh` is closed -/
  | stopCh
  | load
  | lock
  /-- `WaitN` is called -/
  | waitN (n : Int)
  /-- the pause is over -/
  | wake
  /-- the context is done -/
  | cancel
  | setRate (bytesPerSecond : Int)
  | stop

/-- What has happened. -/
structure Tally where
  /-- the refills -/
  ticks : Nat
  /-- A refill hit the size of the bucket. -/
  capped : Bool
  /-- the tokens taken from the bucket -/
  taken : Int
  /-- the tokens of the calls that returned nil -/
  granted : Int

structure LimiterState where
  limiter : Limiter
  tally : Tally

namespace LimiterState

variable (s : LimiterState)

def refill (rate : Int) : LimiterState where
  limiter := s.limiter.refill rate
  tally := { s.tally with
    ticks := s.tally.ticks + 1
    capped := s.tally.capped || decide (s.limiter.maxBucket < (s.limiter.filled rate).1) }

def take (left : Int) : LimiterState where
  limiter := s.limiter.take left
  tally := { s.tally with taken := s.tally.taken + s.limiter.available left }

/-- A call returns nil. -/
def grant (n : Int) : LimiterState :=
  { s with tally := { s.tally with granted := s.tally.granted + n } }

/-- The loop of `WaitN` goes on while tokens are missing. -/
def loop (n left : Int) (next : WaitPc) : LimiterState × LimiterPc :=
  if 0 < left then (s, .caller next) else (s.grant n, .caller .idle)

/-- A step of a thread. -/
def next : LimiterPc → LimiterEvent → Option (LimiterState × LimiterPc)
  | .refill .waiting, .tick => if s.limiter.ticker then some (s, .refill .ticked) else none
  | .refill .waiting, .stopCh =>
    if s.limiter.ticker && s.limiter.stopped then some (s, .refill .exited) else none
  | .refill .ticked, .load =>
    let rate := s.limiter.bytesPerSecond
    some (s, .refill (if 0 < rate then .loaded rate else .waiting))
  | .refill (.loaded rate), .lock => some (s.refill rate, .refill .waiting)
  | .caller .idle, .waitN n => some (s.loop n n (.top n n))
  | .caller (.top n left), .load =>
    if s.limiter.bytesPerSecond ≤ 0 then some (s.grant n, .caller .idle)
    else some (s, .caller (.loaded n left))
  | .caller (.loaded n left), .lock =>
    let left' := left - s.limiter.available left
    some ((s.take left).loop n left' (.pause n left'))
  | .caller (.pause n left), .wake => some (s, .caller (.top n left))
  | .caller (.pause _ _), .cancel => some (s, .caller .idle)
  | .caller .idle, .setRate r => some (⟨s.limiter.setRate r, s.tally⟩, .caller .idle)
  | .caller .idle, .stop => some (⟨s.limiter.stop, s.tally⟩, .caller .idle)
  | _, _ => none

end LimiterState

/-- What a step of a thread can be. -/
inductive LimiterEffect (s : LimiterState) :
    LimiterPc → LimiterEvent → LimiterState → LimiterPc → Prop
  | tick (h : s.limiter.ticker = true) :
    LimiterEffect s (.refill .waiting) .tick s (.refill .ticked)
  | exit : LimiterEffect s (.refill .waiting) .stopCh s (.refill .exited)
  | loadRate (h : 0 < s.limiter.bytesPerSecond) :
    LimiterEffect s (.refill .ticked) .load s (.refill (.loaded s.limiter.bytesPerSecond))
  | skip : LimiterEffect s (.refill .ticked) .load s (.refill .waiting)
  | refill (rate : Int) :
    LimiterEffect s (.refill (.loaded rate)) .lock (s.refill rate) (.refill .waiting)
  | call {n : Int} (h : 0 < n) : LimiterEffect s (.caller .idle) (.waitN n) s (.caller (.top n n))
  | callNone {n : Int} (h : n ≤ 0) :
    LimiterEffect s (.caller .idle) (.waitN n) (s.grant n) (.caller .idle)
  | unlimited (n left : Int) (h : s.limiter.bytesPerSecond ≤ 0) :
    LimiterEffect s (.caller (.top n left)) .load (s.grant n) (.caller .idle)
  | load (n left : Int) : LimiterEffect s (.caller (.top n left)) .load s (.caller (.loaded n left))
  | takeSome {n left : Int} (h : 0 < left - s.limiter.available left) :
    LimiterEffect s (.caller (.loaded n left)) .lock (s.take left)
      (.caller (.pause n (left - s.limiter.available left)))
  | takeAll {n left : Int} (h : left - s.limiter.available left ≤ 0) :
    LimiterEffect s (.caller (.loaded n left)) .lock ((s.take left).grant n) (.caller .idle)
  | wake (n left : Int) : LimiterEffect s (.caller (.pause n left)) .wake s (.caller (.top n left))
  | cancel (n left : Int) : LimiterEffect s (.caller (.pause n left)) .cancel s (.caller .idle)
  | setRate (r : Int) :
    LimiterEffect s (.caller .idle) (.setRate r) ⟨s.limiter.setRate r, s.tally⟩ (.caller .idle)
  | stop : LimiterEffect s (.caller .idle) .stop ⟨s.limiter.stop, s.tally⟩ (.caller .idle)

theorem limiter_next_effect {s s' : LimiterState} {t t' : LimiterPc} {e : LimiterEvent}
    (h : s.next t e = some (s', t')) : LimiterEffect s t e s' t' := by
  unfold LimiterState.next at h
  split at h
  · obtain ⟨hticker, heq⟩ := Option.ite_none_right_eq_some.mp h
    cases heq
    exact .tick hticker
  · obtain ⟨-, heq⟩ := Option.ite_none_right_eq_some.mp h
    cases heq
    exact .exit
  · cases h
    split
    · rename_i hrate
      exact .loadRate hrate
    · exact .skip
  · cases h
    exact .refill _
  · unfold LimiterState.loop at h
    split at h <;> cases h
    · rename_i hn
      exact .call hn
    · rename_i hn
      exact .callNone (not_lt.mp hn)
  · split at h <;> cases h
    · rename_i hrate
      exact .unlimited _ _ hrate
    · exact .load _ _
  · unfold LimiterState.loop at h
    dsimp only at h
    split at h <;> cases h
    · rename_i hleft
      exact .takeSome hleft
    · rename_i hleft
      exact .takeAll (not_lt.mp hleft)
  · cases h
    exact .wake _ _
  · cases h
    exact .cancel _ _
  · cases h
    exact .setRate _
  · cases h
    exact .stop
  · cases h

/-- A new limiter: the refill loop waits, and nobody calls. -/
def Started (rate : Int) (c : Config LimiterState LimiterPc) : Prop :=
  c.shared = ⟨newLimiter rate, ⟨0, false, 0, 0⟩⟩ ∧ c.thread 0 = .refill .waiting ∧
    ∀ i, i ≠ 0 → c.thread i = .caller .idle

/-- A new limiter, with nobody calling. -/
def startedAt (rate : Int) : Config LimiterState LimiterPc :=
  ⟨⟨newLimiter rate, ⟨0, false, 0, 0⟩⟩, fun i => if i = 0 then .refill .waiting else .caller .idle⟩

theorem startedAt_started (rate : Int) : Started rate (startedAt rate) :=
  ⟨rfl, rfl, fun _ hi => if_neg hi⟩

/-- The runs in which only these rates are set. -/
def LimiterReach (rates : Set Int) : Config LimiterState LimiterPc → Prop :=
  Reach LimiterState.next (fun _ _ e => ∀ r, e = .setRate r → r ∈ rates)
    fun c => ∃ r ∈ rates, Started r c

end GbfCore
