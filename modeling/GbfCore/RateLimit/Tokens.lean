import GbfCore.RateLimit.Limiter

/-!
# What the limiter hands out

`filled_spec` says what a tick adds as long as nothing overflows, in tenths of a token. From it:

* `bucket_bounds_iff`: the bucket stays between zero and its size in every run exactly if no
  rate is above `maxSafeRate`. Twice a larger rate, or that and a tenth, is no `int64`;
* `tokens_conserved`: at a fixed rate no token is lost or invented.
-/

namespace GbfCore

open Function Threads Option LimiterState Int

variable {r : Int}

/-! ## One tick -/

variable {l : Limiter} {rate : Int} {c : Config LimiterState LimiterPc} {i : Nat} {e : LimiterEvent}
  {s' : LimiterState} {t' : LimiterPc}

/-- **A tick adds a tenth of the rate**, in tenths of a token. -/
theorem filled_spec (hbucket : 0 ≤ l.bucket) (hfrac : 0 ≤ l.fracAccum) (hfrac' : l.fracAccum < 10)
    (hrate : 0 < rate) (hfit : l.bucket + rate / 10 + 1 < 2 ^ 63) :
    10 * (l.filled rate).1 + (l.filled rate).2 = 10 * l.bucket + l.fracAccum + rate ∧
      0 ≤ (l.filled rate).2 ∧ (l.filled rate).2 < 10 ∧ 0 ≤ (l.filled rate).1 := by
  have hdiv : rate.tdiv 10 = rate / 10 := tdiv_eq_ediv_of_nonneg hrate.le
  have hmod : rate.tmod 10 = rate % 10 := tmod_eq_emod_of_nonneg hrate.le
  have hbucket' : wrap64 (l.bucket + rate / 10) = l.bucket + rate / 10 :=
    wrap64_of_lt (by omega) (by omega)
  have htenths : wrap64 (l.fracAccum + rate % 10) = l.fracAccum + rate % 10 :=
    wrap64_of_lt (by omega) (by omega)
  unfold Limiter.filled
  rw [hdiv, hmod, hbucket', htenths]
  dsimp only
  split
  · have hcarry : (l.fracAccum + rate % 10).tdiv 10 = (l.fracAccum + rate % 10) / 10 :=
      tdiv_eq_ediv_of_nonneg (by omega)
    have hrest : (l.fracAccum + rate % 10).tmod 10 = (l.fracAccum + rate % 10) % 10 :=
      tmod_eq_emod_of_nonneg (by omega)
    rw [hcarry, hrest, wrap64_of_lt (by omega) (by omega)]
    dsimp only
    omega
  · dsimp only
    omega

theorem available_nonneg {n : Int} (hn : 0 < n) : 0 ≤ l.available n := by
  unfold Limiter.available
  split
  · split <;> omega
  · exact le_rfl

/-- Taking no more than there is. -/
theorem take_spec {n : Int} (hn : 0 < n) (hbucket : 0 ≤ l.bucket) (hlt : l.bucket < 2 ^ 63) :
    (l.take n).bucket = l.bucket - l.available n ∧ l.available n ≤ l.bucket ∧
      l.available n ≤ n := by
  unfold Limiter.take Limiter.available
  split
  · split
    · rw [wrap64_of_lt (by omega) (by omega)]
      dsimp only
      omega
    · rw [wrap64_of_lt (by omega) (by omega)]
      dsimp only
      omega
  · omega

theorem take_fields (l : Limiter) (n : Int) :
    (l.take n).fracAccum = l.fracAccum ∧ (l.take n).maxBucket = l.maxBucket ∧
      (l.take n).bytesPerSecond = l.bytesPerSecond ∧ (l.take n).ticker = l.ticker := by
  unfold Limiter.take
  split <;> exact ⟨rfl, rfl, rfl, rfl⟩

/-! ## Bounds -/

/-- The largest rate such that the bucket, filled to twice the rate, holds one more tick. -/
def maxSafeRate : Int := 4392081922311798003

/-- The bucket is between zero and its size. -/
def Limiter.Bounded (l : Limiter) : Prop :=
  0 ≤ l.bucket ∧ l.bucket ≤ l.maxBucket ∧ 0 < l.maxBucket ∧ 0 ≤ l.fracAccum ∧ l.fracAccum < 10

/-- The refill loop works only with a ticker and with a rate that was set, and a call waits only
while tokens are missing. -/
def LimiterPc.Sound (ticker : Bool) : LimiterPc → Prop
  | .refill .ticked => ticker = true
  | .refill (.loaded rate) => ticker = true ∧ 0 < rate ∧ rate ≤ maxSafeRate
  | .caller (.top n left) => 0 < left ∧ left ≤ n
  | .caller (.loaded n left) => 0 < left ∧ left ≤ n
  | .caller (.pause n left) => 0 < left ∧ left ≤ n
  | _ => True

/-- Once there is a ticker the bounds hold, also while there is no limit. -/
structure Limiter.Sound (l : Limiter) : Prop where
  bounded : l.ticker = true → l.Bounded
  ticker : 0 < l.bytesPerSecond → l.ticker = true
  frac : 0 ≤ l.fracAccum ∧ l.fracAccum < 10
  rate : l.bytesPerSecond ≤ maxSafeRate
  size : l.maxBucket ≤ 2 * maxSafeRate

/-- The invariant of the runs with safe rates. -/
structure LimiterInv (c : Config LimiterState LimiterPc) : Prop where
  limiter : c.shared.limiter.Sound
  threads : ∀ i, (c.thread i).Sound c.shared.limiter.ticker

theorem wrap64_double (hpos : 0 < rate) (hrate : rate ≤ maxSafeRate) :
    wrap64 (rate * 2) = rate * 2 := by
  have hmax : maxSafeRate = 4392081922311798003 := rfl
  exact wrap64_of_lt (by omega) (by omega)

theorem sound_newLimiter (hrate : rate ≤ maxSafeRate) : (newLimiter rate).Sound := by
  unfold newLimiter
  split
  · exact ⟨nofun, nofun, by decide, by decide, by decide⟩
  · rename_i hpos
    rw [not_le] at hpos
    rw [wrap64_double hpos hrate]
    refine ⟨fun _ => ⟨?_, ?_, ?_, ?_, ?_⟩, fun _ => rfl, ⟨?_, ?_⟩, hrate, ?_⟩ <;>
      dsimp only [Limiter.zero] <;> omega

section
variable (h : l.Sound)
include h

theorem sound_refill (hticker : l.ticker = true) (hpos : 0 < rate) (hrate : rate ≤ maxSafeRate) :
    (l.refill rate).Sound := by
  obtain ⟨hlow, hhigh, hmax, hfrac, hfrac'⟩ := h.bounded hticker
  have hsize := h.size
  have hsafe : maxSafeRate = 4392081922311798003 := rfl
  obtain ⟨-, hfilled, hfilled', hnonneg⟩ := filled_spec hlow hfrac hfrac' hpos (by omega)
  refine ⟨fun _ => ⟨?_, ?_, hmax, hfilled, hfilled'⟩, h.ticker, ⟨hfilled, hfilled'⟩, h.rate, hsize⟩
  · unfold Limiter.refill
    dsimp only
    split <;> omega
  · unfold Limiter.refill
    dsimp only
    split <;> omega

theorem sound_take {n : Int} (hpos : 0 < n) : (l.take n).Sound := by
  obtain ⟨hfrac, hmax, hrate, hticker⟩ := take_fields l n
  constructor
  · intro htick
    rw [hticker] at htick
    obtain ⟨hlow, hhigh, hsize, hbounds⟩ := h.bounded htick
    have hsafe : maxSafeRate = 4392081922311798003 := rfl
    have hle := h.size
    have hnonneg : 0 ≤ l.available n := available_nonneg hpos
    obtain ⟨hbucket, hlt, -⟩ := take_spec hpos hlow (by omega)
    rw [Limiter.Bounded, hbucket, hmax, hfrac]
    exact ⟨by omega, by omega, hsize, hbounds⟩
  · rw [hrate, hticker]
    exact h.ticker
  · rw [hfrac]
    exact h.frac
  · rw [hrate]
    exact h.rate
  · rw [hmax]
    exact h.size

theorem sound_setRate (hrate : r ≤ maxSafeRate) : (l.setRate r).Sound := by
  unfold Limiter.setRate
  split
  · exact h
  split
  · rename_i hpos
    rw [wrap64_double hpos hrate]
    refine ⟨fun _ => ⟨?_, ?_, ?_, h.frac⟩, fun _ => rfl, h.frac, hrate, ?_⟩
    · dsimp only
      split
      · rename_i hticker
        have hlow := (h.bounded hticker).1
        split <;> omega
      · omega
    · dsimp only
      split
      · split <;> omega
      · omega
    · dsimp only
      omega
    · dsimp only
      omega
  · rename_i hpos
    exact ⟨h.bounded, fun hpos' => absurd hpos' hpos, h.frac, hrate, h.size⟩

end

theorem ticker_setRate (h : l.ticker = true) :
    (l.setRate r).ticker = true := by
  unfold Limiter.setRate
  split
  · exact h
  · split
    · rfl
    · exact h

/-- A thread that is sound stays so while other threads start the ticker. -/
theorem LimiterPc.Sound.mono {ticker ticker' : Bool} {t : LimiterPc} (h : t.Sound ticker)
    (hticker : ticker = true → ticker' = true) : t.Sound ticker' := by
  cases t with
  | refill pc =>
    cases pc with
    | ticked => exact hticker h
    | loaded rate => exact ⟨hticker h.1, h.2⟩
    | waiting => trivial
    | exited => trivial
  | caller pc => cases pc <;> exact h

/-- **A step keeps the invariant.** -/
theorem limiterInv_step (h : LimiterInv c) (hrates : ∀ r, e = .setRate r → r ≤ maxSafeRate)
    (heffect : LimiterEffect c.shared (c.thread i) e s' t') :
    LimiterInv ⟨s', update c.thread i t'⟩ := by
  have hi := h.threads i
  -- what is left to see is the limiter and the thread that moved
  suffices hmoved : s'.limiter.Sound ∧ t'.Sound s'.limiter.ticker ∧
      (c.shared.limiter.ticker = true → s'.limiter.ticker = true) by
    obtain ⟨hlimiter, hthread, hticker⟩ := hmoved
    refine ⟨hlimiter, fun j => ?_⟩
    by_cases hj : j = i
    · rw [hj]
      simpa only [update_self] using hthread
    · simpa only [update_of_ne hj] using (h.threads j).mono hticker
  generalize c.thread i = t at hi heffect
  cases heffect with
  | tick hticker => exact ⟨h.limiter, hticker, id⟩
  | exit => exact ⟨h.limiter, trivial, id⟩
  | loadRate hrate => exact ⟨h.limiter, ⟨hi, hrate, h.limiter.rate⟩, id⟩
  | skip => exact ⟨h.limiter, trivial, id⟩
  | refill rate => exact ⟨sound_refill h.limiter hi.1 hi.2.1 hi.2.2, trivial, id⟩
  | call hn => exact ⟨h.limiter, ⟨hn, le_rfl⟩, id⟩
  | callNone _ => exact ⟨h.limiter, trivial, id⟩
  | unlimited n left _ => exact ⟨h.limiter, trivial, id⟩
  | load n left => exact ⟨h.limiter, hi, id⟩
  | @takeSome n left hleft =>
    obtain ⟨-, -, -, hticker⟩ := take_fields c.shared.limiter left
    have hnonneg : 0 ≤ c.shared.limiter.available left := available_nonneg hi.1
    exact ⟨sound_take h.limiter hi.1, ⟨hleft, by have := hi.2; omega⟩,
      fun htick => hticker.trans htick⟩
  | @takeAll n left _ =>
    obtain ⟨-, -, -, hticker⟩ := take_fields c.shared.limiter left
    exact ⟨sound_take h.limiter hi.1, trivial, fun htick => hticker.trans htick⟩
  | wake n left => exact ⟨h.limiter, hi, id⟩
  | cancel n left => exact ⟨h.limiter, trivial, id⟩
  | setRate r => exact ⟨sound_setRate h.limiter (hrates r rfl), trivial, ticker_setRate⟩
  | stop => exact ⟨⟨h.limiter.1, h.limiter.2, h.limiter.3, h.limiter.4, h.limiter.5⟩, trivial, id⟩

theorem limiterInv_reach {rates : Set Int} (hrates : ∀ r ∈ rates, r ≤ maxSafeRate)
    (h : LimiterReach rates c) : LimiterInv c := by
  refine Reach.invariant LimiterInv ?_ ?_ h
  · rintro c ⟨r, hr, hshared, hloop, hcallers⟩
    constructor
    · rw [hshared]
      exact sound_newLimiter (hrates r hr)
    · intro i
      by_cases hi : i = 0
      · rw [hi, hloop]
        trivial
      · rw [hcallers i hi]
        trivial
  · intro c i e s' t' hinv hallowed hnext
    exact limiterInv_step hinv (fun r he => hrates r (hallowed r he)) (limiter_next_effect hnext)

/-! ## Rates that are too high -/

section
variable {rates : Set Int}

/-- A tick, from the `select` of the refill loop to the next. -/
theorem reach_tick (h : LimiterReach rates c) (hloop : c.thread 0 = .refill .waiting)
    (hticker : c.shared.limiter.ticker = true) (hrate : 0 < c.shared.limiter.bytesPerSecond) :
    LimiterReach rates ⟨c.shared.refill c.shared.limiter.bytesPerSecond, c.thread⟩ := by
  have hrun : run next c [(0, .tick), (0, .load), (0, .lock)] =
      some ⟨c.shared.refill c.shared.limiter.bytesPerSecond, c.thread⟩ := by
    have hback : update c.thread 0 (.refill .waiting) = c.thread := by
      rw [← hloop, update_eq_self]
    simp only [run, step, hloop, next, hticker, hrate, if_true, map_some,
      bind_some, update_self, update_idem, hback]
  refine run_reach_allowed h ?_ hrun
  rintro ⟨i, e⟩ hp - r rfl
  simp at hp

/-- **Ten ticks fill the bucket.** -/
theorem reach_filled (hr : r ∈ rates) (hpos : 0 < r) (hlt : r < 2 ^ 62) :
    ∀ k : Nat, k ≤ 10 → ∃ c, LimiterReach rates c ∧ c.thread 0 = .refill .waiting ∧
      c.shared.limiter.ticker = true ∧ c.shared.limiter.bytesPerSecond = r ∧
      c.shared.limiter.maxBucket = r * 2 ∧ 0 ≤ c.shared.limiter.bucket ∧
      0 ≤ c.shared.limiter.fracAccum ∧ c.shared.limiter.fracAccum < 10 ∧
      10 * c.shared.limiter.bucket + c.shared.limiter.fracAccum = 10 * r + k * r := by
  intro k
  induction k with
  | zero =>
    intro _
    have hnew : newLimiter r = ⟨r, r, 0, r * 2, true, false⟩ := by
      unfold newLimiter
      rw [if_neg (not_le.mpr hpos), wrap64_of_lt (by omega) (by omega)]
      rfl
    refine ⟨startedAt r, .start ⟨r, hr, startedAt_started r⟩, rfl, ?_⟩
    rw [startedAt, hnew]
    exact ⟨rfl, rfl, rfl, hpos.le, le_rfl, show (0 : Int) < 10 by decide, by simp⟩
  | succ k ih =>
    intro hk
    obtain ⟨c, hreach, hloop, hticker, hrate, hmax, hlow, hfrac, hfrac', hsum⟩ := ih (by omega)
    have hkr : (k : Int) * r ≤ 9 * r := mul_le_mul_of_nonneg_right (by omega) hpos.le
    obtain ⟨htenths, hfilled, hfilled', hnonneg⟩ :=
      filled_spec hlow hfrac hfrac' hpos (by omega)
    have hnext : ((k + 1 : Nat) : Int) * r = k * r + r := by
      rw [Int.natCast_add, Int.add_mul, Int.natCast_one, Int.one_mul]
    have hcap : ¬ c.shared.limiter.maxBucket < (c.shared.limiter.filled r).1 := by omega
    refine ⟨_, reach_tick hreach hloop hticker (by rw [hrate]; exact hpos), hloop, hticker, hrate,
      hmax, ?_⟩
    rw [hrate]
    dsimp only [refill, Limiter.refill]
    rw [if_neg hcap]
    omega

/-- A rate that is too high breaks the bounds. -/
theorem unbounded_of_lt (hr : r ∈ rates) (h64 : IsInt64 r) (hrate : maxSafeRate < r) :
    ∃ c, LimiterReach rates c ∧ 0 < c.shared.limiter.bytesPerSecond ∧
      ¬ c.shared.limiter.Bounded := by
  have hsafe : maxSafeRate = 4392081922311798003 := rfl
  have hmax := h64.upper
  by_cases hlarge : 2 ^ 62 ≤ r
  · -- the size of the bucket is negative from the start
    refine ⟨startedAt r, .start ⟨r, hr, startedAt_started r⟩, ?_, ?_⟩
    · unfold startedAt newLimiter
      rw [if_neg (by omega)]
      dsimp only
      omega
    · rintro ⟨-, -, hsize, -⟩
      unfold startedAt newLimiter at hsize
      rw [if_neg (by omega)] at hsize
      dsimp only at hsize
      rw [wrap64_of_ge (by omega) (by omega)] at hsize
      omega
  · -- the tick after the bucket is full makes it negative
    obtain ⟨c, hreach, hloop, hticker, hrate, hmax, hlow, hfrac, hfrac', hsum⟩ :=
      reach_filled hr (by omega) (not_le.mp hlarge) 10 le_rfl
    have hfull : c.shared.limiter.bucket = 2 * r ∧ c.shared.limiter.fracAccum = 0 := by omega
    refine ⟨_, reach_tick hreach hloop hticker (by omega), ?_, ?_⟩
    · show 0 < c.shared.limiter.bytesPerSecond
      omega
    · rintro ⟨hnonneg, -⟩
      have hdiv : r.tdiv 10 = r / 10 := tdiv_eq_ediv_of_nonneg (by omega)
      have hmod : r.tmod 10 = r % 10 := tmod_eq_emod_of_nonneg (by omega)
      have hfilled : c.shared.limiter.filled r = (2 * r + r / 10 - 2 ^ 64, r % 10) := by
        unfold Limiter.filled
        rw [hfull.1, hfull.2, hdiv, hmod, wrap64_of_ge (by omega) (by omega), zero_add,
          wrap64_of_lt (by omega) (by omega)]
        exact if_neg (by omega)
      rw [hrate] at hnonneg
      dsimp only [refill, Limiter.refill] at hnonneg
      rw [hfilled, if_neg (by dsimp only; omega)] at hnonneg
      dsimp only at hnonneg
      omega

end

/-- **The bucket stays within its bounds exactly if no rate is too high.** -/
theorem bucket_bounds_iff {rates : Set Int} (h64 : ∀ r ∈ rates, IsInt64 r) :
    (∀ c, LimiterReach rates c → 0 < c.shared.limiter.bytesPerSecond →
      c.shared.limiter.Bounded) ↔ ∀ r ∈ rates, r ≤ maxSafeRate := by
  constructor
  · intro hbounds r hr
    by_contra hrate
    obtain ⟨c, hreach, hpos, hnot⟩ := unbounded_of_lt hr (h64 r hr) (not_le.mp hrate)
    exact hnot (hbounds c hreach hpos)
  · intro hrates c hreach hpos
    have hinv := limiterInv_reach hrates hreach
    exact hinv.limiter.bounded (hinv.limiter.ticker hpos)

/-- At a hundred bytes a second the bucket stays within its bounds. -/
theorem bucket_bounds_hundred :
    (∀ r ∈ ({100} : Set Int), IsInt64 r) ∧ ∀ c, LimiterReach {100} c →
      0 < c.shared.limiter.bytesPerSecond → c.shared.limiter.Bounded := by
  have h64 : ∀ r ∈ ({100} : Set Int), IsInt64 r := by
    rintro r rfl
    decide
  refine ⟨h64, (bucket_bounds_iff h64).mpr ?_⟩
  rintro r rfl
  decide

/-- Twice this rate is no `int64`: the bucket has a negative size, and a tick empties it to that. -/
theorem bucket_negative :
    ∃ c, LimiterReach {2 ^ 62} c ∧ 0 < c.shared.limiter.bytesPerSecond ∧
      c.shared.limiter.maxBucket = -2 ^ 63 ∧ c.shared.limiter.bucket = -2 ^ 63 := by
  have hcompute : ((run next (startedAt (2 ^ 62))
      [(0, .tick), (0, .load), (0, .lock)]).any fun c =>
        decide (0 < c.shared.limiter.bytesPerSecond ∧ c.shared.limiter.maxBucket = -2 ^ 63 ∧
          c.shared.limiter.bucket = -2 ^ 63)) = true := by
    decide +kernel
  obtain ⟨c, hrun, hfacts⟩ := (any_eq_true _ _).mp hcompute
  refine ⟨c, run_reach_allowed (.start ⟨_, rfl, startedAt_started _⟩) ?_ hrun,
    of_decide_eq_true hfacts⟩
  rintro ⟨i, e⟩ hp - r rfl
  simp at hp

/-! ## Conservation -/

/-- The runs of a limiter whose rate is never changed. -/
def FixedRateReach (rate : Int) : Config LimiterState LimiterPc → Prop :=
  Reach next (fun _ _ e => ∀ r, e ≠ .setRate r) (Started rate)

/-- The tokens a call has taken so far. -/
def LimiterPc.got : LimiterPc → Int
  | .caller (.top n left) => n - left
  | .caller (.loaded n left) => n - left
  | .caller (.pause n left) => n - left
  | _ => 0

theorem LimiterPc.Sound.got_nonneg {ticker : Bool} {t : LimiterPc} (h : t.Sound ticker) :
    0 ≤ t.got := by
  cases t with
  | refill pc => exact le_rfl
  | caller pc =>
    cases pc with
    | idle => exact le_rfl
    | top n left => exact sub_nonneg_of_le h.2
    | loaded n left => exact sub_nonneg_of_le h.2
    | pause n left => exact sub_nonneg_of_le h.2

/-- What is in the bucket and what was taken from it, in tenths. -/
def LimiterState.tenths (s : LimiterState) : Int :=
  10 * (s.tally.taken + s.limiter.bucket) + s.limiter.fracAccum

/-- The books of a limiter with a fixed rate. -/
structure LimiterState.Balanced (rate : Int) (s : LimiterState) : Prop where
  fixed : s.limiter.bytesPerSecond = rate
  /-- a refill that hits the size of the bucket loses tokens -/
  upper : s.tenths ≤ 10 * rate + s.tally.ticks * rate
  exact : s.tally.capped = false → s.tenths = 10 * rate + s.tally.ticks * rate

structure TokensConserved (rate : Int) (c : Config LimiterState LimiterPc) : Prop where
  inv : LimiterInv c
  balanced : c.shared.Balanced rate
  loaded : ∀ i r, c.thread i = .refill (.loaded r) → r = rate
  /-- what calls were granted and what calls have got so far was taken -/
  granted : ∃ x, TotalOver LimiterPc.got c.thread x ∧ c.shared.tally.granted + x ≤ c.shared.tally.taken

section
variable {s : LimiterState}

theorem balanced_refill (h : s.Balanced rate) (hlimiter : s.limiter.Sound)
    (hticker : s.limiter.ticker = true) (hpos : 0 < rate) (hrate : rate ≤ maxSafeRate) :
    (s.refill rate).Balanced rate := by
  obtain ⟨hlow, hhigh, -, hfrac, hfrac'⟩ := hlimiter.bounded hticker
  have hsize := hlimiter.size
  have hsafe : maxSafeRate = 4392081922311798003 := rfl
  obtain ⟨hfilled, -⟩ := filled_spec hlow hfrac hfrac' hpos (by omega)
  have hnext : ((s.tally.ticks + 1 : Nat) : Int) * rate = s.tally.ticks * rate + rate := by
    rw [Int.natCast_add, Int.add_mul, Int.natCast_one, Int.one_mul]
  have hupper := h.upper
  have hexact := h.exact
  unfold tenths at hupper hexact
  refine ⟨h.fixed, ?_, ?_⟩
  · unfold tenths refill Limiter.refill
    dsimp only
    rw [hnext]
    split <;> omega
  · intro hcapped
    obtain ⟨hbefore, hfits⟩ := Bool.or_eq_false_iff.mp hcapped
    have hexact := hexact hbefore
    unfold tenths refill Limiter.refill
    dsimp only
    rw [hnext, if_neg (of_decide_eq_false hfits)]
    omega

theorem balanced_take (h : s.Balanced rate) (hlimiter : s.limiter.Sound) {left : Int}
    (hleft : 0 < left) (hticker : s.limiter.ticker = true) : (s.take left).Balanced rate := by
  obtain ⟨hlow, hhigh, -⟩ := hlimiter.bounded hticker
  have hsize := hlimiter.size
  have hsafe : maxSafeRate = 4392081922311798003 := rfl
  obtain ⟨hfrac, -, hrate, -⟩ := take_fields s.limiter left
  obtain ⟨hbucket, -⟩ := take_spec hleft hlow (by omega)
  have hsame : (s.take left).tenths = s.tenths := by
    unfold tenths take
    dsimp only
    rw [hfrac, hbucket]
    omega
  refine ⟨hrate.trans h.fixed, ?_, fun hcapped => ?_⟩
  · rw [hsame]
    exact h.upper
  · rw [hsame]
    exact h.exact hcapped

end

theorem conserved_step (hpos : 0 < rate) (hrate : rate ≤ maxSafeRate) (h : TokensConserved rate c)
    (hfixed : ∀ r, e ≠ .setRate r) (heffect : LimiterEffect c.shared (c.thread i) e s' t') :
    TokensConserved rate ⟨s', update c.thread i t'⟩ := by
  have hinv := limiterInv_step h.inv (fun r he => absurd he (hfixed r)) heffect
  have hticker : c.shared.limiter.ticker = true :=
    h.inv.limiter.ticker (by rw [h.balanced.fixed]; exact hpos)
  obtain ⟨x, htotal, hgranted⟩ := h.granted
  have hi := h.inv.threads i
  have hloaded := h.loaded i
  -- what is left to see is the state and what the thread that moved contributes
  suffices hmoved : s'.Balanced rate ∧ (∀ r, t' = .refill (.loaded r) → r = rate) ∧
      s'.tally.granted + (x + t'.got - (c.thread i).got) ≤ s'.tally.taken by
    obtain ⟨hbalanced, hthread, hgranted'⟩ := hmoved
    refine ⟨hinv, hbalanced, fun j r hj => ?_, _, htotal.update i t', hgranted'⟩
    by_cases hji : j = i
    · rw [hji] at hj
      exact hthread r ((update_self i t' c.thread).symm.trans hj)
    · exact h.loaded j r ((update_of_ne hji t' c.thread).symm.trans hj)
  clear hinv htotal
  generalize c.thread i = t at hi hloaded heffect
  cases heffect with
  | tick _ => exact ⟨h.balanced, nofun, by simpa [LimiterPc.got] using hgranted⟩
  | exit => exact ⟨h.balanced, nofun, by simpa [LimiterPc.got] using hgranted⟩
  | loadRate _ =>
    refine ⟨h.balanced, fun r hr => ?_, by simpa [LimiterPc.got] using hgranted⟩
    cases hr
    exact h.balanced.fixed
  | skip => exact ⟨h.balanced, nofun, by simpa [LimiterPc.got] using hgranted⟩
  | refill r =>
    obtain rfl := hloaded r rfl
    refine ⟨balanced_refill h.balanced h.inv.limiter hticker hpos hrate, nofun, ?_⟩
    dsimp only [refill, LimiterPc.got]
    omega
  | call _ => exact ⟨h.balanced, nofun, by simpa [LimiterPc.got] using hgranted⟩
  | callNone hn =>
    refine ⟨⟨h.balanced.1, h.balanced.2, h.balanced.3⟩, nofun, ?_⟩
    dsimp only [grant, LimiterPc.got]
    omega
  | unlimited n left hnone =>
    rw [h.balanced.fixed] at hnone
    exact absurd hpos (not_lt.mpr hnone)
  | load n left => exact ⟨h.balanced, nofun, by simpa [LimiterPc.got] using hgranted⟩
  | @takeSome n left hleft =>
    refine ⟨balanced_take h.balanced h.inv.limiter hi.1 hticker, nofun, ?_⟩
    dsimp only [take, LimiterPc.got]
    omega
  | @takeAll n left hleft =>
    have hbalanced := balanced_take h.balanced h.inv.limiter hi.1 hticker
    refine ⟨⟨hbalanced.1, hbalanced.2, hbalanced.3⟩, nofun, ?_⟩
    dsimp only [grant, take, LimiterPc.got]
    omega
  | wake n left => exact ⟨h.balanced, nofun, by simpa [LimiterPc.got] using hgranted⟩
  | cancel n left =>
    refine ⟨h.balanced, nofun, ?_⟩
    have hgot := hi.2
    dsimp only [LimiterPc.got]
    omega
  | setRate r => exact absurd rfl (hfixed r)
  | stop =>
    exact ⟨⟨h.balanced.1, h.balanced.2, h.balanced.3⟩, nofun,
      by simpa [LimiterPc.got] using hgranted⟩

theorem conserved_reach (hpos : 0 < rate) (hrate : rate ≤ maxSafeRate) (h : FixedRateReach rate c) :
    TokensConserved rate c := by
  refine Reach.invariant (TokensConserved rate) ?_ ?_ h
  · rintro c ⟨hshared, hloop, hcallers⟩
    have hidle : ∀ i, (c.thread i).got = 0 := by
      intro i
      by_cases hi : i = 0
      · rw [hi, hloop]
        rfl
      · rw [hcallers i hi]
        rfl
    have hnew : newLimiter rate = ⟨rate, rate, 0, rate * 2, true, false⟩ := by
      unfold newLimiter
      rw [if_neg (not_le.mpr hpos), wrap64_double hpos hrate]
      rfl
    have hinv : LimiterInv c := @limiterInv_reach _ {rate} (by simpa using hrate)
      (.start ⟨rate, rfl, hshared, hloop, hcallers⟩)
    refine ⟨hinv, ?_, fun i r hi => ?_, 0, totalOver_zero hidle, ?_⟩
    · rw [hshared, hnew]
      exact ⟨rfl, by simp [tenths], fun _ => by simp [tenths]⟩
    · by_cases hi0 : i = 0
      · rw [hi0, hloop] at hi
        cases hi
      · rw [hcallers i hi0] at hi
        cases hi
    · rw [hshared]
      exact le_rfl
  · intro c i e s' t' hinv hfixed hnext
    exact conserved_step hpos hrate hinv hfixed (limiter_next_effect hnext)

/-- **At a fixed rate no token is lost or invented.** -/
theorem tokens_conserved {rate : Int} (hpos : 1 ≤ rate) (hrate : rate ≤ 2 ^ 61)
    {c : Config LimiterState LimiterPc} (h : FixedRateReach rate c) :
    let tally := c.shared.tally
    let l := c.shared.limiter
    tally.granted ≤ tally.taken ∧ tally.taken ≤ rate + tally.ticks * rate / 10 ∧
      (tally.capped = false →
        10 * (tally.taken + l.bucket) + l.fracAccum = 10 * rate + tally.ticks * rate) := by
  have hsafe : maxSafeRate = 4392081922311798003 := rfl
  have hconserved := conserved_reach (by omega) (by omega) h
  have hticker := hconserved.inv.limiter.ticker (by rw [hconserved.balanced.fixed]; omega)
  obtain ⟨hlow, -, -, hfrac, -⟩ := hconserved.inv.limiter.bounded hticker
  obtain ⟨x, htotal, hgranted⟩ := hconserved.granted
  have hx : 0 ≤ x := htotal.nonneg fun i => (hconserved.inv.threads i).got_nonneg
  have hupper := hconserved.balanced.upper
  unfold tenths at hupper
  refine ⟨?_, ?_, hconserved.balanced.exact⟩
  · omega
  · omega

/-- Three of five tokens are taken, and a tick brings half a token. -/
theorem tokens_conserved_sample :
    ∃ c, FixedRateReach 5 c ∧ c.shared.tally.granted = 3 ∧ c.shared.tally.ticks = 1 ∧
      c.shared.tally.taken ≤ 5 + c.shared.tally.ticks * 5 / 10 ∧
      10 * (c.shared.tally.taken + c.shared.limiter.bucket) + c.shared.limiter.fracAccum =
        10 * 5 + c.shared.tally.ticks * 5 := by
  have hcompute : ((run next (startedAt 5)
      [(1, .waitN 3), (1, .load), (1, .lock), (0, .tick), (0, .load), (0, .lock)]).any fun c =>
        decide (c.shared.tally.granted = 3 ∧ c.shared.tally.ticks = 1 ∧
          c.shared.tally.capped = false)) = true := by
    decide +kernel
  obtain ⟨c, hrun, hfacts⟩ := (any_eq_true _ _).mp hcompute
  obtain ⟨hgranted, hticks, hcapped⟩ := of_decide_eq_true hfacts
  have hreach : FixedRateReach 5 c := by
    refine run_reach_allowed (.start (startedAt_started 5)) ?_ hrun
    rintro ⟨i, e⟩ hp - r rfl
    simp at hp
  obtain ⟨-, hupper, hexact⟩ := tokens_conserved (by decide) (by decide) hreach
  exact ⟨c, hreach, hgranted, hticks, hupper, hexact hcapped⟩

end GbfCore
