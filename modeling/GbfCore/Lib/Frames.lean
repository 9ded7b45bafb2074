import GbfCore.Lib.Bytes

/-!
# Reading a counted sequence of frames

A container announces a number of frames and then holds the frames one after
another. A reader is given by `cut`, which splits one frame off the front of the
data or fails, and by `decode`, which turns a frame into its payload or fails.

- `readFrames cut decode n` reads `n` frames and returns their payloads, put
  together, and what is left over.
- `readFrames_range`: frames written one after another are read back, whatever
  follows them, as soon as each frame on its own is. The last frame may need to
  know what follows (its length need not be written down).
- `readFrames_shorter`, `readFrames_longer`: data that is cut off, or that is
  followed by more, is not read to its end, if that is so for each frame.
- `FrameLoop`: what one turn of a decoder's loop does. `FrameLoop.run_eq` says
  what the whole loop computes, so that two decoders whose turns agree agree.
-/

namespace GbfCore

open List Option Nat

universe u

variable {α : Type u}

/-- The payload of the first `n` frames of the data, and the data after them. -/
def readFrames (cut : Bytes → Option (α × Bytes)) (decode : α → Option Bytes) :
    Nat → Bytes → Option (Bytes × Bytes)
  | 0, data => some ([], data)
  | n + 1, data =>
    (cut data).bind fun r => (decode r.1).bind fun p =>
      (readFrames cut decode n r.2).map fun t => (p ++ t.1, t.2)

section
variable (cut : Bytes → Option (α × Bytes)) (decode : α → Option Bytes)

@[simp] theorem readFrames_zero (data : Bytes) : readFrames cut decode 0 data = some ([], data) :=
  rfl

theorem readFrames_succ (n : Nat) (data : Bytes) :
    readFrames cut decode (n + 1) data =
      (cut data).bind fun r => (decode r.1).bind fun p =>
        (readFrames cut decode n r.2).map fun t => (p ++ t.1, t.2) := rfl

variable {cut decode} {render : α → Bytes}

/-- **Frames written one after another are read back**, when each of them is cut
back from whatever follows it and decodes to its part. -/
theorem readFrames_range {tail : Bytes} : ∀ {n : Nat} {frame : Nat → α} {part : Nat → Bytes},
    (∀ i < n, ∀ t, (i + 1 = n → t = tail) → cut (render (frame i) ++ t) = some (frame i, t)) →
    (∀ i < n, decode (frame i) = some (part i)) →
    readFrames cut decode n ((range n).flatMap (fun i => render (frame i)) ++ tail) =
      some ((range n).flatMap part, tail)
  | 0, _, _, _, _ => rfl
  | n + 1, frame, part, hcut, hdec => by
    -- the frames after the first are those of the shifted sequence
    have ih : readFrames cut decode n
        ((range n).flatMap (fun i => render (frame (i + 1))) ++ tail) =
          some ((range n).flatMap (fun i => part (i + 1)), tail) :=
      readFrames_range
        (fun i hi t ht => hcut (i + 1) (succ_lt_succ hi) t fun h => ht (succ.inj h))
        (fun i hi => hdec (i + 1) (succ_lt_succ hi))
    have hfirst := hcut 0 (succ_pos n)
      ((range n).flatMap (fun i => render (frame (i + 1))) ++ tail) (by
        intro hn
        rw [← succ.inj hn]
        rfl)
    rw [range_succ_eq_map, flatMap_cons, flatMap_cons, flatMap_map,
      flatMap_map, append_assoc, readFrames_succ, hfirst, bind_some,
      hdec 0 (succ_pos n), bind_some, ih]
    rfl

/-! ## Frames that are cut off or followed by more -/

/-- The first frame of the data is missing or does not decode. -/
def Unreadable (cut : Bytes → Option (α × Bytes)) (decode : α → Option Bytes) (data : Bytes) :
    Prop :=
  ((cut data).bind fun r => decode r.1) = none

theorem Unreadable.readFrames {data : Bytes} (h : Unreadable cut decode data) (n : Nat) :
    readFrames cut decode (n + 1) data = none := by
  rw [readFrames_succ]
  unfold Unreadable at h
  cases hcut : cut data with
  | none => rfl
  | some r =>
    rw [hcut, bind_some] at h
    rw [bind_some, h]
    rfl

/-- A frame with what follows it is cut back, or it is not readable. -/
def Delimited (cut : Bytes → Option (α × Bytes)) (decode : α → Option Bytes)
    (render : α → Bytes) (f : α) : Prop :=
  ∀ t, cut (render f ++ t) = some (f, t) ∨ Unreadable cut decode (render f ++ t)

/-- **Frames that are cut off are not read.** -/
theorem readFrames_shorter : ∀ {n : Nat} {frame : Nat → α} {x : Bytes},
    (∀ i < n, Delimited cut decode render (frame i)) →
    (∀ i < n, ∀ y, y <+: render (frame i) → y ≠ render (frame i) → Unreadable cut decode y) →
    x <+: (range n).flatMap (fun i => render (frame i)) →
    x ≠ (range n).flatMap (fun i => render (frame i)) → readFrames cut decode n x = none
  | 0, _, x, _, _, hx, hne => absurd (prefix_nil.mp hx) hne
  | n + 1, frame, x, hcut, hshort, hx, hne => by
    rw [range_succ_eq_map, flatMap_cons, flatMap_map] at hx hne
    have hrest : (∀ i < n, Delimited cut decode render (frame (i + 1))) ∧
        ∀ i < n, ∀ y, y <+: render (frame (i + 1)) → y ≠ render (frame (i + 1)) →
          Unreadable cut decode y :=
      ⟨fun i hi => hcut (i + 1) (succ_lt_succ hi),
        fun i hi => hshort (i + 1) (succ_lt_succ hi)⟩
    -- the data ends within the first frame or behind it
    by_cases hwhole : render (frame 0) <+: x
    · obtain ⟨x', rfl⟩ := hwhole
      have hx' := (prefix_append_right_inj _).mp hx
      have hne' := fun heq => hne (congrArg (render (frame 0) ++ ·) heq)
      rcases hcut 0 (succ_pos n) x' with hsome | hnone
      · rw [readFrames_succ, hsome, bind_some, readFrames_shorter hrest.1 hrest.2 hx' hne']
        cases decode (frame 0) <;> rfl
      · exact hnone.readFrames n
    · refine (hshort 0 (succ_pos n) x ?_ ?_).readFrames n
      · exact ( prefix_or_prefix_of_prefix hx (prefix_append _ _)).resolve_right hwhole
      · rintro rfl
        exact hwhole (prefix_refl _)

/-- **Frames with something behind them are not read to the end of the data.** -/
theorem readFrames_longer {t : Bytes} (ht : t ≠ []) : ∀ {n : Nat} {frame : Nat → α} {p : Bytes},
    (∀ i < n, Delimited cut decode render (frame i)) →
    readFrames cut decode n ((range n).flatMap (fun i => render (frame i)) ++ t) ≠ some (p, [])
  | 0, _, _, _ => fun h => ht (Prod.mk.inj (Option.some.inj h)).2
  | n + 1, frame, p, hcut => by
    have hrest : ∀ i < n, Delimited cut decode render (frame (i + 1)) :=
      fun i hi => hcut (i + 1) (succ_lt_succ hi)
    rw [range_succ_eq_map, flatMap_cons, flatMap_map, append_assoc]
    rcases hcut 0 (succ_pos n)
      ((range n).flatMap (fun i => render (frame (i + 1))) ++ t) with hsome | hnone
    · intro h
      rw [readFrames_succ, hsome, bind_some] at h
      obtain ⟨q, -, h⟩ := bind_eq_some_iff.mp h
      obtain ⟨⟨q', rest⟩, hread, heq⟩ := map_eq_some_iff.mp h
      obtain ⟨-, rfl⟩ := Prod.mk.inj heq
      exact readFrames_longer ht hrest hread
    · intro h
      rw [hnone.readFrames n] at h
      cases h

end

/-! ## Loops over frames -/

/-- A decoder's loop: `run n i data acc` has `n` frames to go, is at frame `i`,
and has `acc` decoded so far. A turn fails when the frame is missing or does not
decode. -/
structure FrameLoop (cut : Bytes → Option (α × Bytes)) (decode : α → Option Bytes)
    (run : Nat → Nat → Bytes → Bytes → Option (Bytes × Bytes)) : Prop where
  run_zero : ∀ i data acc, run 0 i data acc = some (acc, data)
  run_succ : ∀ n i data acc, run (n + 1) i data acc =
    (cut data).bind fun r => (decode r.1).bind fun p => run n (i + 1) r.2 (acc ++ p)

/-- **A loop over frames reads the announced frames**: it fails when one of them
is missing or does not decode, and otherwise appends their payloads and stops
after the last one. -/
theorem FrameLoop.run_eq {cut : Bytes → Option (α × Bytes)} {decode : α → Option Bytes}
    {run : Nat → Nat → Bytes → Bytes → Option (Bytes × Bytes)} (L : FrameLoop cut decode run) :
    ∀ n i data acc,
      run n i data acc = (readFrames cut decode n data).map fun r => (acc ++ r.1, r.2)
  | 0, i, data, acc => by
    simp [L.run_zero]
  | n + 1, i, data, acc => by
    rw [L.run_succ, readFrames_succ]
    cases cut data with
    | none => rfl
    | some r =>
      cases hdec : decode r.1 with
      | none => simp [hdec]
      | some p => simp [hdec, L.run_eq n, append_assoc, Function.comp_def]

end GbfCore
