import GbfCore.Manifest.Codec
import GbfCore.Pipeline.Assembly

/-!
# Modification times (pipeline.go, manifest.go)

`scanSourceTree` records the modification time of a file as a text, the manifest stores the
text, the next run compares it with the text of the day, and `MtimeTime` reads it for the
restore. The text has whole seconds only: two times have the same text exactly if they are in
the same second, and the time that is restored is the beginning of that second. So the times
survive to the microsecond exactly if the two do not differ within one second and the first
is at most a microsecond behind its beginning (`mtime_survives_iff`).
-/

namespace GbfCore

variable {scanPath : Bytes} {F : Filters}

/-- `time.Time{}` -/
def Instant.zero : Instant := ⟨-62135596800, 0, Instant.zero_nsec_lt⟩

/-- `MtimeTime`. -/
def FileEntry.mtimeTime (f : FileEntry) : Instant :=
  if f.mtime = [] then .zero
  else
    match parseRFC3339 f.mtime with
    | none => .zero
    | some (unix, nsec) => if h : nsec < 10 ^ 9 then ⟨unix, nsec, h⟩ else .zero

/-! ## What is recorded -/

/-- The walk of `scanSourceTree` comes to a file with this modification time and records
it. -/
def Records (F : Filters) (scanPath : Bytes) (modTime : Instant) (fe : ScanEntry) : Prop :=
  ∃ path name size mode, (scanNode F scanPath path (.file name size modTime mode)).files = [fe]

theorem Records.mtime {modTime : Instant} {fe : ScanEntry} (h : Records F scanPath modTime fe) :
    fe.mtime = formatRFC3339 modTime.unix := by
  obtain ⟨path, name, size, mode, hfiles⟩ := h
  unfold scanNode at hfiles
  dsimp only at hfiles
  split at hfiles
  · cases hfiles
  split at hfiles
  · cases hfiles
  · cases hfiles
    rfl

mutual

/-- The files of a scan are recorded one by one. -/
theorem records_of_mem_scanNode : ∀ {n : Node} {path : Bytes} {fe : ScanEntry},
    fe ∈ (scanNode F scanPath path n).files → ∃ t, Records F scanPath t fe
  | .lost _, _, _, h => by simp [scanNode, Scan.failed] at h
  | .file name size modTime mode, path, fe, h => by
    refine ⟨modTime, path, name, size, mode, ?_⟩
    unfold scanNode at h ⊢
    dsimp only at h ⊢
    split at h
    · cases h
    split at h
    · cases h
    · rename_i hexcluded hsize
      rw [if_neg hexcluded, if_neg hsize]
      exact congrArg (fun fe => [fe]) (List.mem_singleton.mp h).symm
  | .dir name readable modTime mode children, path, fe, h => by
    unfold scanNode at h
    dsimp only at h
    split at h
    · cases h
    split at h
    · cases h
    split at h
    · cases h
    · exact records_of_mem_scanNodes h

theorem records_of_mem_scanNodes : ∀ {ns : List Node} {path : Bytes} {fe : ScanEntry},
    fe ∈ (scanNodes F scanPath path ns).files → ∃ t, Records F scanPath t fe
  | [], _, _, h => by cases h
  | n :: ns, path, fe, h => by
    unfold scanNodes at h
    rcases List.mem_append.mp h with h | h
    · exact records_of_mem_scanNode h
    · exact records_of_mem_scanNodes h

end

theorem records_of_mem_scan {root : Option (List Node)} {fe : ScanEntry}
    (h : fe ∈ (scanSourceTree F scanPath root).files) :
    ∃ t, Records F scanPath t fe := by
  cases root with
  | none => cases h
  | some children => exact records_of_mem_scanNodes h

/-- The entry of a file in a manifest, as it is read back: `makeFileEntry` with any content
and status. -/
def storedEntry (fe : ScanEntry) (contentHash status : Bytes) (chunks : List ChunkRef) : FileEntry :=
  FileEntry.sanitized { makeFileEntry fe contentHash status with chunks := chunks }

section
variable {t : Instant} {fe : ScanEntry}
variable (h : Records F scanPath t fe) (hyear : t.FourDigits)
include h hyear

/-- The text of a time is not changed by the encoding. -/
theorem mtime_storedEntry (contentHash status : Bytes) (chunks : List ChunkRef) :
    (storedEntry fe contentHash status chunks).mtime = formatRFC3339 t.unix := by
  show coerce fe.mtime = _
  rw [h.mtime, coerce_of_valid (validString_of_ascii (ascii_formatRFC3339 hyear.year_nonneg))]

/-- **A time comes back as the beginning of its second.** -/
theorem mtimeTime_storedEntry (contentHash status : Bytes) (chunks : List ChunkRef) :
    (storedEntry fe contentHash status chunks).mtimeTime = ⟨t.unix, 0, by decide⟩ := by
  have hparse := hyear.parse
  have hne : formatRFC3339 t.unix ≠ [] := by simp [formatRFC3339, ascii]
  unfold FileEntry.mtimeTime
  rw [mtime_storedEntry h hyear, if_neg hne, hparse]
  rfl

end

/-! ## Main result -/

/-- The times survive: different texts for times that differ to the microsecond, so that the
fast path of the next run does not take the one file for the other, and a restored time that
is at most a microsecond away. -/
structure TimesSurvive (t₁ t₂ : Instant) (fe₁ fe₂ : ScanEntry) : Prop where
  told : fe₁.mtime = fe₂.mtime → t₁.unixMicro = t₂.unixMicro
  reread : t₁.unixMicro < t₂.unixMicro → ∀ (contentHash status : Bytes) (chunks : List ChunkRef)
    (env : Env) (s : Blobs) (entry : FileEntry),
    fastPathEntry env s fe₂ (some (storedEntry fe₁ contentHash status chunks)) ≠
      some (.ok (some entry))
  restored : ∀ (contentHash status : Bytes) (chunks : List ChunkRef),
    |(storedEntry fe₁ contentHash status chunks).mtimeTime.unixNano - t₁.unixNano| ≤ 1000

/-- **When the times survive the manifest.** -/
theorem mtime_survives_iff {F₁ F₂ : Filters} {scanPath₁ scanPath₂ : Bytes} {t₁ t₂ : Instant}
    {fe₁ fe₂ : ScanEntry} (h₁ : Records F₁ scanPath₁ t₁ fe₁) (h₂ : Records F₂ scanPath₂ t₂ fe₂)
    (hyear₁ : t₁.FourDigits) (hyear₂ : t₂.FourDigits) :
    TimesSurvive t₁ t₂ fe₁ fe₂ ↔
      (t₁.unix = t₂.unix → t₁.nsec / 1000 = t₂.nsec / 1000) ∧ t₁.nsec ≤ 1000 := by
  have hsame : fe₁.mtime = fe₂.mtime ↔ t₁.unix = t₂.unix := by
    rw [h₁.mtime, h₂.mtime, formatRFC3339_inj hyear₁ hyear₂]
  have hmicro : (t₁.unix = t₂.unix → t₁.unixMicro = t₂.unixMicro) ↔
      (t₁.unix = t₂.unix → t₁.nsec / 1000 = t₂.nsec / 1000) := by
    unfold Instant.unixMicro
    omega
  have hdistance : ∀ contentHash status chunks,
      |(storedEntry fe₁ contentHash status chunks).mtimeTime.unixNano - t₁.unixNano| = t₁.nsec := by
    intro contentHash status chunks
    have hdiff : Instant.unixNano ⟨t₁.unix, 0, by decide⟩ - t₁.unixNano = -(t₁.nsec : Int) := by
      show t₁.unix * 10 ^ 9 + ((0 : Nat) : Int) - (t₁.unix * 10 ^ 9 + t₁.nsec) = _
      omega
    rw [mtimeTime_storedEntry h₁ hyear₁, hdiff, abs_neg, Nat.abs_cast]
  constructor
  · intro h
    refine ⟨hmicro.mp fun heq => h.told (hsame.mpr heq), ?_⟩
    have hrestored := h.restored [] [] []
    rw [hdistance] at hrestored
    omega
  · rintro ⟨hcond, hbegin⟩
    refine ⟨fun heq => hmicro.mpr hcond (hsame.mp heq), ?_, ?_⟩
    · intro hlater contentHash status chunks env s entry hfast
      have hdiffer : ¬ sameMetadata fe₂ (storedEntry fe₁ contentHash status chunks) = true := by
        intro hmeta
        have hmtime : (storedEntry fe₁ contentHash status chunks).mtime = fe₂.mtime := by
          simp only [sameMetadata, Bool.and_eq_true, decide_eq_true_eq] at hmeta
          exact hmeta.1.1
        rw [mtime_storedEntry h₁ hyear₁, ← h₁.mtime] at hmtime
        have := hmicro.mpr hcond (hsame.mp hmtime)
        omega
      unfold fastPathEntry at hfast
      dsimp only at hfast
      rw [if_neg hdiffer] at hfast
      cases hfast
    · intro contentHash status chunks
      rw [hdistance]
      omega

/-! ## A file that is rewritten -/

/-- The beginning of 2024 and some nanoseconds. -/
def newYear (nsec : Nat) (h : nsec < 10 ^ 9) : Instant := ⟨1704067200, nsec, h⟩

theorem newYear_fourDigits : (newYear 0 (by decide)).FourDigits :=
  ⟨by decide, by decide, by decide +kernel, by decide +kernel⟩

/-- The file `/src/a` of four bytes. -/
def scannedAt (t : Instant) : ScanEntry := ⟨ascii "a", ascii "/src/a", 4, formatRFC3339 t.unix, 0o644⟩

theorem records_scannedAt (t : Instant) :
    Records noFilters (ascii "/src") t (scannedAt t) := by
  refine ⟨ascii "/src", ascii "a", 4, 0o644, ?_⟩
  unfold scanNode
  exact congrArg (fun p => [(⟨p.1, p.2, 4, formatRFC3339 t.unix, 0o644⟩ : ScanEntry)])
    (by decide +kernel : (pathRel (ascii "/src") (pathJoin [ascii "/src", ascii "a"]),
      pathJoin [ascii "/src", ascii "a"]) = (ascii "a", ascii "/src/a"))

/-- At the full second, and rewritten in the next one. -/
theorem mtime_survives_newYear :
    TimesSurvive (newYear 0 (by decide)) ⟨1704067201, 5000, by decide⟩
      (scannedAt (newYear 0 (by decide))) (scannedAt ⟨1704067201, 5000, by decide⟩) :=
  (mtime_survives_iff (records_scannedAt _) (records_scannedAt _) newYear_fourDigits
    ⟨by decide, by decide, by decide +kernel, by decide +kernel⟩).mpr ⟨by decide, by decide⟩

/-- The passes over the file after it was rewritten. -/
def newContentEnv : Env :=
  .faultless (.delivering (fun _ => [1, 2, 3, 4]) [1, 2, 3, 4])
    (.delivering (fun _ => [1, 2, 3, 4]) [1, 2, 3, 4])

/-- The name of the blob of the first content, which is `zstdMagic`. -/
def magicHash : Bytes := samplePrimitives.contentHash zstdMagic

/-- A file of four bytes is rewritten half a second later. The next run does not read it and
records the first content. -/
theorem rewritten_file_skipped :
    Records noFilters (ascii "/src")
        (newYear 500000000 (by decide)) (scannedAt (newYear 500000000 (by decide))) ∧
      (newYear 0 (by decide)).unixMicro < (newYear 500000000 (by decide)).unixMicro ∧
      (processFile samplePrimitives samplePipeline newContentEnv
          (Blobs.empty.put magicHash (sealedBlob samplePrimitives samplePipeline
            (newContentEnv.draws 0) zstdMagic))
          (scannedAt (newYear 500000000 (by decide)))
          (some (storedEntry (scannedAt (newYear 0 (by decide))) magicHash fileStatusNew []))).1.map
        (fun r => (r.entry.contentHash, r.entry.status)) = .ok (magicHash, fileStatusUnchanged) :=
  ⟨records_scannedAt _, by decide, by decide +kernel⟩

/-! ## Times that are numbers -/

/-- The time of a file whose `mtime` is this value of a manifest; `none` if the value is
refused. -/
def mtimeOfJson (v : Json.Value) : Option Instant :=
  (decodeFlexTime v []).map fun mtime => FileEntry.mtimeTime { FileEntry.zero with mtime }

/-- Seconds as a text, and read back. -/
theorem mtimeTime_format {s : Int} (hlo : 0 ≤ s) (hhi : s < 10 ^ 10) :
    FileEntry.mtimeTime { FileEntry.zero with mtime := formatRFC3339Nano s 0 } =
      ⟨s, 0, by decide⟩ := by
  have htext : formatRFC3339Nano s 0 = formatRFC3339 s := by
    simp [formatRFC3339Nano, formatRFC3339, fracText]
  have hne : formatRFC3339 s ≠ [] := by simp [formatRFC3339, ascii]
  have hyear : Instant.FourDigits ⟨s, 0, by decide⟩ := Instant.fourDigits_of_lt hlo hhi _
  have hparse := hyear.parse
  unfold FileEntry.mtimeTime
  dsimp only
  rw [htext, if_neg hne, hparse]
  rfl

/-- A number of the unit that its size stands for. -/
theorem mtimeOfJson_of_flexTime {n s : Int} (hlo : 0 ≤ n) (hn : n < 2 ^ 63) (hs : 0 ≤ s)
    (hhi : s < 10 ^ 10) (h : flexTimeOfInt n = formatRFC3339Nano s 0) :
    mtimeOfJson (.num (intText n)) = some ⟨s, 0, by decide⟩ := by
  unfold mtimeOfJson decodeFlexTime
  dsimp only
  rw [parseInt64_intText (by omega) hn]
  dsimp only
  rw [h, Option.map_some, mtimeTime_format hs hhi]

/-- **Seconds, milliseconds, microseconds and nanoseconds are told apart by their size.** For
the first three this is so from 1973 on. Nanoseconds up to the second 1 000 000 000, in 2001,
are taken for microseconds. -/
theorem mtimeOfJson_units (s : Int) (hlo : 10 ^ 8 < s) (hhi : s < 10 ^ 10)
    (h64 : s * 10 ^ 9 < 2 ^ 63) :
    mtimeOfJson (.num (intText s)) = some ⟨s, 0, by decide⟩ ∧
      mtimeOfJson (.num (intText (s * 10 ^ 3))) = some ⟨s, 0, by decide⟩ ∧
      mtimeOfJson (.num (intText (s * 10 ^ 6))) = some ⟨s, 0, by decide⟩ ∧
      (10 ^ 9 < s → mtimeOfJson (.num (intText (s * 10 ^ 9))) = some ⟨s, 0, by decide⟩) := by
  have hs : 0 ≤ s := by omega
  refine ⟨?_, ?_, ?_, fun hnano => ?_⟩
  · refine mtimeOfJson_of_flexTime hs (by omega) hs hhi ?_
    rw [flexTimeOfInt, if_neg (by omega), if_neg (by omega), if_neg (by omega)]
  · refine mtimeOfJson_of_flexTime (by omega) (by omega) hs hhi ?_
    have hunit : s * 10 ^ 3 / 10 ^ 3 = s ∧ (s * 10 ^ 3 % 10 ^ 3).toNat * 10 ^ 6 = 0 := by omega
    rw [flexTimeOfInt, if_neg (by omega), if_neg (by omega), if_pos (by omega), hunit.1, hunit.2]
  · refine mtimeOfJson_of_flexTime (by omega) (by omega) hs hhi ?_
    have hunit : s * 10 ^ 6 / 10 ^ 6 = s ∧ (s * 10 ^ 6 % 10 ^ 6).toNat * 10 ^ 3 = 0 := by omega
    rw [flexTimeOfInt, if_neg (by omega), if_pos (by omega), hunit.1, hunit.2]
  · refine mtimeOfJson_of_flexTime (by omega) h64 hs hhi ?_
    have hunit : s * 10 ^ 9 / 10 ^ 9 = s ∧ (s * 10 ^ 9 % 10 ^ 9).toNat = 0 := by omega
    rw [flexTimeOfInt, if_pos (by omega), hunit.1, hunit.2]

/-- The beginning of 2024 in nanoseconds. -/
theorem mtimeOfJson_newYear :
    mtimeOfJson (.num (ascii "1704067200000000000")) = some (newYear 0 (by decide)) := by
  obtain ⟨-, -, -, hnano⟩ := mtimeOfJson_units 1704067200 (by decide) (by decide) (by decide)
  exact hnano (by decide)

/-- The nanoseconds of an instant in 1976 are read as one in the year 8307. -/
theorem mtimeOfJson_nanos_1976 :
    (10 : Int) ^ 8 < 200000000 ∧ (200000000 : Int) * 10 ^ 9 < 2 ^ 63 ∧
      (mtimeOfJson (.num (intText (200000000 * 10 ^ 9)))).map Instant.unix =
        some 200000000000 := by
  decide +kernel

end GbfCore
