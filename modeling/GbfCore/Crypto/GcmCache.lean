import GbfCore.Blob.Sample
import GbfCore.Lib.Threads

/-!
# The cache of ciphers (aes.go)

`AESEncryptor.getGCM` keeps an AEAD for each key, under the SHA-256 of the key. An entry is
inserted before its AEAD is built; it is built outside the lock, by the first caller that gets
to its `sync.Once`, and taken out again if that failed, by every caller that finds the failure
and still finds the entry in the cache.

A critical section is one step, and so is each of the two ends of the function that
`sync.Once` runs; a caller that finds it running is blocked. `getGCM_safe` is about every
interleaving of any number of calls: the cache never exceeds its capacity, every call returns
what `newGCM` returns for its own key, and nothing that failed stays behind.
-/

namespace GbfCore

open Function Threads List

variable {c : Config AESEncryptor GcmPc} {key : Bytes}

/-- A `cipher.AEAD`, told by the key it was built from. -/
structure AEAD where
  key : Bytes
  valid : validKey key = true
deriving DecidableEq

/-- `newGCM`; the error is the length that `aes.NewCipher` does not accept. -/
def newGCM (key : Bytes) : Except Nat AEAD :=
  if h : validKey key = true then .ok ⟨key, h⟩ else .error key.length

/-- `maxGCMCacheEntries` -/
def maxGCMCacheEntries : Nat := 256

/-- A `gcmEntry`: how far its `once` is, and what was stored. -/
inductive GcmEntry where
  | pending
  | running
  | done (r : Except Nat AEAD)

/-- `AESEncryptor`, and the entries by their addresses. -/
structure AESEncryptor where
  cache : AList fun _ : Bytes => Nat
  entries : Nat → GcmEntry
  /-- the next free address -/
  fresh : Nat

/-- `NewAESEncryptor` -/
def AESEncryptor.new : AESEncryptor := ⟨∅, fun _ => .pending, 0⟩

/-- A call of `getGCM`. -/
inductive GcmPc where
  | idle
  /-- before the first critical section -/
  | lookup (key : Bytes)
  /-- before `once.Do` -/
  | once (key : Bytes) (entry : Nat)
  /-- in the function of `once.Do` -/
  | build (key : Bytes) (entry : Nat)
  /-- behind `once.Do` -/
  | built (key : Bytes) (entry : Nat)
  /-- before the second critical section -/
  | evict (key : Bytes) (entry : Nat) (err : Nat)
  | returned (key : Bytes) (r : Except Nat AEAD)
deriving DecidableEq

inductive GcmEvent where
  | call (key : Bytes)
  | go

namespace AESEncryptor

variable (sha256 : Bytes → Bytes) (s : AESEncryptor)

/-- `len(e.cache)` -/
def size : Nat := s.cache.keys.length

def setEntry (entry : Nat) (state : GcmEntry) : AESEncryptor :=
  { s with entries := update s.entries entry state }

/-- A new entry is put into the cache. -/
def insertEntry (hash : Bytes) : AESEncryptor where
  cache := s.cache.insert hash s.fresh
  entries := update s.entries s.fresh .pending
  fresh := s.fresh + 1

/-- The first critical section. -/
def lookupEntry (key : Bytes) : AESEncryptor × GcmPc :=
  match s.cache.lookup (sha256 key) with
  | some entry => (s, .once key entry)
  | none =>
    if maxGCMCacheEntries ≤ s.size then (s, .returned key (newGCM key))
    else (s.insertEntry (sha256 key), .once key s.fresh)

/-- The second critical section. -/
def evictEntry (key : Bytes) (entry : Nat) : AESEncryptor :=
  if s.cache.lookup (sha256 key) = some entry then { s with cache := s.cache.erase (sha256 key) }
  else s

/-- A step of a call. -/
def next : GcmPc → GcmEvent → Option (AESEncryptor × GcmPc)
  | .idle, .call key => some (s, .lookup key)
  | .returned _ _, .call key => some (s, .lookup key)
  | .lookup key, .go => some (s.lookupEntry sha256 key)
  | .once key entry, .go =>
    match s.entries entry with
    | .pending => some (s.setEntry entry .running, .build key entry)
    | .running => none
    | .done _ => some (s, .built key entry)
  | .build key entry, .go => some (s.setEntry entry (.done (newGCM key)), .built key entry)
  | .built key entry, .go =>
    match s.entries entry with
    | .done (.ok gcm) => some (s, .returned key (.ok gcm))
    | .done (.error err) => some (s, .evict key entry err)
    | _ => none
  | .evict key entry err, .go => some (s.evictEntry sha256 key entry, .returned key (.error err))
  | _, _ => none

end AESEncryptor

/-- The call is under way. -/
def GcmPc.inFlight : GcmPc → Bool
  | .idle => false
  | .returned _ _ => false
  | _ => true

/-- A new encryptor, with nobody calling. -/
def GcmStarted (c : Config AESEncryptor GcmPc) : Prop :=
  c.shared = .new ∧ ∀ i, c.thread i = .idle

/-- The runs in which only these keys are used. -/
def GcmReach (sha256 : Bytes → Bytes) (keys : Set Bytes) : Config AESEncryptor GcmPc → Prop :=
  Reach (AESEncryptor.next sha256) (fun _ _ e => ∀ key, e = .call key → key ∈ keys) GcmStarted

/-! ## What a step can be -/

/-- A step of a call, case by case. -/
inductive GcmEffect (sha256 : Bytes → Bytes) (s : AESEncryptor) :
    GcmPc → GcmEvent → AESEncryptor → GcmPc → Prop
  | call {t : GcmPc} (ht : t.inFlight = false) (key : Bytes) :
    GcmEffect sha256 s t (.call key) s (.lookup key)
  | hit {key : Bytes} {entry : Nat} (h : s.cache.lookup (sha256 key) = some entry) :
    GcmEffect sha256 s (.lookup key) .go s (.once key entry)
  | full (key : Bytes) : GcmEffect sha256 s (.lookup key) .go s (.returned key (newGCM key))
  | miss {key : Bytes} (h : s.cache.lookup (sha256 key) = none)
      (hsize : s.size < maxGCMCacheEntries) :
    GcmEffect sha256 s (.lookup key) .go (s.insertEntry (sha256 key)) (.once key s.fresh)
  | start (key : Bytes) {entry : Nat} (h : s.entries entry = .pending) :
    GcmEffect sha256 s (.once key entry) .go (s.setEntry entry .running) (.build key entry)
  | wait (key : Bytes) (entry : Nat) : GcmEffect sha256 s (.once key entry) .go s (.built key entry)
  | finish (key : Bytes) (entry : Nat) :
    GcmEffect sha256 s (.build key entry) .go (s.setEntry entry (.done (newGCM key)))
      (.built key entry)
  | success (key : Bytes) {entry : Nat} {gcm : AEAD} (h : s.entries entry = .done (.ok gcm)) :
    GcmEffect sha256 s (.built key entry) .go s (.returned key (.ok gcm))
  | failure (key : Bytes) {entry : Nat} {err : Nat} (h : s.entries entry = .done (.error err)) :
    GcmEffect sha256 s (.built key entry) .go s (.evict key entry err)
  | evict (key : Bytes) (entry : Nat) (err : Nat) :
    GcmEffect sha256 s (.evict key entry err) .go (s.evictEntry sha256 key entry)
      (.returned key (.error err))

theorem gcm_next_effect {sha256 : Bytes → Bytes} {s s' : AESEncryptor} {t t' : GcmPc} {e : GcmEvent}
    (h : s.next sha256 t e = some (s', t')) : GcmEffect sha256 s t e s' t' := by
  unfold AESEncryptor.next at h
  split at h
  · cases h
    exact .call rfl _
  · cases h
    exact .call rfl _
  · rename_i key
    unfold AESEncryptor.lookupEntry at h
    split at h
    · rename_i hlookup
      cases h
      exact .hit hlookup
    · rename_i hlookup
      split at h <;> cases h
      · exact .full _
      · rename_i hsize
        exact .miss hlookup (not_le.mp hsize)
  · split at h <;> cases h
    · rename_i hpending
      exact .start _ hpending
    · exact .wait _ _
  · cases h
    exact .finish _ _
  · split at h <;> cases h
    · rename_i hdone
      exact .success _ hdone
    · rename_i hdone
      exact .failure _ hdone
  · cases h
    exact .evict _ _ _
  · cases h

/-! ## The invariant -/

/-- The entry a call works with. -/
def GcmPc.entry : GcmPc → Option Nat
  | .once _ entry => some entry
  | .build _ entry => some entry
  | .built _ entry => some entry
  | .evict _ entry _ => some entry
  | _ => none

section
variable (sha256 : Bytes → Bytes) (keys : Set Bytes)

/-- The entry was made for this key. -/
def AESEncryptor.MadeFor (s : AESEncryptor) (origin : Nat → Bytes) (key : Bytes) (entry : Nat) :
    Prop :=
  key ∈ keys ∧ entry < s.fresh ∧ origin entry = key

/-- A call works with an entry that was made for its own key, and returns what `newGCM` returns
for it. -/
def GcmPc.Sound (s : AESEncryptor) (origin : Nat → Bytes) : GcmPc → Prop
  | .idle => True
  | .lookup key => key ∈ keys
  | .once key entry => s.MadeFor keys origin key entry
  | .build key entry => s.MadeFor keys origin key entry
  | .built key entry => s.MadeFor keys origin key entry
  | .evict key entry err => s.MadeFor keys origin key entry ∧ s.entries entry = .done (.error err)
  | .returned key r => r = newGCM key

/-- The cache is within its capacity, and every entry was made for a key with its hash. -/
structure AESEncryptor.Sound (s : AESEncryptor) (origin : Nat → Bytes) : Prop where
  size : s.size ≤ maxGCMCacheEntries
  cached : ∀ {hash entry}, s.cache.lookup hash = some entry →
    entry < s.fresh ∧ hash = sha256 (origin entry) ∧ origin entry ∈ keys
  stored : ∀ {entry r}, entry < s.fresh → s.entries entry = .done r → r = newGCM (origin entry)

/-- The invariant. An entry in the cache was built, or a call is still working with it. -/
def GcmInv (c : Config AESEncryptor GcmPc) : Prop :=
  ∃ origin, c.shared.Sound sha256 keys origin ∧ (∀ i, (c.thread i).Sound keys c.shared origin) ∧
    ∀ {hash entry}, c.shared.cache.lookup hash = some entry →
      (∃ gcm, c.shared.entries entry = .done (.ok gcm)) ∨ ∃ i, (c.thread i).entry = some entry

/-- No entry is moved to another key, and what is stored stays. -/
structure AESEncryptor.Extends (s s' : AESEncryptor) (origin origin' : Nat → Bytes) : Prop where
  fresh : s.fresh ≤ s'.fresh
  origin : ∀ {entry}, entry < s.fresh → origin' entry = origin entry
  done : ∀ {entry r}, entry < s.fresh → s.entries entry = .done r → s'.entries entry = .done r

end

section
variable {sha256 : Bytes → Bytes} {keys : Set Bytes} {s s' : AESEncryptor}
  {origin origin' : Nat → Bytes}

theorem AESEncryptor.Extends.refl (s : AESEncryptor) (origin : Nat → Bytes) :
    s.Extends s origin origin :=
  ⟨le_rfl, fun _ => rfl, fun _ h => h⟩

theorem AESEncryptor.MadeFor.mono {entry : Nat} (h : s.MadeFor keys origin key entry)
    (hext : s.Extends s' origin origin') : s'.MadeFor keys origin' key entry :=
  ⟨h.1, h.2.1.trans_le hext.fresh, (hext.origin h.2.1).trans h.2.2⟩

theorem GcmPc.Sound.mono {t : GcmPc} (h : t.Sound keys s origin)
    (hext : s.Extends s' origin origin') : t.Sound keys s' origin' := by
  cases t with
  | idle => trivial
  | lookup key => exact h
  | once key entry => exact AESEncryptor.MadeFor.mono h hext
  | build key entry => exact AESEncryptor.MadeFor.mono h hext
  | built key entry => exact AESEncryptor.MadeFor.mono h hext
  | evict key entry err => exact ⟨h.1.mono hext, hext.done h.1.2.1 h.2⟩
  | returned key r => exact h

/-! ## Steps -/

theorem entries_setEntry (s : AESEncryptor) (entry : Nat) (state : GcmEntry) (entry' : Nat) :
    (s.setEntry entry state).entries entry' = if entry' = entry then state else s.entries entry' :=
  update_apply ..

theorem entries_insertEntry (s : AESEncryptor) (hash : Bytes) (entry : Nat) :
    (s.insertEntry hash).entries entry = if entry = s.fresh then .pending else s.entries entry :=
  update_apply ..

/-- A new entry, for a key that has none. -/
theorem sound_insertEntry (h : s.Sound sha256 keys origin) (hkey : key ∈ keys)
    (hsize : s.size < maxGCMCacheEntries) :
    (s.insertEntry (sha256 key)).Sound sha256 keys (update origin s.fresh key) ∧
      s.Extends (s.insertEntry (sha256 key)) origin (update origin s.fresh key) := by
  have hother : ∀ {entry}, entry < s.fresh → entry ≠ s.fresh := fun hlt => hlt.ne
  refine ⟨⟨?_, ?_, ?_⟩, ⟨Nat.le_succ _, ?_, ?_⟩⟩
  · show (s.cache.insert (sha256 key) s.fresh).keys.length ≤ _
    rw [AList.keys_insert, length_cons]
    have hle := @length_erase_le _ instBEqOfDecidableEq (sha256 key) s.cache.keys
    unfold AESEncryptor.size at hsize
    omega
  · intro hash entry hlookup
    by_cases hhash : hash = sha256 key
    · subst hhash
      cases (AList.lookup_insert s.cache).symm.trans hlookup
      rw [update_self]
      exact ⟨Nat.lt_succ_self _, rfl, hkey⟩
    · obtain ⟨hlt, hfor, hmem⟩ := h.cached ((AList.lookup_insert_ne hhash).symm.trans hlookup)
      rw [update_of_ne (hother hlt)]
      exact ⟨hlt.trans (Nat.lt_succ_self _), hfor, hmem⟩
  · intro entry r hlt hdone
    by_cases hfresh : entry = s.fresh
    · rw [entries_insertEntry, if_pos hfresh] at hdone
      cases hdone
    · rw [entries_insertEntry, if_neg hfresh] at hdone
      rw [update_of_ne hfresh]
      exact h.stored (lt_of_le_of_ne (Nat.le_of_lt_succ hlt) hfresh) hdone
  · exact fun hlt => update_of_ne (hother hlt) _ _
  · intro entry r hlt hdone
    rwa [entries_insertEntry, if_neg (hother hlt)]

/-- An entry that is not built yet moves on. -/
theorem sound_setEntry (h : s.Sound sha256 keys origin) {entry : Nat} (state : GcmEntry)
    (hstate : ∀ r, state = .done r → r = newGCM (origin entry))
    (hdone : ∀ r, entry < s.fresh → s.entries entry = .done r → state = .done r) :
    (s.setEntry entry state).Sound sha256 keys origin ∧
      s.Extends (s.setEntry entry state) origin origin := by
  refine ⟨⟨h.size, h.cached, ?_⟩, ⟨le_rfl, fun _ => rfl, ?_⟩⟩
  · intro entry' r hlt hstored
    rw [entries_setEntry] at hstored
    split at hstored
    · rename_i heq
      rw [heq]
      exact hstate r hstored
    · exact h.stored hlt hstored
  · intro entry' r hlt hstored
    rw [entries_setEntry]
    split
    · rename_i heq
      subst heq
      exact hdone r hlt hstored
    · exact hstored

theorem sound_evictEntry (h : s.Sound sha256 keys origin) (key : Bytes) (entry : Nat) :
    (s.evictEntry sha256 key entry).Sound sha256 keys origin ∧
      s.Extends (s.evictEntry sha256 key entry) origin origin := by
  unfold AESEncryptor.evictEntry
  split
  · refine ⟨⟨?_, ?_, h.stored⟩, ⟨le_rfl, fun _ => rfl, fun _ h => h⟩⟩
    · show (s.cache.erase (sha256 key)).keys.length ≤ _
      rw [AList.keys_erase]
      exact (@length_erase_le _ instBEqOfDecidableEq _ _).trans h.size
    · intro hash entry' hlookup
      by_cases hhash : hash = sha256 key
      · subst hhash
        cases (AList.lookup_erase (sha256 key) s.cache).symm.trans hlookup
      · exact h.cached ((AList.lookup_erase_ne hhash).symm.trans hlookup)
  · exact ⟨h, .refl s origin⟩

/-- What a step removes from the cache is the entry it was asked to remove. -/
theorem lookup_evictEntry {hash : Bytes} {entry entry' : Nat}
    (h : (s.evictEntry sha256 key entry).cache.lookup hash = some entry') :
    s.cache.lookup hash = some entry' ∧ (hash = sha256 key → entry' ≠ entry) := by
  unfold AESEncryptor.evictEntry at h
  split at h
  · by_cases hhash : hash = sha256 key
    · subst hhash
      cases (AList.lookup_erase (sha256 key) s.cache).symm.trans h
    · exact ⟨(AList.lookup_erase_ne hhash).symm.trans h, fun heq => absurd heq hhash⟩
  · rename_i hnot
    refine ⟨h, ?_⟩
    rintro rfl rfl
    exact hnot h

/-- **A step keeps the invariant.** -/
theorem gcmInv_step (hinj : Set.InjOn sha256 keys) {i : Nat} {e : GcmEvent} {t' : GcmPc}
    (h : GcmInv sha256 keys c) (hkeys : ∀ key, e = .call key → key ∈ keys)
    (heffect : GcmEffect sha256 c.shared (c.thread i) e s' t') :
    GcmInv sha256 keys ⟨s', update c.thread i t'⟩ := by
  obtain ⟨origin, hsound, hthreads, hheld⟩ := h
  have hi := hthreads i
  -- the call that moved may let go of an entry; what other calls hold they go on holding
  suffices hmoved : ∃ origin', s'.Sound sha256 keys origin' ∧
      c.shared.Extends s' origin origin' ∧ t'.Sound keys s' origin' ∧
      ∀ {hash entry}, s'.cache.lookup hash = some entry →
        (∃ gcm, s'.entries entry = .done (.ok gcm)) ∨ t'.entry = some entry ∨
          (c.shared.cache.lookup hash = some entry ∧ (c.thread i).entry ≠ some entry) by
    obtain ⟨origin', hsound', hext, hthread, hheld'⟩ := hmoved
    refine ⟨origin', hsound', fun j => ?_, fun {hash entry} hlookup => ?_⟩
    · by_cases hj : j = i
      · rw [hj]
        simpa only [update_self] using hthread
      · simpa only [update_of_ne hj] using (hthreads j).mono hext
    · rcases hheld' hlookup with hdone | hmine | ⟨hbefore, hother⟩
      · exact .inl hdone
      · exact .inr ⟨i, by simpa only [update_self] using hmine⟩
      · rcases hheld hbefore with ⟨gcm, hdone⟩ | ⟨j, hj⟩
        · exact .inl ⟨gcm, hext.done (hsound.cached hbefore).1 hdone⟩
        · have hji : j ≠ i := fun heq => hother (heq ▸ hj)
          exact .inr ⟨j, by simpa only [update_of_ne hji] using hj⟩
  have hholds : ∀ {hash entry}, c.shared.cache.lookup hash = some entry →
      (c.thread i).entry = some entry ∨
        (c.shared.cache.lookup hash = some entry ∧ (c.thread i).entry ≠ some entry) :=
    fun hlookup => (em _).imp_right fun hother => ⟨hlookup, hother⟩
  clear hthreads hheld
  generalize c.thread i = t at hi heffect hholds
  cases heffect with
  | call ht key =>
    refine ⟨origin, hsound, .refl _ _, hkeys key rfl, fun hlookup => .inr (.inr ⟨hlookup, ?_⟩)⟩
    cases t with
    | idle => nofun
    | returned key r => nofun
    | _ => cases ht
  | @hit key entry hlookup =>
    obtain ⟨hlt, hhash, hmem⟩ := hsound.cached hlookup
    exact ⟨origin, hsound, .refl _ _, ⟨hi, hlt, (hinj hi hmem hhash).symm⟩,
      fun hlookup => .inr (.inr ⟨hlookup, nofun⟩)⟩
  | full key =>
    exact ⟨origin, hsound, .refl _ _, rfl, fun hlookup => .inr (.inr ⟨hlookup, nofun⟩)⟩
  | @miss key hnone hsize =>
    obtain ⟨hsound', hext⟩ := sound_insertEntry hsound hi hsize
    refine ⟨_, hsound', hext, ⟨hi, Nat.lt_succ_self _, update_self ..⟩, ?_⟩
    intro hash entry hlookup
    by_cases hhash : hash = sha256 key
    · subst hhash
      exact .inr (.inl ((AList.lookup_insert c.shared.cache).symm.trans hlookup))
    · exact .inr (.inr ⟨(AList.lookup_insert_ne hhash).symm.trans hlookup, nofun⟩)
  | @start key entry hpending =>
    obtain ⟨hsound', hext⟩ := sound_setEntry hsound .running nofun fun r _ hdone =>
      nomatch hpending.symm.trans hdone
    exact ⟨origin, hsound', hext, hi.mono hext, fun hlookup => .inr (hholds hlookup)⟩
  | wait key entry =>
    exact ⟨origin, hsound, .refl _ _, hi, fun hlookup => .inr (hholds hlookup)⟩
  | finish key entry =>
    have hfor : origin entry = key := hi.2.2
    obtain ⟨hsound', hext⟩ := sound_setEntry hsound (.done (newGCM key))
      (fun r hr => by rw [hfor]; cases hr; rfl)
      (fun r hlt hdone => by rw [hsound.stored hlt hdone, hfor])
    exact ⟨origin, hsound', hext, hi.mono hext, fun hlookup => .inr (hholds hlookup)⟩
  | @success key entry gcm hdone =>
    obtain ⟨hkey, hlt, hfor⟩ := hi
    have hown := hsound.stored hlt hdone
    rw [hfor] at hown
    refine ⟨origin, hsound, .refl _ _, hown, fun hlookup => ?_⟩
    rcases hholds hlookup with hsame | hother
    · exact .inl ⟨gcm, Option.some.inj hsame ▸ hdone⟩
    · exact .inr (.inr hother)
  | @failure key entry err hdone =>
    exact ⟨origin, hsound, .refl _ _, ⟨hi, hdone⟩, fun hlookup => .inr (hholds hlookup)⟩
  | evict key entry err =>
    obtain ⟨⟨hkey, hlt, hfor⟩, hdone⟩ := hi
    have hown := hsound.stored hlt hdone
    rw [hfor] at hown
    obtain ⟨hsound', hext⟩ := sound_evictEntry hsound key entry
    refine ⟨origin, hsound', hext, hown, fun {hash entry'} hlookup => .inr (.inr ?_)⟩
    obtain ⟨hbefore, hremoved⟩ := lookup_evictEntry hlookup
    refine ⟨hbefore, fun hsome => ?_⟩
    obtain rfl : entry = entry' := Option.some.inj hsome
    have hhash := (hsound.cached hbefore).2.1
    rw [hfor] at hhash
    exact hremoved hhash rfl

theorem gcmInv_reach (hinj : Set.InjOn sha256 keys) (h : GcmReach sha256 keys c) :
    GcmInv sha256 keys c := by
  refine Reach.invariant (GcmInv sha256 keys) ?_ ?_ h
  · rintro c ⟨hshared, hidle⟩
    refine ⟨fun _ => [], ?_, fun i => ?_, fun hlookup => ?_⟩
    · rw [hshared]
      exact ⟨Nat.zero_le _, nofun, nofun⟩
    · rw [hidle]
      trivial
    · rw [hshared] at hlookup
      exact nomatch hlookup
  · intro c i e s' t' hinv hallowed hnext
    exact gcmInv_step hinj hinv hallowed (gcm_next_effect hnext)

/-- **The cache of ciphers is safe under every interleaving.** -/
theorem getGCM_safe (hinj : Set.InjOn sha256 keys) {c : Config AESEncryptor GcmPc}
    (h : GcmReach sha256 keys c) :
    c.shared.size ≤ maxGCMCacheEntries ∧
      (∀ i key r, c.thread i = .returned key r → r = newGCM key) ∧
      ((∀ i, (c.thread i).inFlight = false) → ∀ hash entry,
        c.shared.cache.lookup hash = some entry →
          ∃ gcm, c.shared.entries entry = .done (.ok gcm)) := by
  obtain ⟨origin, hsound, hthreads, hheld⟩ := gcmInv_reach hinj h
  refine ⟨hsound.size, fun i key r hi => ?_, fun hquiet hash entry hlookup => ?_⟩
  · have hthread := hthreads i
    rw [hi] at hthread
    exact hthread
  · rcases hheld hlookup with hdone | ⟨i, hi⟩
    · exact hdone
    · have hidle := hquiet i
      generalize c.thread i = t at hi hidle
      cases t with
      | idle => cases hi
      | lookup key => cases hi
      | returned key r => cases hi
      | _ => cases hidle

end

/-- Two calls with an empty key share one entry, which the first of them takes out again; a call
with 32 zero bytes leaves its cipher behind. -/
theorem getGCM_safe_sample :
    ∃ c, GcmReach (samplePrimitives.withDigests [(replicate 32 0,
        0x66687aadf862bd776c8fc18b8e9f8e20089714856ee233b3902a591d0d5f2925)]).sha256
          {[], replicate 32 0} c ∧
      c.shared.size = 1 ∧ c.thread 1 = .returned [] (newGCM []) ∧
      c.thread 2 = .returned (replicate 32 0) (newGCM (replicate 32 0)) ∧
      ∀ hash entry, c.shared.cache.lookup hash = some entry →
        ∃ gcm, c.shared.entries entry = .done (.ok gcm) := by
  have hcompute : ((run (AESEncryptor.next (samplePrimitives.withDigests [(replicate 32 0,
      0x66687aadf862bd776c8fc18b8e9f8e20089714856ee233b3902a591d0d5f2925)]).sha256)
      ⟨.new, fun _ => .idle⟩
      [(1, .call []), (0, .call []), (1, .go), (0, .go), (1, .go), (1, .go), (0, .go), (1, .go),
        (0, .go), (1, .go), (0, .go), (2, .call (replicate 32 0)), (2, .go), (2, .go),
        (2, .go), (2, .go)]).any fun c =>
        decide (c.shared.size = 1 ∧ (c.thread 0).inFlight = false ∧
          c.thread 1 = .returned [] (newGCM []) ∧
          c.thread 2 = .returned (replicate 32 0) (newGCM (replicate 32 0)))) = true := by
    decide +kernel
  obtain ⟨c, hrun, hfacts⟩ := (Option.any_eq_true _ _).mp hcompute
  obtain ⟨hsize, h0, h1, h2⟩ := of_decide_eq_true hfacts
  have hreach : GcmReach (samplePrimitives.withDigests [(replicate 32 0,
      0x66687aadf862bd776c8fc18b8e9f8e20089714856ee233b3902a591d0d5f2925)]).sha256
        {[], replicate 32 0} c := by
    refine run_reach_allowed (.start ⟨rfl, fun _ => rfl⟩) ?_ hrun
    rintro ⟨i, e⟩ hp - key rfl
    simp only [mem_cons, Prod.mk.injEq, GcmEvent.call.injEq, reduceCtorEq, and_false, false_or,
      or_false, not_mem_nil] at hp
    rcases hp with ⟨-, rfl⟩ | ⟨-, rfl⟩ | ⟨-, rfl⟩ <;> simp
  have hquiet : ∀ i, (c.thread i).inFlight = false := by
    intro i
    match i with
    | 0 => exact h0
    | 1 => rw [h1]; rfl
    | 2 => rw [h2]; rfl
    | i + 3 =>
      rw [thread_run (i := i + 3) (by simp) hrun]
      rfl
  obtain ⟨-, -, hbuilt⟩ := getGCM_safe (Set.injOn_pair.mpr (by decide +kernel)) hreach
  exact ⟨c, hreach, hsize, h1, h2, hbuilt hquiet⟩

end GbfCore
