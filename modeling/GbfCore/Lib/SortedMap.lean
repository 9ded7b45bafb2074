import Mathlib

/-!
# Finite maps

A map as the list of its entries in the order of the keys. The order is part of the
type, so that two maps with the same entries are equal, and going through the
entries is going through a sorted list.
-/

namespace GbfCore

open List

/-- A finite map, by its entries in the order of their keys. -/
structure SortedMap (κ β : Type) [LT κ] where
  entries : List (κ × β)
  sorted : entries.Pairwise fun a b => a.1 < b.1

namespace SortedMap

variable {κ β : Type} [LT κ] {k : κ} {v : β} {l : List (κ × β)}

@[ext] theorem ext {m m' : SortedMap κ β} (h : m.entries = m'.entries) : m = m' := by
  cases m
  cases m'
  cases h
  rfl

instance [DecidableEq κ] [DecidableEq β] : DecidableEq (SortedMap κ β) := fun m m' =>
  decidable_of_iff (m.entries = m'.entries) ⟨ext, fun h => h ▸ rfl⟩

/-- The map without entries. -/
def empty : SortedMap κ β := ⟨[], .nil⟩

/-- The value of a key. -/
def lookup [DecidableEq κ] (m : SortedMap κ β) (k : κ) : Option β := m.entries.lookup k

section
variable [DecidableLT κ]

/-- Put an entry in its place, over the one with the same key if there is one. -/
def insertEntry (k : κ) (v : β) : List (κ × β) → List (κ × β)
  | [] => [(k, v)]
  | e :: rest =>
    if k < e.1 then (k, v) :: e :: rest
    else if e.1 < k then e :: insertEntry k v rest
    else (k, v) :: rest

/-- A key above all others goes to the end. -/
theorem insertEntry_of_lt [Std.Irrefl (α := κ) (· < ·)]
    [Trans (α := κ) (β := κ) (γ := κ) (· < ·) (· < ·) (· < ·)] (h : ∀ e ∈ l, e.1 < k) :
    insertEntry k v l = l ++ [(k, v)] := by
  induction l with
  | nil => rfl
  | cons e rest ih =>
    have he : e.1 < k := h e mem_cons_self
    have hnot : ¬ k < e.1 := fun hk => Std.Irrefl.irrefl k (Trans.trans hk he)
    rw [insertEntry, if_neg hnot, if_pos he, ih fun e' he' => h e' (mem_cons_of_mem e he')]
    rfl

variable [Std.Irrefl (α := κ) (· < ·)] [Std.Trichotomous (α := κ) (· < ·)]
  [Trans (α := κ) (β := κ) (γ := κ) (· < ·) (· < ·) (· < ·)]

theorem mem_insertEntry (hl : l.Pairwise fun a b => a.1 < b.1) (e : κ × β) :
    e ∈ insertEntry k v l ↔ e = (k, v) ∨ e.1 ≠ k ∧ e ∈ l := by
  induction l with
  | nil => simp [insertEntry]
  | cons a rest ih =>
    obtain ⟨ha, hrest⟩ := pairwise_cons.mp hl
    rw [insertEntry]
    split
    · rename_i hlt
      -- every key of the list is above the new one
      have habove : ∀ b ∈ a :: rest, b.1 ≠ k := by
        intro b hb hk
        subst hk
        rcases mem_cons.mp hb with rfl | hb
        · exact Std.Irrefl.irrefl _ hlt
        · exact Std.Irrefl.irrefl _ (Trans.trans hlt (ha b hb) : b.1 < b.1)
      rw [mem_cons]
      constructor
      · rintro (rfl | hmem)
        · exact .inl rfl
        · exact .inr ⟨habove e hmem, hmem⟩
      · rintro (rfl | ⟨-, hmem⟩)
        · exact .inl rfl
        · exact .inr hmem
    · rename_i hnot
      split
      · rename_i hgt
        have hak : a.1 ≠ k := by
          rintro rfl
          exact Std.Irrefl.irrefl _ hgt
        rw [mem_cons, ih hrest, mem_cons]
        constructor
        · rintro (rfl | rfl | ⟨hk, hmem⟩)
          · exact .inr ⟨hak, .inl rfl⟩
          · exact .inl rfl
          · exact .inr ⟨hk, .inr hmem⟩
        · rintro (rfl | ⟨hk, rfl | hmem⟩)
          · exact .inr (.inl rfl)
          · exact .inl rfl
          · exact .inr (.inr ⟨hk, hmem⟩)
      · rename_i hnot'
        have hak : k = a.1 := Std.Trichotomous.trichotomous k a.1 hnot hnot'
        subst hak
        rw [mem_cons, mem_cons]
        constructor
        · rintro (rfl | hmem)
          · exact .inl rfl
          · refine .inr ⟨?_, .inr hmem⟩
            intro hk
            have := ha e hmem
            rw [hk] at this
            exact Std.Irrefl.irrefl _ this
        · rintro (rfl | ⟨hk, rfl | hmem⟩)
          · exact .inl rfl
          · exact absurd rfl hk
          · exact .inr hmem

theorem sorted_insertEntry (hl : l.Pairwise fun a b => a.1 < b.1) :
    (insertEntry k v l).Pairwise fun a b => a.1 < b.1 := by
  induction l with
  | nil => exact pairwise_singleton _ _
  | cons a rest ih =>
    obtain ⟨ha, hrest⟩ := pairwise_cons.mp hl
    rw [insertEntry]
    split
    · rename_i hlt
      refine pairwise_cons.mpr ⟨?_, hl⟩
      intro b hb
      rcases mem_cons.mp hb with rfl | hb
      · exact hlt
      · exact Trans.trans hlt (ha b hb)
    · rename_i hnot
      split
      · rename_i hgt
        refine pairwise_cons.mpr ⟨?_, ih hrest⟩
        intro b hb
        rcases (mem_insertEntry hrest b).mp hb with rfl | ⟨-, hb⟩
        · exact hgt
        · exact ha b hb
      · rename_i hnot'
        have hak : k = a.1 := Std.Trichotomous.trichotomous k a.1 hnot hnot'
        subst hak
        exact pairwise_cons.mpr ⟨ha, hrest⟩

/-- Set the value of a key. -/
def insert (m : SortedMap κ β) (k : κ) (v : β) : SortedMap κ β :=
  ⟨insertEntry k v m.entries, sorted_insertEntry m.sorted⟩

theorem mem_insert (m : SortedMap κ β) (k : κ) (v : β) (e : κ × β) :
    e ∈ (m.insert k v).entries ↔ e = (k, v) ∨ e.1 ≠ k ∧ e ∈ m.entries :=
  mem_insertEntry m.sorted e

/-- What is in a map after entries were put in was there or is one of them. -/
theorem mem_foldl_insert {γ : Type} {key : γ → κ} {val : γ → β} {l : List γ}
    {m : SortedMap κ β} {e : κ × β}
    (h : e ∈ (l.foldl (fun m a => m.insert (key a) (val a)) m).entries) :
    e ∈ m.entries ∨ ∃ a ∈ l, e = (key a, val a) := by
  induction l generalizing m with
  | nil => exact .inl h
  | cons a rest ih =>
    rcases ih h with hm | ⟨b, hb, rfl⟩
    · rcases (mem_insert m _ _ e).mp hm with rfl | ⟨-, hm⟩
      · exact .inr ⟨a, mem_cons_self, rfl⟩
      · exact .inl hm
    · exact .inr ⟨b, mem_cons_of_mem a hb, rfl⟩

/-- Putting in sorted entries one after the other gives just these. -/
theorem foldl_insert (hl : l.Pairwise fun a b => a.1 < b.1) :
    (l.foldl (fun m e => m.insert e.1 e.2) empty).entries = l := by
  have key : ∀ (m : SortedMap κ β), (m.entries ++ l).Pairwise (fun a b => a.1 < b.1) →
      (l.foldl (fun m e => m.insert e.1 e.2) m).entries = m.entries ++ l := by
    clear hl
    induction l with
    | nil => intro m _; exact (append_nil _).symm
    | cons e rest ih =>
      intro m hm
      have hlast : (m.insert e.1 e.2).entries = m.entries ++ [e] :=
        insertEntry_of_lt fun e' he' => (pairwise_append.mp hm).2.2 e' he' e mem_cons_self
      rw [foldl_cons, ih, hlast, append_assoc, singleton_append]
      rw [hlast, append_assoc, singleton_append]
      exact hm
  exact key empty hl

end

/-- The value of a key is that of its entry. -/
theorem lookup_eq_some [DecidableEq κ] [Std.Irrefl (α := κ) (· < ·)] {m : SortedMap κ β} :
    m.lookup k = some v ↔ (k, v) ∈ m.entries := by
  obtain ⟨l, hl⟩ := m
  show l.lookup k = some v ↔ (k, v) ∈ l
  induction l with
  | nil => simp
  | cons e rest ih =>
    obtain ⟨he, hrest⟩ := pairwise_cons.mp hl
    obtain ⟨k', v'⟩ := e
    rw [lookup_cons, mem_cons]
    by_cases hk : k = k'
    · subst hk
      simp only [beq_self_eq_true]
      constructor
      · intro h
        cases h
        exact .inl rfl
      · rintro (h | hmem)
        · cases h
          rfl
        · exact absurd (he _ hmem) (Std.Irrefl.irrefl k)
    · simp only [beq_eq_false_iff_ne.mpr hk]
      rw [ih hrest]
      constructor
      · exact .inr
      · rintro (h | hmem)
        · cases h
          exact absurd rfl hk
        · exact hmem

/-- The entry of a key, and the others. -/
theorem perm_of_lookup [DecidableEq κ] [Std.Irrefl (α := κ) (· < ·)]
    (hl : l.Pairwise fun a b => a.1 < b.1) (h : l.lookup k = some v) :
    l.Perm ((k, v) :: l.filter fun e => decide (e.1 ≠ k)) := by
  induction l with
  | nil => cases h
  | cons a rest ih =>
    obtain ⟨ha, hrest⟩ := pairwise_cons.mp hl
    obtain ⟨k', v'⟩ := a
    rw [lookup_cons] at h
    by_cases hk : k = k'
    · subst hk
      simp only [beq_self_eq_true, Option.some.injEq] at h
      subst h
      have hne : ∀ e ∈ rest, decide (e.1 ≠ k) = true := by
        intro e he
        refine decide_eq_true ?_
        rintro rfl
        exact Std.Irrefl.irrefl _ (ha e he)
      rw [filter_cons_of_neg (by simp), filter_eq_self.mpr hne]
    · simp only [beq_eq_false_iff_ne.mpr hk] at h
      rw [filter_cons_of_pos (by simpa using Ne.symm hk)]
      exact ((ih hrest h).cons _).trans (List.Perm.swap _ _ _)

omit [LT κ] in
theorem filter_of_lookup_none [DecidableEq κ] (h : l.lookup k = none) :
    (l.filter fun e => decide (e.1 ≠ k)) = l := by
  refine filter_eq_self.mpr ?_
  intro e he
  refine decide_eq_true ?_
  intro heq
  rw [lookup_eq_none_iff] at h
  exact absurd (h e he) (by simp [heq])

section
variable [DecidableLT κ] [DecidableEq κ] [Std.Irrefl (α := κ) (· < ·)]
  [Std.Trichotomous (α := κ) (· < ·)] [Trans (α := κ) (β := κ) (γ := κ) (· < ·) (· < ·) (· < ·)]

/-- Setting a value replaces the entry of the key. -/
theorem perm_insertEntry (hl : l.Pairwise fun a b => a.1 < b.1) :
    (insertEntry k v l).Perm ((k, v) :: l.filter fun e => decide (e.1 ≠ k)) := by
  induction l with
  | nil => exact List.Perm.refl _
  | cons a rest ih =>
    obtain ⟨ha, hrest⟩ := pairwise_cons.mp hl
    rw [insertEntry]
    split
    · rename_i hlt
      -- every key is above the new one
      have hne : ∀ e ∈ a :: rest, decide (e.1 ≠ k) = true := by
        intro e he
        refine decide_eq_true ?_
        rintro rfl
        rcases mem_cons.mp he with rfl | he
        · exact Std.Irrefl.irrefl _ hlt
        · exact Std.Irrefl.irrefl _ (Trans.trans hlt (ha e he) : e.1 < e.1)
      rw [filter_eq_self.mpr hne]
    · rename_i hnot
      split
      · rename_i hgt
        have hak : a.1 ≠ k := by
          rintro rfl
          exact Std.Irrefl.irrefl _ hgt
        rw [filter_cons_of_pos (by simpa using hak)]
        exact ((ih hrest).cons a).trans (List.Perm.swap _ _ _)
      · rename_i hnot'
        have hak : k = a.1 := Std.Trichotomous.trichotomous k a.1 hnot hnot'
        subst hak
        have hne : ∀ e ∈ rest, decide (e.1 ≠ a.1) = true := by
          intro e he
          refine decide_eq_true ?_
          intro heq
          have := ha e he
          rw [heq] at this
          exact Std.Irrefl.irrefl _ this
        rw [filter_cons_of_neg (by simp), filter_eq_self.mpr hne]

theorem lookup_insert (m : SortedMap κ β) (k : κ) (v : β) (k' : κ) :
    (m.insert k v).lookup k' = if k' = k then some v else m.lookup k' := by
  split
  · rename_i hk
    subst hk
    exact lookup_eq_some.mpr ((mem_insert m _ _ _).mpr (.inl rfl))
  · rename_i hk
    refine Option.ext fun w => ?_
    rw [lookup_eq_some, lookup_eq_some, mem_insert]
    constructor
    · rintro (heq | ⟨-, hmem⟩)
      · cases heq
        exact absurd rfl hk
      · exact hmem
    · exact fun hmem => .inr ⟨hk, hmem⟩

/-- Of the values that are put in under one key, the last one stays. -/
theorem lookup_foldl_insert_key (key : β → κ) (l : List β) (k : κ) :
    (l.foldl (fun m v => m.insert (key v) v) empty).lookup k =
      (l.filter fun v => decide (key v = k)).getLast? := by
  induction l using List.reverseRecOn with
  | nil => rfl
  | append_singleton l v ih =>
    rw [foldl_append, foldl_cons, foldl_nil, lookup_insert, ih, filter_append]
    by_cases hk : key v = k
    · rw [if_pos hk.symm, filter_cons_of_pos (by simpa using hk), filter_nil,
        List.getLast?_concat]
    · rw [if_neg (Ne.symm hk), filter_cons_of_neg (by simpa using hk), filter_nil,
        append_nil]

/-- A set of keys that all go to one value. -/
theorem lookup_foldl_insert (l : List κ) (v : β) (k : κ) : ∀ m : SortedMap κ β,
    (l.foldl (fun m k' => m.insert k' v) m).lookup k = if k ∈ l then some v else m.lookup k := by
  induction l with
  | nil => exact fun m => rfl
  | cons a l ih =>
    intro m
    show (l.foldl _ (m.insert a v)).lookup k = _
    rw [ih, lookup_insert]
    by_cases hl : k ∈ l
    · rw [if_pos hl, if_pos (mem_cons_of_mem a hl)]
    · rw [if_neg hl]
      exact if_congr (by simp [hl]) rfl rfl

end

end SortedMap

end GbfCore
