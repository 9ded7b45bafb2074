import GbfCore.Lib.Json.Decode

/-!
# Reading one value twice

A program may decode the same text with two schemas, one of which knows fewer fields.
`Sim R d e` says that two decoders keep a relation between their variables whenever
both succeed. The rules go by the constructors of the decoders: a struct keeps the
relation if each field of either side does, a slice if its elements do, a map if its
values do.
-/

namespace GbfCore.Json

open Option List SortedMap

variable {α β : Type} {R : α → β → Prop} {d : Decoder α} {e : Decoder β}

/-- Two decoders keep a relation. -/
def Sim (R : α → β → Prop) (d : Decoder α) (e : Decoder β) : Prop :=
  ∀ v a b a' b', R a b → d v a = some a' → e v b = some b' → R a' b'

/-- Skip a member. -/
def skipMember : Decoder α := fun _ a => some a

/-- Member names are looked up by what they fold to. -/
theorem decodeMember_congr {fields : Fields α} {k k' : Bytes} (h : foldName k = foldName k') :
    decodeMember fields k = decodeMember fields k' := by
  unfold decodeMember
  rw [h]

theorem decodeMember_cases (fields : Fields α) (k : Bytes) :
    (∃ f ∈ fields, foldName f.1 = foldName k ∧ decodeMember fields k = f.2) ∨
      ((∀ f ∈ fields, foldName f.1 ≠ foldName k) ∧ decodeMember fields k = skipMember) := by
  unfold decodeMember
  cases hfind : fields.find? fun f => decide (foldName f.1 = foldName k) with
  | some f =>
    have hk : foldName f.1 = foldName k := by simpa using find?_some hfind
    exact .inl ⟨f, mem_of_find?_eq_some hfind, hk, rfl⟩
  | none =>
    refine .inr ⟨?_, rfl⟩
    intro f hf
    simpa using find?_eq_none.mp hfind f hf

/-- The members of an object. -/
def Value.members : Value → List (Bytes × Value)
  | .obj members => members
  | _ => []

/-- An object with a member that goes to this name. -/
def Value.HasMember (v : Value) (name : Bytes) : Prop :=
  ∃ e ∈ v.members, foldName e.1 = foldName name

instance (v : Value) (name : Bytes) : Decidable (v.HasMember name) :=
  inferInstanceAs (Decidable (∃ e ∈ v.members, foldName e.1 = foldName name))

/-- What only the members of one name change stays without them. -/
theorem decodeStruct_untouched {γ : Type} {fields : Fields α} (name : Bytes) (get : α → γ)
    {v : Value} {a a' : α}
    (hfields : ∀ f ∈ fields, foldName f.1 ≠ foldName name →
      ∀ w b b', f.2 w b = some b' → get b' = get b)
    (hv : ¬ v.HasMember name) (h : decodeStruct fields v a = some a') : get a' = get a := by
  cases v with
  | obj members =>
    induction members generalizing a with
    | nil =>
      cases h
      rfl
    | cons e rest ih =>
      obtain ⟨k, w⟩ := e
      obtain ⟨b, hb, hrest⟩ := bind_eq_some_iff.mp h
      have hk : foldName k ≠ foldName name := fun hk => hv ⟨(k, w), mem_cons_self, hk⟩
      have hnot : ¬ (Value.obj rest).HasMember name := by
        rintro ⟨e, he, hname⟩
        exact hv ⟨e, mem_cons_of_mem _ he, hname⟩
      refine (ih hnot hrest).trans ?_
      rcases decodeMember_cases fields k with ⟨f, hf, hfk, heq⟩ | ⟨-, heq⟩
      · exact hfields f hf (hfk ▸ hk) w a b (heq ▸ hb)
      · rw [heq] at hb
        cases hb
        rfl
  | null =>
    cases h
    rfl
  | _ => cases h

/-- A field that leaves another one alone. -/
theorem onField_untouched {γ δ : Type} {get : α → γ} {set : α → γ → α} {d : Decoder γ}
    {other : α → δ} {v : Value} {a a' : α} (h : onField get set d v a = some a')
    (hset : ∀ a x, other (set a x) = other a) : other a' = other a := by
  obtain ⟨x, -, rfl⟩ := map_eq_some_iff.mp h
  exact hset a x

section
variable {fields : Fields α} {fields' : Fields β}

/-- Each field on the left against what the right side does with its name, and the
fields that only the right side has. -/
theorem sim_decodeMember (hleft : ∀ f ∈ fields, Sim R f.2 (decodeMember fields' f.1))
    (hright : ∀ g ∈ fields', (∀ f ∈ fields, foldName f.1 ≠ foldName g.1) → Sim R skipMember g.2)
    (k : Bytes) : Sim R (decodeMember fields k) (decodeMember fields' k) := by
  rcases decodeMember_cases fields k with ⟨f, hf, hk, heq⟩ | ⟨hnone, heq⟩
  · rw [heq, ← decodeMember_congr hk]
    exact hleft f hf
  · rcases decodeMember_cases fields' k with ⟨g, hg, hk, heq'⟩ | ⟨-, heq'⟩
    · rw [heq, heq']
      exact hright g hg (fun f hf => hk ▸ hnone f hf)
    · rw [heq, heq']
      intro v a b a' b' hR ha hb
      cases ha
      cases hb
      exact hR

theorem sim_decodeStruct (h : ∀ k, Sim R (decodeMember fields k) (decodeMember fields' k)) :
    Sim R (decodeStruct fields) (decodeStruct fields') := by
  intro v a b a' b' hR ha hb
  cases v with
  | obj members =>
    induction members generalizing a b with
    | nil =>
      cases ha
      cases hb
      exact hR
    | cons e rest ih =>
      obtain ⟨k, v⟩ := e
      obtain ⟨a₁, ha₁, harest⟩ := bind_eq_some_iff.mp ha
      obtain ⟨b₁, hb₁, hbrest⟩ := bind_eq_some_iff.mp hb
      exact ih a₁ b₁ (h k v a b a₁ b₁ hR ha₁ hb₁) harest hbrest
  | null =>
    cases ha
    cases hb
    exact hR
  | _ => cases ha

end

/-! ## Fields -/

section
variable {γ δ : Type}

/-- A field that both sides have. -/
theorem sim_onField {r : γ → δ → Prop} {get : α → γ} {set : α → γ → α} {get' : β → δ}
    {set' : β → δ → β} {d : Decoder γ} {e : Decoder δ} (h : Sim r d e)
    (hget : ∀ a b, R a b → r (get a) (get' b))
    (hset : ∀ a b x y, R a b → r x y → R (set a x) (set' b y)) :
    Sim R (onField get set d) (onField get' set' e) := by
  intro v a b a' b' hR ha hb
  obtain ⟨x, hx, rfl⟩ := map_eq_some_iff.mp ha
  obtain ⟨y, hy, rfl⟩ := map_eq_some_iff.mp hb
  exact hset a b x y hR (h v _ _ x y (hget a b hR) hx hy)

/-- A field that only the left side has. -/
theorem sim_onField_skip {get : α → γ} {set : α → γ → α} {d : Decoder γ}
    (hset : ∀ a b x, R a b → R (set a x) b) : Sim R (onField get set d) skipMember := by
  intro v a b a' b' hR ha hb
  obtain ⟨x, -, rfl⟩ := map_eq_some_iff.mp ha
  cases hb
  exact hset a b x hR

/-- A field that only the right side has. -/
theorem sim_skip_onField {get : β → δ} {set : β → δ → β} {e : Decoder δ}
    (hset : ∀ a b y, R a b → R a (set b y)) : Sim R skipMember (onField get set e) := by
  intro v a b a' b' hR ha hb
  cases ha
  obtain ⟨y, -, rfl⟩ := map_eq_some_iff.mp hb
  exact hset a b y hR

/-- The same decoder on both sides. -/
theorem sim_refl (d : Decoder γ) : Sim Eq d d := by
  rintro v a b a' b' rfl ha hb
  exact Option.some.inj (ha.symm.trans hb)

end

/-! ## Slices -/

/-- Related elements, and related memory behind them. -/
structure SliceRel (R : α → β → Prop) (s : Slice α) (t : Slice β) : Prop where
  elems : List.Forall₂ R (s.elems.getD []) (t.elems.getD [])
  spare : List.Forall₂ R s.spare t.spare

theorem sim_decodeElems (h : Sim R d e) {zero : α} {zero' : β} (hzero : R zero zero')
    {vs : List Value} :
    ∀ {mem : List α} {mem' : List β} {l : List α} {l' : List β}, List.Forall₂ R mem mem' →
      decodeElems d zero vs mem = some l → decodeElems e zero' vs mem' = some l' →
        List.Forall₂ R l l' := by
  induction vs with
  | nil =>
    intro mem mem' l l' _ hl hl'
    cases hl
    cases hl'
    exact .nil
  | cons v vs ih =>
    intro mem mem' l l' hmem hl hl'
    obtain ⟨a, ha, hl⟩ := bind_eq_some_iff.mp hl
    obtain ⟨b, hb, hl'⟩ := bind_eq_some_iff.mp hl'
    obtain ⟨as, has, rfl⟩ := map_eq_some_iff.mp hl
    obtain ⟨bs, hbs, rfl⟩ := map_eq_some_iff.mp hl'
    have hhead : R (mem.headD zero) (mem'.headD zero') := by
      cases hmem with
      | nil => exact hzero
      | cons hab _ => exact hab
    have htail : List.Forall₂ R mem.tail mem'.tail := by
      cases hmem with
      | nil => exact .nil
      | cons _ hrest => exact hrest
    exact .cons (h v _ _ a b hhead ha hb) (ih htail has hbs)

theorem sim_decodeSlice (h : Sim R d e) {zero : α} {zero' : β} (hzero : R zero zero') :
    Sim (SliceRel R) (decodeSlice d zero) (decodeSlice e zero') := by
  intro v s t s' t' hst hs ht
  cases v with
  | null =>
    cases hs
    cases ht
    exact ⟨.nil, .nil⟩
  | arr vs =>
    cases vs with
    | nil =>
      cases hs
      cases ht
      exact ⟨.nil, .nil⟩
    | cons v vs =>
      obtain ⟨l, hl, rfl⟩ := map_eq_some_iff.mp hs
      obtain ⟨l', hl', rfl⟩ := map_eq_some_iff.mp ht
      have hmem : List.Forall₂ R s.memory t.memory := rel_append hst.elems hst.spare
      exact ⟨sim_decodeElems h hzero hmem hl hl', forall₂_drop _ hmem⟩
  | _ => cases hs

/-! ## Maps -/

/-- The same keys with related values. -/
def EntriesRel (R : α → β → Prop) : List (Bytes × α) → List (Bytes × β) → Prop :=
  List.Forall₂ fun x y => x.1 = y.1 ∧ R x.2 y.2

/-- Related maps; a nil map is an empty one. -/
def MapRel (R : α → β → Prop) (m : Option (SortedMap Bytes α)) (n : Option (SortedMap Bytes β)) :
    Prop :=
  EntriesRel R (m.getD .empty).entries (n.getD .empty).entries

theorem entriesRel_insertEntry {k : Bytes} {a : α} {b : β} (hab : R a b) {l : List (Bytes × α)}
    {l' : List (Bytes × β)} (h : EntriesRel R l l') :
    EntriesRel R (insertEntry k a l) (insertEntry k b l') := by
  induction h with
  | nil => exact .cons ⟨rfl, hab⟩ .nil
  | @cons x y xs ys hxy hrest ih =>
    rw [insertEntry, insertEntry, hxy.1]
    split
    · exact .cons ⟨rfl, hab⟩ (.cons hxy hrest)
    · split
      · exact .cons hxy ih
      · exact .cons ⟨rfl, hab⟩ hrest

theorem sim_decodeMap {d : Value → Option α} {e : Value → Option β}
    (h : ∀ v a b, d v = some a → e v = some b → R a b) :
    Sim (MapRel R) (decodeMap d) (decodeMap e) := by
  have hinsert : ∀ (members : List (Bytes × Value)) (m m' : SortedMap Bytes α)
      (n n' : SortedMap Bytes β), EntriesRel R m.entries n.entries →
      insertMembers d members m = some m' → insertMembers e members n = some n' →
        EntriesRel R m'.entries n'.entries := by
    intro members
    induction members with
    | nil =>
      intro m m' n n' hmn hm hn
      cases hm
      cases hn
      exact hmn
    | cons x rest ih =>
      intro m m' n n' hmn hm hn
      obtain ⟨k, v⟩ := x
      obtain ⟨a, ha, hm⟩ := bind_eq_some_iff.mp hm
      obtain ⟨b, hb, hn⟩ := bind_eq_some_iff.mp hn
      exact ih _ _ _ _ (entriesRel_insertEntry (h v a b ha hb) hmn) hm hn
  intro v m n m' n' hmn hm hn
  cases v with
  | null =>
    cases hm
    cases hn
    exact .nil
  | obj members =>
    obtain ⟨m₁, hm₁, rfl⟩ := map_eq_some_iff.mp hm
    obtain ⟨n₁, hn₁, rfl⟩ := map_eq_some_iff.mp hn
    exact hinsert members _ _ _ _ hmn hm₁ hn₁
  | _ => cases hm

end GbfCore.Json
