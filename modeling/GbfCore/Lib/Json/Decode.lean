import GbfCore.Lib.Json.RoundTrip
import GbfCore.Lib.SortedMap

/-!
# Decoding values into Go variables

How `json.Unmarshal` stores a value into a variable of a given type. A decoder takes
the value and what the variable holds, and returns what it holds afterwards, or
nothing if the value does not fit the type. What was there before matters: `null`
leaves most variables alone, a struct keeps the fields that have no member, and an
array is decoded into the old backing array of the slice, element by element.
-/

namespace GbfCore.Json

open List

variable {v : Value} {n : Nat} {k : Bytes} {l : List (Bytes × Value)} {ms : List (Bytes × Value)}
  {α : Type}

/-- Storing a value into a variable. -/
abbrev Decoder (α : Type) := Value → α → Option α

/-! ## Texts and numbers -/

/-- Into a `string`. -/
def decodeString : Decoder Bytes
  | .str s, _ => some s
  | .null, s => some s
  | _, _ => none

/-- Into an `int64` (or an `int`). -/
def decodeInt64 : Decoder Int
  | .num text, _ => parseInt64 text
  | .null, i => some i
  | _, _ => none

/-- Into a `uint32`. -/
def decodeUint32 : Decoder Nat
  | .num text, _ => parseUint 32 text
  | .null, n => some n
  | _, _ => none

/-! ## Structs -/

/-- `foldName`: member names are matched without regard to case. Of the letters
outside ASCII only the long s and the Kelvin sign fold into it. -/
def foldName : Bytes → Bytes
  | 0xc5 :: 0xbf :: rest => 0x53 :: foldName rest
  | 0xe2 :: 0x84 :: 0xaa :: rest => 0x4b :: foldName rest
  | b :: rest => (if 0x61 ≤ b ∧ b ≤ 0x7a then b - 0x20 else b) :: foldName rest
  | [] => []

/-- The fields of a struct, by the names of their members. -/
abbrev Fields (α : Type) := List (Bytes × Decoder α)

/-- What a member does to the struct; members without a field are skipped. -/
def decodeMember {α : Type} (fields : Fields α) (key : Bytes) : Decoder α :=
  match fields.find? fun f => decide (foldName f.1 = foldName key) with
  | some f => f.2
  | none => fun _ a => some a

/-- The members of an object in their order, into a struct. -/
def decodeMembers {α : Type} (fields : Fields α) : List (Bytes × Value) → α → Option α
  | [], a => some a
  | (k, v) :: ms, a => (decodeMember fields k v a).bind fun a' => decodeMembers fields ms a'

/-- Into a struct. -/
def decodeStruct {α : Type} (fields : Fields α) : Decoder α
  | .obj members, a => decodeMembers fields members a
  | .null, a => some a
  | _, _ => none

/-- Into one field of a struct. -/
def onField {σ α : Type} (get : σ → α) (set : σ → α → σ) (d : Decoder α) : Decoder σ :=
  fun v s => (d v (get s)).map (set s)

theorem onField_eq_some {σ : Type} {get : σ → α} {set : σ → α → σ} {d : Decoder α} {s : σ} {x : α}
    (h : d v (get s) = some x) : onField get set d v s = some (set s x) := by
  rw [onField, h]
  rfl

/-! ## Slices -/

/-- A slice: its elements, `none` for the nil slice, and what its backing array holds
behind them. -/
structure Slice (α : Type) where
  elems : Option (List α)
  spare : List α

/-- The nil slice. -/
def Slice.zero {α : Type} : Slice α := ⟨none, []⟩

/-- The backing array. -/
def Slice.memory {α : Type} (s : Slice α) : List α := s.elems.getD [] ++ s.spare

/-- Array elements into memory; `zero` stands behind its end. -/
def decodeElems {α : Type} (d : Decoder α) (zero : α) : List Value → List α → Option (List α)
  | [], _ => some []
  | v :: vs, memory =>
    (d v (memory.headD zero)).bind fun a => (decodeElems d zero vs memory.tail).map (a :: ·)

/-- Into a slice. -/
def decodeSlice {α : Type} (d : Decoder α) (zero : α) : Decoder (Slice α)
  | .null, _ => some .zero
  | .arr [], _ => some ⟨some [], []⟩
  | .arr vs, s =>
    (decodeElems d zero vs s.memory).map fun es => ⟨some es, s.memory.drop vs.length⟩
  | _, _ => none

/-! ## Maps -/

/-- Members into a map; each value is decoded into a new variable. -/
def insertMembers {β : Type} (d : Value → Option β) :
    List (Bytes × Value) → SortedMap Bytes β → Option (SortedMap Bytes β)
  | [], m => some m
  | (k, v) :: ms, m => (d v).bind fun b => insertMembers d ms (m.insert k b)

/-- Into a map with strings as keys; `none` is the nil map. -/
def decodeMap {β : Type} (d : Value → Option β) : Decoder (Option (SortedMap Bytes β))
  | .null, _ => some none
  | .obj members, m => (insertMembers d members (m.getD .empty)).map some
  | _, _ => none

/-- Into a new pointer. -/
def decodePtr {α : Type} (d : Decoder α) (zero : α) : Value → Option (Option α)
  | .null => some none
  | v => (d v zero).map some

/-! ## Encoding -/

/-- A slice as a value. -/
def encodeSlice {α : Type} (enc : α → Value) : Option (List α) → Value
  | none => .null
  | some l => .arr (l.map enc)

/-- A map as a value; `json.Marshal` sorts the keys. -/
def encodeMap {β : Type} (enc : β → Value) : Option (SortedMap Bytes β) → Value
  | none => .null
  | some m => .obj (m.entries.map fun e => (e.1, enc e.2))

/-- A member that `omitempty` leaves out if it is empty. -/
def omitEmpty (empty : Bool) (key : Bytes) (v : Value) : List (Bytes × Value) :=
  if empty then [] else [(key, v)]

/-- A pointer as a value. -/
def encodePtr {α : Type} (enc : α → Value) : Option α → Value
  | none => .null
  | some a => enc a

/-! ## Decoding what was encoded -/

theorem decodeInt64_int {i : Int} (hlo : -2 ^ 63 ≤ i) (hhi : i < 2 ^ 63) (cur : Int) :
    decodeInt64 (.int i) cur = some i :=
  parseInt64_intText hlo hhi

theorem decodeUint32_int (hn : n < 2 ^ 32) (cur : Nat) :
    decodeUint32 (.int n) cur = some n :=
  parseUint_natText hn

section
variable {α β : Type} {d : Decoder β} {zero : β} {enc : α → Value} {val : α → β}

theorem decodeElems_map {l : List α} (h : ∀ a ∈ l, d (enc a) zero = some (val a)) :
    decodeElems d zero (l.map enc) [] = some (l.map val) := by
  induction l with
  | nil => rfl
  | cons a l ih =>
    rw [map_cons, decodeElems]
    show (d (enc a) zero).bind (fun b => (decodeElems d zero (l.map enc) []).map (b :: ·)) = _
    rw [h a mem_cons_self, Option.bind_some,
      ih fun b hb => h b (mem_cons_of_mem a hb)]
    rfl

/-- A slice decoded into an empty one. -/
theorem decodeSlice_encodeSlice {s : Option (List α)} {cur : Slice β} (hcur : cur.memory = [])
    (h : ∀ l, s = some l → ∀ a ∈ l, d (enc a) zero = some (val a)) :
    decodeSlice d zero (encodeSlice enc s) cur = some ⟨s.map (·.map val), []⟩ := by
  cases s with
  | none => rfl
  | some l =>
    cases l with
    | nil => rfl
    | cons a l =>
      show (decodeElems d zero ((a :: l).map enc) cur.memory).map _ = _
      rw [hcur, decodeElems_map (h _ rfl), Option.map_some, length_map, drop_nil]
      rfl

theorem insertMembers_map {γ : Type} {d : Value → Option β} {key : γ → Bytes} {enc : γ → Value}
    {val : γ → β} {l : List γ} (h : ∀ e ∈ l, d (enc e) = some (val e)) (m : SortedMap Bytes β) :
    insertMembers d (l.map fun e => (key e, enc e)) m =
      some (l.foldl (fun m e => m.insert (key e) (val e)) m) := by
  induction l generalizing m with
  | nil => rfl
  | cons e l ih =>
    rw [map_cons, insertMembers, h e mem_cons_self, Option.bind_some,
      ih fun b hb => h b (mem_cons_of_mem e hb)]
    rfl

/-! ## Decoding what was written

A written text comes back with its strings coerced. -/

theorem coerceElems_eq_map (l : List Value) : Value.coerceElems l = l.map Value.coerce := by
  induction l with
  | nil => rfl
  | cons v l ih => rw [Value.coerceElems, ih, map_cons]

theorem coerceMembers_eq_map (l : List (Bytes × Value)) :
    Value.coerceMembers l = l.map fun e => (coerce e.1, e.2.coerce) := by
  induction l with
  | nil => rfl
  | cons e l ih =>
    obtain ⟨k, v⟩ := e
    rw [Value.coerceMembers, ih, map_cons]

theorem coerce_encodeSlice (enc : α → Value) (s : Option (List α)) :
    (encodeSlice enc s).coerce = encodeSlice (fun a => (enc a).coerce) s := by
  cases s with
  | none => rfl
  | some l =>
    show Value.arr (Value.coerceElems (l.map enc)) = .arr (l.map _)
    rw [coerceElems_eq_map, map_map]
    rfl

/-- A map decoded into the nil map. Keys that are coerced to the same text are one
entry, the last one. -/
theorem decodeMap_encodeMap {d : Value → Option β} {m : Option (SortedMap Bytes α)}
    (h : ∀ m', m = some m' → ∀ e ∈ m'.entries, d (enc e.2).coerce = some (val e.2)) :
    decodeMap d (encodeMap enc m).coerce none =
      some (m.map fun m' =>
        m'.entries.foldl (fun m e => m.insert (coerce e.1) (val e.2)) .empty) := by
  cases m with
  | none => rfl
  | some m =>
    show (insertMembers d (Value.coerceMembers (m.entries.map _)) .empty).map some = _
    rw [coerceMembers_eq_map, map_map]
    show (insertMembers d (m.entries.map fun e => (coerce e.1, (enc e.2).coerce)) .empty).map some = _
    rw [insertMembers_map (h m rfl), Option.map_some]
    rfl

end

/-- The names of the fields are kept apart, and written as they are. -/
structure Fields.Named {α : Type} (fields : Fields α) : Prop where
  nodup : (fields.map fun f => foldName f.1).Nodup
  valid : ∀ f ∈ fields, validString f.1 = true

/-- The decoder of a field is found by its own name. -/
theorem decodeMember_of_mem {fields : Fields α} {d : Decoder α}
    (hnodup : (fields.map fun f => foldName f.1).Nodup) (h : (k, d) ∈ fields) :
    decodeMember fields k = d := by
  have hfind : fields.find? (fun f => decide (foldName f.1 = foldName k)) = some (k, d) := by
    induction fields with
    | nil => cases h
    | cons f fields ih =>
      obtain ⟨hnew, hnodup⟩ := nodup_cons.mp hnodup
      rcases mem_cons.mp h with rfl | h
      · exact List.find?_cons_of_pos (by simp)
      · have hdiff : foldName f.1 ≠ foldName k := by
          intro hk
          exact hnew (mem_map.mpr ⟨_, h, hk.symm⟩)
        rw [List.find?_cons_of_neg (by simpa using hdiff), ih hnodup h]
  unfold decodeMember
  rw [hfind]

section
variable {α : Type} {fields : Fields α} (hn : fields.Named)
include hn

/-- A written member goes to the field of its name, the `i`-th one. -/
theorem decodeMembers_written {d : Decoder α} {a a' : α} (i : Nat) (hk : fields[i]? = some (k, d))
    (hd : d v.coerce a = some a') :
    decodeMembers fields (Value.coerceMembers ((k, v) :: ms)) a =
      decodeMembers fields (Value.coerceMembers ms) a' := by
  have hmem : (k, d) ∈ fields := mem_of_getElem? hk
  rw [Value.coerceMembers, coerce_of_valid (hn.valid _ hmem), decodeMembers,
    decodeMember_of_mem hn.nodup hmem, hd, Option.bind_some]

/-- A written member sets its field, and the others follow. -/
theorem decodeMembers_next {β : Type} {get : α → β} {set : α → β → α} {d : Decoder β} {a : α}
    {x : β} (i : Nat) (hk : fields[i]? = some (k, onField get set d))
    (hd : d v.coerce (get a) = some x) {r : Option α}
    (hms : decodeMembers fields (Value.coerceMembers ms) (set a x) = r) :
    decodeMembers fields (Value.coerceMembers ((k, v) :: ms)) a = r :=
  (decodeMembers_written hn i hk (onField_eq_some hd)).trans hms

/-- A member that may have been left out. -/
theorem decodeMembers_omitted {empty : Bool} {d : Decoder α} {a a' : α} (i : Nat)
    (hk : fields[i]? = some (k, d)) (hempty : empty = true → a = a')
    (hd : empty = false → d v.coerce a = some a') :
    decodeMembers fields (Value.coerceMembers (omitEmpty empty k v ++ ms)) a =
      decodeMembers fields (Value.coerceMembers ms) a' := by
  cases empty with
  | true =>
    show decodeMembers fields (Value.coerceMembers ms) a = _
    rw [hempty rfl]
  | false => exact decodeMembers_written hn i hk (hd rfl)

end

/-! ## Writable values -/

theorem writableElems_iff {l : List Value} :
    Value.WritableElems n l ↔ ∀ v ∈ l, v.Writable n := by
  induction l with
  | nil => simp [Value.WritableElems]
  | cons v l ih => simp [Value.WritableElems, ih]

theorem writableMembers_iff :
    Value.WritableMembers n l ↔ ∀ e ∈ l, e.2.Writable n := by
  induction l with
  | nil => simp [Value.WritableMembers]
  | cons e l ih =>
    obtain ⟨k, v⟩ := e
    simp [Value.WritableMembers, ih]

@[simp]
theorem writable_obj :
    (Value.obj l).Writable (n + 1) ↔ Value.WritableMembers n l := Iff.rfl

@[simp]
theorem writableMembers_nil : Value.WritableMembers n [] := trivial

@[simp]
theorem writableMembers_cons :
    Value.WritableMembers n ((k, v) :: l) ↔ v.Writable n ∧ Value.WritableMembers n l := Iff.rfl

@[simp]
theorem writable_int (n : Nat) (i : Int) : (Value.int i).Writable n := by
  have h := isNumeral_intText i
  cases n <;> exact h

@[simp]
theorem writable_str (n : Nat) (s : Bytes) : (Value.str s).Writable n := by
  cases n <;> trivial

@[simp]
theorem writable_encodeSlice {enc : α → Value} (h : ∀ a, (enc a).Writable n) (s : Option (List α)) :
    (encodeSlice enc s).Writable (n + 1) := by
  cases s with
  | none => trivial
  | some l =>
    refine writableElems_iff.mpr ?_
    intro v hv
    obtain ⟨a, -, rfl⟩ := mem_map.mp hv
    exact h a

@[simp]
theorem writable_encodeMap {β : Type} {enc : β → Value} (h : ∀ b, (enc b).Writable n)
    (m : Option (SortedMap Bytes β)) :
    (encodeMap enc m).Writable (n + 1) := by
  cases m with
  | none => trivial
  | some m =>
    refine writableMembers_iff.mpr ?_
    intro e he
    obtain ⟨e', -, rfl⟩ := mem_map.mp he
    exact h e'.2

@[simp]
theorem writableMembers_append {a b : List (Bytes × Value)} : Value.WritableMembers n (a ++ b) ↔
    Value.WritableMembers n a ∧ Value.WritableMembers n b := by
  simp only [writableMembers_iff, forall_mem_append]

@[simp]
theorem writableMembers_omitEmpty {empty : Bool} (hv : v.Writable n) :
    Value.WritableMembers n (omitEmpty empty k v) := by
  cases empty
  · exact ⟨hv, trivial⟩
  · exact trivial

end GbfCore.Json
