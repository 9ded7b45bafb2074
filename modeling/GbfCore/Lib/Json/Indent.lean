import GbfCore.Lib.Json.Decode

/-!
# Indented texts

`json.MarshalIndent` with an indentation of two blanks, for a struct without nested arrays and
objects: one member a line. The scanner skips the white space and reads the same value as
from the compact text (`parse_indent`).
-/

namespace GbfCore.Json

open List

/-- A value that stands on one line. -/
def Value.Flat : Value → Prop
  | .arr _ => False
  | .obj _ => False
  | .num text => IsNumeral text
  | _ => True

/-- The lines between the braces of an object. -/
def indentMembers : List (Bytes × Value) → Bytes
  | [] => []
  | [(k, v)] => ascii "\n  " ++ (quote k ++ 0x3a :: 0x20 :: v.render)
  | (k, v) :: ms => ascii "\n  " ++ (quote k ++ 0x3a :: 0x20 :: v.render ++ 0x2c :: indentMembers ms)

/-- `json.MarshalIndent(v, "", "  ")` for a struct with these members. -/
def indent (members : List (Bytes × Value)) : Bytes :=
  0x7b :: indentMembers members ++ ascii "\n\x7d"

/-- A value on one line, up to a byte that is no part of a number. -/
theorem scan_flat {v : Value} (hv : v.Flat) (stack : List Frame) {c : UInt8}
    (hc : ∀ st, numNext st c = none) (rest : Bytes) :
    scan ⟨.value, stack⟩ (v.render ++ c :: rest) = scan (deliver v.coerce stack) (c :: rest) := by
  cases v with
  | null => rfl
  | bool b => cases b <;> rfl
  | num text => exact scan_numeral hv stack hc rest
  | str s => exact scan_quote_value s stack (c :: rest)
  | arr elems => exact hv.elim
  | obj members => exact hv.elim

/-- The white space in front of a key. -/
theorem scan_newline {mode : Mode} (hmode : mode = .keyOrEnd ∨ mode = .key) (stack : List Frame)
    (rest : Bytes) : scan ⟨mode, stack⟩ (ascii "\n  " ++ rest) = scan ⟨mode, stack⟩ rest := by
  rcases hmode with rfl | rfl <;> rfl

/-- A member, up to its value. -/
theorem scan_member {mode : Mode} (hmode : mode = .keyOrEnd ∨ mode = .key) (k : Bytes)
    (front : List (Bytes × Value)) (stack : List Frame) (rest : Bytes) :
    scan ⟨mode, .obj front :: stack⟩ (ascii "\n  " ++ (quote k ++ 0x3a :: 0x20 :: rest)) =
      scan ⟨.value, .member front (coerce k) :: stack⟩ rest := by
  rw [scan_newline hmode, scan_quote_key hmode]
  rfl

/-- The lines of an object, up to its brace. -/
theorem scan_indentMembers : ∀ (members : List (Bytes × Value)), members ≠ [] →
    (∀ e ∈ members, e.2.Flat) → ∀ {mode : Mode}, mode = .keyOrEnd ∨ mode = .key →
      ∀ (front : List (Bytes × Value)) (stack : List Frame) (rest : Bytes),
        scan ⟨mode, .obj front :: stack⟩ (indentMembers members ++ 0x0a :: 0x7d :: rest) =
          scan (deliver (.obj (front ++ Value.coerceMembers members)) stack) rest
  | [], hne, _, _, _, _, _, _ => absurd rfl hne
  | [(k, v)], _, hflat, mode, hmode, front, stack, rest => by
    have hv : v.Flat := hflat (k, v) mem_cons_self
    rw [indentMembers, append_assoc, append_assoc, cons_append, cons_append,
      scan_member hmode, scan_flat hv _ fun st => by cases st <;> rfl]
    rfl
  | (k, v) :: m :: ms, _, hflat, mode, hmode, front, stack, rest => by
    have hv : v.Flat := hflat (k, v) mem_cons_self
    show scan _ ((ascii "\n  " ++
      (quote k ++ 0x3a :: 0x20 :: v.render ++ 0x2c :: indentMembers (m :: ms))) ++
        0x0a :: 0x7d :: rest) = _
    rw [append_assoc, append_assoc, append_assoc, cons_append,
      cons_append, cons_append, scan_member hmode, scan_flat hv _ (numNext_delim (.inl rfl))]
    -- the comma leads to the next line
    show scan ⟨.key, .obj (front ++ [(coerce k, v.coerce)]) :: stack⟩ _ = _
    rw [scan_indentMembers (m :: ms) (cons_ne_nil _ _)
      (fun e he => hflat e (mem_cons_of_mem _ he)) (.inr rfl), append_assoc]
    rfl

/-- **An indented text is read like a compact one.** -/
theorem parse_indent {members : List (Bytes × Value)} (hne : members ≠ [])
    (h : ∀ e ∈ members, e.2.Flat) :
    parse (indent members) = some (.obj (Value.coerceMembers members)) := by
  have hscan : scan ⟨.keyOrEnd, [.obj []]⟩ (indentMembers members ++ ascii "\n\x7d") =
      some ⟨.done (.obj (Value.coerceMembers members)), []⟩ :=
    scan_indentMembers members hne h (.inl rfl) [] [] []
  have hopen : scan ⟨.value, []⟩ (indent members) =
      scan ⟨.keyOrEnd, [.obj []]⟩ (indentMembers members ++ ascii "\n\x7d") := rfl
  rw [parse, hopen, hscan]
  rfl

/-! ## More types of fields -/

/-- Into a `uint64`. -/
def decodeUint64 : Decoder Nat
  | .num text, _ => parseUint 64 text
  | .null, n => some n
  | _, _ => none

theorem decodeUint64_int {n : Nat} (hn : n < 2 ^ 64) (cur : Nat) :
    decodeUint64 (.int n) cur = some n :=
  parseUint_natText hn

theorem flat_omitEmpty {empty : Bool} {k : Bytes} {v : Value} (hv : v.Flat) :
    ∀ e ∈ omitEmpty empty k v, e.2.Flat := by
  cases empty
  · exact forall_mem_singleton.mpr hv
  · exact forall_mem_nil _

end GbfCore.Json
