import GbfCore.Lib.Json.Scanner

/-!
# Parsing what was rendered

The scanner over the text of a value ends with the value delivered to the frame it
started in (`scan_render`), whatever that frame is; so a text that `json.Marshal` has
written is accepted and read back with its strings coerced to UTF-8
(`parse_render`).
-/

namespace GbfCore.Json

open List Option

variable {text : Bytes} {stack : List Frame} {c : UInt8} {n : Nat} {v : Value}

/-! ## Strings -/

/-- The scanner over text inside a string. -/
def strRun : Esc → Bytes → Option Esc
  | esc, [] => some esc
  | esc, c :: rest =>
    if esc = .plain ∧ c = quotationMark then none
    else (strNext esc c).bind fun esc' => strRun esc' rest

theorem strRun_append {a : Bytes} : ∀ {esc esc' : Esc}, strRun esc a = some esc' →
    ∀ b, strRun esc (a ++ b) = strRun esc' b := by
  induction a with
  | nil =>
    intro esc esc' h b
    cases h
    rfl
  | cons c a ih =>
    intro esc esc' h b
    rw [strRun] at h
    rw [cons_append, strRun]
    split at h
    · cases h
    · rename_i hquote
      obtain ⟨esc₁, hnext, hrest⟩ := bind_eq_some_iff.mp h
      rw [if_neg hquote, hnext, bind_some]
      exact ih hrest b

theorem scan_str {isKey : Bool} :
    ∀ {esc esc' : Esc}, strRun esc text = some esc' → ∀ raw rest,
      scan ⟨.str isKey raw esc, stack⟩ (text ++ rest) =
        scan ⟨.str isKey (raw ++ text) esc', stack⟩ rest := by
  induction text with
  | nil =>
    intro esc esc' h raw rest
    cases h
    rw [append_nil, nil_append]
  | cons c text ih =>
    intro esc esc' h raw rest
    rw [strRun] at h
    split at h
    · cases h
    · rename_i hquote
      obtain ⟨esc₁, hnext, hrest⟩ := bind_eq_some_iff.mp h
      rw [cons_append, scan, step]
      dsimp only
      rw [if_neg hquote, hnext, map_some, bind_some, ih hrest, append_assoc,
        singleton_append]

theorem strRun_not_ascii {r : Bytes} (hr : ∀ b ∈ r, ¬ b < 0x80) :
    strRun .plain r = some .plain := by
  induction r with
  | nil => rfl
  | cons b r ih =>
    have hb := hr b mem_cons_self
    have hquote : b ≠ quotationMark := by
      rintro rfl
      exact hb (by decide)
    have hback : b ≠ backslash := by
      rintro rfl
      exact hb (by decide)
    have hctrl : ¬ b < 0x20 := fun h => hb (UInt8.lt_trans h (by decide))
    rw [strRun, if_neg fun h => hquote h.2, strNext, if_neg hback, if_neg hctrl, bind_some]
    exact ih fun c hc => hr c (mem_cons_of_mem b hc)

theorem strRun_escapeByte {b : UInt8} (hb : b < 0x80) :
    strRun .plain (escapeByte b) = some .plain := by
  have key : ∀ n < 128, strRun .plain (escapeByte (UInt8.ofNat n)) = some .plain := by decide
  have h := key b.toNat hb
  rw [UInt8.ofNat_toNat] at h
  exact h

theorem strRun_escapeSeg {seg : Seg} (hseg : ∀ r, seg = .rune r → IsRune r) :
    strRun .plain (escapeSeg seg) = some .plain := by
  unfold escapeSeg
  split
  · rfl
  · rename_i b
    exact strRun_escapeByte (ascii_of_isRune_singleton (hseg _ rfl))
  · rename_i r hlong
    split
    · rfl
    · split
      · rfl
      · refine strRun_not_ascii (not_ascii_of_isRune (hseg r rfl) ?_)
        intro hone
        obtain ⟨b, rfl⟩ := length_eq_one_iff.mp hone
        exact hlong b rfl

theorem strRun_segs (l : List Seg) (hl : ∀ r, Seg.rune r ∈ l → IsRune r) :
    strRun .plain (l.flatMap escapeSeg) = some .plain := by
  induction l with
  | nil => rfl
  | cons seg l ih =>
    have hseg : strRun .plain (escapeSeg seg) = some .plain := by
      refine strRun_escapeSeg ?_
      rintro r rfl
      exact hl r mem_cons_self
    rw [flatMap_cons, strRun_append hseg]
    exact ih fun r hr => hl r (mem_cons_of_mem seg hr)

/-- From the quotation mark on, a quoted string is read to its end. -/
theorem scan_quote (isKey : Bool) (s : Bytes) (stack : List Frame) (rest : Bytes) :
    scan ⟨.str isKey [] .plain, stack⟩ (escape s ++ quotationMark :: rest) =
      (endString isKey (escape s) stack).bind fun s' => scan s' rest := by
  have hrun : strRun .plain (escape s) = some .plain :=
    strRun_segs _ fun r => isRune_of_mem_segs
  rw [scan_str hrun, nil_append, scan, step]
  rfl

theorem scan_quote_value (s : Bytes) (stack : List Frame) (rest : Bytes) :
    scan ⟨.value, stack⟩ (quote s ++ rest) =
      scan (deliver (.str (coerce s)) stack) rest := by
  rw [quote, cons_append, cons_append, append_assoc, singleton_append]
  show scan ⟨.str false [] .plain, stack⟩ (escape s ++ quotationMark :: rest) = _
  have hend : endString false (escape s) stack = some (deliver (.str (coerce s)) stack) := by
    unfold endString
    rw [unquote_escape]
  rw [scan_quote, hend, bind_some]

/-- A key, after a brace or after a comma. -/
theorem scan_quote_key {mode : Mode} (hmode : mode = .keyOrEnd ∨ mode = .key) (k : Bytes)
    (members : List (Bytes × Value)) (stack : List Frame) (rest : Bytes) :
    scan ⟨mode, .obj members :: stack⟩ (quote k ++ rest) =
      scan ⟨.colon, .member members (coerce k) :: stack⟩ rest := by
  rw [quote, cons_append, cons_append, append_assoc, singleton_append]
  have hfirst : step ⟨mode, .obj members :: stack⟩ quotationMark =
      some ⟨.str true [] .plain, .obj members :: stack⟩ := by
    rcases hmode with rfl | rfl <;> rfl
  have hend : endString true (escape k) (.obj members :: stack) =
      some ⟨.colon, .member members (coerce k) :: stack⟩ := by
    unfold endString
    rw [unquote_escape]
  rw [scan, hfirst, bind_some, scan_quote, hend, bind_some]

/-! ## Numbers -/

/-- What follows a value in a rendered text; the blank stands for its end. -/
def IsDelim (c : UInt8) : Prop := c = 0x2c ∨ c = 0x5d ∨ c = 0x7d ∨ c = 0x20

theorem numNext_delim (hc : IsDelim c) (st : NumState) : numNext st c = none := by
  rcases hc with rfl | rfl | rfl | rfl <;> cases st <;> rfl

theorem scan_num :
    ∀ {st st' : NumState}, numRun st text = some st' → ∀ front rest,
      scan ⟨.num st front, stack⟩ (text ++ rest) =
        scan ⟨.num st' (front ++ text), stack⟩ rest := by
  induction text with
  | nil =>
    intro st st' h front rest
    cases h
    rw [append_nil, nil_append]
  | cons c text ih =>
    intro st st' h front rest
    obtain ⟨st₁, hnext, hrest⟩ := bind_eq_some_iff.mp h
    rw [cons_append, scan, step]
    dsimp only
    rw [hnext]
    dsimp only
    rw [bind_some, ih hrest, append_assoc, singleton_append]

/-- After a value the scanner is at the end of a value. -/
theorem step_deliver (v : Value) (stack : List Frame) (c : UInt8) :
    step (deliver v stack) c = endValue (deliver v stack) c := by
  cases stack with
  | nil => rfl
  | cons f stack => cases f <;> rfl

/-- A numeral begins like one. -/
theorem beginValue_num {st : NumState} (h : numStart c = some st) (stack : List Frame) :
    beginValue stack c = some ⟨.num st [c], stack⟩ := by
  have hbyte : isSpace c = false ∧ c ≠ 0x7b ∧ c ≠ 0x5b ∧ c ≠ quotationMark ∧ c ≠ 0x74 ∧ c ≠ 0x66 ∧
      c ≠ 0x6e := by
    refine ⟨?_, ?_, ?_, ?_, ?_, ?_, ?_⟩
    · cases hspace : isSpace c with
      | false => rfl
      | true =>
        simp only [isSpace, Bool.or_eq_true, decide_eq_true_eq] at hspace
        rcases hspace with ((rfl | rfl) | rfl) | rfl <;> cases h
    all_goals
      rintro rfl
      cases h
  obtain ⟨h0, h1, h2, h3, h4, h5, h6⟩ := hbyte
  rw [beginValue, h0, if_neg Bool.false_ne_true, if_neg h1, if_neg h2, if_neg h3, if_neg h4,
    if_neg h5, if_neg h6, h]
  rfl

theorem scan_numeral (h : IsNumeral text) (stack : List Frame) (hc : ∀ st, numNext st c = none)
    (rest : Bytes) :
    scan ⟨.value, stack⟩ (text ++ c :: rest) = scan (deliver (.num text) stack) (c :: rest) := by
  obtain ⟨x, digits, st, st', rfl, hstart, hrun, hfinal⟩ := h
  have hfirst : step ⟨.value, stack⟩ x = some ⟨.num st [x], stack⟩ := beginValue_num hstart stack
  rw [cons_append, scan, hfirst, bind_some, scan_num hrun, scan, step]
  dsimp only
  rw [hc]
  dsimp only
  rw [if_pos hfinal, scan, step_deliver]
  rfl

/-- An integer is written as a numeral. -/
theorem isNumeral_intText (i : Int) : IsNumeral (intText i) := by
  have hdigits : ∀ {ds : Bytes}, (∀ b ∈ ds, isDigit b = true) → numRun .int ds = some .int := by
    intro ds hds
    induction ds with
    | nil => rfl
    | cons b ds ih =>
      rw [numRun, numNext, if_pos (hds b mem_cons_self), bind_some]
      exact ih fun c hc => hds c (mem_cons_of_mem b hc)
  have htail : ∀ {n b rest}, natText n = b :: rest → numRun .int rest = some .int := by
    intro n b rest h
    refine hdigits fun c hc => isDigit_natText n c ?_
    rw [h]
    exact mem_cons_of_mem b hc
  cases i with
  | ofNat n =>
    by_cases hn : n = 0
    · subst hn
      exact ⟨0x30, [], .zero, .zero, rfl, rfl, rfl, rfl⟩
    · obtain ⟨b, rest, hb, hdigit, hzero⟩ := natText_head hn
      refine ⟨b, rest, .int, .int, hb, ?_, htail hb, rfl⟩
      have hminus : b ≠ minus := by
        rintro rfl
        cases hdigit
      rw [numStart, if_neg hminus, if_neg hzero, if_pos hdigit]
  | negSucc n =>
    obtain ⟨b, rest, hb, hdigit, hzero⟩ := natText_head (Nat.succ_ne_zero n)
    refine ⟨minus, natText (n + 1), .neg, .int, rfl, rfl, ?_, rfl⟩
    rw [hb, numRun, numNext, if_neg hzero, if_pos hdigit, bind_some]
    exact htail hb

/-! ## Values -/

mutual
/-- The value has at most this many levels of arrays and objects, and its numbers
are numerals. -/
def Value.Writable : Nat → Value → Prop
  | _, .null => True
  | _, .bool _ => True
  | _, .num text => IsNumeral text
  | _, .str _ => True
  | 0, .arr _ => False
  | n + 1, .arr elems => WritableElems n elems
  | 0, .obj _ => False
  | n + 1, .obj members => WritableMembers n members

def Value.WritableElems (n : Nat) : List Value → Prop
  | [] => True
  | v :: vs => v.Writable n ∧ WritableElems n vs

def Value.WritableMembers (n : Nat) : List (Bytes × Value) → Prop
  | [] => True
  | (_, v) :: ms => v.Writable n ∧ WritableMembers n ms
end

/-- The first byte of a value closes no array and is no white space. -/
theorem render_head (hv : v.Writable n) :
    ∃ c rest, v.render = c :: rest ∧ c ≠ 0x5d ∧ isSpace c = false := by
  cases v with
  | null => exact ⟨_, _, rfl, by decide, by decide⟩
  | bool b => cases b <;> exact ⟨_, _, rfl, by decide, by decide⟩
  | num text =>
    have hnum : IsNumeral text := by cases n <;> exact hv
    obtain ⟨c, rest, st, st', rfl, hstart, -, -⟩ := hnum
    refine ⟨c, rest, rfl, ?_, ?_⟩
    · rintro rfl
      cases hstart
    · cases hspace : isSpace c with
      | false => rfl
      | true =>
        simp only [isSpace, Bool.or_eq_true, decide_eq_true_eq] at hspace
        rcases hspace with ((rfl | rfl) | rfl) | rfl <;> cases hstart
  | str s => exact ⟨_, _, rfl, by decide, by decide⟩
  | arr elems => exact ⟨_, _, rfl, by decide, by decide⟩
  | obj members => exact ⟨_, _, rfl, by decide, by decide⟩

/-- An array that is not empty goes on with a value. -/
theorem scan_valueOrEnd (hv : v.Writable n) (stack : List Frame) (rest : Bytes) :
    scan ⟨.valueOrEnd, stack⟩ (v.render ++ rest) = scan ⟨.value, stack⟩ (v.render ++ rest) := by
  obtain ⟨c, tail, hrender, hclose, hspace⟩ := render_head hv
  have hstep : step ⟨.valueOrEnd, stack⟩ c = step ⟨.value, stack⟩ c := by
    rw [step, step]
    dsimp only
    rw [hspace, if_neg Bool.false_ne_true, if_neg hclose]
  rw [hrender, cons_append, scan, scan, hstep]

theorem openFrame_of_lt (h : stack.length < maxNestingDepth) (f : Frame) (mode : Mode) :
    openFrame f mode stack = some ⟨mode, f :: stack⟩ :=
  if_pos h

mutual
/-- The scanner over the text of a value. The induction is on the value; the frame
around it is arbitrary. -/
theorem scan_render : ∀ (v : Value) {n : Nat}, v.Writable n → ∀ (stack : List Frame),
    stack.length + n ≤ maxNestingDepth → ∀ {c : UInt8}, IsDelim c → ∀ rest : Bytes,
      scan ⟨.value, stack⟩ (v.render ++ c :: rest) = scan (deliver v.coerce stack) (c :: rest)
  | .null, _, _, _, _, _, _, _ => rfl
  | .bool true, _, _, _, _, _, _, _ => rfl
  | .bool false, _, _, _, _, _, _, _ => rfl
  | .num text, n, hv, stack, _, c, hc, rest => by
    have hnum : IsNumeral text := by cases n <;> exact hv
    exact scan_numeral hnum stack (numNext_delim hc) rest
  | .str s, _, _, stack, _, c, _, rest => scan_quote_value s stack (c :: rest)
  | .arr elems, 0, hv, _, _, _, _, _ => hv.elim
  | .arr elems, n + 1, hv, stack, hdepth, c, _, rest => by
    have hroom : stack.length < maxNestingDepth := by omega
    have hopen : step ⟨.value, stack⟩ 0x5b = some ⟨.valueOrEnd, .arr [] :: stack⟩ :=
      openFrame_of_lt hroom _ _
    rw [Value.render, cons_append, cons_append, append_assoc,
      singleton_append, scan, hopen, bind_some]
    cases elems with
    | nil => rfl
    | cons v vs =>
      have hfirst : ∃ tail, Value.renderElems (v :: vs) = v.render ++ tail := by
        cases vs with
        | nil => exact ⟨[], (append_nil _).symm⟩
        | cons w vs => exact ⟨_, rfl⟩
      obtain ⟨tail, htail⟩ := hfirst
      have hv' : v.Writable n ∧ Value.WritableElems n vs := hv
      rw [htail, append_assoc, scan_valueOrEnd hv'.1, ← append_assoc, ← htail]
      exact scan_elems (v :: vs) (cons_ne_nil _ _) hv' [] stack (by omega) _
  | .obj members, 0, hv, _, _, _, _, _ => hv.elim
  | .obj members, n + 1, hv, stack, hdepth, c, _, rest => by
    have hroom : stack.length < maxNestingDepth := by omega
    have hopen : step ⟨.value, stack⟩ 0x7b = some ⟨.keyOrEnd, .obj [] :: stack⟩ :=
      openFrame_of_lt hroom _ _
    rw [Value.render, cons_append, cons_append, append_assoc,
      singleton_append, scan, hopen, bind_some]
    cases members with
    | nil => rfl
    | cons m ms =>
      exact scan_members (m :: ms) (cons_ne_nil _ _) hv (.inl rfl) [] stack (by omega) _

/-- The elements of an array, up to its bracket. -/
theorem scan_elems : ∀ (elems : List Value), elems ≠ [] → ∀ {n : Nat},
    Value.WritableElems n elems → ∀ (front : List Value) (stack : List Frame),
      stack.length + 1 + n ≤ maxNestingDepth → ∀ rest : Bytes,
        scan ⟨.value, .arr front :: stack⟩ (Value.renderElems elems ++ 0x5d :: rest) =
          scan (deliver (.arr (front ++ Value.coerceElems elems)) stack) rest
  | [], hne, _, _, _, _, _, _ => absurd rfl hne
  | [v], _, n, hvs, front, stack, hdepth, rest => by
    rw [Value.renderElems, scan_render v hvs.1 (.arr front :: stack) hdepth (by simp [IsDelim]) rest]
    rfl
  | v :: w :: vs, _, n, hvs, front, stack, hdepth, rest => by
    show scan _ ((v.render ++ 0x2c :: Value.renderElems (w :: vs)) ++ 0x5d :: rest) = _
    rw [append_assoc, cons_append,
      scan_render v hvs.1 (.arr front :: stack) hdepth (by simp [IsDelim])]
    -- the comma leads to the next element
    show scan ⟨.value, .arr (front ++ [v.coerce]) :: stack⟩ _ = _
    rw [scan_elems (w :: vs) (cons_ne_nil _ _) hvs.2 _ stack hdepth rest, append_assoc]
    rfl

/-- The members of an object, up to its brace. -/
theorem scan_members : ∀ (members : List (Bytes × Value)), members ≠ [] → ∀ {n : Nat},
    Value.WritableMembers n members → ∀ {mode : Mode}, mode = .keyOrEnd ∨ mode = .key →
      ∀ (front : List (Bytes × Value)) (stack : List Frame),
        stack.length + 1 + n ≤ maxNestingDepth → ∀ rest : Bytes,
          scan ⟨mode, .obj front :: stack⟩ (Value.renderMembers members ++ 0x7d :: rest) =
            scan (deliver (.obj (front ++ Value.coerceMembers members)) stack) rest
  | [], hne, _, _, _, _, _, _, _, _ => absurd rfl hne
  | [(k, v)], _, n, hms, mode, hmode, front, stack, hdepth, rest => by
    rw [Value.renderMembers, append_assoc, scan_quote_key hmode]
    show scan ⟨.value, .member front (coerce k) :: stack⟩ (v.render ++ 0x7d :: rest) = _
    rw [scan_render v hms.1 (.member front (coerce k) :: stack) hdepth (by simp [IsDelim]) rest]
    rfl
  | (k, v) :: m :: ms, _, n, hms, mode, hmode, front, stack, hdepth, rest => by
    show scan _ ((quote k ++ 0x3a :: v.render ++ 0x2c :: Value.renderMembers (m :: ms)) ++
      0x7d :: rest) = _
    rw [append_assoc, append_assoc, scan_quote_key hmode]
    show scan ⟨.value, .member front (coerce k) :: stack⟩
      (v.render ++ 0x2c :: (Value.renderMembers (m :: ms) ++ 0x7d :: rest)) = _
    rw [scan_render v hms.1 (.member front (coerce k) :: stack) hdepth (by simp [IsDelim])]
    -- the comma leads to the next key
    show scan ⟨.key, .obj (front ++ [(coerce k, v.coerce)]) :: stack⟩ _ = _
    rw [scan_members (m :: ms) (cons_ne_nil _ _) hms.2 (.inr rfl) _ stack hdepth rest,
      append_assoc]
    rfl
end

theorem scan_append (a b : Bytes) (s : Scanner) :
    scan s (a ++ b) = (scan s a).bind fun s' => scan s' b := by
  induction a generalizing s with
  | nil => rfl
  | cons c a ih =>
    rw [cons_append, scan, scan, bind_assoc]
    congr 1
    funext s'
    exact ih s'

/-- **A rendered value is read back, with its strings coerced.** -/
theorem parse_render (hv : v.Writable n) (hn : n ≤ maxNestingDepth) :
    parse v.render = some v.coerce := by
  -- the blank that `finish` adds ends a number
  have hscan : scan ⟨.value, []⟩ (v.render ++ [0x20]) = some ⟨.done v.coerce, []⟩ :=
    scan_render v hv [] (by simpa using hn) (by simp [IsDelim]) []
  rw [scan_append] at hscan
  obtain ⟨s, htext, hblank⟩ := bind_eq_some_iff.mp hscan
  obtain ⟨s', hstep, heq⟩ := bind_eq_some_iff.mp hblank
  cases heq
  rw [parse, htext, bind_some, finish, hstep]

end GbfCore.Json
