import LedaSdk.Json.ParsedString
import LedaSdk.Json.RoundTrip
import Mathlib.Control.Monad.Basic

/-!
# Parsing in a buffer follows parsing a text

The functions of the parser read only the string and its NUL, write only the memory that
they allocated, end, and read what the functions over texts read.
-/

namespace LedaSdk.Json
open LedaSdk.Base Procedure

namespace ParseBuffer

/-- A function of the parser that begins at the text `s`, which is read as `t`: it reads the same
and ends at what is left of the text, with the depth it began at. -/
def Reads {α : Type} (bytes : List UInt8) (m : Parser α) (p : ParseBuffer) (s : List UInt8)
    (t : Option (α × List UInt8)) : Prop :=
  Gives m p
    (fun a p' ↦ p'.depth = p.depth ∧
      ∃ s', Rest bytes p' s' ∧ s'.length ≤ s.length ∧ t = some (a, s'))
    (fun _ ↦ t = none)

section Scalars
variable {bytes s : List UInt8} {p : ParseBuffer}

theorem Reads.of_value {α : Type} {m : Parser α} {t : Option (α × List UInt8)} {a : α}
    {p' : ParseBuffer} {s' : List UInt8} (hm : m p = some (some a, p')) (hd : p'.depth = p.depth)
    (h : Rest bytes p' s') (hle : s'.length ≤ s.length) (ht : t = some (a, s')) :
    Reads bytes m p s t :=
  ⟨some a, p', hm, hd, s', h, hle, ht⟩

theorem Reads.of_fail {α : Type} {m : Parser α} {t : Option (α × List UInt8)} (p' : ParseBuffer)
    (hm : m p = some (none, p')) (ht : t = none) : Reads bytes m p s t :=
  ⟨none, p', hm, ht⟩

theorem closingQuote_split {s raw rest : List UInt8} (h : closingQuote s = some (raw, rest)) :
    s = raw ++ ascii '"' :: rest := by
  obtain ⟨hnone, -⟩ | ⟨raw', rest', n, hclose, -, -, htext⟩ :=
    findEnd_reads (show s.drop 0 = s from rfl) (Nat.lt_succ_self _) 0
  · rw [h] at hnone
    cases hnone
  · obtain ⟨rfl, rfl⟩ := Prod.mk.inj (Option.some.inj (h.symm.trans hclose))
    exact htext

/-- The NUL is behind the closing quotation mark. -/
theorem closingQuote_nul (s : List UInt8) :
    closingQuote (s ++ [0]) = (closingQuote s).map fun r ↦ (r.1, r.2 ++ [0]) := by
  fun_induction closingQuote s with
  | case1 => rfl
  | case2 s =>
    rw [List.cons_append, closingQuote.eq_def]
    rfl
  | case3 => rfl
  | case4 e s _ ih =>
    rw [List.cons_append, List.cons_append, closingQuote.eq_def]
    simp only [ih, Option.map_map]
    rfl
  | case5 c s hq hback ih =>
    rw [List.cons_append, closingQuote.eq_def]
    simp only [hq, hback, if_false, ih, Option.map_map]
    rfl

/-- `parse_string` reads a string as it is read from a text. -/
theorem parseString_reads (fresh : Nat → UInt8) (h : Rest bytes p s) :
    Reads bytes (parseString (bytes ++ [0]) fresh) p s (Json.parseString s) := by
  have hfirst := h.get_zero
  cases s with
  | nil =>
    exact Reads.of_fail (p.advance 1) (by rw [parseString, hfirst]; rfl) rfl
  | cons c t =>
    have hc : (bytes ++ [0])[p.offset]? = some c := hfirst
    rw [Json.parseString]
    by_cases hq : c = ascii '"'
    swap
    · rw [if_neg hq]
      refine Reads.of_fail (p.advance 1) ?_ rfl
      rw [parseString, hc, Option.bind_eq_bind, Option.bind_some, if_pos hq]
      rfl
    · subst hq
      rw [if_pos rfl]
      have hdrop : (bytes ++ [0]).drop (p.offset + 1) = t ++ [0] := h.advance_one.drop
      have hnul := closingQuote_nul t
      rw [← hdrop] at hnul
      cases hs : closingQuote t with
      | none =>
        rw [hs] at hnul
        refine Reads.of_fail (p.advance 1) ?_ rfl
        have hlen := h.length
        have hfind : findEnd (bytes ++ [0]) (bytes ++ [0]).length (p.offset + 1) 0 = some none :=
          findEnd_eq_none rfl (by
            rw [hdrop]
            simp only [List.length_append, List.length_cons] at hlen ⊢
            omega) 0 hnul
        rw [parseString, hc]
        simp only [Option.bind_eq_bind, Option.bind_some, ne_eq, not_true_eq_false, if_false]
        rw [hfind]
        rfl
      | some r =>
        obtain ⟨raw, rest⟩ := r
        rw [hs] at hnul
        have htext := closingQuote_split hs
        obtain ⟨r, hread, hr⟩ := parseString_of_text hc hnul
        cases r with
        | error input =>
          refine Reads.of_fail _ (hread fresh) ?_
          simp only [Option.bind_eq_bind, Option.bind_some, hr]
          rfl
        | ok w =>
          have hrest : Rest bytes (p.advance (raw.length + 2)) rest := by
            rw [htext] at h
            have hw : Rest bytes (p.advance (ascii '"' :: (raw ++ [ascii '"'])).length) rest :=
              Rest.advance (by rwa [List.cons_append, List.append_assoc])
            rwa [List.length_cons, List.length_append] at hw
          refine Reads.of_value (hread fresh) rfl hrest ?_ ?_
          · rw [htext]
            simp only [List.length_cons, List.length_append]
            omega
          · simp only [Option.bind_eq_bind, Option.bind_some, hr]

/-- `parse_number` copies what the text has of a number. -/
theorem parseNumber_reads (h : Rest bytes p s) :
    Reads bytes (parseNumber (bytes ++ [0])) p s (Json.parseNumber s) := by
  have hcopy : (((bytes ++ [0]).drop p.offset).take 63).takeWhile numeralChar =
      (s.takeWhile numeralChar).take 63 := by
    rw [h.drop, ← List.take_takeWhile, List.takeWhile_append]
    split
    · next hall =>
      rw [(List.takeWhile_prefix _).eq_of_length hall]
      exact congrArg (List.take 63) (List.append_nil s)
    · rfl
  rw [Json.parseNumber]
  dsimp only
  cases hnumber : strtod ((s.takeWhile numeralChar).take 63) with
  | none =>
    refine Reads.of_fail p ?_ rfl
    rw [parseNumber, hcopy, hnumber]
  | some r =>
    obtain ⟨number, afterEnd⟩ := r
    have hle : ((s.takeWhile numeralChar).take 63).length - afterEnd.length ≤ s.length := by
      have := (List.takeWhile_prefix numeralChar (l := s)).length_le
      rw [List.length_take]
      omega
    generalize hn : ((s.takeWhile numeralChar).take 63).length - afterEnd.length = n at hle
    have hrest : Rest bytes (p.advance n) (s.drop n) := by
      have hw : Rest bytes (p.advance (s.take n).length) (s.drop n) :=
        Rest.advance (by rwa [List.take_append_drop])
      rwa [List.length_take, Nat.min_eq_left hle] at hw
    have hvalue : parseNumber (bytes ++ [0]) p = some (some (.number number), p.advance n) := by
      rw [parseNumber, hcopy, hnumber, ← hn]
    refine Reads.of_value hvalue rfl hrest ?_ ?_
    · rw [List.length_drop]
      omega
    · rw [← hn]
      rfl

end Scalars

section Lists
variable {α : Type}

/-- What stands behind an item of an array or object in a text, where `loop` reads what
follows a comma. -/
def afterItem (close : UInt8) (loop : List UInt8 → Option (List α × List UInt8)) (a : α)
    (s : List UInt8) : Option (List α × List UInt8) :=
  match Json.skipWhitespace s with
  | [] => none
  | c :: s =>
    if c = ascii ',' then (loop s).map fun (as, rest) ↦ (a :: as, rest)
    else if c = close then some ([a], s)
    else none

/-- One item of an array or object in a text, and what follows it. -/
def separatedStep (item : List UInt8 → Option (α × List UInt8)) (close : UInt8)
    (loop : List UInt8 → Option (List α × List UInt8)) (s : List UInt8) :
    Option (List α × List UInt8) := do
  let (a, s) ← item (Json.skipWhitespace s)
  afterItem close loop a s

/-- The loops of `parse_array` and `parse_object` over items in a text, up to the character
`close`. -/
def separated (item : List UInt8 → Option (α × List UInt8)) (close : UInt8) :
    Nat → List UInt8 → Option (List α × List UInt8)
  | 0 => fun _ ↦ none
  | fuel + 1 => separatedStep item close (separated item close fuel)

/-- These loops in a buffer. -/
def parseSeparated (content : List UInt8) (item : Parser α) (close : UInt8) :
    Nat → Parser (List α)
  | 0 => fun _ ↦ none
  | fuel + 1 => do
    update (advance 1)
    update (skipWhitespace content)
    let a ← item
    update (skipWhitespace content)
    fun p ↦
      if AtChar content (ascii ',') p then (do
        let as ← parseSeparated content item close fuel
        pure (a :: as) : Parser (List α)) p
      else if AtChar content close p then some (some [a], p)
      else some (none, p)

/-- One member of an object in a text. -/
def memberText (value : List UInt8 → Option (CJson × List UInt8)) (s : List UInt8) :
    Option ((CStr × CJson) × List UInt8) := do
  let (name, s) ← Json.parseString s
  let s ← dropPrefix [ascii ':'] (Json.skipWhitespace s)
  let (item, s) ← value (Json.skipWhitespace s)
  some ((name, item), s)

/-- One member of an object in a buffer. -/
def parseMember (content : List UInt8) (fresh : Nat → UInt8) (value : Parser CJson) :
    Parser (CStr × CJson) := do
  let name ← parseString content fresh
  update (skipWhitespace content)
  (fun p ↦ if AtChar content (ascii ':') p then some (some (), p) else some (none, p) : Parser Unit)
  update (advance 1)
  update (skipWhitespace content)
  let item ← value
  pure (name, item)

theorem parseElements_eq_separated (value : List UInt8 → Option (CJson × List UInt8)) (fuel : Nat) :
    Json.parseElements value fuel = separated value (ascii ']') fuel := by
  induction fuel with
  | zero => rfl
  | succ fuel ih =>
    have hstep : Json.parseElements value (fuel + 1) =
        separatedStep value (ascii ']') (Json.parseElements value fuel) := rfl
    exact hstep.trans (congrArg (separatedStep value (ascii ']')) ih)

theorem parseMembers_eq_separated (value : List UInt8 → Option (CJson × List UInt8)) (fuel : Nat) :
    Json.parseMembers value fuel = separated (memberText value) (ascii '}') fuel := by
  induction fuel with
  | zero => rfl
  | succ fuel ih =>
    have hstep : Json.parseMembers value (fuel + 1) =
        separatedStep (memberText value) (ascii '}') (Json.parseMembers value fuel) := by
      funext s
      rw [Json.parseMembers, separatedStep, memberText]
      cases Json.parseString (Json.skipWhitespace s) with
      | none => rfl
      | some name =>
        simp only [Option.bind_eq_bind, Option.bind_some]
        cases dropPrefix [ascii ':'] (Json.skipWhitespace name.2) with
        | none => rfl
        | some s =>
          simp only [Option.bind_some]
          cases value (Json.skipWhitespace s) with
          | none => rfl
          | some item => rfl
    exact hstep.trans (congrArg (separatedStep (memberText value) (ascii '}')) ih)

theorem parseElements_eq_parseSeparated (content : List UInt8) (value : Parser CJson) (fuel : Nat) :
    parseElements content value fuel = parseSeparated content value (ascii ']') fuel := by
  induction fuel with
  | zero => rfl
  | succ fuel ih =>
    rw [parseElements, parseSeparated, ih]

theorem parseMembers_eq_parseSeparated (content : List UInt8) (fresh : Nat → UInt8)
    (value : Parser CJson) (fuel : Nat) : parseMembers content fresh value fuel =
      parseSeparated content (parseMember content fresh value) (ascii '}') fuel := by
  induction fuel with
  | zero => rfl
  | succ fuel ih =>
    rw [parseMembers, parseSeparated, ih]
    generalize parseSeparated content (parseMember content fresh value) (ascii '}') fuel = loop
    simp only [parseMember, bind_assoc, pure_bind]

section Behind
variable {close : UInt8} {loop : List UInt8 → Option (List α × List UInt8)} {a : α}
  {s t : List UInt8}

theorem afterItem_nil (h : Json.skipWhitespace s = []) : afterItem close loop a s = none := by
  rw [afterItem, h]

theorem afterItem_comma (h : Json.skipWhitespace s = ascii ',' :: t) :
    afterItem close loop a s = (loop t).map fun r ↦ (a :: r.1, r.2) := by
  rw [afterItem, h]
  exact if_pos rfl

theorem afterItem_close (hclose : close ≠ ascii ',') (h : Json.skipWhitespace s = close :: t) :
    afterItem close loop a s = some ([a], t) := by
  rw [afterItem, h]
  exact (if_neg hclose).trans (if_pos rfl)

theorem afterItem_other {c : UInt8} (hcomma : c ≠ ascii ',') (hclose : c ≠ close)
    (h : Json.skipWhitespace s = c :: t) : afterItem close loop a s = none := by
  rw [afterItem, h]
  exact (if_neg hcomma).trans (if_neg hclose)

end Behind

section Separated
variable {bytes : List UInt8} {item : Parser α} {itemText : List UInt8 → Option (α × List UInt8)}
  {depth : Nat} {close : UInt8}
  (hitem : ∀ p s, Rest bytes p s → p.depth = depth → Reads bytes item p s (itemText s))
  (hclose : close ≠ 0) (hne : close ≠ ascii ',')
include hitem hclose hne

/-- The loop in a buffer, from the character before an item on, stops at the closing
character. -/
theorem parseSeparated_reads {fuel f : Nat} {c : UInt8} {s : List UInt8} {p : ParseBuffer}
    (h : Rest bytes p (c :: s)) (hd : p.depth = depth) (hfuel : s.length < fuel)
    (hf : s.length < f) :
    Gives (parseSeparated (bytes ++ [0]) item close fuel) p
      (fun as p' ↦ p'.depth = depth ∧ ∃ s', Rest bytes p' (close :: s') ∧ s'.length < s.length ∧
        separated itemText close f s = some (as, s'))
      (fun _ ↦ separated itemText close f s = none) := by
  induction fuel generalizing f c s p with
  | zero => omega
  | succ fuel ih =>
    cases f with
    | zero => omega
    | succ f =>
      have hskip := h.advance_one.skipWhitespace
      have hlen := length_skipWhitespace_le s
      have hgives := hitem _ _ hskip hd
      refine Gives.after_update (Gives.after_update ?_)
      refine Gives.bind (hgives.mono (fun a p1 h1 ↦ h1) fun p1 hnone ↦ ?_) ?_
      · change separatedStep _ _ _ _ = _
        rw [separatedStep, hnone]
        rfl
      rintro a p1 ⟨hd1, s1, h1, hle1, ht1⟩
      have hskip1 := h1.skipWhitespace
      have hlen1 := length_skipWhitespace_le s1
      -- What the text gives is what it gives behind this item.
      have hbehind : separated itemText close (f + 1) s =
          afterItem close (separated itemText close f) a s1 := by
        change separatedStep _ _ _ _ = _
        rw [separatedStep, ht1]
        rfl
      refine Gives.after_update ?_
      have hd2 : (skipWhitespace (bytes ++ [0]) p1).depth = depth := hd1.trans hd
      generalize skipWhitespace (bytes ++ [0]) p1 = p2 at hskip1 hd2
      have hcomma := hskip1.atChar_iff (c := ascii ',') (by decide)
      have hstop := hskip1.atChar_iff hclose
      rw [hbehind]
      cases hs1 : Json.skipWhitespace s1 with
      | nil =>
        rw [hs1] at hcomma hstop
        refine ⟨none, p2, ?_, ?_⟩
        · dsimp only
          rw [if_neg (fun hat ↦ by cases (hcomma.mp hat).choose_spec),
            if_neg (fun hat ↦ by cases (hstop.mp hat).choose_spec)]
        · exact afterItem_nil hs1
      | cons e t =>
        rw [hs1] at hcomma hstop hskip1 hlen1
        rw [List.length_cons] at hlen1
        by_cases he : e = ascii ','
        · subst he
          rw [afterItem_comma hs1]
          have hrest := ih hskip1 hd2 (show t.length < fuel by omega) (show t.length < f by omega)
          have hloop : Gives (do
              let as ← parseSeparated (bytes ++ [0]) item close fuel
              pure (a :: as) : Parser (List α)) p2
              (fun as p' ↦ p'.depth = depth ∧ ∃ s', Rest bytes p' (close :: s') ∧
                s'.length < s.length ∧ (separated itemText close f t).map
                  (fun r ↦ (a :: r.1, r.2)) = some (as, s'))
              (fun _ ↦ (separated itemText close f t).map (fun r ↦ (a :: r.1, r.2)) = none) := by
            refine Gives.bind (hrest.mono (fun _ _ h ↦ h) fun _ hnone ↦ ?_) ?_
            · rw [hnone]
              rfl
            · rintro as p' ⟨hd', s', h', hlt', hr'⟩
              exact gives_pure ⟨hd', s', h', by omega, by rw [hr']; rfl⟩
          exact hloop.congr (if_pos (hcomma.mpr ⟨t, rfl⟩))
        · have hnot : ¬AtChar (bytes ++ [0]) (ascii ',') p2 := fun hat ↦
            he (List.cons.inj (hcomma.mp hat).choose_spec).1
          by_cases heclose : e = close
          · subst heclose
            refine ⟨some [a], p2, ?_, hd2, t, hskip1, by omega, afterItem_close hne hs1⟩
            exact (if_neg hnot).trans (if_pos (hstop.mpr ⟨t, rfl⟩))
          · refine ⟨none, p2, ?_, afterItem_other he heclose hs1⟩
            exact (if_neg hnot).trans (if_neg fun hat ↦
              heclose (List.cons.inj (hstop.mp hat).choose_spec).1)

end Separated

end Lists

theorem dropPrefix_singleton_eq_none {c : UInt8} {s : List UInt8} (h : ∀ t, s ≠ c :: t) :
    dropPrefix [c] s = none := by
  cases hs : dropPrefix [c] s with
  | none => rfl
  | some t => exact absurd (dropPrefix_eq_some hs) (h t)

section Values
variable {bytes : List UInt8} {value : Parser CJson} (fresh : Nat → UInt8)
  {valueText : List UInt8 → Option (CJson × List UInt8)} {depth : Nat}
  (hvalue : ∀ p s, Rest bytes p s → p.depth = depth → Reads bytes value p s (valueText s))
include hvalue

/-- A member of an object is read as it is read from a text. -/
theorem parseMember_reads {p : ParseBuffer} {s : List UInt8} (h : Rest bytes p s)
    (hd : p.depth = depth) : Reads bytes (parseMember (bytes ++ [0]) fresh value) p s
      (memberText valueText s) := by
  have hname := parseString_reads fresh h
  refine Gives.bind (hname.mono (fun _ _ h ↦ h) fun _ hnone ↦ ?_) ?_
  · rw [memberText, hnone]
    rfl
  rintro name p1 ⟨hd1, s1, h1, hle1, ht1⟩
  have h2 := h1.skipWhitespace
  have hlen1 := length_skipWhitespace_le s1
  have htext : memberText valueText s =
      (dropPrefix [ascii ':'] (Json.skipWhitespace s1)).bind fun s ↦
        (valueText (Json.skipWhitespace s)).bind fun r ↦ some ((name, r.1), r.2) := by
    rw [memberText, ht1]
    rfl
  rw [htext]
  refine Gives.after_update ?_
  have hd2 : (skipWhitespace (bytes ++ [0]) p1).depth = depth := hd1.trans hd
  generalize skipWhitespace (bytes ++ [0]) p1 = p2 at h2 hd2
  have hcolon := h2.atChar_iff (c := ascii ':') (by decide)
  by_cases hat : AtChar (bytes ++ [0]) (ascii ':') p2
  swap
  · have hdrop := dropPrefix_singleton_eq_none fun t ht ↦ hat (hcolon.mpr ⟨t, ht⟩)
    refine ⟨none, p2, ?_, ?_⟩
    · exact bind_of_fail (if_neg hat)
    · rw [hdrop]
      rfl
  obtain ⟨t, ht⟩ := hcolon.mp hat
  have h3 : Rest bytes (p2.advance 1) t := (ht ▸ h2).advance_one
  have hlent := length_skipWhitespace_le t
  rw [ht, List.length_cons] at hlen1
  rw [ht, show ascii ':' :: t = [ascii ':'] ++ t from rfl, dropPrefix_append, Option.bind_some]
  have hitem := hvalue _ _ h3.skipWhitespace hd2
  refine Gives.bind (Q := fun _ p' ↦ p' = p2) ⟨some (), p2, if_pos hat, rfl⟩ ?_
  rintro _ _ rfl
  refine Gives.after_update (Gives.after_update ?_)
  refine Gives.bind (hitem.mono (fun _ _ h ↦ h) fun _ hnone ↦ ?_) ?_
  · rw [hnone]
    rfl
  rintro item p4 ⟨hd4, s4, h4, hle4, ht4⟩
  exact gives_pure ⟨hd4.trans (hd2.trans hd.symm), s4, h4, by omega, by rw [ht4]; rfl⟩

/-- What stands after the opening character of an array or object in a text. -/
def enclosedText {α : Type} (close : UInt8) (item : List UInt8 → Option (α × List UInt8))
    (build : List α → CJson) (s : List UInt8) : Option (CJson × List UInt8) :=
  match dropPrefix [close] (Json.skipWhitespace s) with
  | some rest => some (build [], rest)
  | none => (separated item close (s.length + 1) s).map fun (as, rest) ↦ (build as, rest)

/-- `parse_array` and `parse_object` in a buffer after the tests at their beginning. -/
def parseEnclosed {α : Type} (content : List UInt8) (close : UInt8) (item : Parser α)
    (build : List α → CJson) : Parser CJson := fun p ↦
  let p := skipWhitespace content (p.advance 1)
  if AtChar content close p then
    some (some (build []), { p with offset := p.offset + 1, depth := p.depth - 1 })
  else if content.length ≤ p.offset then some (none, p.retreat)
  else (do
    let as ← parseSeparated content item close content.length
    update fun p ↦ { p with offset := p.offset + 1, depth := p.depth - 1 }
    pure (build as) : Parser CJson) p.retreat

end Values

section Enclosed
variable {α : Type} {bytes : List UInt8} {item : Parser α}
  {itemText : List UInt8 → Option (α × List UInt8)} {depth : Nat} {close : UInt8}

/-- White space before the first item is skipped twice. -/
theorem separated_skipWhitespace (f : Nat) (s : List UInt8) :
    separated itemText close f (Json.skipWhitespace s) = separated itemText close f s := by
  cases f with
  | zero => rfl
  | succ f =>
    change separatedStep _ _ _ _ = separatedStep _ _ _ _
    have hskip : Json.skipWhitespace (Json.skipWhitespace s) = Json.skipWhitespace s :=
      List.dropWhile_idempotent _ _
    rw [separatedStep, separatedStep, hskip]

theorem parseEnclosed_reads
    (hitem : ∀ p s, Rest bytes p s → p.depth = depth + 1 → Reads bytes item p s (itemText s))
    (hclose : close ≠ 0) (hne : close ≠ ascii ',') (build : List α → CJson) {p : ParseBuffer}
    {c : UInt8} {t : List UInt8} (h : Rest bytes p (c :: t)) (hd : p.depth = depth + 1) :
    Gives (parseEnclosed (bytes ++ [0]) close item build) p
      (fun a p' ↦ p'.depth = depth ∧ ∃ s', Rest bytes p' s' ∧ s'.length ≤ (c :: t).length ∧
        enclosedText close itemText build t = some (a, s'))
      (fun _ ↦ enclosedText close itemText build t = none) := by
  have h1 := h.advance_one.skipWhitespace
  have hd1 : (skipWhitespace (bytes ++ [0]) (p.advance 1)).depth = depth + 1 := hd
  have hlen := h.length
  have hlen1 := h1.length
  have hle := length_skipWhitespace_le t
  rw [List.length_cons] at hlen
  generalize hp1 : skipWhitespace (bytes ++ [0]) (p.advance 1) = p1 at h1 hd1 hlen1
  have hat := h1.atChar_iff hclose
  by_cases hstop : AtChar (bytes ++ [0]) close p1
  · obtain ⟨rest, hrest⟩ := hat.mp hstop
    rw [hrest] at h1 hle
    rw [List.length_cons] at hle
    refine ⟨some (build []), { p1 with offset := p1.offset + 1, depth := p1.depth - 1 }, ?_, ?_⟩
    · rw [parseEnclosed, hp1]
      exact if_pos hstop
    · refine ⟨by rw [hd1]; rfl, rest, h1.advance_one, ?_, ?_⟩
      · rw [List.length_cons]
        omega
      · rw [enclosedText, hrest, show close :: rest = [close] ++ rest from rfl,
          dropPrefix_append]
  · have hdrop := dropPrefix_singleton_eq_none fun t ht ↦ hstop (hat.mpr ⟨t, ht⟩)
    obtain ⟨x, h2⟩ := h1.retreat (by omega)
    have hloop := parseSeparated_reads hitem hclose hne h2 hd1
      (show (Json.skipWhitespace t).length < (bytes ++ [0]).length by
        rw [List.length_append]
        omega)
      (show (Json.skipWhitespace t).length < t.length + 1 by omega)
    rw [separated_skipWhitespace] at hloop
    have htext : enclosedText close itemText build t =
        (separated itemText close (t.length + 1) t).map fun r ↦ (build r.1, r.2) := by
      rw [enclosedText, hdrop]
    rw [htext]
    have hcall : parseEnclosed (bytes ++ [0]) close item build p = (do
        let as ← parseSeparated (bytes ++ [0]) item close (bytes ++ [0]).length
        update fun p ↦ { p with offset := p.offset + 1, depth := p.depth - 1 }
        pure (build as) : Parser CJson) p1.retreat := by
      rw [parseEnclosed, hp1]
      exact (if_neg hstop).trans (if_neg (by rw [List.length_append, List.length_singleton]; omega))
    rw [Gives, hcall]
    refine Gives.bind (hloop.mono (fun _ _ h ↦ h) fun _ hnone ↦ by rw [hnone]; rfl) ?_
    rintro as p' ⟨hd', s', h', hlt', hr'⟩
    refine Gives.after_update (gives_pure ⟨by rw [hd']; rfl, s', h'.advance_one, ?_, ?_⟩)
    · rw [List.length_cons]
      omega
    · rw [hr']
      rfl

end Enclosed

section Calls
variable {content : List UInt8} {value : Parser CJson} {fresh : Nat → UInt8}
  {valueText : List UInt8 → Option (CJson × List UInt8)} {p : ParseBuffer}

theorem parseArray_eq (hd : p.depth < nestingLimit) (hc : content[p.offset]? = some (ascii '[')) :
    parseArray content value p =
      parseEnclosed content (ascii ']') value .array { p with depth := p.depth + 1 } := by
  rw [parseArray, if_neg (Nat.not_le_of_lt hd), parseElements_eq_parseSeparated]
  simp only [hc, Option.bind_eq_bind, Option.bind_some, ne_eq, not_true_eq_false, if_false]
  exact rfl

theorem parseObject_eq (hd : p.depth < nestingLimit) (hc : content[p.offset]? = some (ascii '{')) :
    parseObject content fresh value p = parseEnclosed content (ascii '}')
      (parseMember content fresh value) .object { p with depth := p.depth + 1 } := by
  rw [parseObject, if_neg (Nat.not_le_of_lt hd), parseMembers_eq_parseSeparated]
  exact if_neg (not_not_intro hc)

theorem parseArray_eq_enclosedText (s : List UInt8) :
    Json.parseArray valueText s = enclosedText (ascii ']') valueText .array s := by
  have hloop := congrFun (parseElements_eq_separated valueText (s.length + 1)) s
  unfold Json.parseArray enclosedText
  cases dropPrefix [ascii ']'] (Json.skipWhitespace s) with
  | none => exact congrArg (Option.map _) hloop
  | some rest => rfl

theorem parseObject_eq_enclosedText (s : List UInt8) : Json.parseObject valueText s =
    enclosedText (ascii '}') (memberText valueText) .object s := by
  have hloop := congrFun (parseMembers_eq_separated valueText (s.length + 1)) s
  unfold Json.parseObject enclosedText
  cases dropPrefix [ascii '}'] (Json.skipWhitespace s) with
  | none => exact congrArg (Option.map _) hloop
  | some rest => rfl

end Calls

section Words
variable {bytes s t w : List UInt8} {p : ParseBuffer}

/-- A word is at the offset and in the text, or in neither. -/
theorem Rest.word (h : Rest bytes p s) (hw : 0 ∉ w) :
    (AtWord (bytes ++ [0]) w p ∧ ∃ t, s = w ++ t ∧ Rest bytes (p.advance w.length) t) ∨
      (¬AtWord (bytes ++ [0]) w p ∧ dropPrefix w s = none) := by
  by_cases hat : AtWord (bytes ++ [0]) w p
  · obtain ⟨t, rfl⟩ := (h.atWord_iff hw).mp hat
    exact .inl ⟨hat, t, rfl, h.advance⟩
  · refine .inr ⟨hat, ?_⟩
    cases hs : dropPrefix w s with
    | none => rfl
    | some t => exact absurd ((h.atWord_iff hw).mpr ⟨t, dropPrefix_eq_some hs⟩) hat

theorem parseValue_eq_parseScalar (limit : Nat) (harray : ∀ t, s ≠ ascii '[' :: t)
    (hobject : ∀ t, s ≠ ascii '{' :: t) : Json.parseValue limit s = parseScalar s := by
  cases limit with
  | zero => rw [Json.parseValue]
  | succ limit =>
    cases s with
    | nil => rfl
    | cons c s =>
      rw [Json.parseValue, if_neg fun hc ↦ harray s (by rw [hc]),
        if_neg fun hc ↦ hobject s (by rw [hc])]

theorem parseScalar_cons {c : UInt8} (hnull : dropPrefix (text "null") (c :: t) = none)
    (hfalse : dropPrefix (text "false") (c :: t) = none)
    (htrue : dropPrefix (text "true") (c :: t) = none) :
    parseScalar (c :: t) =
      if c = ascii '"' then (Json.parseString (c :: t)).map fun r ↦ (.string r.1, r.2)
      else if c = ascii '-' ∨ (48 ≤ c ∧ c ≤ 57) then Json.parseNumber (c :: t)
      else none := by
  unfold parseScalar
  rw [hnull, hfalse, htrue]

end Words

section Value
variable {bytes : List UInt8} (fresh : Nat → UInt8) {p : ParseBuffer}

theorem parseValue_scalar_reads (levels : Nat) {s : List UInt8} (h : Rest bytes p s)
    (harray : ∀ t, s ≠ ascii '[' :: t) (hobject : ∀ t, s ≠ ascii '{' :: t) :
    Reads bytes (parseValue (bytes ++ [0]) fresh (levels + 1)) p s (parseScalar s) := by
  obtain ⟨hat, t, rfl, hrest⟩ | ⟨hnull, hdnull⟩ := h.word (w := text "null") (by decide)
  · refine Reads.of_value (a := .null) (if_pos hat) rfl hrest (by rw [List.length_append]; omega) ?_
    rw [parseScalar.eq_def, dropPrefix_append]
  obtain ⟨hat, t, rfl, hrest⟩ | ⟨hfalse, hdfalse⟩ := h.word (w := text "false") (by decide)
  · refine Reads.of_value (a := .bool false) ((if_neg hnull).trans (if_pos hat)) rfl hrest
      (by rw [List.length_append]; omega) ?_
    rw [parseScalar.eq_def, hdnull, dropPrefix_append]
  obtain ⟨hat, t, rfl, hrest⟩ | ⟨htrue, hdtrue⟩ := h.word (w := text "true") (by decide)
  · refine Reads.of_value (a := .bool true)
      ((if_neg hnull).trans ((if_neg hfalse).trans (if_pos hat))) rfl hrest
      (by rw [List.length_append]; omega) ?_
    rw [parseScalar.eq_def, hdnull, hdfalse, dropPrefix_append]
  have hfirst := h.get_zero
  have hquote := h.atChar_iff (c := ascii '"') (by decide)
  have hcall : parseValue (bytes ++ [0]) fresh (levels + 1) p = _ :=
    (if_neg hnull).trans ((if_neg hfalse).trans (if_neg htrue))
  cases s with
  | nil =>
    refine Reads.of_fail p (hcall.trans ((if_neg fun hat ↦ ?_).trans ?_)) rfl
    · cases (hquote.mp hat).choose_spec
    · rw [hfirst]
      rfl
  | cons c t =>
    have hc : (bytes ++ [0])[p.offset]? = some c := hfirst
    rw [parseScalar_cons hdnull hdfalse hdtrue]
    by_cases hq : c = ascii '"'
    · rw [if_pos hq]
      have hstring : Reads bytes (do
          let string ← parseString (bytes ++ [0]) fresh
          pure (.string string) : Parser CJson) p (c :: t)
          ((Json.parseString (c :: t)).map fun r ↦ (.string r.1, r.2)) := by
        refine Gives.bind ((parseString_reads fresh h).mono (fun _ _ h ↦ h)
          fun _ hnone ↦ by rw [hnone]; rfl) ?_
        rintro string p' ⟨hd', s', h', hle', hr'⟩
        exact gives_pure ⟨hd', s', h', hle', by rw [hr']; rfl⟩
      exact hstring.congr (hcall.trans (if_pos (hquote.mpr ⟨t, by rw [hq]⟩)))
    · rw [if_neg hq]
      have hnext := hcall.trans (if_neg fun hat ↦ hq (List.cons.inj (hquote.mp hat).choose_spec).1)
      rw [hc] at hnext
      by_cases hnumber : c = ascii '-' ∨ (48 ≤ c ∧ c ≤ 57)
      · rw [if_pos hnumber]
        exact (parseNumber_reads h).congr (hnext.trans (if_pos hnumber))
      · rw [if_neg hnumber]
        refine Reads.of_fail p (hnext.trans ((if_neg hnumber).trans ((if_neg fun hb ↦ ?_).trans
          (if_neg fun hb ↦ ?_)))) rfl
        · exact harray t (by rw [hb])
        · exact hobject t (by rw [hb])

theorem parseValue_bracket (levels : Nat) {c : UInt8} {t : List UInt8}
    (h : Rest bytes p (c :: t)) (hc : c = ascii '[' ∨ c = ascii '{') :
    parseValue (bytes ++ [0]) fresh (levels + 1) p =
      if c = ascii '[' then
        parseArray (bytes ++ [0]) (parseValue (bytes ++ [0]) fresh levels) p
      else parseObject (bytes ++ [0]) fresh (parseValue (bytes ++ [0]) fresh levels) p := by
  have hfirst : (bytes ++ [0])[p.offset]? = some c := h.get_zero
  have hword : ∀ {d : UInt8} {w : List UInt8}, 0 ∉ d :: w → d ≠ c →
      ¬AtWord (bytes ++ [0]) (d :: w) p := by
    intro d w hw hne hat
    obtain ⟨u, hu⟩ := (h.atWord_iff hw).mp hat
    exact hne (List.cons.inj hu).1.symm
  have hnull : ¬AtWord (bytes ++ [0]) (text "null") p :=
    hword (d := ascii 'n') (w := text "ull") (by decide) (by rcases hc with rfl | rfl <;> decide)
  have hfalse : ¬AtWord (bytes ++ [0]) (text "false") p :=
    hword (d := ascii 'f') (w := text "alse") (by decide) (by rcases hc with rfl | rfl <;> decide)
  have htrue : ¬AtWord (bytes ++ [0]) (text "true") p :=
    hword (d := ascii 't') (w := text "rue") (by decide) (by rcases hc with rfl | rfl <;> decide)
  have hquote : ¬AtChar (bytes ++ [0]) (ascii '"') p := by
    rw [AtChar, hfirst]
    rcases hc with rfl | rfl <;> decide
  have hnumber : ¬(c = ascii '-' ∨ (48 ≤ c ∧ c ≤ 57)) := by
    rcases hc with rfl | rfl <;> decide
  refine (if_neg hnull).trans ((if_neg hfalse).trans ((if_neg htrue).trans
    ((if_neg hquote).trans ?_)))
  rw [hfirst]
  refine (if_neg hnumber).trans ?_
  rcases hc with rfl | rfl
  · exact (if_pos rfl).trans (if_pos rfl).symm
  · exact (if_neg (by decide)).trans ((if_pos rfl).trans (if_neg (by decide)).symm)

/-- One level more of arrays and objects. -/
theorem parseValue_bracket_reads {limit : Nat}
    (hvalue : ∀ p s, Rest bytes p s → p.depth + limit = nestingLimit →
      Reads bytes (parseValue (bytes ++ [0]) fresh (limit + 1)) p s (Json.parseValue limit s))
    {c : UInt8} {t : List UInt8} (hc : c = ascii '[' ∨ c = ascii '{') (h : Rest bytes p (c :: t))
    (hd : p.depth + (limit + 1) = nestingLimit) :
    Reads bytes (parseValue (bytes ++ [0]) fresh (limit + 1 + 1)) p (c :: t)
      (Json.parseValue (limit + 1) (c :: t)) := by
  have hcall := parseValue_bracket fresh (limit + 1) h hc
  have hfirst : (bytes ++ [0])[p.offset]? = some c := h.get_zero
  have hroom : p.depth < nestingLimit := by omega
  have hitem : ∀ p' s, Rest bytes p' s → p'.depth = p.depth + 1 →
      Reads bytes (parseValue (bytes ++ [0]) fresh (limit + 1)) p' s (Json.parseValue limit s) :=
    fun p' s h' hd' ↦ hvalue p' s h' (by omega)
  rcases hc with rfl | rfl
  · have hread := parseEnclosed_reads hitem (show ascii ']' ≠ 0 by decide) (by decide) .array
      (p := { p with depth := p.depth + 1 }) h rfl
    rw [Json.parseValue, if_pos rfl, parseArray_eq_enclosedText]
    rw [if_pos rfl, parseArray_eq hroom hfirst] at hcall
    rwa [Reads, Gives, hcall]
  · have hread := parseEnclosed_reads (fun p' s h' hd' ↦ parseMember_reads fresh hitem h' hd')
      (show ascii '}' ≠ 0 by decide) (by decide) .object
      (p := { p with depth := p.depth + 1 }) h rfl
    rw [Json.parseValue, if_neg (by decide), if_pos rfl, parseObject_eq_enclosedText]
    rw [if_neg (by decide), parseObject_eq hroom hfirst] at hcall
    rwa [Reads, Gives, hcall]

/-- `parse_value` reads a value as it is read from a text with the nesting that is left. -/
theorem parseValue_reads (limit : Nat) {s : List UInt8} (h : Rest bytes p s)
    (hd : p.depth + limit = nestingLimit) :
    Reads bytes (parseValue (bytes ++ [0]) fresh (limit + 1)) p s (Json.parseValue limit s) := by
  induction limit generalizing p s with
  | zero =>
    by_cases hs : ∃ c t, (c = ascii '[' ∨ c = ascii '{') ∧ s = c :: t
    · -- No nesting is left.
      obtain ⟨c, t, hc, rfl⟩ := hs
      have hdeep : nestingLimit ≤ p.depth := by omega
      refine Reads.of_fail p ((parseValue_bracket fresh 0 h hc).trans ?_) (parseScalar_bracket hc t)
      split
      · exact if_pos hdeep
      · exact if_pos hdeep
    · exact parseValue_scalar_reads fresh 0 h (fun t ht ↦ hs ⟨_, t, .inl rfl, ht⟩)
        (fun t ht ↦ hs ⟨_, t, .inr rfl, ht⟩)
  | succ limit ih =>
    by_cases hs : ∃ c t, (c = ascii '[' ∨ c = ascii '{') ∧ s = c :: t
    · obtain ⟨c, t, hc, rfl⟩ := hs
      exact parseValue_bracket_reads fresh (fun p s h hd ↦ ih h hd) hc h hd
    · have harray : ∀ t, s ≠ ascii '[' :: t := fun t ht ↦ hs ⟨_, t, .inl rfl, ht⟩
      have hobject : ∀ t, s ≠ ascii '{' :: t := fun t ht ↦ hs ⟨_, t, .inr rfl, ht⟩
      rw [parseValue_eq_parseScalar (limit + 1) harray hobject]
      exact parseValue_scalar_reads fresh (limit + 1) h harray hobject

end Value

section Memory
variable (content : List UInt8) (fresh fresh' : Nat → UInt8)

theorem parseString_fresh : parseString content fresh = parseString content fresh' := by
  funext p
  cases hc : content[p.offset]? with
  | none =>
    rw [parseString, parseString, hc]
    exact rfl
  | some c =>
    by_cases hq : c = ascii '"'
    · subst hq
      have hpos := (List.getElem?_eq_some_iff.mp hc).1
      cases hs : closingQuote (content.drop (p.offset + 1)) with
      | none =>
        have hfind : findEnd content content.length (p.offset + 1) 0 = some none :=
          findEnd_eq_none rfl (by rw [List.length_drop]; omega) 0 hs
        have hcall : ∀ fresh, parseString content fresh p = some (none, p.advance 1) := by
          intro fresh
          rw [parseString, hc]
          simp only [Option.bind_eq_bind, Option.bind_some, ne_eq, not_true_eq_false, if_false,
            hfind]
          exact rfl
        exact (hcall fresh).trans (hcall fresh').symm
      | some r =>
        obtain ⟨r, hread, -⟩ := parseString_of_text hc hs
        exact (hread fresh).trans (hread fresh').symm
    · have hcall : ∀ fresh, parseString content fresh p = some (none, p.advance 1) := by
        intro fresh
        rw [parseString, hc, Option.bind_eq_bind, Option.bind_some]
        exact if_pos hq
      exact (hcall fresh).trans (hcall fresh').symm

theorem parseMembers_fresh (value : Parser CJson) (fuel : Nat) :
    parseMembers content fresh value fuel = parseMembers content fresh' value fuel := by
  induction fuel with
  | zero => rfl
  | succ fuel ih => rw [parseMembers, parseMembers, parseString_fresh content fresh fresh', ih]

/-- What is parsed does not depend on what the allocator left in its memory. -/
theorem parseValue_fresh (levels : Nat) :
    parseValue content fresh levels = parseValue content fresh' levels := by
  induction levels with
  | zero => rfl
  | succ levels ih =>
    funext p
    simp only [parseValue, parseObject, parseString_fresh content fresh fresh',
      parseMembers_fresh content fresh fresh', ih]

theorem parseWithOpts_fresh (value : CStr) (requireNullTerminated : Bool) :
    parseWithOpts fresh value requireNullTerminated =
      parseWithOpts fresh' value requireNullTerminated := by
  rw [parseWithOpts, parseWithOpts, parseValue_fresh _ fresh fresh']

end Memory

section Calls
variable {bytes s : List UInt8} {p : ParseBuffer}

theorem rest_skipUtf8Bom (bytes : List UInt8) :
    Rest bytes (skipUtf8Bom (bytes ++ [0]) ⟨0, 0⟩) (Json.skipUtf8Bom bytes) ∧
      (skipUtf8Bom (bytes ++ [0]) ⟨0, 0⟩).depth = 0 := by
  have hstart : Rest bytes ⟨0, 0⟩ bytes := ⟨[], rfl, rfl⟩
  by_cases h : 4 ≤ bytes.length ∧ bytes.take 3 = [0xEF, 0xBB, 0xBF]
  · have hat : 0 + 4 < (bytes ++ [0]).length ∧
        ((bytes ++ [0]).drop 0).take 3 = [0xEF, 0xBB, 0xBF] := by
      refine ⟨by rw [List.length_append, List.length_singleton]; omega, ?_⟩
      rw [List.drop_zero, List.take_append_of_le_length (by omega)]
      exact h.2
    have hcall : skipUtf8Bom (bytes ++ [0]) ⟨0, 0⟩ = advance 3 ⟨0, 0⟩ := if_pos hat
    have hrest : Rest bytes (advance (bytes.take 3).length ⟨0, 0⟩) (bytes.drop 3) :=
      Rest.advance (by rwa [List.take_append_drop])
    rw [List.length_take, Nat.min_eq_left (by omega)] at hrest
    rw [hcall, Json.skipUtf8Bom, if_pos h]
    exact ⟨hrest, rfl⟩
  · have hat : ¬(0 + 4 < (bytes ++ [0]).length ∧
        ((bytes ++ [0]).drop 0).take 3 = [0xEF, 0xBB, 0xBF]) := by
      rintro ⟨hlen, hbom⟩
      rw [List.length_append, List.length_singleton] at hlen
      rw [List.drop_zero, List.take_append_of_le_length (by omega)] at hbom
      exact h ⟨by omega, hbom⟩
    have hcall : skipUtf8Bom (bytes ++ [0]) ⟨0, 0⟩ = ⟨0, 0⟩ := if_neg hat
    rw [hcall, Json.skipUtf8Bom, if_neg h]
    exact ⟨hstart, rfl⟩

/-- The NUL is where the text ends. -/
theorem Rest.atNul_iff (h : Rest bytes p s) (hbytes : 0 ∉ bytes) :
    AtChar (bytes ++ [0]) 0 p ↔ s = [] := by
  have hget := h.get_zero
  obtain ⟨front, rfl, -⟩ := h
  rw [AtChar, hget]
  cases s with
  | nil => exact ⟨fun _ ↦ rfl, fun _ ↦ rfl⟩
  | cons c t =>
    refine ⟨fun hc ↦ absurd ?_ hbytes, fun hnil ↦ by cases hnil⟩
    have hzero : c = 0 := Option.some.inj hc
    rw [hzero]
    simp

/-- The position of an error is in the string or at its NUL. -/
theorem errorPosition_le (value : CStr) (p : ParseBuffer) :
    (if p.offset < (value.bytes ++ [0]).length then p.offset
      else (value.bytes ++ [0]).length - 1) ≤ value.length := by
  rw [List.length_append, List.length_singleton, CStr.length]
  split <;> omega

end Calls

section Options
variable (value : CStr) (requireNullTerminated : Bool)

/-- `parse_value` from the beginning of a string on. -/
theorem parseValue_start (fresh : Nat → UInt8) :
    Reads value.bytes (parseValue (value.bytes ++ [0]) fresh (nestingLimit + 1))
      (skipWhitespace (value.bytes ++ [0]) (skipUtf8Bom (value.bytes ++ [0]) ⟨0, 0⟩))
      (Json.skipWhitespace (Json.skipUtf8Bom value.bytes))
      (Json.parseValue nestingLimit (Json.skipWhitespace (Json.skipUtf8Bom value.bytes))) := by
  obtain ⟨hbom, hd⟩ := rest_skipUtf8Bom value.bytes
  refine parseValue_reads fresh nestingLimit hbom.skipWhitespace ?_
  rw [show (skipWhitespace _ _).depth = 0 from hd, Nat.zero_add]

/-- The call ends with what is read from the text, and where it ends is in the string or at its
NUL. -/
theorem parseWithOpts_ends (fresh : Nat → UInt8) :
    ∃ end_, parseWithOpts fresh value requireNullTerminated =
        some (Json.parseWithOpts value requireNullTerminated, end_) ∧ end_ ≤ value.length ∧
      ((Json.parseWithOpts value requireNullTerminated).isSome → requireNullTerminated = true →
        end_ = value.length) := by
  obtain ⟨r, p, hcall, hr⟩ := parseValue_start value fresh
  cases r with
  | none =>
    have htext : Json.parseWithOpts value requireNullTerminated = none := by
      rw [Json.parseWithOpts, show Json.parseValue _ _ = none from hr]
      rfl
    rw [htext]
    refine ⟨_, ?_, errorPosition_le value p, by rintro ⟨⟩⟩
    rw [parseWithOpts]
    simp only [hcall, Option.bind_eq_bind, Option.bind_some]
  | some item =>
    obtain ⟨-, s, h, -, ht⟩ := hr
    have htext : Json.parseWithOpts value requireNullTerminated =
        if requireNullTerminated ∧ Json.skipWhitespace s ≠ [] then none else some item := by
      rw [Json.parseWithOpts, ht]
      rfl
    rw [htext]
    cases requireNullTerminated with
    | false =>
      rw [if_neg fun hand ↦ Bool.false_ne_true hand.1]
      refine ⟨p.offset, ?_, ?_, by rintro - ⟨⟩⟩
      · rw [parseWithOpts]
        simp only [hcall, Option.bind_eq_bind, Option.bind_some, Bool.false_eq_true, if_false]
      · have := h.length
        rw [CStr.length]
        omega
    | true =>
      have hskip := h.skipWhitespace
      have hlen := hskip.length
      by_cases hnil : Json.skipWhitespace s = []
      · have hat := (hskip.atNul_iff value.noNul).mpr hnil
        rw [hnil, List.length_nil, Nat.add_zero] at hlen
        rw [if_neg fun hand ↦ hand.2 hnil]
        refine ⟨_, ?_, hlen.le, fun _ _ ↦ hlen⟩
        rw [parseWithOpts]
        simp only [hcall, Option.bind_eq_bind, Option.bind_some, if_true, hat]
      · have hat : ¬AtChar (value.bytes ++ [0]) 0 (skipWhitespace (value.bytes ++ [0]) p) :=
          fun hat ↦ hnil ((hskip.atNul_iff value.noNul).mp hat)
        rw [if_pos ⟨rfl, hnil⟩]
        refine ⟨_, ?_, errorPosition_le value (skipWhitespace (value.bytes ++ [0]) p),
          by rintro ⟨⟩⟩
        rw [parseWithOpts]
        simp only [hcall, Option.bind_eq_bind, Option.bind_some, if_true, hat, if_false]

end Options

/-- `cJSON_ParseWithOpts` reads and writes inside its memory and ends, on every string, and what
it returns does not depend on what the allocator left in that memory: it is what is read from
the text. The reported end is in the string or at its NUL; it is the NUL if the call succeeds
and asks for it. -/
theorem parseWithOpts_reads (value : CStr) (requireNullTerminated : Bool) :
    ∃ end_, (∀ fresh, parseWithOpts fresh value requireNullTerminated =
        some (Json.parseWithOpts value requireNullTerminated, end_)) ∧ end_ ≤ value.length ∧
      ((Json.parseWithOpts value requireNullTerminated).isSome → requireNullTerminated = true →
        end_ = value.length) := by
  obtain ⟨end_, hcall, hle, hend⟩ := parseWithOpts_ends value requireNullTerminated fun _ ↦ 0
  refine ⟨end_, fun fresh ↦ ?_, hle, hend⟩
  rw [parseWithOpts_fresh fresh fun _ ↦ 0]
  exact hcall

end ParseBuffer

end LedaSdk.Json
