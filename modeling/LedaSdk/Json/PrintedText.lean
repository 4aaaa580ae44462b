import LedaSdk.Json.PrintBuffer

/-!
# What printing leaves in the buffer

A function of the printer appends a text to what the buffer begins with, or it ran out of
room. Where the allocator refuses nothing, it runs out exactly if the text with two more
bytes is longer than the buffer may become.
-/

namespace LedaSdk.Json
open LedaSdk.Base

mutual

/-- The text of a value at a depth. -/
def CJson.renderAt (format : Bool) : Nat → CJson → List UInt8
  | _, .null => text "null"
  | _, .bool b => if b then text "true" else text "false"
  | _, .number d => numberText d
  | _, .string s => quoted s
  | depth, .array xs => ascii '[' :: renderElementsAt format (depth + 1) xs ++ [ascii ']']
  | depth, .object ms => PrintBuffer.openBrace format ++ renderMembersAt format (depth + 1) ms ++
      PrintBuffer.closeBrace format depth

/-- The text of the elements of an array. -/
def renderElementsAt (format : Bool) : Nat → List CJson → List UInt8
  | _, [] => []
  | depth, x :: xs => x.renderAt format depth ++
      if xs = [] then [] else PrintBuffer.comma format ++ renderElementsAt format depth xs

/-- The text of the members of an object. -/
def renderMembersAt (format : Bool) : Nat → Members → List UInt8
  | _, [] => []
  | depth, (name, item) :: ms => (if format then PrintBuffer.tabs depth else []) ++ quoted name ++
      PrintBuffer.colon format ++ item.renderAt format depth ++
      PrintBuffer.ending format ms.isEmpty ++ renderMembersAt format depth ms

end

namespace PrintBuffer

/-- The buffer begins with `w` and may grow to `limit`. -/
structure Begins (S : PrintSettings) (limit : Nat) (w : List UInt8) (p : PrintBuffer) : Prop where
  written : ∃ b, p.buffer = some b ∧ b.length = p.length ∧ w <+: b
  length_le : p.length ≤ limit
  limit_le : limit ≤ intMax.toNat
  fixed : S.noalloc = true → p.length = limit
  grows : S.noalloc = false → limit = intMax.toNat
  /-- Without `reallocate`, growing reads a byte of the old buffer. -/
  copies : S.noalloc = false → S.hooks.reallocate = false → 0 < p.length

/-- The next byte is written behind `w`. -/
structure Ready (S : PrintSettings) (limit depth : Nat) (w : List UInt8) (p : PrintBuffer) : Prop
    extends Begins S limit w p where
  offset : p.offset = w.length
  inside : p.length = 0 ∨ w.length < p.length
  depth : p.depth = depth

/-- Behind `w` there is the string `t`, which the offset may have moved on in. -/
structure Holds (S : PrintSettings) (limit depth : Nat) (w t : List UInt8) (p : PrintBuffer) : Prop
    extends Begins S limit (w ++ (t ++ [0])) p where
  room : w.length + t.length + 2 ≤ p.length
  offset_ge : w.length ≤ p.offset
  offset_le : p.offset ≤ w.length + t.length
  depth : p.depth = depth

/-- A buffer of `n` bytes is not to be had. -/
def Refused (S : PrintSettings) (limit n : Nat) : Prop :=
  limit < n ∨ S.noalloc = false ∧ ∃ size, S.hooks.growth size = none

theorem Refused.mono {S : PrintSettings} {limit n m : Nat} (h : Refused S limit n) (hle : n ≤ m) :
    Refused S limit m :=
  h.imp_left fun hlt ↦ hlt.trans_le hle

theorem Begins.moved {S : PrintSettings} {limit : Nat} {w : List UInt8} {p p' : PrintBuffer}
    (h : Begins S limit w p) (hbuffer : p'.buffer = p.buffer) (hlength : p'.length = p.length) :
    Begins S limit w p' := by
  cases p
  cases p'
  cases hbuffer
  cases hlength
  exact ⟨h.written, h.length_le, h.limit_le, h.fixed, h.grows, h.copies⟩

theorem Begins.weaken {S : PrintSettings} {limit : Nat} {w t : List UInt8} {p : PrintBuffer}
    (h : Begins S limit (w ++ t) p) : Begins S limit w p := by
  obtain ⟨b, hb, hlen, hw⟩ := h.written
  exact ⟨⟨b, hb, hlen, (List.prefix_append w t).trans hw⟩, h.length_le, h.limit_le, h.fixed,
    h.grows, h.copies⟩

section Writes
variable {S : PrintSettings} {limit depth n m : Nat} {w t : List UInt8} {p : PrintBuffer}

/-- Bytes are written behind what the buffer begins with. -/
theorem Begins.store (h : Begins S limit w p) (hfit : w.length + t.length ≤ p.length) :
    ∃ p', p.store w.length t = some p' ∧ Begins S limit (w ++ t) p' ∧ p'.length = p.length ∧
      p'.offset = p.offset ∧ p'.depth = p.depth := by
  obtain ⟨b, hb, hlen, hw⟩ := h.written
  obtain ⟨b', hcopy, hlen', hw'⟩ := Block.memcpy_append hw (t := t) (by omega)
  refine ⟨{ p with buffer := some b' }, ?_, ?_, rfl, rfl, rfl⟩
  · rw [PrintBuffer.store, hb, Option.bind_some, hcopy]
    rfl
  · exact ⟨⟨b', rfl, hlen'.trans hlen, hw'⟩, h.length_le, h.limit_le, h.fixed, h.grows, h.copies⟩

/-- The new size is enough, and no larger than `INT_MAX`. -/
theorem newSize_eq_some {needed size : Nat} (h : newSize needed = some size) :
    needed ≤ size ∧ size ≤ intMax.toNat := by
  have hmax : intMax.toNat = 2147483647 := rfl
  rw [newSize] at h
  split at h
  · split at h
    · cases h
      exact ⟨‹_›, le_rfl⟩
    · cases h
  · cases h
    omega

theorem newSize_eq_none {needed : Nat} (h : newSize needed = none) : intMax.toNat < needed := by
  rw [newSize] at h
  split at h
  · split at h
    · cases h
    · omega
  · cases h

/-- Growing the buffer. -/
theorem gives_reallocate (h : Ready S limit depth w p) {b : List UInt8} (hb : p.buffer = some b)
    (hlen : b.length = p.length) (hgrow : S.noalloc = false) {size : Nat}
    (hlt : w.length + n + 1 ≤ size) (hle : size ≤ intMax.toNat) :
    (reallocate S b size).Gives p
      (fun _ p' ↦ Ready S limit depth w p' ∧ w.length + n + 1 ≤ p'.length)
      (fun _ ↦ Refused S limit m) := by
  have hw : w <+: b := by
    obtain ⟨b', hb', -, hw⟩ := h.written
    rwa [Option.some.inj (hb.symm.trans hb')]
  have hready : ∀ b', b'.length = size → w <+: b' →
      Ready S limit depth w { p with buffer := some b', length := size } := by
    intro b' hlen' hw'
    refine ⟨⟨⟨b', rfl, hlen', hw'⟩, ?_, h.limit_le, ?_, h.grows, ?_⟩, h.offset, .inr ?_, h.depth⟩
    · exact hle.trans (h.grows hgrow).ge
    · exact fun hno ↦ absurd (hgrow.symm.trans hno) Bool.false_ne_true
    · exact fun _ _ ↦ show 0 < size by omega
    · exact show w.length < size by omega
  cases hmem : S.hooks.growth size with
  | none =>
    refine ⟨none, { p with buffer := none, length := 0 }, ?_, .inr ⟨hgrow, size, hmem⟩⟩
    simp only [reallocate, hmem]
  | some content =>
    by_cases hre : S.hooks.reallocate = true
    · refine ⟨some (), _, ?_, hready (Block.realloc b size content) (by simp)
        (Block.prefix_realloc hw (by omega) content), hlt⟩
      simp only [reallocate, hmem, hre, if_true]
    · have hpos := h.copies hgrow (by simpa using hre)
      have hin : w.length < b.length := by
        have := h.inside
        omega
      have htake : (b.take (w.length + 1)).length = w.length + 1 := by
        rw [List.length_take]
        omega
      obtain ⟨b', hcopy, hlen', hw'⟩ := Block.memcpy_append (List.nil_prefix (l := Block.fresh size content))
        (t := b.take (w.length + 1)) (by rw [htake, Block.length_fresh, List.length_nil]; omega)
      refine ⟨some (), _, ?_, hready b' (by rw [hlen', Block.length_fresh])
        ((List.prefix_take_iff.mpr ⟨hw, Nat.le_succ _⟩).trans hw'), hlt⟩
      rw [List.length_nil] at hcopy
      have hread : Block.read b 0 (p.offset + 1) = some (b.take (w.length + 1)) := by
        rw [Block.read, h.offset, if_pos (by omega), List.drop_zero]
      simp only [reallocate, hmem, if_neg hre, hread, Option.bind_eq_bind, Option.bind_some, hcopy]

/-- `ensure` leaves room for the bytes and one more, or that much is not to be had. -/
theorem gives_ensure (h : Ready S limit depth w p) (n : Nat) :
    (ensure S n).Gives p
      (fun _ p' ↦ Ready S limit depth w p' ∧ w.length + n + 1 ≤ p'.length)
      (fun _ ↦ Refused S limit (w.length + n + 1)) := by
  obtain ⟨b, hb, hlen, hw⟩ := h.written
  have hinside := h.inside
  have hoffset := h.offset
  have hlimit := h.limit_le
  have hle := h.length_le
  rw [Procedure.Gives, ensure, hb]
  dsimp only
  split_ifs with hpast hmax hfits hno
  · omega
  · exact ⟨none, p, rfl, .inl (by omega)⟩
  · exact ⟨some (), p, rfl, h, by omega⟩
  · exact ⟨none, p, rfl, .inl (by have := h.fixed hno; omega)⟩
  · have hgrow : S.noalloc = false := by simpa using hno
    cases hsize : newSize (n + p.offset + 1) with
    | none =>
      have := newSize_eq_none hsize
      exact ⟨none, p, rfl, .inl (by omega)⟩
    | some size =>
      have := newSize_eq_some hsize
      exact gives_reallocate h hb hlen hgrow (by omega) (by omega)

/-- Bytes for which there is room are written behind `w`. -/
theorem gives_emit (h : Ready S limit depth w p) (hn : t.length ≤ n + 1) :
    (emit S n t).Gives p
      (fun _ p' ↦ Begins S limit (w ++ t) p' ∧ w.length + n + 1 ≤ p'.length ∧
        p'.offset = w.length ∧ p'.depth = depth)
      (fun _ ↦ Refused S limit (w.length + n + 1)) := by
  refine (gives_ensure h n).bind fun _ p₁ ⟨h₁, hroom⟩ ↦ ?_
  obtain ⟨p₂, hstore, hw, hlen, hoffset, hdepth⟩ := h₁.toBegins.store (t := t) (by omega)
  rw [← h₁.offset] at hstore
  exact Procedure.gives_access hstore
    ⟨hw, by omega, hoffset.trans h₁.offset, hdepth.trans h₁.depth⟩

end Writes

/-- The function appends `t` and leaves the depth `depth'`, or `spare` bytes more than `t` are not
to be had. -/
def Appends (S : PrintSettings) (limit : Nat) (m : Printer) (depth : Nat) (t : List UInt8)
    (spare depth' : Nat) : Prop :=
  ∀ w p, Ready S limit depth w p →
    m.Gives p (fun _ ↦ Ready S limit depth' (w ++ t))
      (fun _ ↦ Refused S limit (w.length + t.length + spare))

/-- The function writes the string `t` and leaves the depth `depth'`, or two bytes more than
`t` are not to be had. -/
def Prints (S : PrintSettings) (limit : Nat) (m : Printer) (depth : Nat) (t : List UInt8)
    (depth' : Nat) : Prop :=
  ∀ w p, Ready S limit depth w p →
    m.Gives p (fun _ ↦ Holds S limit depth' w t)
      (fun _ ↦ Refused S limit (w.length + t.length + 2))

section Composition
variable {S : PrintSettings} {limit depth depth' depth'' n spare spare' : Nat}
  {t t' : List UInt8} {m m' : Printer}

theorem appends_nil : Appends S limit (pure ()) depth [] spare depth := by
  intro w p h
  rw [List.append_nil]
  exact Procedure.gives_pure h

/-- One text after another; what is spared for the first is used by the second. -/
theorem Appends.bind (h : Appends S limit m depth t spare depth')
    (h' : Appends S limit m' depth' t' spare' depth'') (hspare : spare ≤ t'.length + spare') :
    Appends S limit (m >>= fun _ ↦ m') depth (t ++ t') spare' depth'' := by
  intro w p hp
  refine ((h w p hp).mono (fun _ _ ↦ id) fun _ hE ↦ ?_).bind fun _ p₁ h₁ ↦ ?_
  · exact hE.mono (by rw [List.length_append]; omega)
  · rw [← List.append_assoc, List.length_append, ← Nat.add_assoc, ← List.length_append]
    exact h' (w ++ t) p₁ h₁

/-- A text before the last one. -/
theorem Appends.bind_prints (h : Appends S limit m depth t spare depth')
    (h' : Prints S limit m' depth' t' depth'') (hspare : spare ≤ t'.length + 2) :
    Prints S limit (m >>= fun _ ↦ m') depth (t ++ t') depth'' := by
  intro w p hp
  refine ((h w p hp).mono (fun _ _ ↦ id) fun _ hE ↦ ?_).bind fun _ p₁ h₁ ↦ ?_
  · exact hE.mono (by rw [List.length_append]; omega)
  · refine (h' (w ++ t) p₁ h₁).mono (fun _ p₂ h₂ ↦ ?_) fun _ hE ↦ hE.mono (by simp; omega)
    have hroom := h₂.room
    have hge := h₂.offset_ge
    have hle := h₂.offset_le
    rw [List.length_append] at hroom hge hle
    refine ⟨?_, ?_, ?_, ?_, h₂.depth⟩
    · simpa only [List.append_assoc] using h₂.toBegins
    · rw [List.length_append]
      omega
    · omega
    · rw [List.length_append]
      omega

/-- `emit` followed by a step behind what was written. -/
theorem appends_append (hn : t.length ≤ n) :
    Appends S limit (append S n t) depth t (n + 1 - t.length) depth := by
  intro w p h
  refine ((gives_emit h (t := t) (n := n) (by omega)).mono (fun _ _ ↦ id) fun _ hE ↦ ?_).bind
    fun _ p₁ ⟨h₁, hroom, hoffset, hdepth⟩ ↦ ?_
  · exact hE.mono (by omega)
  · refine Procedure.gives_update ⟨h₁.moved rfl rfl, ?_, .inr ?_, hdepth⟩
    · rw [List.length_append, ← hoffset]
      rfl
    · rw [List.length_append]
      exact show w.length + t.length < p₁.length by omega

theorem appends_appendString : Appends S limit (appendString S t) depth t 2 depth := by
  intro w p h
  refine ((gives_emit h (t := t ++ [0]) (n := t.length + 1) (by simp)).mono (fun _ _ ↦ id)
    fun _ hE ↦ ?_).bind fun _ p₁ ⟨h₁, hroom, hoffset, hdepth⟩ ↦ ?_
  · exact hE.mono (by omega)
  · rw [← List.append_assoc] at h₁
    refine Procedure.gives_update ⟨h₁.weaken.moved rfl rfl, ?_, .inr ?_, hdepth⟩
    · rw [List.length_append, ← hoffset]
      rfl
    · rw [List.length_append]
      exact show w.length + t.length < p₁.length by omega

theorem appends_deeper : Appends S limit (Procedure.update deeper) depth [] spare (depth + 1) := by
  intro w p h
  rw [List.append_nil]
  exact Procedure.gives_update
    ⟨h.moved rfl rfl, h.offset, h.inside, congrArg (· + 1) h.depth⟩

/-- A string is written by one `emit`. -/
theorem prints_emit (hn : n = t.length + 1) :
    Prints S limit (emit S n (t ++ [0])) depth t depth := by
  intro w p h
  refine (gives_emit h (by rw [List.length_append, List.length_singleton, hn]; omega)).mono
    (fun _ p₁ ⟨h₁, hroom, hoffset, hdepth⟩ ↦ ?_) fun _ hE ↦ hE.mono (by omega)
  exact ⟨h₁, by omega, by omega, by omega, hdepth⟩

theorem Prints.shallower (h : Prints S limit m depth t (depth' + 1)) :
    Prints S limit (m >>= fun _ ↦ Procedure.update shallower) depth t depth' := by
  intro w p hp
  refine (h w p hp).bind fun _ p₁ h₁ ↦ Procedure.gives_update ?_
  exact ⟨h₁.moved rfl rfl, h₁.room, h₁.offset_ge, h₁.offset_le,
    congrArg (· - 1) h₁.depth⟩

/-- `update_offset` moves the offset behind the string. -/
theorem Holds.updateOffset {w : List UInt8} {p : PrintBuffer} {E : PrintBuffer → Prop}
    (h : Holds S limit depth w t p) (ht : 0 ∉ t) :
    updateOffset.Gives p (fun _ p' ↦ Ready S limit depth (w ++ t) p' ∧
      Begins S limit (w ++ (t ++ [0])) p' ∧ w.length + t.length + 2 ≤ p'.length) E := by
  obtain ⟨b, hb, hlen, hw⟩ := h.written
  have hge := h.offset_ge
  have hle := h.offset_le
  have hroom := h.room
  have hsplit : w ++ (t ++ [0]) = (w ++ t.take (p.offset - w.length)) ++
      (t.drop (p.offset - w.length) ++ [0]) := by
    rw [List.append_assoc, ← List.append_assoc (t.take _), List.take_append_drop]
  have hu : (w ++ t.take (p.offset - w.length)).length = p.offset := by
    rw [List.length_append, List.length_take]
    omega
  have hlenAt := Block.strlen_of_prefix (hsplit ▸ hw) fun h0 ↦ ht (List.mem_of_mem_drop h0)
  rw [hu, List.length_drop] at hlenAt
  have hmoved : Ready S limit depth (w ++ t) (p.advance (t.length - (p.offset - w.length))) := by
    have hbegins := h.toBegins
    rw [← List.append_assoc] at hbegins
    refine ⟨hbegins.weaken.moved rfl rfl, ?_, .inr ?_, h.depth⟩
    · rw [List.length_append]
      exact show p.offset + (t.length - (p.offset - w.length)) = _ by omega
    · rw [List.length_append]
      exact show w.length + t.length < p.length by omega
  refine Procedure.gives_access ?_ ⟨hmoved, h.toBegins.moved rfl rfl, hroom⟩
  rw [hb]
  dsimp only
  rw [hlenAt]
  rfl

/-- A string and what is written behind it. -/
theorem Prints.bind (h : Prints S limit m depth t depth') (ht : 0 ∉ t)
    (h' : Appends S limit m' depth' t' spare depth'') (hspare : 2 ≤ t'.length + spare) :
    Appends S limit (m >>= fun _ ↦ PrintBuffer.updateOffset >>= fun _ ↦ m') depth (t ++ t') spare
      depth'' := by
  intro w p hp
  refine ((h w p hp).mono (fun _ _ ↦ id) fun _ hE ↦ ?_).bind fun _ p₁ h₁ ↦ ?_
  · exact hE.mono (by rw [List.length_append]; omega)
  · refine (h₁.updateOffset ht).bind fun _ p₂ ⟨h₂, _⟩ ↦ ?_
    rw [← List.append_assoc, List.length_append, ← Nat.add_assoc, ← List.length_append]
    exact h' (w ++ t) p₂ h₂

end Composition

section Strings
variable {S : PrintSettings} {limit depth : Nat} {w : List UInt8} {p : PrintBuffer}

/-- The length of what is printed for a character. -/
theorem length_escapeByte (c : UInt8) : (escapeByte c).length = 1 + escapeCharacters c := by
  have hlt : 31 < c ↔ ¬c < 32 := by
    rw [UInt8.lt_iff_toNat_lt, UInt8.lt_iff_toNat_lt]
    exact (show 31 < c.toNat ↔ ¬c.toNat < 32 by omega)
  rw [escapeByte, escapeCharacters]
  by_cases hcode : c < 32
  · rw [if_neg (fun h ↦ hlt.mp h.1 hcode)]
    split_ifs <;> simp_all [text]
  · by_cases hq : c = ascii '"'
    · subst hq
      decide
    · by_cases hb : c = ascii '\\'
      · subst hb
        decide
      · have hne : c ≠ 8 ∧ c ≠ 12 ∧ c ≠ 10 ∧ c ≠ 13 ∧ c ≠ 9 := by
          refine ⟨?_, ?_, ?_, ?_, ?_⟩
          all_goals
            rintro rfl
            exact hcode (by decide)
        rw [if_pos ⟨hlt.mpr hcode, hq, hb⟩, if_neg (by simp_all), if_neg hcode,
          List.length_singleton]

theorem length_flatMap_escapeByte (s : List UInt8) :
    (s.flatMap escapeByte).length = s.length + countEscapes s := by
  induction s with
  | nil => rfl
  | cons c s ih =>
    rw [List.flatMap_cons, List.length_append, ih, length_escapeByte, countEscapes,
      List.length_cons]
    omega

/-- A character is printed as it is, or as a sequence of two or of six characters. -/
theorem escapeByte_shape (c : UInt8) :
    (31 < c ∧ c ≠ ascii '"' ∧ c ≠ ascii '\\') ∧ escapeByte c = [c] ∨
      ¬(31 < c ∧ c ≠ ascii '"' ∧ c ≠ ascii '\\') ∧
        escapeByte c = ascii '\\' :: (escapeByte c).tail ∧
        (escapeCharacters c = 1 ∨ escapeCharacters c = 5) := by
  by_cases h : 31 < c ∧ c ≠ ascii '"' ∧ c ≠ ascii '\\'
  · exact .inl ⟨h, by rw [escapeByte, if_pos h]⟩
  · refine .inr ⟨h, by rw [escapeByte, if_neg h, List.tail_cons], ?_⟩
    rw [escapeCharacters]
    split_ifs with hone hcode
    · exact .inl rfl
    · exact .inr rfl
    · refine absurd ⟨?_, fun hq ↦ hone (.inl hq), fun hb ↦ hone (.inr (.inl hb))⟩ h
      rw [UInt8.lt_iff_toNat_lt] at hcode ⊢
      exact Nat.not_lt.mp hcode

/-- A string without escape sequences is printed as it is. -/
theorem flatMap_escapeByte_of_none {s : List UInt8} (h : countEscapes s = 0) :
    s.flatMap escapeByte = s := by
  induction s with
  | nil => rfl
  | cons c s ih =>
    rw [countEscapes] at h
    rw [List.flatMap_cons, ih (by omega)]
    obtain ⟨-, hone⟩ | ⟨-, -, hcount⟩ := escapeByte_shape c
    · rw [hone, List.singleton_append]
    · omega

/-- The loop writes the characters with their escape sequences; `sprintf` may terminate the
last one. -/
theorem Begins.writeEscaped {s : List UInt8} (h : Begins S limit w p)
    (hfit : w.length + (s.flatMap escapeByte).length + 1 ≤ p.length) :
    ∃ p', writeEscaped s w.length p = some p' ∧
      Begins S limit (w ++ s.flatMap escapeByte) p' ∧ p'.length = p.length ∧
      p'.offset = p.offset ∧ p'.depth = p.depth := by
  induction s generalizing w p with
  | nil => exact ⟨p, rfl, by rwa [List.flatMap_nil, List.append_nil], rfl, rfl, rfl⟩
  | cons c s ih =>
    have hlen := length_escapeByte c
    rw [List.flatMap_cons, List.length_append] at hfit
    rw [List.flatMap_cons, ← List.append_assoc, PrintBuffer.writeEscaped]
    obtain ⟨hplain, hone⟩ | ⟨hplain, hcons, hcount⟩ := escapeByte_shape c
    · rw [hone] at hfit ⊢
      rw [List.length_singleton] at hfit
      obtain ⟨p₁, hstore, hw, hl, ho, hd⟩ := h.store (t := [c]) (by rw [List.length_singleton]; omega)
      obtain ⟨p₂, hrest, hw', hl', ho', hd'⟩ := ih hw
        (by rw [List.length_append, List.length_singleton]; omega)
      refine ⟨p₂, ?_, hw', hl'.trans hl, ho'.trans ho, hd'.trans hd⟩
      rw [if_pos hplain, hstore, ← hrest, List.length_append]
      rfl
    · have htail : (escapeByte c).tail.length = escapeCharacters c := by
        rw [List.length_tail, hlen]
        omega
      obtain ⟨p₁, hstore, hw, hl, ho, hd⟩ := h.store (t := [ascii '\\'])
        (by rw [List.length_singleton]; omega)
      rw [if_neg hplain, hstore, Option.bind_eq_bind, Option.bind_some]
      rcases hcount with hcount | hcount
      · obtain ⟨p₂, hstore₂, hw₂, hl₂, ho₂, hd₂⟩ := hw.store (t := (escapeByte c).tail)
          (by simp only [List.length_append, List.length_singleton]; omega)
        rw [List.append_assoc, List.singleton_append, ← hcons] at hw₂
        obtain ⟨p₃, hrest, hw₃, hl₃, ho₃, hd₃⟩ := ih hw₂
          (by rw [List.length_append]; omega)
        refine ⟨p₃, ?_, hw₃, by omega, by omega, by omega⟩
        rw [List.length_append, hlen, hcount] at hrest
        rw [List.length_append, List.length_singleton] at hstore₂
        rw [if_pos hcount, hstore₂]
        exact hrest
      · obtain ⟨p₂, hstore₂, hw₂, hl₂, ho₂, hd₂⟩ := hw.store (t := (escapeByte c).tail ++ [0])
          (by simp only [List.length_append, List.length_singleton]; omega)
        rw [List.append_assoc, List.singleton_append, ← List.cons_append, ← hcons,
          ← List.append_assoc] at hw₂
        obtain ⟨p₃, hrest, hw₃, hl₃, ho₃, hd₃⟩ := ih hw₂.weaken
          (by rw [List.length_append]; omega)
        refine ⟨p₃, ?_, hw₃, by omega, by omega, by omega⟩
        rw [List.length_append, hlen, hcount] at hrest
        rw [List.length_append, List.length_singleton] at hstore₂
        rw [if_neg (by omega), hstore₂]
        exact hrest

/-- `print_string_ptr` writes the string between quotation marks. -/
theorem prints_printStringPtr (s : CStr) :
    Prints S limit (printStringPtr S s) depth (quoted s) depth := by
  intro w p h
  have hlen := length_flatMap_escapeByte s.bytes
  have hquoted := length_quoted s
  refine ((gives_ensure h _).mono (fun _ _ ↦ id) fun _ hE ↦ hE.mono (by omega)).bind
    fun _ p₁ ⟨h₁, hroom⟩ ↦ ?_
  suffices hstore : ∃ p₂, storeString s.bytes p₁ = some p₂ ∧
      Begins S limit (w ++ (quoted s ++ [0])) p₂ ∧ p₂.length = p₁.length ∧
      p₂.offset = p₁.offset ∧ p₂.depth = p₁.depth by
    obtain ⟨p₂, hp₂, hw, hl, ho, hd⟩ := hstore
    have := h₁.offset
    exact Procedure.gives_access hp₂ ⟨hw, by omega, by omega, by omega, hd.trans h₁.depth⟩
  rw [storeString]
  split
  · next hnone =>
    have hall : quoted s ++ [0] = ascii '"' :: s.bytes ++ [ascii '"', 0] := by
      rw [quoted, flatMap_escapeByte_of_none hnone]
      simp
    have hput := h₁.store (t := ascii '"' :: s.bytes ++ [ascii '"', 0])
      (by simp only [List.length_append, List.length_cons, List.length_nil]; omega)
    rw [← h₁.offset] at hput
    rwa [hall]
  · have hall : w ++ (quoted s ++ [0]) =
        w ++ [ascii '"'] ++ s.bytes.flatMap escapeByte ++ [ascii '"', 0] := by simp [quoted]
    obtain ⟨p₂, hopen, hw₂, hl₂, ho₂, hd₂⟩ := h₁.store (t := [ascii '"'])
      (by rw [List.length_singleton]; omega)
    obtain ⟨p₃, hloop, hw₃, hl₃, ho₃, hd₃⟩ := hw₂.writeEscaped (s := s.bytes)
      (by rw [List.length_append, List.length_singleton]; omega)
    obtain ⟨p₄, hclose, hw₄, hl₄, ho₄, hd₄⟩ := hw₃.store (t := [ascii '"', 0])
      (by simp only [List.length_append, List.length_cons, List.length_nil]; omega)
    refine ⟨p₄, ?_, by rwa [hall], by omega, by omega, by omega⟩
    rw [List.length_append, List.length_singleton, ← h₁.offset, ← ho₂] at hloop
    rw [List.length_append, List.length_append, List.length_singleton, hlen] at hclose
    have hpos : p₃.offset + (s.bytes.length + countEscapes s.bytes) + 1 =
        w.length + 1 + (s.bytes.length + countEscapes s.bytes) := by
      have := h₁.offset
      omega
    simp only [h₁.offset, hopen, Option.bind_eq_bind, Option.bind_some, hloop, hpos, hclose]

end Strings

section Trees
variable {S : PrintSettings} {limit : Nat}

/-- `print_number` writes the text of the number. -/
theorem prints_printNumber (d : Binary64) (depth : Nat) :
    Prints S limit (printNumber S d) depth (numberText d) depth := by
  have hshort := length_numberText_le d
  intro w p h
  rw [printNumber, if_neg (by omega)]
  refine ((gives_emit h (n := (numberText d).length + 1) (by simp)).mono (fun _ _ ↦ id)
    fun _ hE ↦ hE.mono (by omega)).bind fun _ p₁ ⟨h₁, hroom, hoffset, hdepth⟩ ↦ ?_
  refine Procedure.gives_update ⟨h₁.moved rfl rfl, hroom, ?_, ?_, hdepth⟩
  · exact show w.length ≤ p₁.offset + _ by omega
  · exact show p₁.offset + (numberText d).length ≤ _ by omega

private theorem noNul_openBrace (format : Bool) : 0 ∉ openBrace format := by
  cases format <;> decide

private theorem noNul_colon (format : Bool) : 0 ∉ colon format := by
  cases format <;> decide

private theorem noNul_comma (format : Bool) : 0 ∉ comma format := by
  cases format <;> decide

private theorem noNul_ending (format last : Bool) : 0 ∉ ending format last := by
  cases format <;> cases last <;> decide

private theorem noNul_tabs (n : Nat) : 0 ∉ tabs n := by
  intro h
  exact absurd (List.eq_of_mem_replicate h) (by decide)

private theorem noNul_closeBrace (format : Bool) (n : Nat) : 0 ∉ closeBrace format n := by
  have := noNul_tabs n
  cases format <;> simp [closeBrace, this, ascii]

mutual

/-- The text of a value at a depth has no NUL. -/
theorem noNul_renderAt (format : Bool) : (depth : Nat) → (v : CJson) → 0 ∉ v.renderAt format depth
  | _, .null => show 0 ∉ text "null" by decide
  | _, .bool true => show 0 ∉ text "true" by decide
  | _, .bool false => show 0 ∉ text "false" by decide
  | _, .number d => noNul_numberText d
  | _, .string s => noNul_quoted s
  | depth, .array xs => by
    have := noNul_renderElementsAt format (depth + 1) xs
    simp [CJson.renderAt, this, ascii]
  | depth, .object ms => by
    have h := noNul_renderMembersAt format (depth + 1) ms
    have hopen := noNul_openBrace format
    have hclose := noNul_closeBrace format depth
    simp [CJson.renderAt, h, hopen, hclose]

theorem noNul_renderElementsAt (format : Bool) : (depth : Nat) → (xs : List CJson) →
    0 ∉ renderElementsAt format depth xs
  | _, [] => List.not_mem_nil
  | depth, x :: xs => by
    have hx := noNul_renderAt format depth x
    have hxs := noNul_renderElementsAt format depth xs
    have hcomma := noNul_comma format
    rw [renderElementsAt]
    split <;> simp [hx, hxs, hcomma]

theorem noNul_renderMembersAt (format : Bool) : (depth : Nat) → (ms : Members) →
    0 ∉ renderMembersAt format depth ms
  | _, [] => List.not_mem_nil
  | depth, (name, item) :: ms => by
    have hname := noNul_quoted name
    have hitem := noNul_renderAt format depth item
    have hms := noNul_renderMembersAt format depth ms
    have hcolon := noNul_colon format
    have hending := noNul_ending format ms.isEmpty
    have htabs := noNul_tabs depth
    rw [renderMembersAt]
    cases format <;> simp [hname, hitem, hms, hcolon, hending, htabs]

end

theorem appends_indent {depth : Nat} :
    Appends S limit (indent S) depth (if S.format then tabs depth else []) 1 depth := by
  intro w p h
  split
  · next hformat =>
    have htabs : (tabs depth).length = depth := List.length_replicate
    have happend := appends_append (t := tabs depth) (n := depth) htabs.le w p h
    refine (happend.mono (fun _ _ ↦ id) fun _ hE ↦ hE.mono (by omega)).congr ?_
    simp only [indent, h.depth, hformat, if_true]
  · next hformat =>
    rw [List.append_nil]
    refine (Procedure.gives_pure (a := ()) h).congr ?_
    rw [indent, if_neg hformat]
    rfl

theorem prints_endObject {depth : Nat} :
    Prints S limit (endObject S) (depth + 1) (closeBrace S.format depth) (depth + 1) := by
  intro w p h
  have hlen : (if S.format then depth + 2 else 2) = (closeBrace S.format depth).length + 1 := by
    rw [closeBrace]
    split
    · rw [List.length_append, tabs, List.length_replicate, List.length_singleton]
    · rfl
  refine (prints_emit hlen w p h).congr ?_
  rw [endObject, h.depth, Nat.add_sub_cancel]

mutual

/-- `print_value` writes the text of the value. -/
theorem prints_printValue : (v : CJson) → (depth : Nat) →
    Prints S limit (printValue S v) depth (v.renderAt S.format depth) depth
  | .null, depth => prints_emit (t := text "null") rfl
  | .bool false, depth => prints_emit (t := text "false") rfl
  | .bool true, depth => prints_emit (t := text "true") rfl
  | .number d, depth => prints_printNumber d depth
  | .string s, depth => prints_printStringPtr s
  | .array xs, depth => by
    have hclose : Prints S limit (emit S 2 ([ascii ']'] ++ [0])) (depth + 1) [ascii ']'] (depth + 1) :=
      prints_emit rfl
    have hbody := (appends_printElements xs (depth + 1)).bind_prints hclose.shallower (by simp)
    have hdeep := appends_deeper.bind_prints hbody (Nat.zero_le _)
    have hopen : Appends S limit (append S 1 [ascii '[']) depth [ascii '['] 1 depth :=
      appends_append le_rfl
    exact hopen.bind_prints hdeep (by simp)
  | .object ms, depth => by
    have hclose : Prints S limit (endObject S) (depth + 1) (closeBrace S.format depth) (depth + 1) :=
      prints_endObject
    have hbody := (appends_printMembers ms (depth + 1)).bind_prints hclose.shallower (by simp)
    have hdeep := appends_deeper.bind_prints hbody (Nat.zero_le _)
    have hopen : Appends S limit (append S ((openBrace S.format).length + 1) (openBrace S.format))
        depth (openBrace S.format) _ depth :=
      appends_append (Nat.le_succ _)
    simpa only [CJson.renderAt, printValue, List.append_assoc, List.nil_append] using
      hopen.bind_prints hdeep (by omega)

/-- The loop over the elements of an array writes their text. -/
theorem appends_printElements : (xs : List CJson) → (depth : Nat) →
    Appends S limit (printElements S xs) depth (renderElementsAt S.format depth xs) 2 depth
  | [], depth => appends_nil
  | x :: xs, depth => by
    rw [renderElementsAt, printElements]
    refine (prints_printValue x depth).bind (noNul_renderAt _ _ _) ?_ (by omega)
    split
    · exact appends_nil
    · exact appends_appendString.bind (appends_printElements xs depth) (by omega)

/-- The loop over the members of an object writes their text. -/
theorem appends_printMembers : (ms : Members) → (depth : Nat) →
    Appends S limit (printMembers S ms) depth (renderMembersAt S.format depth ms) 2 depth
  | [], depth => appends_nil
  | (name, item) :: ms, depth => by
    have hending := appends_appendString.bind (t := ending S.format ms.isEmpty)
      (appends_printMembers ms depth) (by omega)
    have hitem := (prints_printValue item depth).bind (noNul_renderAt _ _ _) hending (by omega)
    have hcolon : Appends S limit (append S (colon S.format).length (colon S.format)) depth
        (colon S.format) _ depth :=
      appends_append le_rfl
    have hname := (prints_printStringPtr name).bind (noNul_quoted name)
      (hcolon.bind hitem (by omega)) (by cases S.format <;> simp [colon])
    have hindent : Appends S limit (indent S) depth (if S.format then tabs depth else []) 1 depth :=
      appends_indent
    simpa only [renderMembersAt, printMembers, List.append_assoc] using hindent.bind hname (by omega)

end

end Trees

end PrintBuffer

end LedaSdk.Json
