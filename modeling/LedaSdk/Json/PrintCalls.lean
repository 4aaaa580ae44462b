import LedaSdk.Json.PrintedText

/-!
# The calls of the printer

`cJSON_Print`, `cJSON_PrintUnformatted`, `cJSON_PrintBuffered` and
`cJSON_PrintPreallocated`, `sdk/utility/json/cJSON.c:1087–1209`, for every tree, every
buffer and everything that the allocator may do.
-/

namespace LedaSdk.Json
open LedaSdk.Base

mutual

/-- The text without formatting. -/
theorem renderAt_false : (v : CJson) → (depth : Nat) → v.renderAt false depth = v.render
  | .null, _ | .bool true, _ | .bool false, _ | .number _, _ | .string _, _ => rfl
  | .array xs, depth => by
    rw [CJson.renderAt, CJson.render, renderElementsAt_false xs]
  | .object ms, depth => by
    rw [CJson.renderAt, CJson.render, renderMembersAt_false ms]
    rfl

theorem renderElementsAt_false : (xs : List CJson) → (depth : Nat) →
    renderElementsAt false depth xs = renderElements xs
  | [], _ => rfl
  | x :: xs, depth => by
    rw [renderElementsAt, renderElements, renderAt_false x, renderElementsAt_false xs]
    rfl

theorem renderMembersAt_false : (ms : Members) → (depth : Nat) →
    renderMembersAt false depth ms = renderMembers ms
  | [], _ => rfl
  | (name, item) :: ms, depth => by
    rw [renderMembersAt, renderMembers, renderAt_false item, renderMembersAt_false ms]
    cases ms <;> simp [PrintBuffer.colon, PrintBuffer.ending, renderMembers]

end

namespace PrintBuffer

/-- The buffer before a tree is printed. -/
theorem ready_start {S : PrintSettings} {b : List UInt8} (hb : b.length ≤ intMax.toNat)
    (hcopies : S.noalloc = false → S.hooks.reallocate = false → 0 < b.length) :
    Ready S (if S.noalloc then b.length else intMax.toNat) 0 [] ⟨some b, b.length, 0, 0⟩ := by
  refine ⟨⟨⟨b, rfl, rfl, List.nil_prefix⟩, ?_, ?_, ?_, ?_, hcopies⟩, rfl, ?_, rfl⟩
  · split
    · exact le_rfl
    · exact hb
  · split
    · exact hb
    · exact le_rfl
  · exact fun h ↦ (if_pos h).symm
  · exact fun h ↦ if_neg (by simp [h])
  · exact Nat.eq_zero_or_pos b.length

end PrintBuffer

/-- The allocator refuses one of its calls. -/
def PrintHooks.Refuses (hooks : PrintHooks) : Prop :=
  hooks.first = none ∨ (∃ size, hooks.growth size = none) ∨ hooks.last = none

namespace PrintBuffer
variable (item : CJson) (format : Bool) (hooks : PrintHooks)

/-- The outcomes of `print`: the text of the tree, or a null pointer if the text leaves no two
bytes of `INT_MAX` or an allocation fails. -/
theorem print_cases :
    print item format hooks = some (some (item.renderAt format 0 ++ [0])) ∧
        (item.renderAt format 0).length + 2 ≤ intMax.toNat ∨
      print item format hooks = some none ∧
        (intMax.toNat < (item.renderAt format 0).length + 2 ∨ hooks.Refuses) := by
  rw [print]
  cases hfirst : hooks.first with
  | none => exact .inr ⟨rfl, .inr (.inl hfirst)⟩
  | some content =>
    have hstart := ready_start (S := ⟨false, format, hooks⟩) (b := Block.fresh 256 content)
      (by rw [Block.length_fresh]; decide) (fun _ _ ↦ by rw [Block.length_fresh]; decide)
    rw [Block.length_fresh] at hstart
    have htext := noNul_renderAt format 0 item
    obtain ⟨r, p, hrun, hr⟩ := (prints_printValue item 0 [] _ hstart).bind
      fun _ p₁ h₁ ↦ h₁.updateOffset htext
    have hlimit : (if (⟨false, format, hooks⟩ : PrintSettings).noalloc then 256 else intMax.toNat) =
        intMax.toNat := rfl
    simp only [hrun, Option.bind_eq_bind, Option.bind_some]
    cases r with
    | none =>
      refine .inr ⟨rfl, ?_⟩
      rcases hr with hlong | ⟨-, hgrowth⟩
      · exact .inl (by simpa using hlong)
      · exact .inr (.inr (.inl hgrowth))
    | some _ =>
      obtain ⟨hready, hbegins, hroom⟩ := hr
      cases hlast : hooks.last with
      | none => exact .inr ⟨rfl, .inr (.inr (.inr hlast))⟩
      | some content =>
        obtain ⟨b, hb, hlen, hw⟩ := hbegins.written
        have hsize := hready.length_le
        have hoffset := hready.offset
        have hlen' : (item.renderAt format 0 ++ [0]).length = p.offset + 1 := by
          rw [hoffset, List.length_append]
          rfl
        have hread := Block.read_prefix hw
        have hcut := Block.realloc_prefix hw content
        rw [List.nil_append, hlen'] at hread hcut
        rw [List.nil_append] at hoffset
        refine .inl ⟨?_, by simpa using hroom.trans hsize⟩
        simp only [hb, Option.getD_some]
        split
        · rw [hcut]
        · rw [Nat.min_eq_right (by rw [List.length_nil] at hroom; omega), hread, Option.bind_some,
            Block.memcpy_whole (by rw [Block.length_fresh, hlen']), Option.bind_some, hoffset,
            Block.memcpy_last, Option.bind_some]

/-- `cJSON_Print` and `cJSON_PrintUnformatted` access no memory outside their blocks whatever
the allocator does. They return a null pointer or the text of the tree in a block of its
size; if the allocator refuses nothing, it is the text exactly if that leaves two bytes of
`INT_MAX`. -/
theorem print_returns_text :
    (print item format hooks = some none ∨
      print item format hooks = some (some (item.renderAt format 0 ++ [0]))) ∧
    (¬hooks.Refuses → (print item format hooks = some (some (item.renderAt format 0 ++ [0])) ↔
      (item.renderAt format 0).length + 2 ≤ intMax.toNat)) := by
  obtain ⟨hprint, hfits⟩ | ⟨hprint, hlong⟩ := print_cases item format hooks
  · exact ⟨.inr hprint, fun _ ↦ ⟨fun _ ↦ hfits, fun _ ↦ hprint⟩⟩
  · refine ⟨.inl hprint, fun hgrants ↦ ⟨fun h ↦ ?_, fun hfits ↦ ?_⟩⟩
    · cases hprint.symm.trans h
    · have := hlong.resolve_right hgrants
      omega

/-- Printing into a buffer of one's own: every access is inside its `len` bytes, and the tree
is printed exactly if its text leaves two of them. -/
theorem printPreallocated_fits_iff {buf : List UInt8} {len : Int32} (hlen : len.toInt = buf.length) :
    ∃ buf', printPreallocated item (some buf) len format hooks =
        some (decide ((item.renderAt format 0).length + 2 ≤ buf.length), buf') ∧
      ((item.renderAt format 0).length + 2 ≤ buf.length →
        ∃ rest, buf' = some (item.renderAt format 0 ++ 0 :: rest) ∧
          (item.renderAt format 0 ++ 0 :: rest).length = buf.length) := by
  have hmax : buf.length ≤ intMax.toNat := by
    have := len.toInt_lt
    have hmax : intMax.toNat = 2147483647 := rfl
    omega
  have hstart := ready_start (S := ⟨true, format, hooks⟩) hmax (fun h ↦ Bool.noConfusion h)
  obtain ⟨r, p, hrun, hr⟩ := prints_printValue item 0 [] _ hstart
  have hsize : len.toNatClampNeg = buf.length := by
    rw [← Int32.toNat_toInt, hlen]
    rfl
  have hpos : ¬(len < 0 ∨ (some buf : Option (List UInt8)) = none) := by
    rintro (h | h)
    · rw [Int32.lt_iff_toInt_lt, hlen] at h
      exact absurd h (by simp)
    · cases h
  have hcall : printPreallocated item (some buf) len format hooks = some (r.isSome, p.buffer) := by
    simp only [printPreallocated, if_neg hpos, hsize, hrun, Option.bind_eq_bind, Option.bind_some]
  rw [hcall]
  cases r with
  | none =>
    have hlong : ¬(item.renderAt format 0).length + 2 ≤ buf.length := by
      rcases hr with hlong | ⟨hgrow, -⟩
      · simpa using hlong
      · exact Bool.noConfusion hgrow
    exact ⟨p.buffer, by rw [decide_eq_false hlong]; rfl, fun h ↦ absurd h hlong⟩
  | some _ =>
    obtain ⟨b, hb, hblen, rest, hw⟩ := hr.written
    have hfixed : p.length = buf.length := hr.fixed rfl
    have hroom := hr.room
    rw [List.length_nil, Nat.zero_add, hfixed] at hroom
    refine ⟨p.buffer, by rw [decide_eq_true hroom]; rfl, fun _ ↦ ⟨rest, ?_, ?_⟩⟩
    · rw [hb, ← hw]
      simp
    · rw [← hfixed, ← hblen, ← hw]
      simp

theorem printPreallocated_fits_iff_null :
    ∃ buf', printPreallocated .null (some [7, 7, 7, 7, 7, 7]) 6 false ⟨true, none, fun _ ↦ none, none⟩ =
        some (true, buf') := by
  obtain ⟨buf', hcall, -⟩ := printPreallocated_fits_iff .null false ⟨true, none, fun _ ↦ none, none⟩
    (show (6 : Int32).toInt = [7, 7, 7, 7, 7, 7].length by decide)
  exact ⟨buf', hcall⟩

/-- `cJSON_PrintBuffered` returns a buffer that begins with the text, unless it is started
with an empty buffer and hooks without `reallocate`. -/
theorem printBuffered_returns_text {prebuffer : Int32} (hpos : 0 ≤ prebuffer)
    (hcopies : 0 < prebuffer ∨ hooks.reallocate = true) :
    (∃ rest, printBuffered item prebuffer format hooks =
        some (some (item.renderAt format 0 ++ 0 :: rest))) ∧
        (item.renderAt format 0).length + 2 ≤ intMax.toNat ∨
      printBuffered item prebuffer format hooks = some none ∧
        (intMax.toNat < (item.renderAt format 0).length + 2 ∨ hooks.Refuses) := by
  have hsize : prebuffer.toNatClampNeg ≤ intMax.toNat := by
    have := prebuffer.toInt_lt
    have hmax : intMax.toNat = 2147483647 := rfl
    rw [← Int32.toNat_toInt]
    omega
  have hstay : ¬prebuffer < 0 := Int32.not_lt.mpr hpos
  rw [printBuffered, if_neg hstay]
  cases hfirst : hooks.first with
  | none => exact .inr ⟨rfl, .inr (.inl hfirst)⟩
  | some content =>
    have hstart := ready_start (S := ⟨false, format, hooks⟩)
      (b := Block.fresh prebuffer.toNatClampNeg content) (by rwa [Block.length_fresh]) (by
        intro _ hre
        have h0 := hcopies.resolve_right (by simpa using hre)
        rw [Int32.lt_iff_toInt_lt] at h0
        rw [Block.length_fresh, ← Int32.toNat_toInt]
        exact Int.lt_toNat.mpr h0)
    rw [Block.length_fresh] at hstart
    obtain ⟨r, p, hrun, hr⟩ := prints_printValue item 0 [] _ hstart
    simp only [hrun, Option.bind_eq_bind, Option.bind_some]
    cases r with
    | none =>
      refine .inr ⟨rfl, ?_⟩
      rcases hr with hlong | ⟨-, hgrowth⟩
      · exact .inl (by simpa using hlong)
      · exact .inr (.inr (.inl hgrowth))
    | some _ =>
      obtain ⟨b, hb, hblen, rest, hw⟩ := hr.written
      refine .inl ⟨⟨rest, ?_⟩, by simpa using hr.room.trans hr.length_le⟩
      rw [hb, ← hw]
      simp

/-- Without `reallocate`, the first `ensure` copies a byte of a buffer that has none. -/
theorem ensure_empty {S : PrintSettings} (hno : S.noalloc = false) (hre : S.hooks.reallocate = false)
    (hgrants : ∀ size, S.hooks.growth size ≠ none) {n : Nat} (hn : n + 1 ≤ intMax.toNat) :
    ensure S n ⟨some [], 0, 0, 0⟩ = none := by
  have hsize : newSize (n + 0 + 1) ≠ none := fun h ↦ by
    have := newSize_eq_none h
    omega
  obtain ⟨size, hsize⟩ := Option.ne_none_iff_exists'.mp hsize
  obtain ⟨content, hcontent⟩ := Option.ne_none_iff_exists'.mp (hgrants size)
  simp only [ensure, hno, hsize, reallocate, hcontent, hre]
  rw [if_neg (by omega), if_neg (by omega), if_neg (by omega)]
  rfl

/-- So nothing can be printed into such a buffer. -/
theorem printValue_empty {S : PrintSettings} (hno : S.noalloc = false)
    (hre : S.hooks.reallocate = false) (hgrants : ∀ size, S.hooks.growth size ≠ none)
    (hfits : (item.renderAt S.format 0).length + 2 ≤ intMax.toNat) :
    printValue S item ⟨some [], 0, 0, 0⟩ = none := by
  have hemit : ∀ {n t}, n + 1 ≤ intMax.toNat → emit S n t ⟨some [], 0, 0, 0⟩ = none :=
    fun hn ↦ Procedure.bind_of_fault (ensure_empty hno hre hgrants hn)
  cases item with
  | null => exact hemit (by decide)
  | bool b => cases b <;> exact hemit (by decide)
  | number d =>
    have hshort := length_numberText_le d
    rw [printValue, printNumber, if_neg (by omega)]
    exact Procedure.bind_of_fault (hemit hfits)
  | string s =>
    have hquoted := length_quoted s
    rw [length_flatMap_escapeByte] at hquoted
    change (quoted s).length + 2 ≤ _ at hfits
    exact Procedure.bind_of_fault (ensure_empty hno hre hgrants (by omega))
  | array xs =>
    exact Procedure.bind_of_fault (Procedure.bind_of_fault (hemit (by decide)))
  | object ms =>
    refine Procedure.bind_of_fault (Procedure.bind_of_fault (hemit ?_))
    rw [openBrace]
    split <;> decide

/-- `cJSON_PrintBuffered` stays inside its blocks exactly if its buffer is not empty at first
or the hooks have `reallocate`. -/
theorem printBuffered_inside_iff {prebuffer : Int32} (hpos : 0 ≤ prebuffer)
    (hgrants : ¬hooks.Refuses) (hfits : (item.renderAt format 0).length + 2 ≤ intMax.toNat) :
    (printBuffered item prebuffer format hooks).isSome ↔
      0 < prebuffer ∨ hooks.reallocate = true := by
  constructor
  · intro h
    by_contra hnot
    obtain ⟨hle, hre⟩ := not_or.mp hnot
    obtain rfl : prebuffer = 0 := Int32.le_antisymm (Int32.not_lt.mp hle) hpos
    obtain ⟨hfirst, hgrowth, -⟩ := not_or.mp hgrants |>.imp_right not_or.mp
    obtain ⟨content, hcontent⟩ := Option.ne_none_iff_exists'.mp hfirst
    have hfault := printValue_empty item (S := ⟨false, format, hooks⟩) rfl (by simpa using hre)
      (fun size hsize ↦ hgrowth ⟨size, hsize⟩) hfits
    have hzero : (0 : Int32).toNatClampNeg = 0 := rfl
    simp [printBuffered, hcontent, hzero, Block.fresh, hfault] at h
  · intro h
    rcases printBuffered_returns_text item format hooks hpos h with ⟨⟨rest, hrest⟩, -⟩ | ⟨hnull, -⟩
    · rw [hrest]
      rfl
    · rw [hnull]
      rfl

theorem printBuffered_inside_iff_null :
    (printBuffered .null 0 true ⟨false, some fun _ ↦ 0, fun _ ↦ some fun _ ↦ 0, some fun _ ↦ 0⟩).isSome ↔
      (0 : Int32) < 0 ∨ false = true := by
  have hgrants : ¬(⟨false, some fun _ ↦ 0, fun _ ↦ some fun _ ↦ 0, some fun _ ↦ 0⟩ :
      PrintHooks).Refuses := by
    rintro (h | ⟨size, h⟩ | h)
    all_goals cases h
  exact printBuffered_inside_iff .null true _ (by decide) hgrants (by decide)

/-- Where the allocator refuses nothing, the printer over texts says what
`cJSON_PrintUnformatted` returns. -/
theorem print_refines_printUnformatted (hgrants : ¬hooks.Refuses) :
    print item false hooks = some ((printUnformatted (some item)).map fun s ↦ s.bytes ++ [0]) := by
  rw [printUnformatted_eq]
  obtain ⟨hprint, hfits⟩ | ⟨hprint, hlong⟩ := print_cases item false hooks
  · rw [renderAt_false] at hprint hfits
    rw [hprint, if_pos hfits]
    rfl
  · rw [renderAt_false] at hlong
    have hlong := hlong.resolve_right hgrants
    rw [hprint, if_neg (by omega)]
    rfl

end PrintBuffer

end LedaSdk.Json
