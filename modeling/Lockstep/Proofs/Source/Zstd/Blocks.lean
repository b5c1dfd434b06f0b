import Lockstep.Proofs.Source.Zstd.Written

/-! Written blocks as a frame takes them.

A frame keeps account of two ways of decoding, and blocks within the format's limits get through on
both. Its output buffer has room for what a block has still to give (`Frame.Holds`), and that stays
so when the buffer starts over, in the middle of a block or behind it (`Holds.settle`), because then
it has room for a whole block; a buffer that is large enough for the whole frame does not start
over. So no byte of a block breaks decoding off (`Holds.step_raw`, `Holds.step_repeated`), and
behind the last block the frame has the content that its header tells. Only a window for which there
is no memory breaks decoding as it arrives off, and that before the first block: then nothing of the
frame is given, unless it is decoded at once (`Holds.closes`). -/
namespace Lockstep.Zstd

theorem Outlet.put_cases (outlet : Outlet) (size : Nat) :
    ((outlet.put size).filled = 0 ∧ outlet.reserve ≠ none) ∨
      ((outlet.put size).filled = outlet.filled + size ∧
        ∀ limit ∈ outlet.reserve, outlet.filled + size + limit ≤ outlet.room) := by
  unfold put
  cases outlet.reserve with
  | none => exact .inr ⟨rfl, fun _ h => nomatch h⟩
  | some limit =>
    by_cases hroom : outlet.room < outlet.filled + size + limit
    · exact .inl ⟨by simp [hroom], by simp⟩
    · exact .inr ⟨by simp [hroom], by simpa using Nat.le_of_not_lt hroom⟩

namespace Frame

/-! ### What a frame holds -/

/-- A frame has given some bytes, and can give some more without starting its buffer over. -/
structure Holds (header : Header) (total : Nat) (frame : Frame) (given : List UInt8) (left : Nat) :
    Prop where
  headed : frame.header = header
  content : header.window ≤ windowMaximum ∨ frame.refused = none → frame.content = given.reverse
  produced : frame.produced = given.length
  broken : frame.broken =
    if windowMaximum < header.window then some ⟨.windowTooLarge, []⟩ else none
  /-- A frame that may be decoded at once is not refused. -/
  welcome : handover < total ∨ frame.refused = none
  room : frame.outlet.filled + frame.part + left ≤ frame.outlet.room
  /-- Where the buffer starts over, it has room for a block. -/
  reserved : ∀ limit ∈ frame.outlet.reserve,
    limit = header.blockLimit ∧ left ≤ limit ∧ limit ≤ frame.outlet.room
  /-- Where it does not, it has room for the frame. -/
  whole : frame.outlet.reserve = none →
    frame.outlet.filled + frame.part = given.length ∧ total ≤ frame.outlet.room

/-- Between blocks a frame can give any other block. -/
def Ready (header : Header) (total : Nat) (frame : Frame) (given : List UInt8) : Prop :=
  ∀ left ≤ header.blockLimit, given.length + left ≤ total → frame.Holds header total given left

section
variable {header : Header} {total : Nat} {frame : Frame} {given : List UInt8} {left : Nat}

theorem Holds.withStage (h : frame.Holds header total given left) (stage : Stage) :
    { frame with stage }.Holds header total given left := by
  obtain ⟨hheaded, hcontent, hproduced, hbroken, hwelcome, hroom, hreserved, hwhole⟩ := h
  exact ⟨hheaded, hcontent, hproduced, hbroken, hwelcome, hroom, hreserved, hwhole⟩

theorem Ready.withStage (h : frame.Ready header total given) (stage : Stage) :
    { frame with stage }.Ready header total given :=
  fun left hleft htotal => (h left hleft htotal).withStage stage

/-- The buffer is settled at the end of a block, and in the middle of one where an intake ends. -/
theorem Holds.settle (h : frame.Holds header total given left) {more : Nat}
    (hmore : more ≤ left ∨ more ≤ header.blockLimit ∧ given.length + more ≤ total) :
    frame.settle.Holds header total given more := by
  obtain ⟨hheaded, hcontent, hproduced, hbroken, hwelcome, hroom, hreserved, hwhole⟩ := h
  have hput := frame.outlet.put_cases frame.part
  refine ⟨hheaded, hcontent, hproduced, hbroken, hwelcome, ?_, ?_, ?_⟩
  · change (frame.outlet.put frame.part).filled + 0 + more ≤ frame.outlet.room
    cases hreserve : frame.outlet.reserve with
    | none =>
      obtain ⟨hfilled, hfits⟩ := hwhole hreserve
      rcases hput with ⟨_, hsome⟩ | ⟨hput, _⟩
      · exact absurd hreserve hsome
      · omega
    | some limit =>
      obtain ⟨hlimit, hleft, hfits⟩ := hreserved limit hreserve
      rcases hput with ⟨hput, _⟩ | ⟨hput, hspare⟩
      · omega
      · have hspare := hspare limit hreserve
        omega
  · intro limit hlimit
    obtain ⟨hblock, hleft, hfits⟩ := hreserved limit hlimit
    exact ⟨hblock, by omega, hfits⟩
  · intro hreserve
    obtain ⟨hfilled, hfits⟩ := hwhole hreserve
    rcases hput with ⟨_, hsome⟩ | ⟨hput, _⟩
    · exact absurd hreserve hsome
    · refine ⟨?_, hfits⟩
      change (frame.outlet.put frame.part).filled + 0 = given.length
      omega

theorem Holds.release (h : frame.Holds header total given left) :
    frame.release.Holds header total given left := by
  obtain ⟨hheaded, hcontent, hproduced, hbroken, hwelcome, hroom, hreserved, hwhole⟩ :=
    h.settle (.inl (Nat.le_refl left))
  exact ⟨hheaded, hcontent, hproduced, hbroken, hwelcome, hroom, hreserved, hwhole⟩

theorem Ready.release (h : frame.Ready header total given) :
    frame.release.Ready header total given :=
  fun left hleft htotal => (h left hleft htotal).release

/-- Behind a block the frame is ready for another one. -/
theorem Holds.ready_settle (h : frame.Holds header total given left) :
    frame.settle.Ready header total given :=
  fun _ hmore htotal => h.settle (.inr ⟨hmore, htotal⟩)

/-! ### Bytes of a block -/

theorem Holds.give (h : frame.Holds header total given left) {count : Nat} (hcount : count ≤ left)
    (b : UInt8) :
    (frame.give count b).Holds header total (given ++ List.replicate count b) (left - count) := by
  obtain ⟨hheaded, hcontent, hproduced, hbroken, hwelcome, hroom, hreserved, hwhole⟩ := h
  have hfits : ¬ frame.outlet.room < frame.outlet.filled + (frame.part + count) := by omega
  unfold Frame.give
  simp only [hfits, if_false]
  refine ⟨hheaded, ?_, ?_, hbroken, hwelcome, ?_, ?_, ?_⟩
  · intro hways
    have hwanted : (frame.broken.isNone || frame.refused.isNone) = true := by
      rcases hways with hwindow | hrefused
      · rw [hbroken, if_neg (Nat.not_lt.mpr hwindow)]
        rfl
      · change frame.refused = none at hrefused
        rw [hrefused]
        exact Bool.or_true _
    simp only [hwanted, if_true, hcontent hways, List.reverse_append, List.reverse_replicate]
  · simp [hproduced]
  · change frame.outlet.filled + (frame.part + count) + (left - count) ≤ frame.outlet.room
    omega
  · intro limit hlimit
    obtain ⟨hblock, hleft, hfits⟩ := hreserved limit hlimit
    exact ⟨hblock, by omega, hfits⟩
  · intro hreserve
    obtain ⟨hfilled, hfits⟩ := hwhole hreserve
    refine ⟨?_, hfits⟩
    rw [List.length_append, List.length_replicate]
    change frame.outlet.filled + (frame.part + count) = _
    omega

theorem Holds.isMiscounted_eq (h : frame.Holds header total given left)
    (hdeclared : ∀ size ∈ header.declared, size = total) (hgiven : given.length = total) :
    frame.isMiscounted = false := by
  rw [isMiscounted, h.headed, h.produced, hgiven]
  cases hsize : header.declared with
  | none => rfl
  | some size => simp [hdeclared size hsize]

/-- A frame at its end has its content, or there was no memory for its window. -/
def Closes (frame : Frame) (given : List UInt8) : Prop :=
  ∀ stop, frame.finish stop = .ok given.reverse ∨
    windowMaximum < frame.header.window ∧ frame.finish stop = .error ⟨.windowTooLarge, []⟩

/-- **The content of a frame is what its blocks gave**, on both ways. -/
theorem Holds.closes (h : frame.Holds header total given left)
    (hdeclared : ∀ size ∈ header.declared, size = total) (hgiven : given.length = total) :
    frame.Closes given := by
  intro stop
  rw [finish, h.isMiscounted_eq hdeclared hgiven, h.broken, h.headed]
  split
  · next hatOnce =>
    have hrefused : frame.refused = none := by
      rw [isAtOnce, h.headed, Bool.and_eq_true] at hatOnce
      obtain ⟨size, hsize, hsmall⟩ := Option.any_eq_true _ _ |>.mp hatOnce.1
      have htotal : total ≤ handover := hdeclared size hsize ▸ of_decide_eq_true hsmall
      exact h.welcome.resolve_left (Nat.not_lt.mpr htotal)
    rw [hrefused, h.content (.inr hrefused)]
    exact .inl rfl
  · by_cases hwindow : windowMaximum < header.window
    · rw [if_pos hwindow]
      exact .inr ⟨hwindow, rfl⟩
    · rw [if_neg hwindow, h.content (.inl (Nat.le_of_not_lt hwindow))]
      exact .inl rfl

/-- What a frame that is cut short gives is a front of what its blocks gave. -/
theorem Holds.cut_prefix (h : frame.Holds header total given left) (cause : ReadError) :
    ∃ front, (frame.cut cause).delivered = front.reverse ∧ front <+: given := by
  rw [Frame.cut, h.broken]
  by_cases hwindow : windowMaximum < header.window
  · rw [if_pos hwindow]
    exact ⟨[], rfl, List.nil_prefix⟩
  · rw [if_neg hwindow]
    exact ⟨given, h.content (.inl (Nat.le_of_not_lt hwindow)), List.prefix_rfl⟩

/-- Whether a frame goes on behind a block, ready for another one, or is at its end. -/
def Reaches (header : Header) (total : Nat) (given : List UInt8) (last : Bool) :
    Progress Frame → Prop
  | .going frame => last = false ∧ frame.stage = .header [] ∧ frame.Ready header total given
  | .ended frame => last = true ∧ frame.header = header ∧ frame.Closes given
  | .broken _ => False

theorem Ready.next (h : frame.Ready header total given)
    (hdeclared : ∀ size ∈ header.declared, size = total) (hgiven : given.length ≤ total)
    {block : Block} (hlast : block.last = true → given.length = total) :
    Reaches header total given block.last (frame.next block) := by
  have hholds := h 0 (Nat.zero_le _) hgiven
  rw [Frame.next]
  cases hblock : block.last with
  | true => exact ⟨rfl, hholds.headed, hholds.closes hdeclared (hlast hblock)⟩
  | false => exact ⟨rfl, rfl, h.withStage (.header [])⟩

/-! ### Steps through a written block -/

theorem Holds.reaches_closeBlock (h : frame.Holds header total given left)
    (hdeclared : ∀ size ∈ header.declared, size = total) (hgiven : given.length ≤ total)
    {block : Block} (hkind : block.kind ≠ .compressed)
    (hlast : block.last = true → given.length = total) :
    Reaches header total given block.last (frame.closeBlock block) := by
  have hsound : (block.kind == .compressed || block.last && frame.isMiscounted) = false := by
    rw [beq_false_of_ne hkind, Bool.false_or]
    cases hblock : block.last with
    | true => exact h.isMiscounted_eq hdeclared (hlast hblock)
    | false => rfl
  rw [closeBlock, hsound]
  exact h.ready_settle.next hdeclared hgiven hlast

/-- A byte of a block that is given as it is, and others behind it. -/
theorem Holds.step_raw (h : frame.Holds header total given left) {block : Block}
    (hstage : frame.stage = .data block left) (hkind : block.kind = .raw) (hleft : 1 < left)
    (b : UInt8) :
    ∃ next, frame.step b = .going next ∧ next.stage = .data block (left - 1) ∧
      next.Holds header total (given ++ [b]) (left - 1) := by
  refine ⟨{ frame.give 1 b with stage := .data block (left - 1) }, ?_, rfl,
    (h.give (by omega) b).withStage _⟩
  rw [step, hstage]
  simp only [takeByte, hkind, if_neg (Nat.not_le.mpr hleft)]

theorem Holds.step_raw_last (h : frame.Holds header total given 1) {block : Block}
    (hstage : frame.stage = .data block 1) (hkind : block.kind = .raw)
    (hdeclared : ∀ size ∈ header.declared, size = total) (hgiven : given.length + 1 ≤ total)
    (hlast : block.last = true → given.length + 1 = total) (b : UInt8) :
    Reaches header total (given ++ [b]) block.last (frame.step b) := by
  have hkind' : block.kind ≠ .compressed := by
    rw [hkind]
    decide
  have hstep : frame.step b = (frame.give 1 b).closeBlock block := by
    rw [step, hstage]
    simp only [takeByte, hkind, if_pos (Nat.le_refl 1)]
  rw [hstep]
  refine (h.give (Nat.le_refl 1) b).reaches_closeBlock hdeclared ?_ hkind' ?_
  · rwa [List.length_append]
  · rwa [List.length_append]

/-- The byte of a block that gives it over and over. -/
theorem Holds.step_repeated {block : Block} (h : frame.Holds header total given block.size)
    (hstage : frame.stage = .data block 1) (hkind : block.kind = .repeated)
    (hlimit : block.size ≤ header.blockLimit)
    (hdeclared : ∀ size ∈ header.declared, size = total)
    (hgiven : given.length + block.size ≤ total)
    (hlast : block.last = true → given.length + block.size = total) (b : UInt8) :
    Reaches header total (given ++ List.replicate block.size b) block.last (frame.step b) := by
  have hkind' : block.kind ≠ .compressed := by
    rw [hkind]
    decide
  have hgive := h.give (Nat.le_refl _) b
  have hstep : frame.step b = (frame.give block.size b).closeBlock block := by
    rw [step, hstage]
    simp only [takeByte, hkind, hgive.headed, if_pos (Nat.le_refl 1),
      if_neg (Nat.not_lt.mpr hlimit)]
  rw [hstep]
  refine hgive.reaches_closeBlock hdeclared ?_ hkind' ?_
  · rwa [List.length_append, List.length_replicate]
  · rwa [List.length_append, List.length_replicate]

/-- Bytes of a block's header, and others behind them. -/
theorem step_header {seen : List UInt8} (hstage : frame.stage = .header seen)
    (hseen : seen.length < 2) (b : UInt8) :
    frame.step b = .going { frame with stage := .header (seen ++ [b]) } := by
  have hlength : ¬ (seen ++ [b]).length = 3 := by
    rw [List.length_append, List.length_singleton]
    omega
  rw [step, hstage]
  simp only [if_neg hlength]

theorem step_number {first second third : UInt8} (hstage : frame.stage = .header [first, second]) :
    frame.step third = frame.openBlock (littleEndian [first, second, third]) := by
  rw [step, hstage]
  rfl

theorem Holds.weigh (h : frame.Holds header total given left) {block : Block}
    (hkind : block.kind ≠ .compressed) (htaken : block.taken ≤ header.blockLimit)
    (hsize : given.length + block.size ≤ total) :
    (frame.weigh block).Holds header total given left := by
  obtain ⟨hheaded, hcontent, hproduced, hbroken, hwelcome, hroom, hreserved, hwhole⟩ := h
  unfold Frame.weigh
  simp only [hheaded, if_neg (Nat.not_lt.mpr htaken), if_neg hkind]
  split
  · next hlarge =>
    have hrefused : (frame.refuse .noRoom).refused ≠ none := by
      simp only [refuse]
      cases frame.refused <;> exact Option.some_ne_none _
    exact ⟨hheaded, fun hways => hcontent (hways.imp_right fun h => absurd h hrefused), hproduced,
      hbroken, .inl (by omega), hroom, hreserved, hwhole⟩
  · exact ⟨hheaded, hcontent, hproduced, hbroken, hwelcome, hroom, hreserved, hwhole⟩

theorem Ready.weigh (h : frame.Ready header total given) {chunk : Chunk}
    (hchunk : chunk.Fits header.blockLimit) (hgiven : given.length + chunk.content.length ≤ total)
    (last : Bool) : (frame.weigh (chunk.block last)).Ready header total given := by
  have hkind : (chunk.block last).kind ≠ .compressed := by
    cases chunk <;> exact fun hkind => nomatch hkind
  exact fun left hleft htotal =>
    (h left hleft htotal).weigh hkind (chunk.taken_block last ▸ hchunk.2) hgiven

/-- Behind the header of a block that has nothing more. -/
theorem Ready.reaches_openBlock (h : frame.Ready header total given)
    (hdeclared : ∀ size ∈ header.declared, size = total) {chunk : Chunk}
    (hpayload : chunk.payload = []) (hchunk : chunk.Fits header.blockLimit)
    (hgiven : given.length + chunk.content.length ≤ total) {last : Bool}
    (hlast : last = true → given.length + chunk.content.length = total) :
    Reaches header total (given ++ chunk.content) last (frame.openBlock (chunk.number last)) := by
  have hweigh := h.weigh hchunk hgiven last
  have hcontent : chunk.content = [] := by
    cases chunk with
    | raw bytes => exact hpayload
    | repeated count b => cases hpayload
  simp only [openBlock, Chunk.ofHeader?_number, chunk.taken_block, hpayload, List.length_nil,
    if_true]
  rw [hcontent, List.append_nil]
  rw [hcontent] at hgiven hlast
  exact hweigh.next hdeclared hgiven hlast

/-- Behind the header of a block whose bytes follow. -/
theorem Ready.openBlock_eq (h : frame.Ready header total given) {chunk : Chunk}
    (hpayload : chunk.payload ≠ []) (hchunk : chunk.Fits header.blockLimit)
    (hgiven : given.length + chunk.content.length ≤ total) (last : Bool) :
    ∃ next, frame.openBlock (chunk.number last) = .going next ∧
      next.stage = .data (chunk.block last) chunk.payload.length ∧
      next.Holds header total given chunk.content.length := by
  have hweigh := h.weigh hchunk hgiven last
  have hlength : chunk.payload.length ≠ 0 :=
    fun hlength => hpayload (List.length_eq_zero_iff.mp hlength)
  simp only [openBlock, Chunk.ofHeader?_number, chunk.taken_block, if_neg hlength]
  exact ⟨_, rfl, rfl, (hweigh _ hchunk.1 hgiven).withStage _⟩

/-- **A frame begins with room for its blocks.** -/
theorem ready_begin (hdeclared : ∀ size ∈ header.declared, size = total) (start : Nat)
    (buffers : Buffers) :
    (begin header start buffers).Ready header total [] := by
  intro left hleft htotal
  rw [List.length_nil, Nat.zero_add] at htotal
  have houtput : min (header.declared.getD (max header.window 1024 + 2 * header.blockLimit + 64))
      (max header.window 1024 + 2 * header.blockLimit + 64) ≤ (fitted header buffers).output :=
    Buffers.le_output_fit ..
  -- The buffer holds the frame, or has room for two blocks.
  have hreserve : ((begin header start buffers).outlet.reserve = none ∧
        total ≤ (fitted header buffers).output) ∨
      ((begin header start buffers).outlet.reserve = some header.blockLimit ∧
        header.blockLimit ≤ (fitted header buffers).output) := by
    have hbegin : (begin header start buffers).outlet.reserve =
        if header.declared.all ((fitted header buffers).output < ·) then some header.blockLimit
        else none := rfl
    rw [hbegin]
    cases hsize : header.declared with
    | none =>
      rw [hsize, Option.getD_none] at houtput
      exact .inr ⟨rfl, by omega⟩
    | some size =>
      obtain rfl := hdeclared size hsize
      rw [hsize, Option.getD_some] at houtput
      by_cases hlarge : (fitted header buffers).output < size
      · exact .inr ⟨by simp [hlarge], by omega⟩
      · exact .inl ⟨by simp [hlarge], Nat.le_of_not_lt hlarge⟩
  have hroom : (begin header start buffers).outlet.room = (fitted header buffers).output := rfl
  refine ⟨rfl, fun _ => rfl, rfl, rfl, .inr rfl, ?_, ?_, ?_⟩
  · change 0 + 0 + left ≤ (fitted header buffers).output
    rcases hreserve with ⟨_, hfits⟩ | ⟨_, hfits⟩ <;> omega
  · intro limit hlimit
    rcases hreserve with ⟨hnone, _⟩ | ⟨hsome, hfits⟩
    · rw [hnone] at hlimit
      cases hlimit
    · rw [hsome] at hlimit
      obtain rfl := Option.some.inj hlimit
      exact ⟨rfl, hleft, hfits⟩
  · intro hnone
    rcases hreserve with ⟨_, hfits⟩ | ⟨hsome, _⟩
    · exact ⟨rfl, hfits⟩
    · rw [hnone] at hsome
      cases hsome

end

end Frame

end Lockstep.Zstd
