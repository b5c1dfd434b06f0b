import Mathlib.Data.List.Infix
import Lockstep.Proofs.Source.Zstd.Blocks

/-! Written files decoded.

A decoder takes a piece of a file from its first byte to its last one (`Takes`): before each byte in
between, a file that ended there would break off and give a front of the content, and behind the
last one the content of the piece has been delivered, or decoding has failed because there is no
memory for its window (`takes_piece`). So a file of pieces is decoded to its content
(`decode_written`) or, if a window is too large, fails (`decode_cases`), and what is left of it, cut
where no piece ends, breaks off (`decode_cut`). The end of an intake, which may come at any byte,
only settles the buffers of a frame. No byte takes back what was delivered before it
(`Decoder.Extends`), so of a file that is cut the pieces in front of the cut are handed over as a
whole (`prefix_decode`). That is what is relied on of a decoder (`reliable_decoder`). -/
namespace Lockstep.Zstd

/-- A phase outside the blocks of a frame: the end of an intake leaves it alone. -/
def Phase.IsQuiet : Phase → Prop
  | .magic _ | .skipSize _ | .skipping _ | .descriptor | .header _ _ | .failed _ => True
  | _ => False

namespace Decoder

variable {whole before : List UInt8} {decoder : Decoder}

theorem prefix_of_more {given more : List UInt8} (h : before ++ (given ++ more) <+: whole) :
    before ++ given <+: whole :=
  (List.prefix_append _ more).trans (List.append_assoc before given more ▸ h)

/-- A file that ends here breaks off, and has given a front of a content by then. -/
def BreaksOff (whole : List UInt8) (decoder : Decoder) : Prop :=
  ∃ delivered cause, decoder.finish none = { bytes := delivered, failure := some cause } ∧
    delivered <+: whole

/-- A decoder takes some bytes: a file that ends before one of them breaks off, and behind the last
one the decoder is as said. -/
def Takes (whole : List UInt8) (after : Decoder → Prop) : Decoder → List UInt8 → Prop
  | decoder, [] => after decoder
  | decoder, b :: bytes => decoder.BreaksOff whole ∧ Takes whole after (decoder.step b) bytes

namespace Takes

variable {middle after : Decoder → Prop} {front back bytes : List UInt8}

theorem append (h : Takes whole middle decoder front)
    (hback : ∀ decoder, middle decoder → Takes whole after decoder back) :
    Takes whole after decoder (front ++ back) := by
  induction front generalizing decoder with
  | nil => exact hback decoder h
  | cons b front ih => exact ⟨h.1, ih h.2⟩

theorem imp (h : Takes whole middle decoder bytes)
    (hafter : ∀ decoder, middle decoder → after decoder) : Takes whole after decoder bytes :=
  List.append_nil bytes ▸ h.append hafter

theorem foldl (h : Takes whole after decoder bytes) : after (bytes.foldl step decoder) := by
  induction bytes generalizing decoder with
  | nil => exact h
  | cons b bytes ih => exact ih h.2

theorem breaksOff (h : Takes whole after decoder (front ++ back)) (hback : back ≠ []) :
    BreaksOff whole (front.foldl step decoder) := by
  induction front generalizing decoder with
  | nil =>
    cases back with
    | nil => exact absurd rfl hback
    | cons b back => exact h.1
  | cons b front ih => exact ih h.2

end Takes

/-! ### Outside the blocks of a frame -/

/-- What a decoder takes in, and what it has delivered. -/
structure At (decoder : Decoder) (phase : Phase) (before : List UInt8) : Prop where
  phase : decoder.phase = phase
  output : decoder.output = before.reverse

theorem At.of_take {next : Phase} {b : UInt8} (hquiet : next.IsQuiet)
    (htake : ({ decoder with position := decoder.position + 1 }.take b).At next before) :
    (decoder.step b).At next before := by
  rw [Decoder.step]
  generalize { decoder with position := decoder.position + 1 }.take b = taken at htake ⊢
  split
  · obtain ⟨hphase, houtput⟩ := htake
    rw [release, hphase]
    cases next with
    | magic _ | skipSize _ | skipping _ | descriptor | header _ _ | failed _ =>
      exact ⟨hphase, houtput⟩
    | frame _ | legacyHeader _ _ | legacy _ => cases hquiet
  · exact htake

/-- A byte for which it does not matter where it is in the file. -/
theorem At.step {phase next : Phase} {after : List UInt8} (h : decoder.At phase before) {b : UInt8}
    (hquiet : next.IsQuiet)
    (hnext : ∀ decoder : Decoder, decoder.At phase before → (decoder.take b).At next after) :
    (decoder.step b).At next after :=
  At.of_take hquiet (hnext _ ⟨h.phase, h.output⟩)

/-- A file that ends in a piece breaks off, with what was delivered before. -/
theorem At.breaksOff {phase : Phase} (h : decoder.At phase before) (hquiet : phase.IsQuiet)
    (hphase : phase ≠ .magic []) (hbefore : before <+: whole) : decoder.BreaksOff whole := by
  obtain ⟨hat, houtput⟩ := h
  have hdelivered : ([] ++ decoder.output).reverse = before := by
    rw [houtput, List.nil_append, List.reverse_reverse]
  rw [BreaksOff, finish, hat]
  simp only [hdelivered]
  cases phase with
  | magic seen =>
    cases seen with
    | nil => exact absurd rfl hphase
    | cons b seen => exact ⟨_, _, rfl, hbefore⟩
  | skipSize _ | skipping _ | descriptor | header _ _ | failed _ => exact ⟨_, _, rfl, hbefore⟩
  | frame _ | legacyHeader _ _ | legacy _ => cases hquiet

/-- A decoder that has failed takes everything, and gives nothing more. -/
theorem takes_failed {cause : ReadError} (hbefore : before <+: whole) (bytes : List UInt8)
    (h : decoder.At (.failed cause) before) :
    Takes whole (·.At (.failed cause) before) decoder bytes := by
  induction bytes generalizing decoder with
  | nil => exact h
  | cons b bytes ih =>
    refine ⟨h.breaksOff trivial (by simp) hbefore, ih (h.step trivial fun decoder h => ?_)⟩
    rw [take, h.phase]
    exact h

/-- Bytes that are collected one by one. -/
theorem takes_collected (phase : List UInt8 → Phase) {all : List UInt8} {after : Decoder → Prop}
    (hquiet : ∀ seen, (phase seen).IsQuiet ∧ phase seen ≠ .magic []) (hbefore : before <+: whole)
    (hgoing : ∀ decoder : Decoder, ∀ seen b, seen.length + 1 < all.length →
      decoder.At (phase seen) before → (decoder.take b).At (phase (seen ++ [b])) before)
    (hlast : ∀ decoder : Decoder, ∀ seen b, seen ++ [b] = all →
      decoder.At (phase seen) before → after (decoder.step b))
    {seen bytes : List UInt8} (hall : seen ++ bytes = all) (hbytes : bytes ≠ [])
    (h : decoder.At (phase seen) before) : Takes whole after decoder bytes := by
  induction bytes generalizing seen decoder with
  | nil => exact absurd rfl hbytes
  | cons b bytes ih =>
    refine ⟨h.breaksOff (hquiet seen).1 (hquiet seen).2 hbefore, ?_⟩
    cases bytes with
    | nil => exact hlast decoder seen b hall h
    | cons c bytes =>
      have hlength : seen.length + 1 < all.length := by
        rw [← hall, List.length_append, List.length_cons, List.length_cons]
        omega
      have hall' : (seen ++ [b]) ++ c :: bytes = all := by
        rw [List.append_assoc]
        exact hall
      refine ih hall' (List.cons_ne_nil _ _) ?_
      exact h.step (hquiet _).1 fun decoder h => hgoing decoder seen b hlength h

/-- The four bytes of a magic number. -/
theorem takes_number {first second third fourth : UInt8} {next : Phase} (hquiet : next.IsQuiet)
    (hfirst : ∀ decoder : Decoder,
      decoder.takeMagic [] first = { decoder with phase := .magic [first] })
    (hsecond : ∀ decoder : Decoder,
      decoder.takeMagic [first] second = { decoder with phase := .magic [first, second] })
    (hthird : ∀ decoder : Decoder, decoder.takeMagic [first, second] third =
      { decoder with phase := .magic [first, second, third] })
    (hfourth : ∀ decoder : Decoder,
      decoder.takeMagic [first, second, third] fourth = { decoder with phase := next })
    (hbefore : before <+: whole) (h : decoder.At (.magic []) before) :
    Takes whole (·.At next before) (decoder.step first) [second, third, fourth] := by
  have htake : ∀ {seen : List UInt8} {b : UInt8} {next : Phase} {decoder : Decoder},
      (∀ decoder : Decoder, decoder.takeMagic seen b = { decoder with phase := next }) →
        decoder.At (.magic seen) before → (decoder.take b).At next before := by
    intro seen b next decoder hmagic h
    rw [take, h.phase]
    simp only [hmagic]
    exact ⟨rfl, h.output⟩
  have hone : (decoder.step first).At (.magic [first]) before :=
    h.step trivial fun _ => htake hfirst
  have htwo : ((decoder.step first).step second).At (.magic [first, second]) before :=
    hone.step trivial fun _ => htake hsecond
  have hthree : (((decoder.step first).step second).step third).At
      (.magic [first, second, third]) before := htwo.step trivial fun _ => htake hthird
  exact ⟨hone.breaksOff trivial (by simp) hbefore, htwo.breaksOff trivial (by simp) hbefore,
    hthree.breaksOff trivial (by simp) hbefore, hthree.step hquiet fun _ => htake hfourth⟩

/-! ### Skippable frames -/

/-- The magic number of a skippable frame. -/
def mark (variant : Fin 16) : List UInt8 := skippableMagic (UInt8.ofNat (0x50 + variant.val))

theorem begins_mark : ∀ variant : Fin 16, ∀ n < 4,
    Legacy.Version.ofMagic? ((mark variant).take n) = none ∧ (mark variant).take (n + 1) ≠ magic ∧
      beginsSkippable ((mark variant).take (n + 1)) = true := by
  decide +kernel

/-- A byte of the magic number, behind those before it. -/
theorem takeMagic_mark (variant : Fin 16) (n : Nat) (hn : n < 4) {seen : List UInt8} {b : UInt8}
    (hseen : seen = (mark variant).take n) (hb : seen ++ [b] = (mark variant).take (n + 1))
    (decoder : Decoder) :
    decoder.takeMagic seen b =
      { decoder with phase := if n = 3 then .skipSize [] else .magic (seen ++ [b]) } := by
  obtain ⟨hversion, hmagic, hbegins⟩ := begins_mark variant n hn
  have hlength : (seen ++ [b]).length = n + 1 := by
    rw [hb, List.length_take]
    exact Nat.min_eq_left hn
  rw [← hseen] at hversion
  rw [← hb] at hmagic hbegins
  simp only [takeMagic, hversion, if_neg hmagic, hbegins, if_true, hlength, Nat.reduceEqDiff]

theorem At.skip {size : Nat} (h : decoder.At (.skipping (size + 1)) before) (b : UInt8) :
    (decoder.step b).At (if size = 0 then .magic [] else .skipping size) before := by
  have htake : ∀ decoder : Decoder, decoder.At (.skipping (size + 1)) before →
      (decoder.take b).At (if size = 0 then .magic [] else .skipping size) before := by
    intro decoder h
    rw [take, h.phase]
    simp only [Nat.add_sub_cancel, Decoder.skip]
    split
    · exact ⟨rfl, h.output⟩
    · exact ⟨rfl, h.output⟩
  refine h.step ?_ htake
  split <;> trivial

theorem takes_skipped {data : List UInt8} (hdata : data ≠ []) (hbefore : before <+: whole)
    (h : decoder.At (.skipping data.length) before) :
    Takes whole (·.At (.magic []) before) decoder data := by
  induction data generalizing decoder with
  | nil => exact absurd rfl hdata
  | cons b data ih =>
    refine ⟨h.breaksOff trivial (by simp) hbefore, ?_⟩
    have hskip := h.skip b
    cases data with
    | nil => exact hskip
    | cons c data => exact ih (List.cons_ne_nil c data) hskip

theorem takes_mark (variant : Fin 16) (hbefore : before <+: whole)
    (h : decoder.At (.magic []) before) :
    Takes whole (·.At (.skipSize []) before)
      (decoder.step (UInt8.ofNat (0x50 + variant.val))) [0x2A, 0x4D, 0x18] :=
  takes_number trivial (takeMagic_mark variant 0 (by decide) rfl rfl)
    (takeMagic_mark variant 1 (by decide) rfl rfl) (takeMagic_mark variant 2 (by decide) rfl rfl)
    (takeMagic_mark variant 3 (by decide) rfl rfl) hbefore h

/-- Behind the size of a skippable frame. -/
theorem At.openSkippable {seen : List UInt8} {b : UInt8} (hseen : (seen ++ [b]).length = 4)
    (h : decoder.At (.skipSize seen) before) :
    (decoder.step b).At
      (if littleEndian (seen ++ [b]) = 0 then .magic [] else .skipping (littleEndian (seen ++ [b])))
      before := by
  refine h.step ?_ fun decoder h => ?_
  · split <;> trivial
  · rw [take, h.phase]
    simp only [if_pos hseen, Decoder.openSkippable, Decoder.skip]
    split
    · exact ⟨rfl, h.output⟩
    · exact ⟨rfl, h.output⟩

/-- **A skippable frame gives nothing.** -/
theorem takes_skippable (variant : Fin 16) {data : List UInt8} (hdata : data.length < UInt32.size)
    (hbefore : before <+: whole) (h : decoder.At (.magic []) before) :
    ∃ first rest, (Piece.skippable variant data).bytes = first :: rest ∧
      Takes whole (·.At (.magic []) before) (decoder.step first) rest := by
  have hsize : littleEndian (toBytes 4 data.length) = data.length := littleEndian_toBytes hdata
  refine ⟨UInt8.ofNat (0x50 + variant.val), [0x2A, 0x4D, 0x18] ++ (toBytes 4 data.length ++ data),
    rfl, (takes_mark variant hbefore h).append fun decoder h => ?_⟩
  have hcollected : Takes whole
      (·.At (if data.length = 0 then .magic [] else .skipping data.length) before) decoder
      (toBytes 4 data.length) := by
    refine takes_collected .skipSize (fun _ => ⟨trivial, by simp⟩) hbefore ?_ ?_ (List.nil_append _)
      (by simp [toBytes]) h
    · intro decoder seen b hlength h
      rw [length_toBytes] at hlength
      have hgoing : ¬ (seen ++ [b]).length = 4 := by
        rw [List.length_append, List.length_singleton]
        omega
      rw [take, h.phase]
      simp only [if_neg hgoing]
      exact ⟨rfl, h.output⟩
    · intro decoder seen b hall h
      have hopen := h.openSkippable (hall ▸ length_toBytes 4 data.length)
      rwa [hall, hsize] at hopen
  refine hcollected.append fun decoder h => ?_
  cases data with
  | nil => exact h
  | cons b data => exact takes_skipped (List.cons_ne_nil b data) hbefore h

/-! ### In the blocks of a frame -/

/-- A frame is being decoded, of which something holds. -/
def InFrame (decoder : Decoder) (before : List UInt8) (holds : Frame → Prop) : Prop :=
  ∃ frame, decoder.At (.frame frame) before ∧ holds frame

section
variable {holds next : Frame → Prop} {b : UInt8}

/-- A file that ends in a frame breaks off, with a front of what its blocks gave. -/
theorem InFrame.breaksOff {header : Header} {total : Nat} {given : List UInt8}
    (h : decoder.InFrame before holds)
    (hholds : ∀ frame, holds frame → ∃ left, frame.Holds header total given left)
    (hwhole : before ++ given <+: whole) : decoder.BreaksOff whole := by
  obtain ⟨frame, ⟨hphase, houtput⟩, hframe⟩ := h
  obtain ⟨left, hgiven⟩ := hholds frame hframe
  obtain ⟨front, hcut, hfront⟩ := hgiven.cut_prefix .incompleteFrame
  refine ⟨before ++ front, (frame.cut .incompleteFrame).cause, ?_,
    ((List.prefix_append_right_inj before).mpr hfront).trans hwhole⟩
  rw [finish, hphase]
  simp only [Option.getD_none, hcut, houtput, List.reverse_append, List.reverse_reverse]

/-- The end of an intake may follow any byte of a frame. -/
theorem At.step_going {frame frame' : Frame} (h : decoder.At (.frame frame) before)
    (hstep : frame.step b = .going frame') :
    (decoder.step b).At (.frame frame') before ∨
      (decoder.step b).At (.frame frame'.release) before := by
  obtain ⟨hphase, houtput⟩ := h
  rw [Decoder.step, take]
  simp only [hphase, hstep, advance]
  split
  · exact .inr ⟨rfl, houtput⟩
  · exact .inl ⟨rfl, houtput⟩

theorem InFrame.step (h : decoder.InFrame before holds)
    (hstep : ∀ frame, holds frame → ∃ frame', frame.step b = .going frame' ∧ next frame')
    (hrelease : ∀ frame, next frame → next frame.release) :
    (decoder.step b).InFrame before next := by
  obtain ⟨frame, hat, hholds⟩ := h
  obtain ⟨frame', hgoing, hnext⟩ := hstep frame hholds
  rcases hat.step_going hgoing with hat' | hat'
  · exact ⟨frame', hat', hnext⟩
  · exact ⟨frame'.release, hat', hrelease frame' hnext⟩

end

/-- There is no memory for a window, and decoding has failed. -/
def GivesUp (header : Header) (before : List UInt8) (decoder : Decoder) : Prop :=
  windowMaximum < header.window ∧ decoder.At (.failed .windowTooLarge) before

/-- Behind a block the decoder goes on with the frame, or the frame is delivered, or given up. -/
def After (header : Header) (total : Nat) (before given : List UInt8) (last : Bool)
    (decoder : Decoder) : Prop :=
  decoder.GivesUp header before ∨
    if last then decoder.At (.magic []) (before ++ given)
    else decoder.InFrame before fun frame =>
      frame.stage = .header [] ∧ frame.Ready header total given

section
variable {header : Header} {total : Nat} {given : List UInt8} {last : Bool} {b : UInt8}

theorem GivesUp.takes {after : Decoder → Prop} (h : decoder.GivesUp header before)
    (hbefore : before <+: whole) (hafter : ∀ decoder, decoder.GivesUp header before → after decoder)
    (bytes : List UInt8) : Takes whole after decoder bytes :=
  (takes_failed hbefore bytes h.2).imp fun decoder hfailed => hafter decoder ⟨h.1, hfailed⟩

/-- The last byte of a frame. -/
theorem At.step_ended {frame frame' : Frame} (h : decoder.At (.frame frame) before)
    (hstep : frame.step b = .ended frame') (hheader : frame'.header = header)
    (hcloses : frame'.Closes given) : After header total before given true (decoder.step b) := by
  obtain ⟨hphase, houtput⟩ := h
  rcases hcloses (decoder.position + 1) with hfinish | ⟨hwindow, hfinish⟩
  · refine .inr (At.of_take trivial ?_)
    simp only [take, hphase, hstep, advance, closeFrame, hfinish]
    refine ⟨rfl, ?_⟩
    rw [List.reverse_append, ← houtput]
    rfl
  · refine .inl ⟨hheader ▸ hwindow, At.of_take trivial ?_⟩
    simp only [take, hphase, hstep, advance, closeFrame, hfinish]
    exact ⟨rfl, houtput⟩

theorem InFrame.step_reaches {holds : Frame → Prop} (h : decoder.InFrame before holds)
    (hreaches : ∀ frame, holds frame → Frame.Reaches header total given last (frame.step b)) :
    After header total before given last (decoder.step b) := by
  obtain ⟨frame, hat, hholds⟩ := h
  have hstep := hreaches frame hholds
  cases hprogress : frame.step b with
  | going frame' =>
    rw [hprogress] at hstep
    obtain ⟨rfl, hstage, hready⟩ := hstep
    rcases hat.step_going hprogress with hat' | hat'
    · exact .inr ⟨frame', hat', hstage, hready⟩
    · exact .inr ⟨frame'.release, hat', hstage, hready.release⟩
  | ended frame' =>
    rw [hprogress] at hstep
    obtain ⟨rfl, hheader, hcloses⟩ := hstep
    exact hat.step_ended hprogress hheader hcloses
  | broken _ =>
    rw [hprogress] at hstep
    cases hstep

theorem InFrame.step_header {seen : List UInt8} (hseen : seen.length < 2)
    (h : decoder.InFrame before fun frame =>
      frame.stage = .header seen ∧ frame.Ready header total given) :
    (decoder.step b).InFrame before fun frame =>
      frame.stage = .header (seen ++ [b]) ∧ frame.Ready header total given :=
  h.step (fun _ hholds => ⟨_, Frame.step_header hholds.1 hseen b, rfl, hholds.2.withStage _⟩)
    fun _ hholds => ⟨hholds.1, hholds.2.release⟩

/-- The three bytes of a block's header. -/
theorem takes_header {after : Decoder → Prop} {first second third : UInt8}
    (hwhole : before ++ given <+: whole) (htotal : given.length ≤ total)
    (h : decoder.InFrame before fun frame =>
      frame.stage = .header [] ∧ frame.Ready header total given)
    (hthird : ∀ decoder : Decoder, (decoder.InFrame before fun frame =>
      frame.stage = .header [first, second] ∧ frame.Ready header total given) →
        after (decoder.step third)) :
    Takes whole after decoder [first, second, third] := by
  have hholds : ∀ frame : Frame, frame.Ready header total given →
      ∃ left, frame.Holds header total given left :=
    fun frame hready => ⟨0, hready 0 (Nat.zero_le _) htotal⟩
  have hsecond : (decoder.step first).InFrame before fun frame =>
      frame.stage = .header [first] ∧ frame.Ready header total given := h.step_header (by decide)
  have hnumber : ((decoder.step first).step second).InFrame before fun frame =>
      frame.stage = .header [first, second] ∧ frame.Ready header total given :=
    hsecond.step_header (by simp)
  exact ⟨h.breaksOff (fun frame hframe => hholds frame hframe.2) hwhole,
    hsecond.breaksOff (fun frame hframe => hholds frame hframe.2) hwhole,
    hnumber.breaksOff (fun frame hframe => hholds frame hframe.2) hwhole, hthird _ hnumber⟩

/-- Bytes that a block gives as they are. -/
theorem takes_raw {block : Block} (hkind : block.kind = .raw)
    (hdeclared : ∀ size ∈ header.declared, size = total) {bytes : List UInt8} (hbytes : bytes ≠ [])
    (hgiven : given.length + bytes.length ≤ total)
    (hlast : block.last = true → given.length + bytes.length = total)
    (hwhole : before ++ (given ++ bytes) <+: whole)
    (h : decoder.InFrame before fun frame =>
      frame.stage = .data block bytes.length ∧ frame.Holds header total given bytes.length) :
    Takes whole (After header total before (given ++ bytes) block.last) decoder bytes := by
  induction bytes generalizing given decoder with
  | nil => exact absurd rfl hbytes
  | cons b bytes ih =>
    refine ⟨h.breaksOff (fun frame hholds => ⟨_, hholds.2⟩) (prefix_of_more hwhole), ?_⟩
    cases bytes with
    | nil =>
      exact h.step_reaches fun frame hholds =>
        hholds.2.step_raw_last hholds.1 hkind hdeclared hgiven hlast b
    | cons c bytes =>
      rw [List.append_cons] at hwhole ⊢
      have hlength : (given ++ [b]).length + (c :: bytes).length =
          given.length + (b :: c :: bytes).length := by
        simp only [List.length_append, List.length_cons, List.length_nil]
        omega
      refine ih (List.cons_ne_nil c bytes) (hlength ▸ hgiven) (hlength ▸ hlast) hwhole ?_
      refine h.step (fun frame hholds => ?_) fun frame hholds => ⟨hholds.1, hholds.2.release⟩
      exact hholds.2.step_raw hholds.1 hkind (by simp) b

/-- What follows the header of a written block. -/
theorem takes_payload {chunk : Chunk} (hchunk : chunk.Fits header.blockLimit)
    (hdeclared : ∀ size ∈ header.declared, size = total) (hpayload : chunk.payload ≠ [])
    (hgiven : given.length + chunk.content.length ≤ total)
    (hlast : last = true → given.length + chunk.content.length = total)
    (hwhole : before ++ (given ++ chunk.content) <+: whole)
    (h : decoder.InFrame before fun frame =>
      frame.stage = .data (chunk.block last) chunk.payload.length ∧
        frame.Holds header total given chunk.content.length) :
    Takes whole (After header total before (given ++ chunk.content) last) decoder
      chunk.payload := by
  cases chunk with
  | raw bytes => exact takes_raw rfl hdeclared hpayload hgiven hlast hwhole h
  | repeated count b =>
    refine ⟨h.breaksOff (fun frame hholds => ⟨_, hholds.2⟩) (prefix_of_more hwhole),
      h.step_reaches ?_⟩
    intro frame hholds
    have hreaches := @Frame.Holds.step_repeated header total frame given
      ((Chunk.repeated count b).block last) hholds.2 hholds.1 rfl hchunk.1 hdeclared hgiven hlast b
    have hsize : ((Chunk.repeated count b).block last).size = count := List.length_replicate
    rwa [hsize] at hreaches

/-- **A written block gives its content.** -/
theorem takes_chunk {chunk : Chunk} (hchunk : chunk.Fits header.blockLimit)
    (hdeclared : ∀ size ∈ header.declared, size = total)
    (hgiven : given.length + chunk.content.length ≤ total)
    (hlast : last = true → given.length + chunk.content.length = total)
    (hwhole : before ++ (given ++ chunk.content) <+: whole)
    (h : After header total before given false decoder) :
    Takes whole (After header total before (given ++ chunk.content) last) decoder
      (chunk.bytes last) := by
  have hfront : before ++ given <+: whole := prefix_of_more hwhole
  rcases h with hgivesUp | h
  · exact hgivesUp.takes ((List.prefix_append _ _).trans hfront) (fun _ => .inl) _
  have hnumber : littleEndian (toBytes 3 (chunk.number last)) = chunk.number last :=
    littleEndian_toBytes (Chunk.number_lt (hchunk.1.trans (Nat.min_le_right _ _)) last)
  obtain ⟨first, second, third, hbytes⟩ : ∃ first second third,
      toBytes 3 (chunk.number last) = [first, second, third] := ⟨_, _, _, rfl⟩
  rw [hbytes] at hnumber
  rw [Chunk.bytes, hbytes]
  by_cases hpayload : chunk.payload = []
  · rw [hpayload, List.append_nil]
    refine takes_header hfront (by omega) h fun decoder h => h.step_reaches fun frame hframe => ?_
    rw [Frame.step_number hframe.1, hnumber]
    exact hframe.2.reaches_openBlock hdeclared hpayload hchunk hgiven hlast
  · refine (takes_header hfront (by omega) h fun decoder h => ?_).append
      fun decoder h => takes_payload hchunk hdeclared hpayload hgiven hlast hwhole h
    refine h.step (fun frame hframe => ?_) fun frame hframe => ⟨hframe.1, hframe.2.release⟩
    rw [Frame.step_number hframe.1, hnumber]
    exact hframe.2.openBlock_eq hpayload hchunk hgiven last

theorem takes_chunks {chunks : List Chunk}
    (hchunks : ∀ chunk ∈ chunks, chunk.Fits header.blockLimit)
    (hdeclared : ∀ size ∈ header.declared, size = total)
    (hgiven : given.length + (chunks.flatMap Chunk.content).length ≤ total)
    (hwhole : before ++ (given ++ chunks.flatMap Chunk.content) <+: whole)
    (h : After header total before given false decoder) :
    Takes whole (After header total before (given ++ chunks.flatMap Chunk.content) false) decoder
      (chunks.flatMap (Chunk.bytes false)) := by
  induction chunks generalizing given decoder with
  | nil =>
    rw [List.flatMap_nil, List.append_nil]
    exact h
  | cons chunk chunks ih =>
    obtain ⟨hchunk, hchunks⟩ := List.forall_mem_cons.mp hchunks
    rw [List.flatMap_cons, List.length_append] at hgiven
    rw [List.flatMap_cons, ← List.append_assoc given] at hwhole
    rw [List.flatMap_cons, List.flatMap_cons, ← List.append_assoc]
    refine (takes_chunk hchunk hdeclared (by omega) (fun hlast => by cases hlast)
      (prefix_of_more hwhole) h).append fun decoder h => ?_
    exact ih hchunks (by rw [List.length_append]; omega) hwhole h

end

/-! ### Whole frames -/

theorem takes_magic (hbefore : before <+: whole) (h : decoder.At (.magic []) before) :
    Takes whole (·.At .descriptor before) (decoder.step 0x28) [0xB5, 0x2F, 0xFD] :=
  takes_number trivial (fun _ => rfl) (fun _ => rfl) (fun _ => rfl) (fun _ => rfl) hbefore h

/-- Behind the header of a frame. -/
theorem At.openFrame {written : Written} (hfits : written.Fits) {seen : List UInt8} {b : UInt8}
    (hseen : seen ++ [b] = written.form.fields written.content.length)
    (h : decoder.At (.header written.form.descriptor seen) before) :
    After written.header written.content.length before [] false (decoder.step b) := by
  obtain ⟨hphase, houtput⟩ := h
  have hlength := Form.length_fields written.form written.content.length
  rcases Form.read_form hfits.1 with hread | ⟨hwindow, hread⟩
  · have hready := Frame.ready_begin written.declared_eq
    rw [Decoder.step, take]
    simp only [hphase, hseen, hlength, if_true, Decoder.openFrame, hread]
    split
    · exact .inr ⟨_, ⟨rfl, houtput⟩, rfl, (hready _ _).release⟩
    · exact .inr ⟨_, ⟨rfl, houtput⟩, rfl, hready _ _⟩
  · refine .inl ⟨hwindow, At.of_take trivial ?_⟩
    simp only [take, hphase, hseen, hlength, if_true, Decoder.openFrame, hread]
    exact ⟨rfl, houtput⟩

/-- The header of a written frame. -/
theorem takes_descriptor {written : Written} (hfits : written.Fits) (hbefore : before <+: whole)
    (h : decoder.At .descriptor before) :
    Takes whole (After written.header written.content.length before [] false) decoder
      (written.form.descriptor :: written.form.fields written.content.length) := by
  have hdescriptor : (decoder.step written.form.descriptor).At
      (.header written.form.descriptor []) before := by
    refine h.step trivial fun decoder h => ?_
    rw [take, h.phase]
    exact ⟨rfl, h.output⟩
  refine ⟨h.breaksOff trivial (by simp) hbefore, ?_⟩
  refine takes_collected (.header written.form.descriptor) (fun _ => ⟨trivial, by simp⟩) hbefore
    ?_ (fun decoder seen b hall h => h.openFrame hfits hall) (List.nil_append _)
    (written.form.fields_ne_nil _) hdescriptor
  intro decoder seen b hlength h
  rw [Form.length_fields] at hlength
  have hgoing : ¬ (seen ++ [b]).length = written.form.descriptor.fieldBytes := by
    rw [List.length_append, List.length_singleton]
    omega
  rw [take, h.phase]
  simp only [if_neg hgoing]
  exact ⟨rfl, h.output⟩

/-- The blocks of a written frame. -/
theorem takes_blocks {written : Written} (hfits : written.Fits)
    (hwhole : before ++ written.content <+: whole)
    (h : After written.header written.content.length before [] false decoder) :
    Takes whole (After written.header written.content.length before written.content true) decoder
      (written.front.flatMap (Chunk.bytes false) ++ written.last.bytes true) := by
  obtain ⟨hfront, hlast⟩ := List.forall_mem_append.mp hfits.2
  have hcontent : written.content =
      written.front.flatMap Chunk.content ++ written.last.content := by
    rw [Written.content, Written.chunks, List.flatMap_append, List.flatMap_singleton]
  have hlength : (written.front.flatMap Chunk.content).length + written.last.content.length =
      written.content.length := by
    rw [hcontent, List.length_append]
  have hblocks := hcontent ▸ hwhole
  refine (takes_chunks hfront written.declared_eq (by rw [List.length_nil]; omega)
    (prefix_of_more hblocks) h).append fun decoder h => ?_
  rw [List.nil_append] at h
  have htakes := @takes_chunk whole before decoder _ _ _ true _ (hlast _ List.mem_cons_self)
    written.declared_eq (Nat.le_of_eq hlength) (fun _ => hlength) hblocks h
  rwa [← hcontent] at htakes

/-- Behind a piece its content has been delivered, or there was no memory for its window. -/
def Behind (before : List UInt8) (piece : Piece) (decoder : Decoder) : Prop :=
  decoder.At (.magic []) (before ++ piece.content) ∨
    ¬ piece.IsAffordable ∧ decoder.At (.failed .windowTooLarge) before

/-- **A written frame gives its content.** -/
theorem takes_frame {written : Written} (hfits : written.Fits)
    (hwhole : before ++ written.content <+: whole) (h : decoder.At (.magic []) before) :
    ∃ first rest, (Piece.frame written).bytes = first :: rest ∧
      Takes whole (Behind before (.frame written)) (decoder.step first) rest := by
  have hbefore : before <+: whole := (List.prefix_append _ _).trans hwhole
  refine ⟨0x28, [0xB5, 0x2F, 0xFD] ++
    ((written.form.descriptor :: written.form.fields written.content.length) ++
      (written.front.flatMap (Chunk.bytes false) ++ written.last.bytes true)), ?_, ?_⟩
  · simp [Piece.bytes, Written.bytes, magic]
  · refine (takes_magic hbefore h).append fun decoder h => ?_
    refine (takes_descriptor hfits hbefore h).append fun decoder h => ?_
    refine (takes_blocks hfits hwhole h).imp fun decoder h => ?_
    exact h.symm.imp_right fun hgivesUp => ⟨Nat.not_le.mpr hgivesUp.1, hgivesUp.2⟩

/-! ### A piece -/

/-- **A piece gives its content**, or there is no memory for it. -/
theorem takes_piece {piece : Piece} (hfits : piece.Fits)
    (hwhole : before ++ piece.content <+: whole) (h : decoder.At (.magic []) before) :
    ∃ first rest, piece.bytes = first :: rest ∧
      Takes whole (Behind before piece) (decoder.step first) rest := by
  cases piece with
  | frame written => exact takes_frame hfits hwhole h
  | skippable variant data =>
    rw [Piece.content, List.append_nil] at hwhole
    obtain ⟨first, rest, hbytes, htakes⟩ := takes_skippable variant hfits hwhole h
    refine ⟨first, rest, hbytes, htakes.imp fun decoder h => .inl ?_⟩
    rwa [Piece.content, List.append_nil]

/-! ### What was delivered stays -/

/-- What a byte does to a decoder, but for its place in the file: all that was delivered stays. -/
structure Extends (decoder next : Decoder) : Prop where
  position : next.position = decoder.position
  output : decoder.output <:+ next.output

theorem extends_of_output {next : Decoder} (hposition : next.position = decoder.position)
    (houtput : next.output = decoder.output) : decoder.Extends next :=
  ⟨hposition, houtput ▸ List.suffix_rfl⟩

theorem extends_skip (decoder : Decoder) (size : Nat) : decoder.Extends (decoder.skip size) := by
  unfold skip
  split
  · exact ⟨rfl, List.suffix_append _ _⟩
  · exact extends_of_output rfl rfl

theorem extends_openSkippable (decoder : Decoder) (size : Nat) :
    decoder.Extends (decoder.openSkippable size) := by
  obtain ⟨hposition, houtput⟩ :=
    extends_skip { decoder with buffers := Frame.fitted ⟨some size, 0⟩ decoder.buffers } size
  exact ⟨hposition, houtput⟩

theorem extends_openFrame (decoder : Decoder) (d : Descriptor) (fields : List UInt8) :
    decoder.Extends (decoder.openFrame d fields) := by
  unfold openFrame
  split <;> exact extends_of_output rfl rfl

theorem extends_advance (decoder : Decoder) (progress : Progress Frame) :
    decoder.Extends (decoder.advance progress) := by
  cases progress with
  | going _ => exact extends_of_output rfl rfl
  | ended frame =>
    change decoder.Extends (decoder.closeFrame frame)
    unfold closeFrame
    split <;> exact ⟨rfl, List.suffix_append _ _⟩
  | broken _ => exact ⟨rfl, List.suffix_append _ _⟩

theorem extends_openLegacy (decoder : Decoder) (version : Legacy.Version) (seen : List UInt8) :
    decoder.Extends (decoder.openLegacy version seen) := by
  unfold openLegacy
  simp only
  split
  · exact extends_of_output rfl rfl
  · split <;> exact extends_of_output rfl rfl

theorem extends_advanceLegacy (decoder : Decoder) (progress : Progress Legacy.Frame) :
    decoder.Extends (decoder.advanceLegacy progress) := by
  cases progress with
  | going _ => exact extends_of_output rfl rfl
  | ended _ | broken _ => exact ⟨rfl, List.suffix_append _ _⟩

theorem extends_takeMagic (decoder : Decoder) (seen : List UInt8) (b : UInt8) :
    decoder.Extends (decoder.takeMagic seen b) := by
  unfold takeMagic
  split
  · split
    · exact extends_openLegacy decoder _ _
    · exact extends_of_output rfl rfl
  · simp only
    split
    · exact extends_of_output rfl rfl
    · split
      · exact extends_of_output rfl rfl
      · split <;> exact extends_of_output rfl rfl

theorem extends_take (decoder : Decoder) (b : UInt8) : decoder.Extends (decoder.take b) := by
  unfold take
  split
  · exact extends_takeMagic decoder _ b
  · simp only
    split
    · exact extends_openSkippable decoder _
    · exact extends_of_output rfl rfl
  · exact extends_skip decoder _
  · exact extends_of_output rfl rfl
  · simp only
    split
    · exact extends_openFrame decoder _ _
    · exact extends_of_output rfl rfl
  · exact extends_advance decoder _
  · exact extends_openLegacy decoder _ _
  · exact extends_advanceLegacy decoder _
  · exact extends_of_output rfl rfl

theorem extends_release (decoder : Decoder) : decoder.Extends decoder.release := by
  unfold release
  split
  · exact extends_of_output rfl rfl
  · exact extends_advanceLegacy decoder _
  · exact extends_of_output rfl rfl

/-- Every byte is counted, and takes nothing back. -/
theorem extends_step (decoder : Decoder) (b : UInt8) :
    { decoder with position := decoder.position + 1 }.Extends (decoder.step b) := by
  have htake := extends_take { decoder with position := decoder.position + 1 } b
  unfold step
  simp only
  split
  · have hrelease := extends_release ({ decoder with position := decoder.position + 1 }.take b)
    exact ⟨hrelease.position.trans htake.position, htake.output.trans hrelease.output⟩
  · exact htake

theorem extends_foldl (bytes : List UInt8) (decoder : Decoder) :
    { decoder with position := decoder.position + bytes.length }.Extends
      (bytes.foldl step decoder) := by
  induction bytes generalizing decoder with
  | nil => exact extends_of_output rfl rfl
  | cons b bytes ih =>
    have hstep := extends_step decoder b
    have hrest := ih (decoder.step b)
    refine ⟨hrest.position.trans ?_, hstep.output.trans hrest.output⟩
    show (decoder.step b).position + bytes.length = decoder.position + (b :: bytes).length
    rw [hstep.position, List.length_cons]
    exact Nat.add_right_comm ..

/-- What was delivered is in what the file gives, wherever it ends. -/
theorem output_prefix_finish (decoder : Decoder) (failure : Option ReadError) :
    decoder.output.reverse <+: (decoder.finish failure).bytes := by
  unfold finish
  simp only
  split
  · split
    · simp
    · exact List.prefix_rfl
  all_goals simp

/-! ### Whole files -/

/-- What is behind a failure changes nothing. -/
theorem At.breaksOff_foldl {cause : ReadError} (h : decoder.At (.failed cause) before)
    (hbefore : before <+: whole) (bytes : List UInt8) :
    BreaksOff whole (bytes.foldl Decoder.step decoder) :=
  (takes_failed hbefore bytes h).foldl.breaksOff trivial (by simp) hbefore

/-- Behind its pieces a file has been delivered, or it breaks off for want of memory. -/
theorem foldl_pieces {pieces : List Piece} (hfits : ∀ piece ∈ pieces, piece.Fits)
    (hwhole : before ++ pieces.flatMap Piece.content <+: whole)
    (h : decoder.At (.magic []) before) :
    ((pieces.flatMap Piece.bytes).foldl step decoder).At (.magic [])
        (before ++ pieces.flatMap Piece.content) ∨
      (¬ ∀ piece ∈ pieces, piece.IsAffordable) ∧
        BreaksOff whole ((pieces.flatMap Piece.bytes).foldl step decoder) := by
  induction pieces generalizing decoder before with
  | nil => exact .inl (by simpa using h)
  | cons piece pieces ih =>
    obtain ⟨hpiece, hpieces⟩ := List.forall_mem_cons.mp hfits
    rw [List.flatMap_cons, ← List.append_assoc] at hwhole
    have hfront := (List.prefix_append _ _).trans hwhole
    obtain ⟨first, rest, hbytes, htakes⟩ := takes_piece hpiece hfront h
    rw [List.flatMap_cons, List.flatMap_cons, List.foldl_append, hbytes, List.foldl_cons,
      ← List.append_assoc, List.forall_mem_cons]
    rcases htakes.foldl with hat | ⟨hlarge, hfailed⟩
    · exact (ih hpieces hwhole hat).imp_right fun hrest => ⟨fun hall => hrest.1 hall.2, hrest.2⟩
    · exact .inr ⟨fun hall => hlarge hall.1,
        hfailed.breaksOff_foldl ((List.prefix_append _ _).trans hfront) _⟩

/-- A front of a file ends where a piece does, or the file breaks off there. -/
theorem breaksOff_of_prefix {pieces : List Piece} (hfits : ∀ piece ∈ pieces, piece.Fits)
    (hwhole : before ++ pieces.flatMap Piece.content <+: whole)
    (h : decoder.At (.magic []) before) {left : List UInt8}
    (hleft : left <+: pieces.flatMap Piece.bytes) :
    (∃ front, front <+: pieces ∧ left = front.flatMap Piece.bytes) ∨
      BreaksOff whole (left.foldl step decoder) := by
  induction pieces generalizing decoder before left with
  | nil => exact .inl ⟨[], List.nil_prefix, List.prefix_nil.mp hleft⟩
  | cons piece pieces ih =>
    obtain ⟨hpiece, hpieces⟩ := List.forall_mem_cons.mp hfits
    rw [List.flatMap_cons, ← List.append_assoc] at hwhole
    have hfront := (List.prefix_append _ _).trans hwhole
    obtain ⟨first, rest, hbytes, htakes⟩ := takes_piece hpiece hfront h
    cases left with
    | nil => exact .inl ⟨[], List.nil_prefix, rfl⟩
    | cons b left =>
      rw [List.flatMap_cons, hbytes, List.cons_append] at hleft
      obtain ⟨rfl, hrest⟩ := List.cons_prefix_cons.mp hleft
      rw [List.foldl_cons]
      rcases List.prefix_or_prefix_of_prefix hrest (List.prefix_append rest _) with
        ⟨back, rfl⟩ | ⟨more, rfl⟩
      · cases back with
        | nil =>
          refine .inl ⟨[piece], ⟨pieces, rfl⟩, ?_⟩
          rw [List.flatMap_singleton, hbytes, List.append_nil]
        | cons c back => exact .inr (htakes.breaksOff (List.cons_ne_nil c back))
      · have hmore := (List.prefix_append_right_inj rest).mp hrest
        rw [List.foldl_append]
        rcases htakes.foldl with hat | ⟨_, hfailed⟩
        · refine (ih hpieces hwhole hat hmore).imp_left fun hfront => ?_
          obtain ⟨front, hfront, rfl⟩ := hfront
          exact ⟨piece :: front, List.cons_prefix_cons.mpr ⟨rfl, hfront⟩,
            by rw [List.flatMap_cons, hbytes, List.cons_append]⟩
        · exact .inr (hfailed.breaksOff_foldl ((List.prefix_append _ _).trans hfront) more)

end Decoder

section
variable {pieces : List Piece}

/-- A file of pieces is decoded to its content, or breaks off for want of memory. -/
theorem decode_cases (hpieces : pieces ≠ []) (hfits : ∀ piece ∈ pieces, piece.Fits) :
    decode { bytes := pieces.flatMap Piece.bytes } = { bytes := pieces.flatMap Piece.content } ∨
      (¬ ∀ piece ∈ pieces, piece.IsAffordable) ∧
        ∃ delivered cause, decode { bytes := pieces.flatMap Piece.bytes } =
          { bytes := delivered, failure := some cause } ∧
          delivered <+: pieces.flatMap Piece.content := by
  refine (@Decoder.foldl_pieces _ [] {} pieces hfits List.prefix_rfl ⟨rfl, rfl⟩).imp_left
    fun hat => ?_
  have hposition : ((pieces.flatMap Piece.bytes).foldl Decoder.step {}).position ≠ 0 := by
    obtain ⟨piece, hpiece⟩ := List.exists_mem_of_ne_nil pieces hpieces
    obtain ⟨b, hb⟩ := List.exists_mem_of_ne_nil piece.bytes piece.bytes_ne_nil
    have hlength := List.length_pos_of_mem (List.mem_flatMap.mpr ⟨piece, hpiece, hb⟩)
    rw [(Decoder.extends_foldl _ _).position]
    exact Nat.ne_of_gt (Nat.lt_of_lt_of_le hlength (Nat.le_add_left _ _))
  rw [decode, Decoder.finish, hat.phase]
  simp only [if_neg hposition, hat.output, List.reverse_reverse, List.nil_append]

/-- **A written file is decoded to its content.** -/
theorem decode_written (hpieces : pieces ≠ []) (hfits : ∀ piece ∈ pieces, piece.Fits)
    (haffordable : ∀ piece ∈ pieces, piece.IsAffordable) :
    decode { bytes := pieces.flatMap Piece.bytes } = { bytes := pieces.flatMap Piece.content } :=
  (decode_cases hpieces hfits).resolve_right fun hlarge => hlarge.1 haffordable

/-- **A written file that is cut where no piece ends breaks off**, and gives a front of its
content. -/
theorem decode_cut (hfits : ∀ piece ∈ pieces, piece.Fits) {left : List UInt8}
    (hcut : IsCut pieces left) :
    ∃ delivered cause, decode { bytes := left } = { bytes := delivered, failure := some cause } ∧
      delivered <+: pieces.flatMap Piece.content := by
  rcases @Decoder.breaksOff_of_prefix _ [] {} pieces hfits List.prefix_rfl ⟨rfl, rfl⟩ left
    hcut.1 with ⟨front, hfront, rfl⟩ | hbreaks
  · cases front with
    | nil => exact ⟨[], .incompleteFrame, rfl, List.nil_prefix⟩
    | cons piece front => exact absurd rfl (hcut.2 _ hfront (List.cons_ne_nil piece front))
  · exact hbreaks

/-- What was decoded before a file is cut is delivered. -/
theorem prefix_decode {front : List Piece} (hfits : ∀ piece ∈ front, piece.Fits)
    (haffordable : ∀ piece ∈ front, piece.IsAffordable) {left : List UInt8}
    (hleft : front.flatMap Piece.bytes <+: left) :
    front.flatMap Piece.content <+: (decode { bytes := left }).bytes := by
  obtain ⟨more, rfl⟩ := hleft
  have hat := (@Decoder.foldl_pieces _ [] {} front hfits List.prefix_rfl ⟨rfl, rfl⟩).resolve_right
    fun hlarge => hlarge.1 haffordable
  have hstays :=
    (Decoder.extends_foldl more ((front.flatMap Piece.bytes).foldl Decoder.step {})).output
  rw [← List.foldl_append] at hstays
  have hdelivered := (List.reverse_prefix.mpr hstays).trans (Decoder.output_prefix_finish _ none)
  rwa [hat.output, List.reverse_reverse] at hdelivered

end

/-- **The program's decoder can be relied on** for all frames that it has the memory for. -/
theorem reliable_decoder : Reliable decoder Piece.IsAffordable where
  whole pieces hpieces hwithin := congrArg Except.ok
    (decode_written hpieces (fun piece hpiece => (hwithin piece hpiece).1)
      fun piece hpiece => (hwithin piece hpiece).2)
  handedOver pieces left hwithin hcut := by
    obtain ⟨delivered, cause, hdecode, hdelivered⟩ :=
      decode_cut (fun piece hpiece => (hwithin piece hpiece).1) hcut
    refine ⟨_, rfl, fun front hfront hleft => ?_, hdecode ▸ hdelivered⟩
    have hwithin : ∀ piece ∈ front, piece.Fits ∧ piece.IsAffordable :=
      fun piece hpiece => hwithin piece (hfront.mem hpiece)
    exact prefix_decode (fun piece hpiece => (hwithin piece hpiece).1)
      (fun piece hpiece => (hwithin piece hpiece).2) hleft
  reported pieces left stream hwithin hcut hstream := by
    obtain ⟨delivered, cause, hdecode, _⟩ :=
      decode_cut (fun piece hpiece => (hwithin piece hpiece).1) hcut
    rw [decoder, hdecode] at hstream
    cases hstream
    exact Option.some_ne_none cause

end Lockstep.Zstd
