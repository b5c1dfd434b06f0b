import Lockstep.Proofs.Run.Account
import Lockstep.Proofs.Source.Zstd.Decoding
import Lockstep.Proofs.Text.Lines

/-! Compressed inputs beside plain ones.

What a decoder of compressed files does is not known here, but what is relied on
(`Zstd.Reliable`). A path holds a content plainly, or in a compressed file if its name says so
(`Files.Holds`), and opens to the same lines either way. So a check whose inputs hold the same
contents counts and writes the same, whichever of them are compressed. Of a compressed file that is
cut some lines of the content are read and then a failure (`Files.BreaksOff`): no line that the cut
shortened, and every line that ended in front of the piece that was cut. So no check completes with
such an input: `compressed_inputs`. -/
namespace Lockstep

/-- The lines delivered of a front that breaks off are the first lines of the whole. -/
theorem Stream.lines_prefix {stream whole : Stream} {cause : ReadError}
    (hfailure : stream.failure = some cause) (hbytes : stream.bytes <+: whole.bytes) :
    stream.lines <+: whole.lines := by
  obtain ⟨front, hfront, hcut⟩ := exists_front_of_cut (· == (0x0A : UInt8)) stream.bytes
  obtain ⟨back, hback⟩ := hbytes
  have hclosed : (cut (· == (0x0A : UInt8)) front).2 = [] := congrArg Prod.snd hcut
  have hended : (cut (· == (0x0A : UInt8)) front).1 =
      (cut (· == (0x0A : UInt8)) stream.bytes).1 := by rw [hcut]
  have hwhole : whole.bytes = front ++ ((cut (· == (0x0A : UInt8)) stream.bytes).2 ++ back) := by
    rw [← hback, ← List.append_assoc, ← hfront]
  cases hend : whole.failure with
  | none =>
    simp only [lines, hfailure, hend, textLines, Lockstep.lines, endedLines, hwhole,
      cut_append hclosed, hended, List.map_append, List.append_assoc]
    exact List.prefix_append _ _
  | some _ =>
    simp only [lines, hfailure, hend, endedLines, hwhole, cut_append hclosed, hended,
      List.map_append]
    exact List.prefix_append _ _

namespace Files

/-- A path holds a content: plainly, or in a file of pieces that a decoder accepts if its name says
that it is compressed. -/
inductive Holds (files : Files) (accepts : Zstd.Piece → Prop) (path : Text) :
    List UInt8 → Prop where
  | plain {content : List UInt8} (hname : isCompressed path = false)
      (hfile : files.find path = .ok { bytes := content }) : Holds files accepts path content
  | compressed {pieces : List Zstd.Piece} (hname : isCompressed path = true)
      (hpieces : pieces ≠ []) (hwithin : ∀ piece ∈ pieces, piece.Fits ∧ accepts piece)
      (hfile : files.find path = .ok { bytes := pieces.flatMap Zstd.Piece.bytes }) :
      Holds files accepts path (pieces.flatMap Zstd.Piece.content)

/-- A path holds what is left of a compressed content that is cut in one of its pieces, and some
pieces in front of the cut hold a part of the content. -/
inductive HoldsCut (files : Files) (accepts : Zstd.Piece → Prop) (path : Text) :
    List UInt8 → List UInt8 → Prop where
  | intro {pieces front : List Zstd.Piece} {left : List UInt8} (hname : isCompressed path = true)
      (hwithin : ∀ piece ∈ pieces, piece.Fits ∧ accepts piece) (hcut : Zstd.IsCut pieces left)
      (hfile : files.find path = .ok { bytes := left })
      (hfront : front <+: pieces) (hleft : front.flatMap Zstd.Piece.bytes <+: left) :
      HoldsCut files accepts path (pieces.flatMap Zstd.Piece.content)
        (front.flatMap Zstd.Piece.content)

/-- A path opens to the first lines of a content and a failure behind them, and has at least those
that end in a part of it. -/
def BreaksOff (files : Files) (path : Text) (content part : List UInt8) : Prop :=
  ∃ stream cause, files.openStream path = .ok stream ∧ stream.failure = some cause ∧
    stream.lines <+: Stream.textLines content ∧
    Stream.lines { bytes := part, failure := some cause } <+: stream.lines

variable {files : Files} {accepts : Zstd.Piece → Prop} {path : Text} {content part : List UInt8}

theorem openStream_plain {stream : Stream} (hname : isCompressed path = false)
    (hfile : files.find path = .ok stream) : files.openStream path = .ok stream := by
  rw [openStream, hfile, hname]
  rfl

theorem openStream_compressed {stream : Stream} (hname : isCompressed path = true)
    (hfile : files.find path = .ok stream) : files.openStream path = files.decode stream := by
  rw [openStream, hfile, hname]
  rfl

theorem Holds.openStream_eq (h : files.Holds accepts path content)
    (hdecode : Zstd.Reliable files.decode accepts) :
    files.openStream path = .ok { bytes := content } := by
  cases h with
  | plain hname hfile => exact openStream_plain hname hfile
  | compressed hname hpieces hwithin hfile =>
    rw [openStream_compressed hname hfile, hdecode.whole _ hpieces hwithin]

theorem Holds.reads (h : files.Holds accepts path content)
    (hdecode : Zstd.Reliable files.decode accepts) :
    files.Reads path (Stream.textLines content) := ⟨_, h.openStream_eq hdecode, rfl⟩

theorem HoldsCut.breaksOff (h : files.HoldsCut accepts path content part)
    (hdecode : Zstd.Reliable files.decode accepts) : files.BreaksOff path content part := by
  cases h with
  | @intro pieces front _ hname hwithin hcut hfile hfront hleft =>
    obtain ⟨stream, hstream, hpart, hcontent⟩ := hdecode.handedOver _ _ hwithin hcut
    obtain ⟨cause, hcause⟩ :=
      Option.ne_none_iff_exists'.mp (hdecode.reported _ _ _ hwithin hcut hstream)
    have hlines : stream.lines <+: Stream.lines { bytes := pieces.flatMap Zstd.Piece.content } :=
      Stream.lines_prefix hcause hcontent
    exact ⟨stream, cause, (openStream_compressed hname hfile).trans hstream, hcause, hlines,
      Stream.lines_prefix rfl (hpart front hfront hleft)⟩

theorem BreaksOff.not_reads (h : files.BreaksOff path content part) (lines : List Text) :
    ¬ files.Reads path lines := by
  rintro ⟨stream, hopen, hread⟩
  obtain ⟨_, cause, hbroken, hcause, _⟩ := h
  cases hopen.symm.trans hbroken
  rw [(Run.readAll_eq_ok_iff.mp hread).1] at hcause
  cases hcause

end Files

namespace Check

/-- The contents that a plan's paths hold. -/
structure Supplied (files : Files) (accepts : Zstd.Piece → Prop) (plan : Plan)
    (listing trace : List UInt8) (reference : Option (List UInt8)) : Prop where
  listing : files.Holds accepts plan.listing listing
  trace : files.Holds accepts plan.trace trace
  reference : Option.Rel (files.Holds accepts) plan.reference reference

variable {files : Files} {accepts : Zstd.Piece → Prop} {plan : Plan}

/-- What a plan reads is a matter of the contents that its paths hold. -/
theorem Supplied.reads {listing trace : List UInt8} {reference : Option (List UInt8)}
    (h : Supplied files accepts plan listing trace reference)
    (hdecode : Zstd.Reliable files.decode accepts) :
    Reads files plan (Listing.Index.ofLines (Stream.textLines listing))
      (reference.map fun content => Reference.Queue.ofLines
        (Listing.Index.entry? (Listing.Index.ofLines (Stream.textLines listing)) plan.entry)
        (Stream.textLines content))
      (Stream.textLines trace) where
  trace := h.trace.reads hdecode
  listing := ⟨_, h.listing.reads hdecode, rfl⟩
  reference := by
    have hreference := h.reference
    generalize plan.reference = path at hreference
    cases hreference with
    | none => exact .none
    | some hholds => exact .some ⟨_, hholds.reads hdecode, rfl⟩

/-- All inputs of a check that completes can be read. -/
theorem Reads.exists_lines {index : Listing.Index} {queue : Option Reference.Queue}
    {lines : List Text} (h : Reads files plan index queue lines) {path : Text}
    (hpath : path ∈ plan.listing :: plan.trace :: plan.reference.toList) :
    ∃ lines, files.Reads path lines := by
  rcases List.mem_cons.mp hpath with rfl | hpath
  · obtain ⟨listing, hlisting, _⟩ := h.listing
    exact ⟨listing, hlisting⟩
  · rcases List.mem_cons.mp hpath with rfl | hpath
    · exact ⟨lines, h.trace⟩
    · have hreference := h.reference
      rw [Option.mem_toList.mp hpath] at hreference
      cases hreference with
      | some hread =>
        obtain ⟨reference, hreference, _⟩ := hread
        exact ⟨reference, hreference⟩

/-- No check completes with an input that breaks off. -/
theorem exists_failure {path : Text} {content part : List UInt8}
    (h : files.BreaksOff path content part)
    (hpath : path ∈ plan.listing :: plan.trace :: plan.reference.toList) :
    ∃ failure, (check files plan).result = .error failure := by
  cases hresult : (check files plan).result with
  | error failure => exact ⟨failure, rfl⟩
  | ok counted =>
    obtain ⟨_, _, _, hreads, _⟩ := yields_check.mp ⟨hresult, rfl⟩
    obtain ⟨lines, hlines⟩ := hreads.exists_lines hpath
    exact absurd hlines (h.not_reads lines)

end Check

/-- **A compressed input is read like a plain one, and a cut one never as a whole**, with any
decoder that can be relied on for the pieces that it accepts, be they all that the format has. -/
theorem compressed_inputs (accepts : Zstd.Piece → Prop) :
    (∀ (files : Files) (path : Text) (content : List UInt8),
      Zstd.Reliable files.decode accepts → files.Holds accepts path content →
      files.Reads path (Stream.textLines content)) ∧
    (∀ (files others : Files) (plan : Check.Plan) (listingPath tracePath : Text)
      (referencePath : Option Text) (listing trace : List UInt8) (reference : Option (List UInt8)),
      Zstd.Reliable files.decode accepts → Zstd.Reliable others.decode accepts →
      Check.Supplied files accepts plan listing trace reference →
      Check.Supplied others accepts
        { plan with listing := listingPath, trace := tracePath, reference := referencePath }
        listing trace reference →
      ∃ counted output, (check files plan).Yields counted output ∧
        (check others
          { plan with
            listing := listingPath, trace := tracePath, reference := referencePath }).Yields
          counted output) ∧
    (∀ (files : Files) (path : Text) (content part : List UInt8),
      Zstd.Reliable files.decode accepts → files.HoldsCut accepts path content part →
      files.BreaksOff path content part) ∧
    (∀ (files : Files) (plan : Check.Plan) (path : Text) (content part : List UInt8),
      Zstd.Reliable files.decode accepts → files.HoldsCut accepts path content part →
      path ∈ plan.listing :: plan.trace :: plan.reference.toList →
      ∃ failure, (check files plan).result = .error failure) := by
  refine ⟨fun _ _ _ hdecode h => h.reads hdecode, ?_, fun _ _ _ _ hdecode h => h.breaksOff hdecode,
    fun _ _ _ _ _ hdecode h => Check.exists_failure (h.breaksOff hdecode)⟩
  intro files others plan listingPath tracePath referencePath listing trace reference hdecode
    hdecode' h hothers
  exact ⟨_, _, Check.yields_check.mpr ⟨_, _, _, h.reads hdecode, rfl, rfl⟩,
    Check.yields_check.mpr ⟨_, _, _, hothers.reads hdecode', rfl, rfl⟩⟩

/-! ### The inputs of one instruction, two of them compressed -/

namespace Check

def listingBytes : List UInt8 := bytes (listingLines.flatMap Text.line)

/-- The zeros that the listing begins with are one block, and a frame ends in the middle of a
line. -/
def listingPieces : List Zstd.Piece :=
  [.skippable 10 [0x28, 0xB5, 0x2F, 0xFD],
    .frame {
      form := ⟨0, false, true, 0, 0, 0⟩
      front := [.repeated 11 0x30]
      last := .raw ((listingBytes.drop 11).take 20) },
    .skippable 0 [],
    .frame {
      form := ⟨2, true, false, 3, 0, 0⟩
      front := [.raw [], .raw (listingBytes.drop 31)]
      last := .raw [] }]

def tracePieces : List Zstd.Piece :=
  [.frame { form := ⟨0, true, false, 0, 0, 0⟩, front := [], last := .raw (bytes logLine.line) }]

/-- The inputs, two of them compressed, and what is left of the listing when its last block is
cut. -/
def archived : Files := Tree.files
  [(["listing.zst".toList], .file (listingPieces.flatMap Zstd.Piece.bytes)),
    (["log.zst".toList], .file (tracePieces.flatMap Zstd.Piece.bytes)),
    (["reference".toList], .file (bytes referenceLine.line)),
    (["cut.zst".toList], .file ((listingPieces.flatMap Zstd.Piece.bytes).take 80))]

def askedArchived : Plan :=
  { asked with
    listing := "listing.zst".toList, trace := "log.zst".toList
    reference := some "reference".toList }

theorem supplied_inputs : Supplied inputs Zstd.Piece.IsAffordable asked listingBytes
    (bytes logLine.line) (some (bytes referenceLine.line)) where
  listing := .plain (by decide) (by decide +kernel)
  trace := .plain (by decide) (by decide +kernel)
  reference := .some (.plain (by decide) (by decide +kernel))

theorem content_listingPieces : listingPieces.flatMap Zstd.Piece.content = listingBytes := by
  decide +kernel

theorem holds_listing :
    archived.Holds Zstd.Piece.IsAffordable "listing.zst".toList listingBytes := by
  rw [← content_listingPieces]
  exact .compressed (by decide) (by decide) (by decide +kernel) (by decide +kernel)

theorem holds_trace :
    archived.Holds Zstd.Piece.IsAffordable "log.zst".toList (bytes logLine.line) := by
  have hcontent : tracePieces.flatMap Zstd.Piece.content = bytes logLine.line := by decide +kernel
  rw [← hcontent]
  exact .compressed (by decide) (by decide) (by decide +kernel) (by decide +kernel)

theorem supplied_archived : Supplied archived Zstd.Piece.IsAffordable askedArchived listingBytes
    (bytes logLine.line) (some (bytes referenceLine.line)) where
  listing := holds_listing
  trace := holds_trace
  reference := .some (.plain (by decide) (by decide +kernel))

theorem holdsCut_listing : archived.HoldsCut Zstd.Piece.IsAffordable "cut.zst".toList listingBytes
    (listingBytes.take 31) := by
  have hcut : ∀ front ∈ listingPieces.inits, front ≠ [] →
      (listingPieces.flatMap Zstd.Piece.bytes).take 80 ≠ front.flatMap Zstd.Piece.bytes := by
    decide +kernel
  have hpart : (listingPieces.take 3).flatMap Zstd.Piece.content = listingBytes.take 31 := by
    decide +kernel
  rw [← hpart, ← content_listingPieces]
  exact .intro (by decide) (by decide +kernel)
    ⟨List.take_prefix 80 _, fun front hfront => hcut front ((List.mem_inits _ _).mpr hfront)⟩
    (by decide +kernel) (List.take_prefix 3 _) (by decide +kernel)

end Check

open Check in
/-- A listing in two frames between skippable ones, and a log in one. -/
theorem compressed_inputs_archived :
    Zstd.Reliable inputs.decode Zstd.Piece.IsAffordable ∧
    Zstd.Reliable archived.decode Zstd.Piece.IsAffordable ∧
    Supplied inputs Zstd.Piece.IsAffordable asked listingBytes (bytes logLine.line)
      (some (bytes referenceLine.line)) ∧
    Supplied archived Zstd.Piece.IsAffordable askedArchived listingBytes (bytes logLine.line)
      (some (bytes referenceLine.line)) ∧
    archived.HoldsCut Zstd.Piece.IsAffordable "cut.zst".toList listingBytes
      (listingBytes.take 31) ∧
    archived.Reads "listing.zst".toList (Stream.textLines listingBytes) ∧
    (∃ counted output, (check inputs asked).Yields counted output ∧
      (check archived askedArchived).Yields counted output) ∧
    archived.BreaksOff "cut.zst".toList listingBytes (listingBytes.take 31) ∧
    ∃ failure, (check archived { askedArchived with listing := "cut.zst".toList }).result =
      .error failure := by
  obtain ⟨hreads, hcheck, hcut, hfails⟩ := compressed_inputs Zstd.Piece.IsAffordable
  have hdecode : Zstd.Reliable Zstd.decoder Zstd.Piece.IsAffordable := Zstd.reliable_decoder
  exact ⟨hdecode, hdecode, supplied_inputs, supplied_archived, holdsCut_listing,
    hreads _ _ _ hdecode holds_listing,
    hcheck _ _ _ _ _ _ _ _ _ hdecode hdecode supplied_inputs supplied_archived,
    hcut _ _ _ _ hdecode holdsCut_listing,
    hfails _ _ _ _ _ hdecode holdsCut_listing List.mem_cons_self⟩

end Lockstep
