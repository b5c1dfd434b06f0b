import Mathlib.Data.List.DropRight
import Lockstep.Proofs.Listing.Blocks
import Lockstep.Proofs.Report.Height
import Lockstep.Proofs.Trace.Grammar

/-! What can be read back from the rows of a report.

A row is its texts in order, each whole and with nothing but spaces behind it (`spaced_columns`),
and a text begins where the cells before it end (`prefix_drop_columns`), which is beyond its place
only where one of them is too wide. So if the texts before the last column fit, the separators are at
fixed offsets, and a row that is cut at fixed offsets gives its texts back but for spaces at their
ends (`strip_pairedRow`, `strip_listedRow`). The readers of all three inputs trim what they read, so
no text of theirs has any, and rows differ where a text or the verdict does: `rows_legible`. -/
namespace Lockstep

namespace Text

/-- The text without the spaces at its end. -/
def stripSpaces (text : Text) : Text := text.rdropWhile (· == ' ')

/-- No space stands at the end of the text. -/
def Flush (text : Text) : Prop := text.getLast? ≠ some ' '

instance (text : Text) : Decidable text.Flush :=
  inferInstanceAs (Decidable (text.getLast? ≠ some ' '))

/-- The parts of what a text has from an offset on, cut at further offsets. -/
def cutFrom : Nat → List Nat → Text → List Text
  | _, [], text => [text]
  | start, offset :: offsets, text =>
    text.take (offset - start) :: cutFrom offset offsets (text.drop (offset - start))

/-- The parts of a text that is cut at offsets, in ascending order. -/
def cutAt (offsets : List Nat) (text : Text) : List Text := cutFrom 0 offsets text

theorem cutFrom_append {start offset : Nat} {front : Text} (h : start + front.length = offset)
    (offsets : List Nat) (back : Text) :
    cutFrom start (offset :: offsets) (front ++ back) = front :: cutFrom offset offsets back := by
  have hlength : offset - start = front.length := by omega
  rw [cutFrom, hlength, List.take_left, List.drop_left]

theorem stripSpaces_append_spaces (text : Text) (n : Nat) :
    stripSpaces (text ++ List.replicate n ' ') = stripSpaces text := by
  induction n with
  | zero => rw [List.replicate_zero, List.append_nil]
  | succ n ih =>
    rw [List.replicate_succ', ← List.append_assoc, stripSpaces,
      List.rdropWhile_concat_pos _ _ _ rfl]
    exact ih

theorem stripSpaces_of_flush {text : Text} (h : text.Flush) : stripSpaces text = text := by
  rw [stripSpaces, List.rdropWhile_eq_self_iff]
  intro hne hspace
  exact h (by rw [List.getLast?_eq_getLast_of_ne_nil hne, beq_iff_eq.mp hspace])

theorem stripSpaces_padRight {text : Text} (h : text.Flush) (width : Nat) :
    stripSpaces (text.padRight width) = text := by
  rw [padRight, stripSpaces_append_spaces, stripSpaces_of_flush h]

theorem length_padRight_of_le {width : Nat} {text : Text} (h : text.length ≤ width) :
    (text.padRight width).length = width := by
  rw [length_padRight, Nat.max_eq_left h]

theorem line_inj {text text' : Text} : text.line = text'.line ↔ text = text' :=
  List.append_left_inj _

theorem flush_trim (text : Text) : text.trim.Flush := by
  intro h
  rw [trim, trimRight, List.getLast?_reverse] at h
  have hhead := List.head?_dropWhile_not isBlank (trimLeft text).reverse
  rw [h] at hhead
  cases hhead

end Text

namespace Report

/-! ### Columns -/

theorem columns_cons_cons (width : Nat) (text : Text) (cell : Nat × Text)
    (cells : List (Nat × Text)) :
    columns ((width, text) :: cell :: cells) =
      text.padRight width ++ ' ' :: columns (cell :: cells) := by
  rw [columns, List.map_cons, List.map_cons, List.intercalate_cons_cons, List.append_assoc]
  rfl

theorem columns_singleton (width : Nat) (text : Text) :
    columns [(width, text)] = text.padRight width := List.intercalate_singleton ..

/-- A row has the texts in order and whole, each with nothing but spaces behind it. -/
inductive Spaced : List Text → Text → Prop where
  | nil : Spaced [] []
  | cons {texts : List Text} {row : Text} (text : Text) (spaces : Nat) : Spaced texts row →
      Spaced (text :: texts) (text ++ (List.replicate spaces ' ' ++ row))

/-- No text is cut, however wide. -/
theorem spaced_columns (cells : List (Nat × Text)) :
    Spaced (cells.map Prod.snd) (columns cells) := by
  induction cells with
  | nil => exact .nil
  | cons cell cells ih =>
    obtain ⟨width, text⟩ := cell
    cases cells with
    | nil =>
      rw [columns_singleton, Text.padRight, ← List.append_nil (List.replicate _ _)]
      exact .cons text _ .nil
    | cons next cells =>
      have hrow : columns ((width, text) :: next :: cells) =
          text ++ (List.replicate (width - text.length + 1) ' ' ++ columns (next :: cells)) := by
        rw [columns_cons_cons, Text.padRight, List.replicate_succ', List.append_assoc,
          List.append_assoc, List.singleton_append]
      rw [hrow]
      exact .cons text _ ih

/-- How far cells reach, each with the space behind it. -/
def reach : List (Nat × Text) → Nat
  | [] => 0
  | (width, text) :: cells => max width text.length + 1 + reach cells

theorem length_columns (cell : Nat × Text) (cells : List (Nat × Text)) :
    (columns (cell :: cells)).length + 1 = reach (cell :: cells) := by
  induction cells generalizing cell with
  | nil =>
    rw [columns_singleton, Text.length_padRight]
    rfl
  | cons next cells ih =>
    obtain ⟨width, text⟩ := cell
    rw [columns_cons_cons, reach, ← ih next, List.length_append, List.length_cons,
      Text.length_padRight]
    omega

theorem drop_reach_columns (front : List (Nat × Text)) (cell : Nat × Text)
    (back : List (Nat × Text)) :
    (columns (front ++ cell :: back)).drop (reach front) = columns (cell :: back) := by
  induction front with
  | nil => rfl
  | cons other front ih =>
    obtain ⟨width, text⟩ := other
    obtain ⟨next, rest, hrest⟩ := List.exists_cons_of_ne_nil
      (List.append_ne_nil_of_right_ne_nil front (List.cons_ne_nil cell back))
    have hrow : columns ((width, text) :: (front ++ cell :: back)) =
        (text.padRight width ++ [' ']) ++ columns (front ++ cell :: back) := by
      rw [hrest, columns_cons_cons, List.append_assoc, List.singleton_append]
    have hlength : (text.padRight width ++ [' ']).length = max width text.length + 1 := by
      rw [List.length_append, Text.length_padRight, List.length_singleton]
    rw [List.cons_append, hrow, reach, ← List.drop_drop, List.drop_left' hlength, ih]

theorem prefix_columns (cell : Nat × Text) (cells : List (Nat × Text)) :
    cell.2 <+: columns (cell :: cells) := by
  obtain ⟨width, text⟩ := cell
  cases cells with
  | nil =>
    rw [columns_singleton]
    exact List.prefix_append _ _
  | cons next cells =>
    rw [columns_cons_cons, Text.padRight, List.append_assoc]
    exact List.prefix_append _ _

/-- The text of a cell begins where the cells before it end. -/
theorem prefix_drop_columns {front : List (Nat × Text)} {place : Nat} (h : reach front = place)
    (cell : Nat × Text) (back : List (Nat × Text)) :
    cell.2 <+: (columns (front ++ cell :: back)).drop place := by
  rw [← h, drop_reach_columns]
  exact prefix_columns cell back

/-! ### Rows -/

section
variable {first listed executed reference : Text}

/-- What stands between two columns of texts. -/
def divider : Text := ' ' :: (separator ++ [' '])

theorem pairedRow_eq (first listed executed reference : Text) :
    pairedRow 3 first listed executed reference =
      (first.padRight 3 ++ [' ']) ++ (listed.padRight 70 ++ (divider ++
        (executed.padRight 70 ++ (divider ++ reference.padRight 60)))) := by
  simp only [pairedRow, columns_cons_cons, columns_singleton]
  rw [List.append_assoc]
  rfl

theorem listedRow_eq (listed executed : Text) :
    listedRow listed executed = listed.padRight 60 ++ (divider ++ executed.padRight 60) := by
  rw [listedRow, columns_cons_cons, columns_cons_cons, columns_singleton]
  rfl

theorem spaced_pairedRow (first listed executed reference : Text) :
    Spaced [first, listed, separator, executed, separator, reference]
      (pairedRow 3 first listed executed reference) :=
  spaced_columns [(3, first), (pairedWidth, listed), (3, separator), (pairedWidth, executed),
    (3, separator), (referenceWidth, reference)]

theorem spaced_listedRow (listed executed : Text) :
    Spaced [listed, separator, executed] (listedRow listed executed) :=
  spaced_columns [(listedWidth, listed), (3, separator), (listedWidth, executed)]

theorem length_pairedRow (hfirst : first.length ≤ 3) (listed executed reference : Text) :
    (pairedRow 3 first listed executed reference).length =
      3 + 1 + max 70 listed.length + 1 + 3 + 1 + max 70 executed.length + 1 + 3 + 1 +
        max 60 reference.length := by
  have hlength : (pairedRow 3 first listed executed reference).length + 1 = _ := length_columns ..
  have hseparator : max 3 separator.length = 3 := rfl
  simp only [reach, Nat.max_eq_left hfirst, hseparator, pairedWidth, referenceWidth] at hlength
  omega

theorem length_listedRow (listed executed : Text) :
    (listedRow listed executed).length =
      max 60 listed.length + 1 + 3 + 1 + max 60 executed.length := by
  have hlength : (listedRow listed executed).length + 1 = _ := length_columns ..
  have hseparator : max 3 separator.length = 3 := rfl
  simp only [reach, hseparator, listedWidth] at hlength
  omega

theorem separators_pairedRow (hfirst : first.length ≤ 3) (hlisted : listed.length ≤ 70)
    (hexecuted : executed.length ≤ 70) (reference : Text) :
    separator <+: (pairedRow 3 first listed executed reference).drop 75 ∧
      separator <+: (pairedRow 3 first listed executed reference).drop 150 := by
  have hlisted' : max pairedWidth listed.length = 70 := Nat.max_eq_left hlisted
  have hexecuted' : max pairedWidth executed.length = 70 := Nat.max_eq_left hexecuted
  have hone : reach [(3, first), (pairedWidth, listed)] = 75 := by
    simp only [reach, Nat.max_eq_left hfirst, hlisted']
  have htwo : reach [(3, first), (pairedWidth, listed), (3, separator), (pairedWidth, executed)] =
      150 := by
    simp only [reach, Nat.max_eq_left hfirst, hlisted', hexecuted']
    rfl
  exact ⟨prefix_drop_columns hone (3, separator) _, prefix_drop_columns htwo (3, separator) _⟩

theorem separator_listedRow (hlisted : listed.length ≤ 60) (executed : Text) :
    separator <+: (listedRow listed executed).drop 61 := by
  have hlisted' : max listedWidth listed.length = 60 := Nat.max_eq_left hlisted
  have hone : reach [(listedWidth, listed)] = 61 := by
    simp only [reach, hlisted']
  exact prefix_drop_columns hone (3, separator) _

/-! ### Rows cut at fixed offsets -/

theorem cutAt_pairedRow (hfirst : first.length ≤ 3) (hlisted : listed.length ≤ 70)
    (hexecuted : executed.length ≤ 70) (reference : Text) :
    (pairedRow 3 first listed executed reference).cutAt [4, 74, 79, 149, 154] =
      [first.padRight 3 ++ [' '], listed.padRight 70, divider, executed.padRight 70, divider,
        reference.padRight 60] := by
  have hfirst' : 0 + (first.padRight 3 ++ [' ']).length = 4 := by
    rw [List.length_append, Text.length_padRight_of_le hfirst]
    rfl
  have hlisted' : 4 + (listed.padRight 70).length = 74 := by
    rw [Text.length_padRight_of_le hlisted]
  have hdivider : 74 + divider.length = 79 := rfl
  have hexecuted' : 79 + (executed.padRight 70).length = 149 := by
    rw [Text.length_padRight_of_le hexecuted]
  have hdivider' : 149 + divider.length = 154 := rfl
  rw [pairedRow_eq, Text.cutAt, Text.cutFrom_append hfirst', Text.cutFrom_append hlisted',
    Text.cutFrom_append hdivider, Text.cutFrom_append hexecuted', Text.cutFrom_append hdivider',
    Text.cutFrom]

theorem cutAt_listedRow (hlisted : listed.length ≤ 60) (executed : Text) :
    (listedRow listed executed).cutAt [60, 65] =
      [listed.padRight 60, divider, executed.padRight 60] := by
  have hlisted' : 0 + (listed.padRight 60).length = 60 := by
    rw [Text.length_padRight_of_le hlisted, Nat.zero_add]
  have hdivider : 60 + divider.length = 65 := rfl
  rw [listedRow_eq, Text.cutAt, Text.cutFrom_append hlisted', Text.cutFrom_append hdivider,
    Text.cutFrom]

/-- A text that a column holds, and that ends where the spaces of the column begin. -/
structure Fits (width : Nat) (text : Text) : Prop where
  length_le : text.length ≤ width
  flush : text.Flush

/-- The parts of a row, without the spaces at their ends, are its texts and the separators. -/
theorem strip_pairedRow (hfirst : Fits 3 first) (hlisted : Fits 70 listed)
    (hexecuted : Fits 70 executed) (hreference : reference.Flush) :
    ((pairedRow 3 first listed executed reference).cutAt [4, 74, 79, 149, 154]).map
        Text.stripSpaces =
      [first, listed, ' ' :: separator, executed, ' ' :: separator, reference] := by
  have hstrip : Text.stripSpaces (first.padRight 3 ++ [' ']) = first := by
    rw [← List.replicate_one, Text.stripSpaces_append_spaces,
      Text.stripSpaces_padRight hfirst.flush]
  rw [cutAt_pairedRow hfirst.length_le hlisted.length_le hexecuted.length_le]
  simp only [List.map_cons, List.map_nil, hstrip, Text.stripSpaces_padRight hlisted.flush,
    Text.stripSpaces_padRight hexecuted.flush, Text.stripSpaces_padRight hreference]
  rfl

theorem strip_listedRow (hlisted : Fits 60 listed) (hexecuted : executed.Flush) :
    ((listedRow listed executed).cutAt [60, 65]).map Text.stripSpaces =
      [listed, ' ' :: separator, executed] := by
  rw [cutAt_listedRow hlisted.length_le]
  simp only [List.map_cons, List.map_nil, Text.stripSpaces_padRight hlisted.flush,
    Text.stripSpaces_padRight hexecuted]
  rfl

theorem fits_sign (verdict : Verdict) : Fits 3 verdict.sign := by
  cases verdict <;> exact ⟨by decide, by decide⟩

theorem sign_inj {verdict verdict' : Verdict} :
    verdict.sign = verdict'.sign ↔ verdict = verdict' := by
  cases verdict <;> cases verdict' <;> decide

/-- A row tells its verdict and its texts. -/
theorem pairedRow_inj {verdict verdict' : Verdict} {listed' executed' reference' : Text}
    (hlisted : Fits 70 listed) (hexecuted : Fits 70 executed) (hreference : reference.Flush)
    (hlisted' : Fits 70 listed') (hexecuted' : Fits 70 executed') (hreference' : reference'.Flush) :
    pairedRow 3 verdict.sign listed executed reference =
        pairedRow 3 verdict'.sign listed' executed' reference' ↔
      verdict = verdict' ∧ listed = listed' ∧ executed = executed' ∧ reference = reference' := by
  constructor
  · intro hrow
    have hparts := strip_pairedRow (fits_sign verdict) hlisted hexecuted hreference
    rw [hrow, strip_pairedRow (fits_sign verdict') hlisted' hexecuted' hreference'] at hparts
    simp only [List.cons.injEq, true_and, and_true] at hparts
    obtain ⟨hsign, hlisted, hexecuted, hreference⟩ := hparts
    exact ⟨(sign_inj.mp hsign).symm, hlisted.symm, hexecuted.symm, hreference.symm⟩
  · rintro ⟨rfl, rfl, rfl, rfl⟩
    rfl

theorem listedRow_inj {listed' executed' : Text} (hlisted : Fits 60 listed)
    (hexecuted : executed.Flush) (hlisted' : Fits 60 listed') (hexecuted' : executed'.Flush) :
    listedRow listed executed = listedRow listed' executed' ↔
      listed = listed' ∧ executed = executed' := by
  constructor
  · intro hrow
    have hparts := strip_listedRow hlisted hexecuted
    rw [hrow, strip_listedRow hlisted' hexecuted'] at hparts
    simp only [List.cons.injEq, true_and, and_true] at hparts
    exact ⟨hparts.1.symm, hparts.2.symm⟩
  · rintro ⟨rfl, rfl⟩
    rfl

theorem render_paired {options : Options} (hrows : options.rows = true) (verdict : Verdict)
    (listed executed reference : Text) :
    render options [.paired verdict listed executed reference] =
      (pairedRow 3 verdict.sign listed executed reference).line := by
  simp [render, Options.shows, hrows, Entry.render, Entry.texts]

theorem render_listed {options : Options} (hrows : options.rows = true)
    (listed executed : Text) :
    render options [.listed listed executed] = (listedRow listed executed).line := by
  simp [render, Options.shows, hrows, Entry.render, Entry.texts]

end

/-! ### Texts of the inputs -/

theorem flush_instruction {lines : List Text} {address : Address} {known : Listing.Instruction}
    (h : (Listing.Index.ofLines lines).instruction? address = some known) : known.text.Flush := by
  rw [Listing.instruction?_ofLines] at h
  obtain ⟨line, _, rfl⟩ := Option.map_eq_some_iff.mp h
  exact Text.flush_trim line

theorem flush_executed {line : Text} {record : Trace.Executed}
    (h : Trace.Executed.read line = .ok (some record)) : record.text.Flush := by
  unfold Trace.Executed.read at h
  split at h
  · next dialect _ =>
    obtain ⟨found, hread, hrecord⟩ := map_eq_ok_iff.mp h
    cases hrecord
    cases dialect with
    | deep =>
      obtain ⟨rest, _, htext⟩ := (Trace.Dialect.readDeep_eq_ok_iff.mp hread).text
      rw [htext]
      exact Text.flush_trim rest
    | render =>
      obtain ⟨_, _, _, token, _, htext⟩ := (Trace.Dialect.readRender_eq_ok_iff.mp hread).fetched
      rw [htext]
      exact Text.flush_trim token
  · cases h

theorem flush_reference {line : Text} {record : Reference.Record}
    (h : Reference.Record.read line = .ok (some record)) : record.raw.Flush := by
  unfold Reference.Record.read at h
  split at h
  · obtain ⟨kind, _, hrecord⟩ := map_eq_ok_iff.mp h
    cases hrecord
    exact Text.flush_trim line
  · cases h

/-- **Rows keep their texts.** A row is one line with its texts whole, as long as its columns and
what goes beyond them. Where the texts fit, the separators stand at fixed offsets, the row cut at
fixed offsets gives the texts back, and rows are equal only if all of their texts are. -/
theorem rows_legible (options : Options) (hrows : options.rows = true) :
    (∀ verdict listed executed reference, Text.Unbroken listed → Text.Unbroken executed →
      Text.Unbroken reference → ∃ row : Text,
      render options [.paired verdict listed executed reference] = row.line ∧ row.Unbroken ∧
      row.length = 3 + 1 + max 70 listed.length + 1 + 3 + 1 + max 70 executed.length + 1 + 3 + 1 +
        max 60 reference.length ∧
      Spaced [verdict.sign, listed, separator, executed, separator, reference] row ∧
      (listed.length ≤ 70 → executed.length ≤ 70 →
        separator <+: row.drop 75 ∧ separator <+: row.drop 150) ∧
      (Fits 70 listed → Fits 70 executed → reference.Flush →
        (row.cutAt [4, 74, 79, 149, 154]).map Text.stripSpaces =
          [verdict.sign, listed, ' ' :: separator, executed, ' ' :: separator, reference])) ∧
    (∀ verdict listed executed reference verdict' listed' executed' reference',
      Fits 70 listed → Fits 70 executed → Text.Flush reference →
      Fits 70 listed' → Fits 70 executed' → Text.Flush reference' →
      (render options [.paired verdict listed executed reference] =
          render options [.paired verdict' listed' executed' reference'] ↔
        verdict = verdict' ∧ listed = listed' ∧ executed = executed' ∧ reference = reference')) ∧
    (∀ listed executed, Text.Unbroken listed → Text.Unbroken executed → ∃ row : Text,
      render options [.listed listed executed] = row.line ∧ row.Unbroken ∧
      row.length = max 60 listed.length + 1 + 3 + 1 + max 60 executed.length ∧
      Spaced [listed, separator, executed] row ∧
      (listed.length ≤ 60 → separator <+: row.drop 61) ∧
      (Fits 60 listed → executed.Flush →
        (row.cutAt [60, 65]).map Text.stripSpaces = [listed, ' ' :: separator, executed])) ∧
    (∀ listed executed listed' executed', Fits 60 listed → Text.Flush executed →
      Fits 60 listed' → Text.Flush executed' →
      (render options [.listed listed executed] = render options [.listed listed' executed'] ↔
        listed = listed' ∧ executed = executed')) ∧
    (∀ lines address known, (Listing.Index.ofLines lines).instruction? address = some known →
      known.text.Flush) ∧
    (∀ line record, Trace.Executed.read line = .ok (some record) → record.text.Flush) ∧
    ∀ line record, Reference.Record.read line = .ok (some record) → record.raw.Flush := by
  refine ⟨fun verdict listed executed reference hlisted hexecuted hreference => ?_,
    fun _ _ _ _ _ _ _ _ hlisted hexecuted hreference hlisted' hexecuted' hreference' => ?_,
    fun listed executed hlisted hexecuted => ?_,
    fun _ _ _ _ hlisted hexecuted hlisted' hexecuted' => ?_,
    fun _ _ _ => flush_instruction, fun _ _ => flush_executed, fun _ _ => flush_reference⟩
  · have hsign := (fits_sign verdict).length_le
    have hunbroken : verdict.sign.Unbroken := by
      cases verdict <;> decide
    exact ⟨_, render_paired hrows .., unbroken_pairedRow hunbroken hlisted hexecuted hreference,
      length_pairedRow hsign .., spaced_pairedRow ..,
      fun hlisted hexecuted => separators_pairedRow hsign hlisted hexecuted reference,
      strip_pairedRow (fits_sign verdict)⟩
  · rw [render_paired hrows, render_paired hrows, Text.line_inj]
    exact pairedRow_inj hlisted hexecuted hreference hlisted' hexecuted' hreference'
  · exact ⟨_, render_listed hrows .., unbroken_listedRow hlisted hexecuted, length_listedRow ..,
      spaced_listedRow .., fun hlisted => separator_listedRow hlisted executed, strip_listedRow⟩
  · rw [render_listed hrows, render_listed hrows, Text.line_inj]
    exact listedRow_inj hlisted hexecuted hlisted' hexecuted'

/-- The text of one instruction in the listing, in the log and in the reference. -/
def listedText : Text := "10000:\t1141\taddi\tsp,sp,-16".toList

def executedText : Text := "addi sp, sp, -16".toList

def referenceText : Text := "core   0: 0x0000000000010000 (0x00001141) c.addi  sp, -16".toList

theorem rows_legible_addi :
    (listedText.Unbroken ∧ executedText.Unbroken ∧ referenceText.Unbroken ∧ Fits 70 listedText ∧
      Fits 70 executedText ∧ referenceText.Flush ∧ ∃ row : Text,
      render {} [.paired .matching listedText executedText referenceText] = row.line ∧
      separator <+: row.drop 75 ∧
      (row.cutAt [4, 74, 79, 149, 154]).map Text.stripSpaces =
        [['+'], listedText, ' ' :: separator, executedText, ' ' :: separator, referenceText]) ∧
    render {} [.paired .matching listedText executedText referenceText] ≠
      render {} [.paired .mismatching listedText executedText referenceText] ∧
    (Fits 60 listedText ∧ executedText.Flush ∧ ∃ row : Text,
      render {} [.listed listedText executedText] = row.line ∧
      (row.cutAt [60, 65]).map Text.stripSpaces = [listedText, ' ' :: separator, executedText]) ∧
    render {} [.listed listedText executedText] ≠ render {} [.listed listedText referenceText] ∧
    ((Listing.Index.ofLines ["  ".toList ++ listedText]).instruction? 0x10000 =
        some ⟨0x10000, listedText⟩ ∧ listedText.Flush) ∧
    (Trace.Executed.read ("RDT: Executed PC = 10000 Inst: ".toList ++ executedText ++ [' ']) =
        .ok (some ⟨0x10000, executedText, none, .deep⟩) ∧ executedText.Flush) ∧
    Reference.Record.read (referenceText ++ [' ']) =
      .ok (some ⟨.instruction 0x10000, referenceText⟩) ∧ referenceText.Flush := by
  obtain ⟨hpaired, hpaired_inj, hlisted, hlisted_inj, hindex, hlog, hreference⟩ :=
    rows_legible {} rfl
  have hunbroken : listedText.Unbroken ∧ executedText.Unbroken ∧ referenceText.Unbroken := by decide
  have hfits : Fits 70 listedText := ⟨by decide, by decide⟩
  have hfits' : Fits 70 executedText := ⟨by decide, by decide⟩
  have hfits'' : Fits 60 listedText := ⟨by decide, by decide⟩
  have hflush : referenceText.Flush := by decide
  have hknown : (Listing.Index.ofLines ["  ".toList ++ listedText]).instruction? 0x10000 =
      some ⟨0x10000, listedText⟩ := by
    rw [Listing.instruction?_ofLines]
    decide +kernel
  have hread : Trace.Executed.read
      ("RDT: Executed PC = 10000 Inst: ".toList ++ executedText ++ [' ']) =
        .ok (some ⟨0x10000, executedText, none, .deep⟩) := by decide +kernel
  have hrecord : Reference.Record.read (referenceText ++ [' ']) =
      .ok (some ⟨.instruction 0x10000, referenceText⟩) := by decide +kernel
  obtain ⟨row, hrow, _, _, _, hseparators, hparts⟩ :=
    hpaired .matching listedText executedText referenceText hunbroken.1 hunbroken.2.1 hunbroken.2.2
  obtain ⟨row', hrow', _, _, _, _, hparts'⟩ :=
    hlisted listedText executedText hunbroken.1 hunbroken.2.1
  refine ⟨⟨hunbroken.1, hunbroken.2.1, hunbroken.2.2, hfits, hfits', hflush, row, hrow,
    (hseparators hfits.length_le hfits'.length_le).1, hparts hfits hfits' hflush⟩, ?_,
    ⟨hfits'', hfits'.flush, row', hrow', hparts' hfits'' hfits'.flush⟩, ?_,
    ⟨hknown, hindex _ _ _ hknown⟩, ⟨hread, hlog _ _ hread⟩, hrecord, hreference _ _ hrecord⟩
  · rw [Ne, hpaired_inj _ _ _ _ _ _ _ _ hfits hfits' hflush hfits hfits' hflush]
    decide
  · rw [Ne, hlisted_inj _ _ _ _ hfits'' hfits'.flush hfits'' hflush]
    decide

end Report

end Lockstep
