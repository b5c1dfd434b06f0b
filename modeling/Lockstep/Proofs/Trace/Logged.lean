import Lockstep.Proofs.Text.Encoding
import Lockstep.Proofs.Text.Numerals
import Lockstep.Trace.Executed

/-! Executed instructions written to a log and read back.

An entry of a log is written in one of the two dialects (`Entry.line`). Its texts are free: they may
hold field names, delimiters and the marks of the other dialect. What decides is that each field is
looked for from the start of the line, and that nothing written before it could be taken for it, so
the reader finds every field where it was written (`read_deep`, `read_render`). A render entry only
must not have the mark of the deep form, which would be looked at first. The carriage return that an
entry may end with goes with its line feed, and it is a blank at an end of a text (`chomp`). So a
log of entries is read entry by entry: `read_logged`. -/
namespace Lockstep

/-! ### Carriage returns -/

theorem dropReturn_append {α : Type} [BEq α] [LawfulBEq α] {cr : α} {front : List α}
    (h : front.getLast? ≠ some cr) (back : List α) :
    dropReturn cr (front ++ back) = front ++ dropReturn cr back := by
  rcases List.eq_nil_or_concat' back with rfl | ⟨back, last, rfl⟩
  · rw [List.append_nil, dropReturn_of_ne h]
    exact (List.append_nil front).symm
  · by_cases hlast : last = cr
    · subst hlast
      rw [← List.append_assoc, dropReturn_concat, dropReturn_concat]
    · have hne : ∀ items : List α, (items ++ [last]).getLast? ≠ some cr := by
        intro items
        rw [List.getLast?_concat]
        simpa using hlast
      rw [dropReturn_of_ne (hne back), ← List.append_assoc, dropReturn_of_ne (hne (front ++ back))]

theorem dropReturn_infix {α : Type} [BEq α] (cr : α) (piece : List α) :
    dropReturn cr piece <:+: piece := by
  unfold dropReturn
  split
  · exact (List.dropLast_prefix piece).isInfix
  · exact List.infix_rfl

theorem Text.trim_dropReturn (text : Text) : trim (dropReturn '\r' text) = trim text := by
  unfold dropReturn
  split
  · next h =>
    obtain ⟨front, rfl⟩ := List.getLast?_eq_some_iff.mp (eq_of_beq h)
    rw [List.dropLast_concat, trim_concat_of_isBlank (by decide)]
  · rfl

namespace Trace

/-! ### Entries -/

/-- An executed instruction as a simulator logs it. -/
inductive Entry where
  | deep (address : Address) (text : Text)
  /-- The text ends at a tab; the rest of the line tells the instruction's effects. -/
  | render (tick : Tick) (address : Address) (text rest : Text)
  deriving DecidableEq, Repr

namespace Entry

/-- What a render line shows of an instruction: where it lies, and then its text. -/
def fetched (address : Address) (text : Text) : Text := address.marked ++ ":0000 ".toList ++ text

/-- What stands before the instruction on a render line. -/
def clocked (tick : Tick) : Text :=
  "RevCPU[cpu0:Render:".toList ++ tick.decimal ++ "]: Core 0; Hart 0; Thread 1]; *I ".toList

def line : Entry → Text
  | deep address text => "RDT: Executed PC = ".toList ++ address.hex ++ " Inst: ".toList ++ text
  | render tick address text rest => clocked tick ++ fetched address text ++ '\t' :: rest

theorem line_render (tick : Tick) (address : Address) (text rest : Text) :
    (render tick address text rest).line =
      clocked tick ++ (fetched address text ++ '\t' :: rest) := List.append_assoc ..

/-- The record that an entry stands for. -/
def record : Entry → Executed
  | deep address text => { address, text := text.trim, tick := none, dialect := .deep }
  | render tick address text _ =>
    { address, text := (fetched address text).trim, tick := some tick, dialect := .render }

/-- What an entry's texts must be for a line of its own in the dialect of the entry. -/
def Fits : Entry → Prop
  | deep _ text => text.Unbroken
  | render tick address text rest =>
    '\t' ∉ text ∧ text.Unbroken ∧ rest.Unbroken ∧
      Text.includes Dialect.executedMark (line (render tick address text rest)) = false

end Entry

/-! ### Fields found where they were written -/

namespace Dialect

/-- A field is found behind a front without its first character. -/
theorem after_eq {dialect : Dialect} {field line : Text} {c : Char} (front rest : Text)
    (hfield : field.head? = some c) (hline : line = front ++ (field ++ rest)) (hfront : c ∉ front) :
    dialect.after field line = .ok rest := by
  obtain ⟨tail, rfl⟩ := List.head?_eq_some_iff.mp hfield
  rw [after, Text.after?, hline, Text.splitOnce_of_not_mem hfront]
  rfl

/-- A token ends where its mark begins, if it has not the mark's first character. -/
theorem before_eq {dialect : Dialect} {mark rest : Text} {c : Char} (token back : Text)
    (hmark : mark.head? = some c) (hrest : rest = token ++ (mark ++ back)) (htoken : c ∉ token) :
    dialect.before mark rest = .ok token := by
  obtain ⟨tail, rfl⟩ := List.head?_eq_some_iff.mp hmark
  rw [before, Text.before?, hrest, Text.splitOnce_of_not_mem htoken]
  rfl

theorem head?_counterField : counterField.head? = some 'P' := by decide

theorem head?_instructionField : instructionField.head? = some 'I' := by decide

theorem head?_fetchField : fetchField.head? = some '*' := by decide

theorem head?_tickEnd : tickEnd.head? = some ']' := by decide

theorem head?_addressEnd : addressEnd.head? = some ':' := by decide

theorem address_hex (address : Address) : Dialect.address address.hex = .ok address := by
  rw [Dialect.address, Address.read?_hex]

theorem address_marked (address : Address) : Dialect.address address.marked = .ok address := by
  rw [Dialect.address, Address.read?_marked]

theorem tick_decimal (tick : Tick) : Dialect.tick tick.decimal.trim = .ok tick := by
  rw [Dialect.tick, Text.trim_of_forall_not_isBlank tick.not_isBlank_decimal, Tick.read?_decimal]

theorem readDeep_line (address : Address) (text : Text) :
    readDeep (Entry.deep address text).line = .ok (Entry.deep address text).record := by
  have hcounter : deep.after counterField (Entry.deep address text).line =
      .ok (address.hex ++ ' ' :: ("Inst: ".toList ++ text)) := by
    refine after_eq "RDT: Executed ".toList _ head?_counterField ?_ (by simp)
    unfold Entry.line counterField
    simp
  have htoken : Text.upTo (address.hex ++ ' ' :: ("Inst: ".toList ++ text)) ' ' = address.hex :=
    Text.upTo_append_of_not_mem (Address.not_mem_hex (by decide) address) _
  have htext : deep.after instructionField (Entry.deep address text).line = .ok (' ' :: text) := by
    refine after_eq ("RDT: Executed PC = ".toList ++ address.hex ++ [' ']) _
      head?_instructionField ?_ (by simpa using Address.not_mem_hex (by decide) address)
    unfold Entry.line instructionField
    simp
  rw [readDeep, hcounter, htext]
  simp only [bind, Except.bind, htoken, address_hex]
  rw [Text.trim_cons_of_isBlank (by decide)]
  rfl

/-- The tick follows the first mark of the dialect: before it there is one letter like the first of
the mark, and the mark does not begin there. -/
theorem after_renderMark (tick : Tick) (back : Text) :
    render.after renderMark (Entry.clocked tick ++ back) =
      .ok (tick.decimal ++ ("]: Core 0; Hart 0; Thread 1]; *I ".toList ++ back)) := by
  have hline : Entry.clocked tick ++ back =
      'R' :: ("evCPU[cpu0:".toList ++ ('R' :: "ender:".toList ++
      (tick.decimal ++ ("]: Core 0; Hart 0; Thread 1]; *I ".toList ++ back)))) := by
    unfold Entry.clocked
    simp
  have hmark : renderMark = 'R' :: "ender:".toList := by
    unfold renderMark
    simp
  rw [after, Text.after?, hline, Text.splitOnce_cons, hmark,
    Text.splitOnce_of_not_mem (by simp)]
  simp [List.isPrefixOf]

theorem after_fetchField (tick : Tick) (back : Text) :
    render.after fetchField (Entry.clocked tick ++ back) = .ok back := by
  refine after_eq ("RevCPU[cpu0:Render:".toList ++ tick.decimal ++
    "]: Core 0; Hart 0; Thread 1]; ".toList) _ head?_fetchField ?_
    (by simpa using Tick.not_mem_decimal (by decide) tick)
  unfold Entry.clocked fetchField
  simp

/-- Neither a delimiter nor a blank is in an address, with its mark or without. -/
theorem not_mem_marked {c : Char} (hdigit : ∀ d < 16, Nat.digitChar d ≠ c) (hmark : c ≠ 'x')
    (address : Address) : c ∉ address.marked := by
  have hzero : c ≠ '0' := (hdigit 0 (by decide)).symm
  unfold Address.marked
  simpa [hmark, hzero] using Address.not_mem_hex hdigit address

theorem readRender_line (tick : Tick) (address : Address) {text : Text} (htext : '\t' ∉ text)
    (rest : Text) : readRender (Entry.render tick address text rest).line =
      .ok (Entry.render tick address text rest).record := by
  have htick : ∀ back, render.before tickEnd
      (tick.decimal ++ ("]: Core 0; Hart 0; Thread 1]; *I ".toList ++ back)) =
        .ok tick.decimal := by
    intro back
    refine before_eq _ (": Core 0; Hart 0; Thread 1]; *I ".toList ++ back) head?_tickEnd ?_
      (Tick.not_mem_decimal (by decide) tick)
    unfold tickEnd
    simp
  have haddress : render.before addressEnd (Entry.fetched address text ++ '\t' :: rest) =
      .ok address.marked := by
    refine before_eq _ ("0000 ".toList ++ text ++ '\t' :: rest) head?_addressEnd ?_
      (not_mem_marked (by decide) (by decide) address)
    unfold Entry.fetched addressEnd
    simp
  have htab : '\t' ∉ Entry.fetched address text := by
    unfold Entry.fetched
    simpa [htext] using not_mem_marked (by decide) (by decide) address
  unfold readRender
  rw [Entry.line_render, after_renderMark, after_fetchField]
  simp only [bind, Except.bind, htick, tick_decimal, haddress, address_marked,
    Text.upTo_append_of_not_mem htab]
  rfl

end Dialect

namespace Entry

theorem of?_line {entry : Entry} (h : entry.Fits) :
    Dialect.of? entry.line = some entry.record.dialect := by
  cases entry with
  | deep address text =>
    have hmark : Dialect.executedMark <:+: (deep address text).line := by
      refine ⟨[], " PC = ".toList ++ address.hex ++ " Inst: ".toList ++ text, ?_⟩
      unfold line Dialect.executedMark
      simp
    rw [Dialect.of?, Dialect.marks, if_pos (Text.includes_iff.mpr hmark)]
    rfl
  | render tick address text rest =>
    obtain ⟨_, _, _, hexecuted⟩ := h
    have hrender : Dialect.renderMark <:+: (render tick address text rest).line := by
      refine ⟨"RevCPU[cpu0:".toList, tick.decimal ++ "]: Core 0; Hart 0; Thread 1]; *I ".toList ++
        fetched address text ++ '\t' :: rest, ?_⟩
      unfold line clocked Dialect.renderMark
      simp
    have hcore : Dialect.coreMark <:+: (render tick address text rest).line := by
      refine ⟨"RevCPU[cpu0:Render:".toList ++ tick.decimal ++ "]: ".toList,
        " 0; Hart 0; Thread 1]; *I ".toList ++ fetched address text ++ '\t' :: rest, ?_⟩
      unfold line clocked Dialect.coreMark
      simp
    rw [Dialect.of?, Dialect.marks, hexecuted, if_neg (by decide), Dialect.marks,
      Text.includes_iff.mpr hrender, Text.includes_iff.mpr hcore]
    rfl

/-- **An entry is read as the record that it stands for.** -/
theorem read_line {entry : Entry} (h : entry.Fits) :
    Executed.read entry.line = .ok (some entry.record) := by
  rw [Executed.read, of?_line h]
  cases entry with
  | deep address text => exact congrArg (Except.map some) (Dialect.readDeep_line address text)
  | render tick address text rest =>
    exact congrArg (Except.map some) (Dialect.readRender_line tick address h.1 rest)

/-! ### Entries in a log -/

theorem unbroken_line {entry : Entry} (h : entry.Fits) : entry.line.Unbroken := by
  cases entry with
  | deep address text =>
    have htext : '\n' ∉ text := h
    have hhex : '\n' ∉ address.hex := Address.not_mem_hex (by decide) address
    unfold Text.Unbroken line
    simp [hhex, htext]
  | render tick address text rest =>
    obtain ⟨_, htext, hrest, _⟩ := h
    rw [Text.Unbroken] at htext hrest
    have hdecimal : '\n' ∉ tick.decimal := Tick.not_mem_decimal (by decide) tick
    have hmarked : '\n' ∉ address.marked := Dialect.not_mem_marked (by decide) (by decide) address
    unfold Text.Unbroken line clocked fetched
    simp [hdecimal, hmarked, htext, hrest]

/-- An entry without the carriage return at its end. -/
def chomp : Entry → Entry
  | deep address text => deep address (dropReturn '\r' text)
  | render tick address text rest => render tick address text (dropReturn '\r' rest)

theorem dropReturn_line (entry : Entry) : dropReturn '\r' entry.line = entry.chomp.line := by
  cases entry with
  | deep address text =>
    refine dropReturn_append ?_ text
    rw [List.getLast?_append_of_ne_nil _ (by decide)]
    decide
  | render tick address text rest =>
    have hline : ∀ rest, (render tick address text rest).line =
        clocked tick ++ fetched address text ++ ['\t'] ++ rest := by
      intro rest
      unfold line
      simp
    unfold chomp
    rw [hline, hline]
    refine dropReturn_append ?_ rest
    rw [List.getLast?_concat]
    decide

theorem record_chomp (entry : Entry) : entry.chomp.record = entry.record := by
  cases entry with
  | deep address text => rw [chomp, record, Text.trim_dropReturn, record]
  | render tick address text rest => rfl

theorem fits_chomp {entry : Entry} (h : entry.Fits) : entry.chomp.Fits := by
  cases entry with
  | deep address text => exact Text.Unbroken.of_subset (dropReturn_subset '\r' text) h
  | render tick address text rest =>
    obtain ⟨htab, htext, hrest, hmark⟩ := h
    refine ⟨htab, htext, Text.Unbroken.of_subset (dropReturn_subset '\r' rest) hrest, ?_⟩
    have hline : (render tick address text (dropReturn '\r' rest)).line <:+:
        (render tick address text rest).line :=
      dropReturn_line (render tick address text rest) ▸ dropReturn_infix '\r' _
    exact Text.not_includes_of_infix hmark hline

end Entry

/-- **The entries of a log, written one a line in any mix of the dialects, are read back one by
one.** -/
theorem read_logged {entries : List Entry} (h : ∀ entry ∈ entries, entry.Fits) :
    (Stream.textLines (Utf8.encode (entries.flatMap fun entry => entry.line.line))).map
        Executed.read =
      entries.map fun entry => .ok (some entry.record) := by
  have hlines : ∀ line ∈ entries.map Entry.line, line.Unbroken :=
    List.forall_mem_map.mpr fun entry hentry => Entry.unbroken_line (h entry hentry)
  rw [← List.flatMap_map, Stream.textLines_encode hlines, List.map_map, List.map_map]
  refine List.map_congr_left fun entry hentry => ?_
  rw [Function.comp_apply, Function.comp_apply, Entry.dropReturn_line,
    Entry.read_line (Entry.fits_chomp (h entry hentry)), Entry.record_chomp]

/-- The last addresses and ticks, and texts with the marks and delimiters of both dialects. -/
def misleading : List Entry :=
  [.deep 0xFFFFFFFFFFFFFFFF "PC = 10 Inst: Render:7]: Core *I 0x20:x\tRDT: Executed\r".toList,
    .render 0xFFFFFFFFFFFFFFFF 0x1B24C "*I Render:1] PC = 0:Inst: é".toList "Core\t:]\r".toList,
    .deep 0 [], .render 0 0 [] []]

theorem fits_misleading : ∀ entry ∈ misleading, entry.Fits := by
  simp only [misleading, List.forall_mem_cons, List.not_mem_nil, false_imp_iff, implies_true,
    and_true]
  unfold Entry.Fits Text.Unbroken
  decide +kernel

/-- Each of the texts is read as it was written. -/
theorem read_logged_misleading : (∀ entry ∈ misleading, entry.Fits) ∧
    (Stream.textLines (Utf8.encode (misleading.flatMap fun entry => entry.line.line))).map
        Executed.read =
      [{ address := 0xFFFFFFFFFFFFFFFF
         text := "PC = 10 Inst: Render:7]: Core *I 0x20:x\tRDT: Executed".toList
         tick := none, dialect := .deep },
       { address := 0x1B24C, text := "0x1b24c:0000 *I Render:1] PC = 0:Inst: é".toList
         tick := some 0xFFFFFFFFFFFFFFFF, dialect := .render },
       { address := 0, text := [], tick := none, dialect := .deep },
       { address := 0, text := "0x0:0000".toList, tick := some 0, dialect := .render }].map
        fun record => .ok (some record) := by
  refine ⟨fits_misleading, (read_logged fits_misleading).trans ?_⟩
  decide +kernel

end Trace

end Lockstep
