import Lockstep.Proofs.Stages
import Lockstep.Proofs.Text.Numerals
import Lockstep.Trace.Executed

/-! The grammar of a log's lines, and the first defect of a line that breaks it.

Every field is looked for from the start of the line and is what follows its first mark, whatever
stands before it. A deep line has an address and an instruction (`DeepLine`), a render line a tick
and an instruction with its address (`RenderLine`), and each is what the reader gives: no other line
has a record. The fields are read in order, so a defect is reported only where all before it is
sound (`DeepDefect`, `RenderDefect`): `executed_grammar`. -/
namespace Lockstep.Trace

open Text (First Follows Token)

/-! ### The grammar -/

def IsDeep (line : Text) : Prop := "RDT: Executed".toList <:+: line

def IsRender (line : Text) : Prop := "Render:".toList <:+: line ∧ "Core".toList <:+: line

/-- The program counter goes up to the next blank or the end of the line. -/
def DeepCounter (line token : Text) : Prop :=
  ∃ rest, Follows "PC = ".toList line rest ∧ Token ' ' rest token

structure DeepLine (line : Text) (record : Executed) : Prop where
  address : ∃ token, DeepCounter line token ∧ Address.read? token = some record.address
  text : ∃ rest, Follows "Inst:".toList line rest ∧ record.text = rest.trim
  tick : record.tick = none
  dialect : record.dialect = .deep

/-- What is wrong first with a deep line. -/
inductive DeepDefect (line : Text) : Malformed → Prop where
  | counter : ¬ "PC = ".toList <:+: line → DeepDefect line (.missingField .deep "PC = ".toList)
  | address {token : Text} : DeepCounter line token → Address.read? token = none →
      DeepDefect line (.invalidAddress token)
  | instruction {token : Text} {address : Address} : DeepCounter line token →
      Address.read? token = some address → ¬ "Inst:".toList <:+: line →
      DeepDefect line (.missingField .deep "Inst:".toList)

/-- The tick's token goes up to the next bracket. -/
def RenderTick (line token : Text) : Prop :=
  ∃ rest, Follows "Render:".toList line rest ∧ ∃ back, First "]".toList rest token back

/-- A tick is a number of 64 bits in decimal digits, with blanks around it or without. -/
def HasTick (line : Text) (tick : Tick) : Prop :=
  ∃ token, RenderTick line token ∧ Tick.Written token.trim tick.toNat

structure RenderLine (line : Text) (record : Executed) : Prop where
  tick : ∃ tick, record.tick = some tick ∧ HasTick line tick
  /-- The address goes up to the next colon, and the text, which begins with it, to a tab. -/
  fetched : ∃ rest, Follows "*I ".toList line rest ∧
    (∃ token back, First ":".toList rest token back ∧ Address.read? token = some record.address) ∧
    ∃ token, Token '\t' rest token ∧ record.text = token.trim
  dialect : record.dialect = .render

/-- What is wrong first with a render line. -/
inductive RenderDefect (line : Text) : Malformed → Prop where
  | bracket {rest : Text} : Follows "Render:".toList line rest → ¬ "]".toList <:+: rest →
      RenderDefect line (.missingField .render "]".toList)
  | tick {token : Text} : RenderTick line token →
      (∀ n, Tick.Written token.trim n → 2 ^ 64 ≤ n) → RenderDefect line (.invalidTick token.trim)
  | instruction {tick : Tick} : HasTick line tick → ¬ "*I ".toList <:+: line →
      RenderDefect line (.missingField .render "*I ".toList)
  | colon {tick : Tick} {rest : Text} : HasTick line tick → Follows "*I ".toList line rest →
      ¬ ":".toList <:+: rest → RenderDefect line (.missingField .render ":".toList)
  | address {tick : Tick} {rest token back : Text} : HasTick line tick →
      Follows "*I ".toList line rest → First ":".toList rest token back →
      Address.read? token = none → RenderDefect line (.invalidAddress token)

/-! ### One field -/

namespace Dialect

variable {dialect : Dialect} {field mark line rest token : Text} {cause : Malformed}

theorem after_eq_ok_iff : dialect.after field line = .ok rest ↔ Follows field line rest := by
  rw [← Text.after?_eq_some_iff, after]
  cases Text.after? field line <;> simp

theorem after_eq_error_iff : dialect.after field line = .error cause ↔
    ¬ field <:+: line ∧ cause = .missingField dialect field := by
  rw [Text.not_infix_iff, ← Text.splitOnce_eq_none_iff, after, Text.after?]
  cases Text.splitOnce field line <;> simp [eq_comm]

theorem before_eq_ok_iff :
    dialect.before mark rest = .ok token ↔ ∃ back, First mark rest token back := by
  rw [← Text.before?_eq_some_iff, before]
  cases Text.before? mark rest <;> simp

theorem before_eq_error_iff : dialect.before mark rest = .error cause ↔
    ¬ mark <:+: rest ∧ cause = .missingField dialect mark := by
  rw [Text.not_infix_iff, ← Text.splitOnce_eq_none_iff, before, Text.before?]
  cases Text.splitOnce mark rest <;> simp [eq_comm]

theorem address_eq_ok_iff {address : Address} :
    Dialect.address token = .ok address ↔ Address.read? token = some address := by
  rw [Dialect.address]
  cases Address.read? token <;> simp

theorem address_eq_error_iff : Dialect.address token = .error cause ↔
    Address.read? token = none ∧ cause = .invalidAddress token := by
  rw [Dialect.address]
  cases Address.read? token <;> simp [eq_comm]

theorem tick_eq_ok_iff {tick : Tick} :
    Dialect.tick token = .ok tick ↔ Tick.Written token tick.toNat := by
  rw [← Tick.read?_eq_some_iff, Dialect.tick]
  cases Tick.read? token <;> simp

theorem tick_eq_error_iff : Dialect.tick token = .error cause ↔
    (∀ n, Tick.Written token n → 2 ^ 64 ≤ n) ∧ cause = .invalidTick token := by
  rw [← Tick.read?_eq_none_iff, Dialect.tick]
  cases Tick.read? token <;> simp [eq_comm]

/-! ### One line -/

theorem readDeep_eq_ok_iff {record : Executed} :
    readDeep line = .ok record ↔ DeepLine line record := by
  unfold readDeep
  simp only [bind_eq_ok_iff, after_eq_ok_iff, address_eq_ok_iff]
  constructor
  · rintro ⟨rest, hcounter, address, haddress, text, htext, hrecord⟩
    cases hrecord
    exact ⟨⟨_, ⟨rest, hcounter, Text.upTo_eq_iff.mp rfl⟩, haddress⟩, ⟨text, htext, rfl⟩, rfl, rfl⟩
  · rintro ⟨⟨token, ⟨rest, hcounter, htoken⟩, haddress⟩, ⟨text, htext, heq⟩, htick, hdialect⟩
    rw [← Text.upTo_eq_iff.mpr htoken] at haddress
    refine ⟨rest, hcounter, record.address, haddress, text, htext, ?_⟩
    rw [← heq, ← htick, ← hdialect]
    rfl

theorem readDeep_eq_error_iff : readDeep line = .error cause ↔ DeepDefect line cause := by
  unfold readDeep
  simp only [bind_eq_error_iff, after_eq_error_iff, address_eq_error_iff, after_eq_ok_iff,
    address_eq_ok_iff]
  constructor
  · rintro (⟨hmissing, rfl⟩ | ⟨rest, hcounter, ⟨hnone, rfl⟩ |
      ⟨address, haddress, ⟨hmissing, rfl⟩ | ⟨text, _, hrecord⟩⟩⟩)
    · exact .counter hmissing
    · exact .address ⟨rest, hcounter, Text.upTo_eq_iff.mp rfl⟩ hnone
    · exact .instruction ⟨rest, hcounter, Text.upTo_eq_iff.mp rfl⟩ haddress hmissing
    · cases hrecord
  · intro h
    cases h with
    | counter hmissing => exact .inl ⟨hmissing, rfl⟩
    | address hcounter hnone =>
      obtain ⟨rest, hrest, htoken⟩ := hcounter
      obtain rfl := Text.upTo_eq_iff.mpr htoken
      exact .inr ⟨rest, hrest, .inl ⟨hnone, rfl⟩⟩
    | instruction hcounter haddress hmissing =>
      obtain ⟨rest, hrest, htoken⟩ := hcounter
      obtain rfl := Text.upTo_eq_iff.mpr htoken
      exact .inr ⟨rest, hrest, .inr ⟨_, haddress, .inl ⟨hmissing, rfl⟩⟩⟩

/-- The first half of a render line. -/
def tickOf (line : Text) : Except Malformed Tick := do
  let rendered ← render.after renderMark line
  let token ← render.before tickEnd rendered
  Dialect.tick token.trim

theorem readRender_eq (line : Text) : readRender line = do
    let tick ← tickOf line
    let fetched ← render.after fetchField line
    let token ← render.before addressEnd fetched
    let address ← Dialect.address token
    return { address, text := (fetched.upTo '\t').trim, tick := some tick, dialect := render } := by
  unfold readRender tickOf
  simp only [bind_assoc]

theorem tickOf_eq_ok_iff {tick : Tick} : tickOf line = .ok tick ↔ HasTick line tick := by
  unfold tickOf
  simp only [bind_eq_ok_iff, after_eq_ok_iff, before_eq_ok_iff, tick_eq_ok_iff]
  constructor
  · rintro ⟨rest, hrest, token, hbracket, hwritten⟩
    exact ⟨token, ⟨rest, hrest, hbracket⟩, hwritten⟩
  · rintro ⟨token, ⟨rest, hrest, hbracket⟩, hwritten⟩
    exact ⟨rest, hrest, token, hbracket, hwritten⟩

/-- Where the mark is known to be in the line, it is not what is missing. -/
theorem tickOf_eq_error_iff (hrender : renderMark <:+: line) : tickOf line = .error cause ↔
    (∃ rest, Follows renderMark line rest ∧ ¬ tickEnd <:+: rest ∧
      cause = .missingField render tickEnd) ∨
    ∃ token, RenderTick line token ∧ (∀ n, Tick.Written token.trim n → 2 ^ 64 ≤ n) ∧
      cause = .invalidTick token.trim := by
  unfold tickOf
  simp only [bind_eq_error_iff, after_eq_error_iff, before_eq_error_iff, tick_eq_error_iff,
    after_eq_ok_iff, before_eq_ok_iff]
  constructor
  · rintro (⟨hmissing, _⟩ | ⟨rest, hrest, hbracket | ⟨token, hbracket, hdefect⟩⟩)
    · exact absurd hrender hmissing
    · exact .inl ⟨rest, hrest, hbracket⟩
    · exact .inr ⟨token, ⟨rest, hrest, hbracket⟩, hdefect⟩
  · rintro (⟨rest, hrest, hbracket⟩ | ⟨token, ⟨rest, hrest, hbracket⟩, hdefect⟩)
    · exact .inr ⟨rest, hrest, .inl hbracket⟩
    · exact .inr ⟨rest, hrest, .inr ⟨token, hbracket, hdefect⟩⟩

theorem readRender_eq_ok_iff {record : Executed} :
    readRender line = .ok record ↔ RenderLine line record := by
  rw [readRender_eq]
  simp only [bind_eq_ok_iff, tickOf_eq_ok_iff, after_eq_ok_iff, before_eq_ok_iff, address_eq_ok_iff]
  constructor
  · rintro ⟨tick, htick, fetched, hfetched, token, ⟨back, hcolon⟩, address, haddress, hrecord⟩
    cases hrecord
    exact ⟨⟨tick, rfl, htick⟩,
      ⟨fetched, hfetched, ⟨token, back, hcolon, haddress⟩, _, Text.upTo_eq_iff.mp rfl, rfl⟩, rfl⟩
  · rintro ⟨⟨tick, hsome, htick⟩,
      ⟨fetched, hfetched, ⟨token, back, hcolon, haddress⟩, text, htext, heq⟩, hdialect⟩
    refine ⟨tick, htick, fetched, hfetched, token, ⟨back, hcolon⟩, record.address, haddress, ?_⟩
    rw [Text.upTo_eq_iff.mpr htext, ← heq, ← hsome, ← hdialect]
    rfl

theorem readRender_eq_error_iff (hrender : renderMark <:+: line) :
    readRender line = .error cause ↔ RenderDefect line cause := by
  rw [readRender_eq]
  simp only [bind_eq_error_iff, tickOf_eq_error_iff hrender, after_eq_error_iff, before_eq_error_iff,
    address_eq_error_iff, tickOf_eq_ok_iff, after_eq_ok_iff, before_eq_ok_iff, address_eq_ok_iff]
  constructor
  · rintro ((⟨rest, hrest, hmissing, rfl⟩ | ⟨token, htoken, hlarge, rfl⟩) | ⟨tick, htick,
      ⟨hmissing, rfl⟩ | ⟨fetched, hfetched, ⟨hmissing, rfl⟩ | ⟨token, ⟨back, hcolon⟩,
        ⟨hnone, rfl⟩ | ⟨address, _, hrecord⟩⟩⟩⟩)
    · exact .bracket hrest hmissing
    · exact .tick htoken hlarge
    · exact .instruction htick hmissing
    · exact .colon htick hfetched hmissing
    · exact .address htick hfetched hcolon hnone
    · cases hrecord
  · intro h
    cases h with
    | bracket hrest hmissing => exact .inl (.inl ⟨_, hrest, hmissing, rfl⟩)
    | tick htoken hlarge => exact .inl (.inr ⟨_, htoken, hlarge, rfl⟩)
    | instruction htick hmissing => exact .inr ⟨_, htick, .inl ⟨hmissing, rfl⟩⟩
    | colon htick hfetched hmissing =>
      exact .inr ⟨_, htick, .inr ⟨_, hfetched, .inl ⟨hmissing, rfl⟩⟩⟩
    | address htick hfetched hcolon hnone =>
      exact .inr ⟨_, htick, .inr ⟨_, hfetched, .inr ⟨_, ⟨_, hcolon⟩, .inl ⟨hnone, rfl⟩⟩⟩⟩

/-! ### Either form -/

theorem marks_deep_iff : deep.marks line = true ↔ IsDeep line := Text.includes_iff

theorem marks_render_iff : render.marks line = true ↔ IsRender line := by
  rw [marks, Bool.and_eq_true, Text.includes_iff, Text.includes_iff]
  rfl

end Dialect

namespace Executed

variable {line : Text}

theorem read_of_isDeep (h : IsDeep line) : read line = (Dialect.readDeep line).map some := by
  rw [read, Dialect.of?, if_pos (Dialect.marks_deep_iff.mpr h)]
  rfl

theorem read_of_isRender (hdeep : ¬ IsDeep line) (h : IsRender line) :
    read line = (Dialect.readRender line).map some := by
  rw [read, Dialect.of?, if_neg (mt Dialect.marks_deep_iff.mp hdeep),
    if_pos (Dialect.marks_render_iff.mpr h)]
  rfl

theorem read_of_neither (hdeep : ¬ IsDeep line) (hrender : ¬ IsRender line) :
    read line = .ok none := by
  rw [read, Dialect.of?, if_neg (mt Dialect.marks_deep_iff.mp hdeep),
    if_neg (mt Dialect.marks_render_iff.mp hrender)]

/-- What a form gives is a record or a defect. -/
theorem map_some_eq_iff (form : Except Malformed Executed) :
    form.map some ≠ .ok none ∧
      (∀ record, form.map some = .ok (some record) ↔ form = .ok record) ∧
      ∀ cause, form.map some = .error cause ↔ form = .error cause := by
  cases form <;> simp [Except.map]

end Executed

/-- **A line is read by its grammar, and fails with its first defect.** A line with the mark of the
deep form is read in that form, whatever else it has. -/
theorem executed_grammar (line : Text) :
    (Executed.read line = .ok none ↔ ¬ IsDeep line ∧ ¬ IsRender line) ∧
    (IsDeep line →
      (∀ record, Executed.read line = .ok (some record) ↔ DeepLine line record) ∧
      ∀ cause, Executed.read line = .error cause ↔ DeepDefect line cause) ∧
    (¬ IsDeep line → IsRender line →
      (∀ record, Executed.read line = .ok (some record) ↔ RenderLine line record) ∧
      ∀ cause, Executed.read line = .error cause ↔ RenderDefect line cause) := by
  by_cases hdeep : IsDeep line
  · obtain ⟨hsome, hrecord, hcause⟩ := Executed.map_some_eq_iff (Dialect.readDeep line)
    rw [Executed.read_of_isDeep hdeep]
    refine ⟨iff_of_false hsome fun h => h.1 hdeep, fun _ => ⟨?_, ?_⟩, fun h => absurd hdeep h⟩
    · exact fun record => (hrecord record).trans Dialect.readDeep_eq_ok_iff
    · exact fun cause => (hcause cause).trans Dialect.readDeep_eq_error_iff
  · by_cases hrender : IsRender line
    · obtain ⟨hsome, hrecord, hcause⟩ := Executed.map_some_eq_iff (Dialect.readRender line)
      rw [Executed.read_of_isRender hdeep hrender]
      refine ⟨iff_of_false hsome fun h => h.2 hrender, fun h => absurd h hdeep,
        fun _ _ => ⟨?_, ?_⟩⟩
      · exact fun record => (hrecord record).trans Dialect.readRender_eq_ok_iff
      · exact fun cause => (hcause cause).trans (Dialect.readRender_eq_error_iff hrender.1)
    · rw [Executed.read_of_neither hdeep hrender]
      exact ⟨iff_of_true rfl ⟨hdeep, hrender⟩, fun h => absurd h hdeep,
        fun _ h => absurd h hrender⟩

-- The instruction stands first, and takes the rest of the line with it.
example : Executed.read "Inst: nop PC = 10 RDT: Executed".toList =
    .ok (some ⟨0x10, "nop PC = 10 RDT: Executed".toList, none, .deep⟩) := by decide

-- One bracket ends the tick and another one stands where the address should.
example : Executed.read "Core *I ]: Render: +7 ]".toList =
    .error (.invalidAddress "]".toList) := by decide

end Lockstep.Trace
