import Lockstep.Proofs.CallStack.Query
import Lockstep.Proofs.Listing.Coherence

/-! Executions of functions that call each other and return.

A listing that has each address once keeps the boundaries of its functions apart: an address is
in one block at most (`eq_of_mem_body`), so a callable function pushes its own label and pops its
own frame, and no other. By induction over the nesting of calls the stack at every instruction is
then the stack before the call and the functions active there (`stack_of_execution`). -/
namespace Lockstep

namespace Listing

/-! ### Callable functions -/

/-- A block with two instructions or more that a further label ends. -/
structure Callable (lines : List Line) where
  block : Block
  mem_blocks : block ∈ blocks lines
  two_le : 2 ≤ block.body.length
  closed : block.closed = true

namespace Callable
variable {lines : List Line} (function : Callable lines)

def label : Text := function.block.label

theorem body_ne_nil : function.block.body ≠ [] :=
  List.ne_nil_of_length_pos (Nat.lt_of_lt_of_le Nat.two_pos function.two_le)

def first : Address := function.block.body.head function.body_ne_nil

def last : Address := function.block.body.getLast function.body_ne_nil

theorem first?_block : function.block.first? = some function.first :=
  List.head?_eq_some_head function.body_ne_nil

theorem last?_block : function.block.last? = some function.last :=
  List.getLast?_eq_some_getLast function.body_ne_nil

theorem first_ne_last (hdistinct : (addresses lines).Nodup) : function.first ≠ function.last := by
  have hbody := nodup_body hdistinct function.mem_blocks
  have htwo := function.two_le
  rw [first, last, List.head_eq_getElem, List.getLast_eq_getElem, ne_eq, hbody.getElem_inj_iff]
  omega

/-- Entering a callable function pushes its label. -/
theorem move_first (hdistinct : (addresses lines).Nodup) (stack : CallStack) :
    Watch.move (Index.ofClassified lines) function.first stack = stack.push function.label := by
  have hmem : function.first ∈ function.block.body := List.head_mem _
  rw [Watch.move, Watch.leave, Watch.enter,
    return?_of_mem_body hdistinct function.mem_blocks hmem,
    start?_of_mem_body hdistinct function.mem_blocks hmem, first?_block, last?_block]
  simp [(function.first_ne_last hdistinct).symm, label]

/-- Leaving it pops one frame. -/
theorem move_last (hdistinct : (addresses lines).Nodup) (stack : CallStack) :
    Watch.move (Index.ofClassified lines) function.last stack = stack.pop := by
  have hmem : function.last ∈ function.block.body := List.getLast_mem _
  rw [Watch.move, Watch.leave, Watch.enter,
    return?_of_mem_body hdistinct function.mem_blocks hmem,
    start?_of_mem_body hdistinct function.mem_blocks hmem, first?_block, last?_block,
    function.closed]
  simp [function.first_ne_last hdistinct]

end Callable

end Listing

open Listing (Callable Line)

/-! ### Nested executions -/

/-- An executed address, and the functions active once it is executed, the outermost first. -/
structure Visit where
  address : Address
  active : List Text := []

def Visit.under (caller : Text) (visit : Visit) : Visit :=
  { visit with active := caller :: visit.active }

/-- A function from its first instruction, from which on it is active, to its last. -/
def Listing.Callable.execution {lines : List Line} (function : Callable lines) (body : List Visit) :
    List Visit :=
  ⟨function.first, [function.label]⟩ :: body.map (Visit.under function.label) ++ [⟨function.last, []⟩]

/-- What is executed inside a function: plain addresses, and complete executions of functions. -/
inductive Nested (lines : List Line) : List Visit → Prop where
  | done : Nested lines []
  /-- An address that is no function's first or last instruction. -/
  | plain {address : Address} {rest : List Visit} :
      (Listing.Index.ofClassified lines).start? address = none →
      (Listing.Index.ofClassified lines).return? address = none →
      Nested lines rest → Nested lines (⟨address, []⟩ :: rest)
  | call (function : Callable lines) {body rest : List Visit} :
      Nested lines body → Nested lines rest → Nested lines (function.execution body ++ rest)

namespace CallStack

/-- The stack with functions called from its top. -/
def calling (stack : CallStack) (active : List Text) : CallStack :=
  { stack with above := active.reverse ++ stack.above }

@[simp]
theorem calling_nil (stack : CallStack) : stack.calling [] = stack := rfl

theorem calling_cons (stack : CallStack) (caller : Text) (active : List Text) :
    stack.calling (caller :: active) = (stack.push caller).calling active := by
  simp [calling, push]

theorem pop_push (stack : CallStack) (label : Text) : (stack.push label).pop = stack := rfl

theorem labels_calling (stack : CallStack) (active : List Text) :
    (stack.calling active).labels = stack.labels ++ active := by
  simp [labels, calling]

end CallStack

namespace Watch

/-- The stack after an address, as state and as answer. -/
def moved (index : Listing.Index) (stack : CallStack) (address : Address) : CallStack × CallStack :=
  (move index address stack, move index address stack)

/-- The visits of a run tell its stack at each address, and it ends with the stack it began with. -/
def Tells (index : Listing.Index) (visits : List Visit) : Prop :=
  ∀ stack : CallStack, history (moved index) stack (visits.map Visit.address) =
    (stack, visits.map (stack.calling ·.active))

variable {lines : List Line}

theorem Tells.append {index : Listing.Index} {front back : List Visit} (hfront : Tells index front)
    (hback : Tells index back) : Tells index (front ++ back) := by
  intro stack
  rw [List.map_append, history_append, hfront stack, hback stack, List.map_append]

theorem tells_execution (hdistinct : (Listing.addresses lines).Nodup) (function : Callable lines)
    {body : List Visit} (hbody : Tells (Listing.Index.ofClassified lines) body) :
    Tells (Listing.Index.ofClassified lines) (function.execution body) := by
  intro stack
  have hinner := hbody (stack.push function.label)
  have hunder : (body.map (Visit.under function.label)).map Visit.address =
      body.map Visit.address := by
    rw [List.map_map]
    rfl
  rw [Callable.execution, List.cons_append, List.map_cons, history_cons, List.map_append, hunder,
    moved, function.move_first hdistinct, history_append, hinner, List.map_singleton, history_cons,
    moved, function.move_last hdistinct]
  simp [Visit.under, Function.comp_def, CallStack.calling_cons, CallStack.pop_push]

theorem tells_of_nested (hdistinct : (Listing.addresses lines).Nodup) {visits : List Visit}
    (h : Nested lines visits) : Tells (Listing.Index.ofClassified lines) visits := by
  induction h with
  | done => exact fun stack => rfl
  | @plain address rest hstart hreturn _ ih =>
    intro stack
    have hmove : move (Listing.Index.ofClassified lines) address stack = stack := by
      rw [move, leave, enter, hstart, hreturn]
    rw [List.map_cons, history_cons, moved, hmove, ih stack]
    rfl
  | call function _ _ ihbody ihrest => exact (tells_execution hdistinct function ihbody).append ihrest

theorem history_moved (index : Listing.Index) (stack : CallStack) (addresses : List Address) :
    (history (moved index) stack addresses).1 = stackAfter index stack addresses := by
  induction addresses generalizing stack with
  | nil => rfl
  | cons address addresses ih =>
    rw [history_cons]
    exact ih _

/-- Where the visits of a run tell its stack, they tell it after each address. -/
theorem Tells.stackAfter_take {index : Listing.Index} {visits : List Visit}
    (h : Tells index visits) (stack : CallStack) {i : Nat} {visit : Visit}
    (hvisit : visits[i]? = some visit) :
    stackAfter index stack ((visits.take (i + 1)).map Visit.address) = stack.calling visit.active := by
  have hanswer := getElem?_history (moved index) stack (visits.map Visit.address) i
  rw [h stack, List.getElem?_map, List.getElem?_map, hvisit, ← List.map_take, history_moved] at hanswer
  rw [List.take_add_one, hvisit, List.map_append, stackAfter, List.foldl_append]
  exact (Option.some.inj hanswer).symm

/-- **While functions call each other and return, the stack is what it was before and the functions
active.** -/
theorem stack_of_execution (lines : List Text)
    (hdistinct : (Listing.addresses (lines.map Line.read)).Nodup)
    (function : Callable (lines.map Line.read)) {body : List Visit}
    (hbody : Nested (lines.map Line.read) body) (root : Text) (query : Option Tick)
    (front inner : List Trace.Executed)
    (hinner : inner.map (·.address) = (function.execution body).map Visit.address) :
    let index := Listing.Index.ofLines lines
    let before := (history (step index) (rooted root query) front).1
    let run := history (step index) (rooted root query) (front ++ inner)
    (∀ i visit, (function.execution body)[i]? = some visit →
      (history (step index) before (inner.take (i + 1))).1.stack.labels =
        before.stack.labels ++ visit.active) ∧
    run.1.stack = before.stack ∧
    ∀ i visit, (function.execution body)[i]? = some visit →
      (front ++ inner).findIdx? (carries query) = some (front.length + i) →
      ∃ tick ∈ query, (run.2[front.length + i]?).bind (·.snapshot) =
        some ⟨tick, visit.address, before.stack.labels ++ visit.active⟩ := by
  intro index before run
  have htells : Tells index (function.execution body) :=
    tells_execution hdistinct function (tells_of_nested hdistinct hbody)
  have hstack : ∀ i visit, (function.execution body)[i]? = some visit →
      stackAfter index before.stack ((inner.take (i + 1)).map (·.address)) =
        before.stack.calling visit.active := by
    intro i visit hvisit
    rw [List.map_take, hinner, ← List.map_take, htells.stackAfter_take before.stack hvisit]
  have hbefore : before.stack = stackAfter index { root } (front.map (·.address)) :=
    stack_history index (rooted root query) front
  refine ⟨?_, ?_, ?_⟩
  · intro i visit hvisit
    rw [stack_history, hstack i visit hvisit, CallStack.labels_calling]
  · rw [show run = _ from history_append (step index) (rooted root query) front inner]
    show (history (step index) before inner).1.stack = before.stack
    rw [stack_history, hinner, ← history_moved, htells before.stack]
  · intro i visit hvisit hfirst
    obtain ⟨record, hrecord, haddress⟩ : ∃ record, inner[i]? = some record ∧
        record.address = visit.address := by
      have hsame := congrArg (·[i]?) hinner
      simpa only [List.getElem?_map, hvisit, Option.map_some, Option.map_eq_some_iff] using hsame
    have hnext : (front ++ inner)[front.length + i]? = some record := by
      rw [List.getElem?_append_right (Nat.le_add_right _ _), Nat.add_sub_cancel_left, hrecord]
    obtain ⟨-, hcarries⟩ :=
      Bool.and_eq_true_iff.mp ((findIdx?_eq_some_iff_take (carries query) hnext).mp hfirst)
    obtain ⟨htick, hquery⟩ := Bool.and_eq_true_iff.mp hcarries
    obtain ⟨tick, htick⟩ := Option.isSome_iff_exists.mp htick
    have hanswer := snapshot_history index root query (front ++ inner) (front.length + i)
    rw [hnext, Option.map_some, if_pos hfirst, htick, Option.map_some, Nat.add_assoc,
      List.take_length_add_append, List.map_append, stackAfter, List.foldl_append, ← stackAfter,
      ← stackAfter, ← hbefore, hstack i visit hvisit, CallStack.labels_calling, haddress] at hanswer
    obtain ⟨movement, hmovement, hsnapshot⟩ := Option.map_eq_some_iff.mp hanswer
    refine ⟨tick, ?_, ?_⟩
    · rw [← eq_of_beq hquery, htick]
      rfl
    · rw [show run.2[front.length + i]? = _ from hmovement, Option.bind_some, hsnapshot]

/-! ### One call -/

/-- The listing of a function, one that it calls, and a label behind both. -/
def callLines : List Text :=
  ["0000000000010000 <main>:".toList, "   10000:\t1141\taddi\tsp,sp,-16".toList,
    "   10002:\t2021\tjal\tra,10008 <foo>".toList, "   10006:\t8082\tret".toList,
    "0000000000010008 <foo>:".toList, "   10008:\t4501\tli\ta0,0".toList,
    "   1000a:\t8082\tret".toList, "000000000001000c <bar>:".toList]

def caller : Callable (callLines.map Line.read) :=
  ⟨⟨"main".toList, [0x10000, 0x10002, 0x10006], true⟩, by decide, by decide, rfl⟩

def callee : Callable (callLines.map Line.read) :=
  ⟨⟨"foo".toList, [0x10008, 0x1000a], true⟩, by decide, by decide, rfl⟩

/-- The call, and its complete execution. -/
def inside : List Visit := ⟨0x10002, []⟩ :: (callee.execution [] ++ [])

theorem nested_inside : Nested (callLines.map Line.read) inside := by
  refine .plain ?_ ?_ (.call callee .done .done)
  · rw [Listing.start?_ofClassified]
    decide
  · rw [Listing.return?_ofClassified]
    decide

/-- The instructions of one run, at the ticks from one on. -/
def callRecords : List Trace.Executed :=
  [⟨0x10000, [], some 1, .render⟩, ⟨0x10002, [], some 2, .render⟩, ⟨0x10008, [], some 3, .render⟩,
    ⟨0x1000a, [], some 4, .render⟩, ⟨0x10006, [], some 5, .render⟩]

/-- Inside the function called, the stack is the root and the two active functions. -/
theorem stack_inside :
    (Listing.addresses (callLines.map Line.read)).Nodup ∧ Nested (callLines.map Line.read) inside ∧
    callRecords.map (·.address) = (caller.execution inside).map Visit.address ∧
    ∃ tick ∈ some (3 : Tick),
      ((history (step (Listing.Index.ofLines callLines)) (rooted "main".toList (some 3))
        ([] ++ callRecords)).2[2]?).bind (·.snapshot) =
        some ⟨tick, 0x10008, ["main".toList, "main".toList, "foo".toList]⟩ := by
  have hdistinct : (Listing.addresses (callLines.map Line.read)).Nodup := by decide
  have hexecuted : callRecords.map (·.address) = (caller.execution inside).map Visit.address := by decide
  refine ⟨hdistinct, nested_inside, hexecuted, ?_⟩
  exact (stack_of_execution callLines hdistinct caller nested_inside "main".toList (some 3) [] callRecords
    hexecuted).2.2 2 ⟨0x10008, ["main".toList, "foo".toList]⟩ rfl (by decide)

end Watch

end Lockstep
