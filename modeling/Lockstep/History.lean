/-! Machines run over histories.

A machine is a step: from a state and an item to the next state and an answer. Over a
history it gives one answer to each item and the state it ends in, and a history in two
parts is run part by part (`history_append`). -/
namespace Lockstep

variable {σ ι ω : Type}

/-- The state after a history, and the answer to each of its items. -/
def history (step : σ → ι → σ × ω) (state : σ) (items : List ι) : σ × List ω :=
  let (last, answers) := items.foldl (fun (state, answers) item =>
    let (next, answer) := step state item
    (next, answer :: answers)) (state, [])
  (last, answers.reverse)

theorem foldl_history (step : σ → ι → σ × ω) (items : List ι) (state : σ) (answers : List ω) :
    items.foldl (fun (state, answers) item =>
      let (next, answer) := step state item
      (next, answer :: answers)) (state, answers) =
    ((history step state items).1, (history step state items).2.reverse ++ answers) := by
  induction items generalizing state answers with
  | nil => simp [history]
  | cons item items ih =>
    simp only [history, List.foldl_cons] at ih ⊢
    rw [ih, ih _ [(step state item).2]]
    simp

@[simp]
theorem history_nil (step : σ → ι → σ × ω) (state : σ) : history step state [] = (state, []) := rfl

theorem history_cons (step : σ → ι → σ × ω) (state : σ) (item : ι) (items : List ι) :
    history step state (item :: items) =
      ((history step (step state item).1 items).1,
        (step state item).2 :: (history step (step state item).1 items).2) := by
  rw [history, List.foldl_cons, foldl_history]
  simp

theorem history_append (step : σ → ι → σ × ω) (state : σ) (front back : List ι) :
    history step state (front ++ back) =
      ((history step (history step state front).1 back).1,
        (history step state front).2 ++ (history step (history step state front).1 back).2) := by
  induction front generalizing state with
  | nil => simp
  | cons item front ih => simp [history_cons, ih]

/-- There is one answer to each item. -/
theorem length_history (step : σ → ι → σ × ω) (state : σ) (items : List ι) :
    (history step state items).2.length = items.length := by
  induction items generalizing state with
  | nil => rfl
  | cons item items ih => simp [history_cons, ih]

/-- An answer is the step's from the state that the items before it lead to. -/
theorem getElem?_history (step : σ → ι → σ × ω) (state : σ) (items : List ι) (i : Nat) :
    (history step state items).2[i]? =
      items[i]?.map fun item => (step (history step state (items.take i)).1 item).2 := by
  induction items generalizing state i with
  | nil => rfl
  | cons item items ih =>
    rw [history_cons]
    cases i with
    | zero => rfl
    | succ i =>
      rw [List.getElem?_cons_succ, List.getElem?_cons_succ, List.take_succ_cons, ih, history_cons]

/-- Answers of a class that an item alone decides are as many as the items of a class. -/
theorem countP_history {step : σ → ι → σ × ω} {p : ω → Bool} {q : ι → Bool}
    (h : ∀ state item, p (step state item).2 = q item) (state : σ) (items : List ι) :
    (history step state items).2.countP p = items.countP q := by
  induction items generalizing state with
  | nil => rfl
  | cons item items ih => rw [history_cons, List.countP_cons, List.countP_cons, ih, h]

/-- A part of a machine that only some items move, each by an input that it holds, runs over these
inputs alone. -/
theorem history_part {τ κ ψ : Type} {step : σ → ι → σ × ω} {part : τ → κ → τ × ψ} (view : σ → τ)
    (input? : ι → Option κ) (answer? : ω → Option ψ)
    (hidle : ∀ state item, input? item = none →
      view (step state item).1 = view state ∧ answer? (step state item).2 = none)
    (hmove : ∀ state item input, input? item = some input →
      view (step state item).1 = (part (view state) input).1 ∧
        answer? (step state item).2 = some (part (view state) input).2)
    (state : σ) (items : List ι) :
    view (history step state items).1 =
        (history part (view state) (items.filterMap input?)).1 ∧
      (history step state items).2.filterMap answer? =
        (history part (view state) (items.filterMap input?)).2 := by
  induction items generalizing state with
  | nil => exact ⟨rfl, rfl⟩
  | cons item items ih =>
    obtain ⟨hlast, hanswers⟩ := ih (step state item).1
    rw [history_cons]
    cases hitem : input? item with
    | none =>
      obtain ⟨hview, hanswer⟩ := hidle state item hitem
      rw [List.filterMap_cons_none hitem, List.filterMap_cons_none hanswer, ← hview]
      exact ⟨hlast, hanswers⟩
    | some input =>
      obtain ⟨hview, hanswer⟩ := hmove state item input hitem
      rw [List.filterMap_cons_some hitem, List.filterMap_cons_some hanswer, history_cons, ← hview]
      exact ⟨hlast, congrArg _ hanswers⟩

end Lockstep
